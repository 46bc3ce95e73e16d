import FlowCompiler.Proofs.Options.Exported
import FlowCompiler.Proofs.Program.Code

/-!
# Options handed on to nodes

A flow that exports an option of a node hands the value that it is given on to that node. The rows of a unit
say which option of which node takes its value from which option of the unit (`FlowUnit.handOn` applies them).

Main statement: `Session.Compiles.forwarding_sound`, for catalogs that were loaded. The node of a row has a type
with that option, a type for its options and a value for each of them, and the option of the unit has this
value as its default. So to hand the defaults on changes nothing. An option that is exported from level to
level, through nodes without settings, keeps the value of the innermost node (`Reexports`).
-/

namespace FlowCompiler

open List

variable {values : List ResolvedOption} {b : Binding} {settings : List Meta} {spec : OptionSpec}
  {option : String} {child : Nat}

/-! ## Values of options -/

namespace Descriptor

variable {d : Descriptor} {file : String}

/-- Whether values are those of the options of a type, one each and in their order. -/
def Aligned (d : Descriptor) (values : List ResolvedOption) : Prop :=
  List.Forall₂ (fun spec v => v.name = spec.name ∧ v.dataType = spec.dataType) d.options values

theorem overlay_aligned {values' : List ResolvedOption} {warnings : List Diagnostic}
    (hvalues : d.Aligned values) (h : (d.overlay file values warnings settings).2 = .ok values') :
    d.Aligned values' := by
  induction settings generalizing values warnings with
  | nil =>
    cases h
    exact hvalues
  | cons m rest ih =>
    unfold overlay at h
    split at h
    · cases h
    · split at h
      · cases h
      · next spec hspec => exact ih (forall₂_set hvalues ⟨rfl, rfl⟩ hspec) h

theorem defaults_aligned (d : Descriptor) : d.Aligned d.defaults := by
  rw [Aligned, defaults, forall₂_map_right_iff, forall₂_same]
  exact fun spec _ => ⟨rfl, rfl⟩

theorem encode_aligned (h : (d.encode file settings).2 = .ok values) : d.Aligned values :=
  overlay_aligned d.defaults_aligned h

/-- Gives the option of a name another value. -/
def give (d : Descriptor) (option : String) (value : Option Value) (values : List ResolvedOption) :
    List ResolvedOption :=
  match d.optionIndex? option with
  | none => values
  | some i => values.modify i fun v => { v with value }

theorem getElem?_give {i : Nat} (hi : d.optionIndex? option = some i) (value : Option Value)
    (values : List ResolvedOption) (j : Nat) :
    (d.give option value values)[j]? =
      if i = j then values[j]?.map fun v => { v with value } else values[j]? := by
  rw [give, hi]
  dsimp only
  rw [getElem?_modify]
  split <;> simp

/-- An option may be given the value that it has. -/
theorem give_self {i : Nat} (hi : d.optionIndex? option = some i) {v : ResolvedOption}
    (hv : values[i]? = some v) : d.give option v.value values = values := by
  refine ext_getElem? fun j => ?_
  rw [getElem?_give hi]
  split
  · next hj =>
    rw [← hj, hv]
    rfl
  · rfl

/-- Gives the option that a row names what the option of the unit has. -/
def giveRow (d : Descriptor) (given : String → Option Value) (values : List ResolvedOption)
    (r : ForwardingRow) : List ResolvedOption := d.give r.option (given r.parentField) values

end Descriptor

theorem Naming.forwarded_injective : Function.Injective Naming.forwarded := by
  intro a b h
  have hlist := congrArg String.toList h
  rw [forwarded, forwarded, String.toList_append, String.toList_append] at hlist
  exact String.toList_inj.mp (append_cancel_left hlist)

/-! ## Rows of a unit -/

namespace FlowUnit

variable {cfg : Config} {units all : List FlowUnit} {u : FlowUnit} {o : Graph.ExportedOption}

/-- The values of the options of a child after values are handed on to it. The rows for the child are applied
in their order; `given` is what the options of the unit have, by the names that rows use. -/
def handOn (u : FlowUnit) (given : String → Option Value) (child : Nat) (values : List ResolvedOption) :
    List ResolvedOption :=
  (u.forwarding.filter (·.child == child)).foldl ((Graph.typeAt u.types child).giveRow given) values

/-- The default of the option of a unit that rows use under a name. -/
def defaultOf (u : FlowUnit) (field : String) : Option Value :=
  (u.descriptor.options.find? fun o => Naming.forwarded o.name == field).bind (·.fallback)

/-- An exported option of a node with its value, which is the default of the option that the unit has for
it. -/
structure Handed (u : FlowUnit) (o : Graph.ExportedOption) (b : Binding) (i : Nat) (spec : OptionSpec)
    (values : List ResolvedOption) (value : Option Value) : Prop extends u.Inner o b i spec where
  encoded : (b.type.encode u.path b.settings).2 = .ok values
  stored : u.valuesAt o.node = some values
  entry : values[i]? = some ⟨o.option, spec.dataType, value⟩
  own : ⟨o.name, spec.dataType, value⟩ ∈ u.descriptor.options

theorem Compiled.mem_descriptor_options (h : u.Compiled cfg units) (ho : o ∈ u.graph.options)
    (hspec : u.exportedOption? o = some spec) : spec ∈ u.descriptor.options := by
  obtain ⟨symbol, hdescriptor⟩ := h.descriptor_eq
  rw [hdescriptor]
  exact mem_filterMap.mpr ⟨o, ho, hspec⟩

theorem Compiled.hasForwarding (h : u.Compiled cfg units) (ho : o ∈ u.graph.options) :
    u.hasForwarding o.node = true := by
  rw [FlowUnit.hasForwarding, h.forwarding_eq, any_eq_true]
  exact ⟨o.row, mem_map_of_mem ho, beq_self_eq_true o.node⟩

theorem Compiled.handed (h : u.Compiled cfg units) (ho : o ∈ u.graph.options) :
    ∃ b i spec values value, u.Handed o b i spec values value := by
  obtain ⟨b, i, spec, hinner⟩ := h.inner ho
  obtain ⟨values, hencoded, hvalues⟩ := h.forwarded_values hinner.node (h.hasForwarding ho)
  obtain ⟨v, hv, hname, hdata⟩ := getElem?_of_forall₂ (Descriptor.encode_aligned hencoded) hinner.found
  have hoption : u.optionValue o.node i spec.fallback = v.value := by
    simp [optionValue, hvalues, hv]
  have hown := h.mem_descriptor_options ho hinner.exportedOption?
  rw [hoption] at hown
  have hentry : v = ⟨o.option, spec.dataType, v.value⟩ := by rw [← hinner.name, ← hname, ← hdata]
  exact ⟨b, i, spec, values, v.value, hinner, hencoded, hvalues, hv.trans (congrArg some hentry), hown⟩

/-- Options of a unit have different names. -/
theorem Compiled.option_ext (h : u.Compiled cfg units) {a b : OptionSpec} (ha : a ∈ u.descriptor.options)
    (hb : b ∈ u.descriptor.options) (hname : a.name = b.name) : a = b := by
  obtain ⟨text, hparse⟩ := h.parsed
  have hnodup := (Graph.consistent_of_parse hparse).optionNames
  rw [← h.names_descriptor] at hnodup
  exact inj_on_of_nodup_map hnodup ha hb hname

theorem Compiled.defaultOf_forwarded (h : u.Compiled cfg units) (hspec : spec ∈ u.descriptor.options) :
    u.defaultOf (Naming.forwarded spec.name) = spec.fallback := by
  unfold defaultOf
  cases hfind : u.descriptor.options.find? fun o => Naming.forwarded o.name == Naming.forwarded spec.name with
  | none => exact absurd (beq_self_eq_true _) (find?_eq_none.mp hfind spec hspec)
  | some other =>
    have hname : other.name = spec.name :=
      Naming.forwarded_injective (by simpa using find?_some hfind)
    rw [h.option_ext (mem_of_find?_eq_some hfind) hspec hname]
    rfl

/-- To hand the defaults of a unit on to a child changes nothing. -/
theorem Compiled.handOn_defaultOf (h : u.Compiled cfg units) (hvalues : u.valuesAt child = some values) :
    u.handOn u.defaultOf child values = values := by
  refine List.foldlRecOn (motive := (· = values)) _ _ rfl ?_
  rintro _ rfl r hr
  obtain ⟨hmem, hchild⟩ := mem_filter.mp hr
  rw [h.forwarding_eq] at hmem
  obtain ⟨o, ho, rfl⟩ := mem_map.mp hmem
  obtain rfl : o.node = child := beq_iff_eq.mp hchild
  obtain ⟨b, i, spec, values', value, hhanded⟩ := h.handed ho
  cases hhanded.stored.symm.trans hvalues
  have hdefault : u.defaultOf (Naming.forwarded o.name) = value := h.defaultOf_forwarded hhanded.own
  change Descriptor.give _ o.option (u.defaultOf (Naming.forwarded o.name)) _ = _
  rw [typeAt_types hhanded.node, hdefault]
  exact Descriptor.give_self hhanded.index hhanded.entry

/-! ### Types of options -/

/-- The options of a child come as a literal with their values and are, where values are handed on to the
child, taken to be of the type of that literal. -/
structure Asserts (u : FlowUnit) (all : List FlowUnit) (child : Nat) (t : Descriptor)
    (values : List ResolvedOption) : Prop where
  literal : ∃ entries, t.optionsLiteral values = .withLines (Names.symbolExpr t.optionsSymbol) entries ∧
    .define [Names.optionsVariable child] (.withLines (Names.symbolExpr t.optionsSymbol) entries) ∈
      u.createBody all
  given : ∀ n, ("Options", .name (Names.optionsVariable child)) ∈ u.nodeFields child n
  asserted : (u.forwardTo child).head? =
    some (.define ["o"] (.assert (.name "opts") (Names.symbolExpr t.optionsSymbol)))

theorem asserts (hb : u.bindings[child]? = some b) (hvalues : u.valuesAt child = some values)
    (hne : b.type.optionsSymbol ≠ "") : u.Asserts all child b.type values where
  literal := ⟨_, rfl, optionVariable_mem_createBody hb hvalues hne⟩
  given n := by
    have hoptions : u.hasOptions child = true := by
      simp [hasOptions, hvalues, typeAt_types hb, hne]
    rw [nodeFields, if_pos hoptions]
    exact mem_cons_of_mem _ (mem_singleton_self _)
  asserted := by
    rw [forwardTo, typeAt_types hb]
    rfl

end FlowUnit

/-- Whether a type with options has a type for these. -/
def Descriptor.OptionsTyped (t : Descriptor) : Prop := t.options ≠ [] → t.optionsSymbol ≠ ""

theorem Descriptor.ofEntry_optionsTyped {t : TypeEntry} {d : Descriptor} (h : ofEntry t = .ok d) :
    d.OptionsTyped := by
  obtain ⟨hoptions, hsymbol, -⟩ := ofEntry_eq_ok h
  intro hne
  refine hsymbol fun hempty => hne ?_
  rw [hempty] at hoptions
  exact (Except.ok.inj hoptions).symm

/-- The types of nodes have types for their options if those of the catalog do. -/
theorem FlowUnit.Binds.optionsTyped {cfg : Config} {units : List FlowUnit} {u : FlowUnit}
    (h : u.Binds cfg units b) (hcommon : ∀ t ∈ cfg.common.types, t.OptionsTyped) (hdone : Done cfg 0 units) :
    b.type.OptionsTyped := by
  intro hne
  cases h with
  | external _ found => exact hcommon _ (mem_of_find?_eq_some found) hne
  | @subflow child _ _ _ _ _ stored _ type =>
    have hc := hdone.compiled (mem_of_getElem? stored)
    have hsymbol : child.optionsSymbol = b.type.optionsSymbol := by
      rw [FlowUnit.optionsSymbol, type]
      rfl
    have hoptions : b.type.options = child.describe.options := by
      obtain ⟨symbol, htype⟩ := hc.type
      rw [Option.some.inj (type.symm.trans htype)]
    rw [← hsymbol, Ne, hc.optionsSymbol_eq_empty_iff]
    intro hempty
    have hlength := hc.exported.length_eq
    rw [hempty, ← hoptions] at hlength
    exact hne (length_eq_zero_iff.mp hlength)
  | metatype _ _ _ _ _ options => exact absurd options hne

/-! ## Levels -/

/-- An option of a unit that is exported `levels` times again before it reaches the unit: each time it is an
option of a node without settings whose type is the flow that exports it. At the innermost level the unit `v`
exports `o`. -/
inductive Reexports (units : List FlowUnit) : FlowUnit → String → Nat → FlowUnit → Graph.ExportedOption → Prop
    where
  | direct {u : FlowUnit} {o : Graph.ExportedOption} (exported : o ∈ u.graph.options) :
      Reexports units u o.name 0 u o
  | through {u child v : FlowUnit} {o inner : Graph.ExportedOption} {b : Binding} {sub : Subflow}
      {levels : Nat} (exported : o ∈ u.graph.options) (node : u.bindings[o.node]? = some b)
      (role : b.role = .subflow) (unset : b.settings = [])
      (found : u.subflows.find? (·.name == b.type.name) = some sub) (stored : units[sub.child]? = some child)
      (rest : Reexports units child o.option levels v inner) :
      Reexports units u o.name (levels + 1) v inner

/-- The value that is encoded for the option of a node that a unit exports. -/
def FlowUnit.Encodes (u : FlowUnit) (o : Graph.ExportedOption) (value : ResolvedOption) : Prop :=
  ∃ b i values, u.bindings[o.node]? = some b ∧ b.type.optionIndex? o.option = some i ∧
    u.valuesAt o.node = some values ∧ values[i]? = some value

theorem FlowUnit.Binds.child_type {cfg : Config} {units : List FlowUnit} {u child : FlowUnit}
    {sub : Subflow} (h : u.Binds cfg units b) (hrole : b.role = .subflow)
    (hfound : u.subflows.find? (·.name == b.type.name) = some sub)
    (hstored : units[sub.child]? = some child) : child.type = some b.type := by
  cases h with
  | external role _ => cases role.symm.trans hrole
  | subflow _ _ _ found stored _ type =>
    cases found.symm.trans hfound
    cases stored.symm.trans hstored
    exact type
  | metatype role _ _ _ _ _ => cases role.symm.trans hrole

/-- Through nodes without settings the value of the innermost node becomes the default of the outermost
option. -/
theorem Reexports.default {cfg : Config} {units : List FlowUnit} (hdone : Done cfg 0 units)
    {u v : FlowUnit} {name : String} {levels : Nat} {o : Graph.ExportedOption}
    (h : Reexports units u name levels v o) (hu : u ∈ units) :
    ∃ value, v.Encodes o value ∧ ⟨name, value.dataType, value.value⟩ ∈ u.descriptor.options := by
  induction h with
  | direct exported =>
    obtain ⟨b, i, spec, values, value, hhanded⟩ := (hdone.compiled hu).handed exported
    exact ⟨_, ⟨b, i, values, hhanded.node, hhanded.index, hhanded.stored, hhanded.entry⟩, hhanded.own⟩
  | @through u child v o inner b sub levels exported node role unset found stored rest ih =>
    have hc := hdone.compiled hu
    have hchild := mem_of_getElem? stored
    obtain ⟨value, hencodes, hinner⟩ := ih hchild
    refine ⟨value, hencodes, ?_⟩
    obtain ⟨b', i, spec, values, value', hhanded⟩ := hc.handed exported
    cases node.symm.trans hhanded.node
    -- Nothing is set on the node, so its option has the default that the child gives it.
    have hdefaults : values = b.type.defaults := by
      have hencoded := hhanded.encoded
      rw [unset] at hencoded
      exact (Except.ok.inj hencoded).symm
    have hspec : spec = ⟨o.option, value.dataType, value.value⟩ := by
      have htype := (hc.binds b (mem_of_getElem? node)).child_type role found stored
      have hdescriptor : child.descriptor = b.type := by rw [FlowUnit.descriptor, htype]; rfl
      refine (hdone.compiled hchild).option_ext ?_ hinner hhanded.name
      rw [hdescriptor]
      exact mem_of_getElem? hhanded.found
    have hentry := hhanded.entry
    rw [hdefaults, Descriptor.defaults, getElem?_map, hhanded.found, Option.map_some, hspec] at hentry
    cases hentry
    have hown := hhanded.own
    rw [hspec] at hown
    exact hown

namespace Session

variable {cfg : Config}

/-- Options are handed on soundly at every level, for a flow compiled with catalogs that were loaded. For each
row of a unit the type of its node has the option and a type for options, and there are values, one for each
option of that type; the code builds a literal of that type from them and takes it as such. One option of the
unit has the name of the row. It has the data type and, as its default, the value of the node's option. To hand
these defaults on to a child changes nothing. An option that is exported again, through nodes without settings,
has as its default the value that is encoded on the innermost node. -/
theorem Compiles.forwarding_sound {documents : List (String × String)} {s : Session} {root : FlowUnit}
    (h : s.Compiles { cfg with common := Catalog.ofDocuments documents } root) : ∀ u ∈ s.units,
    (∀ r ∈ u.forwarding, ∃ b i spec values own,
      u.bindings[r.child]? = some b ∧ b.type.optionIndex? r.option = some i ∧
      b.type.options[i]? = some spec ∧ b.type.optionsSymbol ≠ "" ∧
      u.valuesAt r.child = some values ∧ b.type.Aligned values ∧ u.Asserts s.units r.child b.type values ∧
      (∀ o, o ∈ u.descriptor.options ∧ Naming.forwarded o.name = r.parentField ↔ o = own) ∧
      own.dataType = spec.dataType ∧ values[i]? = some ⟨r.option, own.dataType, own.fallback⟩) ∧
    (∀ child values, u.valuesAt child = some values → u.handOn u.defaultOf child values = values) ∧
    ∀ name levels v o, Reexports s.units u name levels v o → ∃ value, v.Encodes o value ∧
      ∀ spec, spec ∈ u.descriptor.options ∧ spec.name = name ↔ spec = ⟨name, value.dataType, value.value⟩ := by
  have hdone := h.done.2
  intro u hu
  have hc := hdone.compiled hu
  refine ⟨fun r hr => ?_, fun child values => hc.handOn_defaultOf, fun name levels v o hre => ?_⟩
  · rw [hc.forwarding_eq] at hr
    obtain ⟨o, ho, rfl⟩ := mem_map.mp hr
    obtain ⟨b, i, spec, values, value, hhanded⟩ := hc.handed ho
    have hb := mem_of_getElem? hhanded.node
    have hsymbol : b.type.optionsSymbol ≠ "" := by
      refine (hc.binds b hb).optionsTyped ?_ hdone (ne_nil_of_mem (mem_of_getElem? hhanded.found))
      exact Catalog.ofDocuments_forall (fun _ _ => Descriptor.ofEntry_optionsTyped) documents
    refine ⟨b, i, spec, values, ⟨o.name, spec.dataType, value⟩, hhanded.node, hhanded.index, hhanded.found,
      hsymbol, hhanded.stored, Descriptor.encode_aligned hhanded.encoded,
      FlowUnit.asserts hhanded.node hhanded.stored hsymbol, fun o' => ⟨?_, ?_⟩, rfl, hhanded.entry⟩
    · rintro ⟨ho', hname⟩
      exact hc.option_ext ho' hhanded.own (Naming.forwarded_injective hname)
    · rintro rfl
      exact ⟨hhanded.own, rfl⟩
  · obtain ⟨value, hencodes, hmem⟩ := hre.default hdone hu
    refine ⟨value, hencodes, fun spec => ⟨?_, ?_⟩⟩
    · rintro ⟨hspec, hname⟩
      exact hc.option_ext hspec hmem hname
    · rintro rfl
      exact ⟨hmem, rfl⟩

/-- A type with an option that has a default. -/
def levelsDocument : String × String :=
  ("t:\n- name: osc\n  symbol: l.A\n  options_symbol: l.B\n  options:\n    members:\n    - name: level\n      data_type: string\n      default: low\n",
    "c.yaml")

/-- A flow in a file that sets an option and exports it, and one that exports it again. -/
def levelsConfig : Config where
  storage := ⟨["w"], [(["w"], .directory),
    (["w", "inner.fbp"], .file "OPTION=a.level:gain\na(osc:level=high)" 0),
    (["w", "middle.fbp"], .file "DECLARE=Inner:fbp:inner.fbp\nOPTION=i.gain:amp\ni(Inner)" 0)]⟩

/-- The session of a flow that exports the option once more. -/
def levelsSession : Session × Except CompileError FlowUnit :=
  compileText {} { levelsConfig with common := Catalog.ofDocuments [levelsDocument] } "main.fbp"
    "DECLARE=Middle:fbp:middle.fbp\nOPTION=m.amp:volume\nm(Middle)"

/-- The value that is set two levels below is the default. -/
theorem Compiles.forwarding_sound_levels :
    ∃ root v o, levelsSession.1.Compiles
        { levelsConfig with common := Catalog.ofDocuments [levelsDocument] } root ∧
      Reexports levelsSession.1.units root "volume" 2 v o ∧ o.option = "level" ∧
      ∀ spec, spec ∈ root.descriptor.options ∧ spec.name = "volume" ↔
        spec = ⟨"volume", "string", some (.text "high")⟩ := by
  have hfacts : levelsSession.2.toOption.isSome = true ∧ levelsSession.1.units.length = 3 ∧
      levelsSession.1.units.map (·.graph.options) = [[⟨0, "amp", "volume", ⟨2, 8⟩⟩],
        [⟨0, "gain", "amp", ⟨2, 8⟩⟩], [⟨0, "level", "gain", ⟨1, 8⟩⟩]] ∧
      levelsSession.1.units.map (fun u => u.bindings.map fun b => (b.role, b.settings.length, b.type.name)) =
        [[(.subflow, 0, "Middle")], [(.subflow, 0, "Inner")], [(.external, 1, "osc")]] ∧
      levelsSession.1.units.map (·.subflows) = [[⟨"Middle", 1, ⟨1, 9⟩⟩], [⟨"Inner", 2, ⟨1, 9⟩⟩], []] ∧
      levelsSession.1.units.getLast?.map (fun u => (u.valuesAt 0, u.types.map (·.optionIndex? "level"))) =
        some (some [⟨"level", "string", some (.text "high")⟩], [some 0]) := by
    decide +kernel
  obtain ⟨hok, hlength, hoptions, hbindings, hsubflows, hvalues⟩ := hfacts
  obtain ⟨root, h⟩ : ∃ root, levelsSession.1.Compiles
      { levelsConfig with common := Catalog.ofDocuments [levelsDocument] } root := exists_compiles rfl hok
  obtain ⟨more, hroot⟩ := h.done.1
  obtain ⟨_, middle, inner, hunits⟩ := length_eq_three.mp hlength
  cases hroot.symm.trans hunits
  rw [hunits] at hoptions hbindings hsubflows hvalues
  simp only [map_cons, map_nil, List.cons.injEq, and_true, map_eq_singleton_iff, Prod.mk.injEq,
    length_eq_zero_iff, getLast?_cons_cons, getLast?_singleton, Option.map_some,
    Option.some.injEq] at hoptions hbindings hsubflows hvalues
  obtain ⟨ho₀, ho₁, ho₂⟩ := hoptions
  obtain ⟨⟨b₀, hb₀, hrole₀, hset₀, hname₀⟩, ⟨b₁, hb₁, hrole₁, hset₁, hname₁⟩, b₂, hb₂, -⟩ := hbindings
  obtain ⟨hs₀, hs₁, -⟩ := hsubflows
  obtain ⟨hvalues, t, htypes, hindex⟩ := hvalues
  have hinner : Reexports levelsSession.1.units inner "gain" 0 inner ⟨0, "level", "gain", ⟨1, 8⟩⟩ :=
    .direct (by rw [ho₂]; exact mem_singleton_self _)
  have hmiddle : Reexports levelsSession.1.units middle "amp" 1 inner ⟨0, "level", "gain", ⟨1, 8⟩⟩ :=
    .through (o := ⟨0, "gain", "amp", ⟨2, 8⟩⟩) (by rw [ho₁]; exact mem_singleton_self _)
      (by rw [hb₁]; rfl) hrole₁ hset₁ (by rw [hs₁, hname₁]; rfl) (by rw [hunits]; rfl) hinner
  have houter : Reexports levelsSession.1.units root "volume" 2 inner ⟨0, "level", "gain", ⟨1, 8⟩⟩ :=
    .through (o := ⟨0, "amp", "volume", ⟨2, 8⟩⟩) (by rw [ho₀]; exact mem_singleton_self _)
      (by rw [hb₀]; rfl) hrole₀ hset₀ (by rw [hs₀, hname₀]; rfl) (by rw [hunits]; rfl) hmiddle
  obtain ⟨-, -, hlevels⟩ := h.forwarding_sound root h.root_mem
  obtain ⟨value, ⟨b, i, values, hb, hi, hstored, hat⟩, hspec⟩ := hlevels _ _ _ _ houter
  rw [FlowUnit.types, hb₂] at htypes
  rw [hb₂] at hb
  cases hb
  cases htypes
  cases hindex.symm.trans hi
  cases hvalues.symm.trans hstored
  cases hat
  exact ⟨root, inner, _, h, houter, rfl, hspec⟩

end Session

end FlowCompiler
