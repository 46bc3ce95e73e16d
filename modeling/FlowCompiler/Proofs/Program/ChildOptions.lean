import FlowCompiler.Proofs.Naming.Fields
import FlowCompiler.Proofs.Options.Forwarding

/-!
# The code that hands options on

A unit hands the values of its options on to a child by assignments, one for each row of the child. A flow may
export an option of a node under several names. Then the assignments for them have the same target, and the
last one decides.

`Runs` says what such code does with values of record types. Main statement:
`Session.Compiles.exported_options_kept_iff`. What a unit is given for its options reaches all the options that
its rows name if and only if no two rows name the same option of the same child. Of rows that do, the last one
is kept.
-/

namespace FlowCompiler

open List Source

variable {child i : Nat}

/-! ## Values of single options -/

namespace Descriptor

variable {d : Descriptor} {option : String} {value : Option Value} {values : List ResolvedOption}

/-- The value of the option of a name, if there is one of that name. -/
def valueOf (d : Descriptor) (option : String) (values : List ResolvedOption) : Option (Option Value) :=
  (d.optionIndex? option).bind fun i => values[i]?.map (·.value)

theorem give_aligned (hvalues : d.Aligned values) : d.Aligned (d.give option value values) := by
  unfold give
  split
  · exact hvalues
  · next i hi =>
    obtain ⟨spec, hspec, -⟩ := optionIndex?_eq_some hi
    obtain ⟨v, hv, hname, hdata⟩ := getElem?_of_forall₂ hvalues hspec
    rw [modify_eq_set_getElem?, hv]
    exact forall₂_set (y := { v with value }) hvalues ⟨hname, hdata⟩ hspec

/-- Only the option that is given a value changes. -/
theorem give_split {v : ResolvedOption} (hi : d.optionIndex? option = some i) (hv : values[i]? = some v)
    (value : Option Value) :
    ∃ before after, values = before ++ v :: after ∧
      d.give option value values = before ++ { v with value } :: after := by
  obtain ⟨before, w, after, hsplit, hlength, hmodify⟩ :=
    exists_of_modify (fun v : ResolvedOption => { v with value }) (List.getElem?_eq_some_iff.mp hv).1
  obtain rfl : w = v := by
    rw [hsplit, ← hlength, getElem?_append_right (Nat.le_refl _), Nat.sub_self] at hv
    exact Option.some.inj hv
  exact ⟨before, after, hsplit, by rw [← hmodify, give, hi]⟩

theorem valueOf_give_self (hi : d.optionIndex? option = some i) (hvalues : d.Aligned values) :
    d.valueOf option (d.give option value values) = some value := by
  obtain ⟨spec, hspec, -⟩ := optionIndex?_eq_some hi
  obtain ⟨v, hv, -⟩ := getElem?_of_forall₂ hvalues hspec
  simp [valueOf, hi, getElem?_give hi, hv]

theorem valueOf_give_of_ne {other : String} (hne : other ≠ option) :
    d.valueOf option (d.give other value values) = d.valueOf option values := by
  cases hj : d.optionIndex? other with
  | none => rw [give, hj]
  | some j =>
    cases hi : d.optionIndex? option with
    | none => simp [valueOf, hi]
    | some i =>
      have hij : j ≠ i := by
        rintro rfl
        obtain ⟨spec, hspec, hname⟩ := optionIndex?_eq_some hj
        obtain ⟨spec', hspec', hname'⟩ := optionIndex?_eq_some hi
        cases hspec.symm.trans hspec'
        exact hne (hname.symm.trans hname')
      simp [valueOf, hi, getElem?_give hj, hij]

end Descriptor

/-! ## Rows in their order -/

/-- Whether two rows name the same option of the same child. -/
def ForwardingRow.SameTarget (a b : ForwardingRow) : Prop := a.child = b.child ∧ a.option = b.option

instance : DecidableRel ForwardingRow.SameTarget := fun a b =>
  inferInstanceAs (Decidable (a.child = b.child ∧ a.option = b.option))

namespace FlowUnit

variable {cfg : Config} {units : List FlowUnit} {u : FlowUnit}

/-- A row names an option of its child, and one of the unit, with the same data type. -/
theorem Compiled.row_found (h : u.Compiled cfg units) {r : ForwardingRow} (hr : r ∈ u.forwarding) :
    ∃ i spec, ∃ own ∈ u.descriptor.options, (Graph.typeAt u.types r.child).optionIndex? r.option = some i ∧
      (Graph.typeAt u.types r.child).options[i]? = some spec ∧ spec.name = r.option ∧
      r.parentField = Naming.forwarded own.name ∧ own.dataType = spec.dataType := by
  rw [h.forwarding_eq] at hr
  obtain ⟨o, ho, rfl⟩ := mem_map.mp hr
  obtain ⟨b, i, spec, values, value, hhanded⟩ := h.handed ho
  have htype : Graph.typeAt u.types o.row.child = b.type := typeAt_types hhanded.node
  rw [htype]
  exact ⟨i, spec, _, hhanded.own, hhanded.index, hhanded.found, hhanded.name, rfl, rfl⟩

/-- Rows take their values from different options of the unit. -/
theorem Compiled.nodup_parentFields (h : u.Compiled cfg units) :
    (u.forwarding.map (·.parentField)).Nodup := by
  obtain ⟨text, hparse⟩ := h.parsed
  have hfields : u.forwarding.map (·.parentField) = (u.graph.options.map (·.name)).map Naming.forwarded := by
    rw [h.forwarding_eq, map_map, map_map]
    rfl
  rw [hfields]
  exact (Graph.consistent_of_parse hparse).optionNames.map Naming.forwarded_injective

section Rows

variable {d : Descriptor} {given : String → Option Value} {values : List ResolvedOption}

/-- Rows keep one value for each option. -/
theorem foldl_give_aligned (rows : List ForwardingRow) (hvalues : d.Aligned values) :
    d.Aligned (rows.foldl (d.giveRow given) values) :=
  List.foldlRecOn (motive := d.Aligned) rows _ hvalues fun _ hb _ _ => Descriptor.give_aligned hb

/-- Rows that name other options leave an option as it is. -/
theorem valueOf_foldl_give {option : String} {rows : List ForwardingRow}
    (hrows : ∀ r ∈ rows, r.option ≠ option) :
    d.valueOf option (rows.foldl (d.giveRow given) values) = d.valueOf option values := by
  refine List.foldlRecOn (motive := fun b => d.valueOf option b = d.valueOf option values) rows _ rfl ?_
  intro b hb r hr
  rw [Descriptor.giveRow, Descriptor.valueOf_give_of_ne (hrows r hr), hb]

end Rows

/-- The last row for an option decides what its value is. -/
theorem Compiled.valueOf_handOn (h : u.Compiled cfg units) {before after : List ForwardingRow}
    {last : ForwardingRow} (hsplit : u.forwarding = before ++ last :: after)
    (hlast : ∀ r ∈ after, ¬ r.SameTarget last) {given : String → Option Value} {values : List ResolvedOption}
    (hvalues : (Graph.typeAt u.types last.child).Aligned values) :
    (Graph.typeAt u.types last.child).valueOf last.option (u.handOn given last.child values) =
      some (given last.parentField) := by
  obtain ⟨i, spec, own, -, hi, -⟩ := h.row_found (r := last) (by rw [hsplit]; simp)
  have hlater : ∀ r ∈ after.filter (·.child == last.child), r.option ≠ last.option := by
    intro r hr hoption
    obtain ⟨hmem, hchild⟩ := mem_filter.mp hr
    exact hlast r hmem ⟨beq_iff_eq.mp hchild, hoption⟩
  have hrows : u.forwarding.filter (·.child == last.child) =
      before.filter (·.child == last.child) ++ last :: after.filter (·.child == last.child) := by
    rw [hsplit, filter_append, filter_cons, if_pos (beq_self_eq_true _)]
  rw [handOn, hrows, foldl_append, foldl_cons, valueOf_foldl_give hlater]
  exact Descriptor.valueOf_give_self hi (foldl_give_aligned _ hvalues)

/-- Values are handed on to all options that rows name if no two rows name the same one. -/
theorem Compiled.valueOf_handOn_iff (h : u.Compiled cfg units) :
    (∀ given, ∀ r ∈ u.forwarding, ∀ values, (Graph.typeAt u.types r.child).Aligned values →
      (Graph.typeAt u.types r.child).valueOf r.option (u.handOn given r.child values) =
        some (given r.parentField)) ↔
    u.forwarding.Pairwise fun a b => ¬ a.SameTarget b := by
  constructor
  · intro hkept
    have hnodup := h.nodup_parentFields
    refine hnodup.of_map.pairwise_of_forall_ne fun a ha b hb hab hsame => hab ?_
    refine inj_on_of_nodup_map hnodup ha hb ?_
    -- An option has one value, so all assignments give the two names the same.
    have hgiven : ∀ given : String → Option Value, given a.parentField = given b.parentField := by
      intro given
      have hvalues := (Graph.typeAt u.types a.child).defaults_aligned
      have hkeptA := hkept given a ha _ hvalues
      rw [hsame.1] at hvalues
      have hkeptB := hkept given b hb _ hvalues
      rw [hsame.1, hsame.2] at hkeptA
      exact Option.some.inj (hkeptA.symm.trans hkeptB)
    have hfield := hgiven fun field => some (.text field)
    simpa using hfield
  · intro hdistinct given r hr values hvalues
    obtain ⟨before, after, hsplit⟩ := append_of_mem hr
    refine h.valueOf_handOn hsplit (fun r' hr' hsame => ?_) hvalues
    rw [hsplit] at hdistinct
    have hpair := (pairwise_cons.mp (pairwise_append.mp hdistinct).2.1).1 r' hr'
    exact hpair ⟨hsame.1.symm, hsame.2.symm⟩

end FlowUnit

/-! ## What the code does -/

/-- A value of a record type: its type, and what its fields were given. -/
structure RecordValue where
  type : Expr
  fields : String → Option Expr

/-- Gives a field another value. -/
def RecordValue.set (v : RecordValue) (field : String) (e : Option Expr) : RecordValue :=
  { v with fields := Function.update v.fields field e }

/-- What a literal gives a field. -/
def fieldIn? (field : String) : List (Expr × Expr) → Option Expr
  | [] => none
  | (.name k, e) :: rest => if k = field then some e else fieldIn? field rest
  | _ :: rest => fieldIn? field rest

/-- The value of a literal. -/
def recordOf? : Expr → Option RecordValue
  | .record type fields _ => some ⟨type, fun field => fieldIn? field fields⟩
  | _ => none

/-- Code that defines variables of record types, by a literal or as another one of a known type, copies fields
from one to another, and gives one of them as its result. Variables hold values: a copy does not change with
what it was copied from. -/
inductive Runs : (String → Option RecordValue) → List Stmt → RecordValue → Prop where
  | literal {vars : String → Option RecordValue} {x : String} {e : Expr} {v result : RecordValue}
      {rest : List Stmt} (value : recordOf? e = some v)
      (run : Runs (Function.update vars x (some v)) rest result) : Runs vars (.define [x] e :: rest) result
  | asserted {vars : String → Option RecordValue} {x y : String} {v result : RecordValue} {rest : List Stmt}
      (known : vars y = some v) (run : Runs (Function.update vars x (some v)) rest result) :
      Runs vars (.define [x] (.assert (.name y) v.type) :: rest) result
  | copied {vars : String → Option RecordValue} {x y field source : String} {v w result : RecordValue}
      {rest : List Stmt} (target : vars x = some v) (origin : vars y = some w)
      (run : Runs (Function.update vars x (some (v.set field (w.fields source)))) rest result) :
      Runs vars (.assign [.member (.name x) field] (.member (.name y) source) :: rest) result
  | given {vars : String → Option RecordValue} {x : String} {v : RecordValue} (known : vars x = some v) :
      Runs vars [.give [.name x, .null]] v

section Runs

variable {vars : String → Option RecordValue} {x y field source : String} {v w result : RecordValue}
  {rest : List Stmt}

theorem runs_literal_iff {e : Expr} (he : recordOf? e = some v) :
    Runs vars (.define [x] e :: rest) result ↔ Runs (Function.update vars x (some v)) rest result := by
  constructor
  · intro h
    cases h with
    | literal value run =>
      cases he.symm.trans value
      exact run
    | asserted => cases he
  · exact .literal he

theorem runs_asserted_iff (hy : vars y = some v) :
    Runs vars (.define [x] (.assert (.name y) v.type) :: rest) result ↔
      Runs (Function.update vars x (some v)) rest result := by
  constructor
  · generalize htype : v.type = t
    intro h
    cases h with
    | literal value => cases value
    | asserted known run =>
      cases hy.symm.trans known
      exact run
  · exact .asserted hy

theorem runs_copied_iff (hx : vars x = some v) (hy : vars y = some w) :
    Runs vars (.assign [.member (.name x) field] (.member (.name y) source) :: rest) result ↔
      Runs (Function.update vars x (some (v.set field (w.fields source)))) rest result := by
  constructor
  · intro h
    cases h with
    | copied target origin run =>
      cases hx.symm.trans target
      cases hy.symm.trans origin
      exact run
  · exact .copied hx hy

theorem runs_given_iff (hx : vars x = some v) : Runs vars [.give [.name x, .null]] result ↔ result = v := by
  constructor
  · intro h
    cases h with
    | given known => exact Option.some.inj (known.symm.trans hx)
  · rintro rfl
    exact .given hx

end Runs

namespace Descriptor

variable {d : Descriptor} {values : List ResolvedOption}

/-- What the literal for option values gives the field of an option. -/
def shownAs (d : Descriptor) (field : String) (o : ResolvedOption) : Option Expr :=
  if Naming.optionField d o.name = field then o.value.bind (·.expr? o.dataType) else none

/-- The value of the literal for option values. -/
def optionsValue (d : Descriptor) (values : List ResolvedOption) : RecordValue where
  type := Names.symbolExpr d.optionsSymbol
  fields field := values.findSome? (d.shownAs field)

theorem recordOf?_optionsLiteral (d : Descriptor) (values : List ResolvedOption) :
    recordOf? (d.optionsLiteral values) = some (d.optionsValue values) := by
  refine congrArg (fun fields => some (RecordValue.mk (Names.symbolExpr d.optionsSymbol) fields))
    (funext fun field => ?_)
  induction values with
  | nil => rfl
  | cons o values ih =>
    rw [filterMap_cons, findSome?_cons, ← ih, shownAs]
    cases o.value.bind (·.expr? o.dataType) with
    | none => simp
    | some e =>
      rw [map_cons, fieldIn?]
      by_cases hfield : Naming.optionField d o.name = field <;> simp [hfield]

/-- A field that is not one of the options has no value. -/
theorem findSome?_shownAs {field : String}
    (h : field ∉ values.map fun o => Naming.optionField d o.name) : values.findSome? (d.shownAs field) = none := by
  refine findSome?_eq_none_iff.mpr fun o ho => if_neg fun hfield => h ?_
  exact hfield ▸ mem_map_of_mem ho

theorem Aligned.fields (hvalues : d.Aligned values) :
    (values.map fun o => Naming.optionField d o.name) = d.optionFields := by
  rw [optionFields, ← forall₂_eq_eq_eq, forall₂_map_left_iff, forall₂_map_right_iff]
  exact hvalues.flip.imp fun v spec h => by rw [h.1]

/-- The field of an option has its value if no other option has the same field. -/
theorem fields_optionsValue (hfields : d.optionFields.Nodup) (hvalues : d.Aligned values) {o : ResolvedOption}
    (ho : o ∈ values) :
    (d.optionsValue values).fields (Naming.optionField d o.name) = o.value.bind (·.expr? o.dataType) := by
  obtain ⟨before, after, rfl⟩ := append_of_mem ho
  rw [← hvalues.fields, map_append, map_cons, nodup_middle, nodup_cons, mem_append,
    not_or] at hfields
  obtain ⟨⟨hbefore, hafter⟩, -⟩ := hfields
  have hshown : d.shownAs (Naming.optionField d o.name) o = o.value.bind (·.expr? o.dataType) := if_pos rfl
  dsimp only [optionsValue]
  rw [findSome?_append, findSome?_shownAs hbefore, findSome?_cons, findSome?_shownAs hafter, hshown]
  cases o.value.bind (·.expr? o.dataType) <;> rfl

/-- To give an option another value is to set its field. -/
theorem optionsValue_give (hfields : d.optionFields.Nodup) (hvalues : d.Aligned values) {option : String}
    {spec : OptionSpec} (hi : d.optionIndex? option = some i) (hspec : d.options[i]? = some spec)
    (hname : spec.name = option) (value : Option Value) :
    d.optionsValue (d.give option value values) =
      (d.optionsValue values).set (Naming.optionField d option) (value.bind (·.expr? spec.dataType)) := by
  obtain ⟨v, hv, hvname, hvdata⟩ := getElem?_of_forall₂ hvalues hspec
  obtain ⟨before, after, hsplit, hgive⟩ := give_split hi hv value
  have hfield : Naming.optionField d v.name = Naming.optionField d option := by rw [hvname, hname]
  have haligned : d.Aligned (d.give option value values) := give_aligned hvalues
  have hnew := fields_optionsValue hfields haligned (o := { v with value }) (by rw [hgive]; simp)
  refine congrArg (RecordValue.mk _) (funext fun field => ?_)
  by_cases hset : field = Naming.optionField d option
  · subst hset
    rw [Function.update_self, ← hvdata, ← hfield]
    exact hnew
  · have hshown : ∀ o : ResolvedOption, o.name = v.name → d.shownAs field o = none := by
      intro o ho
      refine if_neg ?_
      rw [ho, hfield]
      exact Ne.symm hset
    rw [Function.update_of_ne hset, hgive]
    dsimp only [optionsValue]
    rw [hsplit, findSome?_append, findSome?_append, findSome?_cons, findSome?_cons,
      hshown { v with value } rfl, hshown v rfl]

end Descriptor

namespace FlowUnit

variable {cfg : Config} {units : List FlowUnit} {u : FlowUnit} {given : String → Option Value}
  {values : List ResolvedOption}

/-- What the options of a unit are given, as their values. -/
def resolved (u : FlowUnit) (given : String → Option Value) : List ResolvedOption :=
  u.descriptor.options.map fun o => ⟨o.name, o.dataType, given (Naming.forwarded o.name)⟩

theorem resolved_aligned (u : FlowUnit) (given : String → Option Value) :
    u.descriptor.Aligned (u.resolved given) := by
  rw [Descriptor.Aligned, resolved, forall₂_map_right_iff, forall₂_same]
  exact fun spec _ => ⟨rfl, rfl⟩

/-- A row reads what the option that it names is given. -/
theorem Compiled.fields_resolved (h : u.Compiled cfg units) (hfields : u.optionFields.Nodup)
    (given : String → Option Value) {own : OptionSpec} (hown : own ∈ u.descriptor.options) :
    (u.descriptor.optionsValue (u.resolved given)).fields (Naming.exported (Naming.forwarded own.name)) =
      (given (Naming.forwarded own.name)).bind (·.expr? own.dataType) := by
  rw [← h.optionField_descriptor]
  exact Descriptor.fields_optionsValue hfields (u.resolved_aligned given)
    (o := ⟨own.name, own.dataType, given (Naming.forwarded own.name)⟩) (mem_map_of_mem hown)

/-- The assignments for rows of a child give it the values that the rows hand on. -/
theorem Compiled.runs_copies (h : u.Compiled cfg units) (hown : u.optionFields.Nodup)
    (hfields : (Graph.typeAt u.types child).optionFields.Nodup) {rows : List ForwardingRow}
    (hrows : ∀ r ∈ rows, r ∈ u.forwarding ∧ r.child = child)
    (hvalues : (Graph.typeAt u.types child).Aligned values) {vars : String → Option RecordValue}
    (hp : vars "p" = some (u.descriptor.optionsValue (u.resolved given)))
    (ho : vars "o" = some ((Graph.typeAt u.types child).optionsValue values)) (result : RecordValue) :
    Runs vars ((rows.map fun r =>
        .assign [.member (.name "o") (Naming.optionField (Graph.typeAt u.types child) r.option)]
          (.member (.name "p") (Naming.exported r.parentField))) ++ [.give [.name "o", .null]]) result ↔
      result = (Graph.typeAt u.types child).optionsValue
        (rows.foldl ((Graph.typeAt u.types child).giveRow given) values) := by
  -- The variable `o` always has the values that the rows so far handed on, and `p` stays.
  induction rows generalizing values vars with
  | nil => exact runs_given_iff ho
  | cons r rows ih =>
    obtain ⟨⟨hr, rfl⟩, hrest⟩ := forall_mem_cons.mp hrows
    obtain ⟨i, spec, own, hmem, hi, hspec, hname, hparent, hdata⟩ := h.row_found hr
    have hset := Descriptor.optionsValue_give hfields hvalues hi hspec hname (given r.parentField)
    change Descriptor.optionsValue _ (Descriptor.giveRow _ given values r) = _ at hset
    rw [hparent, ← hdata, ← h.fields_resolved hown given hmem, ← hparent] at hset
    rw [map_cons, cons_append, runs_copied_iff ho hp, ← hset, foldl_cons]
    refine ih hrest (Descriptor.give_aligned hvalues) ?_ (Function.update_self _ _ _)
    rw [Function.update_of_ne (by decide), hp]

/-- The code for a child gives it the values that the rows hand on. -/
theorem Compiled.runs_forwardTo (h : u.Compiled cfg units) (hown : u.optionFields.Nodup)
    (hfields : (Graph.typeAt u.types child).optionFields.Nodup)
    (hvalues : (Graph.typeAt u.types child).Aligned values) (result : RecordValue) :
    Runs (fun _ => none) (.define ["p"] (u.descriptor.optionsLiteral (u.resolved given)) ::
        .define ["opts"] ((Graph.typeAt u.types child).optionsLiteral values) :: u.forwardTo child) result ↔
      result = (Graph.typeAt u.types child).optionsValue (u.handOn given child values) := by
  have hrows : ∀ r ∈ u.forwarding.filter (·.child == child), r ∈ u.forwarding ∧ r.child = child := by
    intro r hr
    obtain ⟨hmem, hchild⟩ := mem_filter.mp hr
    exact ⟨hmem, beq_iff_eq.mp hchild⟩
  rw [runs_literal_iff (Descriptor.recordOf?_optionsLiteral _ _),
    runs_literal_iff (Descriptor.recordOf?_optionsLiteral _ _), forwardTo, append_assoc,
    singleton_append]
  refine Iff.trans (runs_asserted_iff (v := (Graph.typeAt u.types child).optionsValue values)
    (Function.update_self _ _ _)) ?_
  refine h.runs_copies hown hfields hrows hvalues ?_ (Function.update_self _ _ _) result
  rw [Function.update_of_ne (by decide), Function.update_of_ne (by decide), Function.update_self]

end FlowUnit

namespace Session

variable {cfg : Config} {s : Session} {root : FlowUnit}

/-- Whatever a unit is given for its options, each of its rows brings the value to the option that it names if
and only if no two rows name the same option of the same child. In any case the last row for an option is the
one that is kept, and no two rows take their value from the same option of the unit. The code for a child does
this: from literals for what the unit is given and for the options of the child it makes the record that a
literal for the values handed on is, provided that options do not share fields. -/
theorem Compiles.exported_options_kept_iff (h : s.Compiles cfg root) : ∀ u ∈ s.units,
    ((∀ given, ∀ r ∈ u.forwarding, ∀ values, (Graph.typeAt u.types r.child).Aligned values →
        (Graph.typeAt u.types r.child).valueOf r.option (u.handOn given r.child values) =
          some (given r.parentField)) ↔
      u.forwarding.Pairwise fun a b => ¬ a.SameTarget b) ∧
    (∀ before last after, u.forwarding = before ++ last :: after → (∀ r ∈ after, ¬ r.SameTarget last) →
      ∀ given values, (Graph.typeAt u.types last.child).Aligned values →
        (Graph.typeAt u.types last.child).valueOf last.option (u.handOn given last.child values) =
          some (given last.parentField)) ∧
    (u.forwarding.map (·.parentField)).Nodup ∧
    ∀ given child values, (Graph.typeAt u.types child).Aligned values → u.optionFields.Nodup →
      (Graph.typeAt u.types child).optionFields.Nodup → ∃ record, ∀ result,
        (Runs (fun _ => none) (.define ["p"] (u.descriptor.optionsLiteral (u.resolved given)) ::
          .define ["opts"] ((Graph.typeAt u.types child).optionsLiteral values) :: u.forwardTo child) result ↔
          result = record) ∧
        (Runs (fun _ => none)
          [.define ["o"] ((Graph.typeAt u.types child).optionsLiteral (u.handOn given child values)),
            .give [.name "o", .null]] result ↔ result = record) := by
  intro u hu
  have hc := h.done.2.compiled hu
  refine ⟨hc.valueOf_handOn_iff, fun before last after hsplit hlast given values =>
    hc.valueOf_handOn hsplit hlast, hc.nodup_parentFields, fun given child values hvalues hown hfields => ?_⟩
  refine ⟨_, fun result => ⟨hc.runs_forwardTo hown hfields hvalues result, ?_⟩⟩
  rw [runs_literal_iff (Descriptor.recordOf?_optionsLiteral _ _)]
  exact runs_given_iff (Function.update_self _ _ _)

/-- Options of the same name, and others, that are exported from two nodes. -/
def keptText : String := "OPTION=a.x:p\nOPTION=b.x:q\nOPTION=a.y:r\na(src)\nb(src)"

/-- These options all get what the flow is given for them, and the code for the first node runs. -/
theorem Compiles.exported_options_kept_iff_nodes :
    ∃ root, (pairedSession keptText).1.Compiles pairedConfig root ∧
      root.forwarding = [⟨0, "x", "opt_p"⟩, ⟨1, "x", "opt_q"⟩, ⟨0, "y", "opt_r"⟩] ∧
      (∀ given, ∀ r ∈ root.forwarding, ∀ values, (Graph.typeAt root.types r.child).Aligned values →
        (Graph.typeAt root.types r.child).valueOf r.option (root.handOn given r.child values) =
          some (given r.parentField)) ∧
      ∀ given, ∃ record, Runs (fun _ => none)
        (.define ["p"] (root.descriptor.optionsLiteral (root.resolved given)) ::
          .define ["opts"] ((Graph.typeAt root.types 0).optionsLiteral (Graph.typeAt root.types 0).defaults) ::
          root.forwardTo 0) record := by
  obtain ⟨root, h, hrows, hown, hchild⟩ : ∃ root, (pairedSession keptText).1.Compiles pairedConfig root ∧
      root.forwarding = [⟨0, "x", "opt_p"⟩, ⟨1, "x", "opt_q"⟩, ⟨0, "y", "opt_r"⟩] ∧
      root.optionFields = ["OptP", "OptQ", "OptR"] ∧ (Graph.typeAt root.types 0).optionFields = ["X", "Y"] :=
    exists_compiles_and rfl (by decide +kernel)
  obtain ⟨hiff, -, -, hcode⟩ := h.exported_options_kept_iff root h.root_mem
  refine ⟨root, h, hrows, hiff.mpr (by rw [hrows]; decide), fun given => ?_⟩
  obtain ⟨record, hrecord⟩ := hcode given 0 _ (Graph.typeAt root.types 0).defaults_aligned
    (by rw [hown]; decide) (by rw [hchild]; decide)
  exact ⟨record, (hrecord record).1.mpr rfl⟩

/-- An option that is exported under two names. -/
def overwrittenText : String := "OPTION=a.x:p\nOPTION=a.x:q\na(src)"

/-- What the flow is given under the first of the names does not reach the option. -/
theorem exported_option_overwritten :
    ∃ root values, (pairedSession overwrittenText).1.Compiles pairedConfig root ∧
      root.forwarding = [⟨0, "x", "opt_p"⟩, ⟨0, "x", "opt_q"⟩] ∧
      root.valuesAt 0 = some values ∧
      (Graph.typeAt root.types 0).valueOf "x" (root.handOn (fun field => some (.text field)) 0 values) =
        some (some (.text "opt_q")) := by
  refine exists_comm.mp
    ⟨[⟨"x", "string", some (.text "1")⟩, ⟨"y", "string", some (.text "2")⟩], ?_⟩
  exact exists_compiles_and rfl (by decide +kernel)

end Session

end FlowCompiler
