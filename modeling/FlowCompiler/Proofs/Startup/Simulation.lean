import FlowCompiler.Proofs.Catalog.Composed
import FlowCompiler.Proofs.Startup.Program
import FlowCompiler.Proofs.Startup.Tables

/-!
# Tables at run time follow ports at compile time

Main statement: `Session.Compiles.built_tables`. In a program whose catalog symbols have types that cover
their descriptors, every unit whose type is built has a type that covers the unit's descriptor, with as many
slots as the unit has rows. The induction is over the unit tree, from the children to their parents; a node
gets its type from the catalog, from a composed declaration (`composed_covers`) or from a child.

The steps are stated for any relation of data types, so that they also serve where only the number of
slots matters.
-/

namespace FlowCompiler

open List Live Number

variable {b : Binding} {d : DeclaredType}

/-! ## Composed types -/

namespace Composed

variable {R : String → String → Prop}

/-- Numbered ports are covered by their own names and data types. -/
theorem Numbered.covers (hrefl : ∀ a, R a a) {ports : List Port} (h : Numbered ports) :
    TableCovers R (ports.map fun p => ⟨p.name, p.dataType⟩) ports := by
  intro p hp k hk
  obtain ⟨i, hi⟩ := getElem?_of_mem hp
  obtain ⟨hbase, hsize⟩ := h i p hi
  have hk : k = 0 := by
    rw [Port.width, if_neg (by omega)] at hk
    omega
  subst hk
  refine ⟨⟨p.name, p.dataType⟩, ?_, hrefl _⟩
  rw [hbase, Nat.cast_zero, add_zero, at?_natCast, getElem?_map, hi]
  rfl

/-- The one port of the composed side. -/
theorem single_covers (hrefl : ∀ a, R a a) (name dataType : String) :
    TableCovers R [⟨name, dataType⟩] [{ name := name, dataType := dataType }] :=
  (numbered_single name dataType).covers hrefl

end Composed

namespace Linkage

variable {ω : Type} {env : Linkage ω} {R : String → String → Prop}

/-- A composed declaration that the compiler understood builds a type that covers its ports. -/
theorem composed_covers (hrefl : ∀ a, R a a) {m : Metatype} {t : Descriptor}
    (hm : Registry.builtin.find? d.kind = some m) (hports : m.ports d.contents = .ok (t.inputs, t.outputs)) :
    ∃ type, env.composed d = some type ∧ type.Covers R t := by
  rw [Registry.builtin_find?_eq_some hm] at hports
  obtain ⟨simple, hs, hcases⟩ := Composed.metatype_ports_eq_ok hports
  obtain ⟨hlen, hnumbered, -⟩ := Composed.simplePorts_eq_ok hs
  have hlen : ¬ (simple.map fun p => (⟨p.name, p.dataType⟩ : PortType)).length < 2 := by
    rw [length_map]
    omega
  have hpacked : "composed:" ++
      ",".intercalate ((simple.map fun p => (⟨p.name, p.dataType⟩ : PortType)).map (·.dataType)) =
        Composed.dataType simple := by
    simp [Composed.dataType, Composed.packetType, Function.comp_def]
  simp only [composed, hs, composedType, if_neg hlen, hpacked]
  obtain ⟨hsplit, hin, hout⟩ | ⟨hsplit, hin, hout⟩ := hcases
  · rw [hsplit]
    refine ⟨_, rfl, ⟨?_, ?_⟩⟩
    · rw [hin]
      exact Composed.single_covers hrefl _ _
    · rw [hout]
      exact hnumbered.covers hrefl
  · rw [hsplit]
    refine ⟨_, rfl, ⟨?_, ?_⟩⟩
    · rw [hin]
      exact hnumbered.covers hrefl
    · rw [hout]
      exact Composed.single_covers hrefl _ _

/-! ## Types of nodes -/

section Nodes

variable {cfg : Config} {units : List FlowUnit} {u : FlowUnit} {vars : List (String × NodeType ω)}

/-- The types behind the symbols that nodes use cover their descriptors. -/
def CoversCatalog (env : Linkage ω) (R : String → String → Prop) (units : List FlowUnit) : Prop :=
  ∀ u ∈ units, ∀ b ∈ u.bindings, b.role = .external → (env.external b.type.symbol).Covers R b.type

/-- The rows of units and the tables of their nodes have lengths in words, and no table has more than
`bound` outputs. -/
structure Sized (env : Linkage ω) (units : List FlowUnit) (bound : Nat) : Prop where
  rows : ∀ u ∈ units, u.inputs.length < wordBound ∧ u.outputs.length < wordBound
  tables : ∀ u ∈ units, ∀ spec ∈ env.specOf units u, ∀ t ∈ spec.types,
    t.inputs.length < wordBound ∧ t.outputs.length ≤ bound

instance [DecidableRel R] : Decidable (env.CoversCatalog R units) :=
  inferInstanceAs (Decidable (∀ u ∈ units, ∀ b ∈ u.bindings, b.role = .external →
    (env.external b.type.symbol).Covers R b.type))

instance {bound : Nat} : Decidable (env.Sized units bound) :=
  decidable_of_iff
    ((∀ u ∈ units, u.inputs.length < wordBound ∧ u.outputs.length < wordBound) ∧
      ∀ u ∈ units, ∀ spec ∈ env.specOf units u, ∀ t ∈ spec.types,
        t.inputs.length < wordBound ∧ t.outputs.length ≤ bound)
    ⟨fun h => ⟨h.1, h.2⟩, fun h => ⟨h.rows, h.tables⟩⟩

/-- What the steps below ask of a program: the relation `R` says at least that data types are the same, and
it tells data types apart only if no output is where the one for errors is. -/
structure Linked (env : Linkage ω) (cfg : Config) (units : List FlowUnit) (R : String → String → Prop)
    (bound : Nat) : Prop where
  done : Done cfg 0 units
  registry : cfg.registry = .builtin
  refl : ∀ a, R a a
  catalog : env.CoversCatalog R units
  sized : env.Sized units bound
  word : bound < wordBound
  errors : (bound : Int) ≤ errorSlot ∨ ∀ a b, R a b

theorem mem_usedDeclarations (hb : b ∈ u.bindings) (hrole : b.role ≠ .external)
    (hwritten : b.type.name ∈ u.graph.declarations.map (·.name)) :
    b.type.name ∈ u.usedDeclarations.map (·.name) := by
  obtain ⟨d, hd, hname⟩ := mem_map.mp hwritten
  refine mem_map.mpr ⟨d, mem_filter.mpr ⟨hd, ?_⟩, hname⟩
  exact any_eq_true.mpr ⟨b, hb, by simp [hrole, hname]⟩

/-- The type of a child is that of the unit, as its function builds it. -/
theorem nodeType?_subflow {child : FlowUnit} {pos : Position}
    (hvars : env.declaredVars (env.built units) u = some vars) (hb : b ∈ u.bindings)
    (role : b.role = .subflow) (written : b.type.name ∈ u.graph.declarations.map (·.name))
    (undeclared : u.declared.find? (·.name == b.type.name) = none)
    (found : u.subflows.find? (·.name == b.type.name) = some ⟨b.type.name, child.id, pos⟩) :
    env.nodeType? vars b = env.built units child.id := by
  have hused := mem_usedDeclarations hb (by rw [role]; decide) written
  obtain ⟨t, hconstruct, hlookup⟩ := exists_of_declaredVars hvars hused
  simp only [construct, undeclared, found] at hconstruct
  simp only [nodeType?, role, hlookup, hconstruct]

theorem nodeType?_metatype (hvars : env.declaredVars (env.built units) u = some vars) (hb : b ∈ u.bindings)
    (role : b.role = .metatype) (written : b.type.name ∈ u.graph.declarations.map (·.name))
    (found : u.declared.find? (·.name == b.type.name) = some d) : env.nodeType? vars b = env.composed d := by
  have hused := mem_usedDeclarations hb (by rw [role]; decide) written
  obtain ⟨t, hconstruct, hlookup⟩ := exists_of_declaredVars hvars hused
  simp only [construct, found] at hconstruct
  simp only [nodeType?, role, hlookup, hconstruct]

/-- What holds of a unit whose type is built: its tables have as many slots as the unit has rows, and
cover the ports that the unit has for its parent. -/
def Simulates (env : Linkage ω) (units : List FlowUnit) (R : String → String → Prop) (u : FlowUnit) :
    Prop :=
  ∀ t, env.built units u.id = some t →
    t.inputs.length = u.inputs.length ∧ t.outputs.length = u.outputs.length ∧
      ∃ d, u.type = some d ∧ t.Covers R d

variable {bound : Nat}

/-- The type of a node covers the descriptor that the compiler has of it, if this is so of children. -/
theorem nodeType?_covers (hl : env.Linked cfg units R bound) (hu : u ∈ units)
    (hcompiled : u.Compiled cfg units)
    (hchild : ∀ c : FlowUnit, units[c.id]? = some c → u.id < c.id → env.Simulates units R c)
    (hvars : env.declaredVars (env.built units) u = some vars) (hb : b ∈ u.bindings) {t : NodeType ω}
    (ht : env.nodeType? vars b = some t) : t.Covers R b.type := by
  cases hcompiled.binds b hb with
  | external role found =>
    simp only [nodeType?, role, Option.some.injEq] at ht
    subst ht
    exact hl.catalog u hu b hb role
  | @subflow child pos role written undeclared found stored later type =>
    rw [nodeType?_subflow hvars hb role written undeclared found] at ht
    obtain ⟨-, -, d, hd, hcovers⟩ := hchild child stored later t ht
    rw [type] at hd
    cases hd
    exact hcovers
  | @metatype d m role written found known ports options =>
    rw [nodeType?_metatype hvars hb role written found] at ht
    rw [hl.registry] at known
    obtain ⟨t', ht', hcovers⟩ := composed_covers hl.refl known ports
    rw [ht] at ht'
    cases ht'
    exact hcovers

theorem spec_types (hlen : u.graph.nodes.length = u.bindings.length) :
    (env.spec vars u).types = u.bindings.filterMap (env.nodeType? vars) := by
  have h : ((env.spec vars u).nodes.map (·.type)).filterMap id =
      (u.bindings.map (env.nodeType? vars)).filterMap id := by rw [spec_nodes_type hlen vars]
  simpa [filterMap_map, Function.comp_def, StaticSpec.types] using h

/-- In a description, types that are there fit the types of the nodes. -/
theorem spec_fits (hl : env.Linked cfg units R bound) (hu : u ∈ units)
    (hcompiled : u.Compiled cfg units)
    (hchild : ∀ c : FlowUnit, units[c.id]? = some c → u.id < c.id → env.Simulates units R c)
    (hvars : env.declaredVars (env.built units) u = some vars)
    (htyped : ∀ b ∈ u.bindings, (env.nodeType? vars b).isSome) :
    List.Forall₂ (fun t d => t.Fits R d) (env.spec vars u).types u.types := by
  have htypes : (env.spec vars u).types = u.bindings.filterMap (env.nodeType? vars) :=
    spec_types hcompiled.bindings.length_eq
  rw [htypes, FlowUnit.types, forall₂_map_right_iff]
  refine forall₂_filterMap_left fun b hb => ?_
  obtain ⟨t, ht⟩ := Option.isSome_iff_exists.mp (htyped b hb)
  have hmem : t ∈ (env.spec vars u).types := htypes ▸ mem_filterMap.mpr ⟨b, hb, ht⟩
  obtain ⟨hin, hout⟩ := hl.sized.tables u hu _ (by rw [specOf, hvars]; rfl) t hmem
  have hword := hl.word
  exact ⟨t, ht, nodeType?_covers hl hu hcompiled hchild hvars hb ht, hin, by omega,
    hl.errors.imp (fun h => by omega) id⟩

/-! ## Types of units -/

/-- The table that a description gives in a direction covers the ports of the unit. -/
theorem table_covers (hl : env.Linked cfg units R bound) {dir : Direction} {ts : List (NodeType ω)}
    (hcompiled : u.Compiled cfg units) (hfits : List.Forall₂ (fun t d => t.Fits R d) ts u.types)
    {rows : List SlotRow} (hrows : u.graph.exportRows u.types dir = .ok rows)
    (hshort : rows.length < wordBound) {table : List PortType}
    (htable : List.Forall₂ (fun row entry => entryAt? ts dir row = some entry) rows table) :
    TableCovers R table (u.graph.exportedPorts u.types dir) := by
  obtain ⟨text, hparse⟩ := hcompiled.parsed
  have hnodes : ∀ e ∈ u.graph.exports dir, e.node < u.types.length := by
    intro e he
    have := ((Graph.consistent_of_parse hparse).exports dir).nodes e he
    rwa [FlowUnit.types, length_map, ← hcompiled.bindings.length_eq]
  exact exportedPorts_covered hl.refl hfits hnodes hrows htable hshort

/-- A unit that is built simulates its descriptor, if its children do. -/
theorem simulates_step (hl : env.Linked cfg units R bound) (hu : u ∈ units)
    (hcompiled : u.Compiled cfg units)
    (hchild : ∀ c : FlowUnit, units[c.id]? = some c → u.id < c.id → env.Simulates units R c) :
    env.Simulates units R u := by
  intro t ht
  obtain ⟨i, hi⟩ := getElem?_of_mem hu
  obtain ⟨hid, -⟩ := hl.done i u (Nat.zero_le i) hi
  rw [built_eq env hl.done (by rw [hid]; exact hi)] at ht
  obtain ⟨spec, hspec, hcheck⟩ := create_eq_some ht
  obtain ⟨vars, hvars, rfl⟩ := Option.map_eq_some_iff.mp hspec
  obtain ⟨-, htypes, -, hin, hout⟩ := StaticSpec.check_eq_ok_iff.mp hcheck
  have htyped : ∀ b ∈ u.bindings, (env.nodeType? vars b).isSome := by
    have h : (env.spec vars u).nodes.map (·.type) = u.bindings.map (env.nodeType? vars) :=
      spec_nodes_type hcompiled.bindings.length_eq vars
    intro b hb
    have hmem : env.nodeType? vars b ∈ (env.spec vars u).nodes.map (·.type) :=
      h ▸ mem_map_of_mem hb
    obtain ⟨c, hc, heq⟩ := mem_map.mp hmem
    exact heq ▸ htypes c hc
  have hfits := spec_fits hl hu hcompiled hchild hvars htyped
  have hin := StaticSpec.slotsFrom_eq_ok_iff.mp hin
  have hout := StaticSpec.slotsFrom_eq_ok_iff.mp hout
  simp only [spec, forall₂_map_left_iff] at hin hout
  obtain ⟨hrows_in, hrows_out⟩ := hl.sized.rows u hu
  obtain ⟨symbol, htype⟩ := hcompiled.type
  refine ⟨hin.length_eq.symm, hout.length_eq.symm, _, htype, ?_, ?_⟩
  · exact table_covers hl hcompiled hfits hcompiled.inputs hrows_in hin
  · exact table_covers hl hcompiled hfits hcompiled.outputs hrows_out hout

theorem Linked.simulates (hl : env.Linked cfg units R bound) : ∀ u ∈ units, env.Simulates units R u :=
  hl.done.induction fun _ hu hcompiled hchild => simulates_step hl hu hcompiled hchild

end Nodes

end Linkage

namespace Session

/-- The types that a program builds for its units follow the descriptors that the compiler made of them:
their tables have a slot for each exported row, and for each port of the unit an entry of the port's data
type at every slot of the port. The program is linked with types that cover the descriptors of its catalog
symbols, and no output stands where the one for errors is. -/
theorem Compiles.built_tables {ω : Type} {cfg : Config} {s : Session} {root : FlowUnit}
    (h : s.Compiles cfg root) (hregistry : cfg.registry = .builtin) (env : Linkage ω)
    (hcatalog : env.CoversCatalog (· = ·) s.units) (hsized : env.Sized s.units errorSlot.toNat) :
    ∀ u ∈ s.units, ∀ t, env.built s.units u.id = some t →
      t.inputs.length = u.inputs.length ∧ t.outputs.length = u.outputs.length ∧
        ∃ d, u.type = some d ∧ TableCovers (· = ·) t.inputs d.inputs ∧
          TableCovers (· = ·) t.outputs d.outputs := by
  have hl : env.Linked cfg s.units (· = ·) errorSlot.toNat :=
    { done := h.done.2, registry := hregistry, refl := fun _ => rfl, catalog := hcatalog
      sized := hsized, word := by decide, errors := .inl (by decide) }
  intro u hu t ht
  obtain ⟨hin, hout, d, htype, hcovers⟩ := hl.simulates u hu t ht
  exact ⟨hin, hout, d, htype, hcovers.inputs, hcovers.outputs⟩

/-- A flow in a file: a composed type, and a port of three slots that is exported once as a whole and once
by an element. -/
def nestedConfig : Config where
  storage := ⟨["w"], [(["w"], .directory), (["w", "inner.fbp"], .file
    "DECLARE=Pair:composed-new:A(int)|B(string)\nINPORT=p.A:X\nOUTPORT=p.ERROR:E, OUTPORT=s.OUT[1]:O\nOUTPORT=t.OUT:W\np(Pair), s(src), t(src)"
    0)]⟩
  common := {
    types := [{ name := "src", symbol := "lib.Src"
                outputs := [{ name := "OUT", dataType := "int", size := 3 }] }] }

/-- The session of a flow that exports ports of that flow again. -/
def nestedSession : Session × Except CompileError FlowUnit :=
  compileText {} nestedConfig "main.fbp"
    "DECLARE=Inner:fbp:inner.fbp\nINPORT=i.X:IN\nOUTPORT=i.E:E, OUTPORT=i.W[2]:LAST\ni(Inner)"

def nestedLinkage : Linkage Unit where
  external _ := .leaf ⟨0, "src", [], [⟨"OUT", "int"⟩, ⟨"OUT", "int"⟩, ⟨"OUT", "int"⟩]⟩ {}
  literal _ _ := ()
  handOn _ := fun _ _ own => .ok own
  newId _ := 1

/-- The error output of a composed node and an element of an array, two units deep. -/
theorem Compiles.built_tables_nested :
    ∃ u ∈ nestedSession.1.units, ∃ t d, nestedLinkage.built nestedSession.1.units u.id = some t ∧
      t.outputs = [⟨"ERROR", "error"⟩, ⟨"OUT", "int"⟩] ∧ t.outputs.length = u.outputs.length ∧
      u.type = some d ∧ TableCovers (· = ·) t.inputs d.inputs ∧ TableCovers (· = ·) t.outputs d.outputs := by
  obtain ⟨root, h, hcatalog, hsized, hbuilt⟩ : ∃ root, nestedSession.1.Compiles nestedConfig root ∧
      nestedLinkage.CoversCatalog (· = ·) nestedSession.1.units ∧
      nestedLinkage.Sized nestedSession.1.units errorSlot.toNat ∧
      (nestedLinkage.built nestedSession.1.units root.id).map (·.outputs) =
        some [⟨"ERROR", "error"⟩, ⟨"OUT", "int"⟩] := exists_compiles_and rfl (by decide +kernel)
  obtain ⟨t, ht, houtputs⟩ := Option.map_eq_some_iff.mp hbuilt
  obtain ⟨-, hlen, d, htype, hin, hout⟩ :=
    h.built_tables rfl nestedLinkage hcatalog hsized root h.root_mem t ht
  exact ⟨root, h.root_mem, t, d, ht, houtputs, hlen, htype, hin, hout⟩

end Session

end FlowCompiler
