import FlowCompiler.Proofs.Live.Links
import FlowCompiler.Proofs.Slots.Rows
import FlowCompiler.Proofs.Startup.Simulation

/-!
# Which compiled units can be built

Main statement: `Session.Compiles.accepted_iff`. Of all that a description is checked for when the type of a
unit is built, only one thing is left open by the compiler: that there are nodes. A text without nodes
compiles, and the function of its unit fails. So a description is accepted exactly if its unit has nodes, and
the function of a unit succeeds exactly if the unit and all units that it uses, directly or not, have nodes.

Types of connected slots do not matter to the check, so the types behind catalog symbols need only have
enough slots.
-/

namespace FlowCompiler

open List Live Number

/-! ## Connections -/

namespace Live

variable {ω : Type}

theorem Link.fault?_eq_none {types : List (NodeType ω)} {l : Link} {source target : NodeType ω}
    (hs : at? types l.source = some source) (ht : at? types l.target = some target)
    (hout : (source.outputAt? l.sourcePort).isSome) (hin : (target.inputAt? l.targetPort).isSome)
    (i : Nat) : l.fault? types i = none := by
  unfold fault?
  rw [hs, ht]
  simp [Option.isNone_iff_eq_none, Option.isSome_iff_ne_none.mp hout, Option.isSome_iff_ne_none.mp hin]

/-- Connections without a fault of their own have none together if they are sorted. -/
theorem StaticSpec.linkFault?_eq_none {types : List (NodeType ω)} {links : List Link}
    (hfaults : ∀ l ∈ links, ∀ i, l.fault? types i = none)
    (hsorted : links.Pairwise fun a b => b.before a = false) (i : Nat) (previous : Option Link)
    (hprevious : ∀ p ∈ previous, ∀ l ∈ links, l.before p = false) :
    linkFault? types i previous links = none := by
  induction links generalizing i previous with
  | nil => rfl
  | cons l links ih =>
    obtain ⟨hfirst, hsorted⟩ := pairwise_cons.mp hsorted
    have hnotBefore : previous.any l.before = false := by
      cases previous with
      | none => rfl
      | some p => exact hprevious p rfl l mem_cons_self
    unfold linkFault?
    rw [hnotBefore, hfaults l mem_cons_self i]
    refine ih (fun l hl => hfaults l (mem_cons_of_mem _ hl)) hsorted (i + 1) (some l) ?_
    rintro p ⟨⟩
    exact hfirst

end Live

namespace Graph

variable {ω : Type} {R : String → String → Prop} {g : Graph} {ts : List (NodeType ω)}
  {ds : List Descriptor}

/-- The slot of a port in a row is one of the type of the node. -/
theorem slot_found {t : NodeType ω} {d : Descriptor} (hrefl : ∀ a, R a a) (hfit : t.Fits R d)
    {dir : Direction} {name typeName : String} {p : Port} (hp : d.port? dir name = some p)
    {index : Option Nat} {slot : Int} (hs : p.slot typeName index = .ok slot) :
    (t.slotAt? dir slot).isSome := by
  obtain ⟨k, hk, hslot⟩ := p.slot_eq_ok hs
  obtain ⟨e, he, -, hw⟩ := hfit.slot_found hrefl hp hk
  have hslot : slot = p.base + k := hslot.elim id fun h => h.trans hw
  rw [hslot, he]
  rfl

/-- A connection that the compiler accepts has no fault between the types of its nodes. -/
theorem connectionRow_fault? (hrefl : ∀ a, R a a)
    (hfits : List.Forall₂ (fun t d => t.Fits R d) ts ds) {c : Connection}
    (hsource : c.source < ds.length) (htarget : c.target < ds.length) {row : ConnectionRow}
    (h : g.connectionRow ds c = .ok row) (i : Nat) : row.link.fault? ts i = none := by
  obtain ⟨hfirst, hsecond, -⟩ := connectionRow_eq_ok_iff.mp h
  obtain ⟨hp, hps⟩ := Descriptor.end_iff.mp hfirst
  obtain ⟨hq, hqs⟩ := Descriptor.end_iff.mp hsecond
  obtain ⟨source, hsat, hsfit⟩ := exists_typeAt hfits hsource
  obtain ⟨target, htat, htfit⟩ := exists_typeAt hfits htarget
  refine Live.Link.fault?_eq_none ?_ ?_ (slot_found hrefl hsfit hp hps) (slot_found hrefl htfit hq hqs) i
  · simp only [ConnectionRow.link, at?_natCast, hsat]
  · simp only [ConnectionRow.link, at?_natCast, htat]

/-- Rows come sorted, and each from a connection. -/
theorem connectionRows_sorted {rows : List ConnectionRow} (h : g.connectionRows ds = .ok rows) :
    rows.Pairwise (fun a b => b.link.before a.link = false) ∧
      ∀ row ∈ rows, ∃ c ∈ g.connections, g.connectionRow ds c = .ok row := by
  obtain ⟨unsorted, hrows, rfl⟩ := connectionRows_eq_ok h
  constructor
  · refine (ConnectionRow.pairwise_mergeSort unsorted).imp fun {a b} hab => ?_
    rw [Bool.eq_false_iff]
    intro hbefore
    simp only [Live.Link.before_iff, ConnectionRow.link] at hbefore
    omega
  · intro row hrow
    obtain ⟨i, hi, rfl⟩ := mem_iff_getElem.mp (mem_mergeSort.mp hrow)
    have hall := rowsOf_eq_ok hrows
    have hlen := hall.length_eq
    exact ⟨g.connections[i], getElem_mem _, hall.get (by omega) hi⟩

end Graph

/-! ## Descriptions of units -/

namespace Linkage

variable {ω : Type} {env : Linkage ω} {R : String → String → Prop} {cfg : Config}
  {units : List FlowUnit} {u : FlowUnit} {vars : List (String × NodeType ω)} {bound : Nat}

theorem nodeType?_isSome (hcompiled : u.Compiled cfg units)
    (hvars : env.declaredVars (env.built units) u = some vars) {b : Binding} (hb : b ∈ u.bindings) :
    (env.nodeType? vars b).isSome := by
  cases hcompiled.binds b hb with
  | external role found => simp [nodeType?, role]
  | subflow role written undeclared found stored later type =>
    have hused := mem_usedDeclarations hb (by rw [role]; decide) written
    obtain ⟨t, -, hlookup⟩ := exists_of_declaredVars hvars hused
    simp [nodeType?, role, hlookup]
  | metatype role written found known ports options =>
    have hused := mem_usedDeclarations hb (by rw [role]; decide) written
    obtain ⟨t, -, hlookup⟩ := exists_of_declaredVars hvars hused
    simp [nodeType?, role, hlookup]

theorem exists_forall₂ {α β : Type} {f : α → Option β} {as : List α} (h : ∀ a ∈ as, (f a).isSome) :
    ∃ bs, List.Forall₂ (fun a b => f a = some b) as bs := by
  refine ⟨as.filterMap f, (forall₂_filterMap_left fun a ha => ?_).flip⟩
  obtain ⟨b, hb⟩ := Option.isSome_iff_exists.mp (h a ha)
  exact ⟨b, hb, hb⟩

/-- Every child in the description of a unit has a type. -/
theorem spec_typed (hcompiled : u.Compiled cfg units)
    (hvars : env.declaredVars (env.built units) u = some vars) :
    ∀ c ∈ (env.spec vars u).nodes, c.type.isSome := by
  intro c hc
  have hmem : c.type ∈ u.bindings.map (env.nodeType? vars) := by
    rw [← spec_nodes_type hcompiled.bindings.length_eq vars]
    exact mem_map_of_mem hc
  obtain ⟨b, hb, heq⟩ := mem_map.mp hmem
  exact heq ▸ nodeType?_isSome hcompiled hvars hb

/-- A description with nodes is accepted. -/
theorem spec_check (hl : env.Linked cfg units R bound) (hu : u ∈ units) (hcompiled : u.Compiled cfg units)
    (hvars : env.declaredVars (env.built units) u = some vars) (hnodes : u.graph.nodes ≠ []) :
    ∃ tables, (env.spec vars u).check = .ok tables := by
  have hchild : ∀ c : FlowUnit, units[c.id]? = some c → u.id < c.id → env.Simulates units R c :=
    fun c hc _ => hl.simulates c (mem_of_getElem? hc)
  have hfits := spec_fits hl hu hcompiled hchild hvars fun b hb => nodeType?_isSome hcompiled hvars hb
  obtain ⟨text, hparse⟩ := hcompiled.parsed
  have hgraph := Graph.consistent_of_parse hparse
  have hlen : u.types.length = u.graph.nodes.length := by
    rw [FlowUnit.types, length_map, hcompiled.bindings.length_eq]
  have hlinks : StaticSpec.linkFault? (env.spec vars u).types 0 none (env.spec vars u).links = none := by
    obtain ⟨hsorted, hrows⟩ := Graph.connectionRows_sorted hcompiled.connections
    refine StaticSpec.linkFault?_eq_none ?_ (pairwise_map.mpr hsorted) 0 none (by simp)
    intro l hlink i
    obtain ⟨row, hrow, rfl⟩ := mem_map.mp hlink
    obtain ⟨c, hc, hconn⟩ := hrows row hrow
    obtain ⟨hs, ht⟩ := hgraph.connectionNodes c hc
    exact Graph.connectionRow_fault? hl.refl hfits (by omega) (by omega) hconn i
  have hslots : ∀ {dir : Direction} {rows : List SlotRow}, u.graph.exportRows u.types dir = .ok rows →
      ∃ table, List.Forall₂ (fun row entry => entryAt? (env.spec vars u).types dir row = some entry)
        rows table := by
    intro dir rows hrows
    refine exists_forall₂ (exportRowsOf_found hl.refl hfits ?_ hrows)
    intro e he
    have := (hgraph.exports dir).nodes e he
    omega
  obtain ⟨inputs, hin⟩ := hslots hcompiled.inputs
  obtain ⟨outputs, hout⟩ := hslots hcompiled.outputs
  refine ⟨(inputs, outputs), StaticSpec.check_eq_ok_iff.mpr
    ⟨?_, spec_typed hcompiled hvars, hlinks, ?_, ?_⟩⟩
  · simpa [spec] using hnodes
  · exact StaticSpec.slotsFrom_eq_ok_iff.mpr (forall₂_map_left_iff.mpr hin)
  · exact StaticSpec.slotsFrom_eq_ok_iff.mpr (forall₂_map_left_iff.mpr hout)

/-- A description without nodes is refused for that. -/
theorem spec_check_empty (hnodes : u.graph.nodes = []) :
    (env.spec vars u).check = .error .noNodes := by
  simp [StaticSpec.check, spec, hnodes]

/-! ## Functions of units -/

/-- A unit uses another if one of its nodes is of the type that the other one is. -/
def UsesUnit (units : List FlowUnit) (u v : FlowUnit) : Prop :=
  ∃ b ∈ u.bindings, b.role = .subflow ∧
    ∃ f, u.subflows.find? (·.name == b.type.name) = some f ∧ units[f.child]? = some v

theorem create_isSome {child : Nat → Option (NodeType ω)}
    (hvars : env.declaredVars child u = some vars) {tables : List PortType × List PortType}
    (hcheck : (env.spec vars u).check = .ok tables) : (env.create child u).isSome := by
  simp [create, hvars, StaticSpec.build, hcheck, Except.toOption]

/-- The declared types that nodes use can be built if the used units can. -/
theorem exists_declaredVars (hl : env.Linked cfg units R bound) (hcompiled : u.Compiled cfg units)
    (hused : ∀ v : FlowUnit, UsesUnit units u v → units[v.id]? = some v → u.id < v.id →
      (env.built units v.id).isSome) :
    ∃ vars, env.declaredVars (env.built units) u = some vars := by
  refine Option.isSome_iff_exists.mp (declaredVars_isSome fun d hd => ?_)
  obtain ⟨b, hb, hcond⟩ := any_eq_true.mp (mem_filter.mp hd).2
  simp only [Bool.and_eq_true, bne_iff_ne, ne_eq, beq_iff_eq] at hcond
  obtain ⟨hrole, hname⟩ := hcond
  rw [← hname]
  cases hcompiled.binds b hb with
  | external role found => exact absurd role hrole
  | subflow role written undeclared found stored later type =>
    have hbuilt := hused _ ⟨b, hb, role, _, found, stored⟩ stored later
    simpa only [construct, undeclared, found] using hbuilt
  | metatype role written found known ports options =>
    rw [hl.registry] at known
    obtain ⟨t, ht, -⟩ : ∃ t, env.composed _ = some t ∧ t.Covers R b.type :=
      composed_covers hl.refl known ports
    simp only [construct, found, ht, Option.isSome_some]

/-- The units that a unit uses are built if its declared types are. -/
theorem built_of_declaredVars (hcompiled : u.Compiled cfg units)
    (hvars : env.declaredVars (env.built units) u = some vars) {v : FlowUnit} (h : UsesUnit units u v) :
    units[v.id]? = some v ∧ u.id < v.id ∧ (env.built units v.id).isSome := by
  obtain ⟨b, hb, hrole, f, hf, hv⟩ := h
  have hsome := nodeType?_isSome hcompiled hvars hb
  cases hcompiled.binds b hb with
  | external role found => rw [role] at hrole; cases hrole
  | metatype role written found known ports options => rw [role] at hrole; cases hrole
  | subflow role written undeclared found stored later type =>
    rw [nodeType?_subflow hvars hb role written undeclared found] at hsome
    rw [found] at hf
    cases hf
    rw [stored] at hv
    cases hv
    exact ⟨stored, later, hsome⟩

/-- The function of a unit succeeds exactly if the unit has nodes and the units that it uses, directly or
not, have nodes. -/
theorem Linked.built_iff (hl : env.Linked cfg units R bound) : ∀ u ∈ units,
    (env.built units u.id).isSome ↔
      ∀ v, Relation.ReflTransGen (UsesUnit units) u v → v.graph.nodes ≠ [] := by
  refine hl.done.induction fun u hu hcompiled ih => ?_
  obtain ⟨i, hi⟩ := getElem?_of_mem hu
  obtain ⟨rfl, -⟩ := hl.done i u (Nat.zero_le i) hi
  rw [built_eq env hl.done hi]
  constructor
  · intro hsome v hv
    obtain ⟨t, ht⟩ := Option.isSome_iff_exists.mp hsome
    obtain ⟨spec, hspec, hcheck⟩ := create_eq_some ht
    obtain ⟨vars, hvars, rfl⟩ := Option.map_eq_some_iff.mp hspec
    rcases Relation.ReflTransGen.cases_head hv with rfl | ⟨w, hw, hwv⟩
    · intro hempty
      rw [spec_check_empty hempty] at hcheck
      cases hcheck
    · obtain ⟨hat, hlt, hbuilt⟩ := built_of_declaredVars hcompiled hvars hw
      exact (ih w hat hlt).mp hbuilt v hwv
  · intro hnodes
    obtain ⟨vars, hvars⟩ := exists_declaredVars hl hcompiled fun v hv hat hlt =>
      (ih v hat hlt).mpr fun w hw => hnodes w (.head hv hw)
    obtain ⟨tables, hcheck⟩ := spec_check hl hu hcompiled hvars (hnodes u .refl)
    exact create_isSome hvars hcheck

end Linkage

namespace Session

/-- What the check of a compiled unit's description finds: nothing if the unit has nodes, and else that it
has none. Hence the function of a unit succeeds exactly if it and all units that it uses have nodes. The
program is linked with types that have a slot for each slot of the descriptors of its catalog symbols. -/
theorem Compiles.accepted_iff {ω : Type} {cfg : Config} {s : Session} {root : FlowUnit}
    (h : s.Compiles cfg root) (hregistry : cfg.registry = .builtin) (env : Linkage ω)
    (hcatalog : env.CoversCatalog (fun _ _ => True) s.units) (hsized : env.Sized s.units (wordBound - 1)) :
    ∀ u ∈ s.units,
      (∀ spec ∈ env.specOf s.units u,
        spec.nodes.map (·.name) = u.graph.nodes.map (·.name) ∧ (∀ c ∈ spec.nodes, c.type.isSome) ∧
          (u.graph.nodes ≠ [] → ∃ tables, spec.check = .ok tables) ∧
          (u.graph.nodes = [] → spec.check = .error .noNodes)) ∧
        ((env.built s.units u.id).isSome ↔
          ∀ v, Relation.ReflTransGen (Linkage.UsesUnit s.units) u v → v.graph.nodes ≠ []) := by
  have hl : env.Linked cfg s.units (fun _ _ => True) (wordBound - 1) :=
    { done := h.done.2, registry := hregistry, refl := fun _ => trivial, catalog := hcatalog
      sized := hsized, word := by decide, errors := .inr fun _ _ => trivial }
  intro u hu
  refine ⟨fun spec hspec => ?_, hl.built_iff u hu⟩
  obtain ⟨i, hi⟩ := getElem?_of_mem hu
  obtain ⟨-, hcompiled⟩ := hl.done i u (Nat.zero_le i) hi
  obtain ⟨vars, hvars, rfl⟩ := Option.map_eq_some_iff.mp hspec
  exact ⟨Linkage.spec_nodes_name u vars, Linkage.spec_typed hcompiled hvars,
    Linkage.spec_check hl hu hcompiled hvars, Linkage.spec_check_empty⟩

/-- The flow in two files is accepted, and so is each of its units. -/
theorem Compiles.accepted_iff_nested :
    ∃ root ∈ nestedSession.1.units, root.subflows.length = 1 ∧
      (∃ spec ∈ nestedLinkage.specOf nestedSession.1.units root, ∃ tables, spec.check = .ok tables) ∧
      ∀ v, Relation.ReflTransGen (Linkage.UsesUnit nestedSession.1.units) root v → v.graph.nodes ≠ [] := by
  obtain ⟨root, h, hcatalog, hsized, hbuilt, hsubflows, hnodes, hspec⟩ :
      ∃ root, nestedSession.1.Compiles nestedConfig root ∧
        nestedLinkage.CoversCatalog (fun _ _ => True) nestedSession.1.units ∧
        nestedLinkage.Sized nestedSession.1.units (wordBound - 1) ∧
        (nestedLinkage.built nestedSession.1.units root.id).isSome = true ∧
        root.subflows.length = 1 ∧ root.graph.nodes ≠ [] ∧
        (nestedLinkage.specOf nestedSession.1.units root).isSome = true :=
    exists_compiles_and rfl (by decide +kernel)
  obtain ⟨hspecs, hiff⟩ := h.accepted_iff rfl nestedLinkage hcatalog hsized root h.root_mem
  obtain ⟨spec, hspec⟩ := Option.isSome_iff_exists.mp hspec
  exact ⟨root, h.root_mem, hsubflows, ⟨spec, hspec, (hspecs spec hspec).2.2.1 hnodes⟩, hiff.mp hbuilt⟩

/-- The session of a text without statements. -/
def emptySession : Session × Except CompileError FlowUnit :=
  compileText {} { storage := ⟨[], []⟩ } "main.fbp" ""

/-- The empty text compiles, but its description is refused and the function of its unit fails. -/
theorem empty_text_refused_at_startup :
    ∃ root, emptySession.1.Compiles { storage := ⟨[], []⟩ } root ∧
      nestedLinkage.CoversCatalog (fun _ _ => True) emptySession.1.units ∧
      nestedLinkage.Sized emptySession.1.units (wordBound - 1) ∧
      (nestedLinkage.specOf emptySession.1.units root).map (·.check) = some (.error .noNodes) ∧
      nestedLinkage.built emptySession.1.units root.id = none := by
  simp only [← Option.isNone_iff_eq_none]
  exact exists_compiles_and rfl (by decide +kernel)

end Session

end FlowCompiler
