import FlowCompiler.Live.Type
import FlowCompiler.Program.Constructor
import FlowCompiler.Proofs.Compile.Units

/-!
# The types that a generated program builds at startup

The function of a unit first builds the declared types that its nodes use, in the order of their
declaration: a composed type, or the type of another unit by that unit's function. From these, and from the
types behind the symbols of the catalog, it builds a static type with the rows of the unit. It fails if one
of the steps does.

`Linkage.built` is what the function of each unit gives. Since children come after their parents,
`built_eq` reads it as a recursion over the unit tree.
-/

namespace FlowCompiler

open List Live

variable {u : FlowUnit} {units : List FlowUnit} {cfg : Config}

/-- What a generated program is linked with: the types behind the symbols of the catalog, the values of
option literals, the functions that hand options on, and the numbers that new types get. -/
structure Linkage (ω : Type) where
  external : String → NodeType ω
  literal : Descriptor → List ResolvedOption → ω
  handOn : FlowUnit → HandOn ω
  newId : String → Nat

/-- The connection that a row is in a description. -/
def ConnectionRow.link (r : ConnectionRow) : Live.Link :=
  ⟨r.source, r.sourceSlot, r.target, r.targetSlot⟩

/-- The slot that a row is in a description. -/
def SlotRow.place (r : SlotRow) : Slot := ⟨r.node, r.slot⟩

/-- The declarations that nodes use, in their order. -/
def FlowUnit.usedDeclarations (u : FlowUnit) : List Graph.Declaration :=
  u.graph.declarations.filter fun d =>
    u.bindings.any fun b => b.role != .external && b.type.name == d.name

/-- These are the declarations for which the code of the unit has a variable. -/
theorem FlowUnit.declaredTypes_names (u : FlowUnit) (units : List FlowUnit) :
    (u.declaredTypes units).map (fun p => (p.1.name, p.2)) =
      u.usedDeclarations.map fun d => (d.name, u.constructorOf units d.name) := by
  unfold declaredTypes usedDeclarations
  dsimp only
  generalize u.graph.declarations = ds
  induction ds with
  | nil => rfl
  | cons d ds ih =>
    have hused : (((u.bindings.filter (·.role != .external)).map (·.type)).find?
        (·.name == d.name)).isSome =
          u.bindings.any fun b => b.role != .external && b.type.name == d.name := by
      rw [Bool.eq_iff_iff, find?_isSome, ← any_eq_true]
      simp [any_map, any_filter, Function.comp_def]
    rw [filter_cons, filterMap_cons, ← hused]
    cases hf : ((u.bindings.filter (·.role != .external)).map (·.type)).find? (·.name == d.name) with
    | none => simpa using ih
    | some t =>
      have ht : t.name = d.name := by simpa using find?_some hf
      simpa [ht] using ih

namespace Linkage

variable {ω : Type} (env : Linkage ω) {child : Nat → Option (NodeType ω)}

/-- The type that the function of a composed declaration builds. -/
def composed (d : DeclaredType) : Option (NodeType ω) :=
  match Composed.simplePorts d.contents with
  | .error _ => none
  | .ok ports =>
    (composedType (env.newId d.funcName) d.name (d.kind == "composed-split")
      (ports.map fun p => ⟨p.name, p.dataType⟩)).toOption

/-- The type that the function of a declaration builds. `child` gives the types of other units. -/
def construct (child : Nat → Option (NodeType ω)) (u : FlowUnit) (name : String) :
    Option (NodeType ω) :=
  match u.declared.find? (·.name == name) with
  | some d => env.composed d
  | none =>
    match u.subflows.find? (·.name == name) with
    | some f => child f.child
    | none => none

/-- The variables of a unit's function: the declared types that nodes use, by name. -/
def declaredVars (child : Nat → Option (NodeType ω)) (u : FlowUnit) :
    Option (List (String × NodeType ω)) :=
  u.usedDeclarations.mapM fun d => (env.construct child u d.name).map fun t => (d.name, t)

/-- The type that a node gets. -/
def nodeType? (vars : List (String × NodeType ω)) (b : Binding) : Option (NodeType ω) :=
  match b.role with
  | .external => some (env.external b.type.symbol)
  | .subflow | .metatype => vars.lookup b.type.name

/-- The options that a node gets. -/
def optionsAt (u : FlowUnit) (node : Nat) : Option ω :=
  if u.hasOptions node then (u.valuesAt node).map (env.literal (Graph.typeAt u.types node)) else none

/-- The description that the type of a unit is built from. -/
def spec (vars : List (String × NodeType ω)) (u : FlowUnit) : StaticSpec ω where
  nodes := u.graph.nodes.zipIdx.map fun (n, i) =>
    ⟨u.bindings[i]?.bind (env.nodeType? vars), n.name, env.optionsAt u i⟩
  links := u.connections.map (·.link)
  inputs := u.inputs.map (·.place)
  outputs := u.outputs.map (·.place)
  handOn := if u.forwarding.isEmpty then none else some (env.handOn u)

/-- What the function of a unit gives. -/
def create (child : Nat → Option (NodeType ω)) (u : FlowUnit) : Option (NodeType ω) := do
  let vars ← env.declaredVars child u
  ((env.spec vars u).build (env.newId u.funcName) u.name).toOption

/-- What the functions of units give, the last unit first. -/
def buildAll : List FlowUnit → List (Option (NodeType ω))
  | [] => []
  | u :: later =>
    env.create (fun i => (buildAll later)[i - (u.id + 1)]?.join) u :: buildAll later

/-- What the function of the unit at a place gives. -/
def built (units : List FlowUnit) (i : Nat) : Option (NodeType ω) := (env.buildAll units)[i]?.join

/-! ## The recursion over units -/

theorem create_congr {child' : Nat → Option (NodeType ω)}
    (h : ∀ f ∈ u.subflows, child f.child = child' f.child) : env.create child u = env.create child' u := by
  have hconstruct : ∀ name, env.construct child u name = env.construct child' u name := by
    intro name
    unfold construct
    cases u.declared.find? (·.name == name) with
    | some d => rfl
    | none =>
      cases hf : u.subflows.find? (·.name == name) with
      | none => rfl
      | some f => exact h f (mem_of_find?_eq_some hf)
  unfold create declaredVars
  simp only [hconstruct]

theorem buildAll_drop (units : List FlowUnit) (k : Nat) :
    env.buildAll (units.drop k) = (env.buildAll units).drop k := by
  induction units generalizing k with
  | nil => simp [buildAll]
  | cons u later ih =>
    cases k with
    | zero => rfl
    | succ k => simpa [buildAll] using ih k

/-- The function of a unit builds its type from those of its children. -/
theorem built_eq (hdone : Done cfg 0 units) (hu : units[u.id]? = some u) :
    env.built units u.id = env.create (env.built units) u := by
  obtain ⟨hlt, hget⟩ := List.getElem?_eq_some_iff.mp hu
  have hdrop : env.buildAll (units.drop u.id) =
      env.create (fun i => (env.buildAll (units.drop (u.id + 1)))[i - (u.id + 1)]?.join) u ::
        env.buildAll (units.drop (u.id + 1)) := by
    rw [drop_eq_getElem_cons hlt, hget]
    rfl
  have hhead : (env.buildAll units)[u.id]? = (env.buildAll (units.drop u.id))[0]? := by
    rw [buildAll_drop, getElem?_drop, Nat.add_zero]
  rw [built, hhead, hdrop]
  refine create_congr env fun f hf => ?_
  have hlater := ((hdone u.id u (Nat.zero_le _) hu).2.declares.subflow_type f hf).1
  rw [buildAll_drop, getElem?_drop, built]
  congr 2
  omega

/-! ## What a success says -/

/-- The description of a unit, if the declared types that its nodes use can be built. -/
def specOf (units : List FlowUnit) (u : FlowUnit) : Option (StaticSpec ω) :=
  (env.declaredVars (env.built units) u).map (env.spec · u)

variable {env}

theorem create_eq_some {t : NodeType ω} (h : env.create (env.built units) u = some t) :
    ∃ spec, env.specOf units u = some spec ∧ spec.check = .ok (t.inputs, t.outputs) := by
  obtain ⟨vars, hvars, h⟩ := Option.bind_eq_some_iff.mp h
  refine ⟨env.spec vars u, by rw [specOf, hvars]; rfl, ?_⟩
  unfold StaticSpec.build at h
  cases hc : (env.spec vars u).check with
  | error f =>
    simp only [hc] at h
    cases h
  | ok tables =>
    simp only [hc] at h
    cases h
    rfl

theorem exists_of_declaredVars {vars : List (String × NodeType ω)}
    (h : env.declaredVars child u = some vars) {name : String}
    (hname : name ∈ u.usedDeclarations.map (·.name)) :
    ∃ t, env.construct child u name = some t ∧ vars.lookup name = some t := by
  unfold declaredVars at h
  generalize u.usedDeclarations = ds at h hname
  induction ds generalizing vars with
  | nil => cases hname
  | cons d ds ih =>
    rw [mapM_cons] at h
    obtain ⟨v, hv, h⟩ := Option.bind_eq_some_iff.mp h
    obtain ⟨t, ht, rfl⟩ := Option.map_eq_some_iff.mp hv
    obtain ⟨rest, hrest, h⟩ := Option.bind_eq_some_iff.mp h
    cases h
    by_cases hd : name = d.name
    · subst hd
      exact ⟨t, ht, by simp⟩
    · have hmem : name ∈ ds.map (·.name) := by simpa [hd] using hname
      obtain ⟨t', hc, hl⟩ := ih hrest hmem
      refine ⟨t', hc, ?_⟩
      rw [lookup_cons, beq_false_of_ne hd]
      exact hl

theorem declaredVars_isSome (h : ∀ d ∈ u.usedDeclarations, (env.construct child u d.name).isSome) :
    (env.declaredVars child u).isSome := by
  unfold declaredVars
  generalize u.usedDeclarations = ds at h
  induction ds with
  | nil => rfl
  | cons d ds ih =>
    obtain ⟨t, ht⟩ := Option.isSome_iff_exists.mp (h d mem_cons_self)
    obtain ⟨vars, hvars⟩ := Option.isSome_iff_exists.mp (ih fun d hd => h d (mem_cons_of_mem _ hd))
    rw [mapM_cons, ht, hvars]
    rfl

/-- The types in a description are those of the nodes, in their order. -/
theorem spec_nodes_type (hlen : u.graph.nodes.length = u.bindings.length)
    (vars : List (String × NodeType ω)) :
    (env.spec vars u).nodes.map (·.type) = u.bindings.map (env.nodeType? vars) := by
  refine ext_getElem? fun i => ?_
  simp only [spec, map_map, getElem?_map, getElem?_zipIdx]
  rcases Nat.lt_or_ge i u.bindings.length with hi | hi
  · rw [getElem?_eq_getElem hi, getElem?_eq_getElem (hlen ▸ hi)]
    simp [getElem?_eq_getElem hi]
  · rw [getElem?_eq_none hi, getElem?_eq_none (hlen ▸ hi)]
    rfl

theorem spec_nodes_name (u : FlowUnit) (vars : List (String × NodeType ω)) :
    (env.spec vars u).nodes.map (·.name) = u.graph.nodes.map (·.name) := by
  conv_rhs => rw [← zipIdx_map_fst 0 u.graph.nodes, map_map]
  simp [spec, Function.comp_def]

end Linkage

/-! ## Descriptions -/

namespace Live.StaticSpec

variable {ω : Type}

theorem noType?_eq_none_iff {i : Nat} {cs : List (ChildSpec ω)} :
    noType? i cs = none ↔ ∀ c ∈ cs, c.type.isSome := by
  induction cs generalizing i with
  | nil => simp [noType?]
  | cons c cs ih =>
    unfold noType?
    cases hc : c.type with
    | none => simp [hc]
    | some t => simp [hc, ih]

/-- The slots of exported ports are found one by one. -/
theorem slotsFrom_eq_ok_iff {types : List (NodeType ω)} {find : NodeType ω → Int → Option PortType}
    {fault : Nat → SpecFault} {i : Nat} {ss : List Slot} {ps : List PortType} :
    slotsFrom types find fault i ss = .ok ps ↔
      List.Forall₂ (fun s p => (at? types s.node).bind (find · s.port) = some p) ss ps := by
  induction ss generalizing i ps with
  | nil => simp [slotsFrom, eq_comm]
  | cons s ss ih =>
    rw [forall₂_cons_left_iff]
    unfold slotsFrom
    cases hs : (at? types s.node).bind (find · s.port) with
    | none => simp
    | some p =>
      simp only [← @ih (i + 1), Option.some.injEq]
      cases hrest : slotsFrom types find fault (i + 1) ss with
      | error f => simp
      | ok rest =>
        simp only [Except.ok.injEq]
        constructor
        · rintro rfl
          exact ⟨p, rest, rfl, rfl, rfl⟩
        · rintro ⟨q, qs, rfl, rfl, rfl⟩
          rfl

/-- A description is accepted if it has nodes, all with types, and if its connections and exported ports
lead to slots of these. -/
theorem check_eq_ok_iff {s : StaticSpec ω} {inputs outputs : List PortType} :
    s.check = .ok (inputs, outputs) ↔
      s.nodes ≠ [] ∧ (∀ c ∈ s.nodes, c.type.isSome) ∧ linkFault? s.types 0 none s.links = none ∧
        slotsFrom s.types NodeType.inputAt? .inputRange 0 s.inputs = .ok inputs ∧
        slotsFrom s.types NodeType.outputAt? .outputRange 0 s.outputs = .ok outputs := by
  rw [← noType?_eq_none_iff (i := 0)]
  unfold check
  cases hn : s.nodes.isEmpty with
  | true => simp [List.isEmpty_iff.mp hn]
  | false =>
    have hne : s.nodes ≠ [] := by simpa using hn
    simp only [Bool.false_eq_true, if_false, hne, ne_eq, not_false_eq_true, true_and]
    cases noType? 0 s.nodes with
    | some f => simp
    | none =>
      cases linkFault? s.types 0 none s.links with
      | some f => simp
      | none =>
        cases slotsFrom s.types NodeType.inputAt? .inputRange 0 s.inputs with
        | error f => simp
        | ok ins =>
          cases slotsFrom s.types NodeType.outputAt? .outputRange 0 s.outputs with
          | error f => simp
          | ok outs => simp

end Live.StaticSpec

end FlowCompiler
