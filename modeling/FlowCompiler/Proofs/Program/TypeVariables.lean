import FlowCompiler.Proofs.Program.Imports
import FlowCompiler.Proofs.Startup.Simulation

/-!
# Variables of declared types

A function that builds the type of a unit first builds the types that the unit declares and its nodes use, each
into a variable. The variables are found by going through the declarations and looking each one up among the
types of nodes that do not come from the catalog; the function to call is looked up by name as well. All look-ups
meet because declared names are distinct and types keep the names of their declarations (`Declares.recorded`).

Main statement: `Session.Compiles.type_variables`. In every unit of a compilation the variables are exactly those
that nodes need (`FlowUnit.TypeVariables`), each is defined once, before it is used, and by the function of the
child or the declaration of that name.
-/

namespace FlowCompiler

open List Source

/-! ## Names of variables -/

theorem take_typeVariable (name : String) (n : Nat) :
    (Naming.numbered (typeVariable name) n).toList.take 4 = ['t', 'y', 'p', 'e'] := by
  rw [Naming.toList_numbered, typeVariable, String.toList_append]
  rfl

/-- Variables of types differ from all others in the function that defines them. -/
theorem FlowUnit.VariablesMade.ne_others {u : FlowUnit} (hu : u.VariablesMade) {x : String}
    (hx : x ∈ u.typeVariables) : x ∉ Names.inBodies ∧ ∀ i, x ≠ Names.optionsVariable i := by
  obtain ⟨name, n, rfl⟩ := hu x hx
  have htake := take_typeVariable name n
  have hbodies : ∀ y ∈ Names.inBodies, y.toList.take 4 ≠ ['t', 'y', 'p', 'e'] := by decide
  refine ⟨fun hmem => hbodies _ hmem htake, fun i heq => ?_⟩
  have hopts : (Names.optionsVariable i).toList.take 4 = ['o', 'p', 't', 's'] := by
    rw [Names.optionsVariable, String.toList_append]
    rfl
  rw [heq, hopts] at htake
  exact absurd htake (by decide)

namespace FlowUnit

variable {cfg : Config} {units : List FlowUnit} {u : FlowUnit} {b : Binding} {f x : String}

/-- The function of what a unit declared under the name of a type: of a child, whose type it is, or of a type that
a metatype makes. -/
inductive BuiltBy (units : List FlowUnit) (u : FlowUnit) (t : Descriptor) : Role → String → Prop where
  | subflow {sub : Subflow} {child : FlowUnit} (declared : sub ∈ u.subflows) (name : sub.name = t.name)
      (stored : units[sub.child]? = some child) (type : child.type = some t) :
      BuiltBy units u t .subflow child.funcName
  | metatype {d : DeclaredType} (declared : d ∈ u.declared) (name : d.name = t.name) :
      BuiltBy units u t .metatype d.funcName

/-- The assignment of a type to a node. -/
def typeAssignment (i : Nat) (symbol : Expr) : Stmt :=
  .assign [.member (.index (.name "nodes") (.int i)) "Type"] symbol

/-- The variables of declared types in the function that builds the type of a unit. -/
structure TypeVariables (cfg : Config) (units : List FlowUnit) (u : FlowUnit) : Prop where
  /-- No variable is listed twice. -/
  distinct : ((u.declaredTypes units).map (·.1.symbol)).Nodup
  /-- There is a variable for each type of a node that is no type of the catalog, and no other. -/
  needed : ∀ x, x ∈ (u.declaredTypes units).map (·.1.symbol) ↔
    ∃ b ∈ u.bindings, b.role ≠ .external ∧ b.type.symbol = x
  /-- A type of the catalog hides what the unit declares. -/
  hidden : ∀ b ∈ u.bindings, b.role = .external ↔ (cfg.common.find? b.type.name).isSome = true
  /-- A variable gets its value from the function of what has its name. -/
  initialised : ∀ b ∈ u.bindings, b.role ≠ .external →
    ∀ f, (b.type, f) ∈ u.declaredTypes units ↔ u.BuiltBy units b.type b.role f
  /-- A variable is defined once in the whole function. -/
  once : ∀ p ∈ u.declaredTypes units, (Stmt.definedAll (u.createBody units)).count p.1.symbol = 1
  /-- A node gets its type from the variable, after it was defined. -/
  assigned : ∀ i b, u.bindings[i]? = some b → b.role ≠ .external →
    ∃ f before between after, (b.type, f) ∈ u.declaredTypes units ∧
      u.createBody units = before ++ .define [b.type.symbol, "err"] (.call (.name f) []) ::
        (between ++ typeAssignment i (.raw b.type.symbol) :: after)

/-! ## Look-ups -/

/-- A unit declares one type of a name. -/
theorem Compiled.local_unique (h : u.Compiled cfg units) {t t' : Descriptor} (ht : t ∈ u.locals.types)
    (ht' : t' ∈ u.locals.types) (hname : t.name = t'.name) : t = t' := by
  refine inj_on_of_nodup_map ?_ ht ht' hname
  rw [h.declares.recorded.2.2]
  exact h.declarationNames

theorem constructorOf_of_mem {p : Descriptor × String} (hp : p ∈ u.declaredTypes units) :
    p.1.name ∈ u.usedDeclarations.map (·.name) ∧ p.2 = u.constructorOf units p.1.name := by
  have hmem := mem_map_of_mem (f := fun q : Descriptor × String => (q.1.name, q.2)) hp
  rw [declaredTypes_names] at hmem
  obtain ⟨d, hd, heq⟩ := mem_map.mp hmem
  obtain ⟨hname, hfunc⟩ := Prod.mk.inj heq
  exact ⟨hname ▸ mem_map_of_mem hd, by rw [← hname, hfunc]⟩

/-- The types of nodes have their variables, with the functions that are found by their names. -/
theorem Compiled.mem_declaredTypes_iff (h : u.Compiled cfg units) (hb : b ∈ u.bindings)
    (hrole : b.role ≠ .external) : (b.type, f) ∈ u.declaredTypes units ↔ f = u.constructorOf units b.type.name := by
  refine ⟨fun hp => (constructorOf_of_mem hp).2, ?_⟩
  rintro rfl
  have hwritten : b.type.name ∈ u.graph.declarations.map (·.name) :=
    h.declares.names.1 _ (h.mem_locals hb hrole)
  obtain ⟨d, hd, hname⟩ := mem_map.mp (Linkage.mem_usedDeclarations hb hrole hwritten)
  have hmem : (d.name, u.constructorOf units d.name) ∈
      (u.declaredTypes units).map fun q : Descriptor × String => (q.1.name, q.2) := by
    rw [declaredTypes_names]
    exact mem_map_of_mem hd
  obtain ⟨⟨t, f⟩, hp, heq⟩ := mem_map.mp hmem
  obtain ⟨htname, rfl⟩ := Prod.mk.inj heq
  -- the type was found by its name, which is that of one type of the unit
  obtain ⟨b', hb', hrole', rfl⟩ := mem_declaredTypes hp
  have htype : b'.type = b.type :=
    h.local_unique (h.mem_locals hb' hrole') (h.mem_locals hb hrole) (htname.trans hname)
  rw [htype, hname] at hp
  exact hp

/-- The function that is found by a name is that of the child or of the declared type of the name. -/
theorem Compiled.builtBy_iff (h : u.Compiled cfg units) (hb : b ∈ u.bindings) (hrole : b.role ≠ .external) :
    u.BuiltBy units b.type b.role f ↔ f = u.constructorOf units b.type.name := by
  have hsubflows : (u.subflows.map (·.name)).Nodup := h.declarationNames.sublist h.declares.sublists.1
  have hdeclared : (u.declared.map (·.name)).Nodup := h.declarationNames.sublist h.declares.sublists.2
  cases h.binds b hb with
  | external role found => exact absurd role hrole
  | @subflow child pos role written undeclared found stored later type =>
    have hfunc : u.constructorOf units b.type.name = child.funcName := by
      simp only [constructorOf, undeclared, found, stored, Option.map_some, Option.getD_some]
    rw [role, hfunc]
    constructor
    · rintro ⟨hsub, hname, hstored, -⟩
      cases inj_on_of_nodup_map hsubflows hsub (mem_of_find?_eq_some found) hname
      rw [stored] at hstored
      cases hstored
      rfl
    · rintro rfl
      exact .subflow (mem_of_find?_eq_some found) rfl stored type
  | @metatype d m role written found known ports options =>
    have hname : d.name = b.type.name := by simpa using find?_some found
    have hfunc : u.constructorOf units b.type.name = d.funcName := by
      simp only [constructorOf, found]
    rw [role, hfunc]
    constructor
    · rintro (_ | ⟨hd', hname'⟩)
      rw [inj_on_of_nodup_map hdeclared hd' (mem_of_find?_eq_some found) (hname'.trans hname.symm)]
    · rintro rfl
      exact .metatype (mem_of_find?_eq_some found) hname

/-! ## Statements -/

theorem definedAll_append (ss ss' : List Stmt) :
    Stmt.definedAll (ss ++ ss') = Stmt.definedAll ss ++ Stmt.definedAll ss' := by
  induction ss with
  | nil => rfl
  | cons s ss ih => rw [cons_append, Stmt.definedAll, ih, Stmt.definedAll, append_assoc]

/-- The statements that define the variables of types. -/
def variableStmts (ps : List (Descriptor × String)) : List Stmt :=
  ps.flatMap fun (t, f) => [.define [t.symbol, "err"] (.call (.name f) []), failOnError]

/-- The statements that give nodes their types. -/
def assignmentStmts (bs : List (Binding × Nat)) : List Stmt :=
  bs.map fun (b, i) => typeAssignment i (Names.symbolExpr b.type.symbol)

theorem count_variableStmts (hx : x ≠ "err") (ps : List (Descriptor × String)) :
    (Stmt.definedAll (variableStmts ps)).count x = (ps.map (·.1.symbol)).count x := by
  induction ps with
  | nil => rfl
  | cons p ps ih =>
    have hcons : Stmt.definedAll (variableStmts (p :: ps)) =
        p.1.symbol :: "err" :: Stmt.definedAll (variableStmts ps) := rfl
    rw [hcons, map_cons, count_cons, count_cons_of_ne hx.symm, count_cons, ih]

/-- The statements of the function: variables of options and rows, those of types, that of the nodes, the types of
the nodes, and the result. -/
theorem exists_createBody_eq (u : FlowUnit) (units : List FlowUnit) :
    ∃ before nodes results, u.createBody units = before ++ (variableStmts (u.declaredTypes units) ++
        (.define ["nodes"] nodes :: (assignmentStmts u.bindings.zipIdx ++ [.give results]))) ∧
      ∀ st ∈ before, ∀ y ∈ st.defined, y ∈ Names.inBodies ∨ ∃ i, y = Names.optionsVariable i := by
  have hlist : ∀ {α : Type} (name element : String) (row : α → List (String × Expr)) (rows : List α),
      name ∈ Names.inBodies → ∀ st ∈ listVariable name element row rows, ∀ y ∈ st.defined,
        y ∈ Names.inBodies ∨ ∃ i, y = Names.optionsVariable i := by
    intro α name element row rows hname st hst y hy
    obtain ⟨es, rfl⟩ := mem_listVariable hst
    rw [mem_singleton.mp hy]
    exact .inl hname
  refine ⟨u.optionVariables ++ (listVariable "conns" "ConnSpec" connectionFields u.connections ++
      (listVariable "exportedIn" "PortSpec" slotFields u.inputs ++
        listVariable "exportedOut" "PortSpec" slotFields u.outputs)),
    .lines (flow "NodeSpec") (u.graph.nodes.zipIdx.map fun p => .withFields .omitted (u.nodeFields p.2 p.1)),
    [.call (flow "NewStaticType") [.string u.name, .unary "&" (.withLines (flow "StaticSpec") u.specFields)]],
    ?_, ?_⟩
  · simp only [createBody, append_assoc]
    rfl
  · refine forall_mem_append.mpr ⟨?_, forall_mem_append.mpr ⟨hlist _ _ _ _ (by decide),
      forall_mem_append.mpr ⟨hlist _ _ _ _ (by decide), hlist _ _ _ _ (by decide)⟩⟩⟩
    intro st hst y hy
    obtain ⟨i, values, -, rfl⟩ := mem_optionVariables hst
    exact .inr ⟨i, mem_singleton.mp hy⟩

/-- A name that is no name of another local variable is defined as often as it is that of a type variable. -/
theorem count_createBody (hbodies : x ∉ Names.inBodies) (hoptions : ∀ i, x ≠ Names.optionsVariable i) :
    (Stmt.definedAll (u.createBody units)).count x = ((u.declaredTypes units).map (·.1.symbol)).count x := by
  obtain ⟨before, nodes, results, hbody, hbefore⟩ := exists_createBody_eq u units
  have hne : ∀ y ∈ Names.inBodies, x ≠ y := fun y hy heq => hbodies (heq ▸ hy)
  have hbeforeCount : (Stmt.definedAll before).count x = 0 := by
    refine count_eq_zero_of_not_mem fun hx => ?_
    obtain ⟨st, hst, hmem⟩ := Stmt.mem_definedAll.mp hx
    obtain hmem | ⟨i, heq⟩ := hbefore st hst x hmem
    · exact hbodies hmem
    · exact hoptions i heq
  have hafterCount : (Stmt.definedAll
      (.define ["nodes"] nodes :: (assignmentStmts u.bindings.zipIdx ++ [.give results]))).count x = 0 := by
    refine count_eq_zero_of_not_mem fun hx => ?_
    obtain ⟨st, hst, hmem⟩ := Stmt.mem_definedAll.mp hx
    simp only [assignmentStmts, mem_cons, mem_append, mem_map, not_mem_nil, or_false] at hst
    obtain rfl | ⟨p, -, rfl⟩ | rfl := hst
    · exact hne "nodes" (by decide) (mem_singleton.mp hmem)
    · exact absurd hmem not_mem_nil
    · exact absurd hmem not_mem_nil
  rw [hbody, definedAll_append, definedAll_append, count_append, count_append, hbeforeCount, hafterCount,
    count_variableStmts (hne "err" (by decide)), Nat.zero_add, Nat.add_zero]

/-- The variable of a type is defined before the types of nodes are assigned. -/
theorem createBody_split {i : Nat} (hb : u.bindings[i]? = some b) (hp : (b.type, f) ∈ u.declaredTypes units) :
    ∃ before between after, u.createBody units =
      before ++ .define [b.type.symbol, "err"] (.call (.name f) []) ::
        (between ++ typeAssignment i (Names.symbolExpr b.type.symbol) :: after) := by
  obtain ⟨before, nodes, results, hbody, -⟩ := exists_createBody_eq u units
  obtain ⟨ps, ps', hps⟩ := append_of_mem hp
  have hvariables : variableStmts (u.declaredTypes units) = variableStmts ps ++
      .define [b.type.symbol, "err"] (.call (.name f) []) :: failOnError :: variableStmts ps' := by
    rw [hps, variableStmts, flatMap_append, flatMap_cons]
    rfl
  obtain ⟨qs, qs', hqs⟩ := append_of_mem (mem_zipIdx_iff_getElem?.mpr hb : (b, i) ∈ u.bindings.zipIdx)
  have hassignments : assignmentStmts u.bindings.zipIdx =
      assignmentStmts qs ++ typeAssignment i (Names.symbolExpr b.type.symbol) :: assignmentStmts qs' := by
    rw [hqs, assignmentStmts, map_append, map_cons]
    rfl
  refine ⟨before ++ variableStmts ps,
    failOnError :: (variableStmts ps' ++ .define ["nodes"] nodes :: assignmentStmts qs),
    assignmentStmts qs' ++ [.give results], ?_⟩
  rw [hbody, hvariables, hassignments]
  simp only [append_assoc, cons_append]

end FlowUnit

namespace Session

variable {cfg : Config} {s : Session} {root u : FlowUnit}

/-- In every unit of a compilation, types that the unit declares and nodes use have variables: each one, once, made
by the right function, and assigned to the nodes that have the type. -/
theorem Compiles.type_variables (h : s.Compiles cfg root) (hu : u ∈ s.units) : u.TypeVariables cfg s.units := by
  have hc := h.done.2.compiled hu
  have hmade := h.variablesMade u hu
  have hsymbols : u.typeVariables.Nodup := by
    obtain ⟨hroot, c, more, ht⟩ := h.titled
    rw [ht.units] at hu
    obtain rfl | hu := mem_cons.mp hu
    · exact hroot
    · exact ht.typeVariables u hu
  have hlocal : ∀ p ∈ u.declaredTypes s.units, p.1 ∈ u.locals.types := by
    rintro ⟨t, f⟩ hp
    obtain ⟨b, hb, hrole, rfl⟩ := FlowUnit.mem_declaredTypes hp
    exact hc.mem_locals hb hrole
  have hnames : ((u.declaredTypes s.units).map (·.1.name)).Nodup := by
    have hpairs := congrArg (List.map Prod.fst) (u.declaredTypes_names s.units)
    rw [map_map, map_map] at hpairs
    exact hpairs ▸ hc.declarationNames.sublist (filter_sublist.map _)
  -- the symbol tells the type, the type its name, and the name the entry
  have hnodup : ((u.declaredTypes s.units).map (·.1.symbol)).Nodup := by
    refine List.Nodup.map_on (fun p hp q hq hsymbol => ?_) (.of_map _ hnames)
    have htype := inj_on_of_nodup_map hsymbols (hlocal p hp) (hlocal q hq) hsymbol
    exact inj_on_of_nodup_map hnames hp hq (congrArg (·.name) htype)
  refine
    { distinct := hnodup
      needed := fun x => ⟨fun hx => ?_, ?_⟩
      hidden := fun b hb => ?_
      initialised := fun b hb hrole f => (hc.mem_declaredTypes_iff hb hrole).trans (hc.builtBy_iff hb hrole).symm
      once := fun p hp => ?_
      assigned := fun i b hb hrole => ?_ }
  · obtain ⟨⟨t, f⟩, hp, rfl⟩ := mem_map.mp hx
    obtain ⟨b, hb, hrole, rfl⟩ := FlowUnit.mem_declaredTypes hp
    exact ⟨b, hb, hrole, rfl⟩
  · rintro ⟨b, hb, hrole, rfl⟩
    exact mem_map.mpr ⟨_, (hc.mem_declaredTypes_iff hb hrole).mpr rfl, rfl⟩
  · obtain ⟨hrole, hfind⟩ | ⟨hrole, hnone, -⟩ := hc.type_source hb
    · simp [hrole, hfind]
    · rw [hrole, hnone]
      split <;> simp
  · obtain ⟨hbodies, hoptions⟩ := hmade.ne_others (mem_map_of_mem (hlocal p hp))
    rw [FlowUnit.count_createBody hbodies hoptions]
    exact count_eq_one_of_mem hnodup (mem_map_of_mem hp)
  · have hmem := mem_of_getElem? hb
    have hp := (hc.mem_declaredTypes_iff hmem hrole).mpr rfl
    obtain ⟨before, between, after, hbody⟩ := FlowUnit.createBody_split hb hp
    refine ⟨_, before, between, after, hp, ?_⟩
    rw [hbody, Names.symbolExpr, hmade.splitSymbol?_symbol hc hmem hrole]

/-- A catalog with a type `src`, a flow file, and a preset `lamp` of a type `blink`. -/
def presetConfig : Config where
  storage := ⟨["w"], [(["w"], .directory), (["w", "sub"], .file "t(src)" 0)]⟩
  common := { types := [{ name := "src", symbol := "lib.Src" }] }
  resolver := some (Presets.resolver ⟨[("lamp", ⟨"blink", []⟩)]⟩)

/-- The session of a flow that declares a type that a preset names, a type that the catalog hides, a type that a
metatype makes, and a type that no node has. -/
def presetSession : Session × Except CompileError FlowUnit :=
  compileText {} presetConfig "m.fbp"
    ("DECLARE=blink:fbp:sub\nDECLARE=src:fbp:sub\nDECLARE=pair:composed-new:A(int)|B(int)\n" ++
      "DECLARE=idle:fbp:sub\na(lamp), b(lamp), c(src), d(pair)")

/-- Only the type behind the preset and the one of the metatype have variables. -/
theorem Compiles.type_variables_preset :
    ∃ root, presetSession.1.Compiles presetConfig root ∧ root ∈ presetSession.1.units ∧
      (root.declaredTypes presetSession.1.units).map (fun p => (p.1.symbol, p.2)) =
        [("typeBlink", "createBlink1Type"), ("typePair", "newPair0Type")] ∧
      root.TypeVariables presetConfig presetSession.1.units := by
  obtain ⟨root, h, htypes⟩ : ∃ root, presetSession.1.Compiles presetConfig root ∧
      (root.declaredTypes presetSession.1.units).map (fun p => (p.1.symbol, p.2)) =
        [("typeBlink", "createBlink1Type"), ("typePair", "newPair0Type")] :=
    exists_compiles_and rfl (by decide +kernel)
  exact ⟨root, h, h.root_mem, htypes, h.type_variables h.root_mem⟩

end Session

end FlowCompiler
