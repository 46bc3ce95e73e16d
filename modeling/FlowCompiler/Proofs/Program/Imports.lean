import FlowCompiler.Proofs.Program.Scope

/-!
# Packages that generated code refers to

The code of units refers to packages through the symbols of types of nodes, and through those of their options
where a node has values. The symbols of types that flows declare name no package, so what is left are the
symbols of the catalog that were collected before (`Session.paths_unitDecls`).

Main statement: `Session.Compiles.packages_named`. Each package that the code of units refers to has a fixed
name or got exactly one, and the names that were given are apart from each other and from all else.
-/

namespace FlowCompiler

open List Source

variable {fields : List (String × Expr)} {st : Stmt} {d : Decl} {dataType : String}

namespace Source

variable {path : String} {type : Expr}

attribute [local simp] Expr.paths Expr.pathsAll Expr.pathsFields Stmt.paths Stmt.pathsAll Stmt.pathsCases

theorem Expr.mem_pathsFields {fields : List (Expr × Expr)} :
    path ∈ Expr.pathsFields fields ↔ ∃ f ∈ fields, path ∈ f.1.paths ∨ path ∈ f.2.paths := by
  induction fields with
  | nil => simp
  | cons f fields ih =>
    obtain ⟨k, v⟩ := f
    simp [ih, or_assoc]

theorem Expr.mem_pathsFields_named :
    path ∈ Expr.pathsFields (fields.map fun (k, v) => (.name k, v)) ↔ ∃ f ∈ fields, path ∈ f.2.paths := by
  simp only [mem_pathsFields, mem_map, exists_exists_and_eq_and]
  simp

theorem Expr.mem_paths_withFields :
    path ∈ (Expr.withFields type fields).paths ↔ path ∈ type.paths ∨ ∃ f ∈ fields, path ∈ f.2.paths := by
  rw [withFields, paths, mem_append, mem_pathsFields_named]

theorem Expr.mem_paths_withLines :
    path ∈ (Expr.withLines type fields).paths ↔ path ∈ type.paths ∨ ∃ f ∈ fields, path ∈ f.2.paths := by
  rw [withLines, paths, mem_append, mem_pathsFields_named]

theorem Expr.mem_paths_lines {element : Expr} {es : List Expr} :
    path ∈ (Expr.lines element es).paths ↔ path ∈ element.paths ∨ ∃ e ∈ es, path ∈ e.paths := by
  simp [lines, mem_pathsFields]

theorem Stmt.mem_pathsAll {ss : List Stmt} : path ∈ Stmt.pathsAll ss ↔ ∃ s ∈ ss, path ∈ s.paths := by
  induction ss with
  | nil => simp
  | cons s ss ih => simp [ih]

theorem Stmt.mem_pathsCases {cases : List (Expr × List Stmt)} :
    path ∈ Stmt.pathsCases cases ↔ ∃ c ∈ cases, path ∈ c.1.paths ∨ path ∈ Stmt.pathsAll c.2 := by
  induction cases with
  | nil => simp
  | cons c cases ih =>
    obtain ⟨e, body⟩ := c
    simp [ih, or_assoc]

end Source

/-! ## Symbols -/

namespace Names

variable {symbol : String}

theorem mem_paths_symbolExpr {path : String} :
    path ∈ (symbolExpr symbol).paths ↔ ∃ name, splitSymbol? symbol = some (path, name) := by
  unfold symbolExpr
  split
  · next path' name hsplit => simp [Expr.paths, hsplit, eq_comm]
  · next hsplit => simp [Expr.paths, hsplit]

/-- A symbol without a dot names no package. -/
theorem splitSymbol?_of_notMem (h : '.' ∉ symbol.toList) : splitSymbol? symbol = none := by
  have htake : symbol.toList.reverse.takeWhile (· != '.') = symbol.toList.reverse := by
    rw [takeWhile_eq_self_iff]
    intro c hc
    exact bne_iff_ne.mpr fun heq => h (heq ▸ mem_reverse.mp hc)
  unfold splitSymbol?
  dsimp only
  rw [htake, drop_eq_nil_of_le (Nat.le_succ _)]

end Names

/-! ## Literals -/

section Literals

variable {path : String}

theorem Literal.paths_expr {l : Literal} (h : path ∈ l.expr.paths) : path ∈ Names.fixedPaths := by
  have hmath : "math" ∈ Names.fixedPaths := by decide
  have hsigned : ∀ negative e, path ∈ (signed negative e).paths → path ∈ e.paths := by
    intro negative e he
    cases negative <;> exact he
  cases l with
  | limit negative l => exact mem_singleton.mp (hsigned _ _ h) ▸ hmath
  | smallest negative => cases hsigned _ _ h
  | notANumber => exact mem_singleton.mp h ▸ hmath
  | infinity negative => exact mem_singleton.mp h ▸ hmath
  | text | bool | int | float | verbatim => cases h

theorem Value.paths_expr? {v : Value} {e : Expr} (h : v.expr? dataType = some e) (hpath : path ∈ e.paths) :
    path ∈ Names.fixedPaths := by
  have hflow : flowPath ∈ Names.fixedPaths := by decide
  cases v with
  | raw => cases h
  | text t =>
    cases h
    exact Literal.paths_expr hpath
  | composite c =>
    have hexpr : c.expr? (DataType.canonical dataType) = some e := h
    unfold Composite.expr? at hexpr
    split at hexpr
    · cases hexpr
    · cases hexpr
      rcases Expr.mem_paths_withFields.mp hpath with htype | ⟨f, hf, hvalue⟩
      · exact mem_singleton.mp htype ▸ hflow
      · obtain ⟨⟨k, l⟩, -, rfl⟩ := mem_map.mp hf
        exact Literal.paths_expr hvalue

theorem DataType.paths_fieldType (h : path ∈ (fieldType dataType).paths) : path ∈ Names.fixedPaths := by
  have hflow : flowPath ∈ Names.fixedPaths := by decide
  unfold fieldType at h
  dsimp only at h
  split_ifs at h
  iterate 5 exact mem_singleton.mp h ▸ hflow
  all_goals cases h

theorem Descriptor.paths_optionsLiteral {d : Descriptor} {values : List ResolvedOption}
    (h : path ∈ (d.optionsLiteral values).paths) :
    path ∈ (Names.symbolExpr d.optionsSymbol).paths ∨ path ∈ Names.fixedPaths := by
  refine (Expr.mem_paths_withLines.mp h).imp_right ?_
  rintro ⟨f, hf, hvalue⟩
  obtain ⟨o, -, ho⟩ := mem_filterMap.mp hf
  split at ho
  · next e he =>
    cases ho
    obtain ⟨v, -, hv⟩ := Option.bind_eq_some_iff.mp he
    exact Value.paths_expr? hv hvalue
  · cases ho

end Literals

/-! ## Units -/

namespace FlowUnit

variable {cfg : Config} {units all : List FlowUnit} {u : FlowUnit} {path symbol : String}

/-- Whether a package is one that programs use on their own account, or has a symbol of a node. -/
def Qualifies (u : FlowUnit) (path : String) : Prop :=
  path ∈ Names.fixedPaths ∨ ∃ symbol, u.HasSymbol symbol ∧ path ∈ (Names.symbolExpr symbol).paths

theorem qualifies_flow {member : String} (h : path ∈ (flow member).paths) : u.Qualifies path :=
  .inl (mem_singleton.mp h ▸ by decide)

theorem qualifies_listVariable {α : Type} {name element : String} {row : α → List (String × Expr)}
    {rows : List α} (hrow : ∀ r, ∀ f ∈ row r, f.2.paths = [])
    (hst : st ∈ listVariable name element row rows) (hpath : path ∈ st.paths) : u.Qualifies path := by
  unfold listVariable at hst
  split at hst
  · cases hst
  · obtain rfl := mem_singleton.mp hst
    rcases Expr.mem_paths_lines.mp hpath with hflow | ⟨e, he, hpath⟩
    · exact qualifies_flow hflow
    · obtain ⟨r, -, rfl⟩ := mem_map.mp he
      obtain ⟨f, hf, hpath⟩ := (Expr.mem_paths_withFields.mp hpath).resolve_left not_mem_nil
      rw [hrow r f hf] at hpath
      cases hpath

theorem paths_nodeFields (u : FlowUnit) (node : Nat) (n : Graph.Node) :
    ∀ f ∈ u.nodeFields node n, f.2.paths = [] := by
  intro f hf
  rcases mem_cons.mp hf with rfl | hf
  · rfl
  · split at hf
    · obtain rfl := mem_singleton.mp hf
      rfl
    · cases hf

theorem paths_specFields (u : FlowUnit) : ∀ f ∈ u.specFields, f.2.paths = [] := by
  intro f hf
  simp only [specFields, mem_append, mem_singleton, or_assoc] at hf
  rcases hf with rfl | hf | hf | hf | hf
  · rfl
  all_goals
    split at hf
    · cases hf
    · obtain rfl := mem_singleton.mp hf
      rfl

/-- What the statements that build the type of a unit refer to. -/
theorem qualifies_createBody (hlength : u.options.length = u.bindings.length) (hst : st ∈ u.createBody all)
    (hpath : path ∈ st.paths) : u.Qualifies path := by
  simp only [createBody, mem_append, mem_singleton, or_assoc] at hst
  rcases hst with hst | hst | hst | hst | hst | rfl | hst | rfl
  · obtain ⟨i, values, hat, rfl⟩ := mem_optionVariables hst
    have hlt : i < u.bindings.length := hlength ▸ (List.getElem?_eq_some_iff.mp hat).1
    have hb := getElem?_eq_getElem hlt
    rw [typeAt_types hb] at hpath
    rcases Descriptor.paths_optionsLiteral hpath with hpath | hfixed
    · refine .inr ⟨_, ⟨i, _, hb, .inr ⟨rfl, ?_⟩⟩, hpath⟩
      rw [valuesAt, hat]
      rfl
    · exact .inl hfixed
  · refine qualifies_listVariable (fun r f hf => ?_) hst hpath
    simp only [connectionFields, mem_cons, not_mem_nil, or_false] at hf
    rcases hf with rfl | rfl | rfl | rfl <;> rfl
  · refine qualifies_listVariable (fun r f hf => ?_) hst hpath
    simp only [slotFields, mem_cons, not_mem_nil, or_false] at hf
    rcases hf with rfl | rfl <;> rfl
  · refine qualifies_listVariable (fun r f hf => ?_) hst hpath
    simp only [slotFields, mem_cons, not_mem_nil, or_false] at hf
    rcases hf with rfl | rfl <;> rfl
  · obtain ⟨⟨t, f⟩, -, hst⟩ := mem_flatMap.mp hst
    rcases mem_cons.mp hst with rfl | hst
    · cases hpath
    · obtain rfl := mem_singleton.mp hst
      cases hpath
  · rcases Expr.mem_paths_lines.mp hpath with hflow | ⟨e, he, hpath⟩
    · exact qualifies_flow hflow
    · obtain ⟨⟨n, i⟩, -, rfl⟩ := mem_map.mp he
      obtain ⟨f, hf, hpath⟩ := (Expr.mem_paths_withFields.mp hpath).resolve_left not_mem_nil
      rw [u.paths_nodeFields i n f hf] at hpath
      cases hpath
  · obtain ⟨⟨b, i⟩, hmem, rfl⟩ := mem_map.mp hst
    exact .inr ⟨b.type.symbol, ⟨i, b, mem_zipIdx_iff_getElem?.mp hmem, .inl rfl⟩, hpath⟩
  · have hcall : path ∈ (flow "NewStaticType").paths ∨
        path ∈ (Expr.withLines (flow "StaticSpec") u.specFields).paths := by
      simpa [Stmt.paths, Expr.paths, Expr.pathsAll, Expr.string] using hpath
    rcases hcall with hflow | hspec
    · exact qualifies_flow hflow
    · rcases Expr.mem_paths_withLines.mp hspec with hflow | ⟨f, hf, hpath⟩
      · exact qualifies_flow hflow
      · rw [u.paths_specFields f hf] at hpath
        cases hpath

/-- What the statements that hand options on to a child refer to. -/
theorem qualifies_forwardTo (h : u.Compiled cfg units) {child : Nat} (hchild : child ∈ u.forwardedChildren)
    (hst : st ∈ u.forwardTo child) (hpath : path ∈ st.paths) : u.Qualifies path := by
  simp only [forwardTo, mem_append, mem_singleton, mem_map] at hst
  rcases hst with (rfl | ⟨r, -, rfl⟩) | rfl
  · exact .inr ⟨_, hasSymbol_of_mem_forwardedChildren h hchild, hpath⟩
  · cases hpath
  · cases hpath

theorem qualifies_childOptionsDecls (h : u.Compiled cfg units) (hd : d ∈ u.childOptionsDecls)
    (hpath : path ∈ d.paths) : u.Qualifies path := by
  unfold childOptionsDecls at hd
  split at hd
  · cases hd
  · obtain rfl := mem_singleton.mp hd
    have hcases : path = flowPath ∨ path = "fmt" ∨ path ∈ Stmt.pathsCases
        (u.forwardedChildren.map fun (c : Nat) => (.int c, u.forwardTo c)) := by
      simpa [Decl.paths, Stmt.pathsAll, Stmt.paths, Expr.paths, Expr.pathsAll, flow, errorType, Expr.null,
        Expr.string] using hpath
    rcases hcases with rfl | rfl | hcases
    · exact .inl (by decide)
    · exact .inl (by decide)
    · obtain ⟨c, hc, hpath⟩ := Stmt.mem_pathsCases.mp hcases
      obtain ⟨child, hchild, rfl⟩ := mem_map.mp hc
      obtain ⟨st, hst, hpath⟩ := Stmt.mem_pathsAll.mp (hpath.resolve_left not_mem_nil)
      exact qualifies_forwardTo h hchild hst hpath

/-- What the code of a unit refers to, but for the type of its own options. -/
theorem Compiled.qualifies_decls (h : u.Compiled cfg units) (hd : d ∈ u.decls all) (hpath : path ∈ d.paths) :
    path ∈ (Names.symbolExpr u.optionsSymbol).paths ∨ u.Qualifies path := by
  simp only [decls, mem_append, mem_singleton] at hd
  rcases hd with (hd | hd) | rfl
  · obtain ⟨-, ⟨comment, rfl⟩ | rfl⟩ := mem_optionsDecls hd
    · obtain ⟨field, hfield, hpath⟩ := mem_flatMap.mp hpath
      obtain ⟨o, -, rfl⟩ := mem_map.mp hfield
      exact .inr (.inl (DataType.paths_fieldType hpath))
    · have hliteral := Descriptor.paths_optionsLiteral hpath
      rw [descriptor_optionsSymbol] at hliteral
      exact hliteral.imp_right .inl
  · exact .inr (qualifies_childOptionsDecls h hd hpath)
  · have hbody : path ∈ [flowPath] ∨ path ∈ Stmt.pathsAll (u.createBody all) := by
      simpa [createDecl, Decl.paths, Expr.pathsAll, nodeTypePointer, errorType, flow, Expr.paths] using hpath
    rcases hbody with hfixed | hbody
    · exact .inr (.inl (mem_singleton.mp hfixed ▸ by decide))
    · obtain ⟨st, hst, hpath⟩ := Stmt.mem_pathsAll.mp hbody
      exact .inr (qualifies_createBody h.length_options hst hpath)

/-! ### Local symbols -/

theorem Stemmed.splitSymbol?_optionsSymbol (hu : u.Stemmed) (h : u.Compiled cfg units) :
    Names.splitSymbol? u.optionsSymbol = none := by
  refine Names.splitSymbol?_of_notMem ?_
  rcases h.optionsSymbol_cases with hempty | hsymbol
  · rw [hempty]
    exact not_mem_nil
  · obtain ⟨n, hstem⟩ := hu.stem
    rw [hsymbol, hstem, String.toList_append, mem_append, not_or]
    refine ⟨Naming.notMem_numbered ?_ (by decide) rfl n, by decide⟩
    rw [toList_stemBase, mem_append, not_or]
    exact ⟨Naming.notMem_exported u.name (by decide) rfl, Naming.notMem_repr u.id rfl⟩

theorem VariablesMade.splitSymbol?_symbol (hu : u.VariablesMade) (h : u.Compiled cfg units) {b : Binding}
    (hb : b ∈ u.bindings) (hrole : b.role ≠ .external) : Names.splitSymbol? b.type.symbol = none := by
  have hmem : b.type.symbol ∈ u.typeVariables := mem_map_of_mem (h.mem_locals hb hrole)
  obtain ⟨name, n, hsymbol⟩ := hu _ hmem
  refine Names.splitSymbol?_of_notMem ?_
  rw [hsymbol]
  refine Naming.notMem_numbered ?_ (by decide) rfl n
  rw [typeVariable, String.toList_append, mem_append, not_or]
  exact ⟨by decide, Naming.notMem_exported name (by decide) rfl⟩

/-- A symbol of a node that names a package is one of the catalog that was collected. -/
theorem HasSymbol.mem_catalogSymbols (hu : u.VariablesMade) (hunits : ∀ v ∈ units, v.Stemmed)
    (hdone : Done cfg 0 units) (hmem : u ∈ units) (h : u.HasSymbol symbol)
    (hsplit : Names.splitSymbol? symbol ≠ none) : symbol ∈ u.catalogSymbols := by
  have hc := hdone.compiled hmem
  have hne : symbol ≠ "" := fun hempty => hsplit (hempty ▸ Names.splitSymbol?_of_notMem not_mem_nil)
  rcases h.origin hc hne with hcatalog | ⟨b, hb, hrole, rfl⟩ | ⟨child, hchild, rfl⟩
  · exact hcatalog
  · exact absurd (hu.splitSymbol?_symbol hc hb hrole) hsplit
  · exact absurd ((hunits child hchild).splitSymbol?_optionsSymbol (hdone.compiled hchild)) hsplit

/-- A collected symbol is one of a node. -/
theorem hasSymbol_of_mem_catalogSymbols (h : symbol ∈ u.catalogSymbols) : u.HasSymbol symbol := by
  obtain ⟨⟨b, i⟩, hmem, hsymbol⟩ := mem_flatMap.mp h
  have hi := mem_zipIdx_iff_getElem?.mp hmem
  dsimp only at hsymbol
  split at hsymbol
  · cases hsymbol
  · split at hsymbol
    · next hvalues =>
      simp only [mem_cons, not_mem_nil, or_false] at hsymbol
      exact ⟨i, b, hi, hsymbol.imp_right fun h => ⟨h, (Bool.and_eq_true_iff.mp hvalues).1⟩⟩
    · exact ⟨i, b, hi, .inl (mem_singleton.mp hsymbol)⟩

/-- The package of a symbol of a node is used where the type of the unit is built. -/
theorem HasSymbol.mem_paths (h : u.HasSymbol symbol) (hpath : path ∈ (Names.symbolExpr symbol).paths) :
    path ∈ (u.createDecl all).paths := by
  suffices hst : ∃ st ∈ u.createBody all, path ∈ st.paths from
    mem_append_right _ (Stmt.mem_pathsAll.mpr hst)
  obtain ⟨i, b, hi, rfl | ⟨rfl, hvalues⟩⟩ := h
  · refine ⟨.assign [.member (.index (.name "nodes") (.int i)) "Type"] (Names.symbolExpr b.type.symbol),
      ?_, mem_append_right _ hpath⟩
    simp only [createBody, mem_append]
    exact .inl (.inr (mem_map.mpr ⟨(b, i), mem_zipIdx_iff_getElem?.mpr hi, rfl⟩))
  · obtain ⟨values, hvalues⟩ := Option.isSome_iff_exists.mp hvalues
    have hne : b.type.optionsSymbol ≠ "" := by
      intro hempty
      obtain ⟨name, hsplit⟩ := Names.mem_paths_symbolExpr.mp hpath
      rw [hempty, Names.splitSymbol?_of_notMem not_mem_nil] at hsplit
      cases hsplit
    exact ⟨_, optionVariable_mem_createBody hi hvalues hne, Expr.mem_paths_withLines.mpr (.inl hpath)⟩

end FlowUnit

/-! ## Sessions -/

namespace Session

variable {cfg : Config} {registry : Registry} {s : Session} {form : ProgramForm} {as : Names.Aliases}
  {root : FlowUnit} {path : String}

theorem createDecl_mem_unitDecls {u : FlowUnit} (hu : u ∈ s.units) :
    u.createDecl s.units ∈ s.unitDecls := by
  refine mem_append_left _ (mem_flatMap.mpr ⟨u, mem_reverse.mpr hu, ?_⟩)
  exact mem_append_right _ (mem_singleton_self _)

/-- The packages that the code of units refers to are those of symbols of the catalog. -/
theorem Compiles.paths_unitDecls (h : s.Compiles cfg root) (hfixed : path ∉ Names.fixedPaths) :
    (∃ d ∈ s.unitDecls, path ∈ d.paths) ↔
      ∃ x ∈ s.units.flatMap (·.catalogSymbols), ∃ name, Names.splitSymbol? x = some (path, name) := by
  have hdone := h.done.2
  constructor
  · rintro ⟨d, hd, hpath⟩
    rcases mem_append.mp hd with hd | hd
    · obtain ⟨u, hu, hd⟩ := mem_flatMap.mp hd
      have hu := mem_reverse.mp hu
      have hc := hdone.compiled hu
      rcases hc.qualifies_decls hd hpath with hown | hpath | ⟨symbol, hsymbol, hpath⟩
      · obtain ⟨name, hsplit⟩ := Names.mem_paths_symbolExpr.mp hown
        rw [(h.stemmed u hu).splitSymbol?_optionsSymbol hc] at hsplit
        cases hsplit
      · exact absurd hpath hfixed
      · obtain ⟨name, hsplit⟩ := Names.mem_paths_symbolExpr.mp hpath
        have hcatalog := hsymbol.mem_catalogSymbols (h.variablesMade u hu) h.stemmed hdone hu (by simp [hsplit])
        exact ⟨symbol, mem_flatMap.mpr ⟨u, hu, hcatalog⟩, name, hsplit⟩
    · obtain rfl := mem_singleton.mp hd
      have hbody : path ∈ Stmt.pathsAll (s.externalTypes.map fun t =>
          .expr (.call (.member (Names.symbolExpr t.symbol) "Init") [])) := hpath
      obtain ⟨st, hst, hpath⟩ := Stmt.mem_pathsAll.mp hbody
      obtain ⟨t, ht, rfl⟩ := mem_map.mp hst
      simp only [Stmt.paths, Expr.paths, Expr.pathsAll, append_nil] at hpath
      obtain ⟨u, hu, b, hb, hrole, rfl⟩ := mem_externalTypes ht
      exact ⟨_, mem_flatMap.mpr ⟨u, hu, FlowUnit.symbol_mem_catalogSymbols hb hrole⟩,
        Names.mem_paths_symbolExpr.mp hpath⟩
  · rintro ⟨x, hx, hsplit⟩
    obtain ⟨u, hu, hx⟩ := mem_flatMap.mp hx
    refine ⟨u.createDecl s.units, createDecl_mem_unitDecls hu, ?_⟩
    exact (FlowUnit.hasSymbol_of_mem_catalogSymbols hx).mem_paths (Names.mem_paths_symbolExpr.mpr hsplit)

/-- All identifiers in the entry points of a program were counted as generated. -/
theorem identifiers_entryDecls (hd : d ∈ form.entryDecls root) :
    d.identifiers ⊆ Names.generated registry s.units form := by
  intro x hx
  cases form with
  | standalone =>
    refine fixed_subset ?_
    simp only [ProgramForm.entryDecls, standaloneDecls, mem_cons, not_mem_nil, or_false] at hd
    rcases hd with rfl | rfl | rfl | rfl
    · exact (by decide : ["rootNode"] ⊆ Names.fixed) hx
    · exact (by decide : ["startup", "t", "err"] ⊆ Names.fixed) hx
    · exact (by decide : ["shutdown"] ⊆ Names.fixed) hx
    · exact (by decide : ["main"] ⊆ Names.fixed) hx
  | accessor symbol package =>
    refine mem_append_left _ (mem_append_right _ ?_)
    simp only [ProgramForm.entryDecls, accessorDecls, mem_cons, not_mem_nil, or_false] at hd
    rcases hd with rfl | rfl
    · exact mem_cons_of_mem _ hx
    · obtain rfl : x = symbol := mem_singleton.mp hx
      exact mem_cons_self

/-- The packages that the code of units refers to have one name each. -/
theorem Compiles.count_paths (hcompiled : s.Compiles cfg root)
    (h : Names.aliases registry s.units form = .ok as) (hfixed : path ∉ Names.fixedPaths) :
    (∃ d ∈ s.unitDecls, path ∈ d.paths) ↔ (as.map (·.1)).count path = 1 := by
  rw [hcompiled.paths_unitDecls hfixed, ← Names.aliases_paths h hfixed]
  constructor
  · exact count_eq_one_of_mem (Names.aliases_wellNamed h).paths
  · intro hcount
    exact count_pos_iff.mp (by omega)

/-- The names of packages, for a compiled flow whose packages can be given names. The search for a name ends
with one result, whatever is taken, and gave each name when those before it were taken. The package of every
symbol of a node, with that of its options if it has values, is a fixed one or has exactly one name; and but
for the fixed ones, which get no other name, the packages with names are those that the code of units refers
to. Names are distinct. They are identifiers, no reserved words, no names of fixed packages and no generated
names, so that nothing in the code of units and in the entry points hides them. -/
theorem Compiles.packages_named (hcompiled : s.Compiles cfg root)
    (h : Names.aliases registry s.units form = .ok as) :
    (∀ taken path, ∃! name, Names.Search taken (Names.ofPath path) 0 name) ∧
    (∀ before path name after, as = before ++ (path, name) :: after →
      Names.Search (Names.takenBy (Names.generated registry s.units form) before) (Names.ofPath path) 0 name) ∧
    (∀ u ∈ s.units, ∀ symbol path name, u.HasSymbol symbol → Names.splitSymbol? symbol = some (path, name) →
      path ∈ Names.fixedPaths ∨ (as.map (·.1)).count path = 1) ∧
    (∀ path, path ∉ Names.fixedPaths →
      ((∃ d ∈ s.unitDecls, path ∈ d.paths) ↔ (as.map (·.1)).count path = 1)) ∧
    (as.map (·.2)).Nodup ∧
    ∀ e ∈ as, e.1 ∉ Names.fixedPaths ∧ isIdentifier e.2 = true ∧ e.2 ∉ Names.reserved ∧
      e.2 ∉ ["flow", "fmt", "math", "sync"] ∧ e.2 ∉ Names.generated registry s.units form ∧
      ∀ d ∈ s.unitDecls ++ form.entryDecls root, e.2 ∉ d.identifiers := by
  have hnamed := Names.aliases_wellNamed h
  refine ⟨fun taken path => ?_, hnamed.searched, ?_, fun path => hcompiled.count_paths h, hnamed.names, ?_⟩
  · have hsearch := Names.search_free taken (Names.ofPath path)
    exact ⟨_, hsearch, fun name hname => hname.unique hsearch⟩
  · intro u hu symbol path name hsymbol hsplit
    refine or_iff_not_imp_left.mpr fun hfixed => (hcompiled.count_paths h hfixed).mp ?_
    refine ⟨u.createDecl s.units, ?_, hsymbol.mem_paths (Names.mem_paths_symbolExpr.mpr ⟨name, hsplit⟩)⟩
    exact createDecl_mem_unitDecls hu
  · rintro ⟨path, name⟩ he
    obtain ⟨hgenerated, hfixed, hreserved⟩ := hnamed.notMem he
    refine ⟨hnamed.chosen _ he, hnamed.isIdentifier he, hreserved, hfixed, hgenerated,
      fun d hd hmem => hgenerated ?_⟩
    rcases mem_append.mp hd with hd | hd
    · exact identifiers_unitDecls hcompiled.done.2 hd hmem
    · exact identifiers_entryDecls hd hmem

/-- A catalog with packages that are called alike, as variables of generated code are, as a reserved word is,
and by no letter. -/
def crowdedConfig : Config where
  storage := ⟨["w"], [(["w"], .directory)]⟩
  common := {
    types := [
      { name := "a", symbol := "x.org/nodes.A", optionsSymbol := "x.org/opts0.Options",
        options := [⟨"level", "string", none⟩] },
      { name := "b", symbol := "y.org/nodes.B" }, { name := "c", symbol := "z.org/func.C" },
      { name := "d", symbol := "z.org/2.D" }, { name := "e", symbol := "fmt.E" }] }

/-- The session of a flow with a node of each type, the first of them with a setting. -/
def crowdedSession : Session × Except CompileError FlowUnit :=
  compileText {} crowdedConfig "main.fbp" "a(a:level=1), b(b), c(c), d(d), e(e)"

/-- Five packages get names, for an accessor that takes one of them, and the code refers to all of them. -/
theorem Compiles.packages_named_crowded :
    ∃ root as, crowdedSession.1.Compiles crowdedConfig root ∧
      Names.aliases .builtin crowdedSession.1.units (.accessor "nodes1" "flows") = .ok as ∧
      as = [("x.org/nodes", "nodes2"), ("x.org/opts0", "opts01"), ("y.org/nodes", "nodes3"),
        ("z.org/func", "func1"), ("z.org/2", "pkg")] ∧
      (∀ path ∈ as.map (·.1), ∃ d ∈ crowdedSession.1.unitDecls, path ∈ d.paths) ∧
      ∀ e ∈ as, isIdentifier e.2 = true ∧ ∀ d ∈ crowdedSession.1.unitDecls, e.2 ∉ d.identifiers := by
  have hfacts : crowdedSession.2.toOption.isSome = true ∧
      (Names.aliases .builtin crowdedSession.1.units (.accessor "nodes1" "flows")).toOption =
        some [("x.org/nodes", "nodes2"), ("x.org/opts0", "opts01"), ("y.org/nodes", "nodes3"),
          ("z.org/func", "func1"), ("z.org/2", "pkg")] := by decide +kernel
  obtain ⟨hok, hnames⟩ := hfacts
  obtain ⟨root, hcompiled⟩ : ∃ root, crowdedSession.1.Compiles crowdedConfig root := exists_compiles rfl hok
  cases h : Names.aliases .builtin crowdedSession.1.units (.accessor "nodes1" "flows") with
  | error e =>
    rw [h] at hnames
    cases hnames
  | ok as =>
    rw [h] at hnames
    obtain rfl : as = _ := Option.some_inj.mp hnames
    obtain ⟨-, -, -, hused, -, hnamed⟩ := hcompiled.packages_named h
    refine ⟨root, _, hcompiled, rfl, rfl, fun path hpath => (hused path ?_).mpr ?_, fun e he => ?_⟩
    · exact (by decide : ∀ path ∈ ["x.org/nodes", "x.org/opts0", "y.org/nodes", "z.org/func", "z.org/2"],
        path ∉ Names.fixedPaths) path hpath
    · exact count_eq_one_of_mem (by decide) hpath
    · obtain ⟨-, hident, -, -, -, hcode⟩ := hnamed e he
      exact ⟨hident, fun d hd => hcode d (mem_append_left _ hd)⟩

end Session

end FlowCompiler
