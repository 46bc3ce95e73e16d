import FlowCompiler.Program.Basic
import FlowCompiler.Proofs.Compile.Units

/-!
# Names in generated code

What a declaration of a generated program declares, at the top of the file or inside a function
(`Decl.identifiers`), and which bare names it refers to, but for the values of options (`Decl.symbols`).

Main statements: all that the code of a unit declares is among the names that were counted as generated
(`FlowUnit.Compiled.identifiers_decls`), and all bare names that it refers to are among these or are symbols
of the catalog (`Session.symbols_unitDecls`).
-/

namespace FlowCompiler

open List

variable {b : Binding} {st : Stmt} {d : Decl} {cases : List (Expr × List Stmt)} {child i : Nat}
  {t : Descriptor} {ss : List Stmt}

namespace Source

variable {x : String}

/-! ## What code declares -/

mutual

/-- The names that a statement defines, with the statements inside it. -/
def Stmt.defined : Stmt → List String
  | .define names _ => names
  | .when _ body | .callWith _ body => Stmt.definedAll body
  | .choose _ cases => Stmt.definedCases cases
  | _ => []

/-- The names that statements define. -/
def Stmt.definedAll : List Stmt → List String
  | [] => []
  | s :: ss => s.defined ++ Stmt.definedAll ss

/-- The names that the cases of a choice define. -/
def Stmt.definedCases : List (Expr × List Stmt) → List String
  | [] => []
  | (_, body) :: rest => Stmt.definedAll body ++ Stmt.definedCases rest

end

theorem Stmt.mem_definedAll : x ∈ Stmt.definedAll ss ↔ ∃ s ∈ ss, x ∈ s.defined := by
  induction ss with
  | nil => simp [definedAll]
  | cons s ss ih => simp [definedAll, ih]

theorem Stmt.mem_definedCases : x ∈ Stmt.definedCases cases ↔ ∃ c ∈ cases, x ∈ Stmt.definedAll c.2 := by
  induction cases with
  | nil => simp [definedCases]
  | cons c cases ih =>
    obtain ⟨e, body⟩ := c
    simp [definedCases, ih]

/-- The names that a declaration declares, with those inside a function. -/
def Decl.identifiers : Decl → List String
  | .func _ f => f.name :: (f.params.map (·.name) ++ Stmt.definedAll f.body)
  | d => d.names

theorem Decl.mem_identifiers (h : x ∈ d.names) : x ∈ d.identifiers := by
  cases d with
  | func comment f => exact mem_singleton.mp h ▸ mem_cons_self
  | record | uninitialised | initialised | block => exact h

/-! ## What code refers to -/

mutual

/-- The bare names in an expression. Those in the fields of a literal are values and no names. -/
def Expr.symbols : Expr → List String
  | .raw s => [s]
  | .member e _ | .unary _ e | .listType e => e.symbols
  | .binary _ l r => l.symbols ++ r.symbols
  | .call f args => f.symbols ++ Expr.symbolsAll args
  | .index e i => e.symbols ++ i.symbols
  | .assert e type => e.symbols ++ type.symbols
  | .record type _ _ => type.symbols
  | _ => []

/-- The bare names in expressions. -/
def Expr.symbolsAll : List Expr → List String
  | [] => []
  | e :: es => e.symbols ++ Expr.symbolsAll es

end

mutual

/-- The bare names in a statement. -/
def Stmt.symbols : Stmt → List String
  | .define _ e | .expr e => e.symbols
  | .assign targets e => Expr.symbolsAll targets ++ e.symbols
  | .give es => Expr.symbolsAll es
  | .when c body => c.symbols ++ Stmt.symbolsAll body
  | .choose e cases => e.symbols ++ Stmt.symbolsCases cases
  | .callWith f body => f.symbols ++ Stmt.symbolsAll body

/-- The bare names in statements. -/
def Stmt.symbolsAll : List Stmt → List String
  | [] => []
  | s :: ss => s.symbols ++ Stmt.symbolsAll ss

/-- The bare names in the cases of a choice. -/
def Stmt.symbolsCases : List (Expr × List Stmt) → List String
  | [] => []
  | (e, body) :: rest => e.symbols ++ Stmt.symbolsAll body ++ Stmt.symbolsCases rest

end

theorem Stmt.mem_symbolsAll : x ∈ Stmt.symbolsAll ss ↔ ∃ s ∈ ss, x ∈ s.symbols := by
  induction ss with
  | nil => simp [symbolsAll]
  | cons s ss ih => simp [symbolsAll, ih]

theorem Stmt.mem_symbolsCases :
    x ∈ Stmt.symbolsCases cases ↔ ∃ c ∈ cases, x ∈ c.1.symbols ∨ x ∈ Stmt.symbolsAll c.2 := by
  induction cases with
  | nil => simp [symbolsCases]
  | cons c cases ih =>
    obtain ⟨e, body⟩ := c
    simp [symbolsCases, ih, or_assoc]

/-- The bare names in a declaration. -/
def Decl.symbols : Decl → List String
  | .record _ _ fields => fields.flatMap (·.type.symbols)
  | .uninitialised _ t => t.symbols
  | .initialised _ v => v.symbols
  | .block vs => vs.flatMap (·.type.symbols)
  | .func _ f => f.params.flatMap (·.type.symbols) ++ Expr.symbolsAll f.results ++ Stmt.symbolsAll f.body

end Source

open Source

theorem Names.symbols_symbolExpr {symbol x : String} (h : x ∈ (Names.symbolExpr symbol).symbols) :
    x = symbol ∧ Names.splitSymbol? symbol = none := by
  unfold Names.symbolExpr at h
  split at h
  · cases h
  · next hsplit => exact ⟨mem_singleton.mp h, hsplit⟩

/-! ## Units -/

namespace FlowUnit

variable {cfg : Config} {units all : List FlowUnit} {u : FlowUnit} {x : String}

theorem length_encodeFrom (u : FlowUnit) (i : Nat) (bs : List Binding) :
    (u.encodeFrom i bs).options.length = bs.length := by
  induction bs generalizing i with
  | nil => rfl
  | cons b bs ih =>
    unfold encodeFrom
    split
    · exact congrArg (· + 1) (ih (i + 1))
    · split
      · exact length_replicate
      · exact congrArg (· + 1) (ih (i + 1))

theorem Compiled.length_options (h : u.Compiled cfg units) : u.options.length = u.bindings.length := by
  rw [h.options]
  exact u.length_encodeFrom 0 u.bindings

theorem descriptor_optionsSymbol (u : FlowUnit) : u.descriptor.optionsSymbol = u.optionsSymbol := by
  unfold descriptor optionsSymbol
  cases u.type <;> rfl

theorem mem_optionsDecls (h : d ∈ u.optionsDecls) :
    u.optionsSymbol ≠ "" ∧
      ((∃ comment, d = .record comment u.optionsSymbol (u.descriptor.options.map fun o =>
          ⟨Naming.optionField u.descriptor o.name, DataType.fieldType o.dataType⟩)) ∨
        d = .initialised u.defaultsName (u.descriptor.optionsLiteral u.descriptor.defaults)) := by
  unfold optionsDecls at h
  simp only [descriptor_optionsSymbol] at h
  split at h
  · cases h
  · next hne =>
    refine ⟨hne, ?_⟩
    rcases mem_cons.mp h with rfl | h
    · exact .inl ⟨_, rfl⟩
    · exact .inr (mem_singleton.mp h)

/-- What the code of a unit declares at the top of the file. -/
theorem names_decls (hd : d ∈ u.decls all) (hx : x ∈ d.names) :
    x ∈ [u.funcName, u.defaultsName, u.childOptionsName] ∨ (x = u.optionsSymbol ∧ x ≠ "") := by
  simp only [decls, mem_append, mem_singleton] at hd
  rcases hd with (hd | hd) | rfl
  · obtain ⟨hne, ⟨comment, rfl⟩ | rfl⟩ := mem_optionsDecls hd
    · obtain rfl := mem_singleton.mp hx
      exact .inr ⟨rfl, hne⟩
    · obtain rfl := mem_singleton.mp hx
      exact .inl (by simp)
  · unfold childOptionsDecls at hd
    split at hd
    · cases hd
    · obtain rfl := mem_singleton.mp hd
      obtain rfl := mem_singleton.mp hx
      exact .inl (by simp)
  · obtain rfl := mem_singleton.mp hx
    exact .inl (by simp)

theorem mem_listVariable {α : Type} {name element : String} {row : α → List (String × Expr)} {rows : List α}
    (h : st ∈ listVariable name element row rows) : ∃ es, st = .define [name] (.lines (flow element) es) := by
  unfold listVariable at h
  split at h
  · cases h
  · exact ⟨_, mem_singleton.mp h⟩

theorem mem_optionVariables (h : st ∈ u.optionVariables) :
    ∃ i values, u.options[i]? = some (some values) ∧
      st = .define [Names.optionsVariable i] ((Graph.typeAt u.types i).optionsLiteral values) := by
  obtain ⟨⟨values?, i⟩, hmem, hst⟩ := mem_filterMap.mp h
  have hat := mem_zipIdx_iff_getElem?.mp hmem
  cases values? with
  | none => cases hst
  | some values =>
    simp only at hst
    split at hst
    · cases hst
    · cases hst
      exact ⟨i, values, hat, rfl⟩

theorem mem_declaredTypes {f : String} (h : (t, f) ∈ u.declaredTypes all) :
    ∃ b ∈ u.bindings, b.role ≠ .external ∧ b.type = t := by
  obtain ⟨d, -, hd⟩ := mem_filterMap.mp h
  split at hd
  · next t' hfind =>
    cases hd
    obtain ⟨b, hb, rfl⟩ := mem_map.mp (mem_of_find?_eq_some hfind)
    obtain ⟨hb, hrole⟩ := mem_filter.mp hb
    exact ⟨b, hb, by simpa using hrole, rfl⟩
  · cases hd

theorem typeAt_types (h : u.bindings[i]? = some b) : Graph.typeAt u.types i = b.type := by
  simp [Graph.typeAt, types, h]

/-- A node with values has a variable for its options. -/
theorem optionVariable_mem_createBody {values : List ResolvedOption} (hb : u.bindings[i]? = some b)
    (hvalues : u.valuesAt i = some values) (hne : b.type.optionsSymbol ≠ "") :
    .define [Names.optionsVariable i] (b.type.optionsLiteral values) ∈ u.createBody all := by
  have hat : u.options[i]? = some (some values) := Option.join_eq_some_iff.mp hvalues
  have hvariable : .define [Names.optionsVariable i] (b.type.optionsLiteral values) ∈ u.optionVariables := by
    refine mem_filterMap.mpr ⟨(some values, i), mem_zipIdx_iff_getElem?.mpr hat, ?_⟩
    dsimp only
    rw [typeAt_types hb, if_neg hne]
  simp only [createBody, mem_append]
  exact .inl (.inl (.inl (.inl (.inl (.inl (.inl hvariable))))))

/-- The statements that build the type of a unit: variables for the options of nodes, for rows and nodes and
for declared types, the types of the nodes, and the result. -/
inductive Builds (u : FlowUnit) : Stmt → Prop where
  | options {i : Nat} {b : Binding} {values : List ResolvedOption} (node : u.bindings[i]? = some b)
      (encoded : u.options[i]? = some (some values)) :
      Builds u (.define [Names.optionsVariable i] (b.type.optionsLiteral values))
  | list {name element : String} {es : List Expr} (inBodies : name ∈ Names.inBodies) :
      Builds u (.define [name] (.lines (flow element) es))
  | declared {b : Binding} {f : String} (node : b ∈ u.bindings) (role : b.role ≠ .external) :
      Builds u (.define [b.type.symbol, "err"] (.call (.name f) []))
  | check : Builds u failOnError
  | type {i : Nat} {b : Binding} (node : u.bindings[i]? = some b) :
      Builds u (.assign [.member (.index (.name "nodes") (.int i)) "Type"] (Names.symbolExpr b.type.symbol))
  | give {fields : List (String × Expr)} :
      Builds u (.give [.call (flow "NewStaticType")
        [.string u.name, .unary "&" (.withLines (flow "StaticSpec") fields)]])

theorem builds_createBody (hlength : u.options.length = u.bindings.length) (h : st ∈ u.createBody all) :
    u.Builds st := by
  simp only [createBody, mem_append, mem_singleton, or_assoc] at h
  rcases h with h | h | h | h | h | rfl | h | rfl
  · obtain ⟨i, values, hat, rfl⟩ := mem_optionVariables h
    have hlt : i < u.bindings.length := hlength ▸ (List.getElem?_eq_some_iff.mp hat).1
    have hb := getElem?_eq_getElem hlt
    rw [typeAt_types hb]
    exact .options hb hat
  · obtain ⟨es, rfl⟩ := mem_listVariable h
    exact .list (by decide)
  · obtain ⟨es, rfl⟩ := mem_listVariable h
    exact .list (by decide)
  · obtain ⟨es, rfl⟩ := mem_listVariable h
    exact .list (by decide)
  · obtain ⟨⟨t, f⟩, hmem, hst⟩ := mem_flatMap.mp h
    obtain ⟨b, hb, hrole, rfl⟩ := mem_declaredTypes hmem
    rcases mem_cons.mp hst with rfl | hst
    · exact .declared hb hrole
    · rw [mem_singleton.mp hst]
      exact .check
  · exact .list (by decide)
  · obtain ⟨⟨b, i⟩, hmem, rfl⟩ := mem_map.mp h
    exact .type (mem_zipIdx_iff_getElem?.mp hmem)
  · exact .give

/-- What is defined while the type of a unit is built. -/
theorem Builds.defined (h : u.Builds st) (hx : x ∈ st.defined) :
    x ∈ Names.inBodies ∨ x ∈ (List.range u.bindings.length).map Names.optionsVariable ∨
      x ∈ (u.bindings.filter (·.role != .external)).map (·.type.symbol) := by
  cases h with
  | options node =>
    obtain rfl := mem_singleton.mp hx
    have hlt := (List.getElem?_eq_some_iff.mp node).1
    exact .inr (.inl (mem_map_of_mem (mem_range.mpr hlt)))
  | list inBodies =>
    obtain rfl := mem_singleton.mp hx
    exact .inl inBodies
  | declared node role =>
    rcases mem_cons.mp hx with rfl | hx
    · exact .inr (.inr (mem_map_of_mem (mem_filter.mpr ⟨node, by simpa using role⟩)))
    · exact .inl (mem_singleton.mp hx ▸ by decide)
  | check | type | give => cases hx

theorem defined_forwardTo (h : st ∈ u.forwardTo child) (hx : x ∈ st.defined) : x = "o" := by
  simp only [forwardTo, mem_append, mem_singleton, mem_map] at h
  rcases h with (rfl | ⟨r, -, rfl⟩) | rfl
  · exact mem_singleton.mp hx
  · cases hx
  · cases hx

theorem identifiers_childOptionsDecls (hd : d ∈ u.childOptionsDecls) (hx : x ∈ d.identifiers) :
    x = u.childOptionsName ∨ x ∈ Names.inBodies := by
  unfold childOptionsDecls at hd
  split at hd
  · cases hd
  · obtain rfl := mem_singleton.mp hd
    simp only [Decl.identifiers, Stmt.definedAll, Stmt.defined, map_cons, map_nil, mem_append,
      mem_cons, not_mem_nil, or_false] at hx
    rcases hx with rfl | (rfl | rfl | rfl) | rfl | (rfl | rfl) | hx
    · exact .inl rfl
    iterate 6 exact .inr (by decide)
    · obtain ⟨c, hc, hx⟩ := Stmt.mem_definedCases.mp hx
      obtain ⟨child, -, rfl⟩ := mem_map.mp hc
      obtain ⟨st, hst, hx⟩ := Stmt.mem_definedAll.mp hx
      rw [defined_forwardTo hst hx]
      exact .inr (by decide)

/-- All that the code of a unit declares was counted as generated. -/
theorem Compiled.identifiers_decls (h : u.Compiled cfg units) (registry : Registry) (hd : d ∈ u.decls all)
    (hx : x ∈ d.identifiers) : x ∈ u.generatedNames registry ∨ x ∈ Names.inBodies := by
  have hnames : ∀ x ∈ d.names, x ∈ u.generatedNames registry := by
    intro x hx
    simp only [generatedNames, mem_append, or_assoc]
    rcases names_decls hd hx with hx | ⟨rfl, hne⟩
    · exact .inl hx
    · exact .inr (.inl (by simp [hne]))
  have hparts := hd
  simp only [decls, mem_append, mem_singleton] at hparts
  rcases hparts with (hpart | hpart) | rfl
  · left
    refine hnames x ?_
    obtain ⟨-, ⟨comment, rfl⟩ | rfl⟩ := mem_optionsDecls hpart <;> exact hx
  · rcases identifiers_childOptionsDecls hpart hx with rfl | hx
    · exact .inl (by simp [generatedNames])
    · exact .inr hx
  · rcases mem_cons.mp hx with rfl | hx
    · exact .inl (hnames _ (mem_singleton_self _))
    · obtain ⟨st, hst, hx⟩ := Stmt.mem_definedAll.mp hx
      rcases (builds_createBody h.length_options hst).defined hx with hx | hx | hx
      · exact .inr hx
      · left
        simp only [generatedNames, mem_append]
        exact .inl (.inl (.inr hx))
      · left
        simp only [generatedNames, mem_append]
        exact .inl (.inr hx)

/-! ### Bare names -/

theorem symbols_fieldType (dataType : String) : (DataType.fieldType dataType).symbols = [] := by
  unfold DataType.fieldType
  dsimp only
  split_ifs <;> rfl

/-- Whether a symbol is that of the type of a node, or of the type of its options if the node has values. -/
def HasSymbol (u : FlowUnit) (symbol : String) : Prop :=
  ∃ i b, u.bindings[i]? = some b ∧
    (symbol = b.type.symbol ∨ (symbol = b.type.optionsSymbol ∧ (u.valuesAt i).isSome = true))

/-- The bare names with which a unit refers to the type of a node, or to the type of its options. -/
def Refers (u : FlowUnit) (x : String) : Prop := Names.splitSymbol? x = none ∧ u.HasSymbol x

theorem Builds.refers (h : u.Builds st) (hx : x ∈ st.symbols) : u.Refers x := by
  cases h with
  | @options i b values node encoded =>
    obtain ⟨rfl, hsplit⟩ := Names.symbols_symbolExpr hx
    refine ⟨hsplit, i, b, node, .inr ⟨rfl, ?_⟩⟩
    rw [valuesAt, encoded]
    rfl
  | @type i b node =>
    obtain ⟨rfl, hsplit⟩ := Names.symbols_symbolExpr hx
    exact ⟨hsplit, i, b, node, .inl rfl⟩
  | list | declared | check | give => cases hx

/-- A node has the values that were encoded for it, or none if it has neither settings nor exported
options. -/
theorem encodeFrom_cases {bs : List Binding} (h : (u.encodeFrom i bs).fault = none) {k : Nat}
    (hb : bs[k]? = some b) :
    (b.settings = [] ∧ u.hasForwarding (i + k) = false ∧ (u.encodeFrom i bs).options[k]? = some none) ∨
      ∃ values, (b.type.encode u.path b.settings).2 = .ok values ∧
        (u.encodeFrom i bs).options[k]? = some (some values) := by
  induction bs generalizing i k with
  | nil => cases hb
  | cons b' bs ih =>
    unfold encodeFrom at h ⊢
    split at h
    · next hskip =>
      rw [if_pos hskip]
      cases k with
      | zero =>
        cases hb
        have hskip : b.settings = [] ∧ u.hasForwarding i = false := by simpa using hskip
        exact .inl ⟨hskip.1, hskip.2, rfl⟩
      | succ k =>
        rw [← Nat.add_assoc, Nat.add_right_comm]
        exact ih h hb
    · next hskip =>
      rw [if_neg hskip]
      split at h
      · cases h
      · next warnings values henc =>
        cases k with
        | zero =>
          cases hb
          exact .inr ⟨values, by rw [henc], rfl⟩
        | succ k =>
          rw [← Nat.add_assoc, Nat.add_right_comm]
          exact ih h hb

/-- A node with exported options has values. -/
theorem Compiled.forwarded_values (h : u.Compiled cfg units) {node : Nat} (hb : u.bindings[node]? = some b)
    (hforward : u.hasForwarding node = true) :
    ∃ values, (b.type.encode u.path b.settings).2 = .ok values ∧ u.valuesAt node = some values := by
  rw [valuesAt, h.options]
  rcases encodeFrom_cases h.encoded hb with ⟨-, hnone, -⟩ | ⟨values, henc, hat⟩
  · rw [Nat.zero_add, hforward] at hnone
    cases hnone
  · refine ⟨values, henc, ?_⟩
    rw [encode, hat]
    rfl

theorem hasSymbol_of_mem_forwardedChildren (h : u.Compiled cfg units) (hchild : child ∈ u.forwardedChildren) :
    u.HasSymbol (Graph.typeAt u.types child).optionsSymbol := by
  obtain ⟨hrange, hforward⟩ := mem_filter.mp hchild
  have hlt := mem_range.mp hrange
  have hb := getElem?_eq_getElem hlt
  obtain ⟨values, -, hvalues⟩ := h.forwarded_values hb hforward
  exact ⟨child, _, hb, .inr ⟨by rw [typeAt_types hb], by rw [hvalues]; rfl⟩⟩

theorem refers_forwardTo (h : u.Compiled cfg units) (hchild : child ∈ u.forwardedChildren)
    (hst : st ∈ u.forwardTo child) (hx : x ∈ st.symbols) : u.Refers x := by
  simp only [forwardTo, mem_append, mem_singleton, mem_map] at hst
  rcases hst with (rfl | ⟨r, -, rfl⟩) | rfl
  · obtain ⟨rfl, hsplit⟩ := Names.symbols_symbolExpr hx
    exact ⟨hsplit, hasSymbol_of_mem_forwardedChildren h hchild⟩
  · cases hx
  · cases hx

/-- The code of a unit refers to the type of its own options, and to types of nodes. -/
theorem Compiled.refers_decls (h : u.Compiled cfg units) (hd : d ∈ u.decls all) (hx : x ∈ d.symbols) :
    (x = u.optionsSymbol ∧ x ≠ "") ∨ u.Refers x := by
  simp only [decls, mem_append, mem_singleton] at hd
  rcases hd with (hd | hd) | rfl
  · obtain ⟨hne, ⟨comment, rfl⟩ | rfl⟩ := mem_optionsDecls hd
    · obtain ⟨field, hfield, hx⟩ := mem_flatMap.mp hx
      obtain ⟨o, -, rfl⟩ := mem_map.mp hfield
      rw [symbols_fieldType] at hx
      cases hx
    · obtain ⟨rfl, -⟩ := Names.symbols_symbolExpr hx
      rw [descriptor_optionsSymbol]
      exact .inl ⟨rfl, hne⟩
  · unfold childOptionsDecls at hd
    split at hd
    · cases hd
    · obtain rfl := mem_singleton.mp hd
      have hcases : x ∈ Stmt.symbolsCases
          (u.forwardedChildren.map fun (c : Nat) => (.int c, u.forwardTo c)) := by
        simpa [Decl.symbols, Stmt.symbolsAll, Stmt.symbols, Expr.symbols, Expr.symbolsAll, flow, errorType,
          Expr.null, Expr.string] using hx
      obtain ⟨c, hc, hx⟩ := Stmt.mem_symbolsCases.mp hcases
      obtain ⟨child, hchild, rfl⟩ := mem_map.mp hc
      obtain ⟨st, hst, hx⟩ := Stmt.mem_symbolsAll.mp (hx.resolve_left nofun)
      exact .inr (refers_forwardTo h hchild hst hx)
  · have hbody : x ∈ Stmt.symbolsAll (u.createBody all) := hx
    obtain ⟨st, hst, hx⟩ := Stmt.mem_symbolsAll.mp hbody
    exact .inr ((builds_createBody h.length_options hst).refers hx)

end FlowUnit

/-! ## Sessions -/

theorem FlowUnit.symbol_mem_catalogSymbols {u : FlowUnit} (hb : b ∈ u.bindings) (hrole : b.role = .external) :
    b.type.symbol ∈ u.catalogSymbols := by
  obtain ⟨i, hi⟩ := getElem?_of_mem hb
  refine mem_flatMap.mpr ⟨(b, i), mem_zipIdx_iff_getElem?.mpr hi, ?_⟩
  dsimp only
  rw [if_neg (by simp [hrole])]
  split <;> exact mem_cons_self

theorem FlowUnit.optionsSymbol_mem_catalogSymbols {u : FlowUnit} (hb : u.bindings[i]? = some b)
    (hrole : b.role = .external) (hvalues : (u.valuesAt i).isSome = true) (hne : b.type.optionsSymbol ≠ "") :
    b.type.optionsSymbol ∈ u.catalogSymbols := by
  refine mem_flatMap.mpr ⟨(b, i), mem_zipIdx_iff_getElem?.mpr hb, ?_⟩
  simp [hrole, hvalues, hne]

/-- A symbol of a node is one of the catalog, or the variable of a declared type, or belongs to the options of a
unit. -/
theorem FlowUnit.HasSymbol.origin {cfg : Config} {units : List FlowUnit} {u : FlowUnit} {x : String}
    (h : u.HasSymbol x) (hc : u.Compiled cfg units) (hne : x ≠ "") :
    x ∈ u.catalogSymbols ∨ (∃ b ∈ u.bindings, b.role ≠ .external ∧ x = b.type.symbol) ∨
      ∃ child ∈ units, x = child.optionsSymbol := by
  obtain ⟨i, b, hi, hcase⟩ := h
  have hb := mem_of_getElem? hi
  by_cases hrole : b.role = .external
  · rcases hcase with rfl | ⟨rfl, hvalues⟩
    · exact .inl (symbol_mem_catalogSymbols hb hrole)
    · exact .inl (optionsSymbol_mem_catalogSymbols hi hrole hvalues hne)
  · rcases hcase with rfl | ⟨rfl, -⟩
    · exact .inr (.inl ⟨b, hb, hrole, rfl⟩)
    · rcases hc.declares.optionsSymbols _ (hc.mem_locals hb hrole) with hempty | ⟨child, hchild, htype⟩
      · exact absurd hempty hne
      · refine .inr (.inr ⟨child, hchild, ?_⟩)
        rw [FlowUnit.optionsSymbol, htype]
        rfl

namespace Session

variable {cfg : Config} {s : Session} {u : FlowUnit} {x : String}

/-- The symbols of the catalog that name no package and that the units of a session refer to. -/
def bareSymbols (s : Session) : List String :=
  (s.units.flatMap (·.catalogSymbols)).filter fun x => (Names.splitSymbol? x).isNone

/-- The code that is made from units. -/
def unitDecls (s : Session) : List Decl :=
  s.units.reverse.flatMap (·.decls s.units) ++ [initializeDecl s.externalTypes]

theorem mem_bareSymbols (hu : u ∈ s.units) (hx : x ∈ u.catalogSymbols)
    (hsplit : Names.splitSymbol? x = none) : x ∈ s.bareSymbols :=
  mem_filter.mpr ⟨mem_flatMap.mpr ⟨u, hu, hx⟩, by rw [hsplit]; rfl⟩

/-- What is collected, each thing once, was there. -/
theorem mem_of_mem_foldl {α β : Type} {skip : List β → α → Bool} {f : α → β} {y : β} {xs : List α}
    {kept : List β} (h : y ∈ xs.foldl (fun kept x => if skip kept x then kept else f x :: kept) kept) :
    y ∈ kept ∨ ∃ x ∈ xs, f x = y := by
  induction xs generalizing kept with
  | nil => exact .inl h
  | cons x xs ih =>
    rcases ih h with hkept | ⟨x', hx', rfl⟩
    · dsimp only at hkept
      split at hkept
      · exact .inl hkept
      · rcases mem_cons.mp hkept with rfl | hkept
        · exact .inr ⟨x, mem_cons_self, rfl⟩
        · exact .inl hkept
    · exact .inr ⟨x', mem_cons_of_mem x hx', rfl⟩

theorem mem_externalTypes (h : t ∈ s.externalTypes) :
    ∃ u ∈ s.units, ∃ b ∈ u.bindings, b.role = .external ∧ b.type = t := by
  obtain ⟨b, hb, rfl⟩ := (mem_of_mem_foldl (mem_reverse.mp h)).resolve_left not_mem_nil
  obtain ⟨hmem, hrole⟩ := mem_filter.mp hb
  obtain ⟨u, hu, hb⟩ := mem_flatMap.mp hmem
  exact ⟨u, hu, b, hb, by simpa using hrole, rfl⟩

/-- A bare name that a unit refers to is a symbol of the catalog, or a name of a unit. -/
theorem refers_cases (registry : Registry) (hu : u ∈ s.units) (hc : u.Compiled cfg s.units)
    (hx : u.Refers x) (hne : x ≠ "") :
    x ∈ s.bareSymbols ∨ ∃ v ∈ s.units, x ∈ v.generatedNames registry := by
  rcases hx.2.origin hc hne with hmem | ⟨b, hb, hrole, rfl⟩ | ⟨child, hchild, rfl⟩
  · exact .inl (mem_bareSymbols hu hmem hx.1)
  · refine .inr ⟨u, hu, ?_⟩
    have hmem : b.type.symbol ∈ (u.bindings.filter (·.role != .external)).map (·.type.symbol) :=
      mem_map_of_mem (mem_filter.mpr ⟨hb, by simpa using hrole⟩)
    simp only [FlowUnit.generatedNames, mem_append]
    exact .inl (.inr hmem)
  · exact .inr ⟨child, hchild, by simp [FlowUnit.generatedNames, hne]⟩

/-- All bare names in the code of units are symbols of the catalog or names of units. -/
theorem symbols_unitDecls (registry : Registry) (hdone : Done cfg 0 s.units) (hd : d ∈ s.unitDecls)
    (hx : x ∈ d.symbols) (hne : x ≠ "") :
    x ∈ s.bareSymbols ∨ ∃ v ∈ s.units, x ∈ v.generatedNames registry := by
  rcases mem_append.mp hd with hd | hd
  · obtain ⟨u, hu, hd⟩ := mem_flatMap.mp hd
    have hu := mem_reverse.mp hu
    have hc := hdone.compiled hu
    rcases hc.refers_decls hd hx with ⟨rfl, -⟩ | hx
    · exact .inr ⟨u, hu, by simp [FlowUnit.generatedNames, hne]⟩
    · exact refers_cases registry hu hc hx hne
  · obtain rfl := mem_singleton.mp hd
    have hbody : x ∈ Stmt.symbolsAll (s.externalTypes.map fun t =>
        .expr (.call (.member (Names.symbolExpr t.symbol) "Init") [])) := hx
    obtain ⟨st, hst, hx⟩ := Stmt.mem_symbolsAll.mp hbody
    obtain ⟨t, ht, rfl⟩ := mem_map.mp hst
    simp only [Stmt.symbols, Expr.symbols, Expr.symbolsAll, append_nil] at hx
    obtain ⟨rfl, hsplit⟩ := Names.symbols_symbolExpr hx
    obtain ⟨u, hu, b, hb, hrole, rfl⟩ := mem_externalTypes ht
    exact .inl (mem_bareSymbols hu (FlowUnit.symbol_mem_catalogSymbols hb hrole) hsplit)

end Session

end FlowCompiler
