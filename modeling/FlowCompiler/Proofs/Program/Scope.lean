import FlowCompiler.Proofs.Program.Aliases
import FlowCompiler.Proofs.Program.Code
import FlowCompiler.Proofs.Program.Metatypes

/-!
# The scope of a generated file

A generated file imports packages under names, declares names, and refers to symbols of the catalog, some of
them bare. These meet in one scope. Packages of catalog symbols have names that the file does not declare,
and a bare symbol that the file declares is refused. Two pairs are never compared: the names of packages
that are not chosen with the symbol of an accessor, and names of packages with bare symbols.

Main statement: `Session.Compiles.program_scope`. These two are the only ways for names to meet.
-/

namespace FlowCompiler

open List Source

namespace Source.SourceFile

/-- The names under which a file imports packages. -/
def importNames (f : SourceFile) : List String := f.used.map (·.name)

/-- The names that a file declares outside functions. -/
def declared (f : SourceFile) : List String := f.decls.flatMap Decl.names

/-- Whether names of packages, declared names and some symbols are apart in a file. -/
def Apart (f : SourceFile) (symbols : List String) : Prop :=
  (∀ x ∈ f.importNames, x ∉ f.declared) ∧ ∀ x ∈ symbols, x ∉ f.importNames ∧ x ∉ f.declared

end Source.SourceFile

/-! ## Names of packages that are not chosen -/

/-- The names of the packages that programs use on their own account, and of the package of foreign
functions. -/
def Names.packages : List String := "C" :: fixedImports.map (·.name)

/-- Names of packages end otherwise than declared names do. -/
theorem Names.append_notMem_packages (first : String) {last : String}
    (h : last.toList.getLast? ∈ ['e', 's', 'r', 'n', 'p'].map some) : first ++ last ∉ packages := by
  obtain ⟨c, -, hc⟩ := mem_map.mp h
  have hlast : (first ++ last).toList.getLast? = last.toList.getLast? := by
    rw [String.toList_append, getLast?_append, ← hc]
    rfl
  intro hmem
  rw [← hlast] at h
  exact (by decide : ∀ x ∈ packages, x.toList.getLast? ∉ ['e', 's', 'r', 'n', 'p'].map some) _ hmem h

/-! ## Metatypes -/

/-- A metatype that declares, beside the functions that it is asked for, what it says it declares, and that
says no name of a package. -/
structure Metatype.Truthful (m : Metatype) : Prop where
  names : ∀ call decls, m.answer call = .ok decls → ∀ x ∈ decls.flatMap Decl.names,
    x ∈ m.declares ∨ ∃ use, call = .define use ∧ x = use.funcName
  packages : ∀ x ∈ m.declares, x ∉ Names.packages

/-- A registry of such metatypes. -/
def Registry.Truthful (registry : Registry) : Prop :=
  ∀ kind m, registry.find? kind = some m → m.Truthful

theorem Composed.metatype_truthful (splitter : Bool) : (metatype splitter).Truthful where
  names call decls h x hx := by
    cases call with
    | start =>
      cases h
      exact .inl hx
    | define use =>
      have hdefine : constructor splitter use = .ok decls := h
      unfold constructor at hdefine
      split at hdefine
      · cases hdefine
      · cases hdefine
        exact .inr ⟨use, rfl, mem_singleton.mp hx⟩
    | finish =>
      cases h
      cases hx
  packages := by cases splitter <;> decide

theorem Registry.builtin_truthful : builtin.Truthful := by
  intro kind m h
  obtain ⟨before, after, hentries, -⟩ := lookup_eq_some_iff.mp h
  have hmem : (kind, m) ∈ builtin.entries := by
    rw [hentries]
    simp
  simp only [builtin, mem_cons, Prod.mk.injEq, not_mem_nil, or_false] at hmem
  rcases hmem with ⟨-, rfl⟩ | ⟨-, rfl⟩
  · exact Composed.metatype_truthful false
  · exact Composed.metatype_truthful true

namespace Session

variable {cfg : Config} {registry : Registry} {s s' : Session} {form : ProgramForm} {file : SourceFile}
  {x : String}

/-- The code of metatypes declares what they say and the functions of declared types. -/
theorem code_names (hregistry : registry.Truthful) {decls : List Decl}
    (h : registry.code (s.kinds.flatMap s.requestsOf) = .ok decls) (hx : x ∈ decls.flatMap Decl.names) :
    ∃ d ∈ s.declared, (∃ m, registry.find? d.kind = some m ∧ x ∈ m.declares) ∨ x = d.funcName := by
  obtain ⟨decl, hdecl, hx⟩ := mem_flatMap.mp hx
  obtain ⟨r, hr, part, hpart, hdecl⟩ := Registry.mem_code h hdecl
  obtain ⟨kind, hkind, hr⟩ := mem_flatMap.mp hr
  obtain ⟨call, hcall, rfl⟩ := mem_map.mp hr
  obtain ⟨m, hm, hanswer⟩ := Registry.answer_eq_ok hpart
  rcases (hregistry kind m hm).names call part hanswer x (mem_flatMap.mpr ⟨decl, hdecl, hx⟩) with
    hx | ⟨use, rfl, rfl⟩
  · obtain ⟨d, hd, rfl⟩ := mem_kinds.mp hkind
    exact ⟨d, hd, .inl ⟨m, hm, hx⟩⟩
  · have huse : use ∈ s.usesOf kind := by simpa [metatypeCalls] using hcall
    obtain ⟨d, hd, rfl⟩ := mem_map.mp huse
    exact ⟨d, mem_of_mem_filter hd, .inr rfl⟩

/-- A program is made of what the steps before it gave. -/
theorem program_ok (h : s.program registry form = (s', .ok file)) :
    ∃ root package aliases decls, Names.aliases registry s.units form = .ok aliases ∧
      registry.code (s.kinds.flatMap s.requestsOf) = .ok decls ∧
      file = s.programFile root form package aliases decls := by
  have hfile : (s.program registry form).2 = .ok file := by rw [h]
  cases hunits : s.units with
  | nil =>
    simp only [program, hunits] at hfile
    cases hfile
  | cons root more =>
    rw [program_eq hunits, hunits] at hfile
    obtain ⟨package, -, hfile⟩ := bind_eq_ok.mp hfile
    obtain ⟨aliases, haliases, hfile⟩ := bind_eq_ok.mp hfile
    rw [map_eq_pure_bind] at hfile
    obtain ⟨decls, hcode, hfile⟩ := bind_eq_ok.mp hfile
    exact ⟨root, package, aliases, decls, haliases, hcode, (Except.ok.inj hfile).symm⟩

/-- Where the names that a file declares come from. -/
inductive Declaring (s : Session) (registry : Registry) (form : ProgramForm) (x : String) : Prop where
  | metatype {d : DeclaredType} {m : Metatype} (declared : d ∈ s.declared)
      (found : registry.find? d.kind = some m) (name : x ∈ m.declares)
  | constructor {d : DeclaredType} (declared : d ∈ s.declared) (name : x = d.funcName)
  | unit {u : FlowUnit} {d : Decl} (stored : u ∈ s.units) (code : d ∈ u.decls s.units) (name : x ∈ d.names)
  | entry (name : x ∈ NameFamily.entryNames)
  | accessor {symbol package : String} (form : form = .accessor symbol package)
      (name : x ∈ Names.ofAccessor symbol)

theorem declaring_of_program (hregistry : registry.Truthful)
    (h : s.program registry form = (s', .ok file)) (hx : x ∈ file.declared) :
    Declaring s registry form x := by
  obtain ⟨root, package, aliases, decls, -, hcode, rfl⟩ := program_ok h
  simp only [SourceFile.declared, programFile, flatMap_append, mem_append, or_assoc] at hx
  rcases hx with hx | hx | hx | hx
  · obtain ⟨d, hd, ⟨m, hm, hx⟩ | rfl⟩ := code_names hregistry hcode hx
    · exact .metatype hd hm hx
    · exact .constructor hd rfl
  · obtain ⟨d, hd, hx⟩ := mem_flatMap.mp hx
    obtain ⟨u, hu, hd⟩ := mem_flatMap.mp hd
    exact .unit (mem_reverse.mp hu) hd hx
  · obtain ⟨d, hd, hx⟩ := mem_flatMap.mp hx
    obtain rfl := mem_singleton.mp hd
    obtain rfl := mem_singleton.mp hx
    exact .entry mem_cons_self
  · cases form with
    | standalone =>
      have hentry : x ∈ ["rootNode", "startup", "shutdown", "main"] := hx
      exact .entry (mem_cons_of_mem _ hentry)
    | accessor symbol package =>
      refine .accessor rfl ?_
      simp only [ProgramForm.entryDecls, accessorDecls, flatMap_cons, flatMap_nil, Decl.names,
        map_cons, map_nil, mem_append, mem_cons, not_mem_nil, or_false] at hx
      simp only [Names.ofAccessor, mem_cons, not_mem_nil, or_false]
      tauto

/-! ## Declared names -/

theorem generatedNames_subset {u : FlowUnit} (hu : u ∈ s.units) :
    u.generatedNames registry ⊆ Names.generated registry s.units form := by
  intro x hx
  cases form <;> exact mem_append_right _ (mem_flatMap.mpr ⟨u, hu, hx⟩)

theorem fixed_subset : Names.fixed ⊆ Names.generated registry s.units form := by
  intro x hx
  cases form with
  | standalone => exact mem_append_left _ hx
  | accessor => exact mem_append_left _ (mem_append_left _ hx)

theorem declared_subset {d : DeclaredType} (hd : d ∈ s.declared) :
    d.funcName :: ((registry.find? d.kind).map (·.declares)).getD [] ⊆
      Names.generated registry s.units form := by
  obtain ⟨u, hu, hd⟩ := mem_flatMap.mp hd
  exact fun x hx => generatedNames_subset hu (mem_append_right _ (mem_flatMap.mpr ⟨d, hd, hx⟩))

/-- All identifiers in the code of units were counted as generated. -/
theorem identifiers_subset (hdone : Done cfg 0 s.units) {u : FlowUnit} (hu : u ∈ s.units) {d : Decl}
    (hd : d ∈ u.decls s.units) : d.identifiers ⊆ Names.generated registry s.units form := by
  intro x hx
  rcases (hdone.compiled hu).identifiers_decls registry hd hx with hx | hx
  · exact generatedNames_subset hu hx
  · exact fixed_subset (mem_cons_of_mem _ (mem_append_left _ hx))

theorem identifiers_unitDecls (hdone : Done cfg 0 s.units) {d : Decl} (hd : d ∈ s.unitDecls) :
    d.identifiers ⊆ Names.generated registry s.units form := by
  rcases mem_append.mp hd with hd | hd
  · obtain ⟨u, hu, hd⟩ := mem_flatMap.mp hd
    exact identifiers_subset hdone (mem_reverse.mp hu) hd
  · obtain rfl := mem_singleton.mp hd
    intro x hx
    rcases mem_cons.mp hx with rfl | hx
    · exact fixed_subset ((by decide : NameFamily.entryNames ⊆ Names.fixed) mem_cons_self)
    · obtain ⟨st, hst, hx⟩ := Stmt.mem_definedAll.mp hx
      obtain ⟨t, -, rfl⟩ := mem_map.mp hst
      cases hx

theorem Declaring.generated (hdone : Done cfg 0 s.units) (h : Declaring s registry form x) :
    x ∈ Names.generated registry s.units form := by
  cases h with
  | metatype declared found name =>
    refine declared_subset declared (mem_cons_of_mem _ ?_)
    rw [found]
    exact name
  | constructor declared name => exact declared_subset declared (name ▸ mem_cons_self)
  | unit stored code name => exact identifiers_subset hdone stored code (Decl.mem_identifiers name)
  | entry name =>
    exact fixed_subset ((by decide : NameFamily.entryNames ⊆ Names.fixed) name)
  | accessor form name =>
    subst form
    exact mem_append_left _ (mem_append_right _ name)

/-- Of the names that a file declares, only the symbol of an accessor may be the name of a package that is
not chosen. -/
theorem Declaring.symbol {root : FlowUnit} (hcompiled : s.Compiles cfg root) (hregistry : registry.Truthful)
    (h : Declaring s registry form x) (hx : x ∈ Names.packages) :
    ∃ package, form = .accessor x package := by
  -- But for that symbol, declared names are told from names of packages by their last letters.
  cases h with
  | metatype declared found name => exact absurd hx ((hregistry _ _ found).packages x name)
  | constructor declared name =>
    obtain ⟨u, hu, hd⟩ := mem_flatMap.mp declared
    rw [name, (hcompiled.stemmed u hu).funcName_eq _ hd] at hx
    exact absurd hx (Names.append_notMem_packages _ (by decide))
  | @unit u d stored code name =>
    rcases FlowUnit.names_decls code name with hname | ⟨rfl, hne⟩
    · simp only [mem_cons, not_mem_nil, or_false] at hname
      rcases hname with rfl | rfl | rfl
      · exact absurd hx (Names.append_notMem_packages _ (by decide))
      · exact absurd hx (Names.append_notMem_packages _ (by decide))
      · exact absurd hx (Names.append_notMem_packages _ (by decide))
    · rw [(hcompiled.done.2.compiled stored).optionsSymbol_cases.resolve_left hne] at hx
      exact absurd hx (Names.append_notMem_packages _ (by decide))
  | entry name =>
    exact absurd hx ((by decide : ∀ x ∈ NameFamily.entryNames, x ∉ Names.packages) x name)
  | accessor form name =>
    simp only [Names.ofAccessor, mem_cons, not_mem_nil, or_false] at name
    rcases name with rfl | rfl | rfl | rfl
    · exact ⟨_, form⟩
    · exact absurd hx (Names.append_notMem_packages _ (by decide))
    · exact absurd hx (Names.append_notMem_packages _ (by decide))
    · exact absurd hx (Names.append_notMem_packages _ (by decide))

/-! ## Imports -/

/-- A package has a name that is not chosen, or one that is no generated name. -/
theorem importNames_cases (h : s.program registry form = (s', .ok file)) (hx : x ∈ file.importNames) :
    x ∈ Names.packages ∨ x ∉ Names.generated registry s.units form := by
  obtain ⟨root, package, aliases, decls, haliases, -, rfl⟩ := program_ok h
  obtain ⟨i, hi, rfl⟩ := mem_map.mp hx
  have hi : i ∈ Names.imports aliases := (mem_filter.mp hi).1
  rcases mem_append.mp hi with hi | hi
  · exact .inl (mem_cons_of_mem _ (mem_map_of_mem hi))
  · obtain ⟨⟨path, name⟩, hmem, rfl⟩ := mem_map.mp hi
    dsimp only
    split
    · exact .inl mem_cons_self
    · exact .inr ((Names.aliases_ok haliases).2 _ hmem)

theorem unitDecls_subset (h : s.program registry form = (s', .ok file)) : s.unitDecls ⊆ file.decls := by
  obtain ⟨root, package, aliases, decls, -, -, rfl⟩ := program_ok h
  intro d hd
  simp only [programFile, mem_append, or_assoc]
  exact .inr ((mem_append.mp hd).imp_right .inl)

theorem bareSymbols_notMem (h : s.program registry form = (s', .ok file)) (hx : x ∈ s.bareSymbols) :
    x ∉ Names.generated registry s.units form := by
  obtain ⟨root, package, aliases, decls, haliases, -, -⟩ := program_ok h
  obtain ⟨hmem, hsplit⟩ := mem_filter.mp hx
  exact (Names.aliases_ok haliases).1 x hmem (Option.isNone_iff_eq_none.mp hsplit)

theorem symbol_mem_declared {symbol package : String}
    (h : s.program registry (.accessor symbol package) = (s', .ok file)) : symbol ∈ file.declared := by
  obtain ⟨root, name, aliases, decls, -, -, rfl⟩ := program_ok h
  simp [SourceFile.declared, programFile, ProgramForm.entryDecls, accessorDecls, Decl.names]

/-- The scope of the file for a compiled flow, with metatypes that declare what they say. A name of a package
is declared in the file only if it is the symbol of an accessor, which is then a name that is not chosen. A
bare symbol is declared nowhere in the code that refers to it, and in no other place outside functions; and
every bare name in that code is such a symbol or a generated name. So imports, declarations and bare symbols
are apart if and only if neither the symbol of an accessor nor a bare symbol is the name of a package. -/
theorem Compiles.program_scope {root : FlowUnit} (hcompiled : s.Compiles cfg root)
    (hregistry : registry.Truthful) (h : s.program registry form = (s', .ok file)) :
    (∀ x ∈ file.importNames, x ∈ file.declared ↔ ∃ package, form = .accessor x package) ∧
    (∀ x ∈ file.importNames, (∃ package, form = .accessor x package) → x ∈ Names.packages) ∧
    (∀ x ∈ s.bareSymbols, x ∉ file.declared ∧ ∀ d ∈ s.unitDecls, x ∉ d.identifiers) ∧
    (∀ d ∈ s.unitDecls, d ∈ file.decls ∧ ∀ x ∈ d.symbols, x = "" ∨ x ∈ s.bareSymbols ∨
      ∃ u ∈ s.units, x ∈ u.generatedNames registry) ∧
    (file.Apart s.bareSymbols ↔
      (∀ x ∈ file.importNames, ∀ package, form ≠ .accessor x package) ∧
        ∀ x ∈ s.bareSymbols, x ∉ file.importNames) := by
  have hdone := hcompiled.done.2
  have himport : ∀ x ∈ file.importNames, x ∈ file.declared ↔ ∃ package, form = .accessor x package := by
    intro x hx
    constructor
    · intro hdeclared
      have hd := declaring_of_program hregistry h hdeclared
      rcases importNames_cases h hx with hpackage | hfree
      · exact hd.symbol hcompiled hregistry hpackage
      · exact absurd (hd.generated hdone) hfree
    · rintro ⟨package, rfl⟩
      exact symbol_mem_declared h
  have hbare : ∀ x ∈ s.bareSymbols, x ∉ file.declared := fun x hx hdeclared =>
    bareSymbols_notMem h hx ((declaring_of_program hregistry h hdeclared).generated hdone)
  refine ⟨himport, ?_, fun x hx => ⟨hbare x hx, fun d hd hmem => ?_⟩, fun d hd => ⟨?_, fun x hx => ?_⟩, ?_⟩
  · rintro x hx ⟨package, rfl⟩
    refine (importNames_cases h hx).resolve_right fun hfree => hfree ?_
    exact mem_append_left _ (mem_append_right _ mem_cons_self)
  · exact bareSymbols_notMem h hx (identifiers_unitDecls hdone hd hmem)
  · exact unitDecls_subset h hd
  · exact or_iff_not_imp_left.mpr fun hne => symbols_unitDecls registry hdone hd hx hne
  · constructor
    · rintro ⟨hclear, hsymbols⟩
      exact ⟨fun x hx package hform => hclear x hx ((himport x hx).mpr ⟨package, hform⟩),
        fun x hx => (hsymbols x hx).1⟩
    · rintro ⟨hform, hsymbols⟩
      refine ⟨fun x hx hdeclared => ?_, fun x hx => ⟨hsymbols x hx, hbare x hx⟩⟩
      obtain ⟨package, heq⟩ := (himport x hx).mp hdeclared
      exact hform x hx package heq

theorem exists_program {P : SourceFile → Bool} (h : (s.program registry form).2.toOption.any P = true) :
    ∃ s' file, s.program registry form = (s', .ok file) ∧ P file = true := by
  rcases hrun : s.program registry form with ⟨s', e | file⟩
  · rw [hrun] at h
    cases h
  · rw [hrun] at h
    exact ⟨s', file, rfl, h⟩

/-- A catalog with a package that is called as a variable of generated code is, a bare symbol, and a bare
symbol that is called as a package is. -/
def shadowConfig : Config where
  storage := ⟨["w"], [(["w"], .directory)]⟩
  common := {
    types := [{ name := "src", symbol := "example.com/nodes.Src" }, { name := "plain", symbol := "plain" },
      { name := "bare", symbol := "flow" }] }

/-- The session of a flow with a node of each of the first two types. -/
def shadowSession : Session × Except CompileError FlowUnit :=
  compileText {} shadowConfig "main.fbp" "a(src), b(plain)"

/-- The package gets another name, and the file has its names apart. -/
theorem Compiles.program_scope_shadowed :
    ∃ root s' file, shadowSession.1.Compiles shadowConfig root ∧
      shadowSession.1.program .builtin (.accessor "Flow" "flows") = (s', .ok file) ∧
      file.importNames = ["flow", "sync", "nodes1"] ∧ shadowSession.1.bareSymbols = ["plain"] ∧
      file.Apart shadowSession.1.bareSymbols := by
  have hfacts : shadowSession.2.toOption.isSome = true ∧ shadowSession.1.bareSymbols = ["plain"] ∧
      (shadowSession.1.program .builtin (.accessor "Flow" "flows")).2.toOption.any
        (fun file => file.importNames = ["flow", "sync", "nodes1"]) = true := by decide +kernel
  obtain ⟨hok, hbare, hprogram⟩ := hfacts
  obtain ⟨root, h⟩ : ∃ root, shadowSession.1.Compiles shadowConfig root := exists_compiles rfl hok
  obtain ⟨s', file, hfile, hnames⟩ := exists_program hprogram
  have hnames : file.importNames = ["flow", "sync", "nodes1"] := of_decide_eq_true hnames
  obtain ⟨-, -, -, -, hiff⟩ := h.program_scope Registry.builtin_truthful hfile
  refine ⟨root, s', file, h, hfile, hnames, hbare, hiff.mpr ⟨fun x hx package hform => ?_, ?_⟩⟩
  · cases hform
    exact absurd (hnames ▸ hx) (by decide)
  · rw [hbare, hnames]
    decide

/-- A program can be asked for with the name of a package as the symbol of its accessor, and can refer to a
bare symbol that is the name of a package. In the first file that name is declared and imported, and in the
second one the symbol means the package. -/
theorem package_names_taken :
    (∃ root s' file, shadowSession.1.Compiles shadowConfig root ∧
      shadowSession.1.program .builtin (.accessor "flow" "flows") = (s', .ok file) ∧
      "flow" ∈ file.importNames ∧ "flow" ∈ file.declared) ∧
    ∃ s root s' file, Session.Compiles shadowConfig s root ∧
      s.program .builtin .standalone = (s', .ok file) ∧ "flow" ∈ s.bareSymbols ∧ "flow" ∈ file.importNames := by
  have hfacts : shadowSession.2.toOption.isSome = true ∧
      (shadowSession.1.program .builtin (.accessor "flow" "flows")).2.toOption.any
        (fun file => "flow" ∈ file.importNames && "flow" ∈ file.declared) = true ∧
      (compileText {} shadowConfig "main.fbp" "b(bare)").2.toOption.isSome = true ∧
      "flow" ∈ (compileText {} shadowConfig "main.fbp" "b(bare)").1.bareSymbols ∧
      ((compileText {} shadowConfig "main.fbp" "b(bare)").1.program .builtin .standalone).2.toOption.any
        (fun file => "flow" ∈ file.importNames) = true := by decide +kernel
  obtain ⟨hok, hprogram, hok', hbare, hprogram'⟩ := hfacts
  obtain ⟨root, h⟩ : ∃ root, shadowSession.1.Compiles shadowConfig root := exists_compiles rfl hok
  obtain ⟨root', h'⟩ := exists_compiles rfl hok'
  obtain ⟨s', file, hfile, hnames⟩ := exists_program hprogram
  obtain ⟨t', file', hfile', hname⟩ := exists_program hprogram'
  simp only [Bool.and_eq_true, decide_eq_true_eq] at hnames hname
  exact ⟨⟨root, s', file, h, hfile, hnames.1, hnames.2⟩, _, root', t', file', h', hfile', hbare, hname⟩

end Session

end FlowCompiler
