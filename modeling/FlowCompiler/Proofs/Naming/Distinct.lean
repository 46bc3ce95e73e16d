import FlowCompiler.Program.Basic
import FlowCompiler.Proofs.Naming.Stems

/-!
# Distinct names

A generated program takes seven families of names from the units and declarations of a session. Names of
different families differ in their first or last letters (`NameFamily.ofName`). Names of one family are made
of different stems, but two families start with a small letter, and a small letter does not tell its capital:
`İ` and `I` have the same one, and so have the Kelvin sign and `K`. Only the first unit of a session can
have a stem that starts with `İ` or the Kelvin sign, as only its name need not be written in a flow text.

Main statement: `Session.Compiles.names_distinct_iff`. All names are distinct if and only if the stem of the
first unit is not that of another unit in this way (`Naming.Folded`).
-/

namespace FlowCompiler

open List Naming

variable {cs : List Char} {f : NameFamily} {c : Char}

/-! ## Small first letters -/

namespace Naming

/-- Whether two identifiers differ in their first letters only, and these are two capitals of the same small
letter. -/
def Folded (a b : String) : Prop :=
  a.toList = Text.dottedI :: b.toList.tail ∧ b.toList.head? = some 'I' ∨
    a.toList = Text.kelvin :: b.toList.tail ∧ b.toList.head? = some 'K'

instance (a b : String) : Decidable (Folded a b) := inferInstanceAs (Decidable (_ ∨ _))

theorem toList_lowerFirst {s : String} (h : s.toList = c :: cs) :
    (lowerFirst s).toList = Text.toLower c :: cs := by
  rw [lowerFirst, h]
  exact String.toList_ofList

/-- Two identifiers become the same only if they are, or if they are folded. -/
theorem lowerFirst_eq_iff {a b : String} {d : Char} {ds : List Char} (ha : a.toList = c :: cs)
    (hb : b.toList = d :: ds) (hc : c.isLower = false) (hd : d.isUpper = true) :
    lowerFirst a = lowerFirst b ↔ a = b ∨ Folded a b := by
  rw [← String.toList_inj, toList_lowerFirst ha, toList_lowerFirst hb, ← String.toList_inj, Folded, ha, hb,
    List.cons.injEq, List.cons.injEq, List.cons.injEq, List.cons.injEq, tail_cons, head?_cons,
    Option.some.injEq, Option.some.injEq]
  constructor
  · rintro ⟨hletter, rfl⟩
    rcases Text.toLower_inj hc hd hletter with rfl | ⟨rfl, rfl⟩ | ⟨rfl, rfl⟩
    · exact .inl ⟨rfl, rfl⟩
    · exact .inr (.inl ⟨⟨rfl, rfl⟩, rfl⟩)
    · exact .inr (.inr ⟨⟨rfl, rfl⟩, rfl⟩)
  · rintro (⟨rfl, rfl⟩ | ⟨⟨rfl, rfl⟩, rfl⟩ | ⟨⟨rfl, rfl⟩, rfl⟩)
    · exact ⟨rfl, rfl⟩
    · exact ⟨by decide +kernel, rfl⟩
    · exact ⟨by decide +kernel, rfl⟩

theorem Folded.not_isUpper {a b : String} (h : Folded a b) :
    ∃ c cs, a.toList = c :: cs ∧ c.isUpper = false := by
  rcases h with ⟨h, -⟩ | ⟨h, -⟩
  · exact ⟨_, _, h, by decide⟩
  · exact ⟨_, _, h, by decide⟩

theorem not_folded_self (a : String) : ¬ Folded a a := by
  rintro (⟨h, hhead⟩ | ⟨h, hhead⟩)
  · rw [h] at hhead
    exact absurd (Option.some.inj hhead) (by decide)
  · rw [h] at hhead
    exact absurd (Option.some.inj hhead) (by decide)

end Naming

/-! ## Stems -/

theorem stem_starts (name : String) (id n : Nat) :
    ∃ c cs, (numbered (stemBase name id) n).toList = c :: cs ∧ c.isLower = false ∧
      (IsName name → c.isUpper = true) := by
  obtain ⟨c, cs, hexported, hlower, hupper⟩ := exported_starts name
  rw [toList_numbered, toList_stemBase, hexported]
  exact ⟨c, _, rfl, hlower, hupper⟩

theorem repr_ends (n : Nat) : ∃ cs c, n.repr.toList = cs ++ [c] ∧ c.isDigit = true := by
  have hne : Nat.toDigits 10 n ≠ [] := Nat.toDigits_ne_nil
  rw [Nat.toList_repr]
  refine ⟨_, _, (dropLast_append_getLast hne).symm, ?_⟩
  exact Nat.isDigit_of_mem_toDigits (by decide) (by decide) (getLast_mem hne)

/-- A stem ends with a digit. -/
theorem stem_ends (name : String) (id n : Nat) :
    ∃ cs c, (numbered (stemBase name id) n).toList = cs ++ [c] ∧ c.isDigit = true := by
  rw [toList_numbered, toList_stemBase]
  split
  · obtain ⟨cs, c, hcs, hc⟩ := repr_ends n
    exact ⟨(exported name).toList ++ id.repr.toList ++ '_' :: cs, c, by simp [hcs], hc⟩
  · obtain ⟨cs, c, hcs, hc⟩ := repr_ends id
    exact ⟨(exported name).toList ++ cs, c, by simp [hcs], hc⟩

/-! ## Families -/

/-- What names in a generated program are for: functions that build the types of units and of declarations
and those that these share, types of options, functions that set the options of children, variables of
default options, and the names that every program has. -/
inductive NameFamily where
  | units
  | declared
  | helpers
  | options
  | childOptions
  | defaults
  | fixed
deriving DecidableEq, Repr

namespace NameFamily

variable {name : String}

/-- All families. -/
def all : List NameFamily := [units, declared, helpers, options, childOptions, defaults, fixed]

theorem nodup_all : all.Nodup := by decide

theorem mem_all (f : NameFamily) : f ∈ all := by cases f <;> decide

/-- The functions that declared types share. -/
def helperNames : List String := [true, false].map Composed.helperName

/-- The names that every program has. -/
def entryNames : List String := ["initializeTypes", "rootNode", "startup", "shutdown", "main"]

theorem nodup_helperNames : helperNames.Nodup := by decide

theorem nodup_entryNames : entryNames.Nodup := by decide

/-- The family of a name, by its last letters, the letter before these, and its first letter. -/
def ofName (name : String) : NameFamily :=
  match name.toList.reverse with
  | 'e' :: 'p' :: 'y' :: 'T' :: c :: _ =>
    if c.isDigit then if name.toList.head? = some 'c' then units else declared else helpers
  | 's' :: 'n' :: 'o' :: 'i' :: 't' :: 'p' :: 'O' :: c :: _ => if c.isDigit then options else childOptions
  | 's' :: 't' :: 'l' :: 'u' :: 'a' :: 'f' :: 'e' :: 'D' :: _ => defaults
  | _ => fixed

theorem ofName_type {first : List Char} (h : name.toList = first ++ (cs ++ [c]) ++ ['T', 'y', 'p', 'e'])
    (hc : c.isDigit = true) : ofName name = if name.toList.head? = some 'c' then units else declared := by
  have hreverse : name.toList.reverse = 'e' :: 'p' :: 'y' :: 'T' :: c :: (cs.reverse ++ first.reverse) := by
    simp [h]
  simp only [ofName, hreverse, hc, if_true]

theorem ofName_options (h : name.toList = cs ++ [c] ++ ['O', 'p', 't', 'i', 'o', 'n', 's']) :
    ofName name = if c.isDigit then options else childOptions := by
  have hreverse : name.toList.reverse = 's' :: 'n' :: 'o' :: 'i' :: 't' :: 'p' :: 'O' :: c :: cs.reverse := by
    simp [h]
  simp only [ofName, hreverse]

theorem ofName_defaults (h : name.toList = cs ++ ['D', 'e', 'f', 'a', 'u', 'l', 't', 's']) :
    ofName name = defaults := by
  have hreverse : name.toList.reverse =
      's' :: 't' :: 'l' :: 'u' :: 'a' :: 'f' :: 'e' :: 'D' :: cs.reverse := by
    simp [h]
  simp only [ofName, hreverse]

theorem ofName_helpers : ∀ name ∈ helperNames, ofName name = helpers := by decide

theorem ofName_entries : ∀ name ∈ entryNames, ofName name = fixed := by decide

/-- Whether the names of a family start with a small letter that was a capital. -/
def lowered (f : NameFamily) : Bool := f = childOptions || f = defaults

end NameFamily

/-- The names of a family in the program for a session. -/
def Session.namesOf (s : Session) : NameFamily → List String
  | .units => s.units.map (·.funcName)
  | .declared => s.declared.map (·.funcName)
  | .helpers => NameFamily.helperNames
  | .options => (s.units.map (·.optionsSymbol)).filter (· ≠ "")
  | .childOptions => s.units.map (·.childOptionsName)
  | .defaults => s.units.map (·.defaultsName)
  | .fixed => NameFamily.entryNames

namespace FlowUnit

variable {cfg : Config} {units : List FlowUnit} {u : FlowUnit}

theorem Compiled.optionsSymbol_cases (h : u.Compiled cfg units) :
    u.optionsSymbol = "" ∨ u.optionsSymbol = u.stem ++ "Options" := by
  obtain ⟨symbol, htype⟩ := h.type
  rw [optionsSymbol, htype]
  change (if _ then "" else _) = "" ∨ (if _ then "" else _) = _
  split
  · exact .inl rfl
  · exact .inr rfl

theorem Stemmed.ends (h : u.Stemmed) : ∃ cs c, u.stem.toList = cs ++ [c] ∧ c.isDigit = true := by
  obtain ⟨n, hstem⟩ := h.stem
  rw [hstem]
  exact stem_ends u.name u.id n

theorem Stemmed.starts (h : u.Stemmed) :
    ∃ c cs, u.stem.toList = c :: cs ∧ c.isLower = false ∧ (IsName u.name → c.isUpper = true) := by
  obtain ⟨n, hstem⟩ := h.stem
  rw [hstem]
  exact stem_starts u.name u.id n

theorem Stemmed.funcName_eq (h : u.Stemmed) : ∀ d ∈ u.declared, d.funcName = typeFunction d.stem := by
  intro d hd
  obtain ⟨n, hfunc⟩ := h.declared d hd
  rw [DeclaredType.stem_eq hfunc, hfunc]

end FlowUnit

namespace Session

variable {cfg : Config} {s : Session}

/-- A name tells its family. -/
theorem ofName_of_mem_namesOf (hstemmed : ∀ u ∈ s.units, u.Stemmed) (hdone : Done cfg 0 s.units)
    {name : String} (h : name ∈ s.namesOf f) : NameFamily.ofName name = f := by
  cases f with
  | units =>
    obtain ⟨u, hu, rfl⟩ := mem_map.mp h
    obtain ⟨cs, c, hcs, hc⟩ := (hstemmed u hu).ends
    have hlist : u.funcName.toList = "create".toList ++ (cs ++ [c]) ++ ['T', 'y', 'p', 'e'] := by
      rw [FlowUnit.funcName, String.toList_append, String.toList_append, hcs]
      rfl
    rw [NameFamily.ofName_type hlist hc, if_pos (by rw [hlist]; rfl)]
  | declared =>
    obtain ⟨d, hd, rfl⟩ := mem_map.mp h
    obtain ⟨u, hu, hd⟩ := mem_flatMap.mp hd
    obtain ⟨n, hfunc⟩ := (hstemmed u hu).declared d hd
    obtain ⟨cs, c, hcs, hc⟩ := stem_ends d.name u.id n
    have hlist : d.funcName.toList = "new".toList ++ (cs ++ [c]) ++ ['T', 'y', 'p', 'e'] := by
      rw [hfunc, typeFunction, String.toList_append, String.toList_append, hcs]
      rfl
    rw [NameFamily.ofName_type hlist hc, if_neg (by simp [hlist])]
  | helpers =>
    exact NameFamily.ofName_helpers name h
  | options =>
    obtain ⟨hmem, hne⟩ := mem_filter.mp h
    obtain ⟨u, hu, rfl⟩ := mem_map.mp hmem
    obtain ⟨cs, c, hcs, hc⟩ := (hstemmed u hu).ends
    rcases (hdone.compiled hu).optionsSymbol_cases with hempty | hsymbol
    · exact absurd hempty (of_decide_eq_true hne)
    · have hlist : u.optionsSymbol.toList = cs ++ [c] ++ ['O', 'p', 't', 'i', 'o', 'n', 's'] := by
        rw [hsymbol, String.toList_append, hcs]
        rfl
      rw [NameFamily.ofName_options hlist, if_pos hc]
  | childOptions =>
    obtain ⟨u, hu, rfl⟩ := mem_map.mp h
    have hlist : u.childOptionsName.toList =
        u.base.toList ++ ['C', 'h', 'i', 'l'] ++ ['d'] ++ ['O', 'p', 't', 'i', 'o', 'n', 's'] := by
      rw [FlowUnit.childOptionsName, String.toList_append]
      simp
    rw [NameFamily.ofName_options hlist]
    rfl
  | defaults =>
    obtain ⟨u, hu, rfl⟩ := mem_map.mp h
    exact NameFamily.ofName_defaults String.toList_append
  | fixed =>
    exact NameFamily.ofName_entries name h

theorem disjoint_namesOf (hstemmed : ∀ u ∈ s.units, u.Stemmed) (hdone : Done cfg 0 s.units) {g : NameFamily}
    (hne : f ≠ g) : (s.namesOf f).Disjoint (s.namesOf g) := by
  intro name hf hg
  exact hne ((ofName_of_mem_namesOf hstemmed hdone hf).symm.trans (ofName_of_mem_namesOf hstemmed hdone hg))

/-- All names that the program for a session takes from its units and declarations, and those that every
program has. -/
def derivedNames (s : Session) : List String := NameFamily.all.flatMap s.namesOf

theorem nodup_derivedNames_iff (hstemmed : ∀ u ∈ s.units, u.Stemmed) (hdone : Done cfg 0 s.units) :
    s.derivedNames.Nodup ↔ ∀ f, (s.namesOf f).Nodup := by
  rw [derivedNames, nodup_flatMap]
  constructor
  · exact fun h f => h.1 f f.mem_all
  · refine fun h => ⟨fun f _ => h f, ?_⟩
    exact NameFamily.nodup_all.imp fun hne => disjoint_namesOf hstemmed hdone hne

theorem affix_injective (first last : String) : Function.Injective fun stem => first ++ stem ++ last := by
  intro a b h
  have hlist := congrArg String.toList h
  simp only [String.toList_append, append_assoc] at hlist
  exact String.toList_inj.mp (append_cancel_right (append_cancel_left hlist))

/-- Names that keep their stems are distinct. -/
theorem nodup_namesOf (hdone : Done cfg 0 s.units)
    (hfuncs : ∀ d ∈ s.declared, d.funcName = typeFunction d.stem) (hunits : (s.units.map (·.stem)).Nodup)
    (hdeclared : (s.declared.map (·.stem)).Nodup) (hf : f.lowered = false) : (s.namesOf f).Nodup := by
  cases f with
  | units =>
    have hmap : s.namesOf .units = (s.units.map (·.stem)).map fun stem => "create" ++ stem ++ "Type" := by
      rw [map_map]
      rfl
    rw [hmap]
    exact hunits.map (affix_injective "create" "Type")
  | declared =>
    have hmap : s.namesOf .declared = (s.declared.map (·.stem)).map typeFunction := by
      rw [map_map]
      exact map_congr_left hfuncs
    rw [hmap]
    exact hdeclared.map (affix_injective "new" "Type")
  | helpers => exact NameFamily.nodup_helperNames
  | options =>
    have hmap : s.namesOf .options =
        ((s.units.filter (·.optionsSymbol ≠ "")).map (·.stem)).map fun stem => "" ++ stem ++ "Options" := by
      rw [namesOf, filter_map, map_map]
      refine map_congr_left fun u hu => ?_
      obtain ⟨hmem, hne⟩ := mem_filter.mp hu
      have hcases := (hdone.compiled hmem).optionsSymbol_cases
      have hsymbol := hcases.resolve_left (of_decide_eq_true hne)
      simpa using hsymbol
    rw [hmap]
    exact (hunits.sublist (filter_sublist.map _)).map (affix_injective "" "Options")
  | childOptions => cases hf
  | defaults => cases hf
  | fixed => exact NameFamily.nodup_entryNames

/-- Names with a small first letter are distinct if these small letters tell the stems. -/
theorem nodup_namesOf_lowered (hf : f.lowered = true) :
    (s.namesOf f).Nodup ↔ (s.units.map (·.base)).Nodup := by
  have hmap : ∃ last, s.namesOf f = (s.units.map (·.base)).map fun base => "" ++ base ++ last := by
    cases f with
    | childOptions => exact ⟨"ChildOptions", by simp [namesOf, FlowUnit.childOptionsName]⟩
    | defaults => exact ⟨"Defaults", by simp [namesOf, FlowUnit.defaultsName]⟩
    | units | declared | helpers | options | fixed => cases hf
  obtain ⟨last, hmap⟩ := hmap
  rw [hmap]
  exact nodup_map_iff (affix_injective "" last)

/-- Only the stem of the first unit can become the same as another one. -/
theorem nodup_bases_iff {root : FlowUnit} {more : List FlowUnit}
    (hstemmed : ∀ u ∈ root :: more, u.Stemmed) (hnames : ∀ u ∈ more, IsName u.name)
    (hstems : ((root :: more).map (·.stem)).Nodup) :
    ((root :: more).map (·.base)).Nodup ↔ ∀ u ∈ root :: more, ¬ Folded root.stem u.stem := by
  have hbase : ∀ v ∈ root :: more, ∀ u ∈ more,
      v.base = u.base ↔ v.stem = u.stem ∨ Folded v.stem u.stem := by
    intro v hv u hu
    obtain ⟨c, cs, hc, hlower, -⟩ := (hstemmed v hv).starts
    obtain ⟨d, ds, hd, -, hupper⟩ := (hstemmed u (mem_cons_of_mem root hu)).starts
    exact lowerFirst_eq_iff hc hd hlower (hupper (hnames u hu))
  obtain ⟨hnew, hrest⟩ : root.stem ∉ more.map (·.stem) ∧ (more.map (·.stem)).Nodup :=
    nodup_cons.mp hstems
  -- Other units than the first have stems that start with ASCII capitals, whose small letters differ.
  have hmore : (more.map (·.base)).Nodup := by
    rw [List.Nodup, pairwise_map] at hrest ⊢
    refine hrest.imp_of_mem fun {v u} hv hu hne heq => ?_
    have hv' := mem_cons_of_mem root hv
    have hfolded := ((hbase v hv' u hu).mp heq).resolve_left hne
    obtain ⟨c, cs, hc, -, hupper⟩ := (hstemmed v hv').starts
    obtain ⟨c', cs', hc', hnot⟩ := hfolded.not_isUpper
    obtain ⟨rfl, -⟩ := List.cons.inj (hc.symm.trans hc')
    exact Bool.false_ne_true (hnot.symm.trans (hupper (hnames v hv)))
  have hroot : root.base ∉ more.map (·.base) ↔ ∀ u ∈ more, ¬ Folded root.stem u.stem := by
    rw [mem_map, not_exists]
    refine forall_congr' fun u => ?_
    rw [not_and]
    refine forall_congr' fun hu => ?_
    have hne : root.stem ≠ u.stem := fun heq => hnew (heq ▸ mem_map_of_mem hu)
    rw [eq_comm, hbase root mem_cons_self u hu, or_iff_right hne]
  rw [map_cons, nodup_cons, forall_mem_cons, hroot, and_iff_left hmore,
    and_iff_right (not_folded_self root.stem)]

theorem Compiles.nodup_stems {root : FlowUnit} (h : s.Compiles cfg root) :
    (s.units.map (·.stem) ++ s.declared.map (·.stem)).Nodup := by
  obtain ⟨-, c, more, ht⟩ := h.titled
  have hunits : s.units = root :: more := ht.units
  rw [declared, map_flatMap, (map_append_flatMap_perm s.units _ _).nodup_iff, hunits]
  exact ht.gives.nodup

theorem Compiles.funcName_eq {root : FlowUnit} (h : s.Compiles cfg root) :
    ∀ d ∈ s.declared, d.funcName = typeFunction d.stem := by
  intro d hd
  obtain ⟨u, hu, hd⟩ := mem_flatMap.mp hd
  exact (h.stemmed u hu).funcName_eq d hd

theorem Compiles.nodup_namesOf {root : FlowUnit} (h : s.Compiles cfg root) (hf : f.lowered = false) :
    (s.namesOf f).Nodup := by
  obtain ⟨hunits, hdeclared, -⟩ := nodup_append.mp h.nodup_stems
  exact Session.nodup_namesOf h.done.2 h.funcName_eq hunits hdeclared hf

/-- Names in the program for a compiled flow. The stems given to units and to declared types are distinct,
and so are the variables of the types that a unit declares. Names of different families differ, and so do
the names of each family that keeps its stems. All names are distinct if and only if no unit has the stem of
the first one but for a first letter, which the first unit has as `İ` or the Kelvin sign and the other one
as `I` or `K`. -/
theorem Compiles.names_distinct_iff {root : FlowUnit} (h : s.Compiles cfg root) :
    ((s.units.map (·.stem) ++ s.declared.map (·.stem)).Nodup ∧
      ∀ d ∈ s.declared, d.funcName = "new" ++ d.stem ++ "Type") ∧
    (∀ u ∈ s.units, (u.locals.types.map (·.symbol)).Nodup) ∧
    (∀ f g, f ≠ g → (s.namesOf f).Disjoint (s.namesOf g)) ∧
    (∀ f, f.lowered = false → (s.namesOf f).Nodup) ∧
    (s.derivedNames.Nodup ↔ ∀ u ∈ s.units, ¬ Folded root.stem u.stem) := by
  obtain ⟨hvariables, c, more, ht⟩ := h.titled
  have hunits : s.units = root :: more := ht.units
  have hdone := h.done.2
  have hstemmed := h.stemmed
  have hkept : ∀ f, NameFamily.lowered f = false → (s.namesOf f).Nodup := fun f => h.nodup_namesOf
  refine ⟨⟨h.nodup_stems, h.funcName_eq⟩, ?_, fun f g => disjoint_namesOf hstemmed hdone, hkept, ?_⟩
  · rw [hunits]
    exact forall_mem_cons.mpr ⟨hvariables, ht.typeVariables⟩
  · have hbases := nodup_bases_iff ht.stemmed ht.names (hunits ▸ (nodup_append.mp h.nodup_stems).1)
    rw [← hunits] at hbases
    rw [nodup_derivedNames_iff hstemmed hdone, ← hbases]
    constructor
    · exact fun hall => (nodup_namesOf_lowered rfl).mp (hall .defaults)
    · intro hall f
      cases hf : f.lowered with
      | false => exact hkept f hf
      | true => exact (nodup_namesOf_lowered hf).mpr hall

/-- A flow file with an exported option. -/
def labelledConfig : Config where
  storage := ⟨["w"], [(["w"], .directory), (["w", "sub"], .file "OPTION=t.label:label\nt(src)" 0)]⟩
  common := {
    types := [{ name := "src", symbol := "lib.Src", optionsSymbol := "lib.SrcOptions"
                options := [⟨"label", "string", none⟩] }] }

/-- The session of a flow `m` that declares types `m` and `M`, and a flow file as `a-b` and as `aB`. -/
def namesakeSession : Session × Except CompileError FlowUnit :=
  compileText {} labelledConfig "m.fbp"
    ("DECLARE=m:composed-new:A(int)|B(int)\nDECLARE=M:composed-split:A(int)|B(int)\n" ++
      "DECLARE=a-b:fbp:sub\nDECLARE=aB:fbp:sub\nt(src)")

/-- Names that mean the same identifier get numbers, and all names of the program are distinct. -/
theorem Compiles.names_distinct_iff_namesakes :
    ∃ root, namesakeSession.1.Compiles labelledConfig root ∧
      namesakeSession.1.units.map (·.stem) = ["M0", "AB1", "AB2"] ∧
      namesakeSession.1.declared.map (·.stem) = ["M0_2", "M0_3"] ∧
      root.locals.types.map (·.symbol) = ["typeM", "typeM_2", "typeAB", "typeAB_2"] ∧
      namesakeSession.1.derivedNames.Nodup := by
  obtain ⟨root, h, hroot, hstems, hdeclared, hsymbols⟩ :
      ∃ root, namesakeSession.1.Compiles labelledConfig root ∧ root.stem = "M0" ∧
        namesakeSession.1.units.map (·.stem) = ["M0", "AB1", "AB2"] ∧
        namesakeSession.1.declared.map (·.stem) = ["M0_2", "M0_3"] ∧
        root.locals.types.map (·.symbol) = ["typeM", "typeM_2", "typeAB", "typeAB_2"] :=
    exists_compiles_and rfl (by decide +kernel)
  refine ⟨root, h, hstems, hdeclared, hsymbols, ?_⟩
  refine h.names_distinct_iff.2.2.2.2.mpr fun u hu hfolded => ?_
  obtain ⟨c, cs, hc, hnot⟩ := hfolded.not_isUpper
  rw [hroot] at hc
  cases hc
  exact absurd hnot (by decide)

/-- The session of a flow whose name is the Kelvin sign and `1`, and which declares ten units, the last of
them as `k`. -/
def kelvinSession : Session × Except CompileError FlowUnit :=
  compileText {} labelledConfig "\u212A1"
    ("DECLARE=a:fbp:sub\nDECLARE=b:fbp:sub\nDECLARE=c:fbp:sub\nDECLARE=d:fbp:sub\nDECLARE=e:fbp:sub\n" ++
      "DECLARE=f:fbp:sub\nDECLARE=g:fbp:sub\nDECLARE=h:fbp:sub\nDECLARE=i:fbp:sub\nDECLARE=k:fbp:sub\n" ++
      "OPTION=t.label:label\nt(src), u(k)")

/-- The first and the last unit of that session have different stems and the same names for their default
options. -/
theorem kelvin_defaults_shared :
    ∃ root, kelvinSession.1.Compiles labelledConfig root ∧ root.defaultsName = "k10Defaults" ∧
      (∃ u ∈ kelvinSession.1.units, u.stem = "K10" ∧ u.stem ≠ root.stem ∧ u.defaultsName = "k10Defaults") ∧
      ¬ kelvinSession.1.derivedNames.Nodup := by
  have hfacts : kelvinSession.2.toOption.isSome = true ∧
      (∃ root ∈ kelvinSession.1.units[0]?, root.stem ≠ "K10" ∧ root.defaultsName = "k10Defaults") ∧
      ∃ u ∈ kelvinSession.1.units[10]?, u.stem = "K10" ∧ u.defaultsName = "k10Defaults" := by
    decide +kernel
  obtain ⟨hok, ⟨root, hroot, hrootStem, hrootDefaults⟩, u, hu, hstem, hdefaults⟩ := hfacts
  obtain ⟨first, h⟩ : ∃ first, kelvinSession.1.Compiles labelledConfig first := exists_compiles rfl hok
  obtain ⟨⟨more, hunits⟩, -⟩ := h.done
  obtain rfl : first = root := by
    rw [hunits] at hroot
    exact Option.some.inj hroot
  refine ⟨first, h, hrootDefaults, ⟨u, mem_of_getElem? hu, hstem, ?_, hdefaults⟩, fun hnodup => ?_⟩
  · rw [hstem]
    exact hrootStem.symm
  · have hmap : (kelvinSession.1.units.map (·.defaultsName)).Nodup :=
      (nodup_flatMap.mp hnodup).1 .defaults (NameFamily.mem_all _)
    have hlt : 10 < (kelvinSession.1.units.map (·.defaultsName)).length := by
      rw [length_map]
      exact (List.getElem?_eq_some_iff.mp hu).1
    refine nodup_iff_getElem?_ne_getElem?.mp hmap 0 10 (by decide) hlt ?_
    rw [getElem?_map, getElem?_map, hroot, hu, Option.map_some, Option.map_some, hrootDefaults,
      hdefaults]

end Session

end FlowCompiler
