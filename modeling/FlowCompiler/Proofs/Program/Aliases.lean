import FlowCompiler.Program.Names
import FlowCompiler.Proofs.Naming.Words

/-!
# Names of imported packages

A package of a catalog symbol gets its own name, with a number if that is taken. `Names.Search` is the search
that tries one number after the other, with no bound. It ends, since fewer names are taken than there are
numbers (`Names.search_free`).

`Names.WellNamed generated as` says what names the packages in `as` have. Giving one more package a name keeps
this (`Names.WellNamed.addAlias`), so it holds of all names that a program gives (`Names.aliases_wellNamed`).
A bare symbol that the file declares was refused (`Names.aliases_ok`), and the packages that got names are
those of the symbols (`Names.aliases_paths`).
-/

namespace FlowCompiler.Names

open List Source

/-! ## The search for a name -/

/-- The names that are tried for a package, in order: its own, then with numbers. -/
def candidate (name : String) : Nat → String
  | 0 => name
  | i + 1 => name ++ toString (i + 1)

/-- The search for a name that is not taken, from the `i`-th candidate on. -/
inductive Search (taken : List String) (name : String) : Nat → String → Prop where
  | stop {i : Nat} (free : candidate name i ∉ taken) : Search taken name i (candidate name i)
  | next {i : Nat} {found : String} (used : candidate name i ∈ taken)
      (rest : Search taken name (i + 1) found) : Search taken name i found

section Search

variable {taken : List String} {name found : String} {i : Nat}

theorem Search.notMem (h : Search taken name i found) : found ∉ taken := by
  induction h with
  | stop free => exact free
  | next _ _ ih => exact ih

theorem Search.eq_candidate (h : Search taken name i found) : ∃ k, found = candidate name k := by
  induction h with
  | @stop i _ => exact ⟨i, rfl⟩
  | next _ _ ih => exact ih

theorem Search.unique (h : Search taken name i found) {other : String}
    (h' : Search taken name i other) : found = other := by
  induction h with
  | stop free =>
    cases h' with
    | stop => rfl
    | next used _ => exact absurd used free
  | next used _ ih =>
    cases h' with
    | stop free => exact absurd used free
    | next _ rest => exact ih rest

/-- The names that are tried for a package differ. -/
theorem nodup_numbers (name : String) (n : Nat) :
    (name :: (List.range n).map fun i => name ++ toString (i + 1)).Nodup := by
  refine nodup_cons.mpr ⟨fun hmem => ?_, nodup_range.map fun i j h => ?_⟩
  · obtain ⟨i, -, h⟩ := mem_map.mp hmem
    have hlist := congrArg String.toList h
    rw [String.toList_append, append_right_eq_self] at hlist
    have hdigits : (i + 1).repr.toList = [] := hlist
    rw [Nat.toList_repr] at hdigits
    exact Nat.toDigits_ne_nil hdigits
  · have hlist := congrArg String.toList h
    rw [String.toList_append, String.toList_append] at hlist
    have hrepr : (i + 1).repr = (j + 1).repr := String.toList_inj.mp (append_cancel_left hlist)
    have := Nat.repr_injective hrepr
    omega

theorem search_of_find? {n : Nat}
    (h : ((List.range' i n).map (candidate name)).find? (fun x => !taken.contains x) = some found) :
    Search taken name i found := by
  induction n generalizing i with
  | zero => cases h
  | succ n ih =>
    rw [range'_succ, map_cons] at h
    by_cases hmem : candidate name i ∈ taken
    · rw [find?_cons_of_neg (by simp [hmem])] at h
      exact .next hmem (ih h)
    · rw [find?_cons_of_pos (by simp [hmem])] at h
      cases h
      exact .stop hmem

/-- The search ends, and gives the name that a package gets. -/
theorem search_free (taken : List String) (name : String) : Search taken name 0 (free taken name) := by
  have hnodup := nodup_numbers name taken.length
  have hnames : (name :: (List.range taken.length).map fun i => name ++ toString (i + 1)) =
      (List.range' 0 (taken.length + 1)).map (candidate name) := by
    rw [range'_succ, map_cons, range'_eq_map_range, map_map]
    refine congrArg (name :: ·) (map_congr_left fun i _ => ?_)
    rw [Function.comp_apply, Nat.add_comm (0 + 1) i]
    rfl
  unfold free
  dsimp only
  rw [hnames] at hnodup ⊢
  cases hfind : ((List.range' 0 (taken.length + 1)).map (candidate name)).find?
      fun n => !taken.contains n with
  | some found => exact search_of_find? hfind
  | none =>
    -- One name more than there are taken ones was tried, and all were different.
    have hall : (List.range' 0 (taken.length + 1)).map (candidate name) ⊆ taken :=
      fun n hn => by simpa using find?_eq_none.mp hfind n hn
    have hle := (subperm_of_subset hnodup hall).length_le
    simp at hle

end Search

/-! ## Words of small letters and digits -/

/-- Whether a text is a word of small letters and digits that starts with a letter. -/
def IsPlain (s : String) : Prop :=
  ∃ c cs, s.toList = c :: cs ∧ c.isLower = true ∧ ∀ x ∈ cs, (x.isLower || x.isDigit) = true

theorem isPlain_ofPath (path : String) : IsPlain (ofPath path) := by
  unfold ofPath
  dsimp only
  generalize (Text.lowercase (String.ofList (path.toList.reverse.takeWhile (· != '/')).reverse)).toList = cs
  split
  · refine ⟨'p', ['k', 'g'], by decide, by decide, ?_⟩
    simp only [forall_mem_cons]
    exact ⟨rfl, rfl, nofun⟩
  · next rest hne =>
    have hkept : ∀ x ∈ (cs.filter fun c => c.isLower || c.isDigit).dropWhile Char.isDigit,
        (x.isLower || x.isDigit) = true :=
      fun x hx => (mem_filter.mp ((dropWhile_sublist _).subset hx)).2
    cases hrest : (cs.filter fun c => c.isLower || c.isDigit).dropWhile Char.isDigit with
    | nil => exact absurd hrest hne
    | cons c rest =>
      have hdigit : c.isDigit = false := by
        have := head?_dropWhile_not Char.isDigit (cs.filter fun c => c.isLower || c.isDigit)
        rw [hrest] at this
        simpa using this
      rw [hrest] at hkept
      obtain ⟨hc, hcs⟩ := forall_mem_cons.mp hkept
      refine ⟨c, rest, String.toList_ofList, ?_, hcs⟩
      rwa [hdigit, Bool.or_false] at hc

theorem IsPlain.candidate {name : String} (h : IsPlain name) (i : Nat) : IsPlain (candidate name i) := by
  cases i with
  | zero => exact h
  | succ i =>
    obtain ⟨c, cs, hname, hc, hcs⟩ := h
    refine ⟨c, cs ++ (i + 1).repr.toList, ?_, hc, ?_⟩
    · change (name ++ (i + 1).repr).toList = _
      rw [String.toList_append, hname, cons_append]
    · intro x hx
      rcases mem_append.mp hx with hx | hx
      · exact hcs x hx
      · rw [Nat.toList_repr] at hx
        rw [Nat.isDigit_of_mem_toDigits (by decide) (by decide) hx, Bool.or_true]

theorem IsPlain.isIdentifier {s : String} (h : IsPlain s) (hs : s ∉ keywords) : isIdentifier s = true := by
  obtain ⟨c, cs, hlist, hc, hcs⟩ := h
  have hword : ∀ x : Char, (x.isLower || x.isDigit) = true → Text.isWord x = true := by
    intro x hx
    have hlt : x.toNat < 128 := by
      rcases Bool.or_eq_true_iff.mp hx with hx | hx
      · exact Text.toNat_lt_of_isLower hx
      · refine Naming.toNat_lt_of_isNameChar ?_
        simp [isNameChar, Char.isAlphanum, hx]
    exact Text.forall_ascii (P := fun x => (x.isLower || x.isDigit) = true → Text.isWord x = true)
      (by decide) hlt hx
  have hstart : startsIdentifier c = true :=
    Text.forall_ascii (P := fun x => x.isLower = true → startsIdentifier x = true) (by decide)
      (Text.toNat_lt_of_isLower hc) hc
  unfold Source.isIdentifier
  rw [hlist]
  simp only [hstart, Bool.true_and, Bool.and_eq_true, all_eq_true, Bool.not_eq_true',
    contains_eq_mem, decide_eq_false_iff_not]
  exact ⟨fun x hx => hword x (hcs x hx), hs⟩

/-! ## Names of packages -/

/-- The paths of the packages that programs use on their own account. -/
def fixedPaths : List String := fixedImports.map (·.path)

/-- The names that no package can get any more after some packages got theirs. -/
def takenBy (generated : List String) (aliases : Aliases) : List String :=
  generated ++ fixedImports.map (·.name) ++ aliases.map (·.2) ++ reserved

/-- Names of packages, for a file that declares some names: each package has one name, which the search found
when the packages before it had theirs, and the packages that have a name of their own account got none. -/
structure WellNamed (generated : List String) (aliases : Aliases) : Prop where
  paths : (aliases.map (·.1)).Nodup
  names : (aliases.map (·.2)).Nodup
  chosen : ∀ e ∈ aliases, e.1 ∉ fixedPaths
  searched : ∀ before path name after, aliases = before ++ (path, name) :: after →
    Search (takenBy generated before) (ofPath path) 0 name

section WellNamed

variable {generated symbols : List String} {aliases aliases' : Aliases} {symbol path name : String}

theorem WellNamed.search (h : WellNamed generated aliases) (hmem : (path, name) ∈ aliases) :
    ∃ before, Search (takenBy generated before) (ofPath path) 0 name := by
  obtain ⟨before, after, rfl⟩ := append_of_mem hmem
  exact ⟨before, h.searched before path name after rfl⟩

/-- No name of a package is taken otherwise. -/
theorem WellNamed.notMem (h : WellNamed generated aliases) (hmem : (path, name) ∈ aliases) :
    name ∉ generated ∧ name ∉ fixedImports.map (·.name) ∧ name ∉ reserved := by
  obtain ⟨before, hsearch⟩ := h.search hmem
  have htaken := hsearch.notMem
  simp only [takenBy, mem_append, not_or] at htaken
  exact ⟨htaken.1.1.1, htaken.1.1.2, htaken.2⟩

theorem WellNamed.isIdentifier (h : WellNamed generated aliases) (hmem : (path, name) ∈ aliases) :
    isIdentifier name = true := by
  obtain ⟨before, hsearch⟩ := h.search hmem
  obtain ⟨k, rfl⟩ := hsearch.eq_candidate
  refine ((isPlain_ofPath path).candidate k).isIdentifier fun hkeyword => ?_
  exact (h.notMem hmem).2.2 (mem_cons_of_mem _ (mem_append_left _ hkeyword))

/-- What a symbol does to the names of packages: a bare one is checked, and a package gets a name unless it
has one. -/
theorem addAlias_cases (h : addAlias generated aliases symbol = .ok aliases') :
    (splitSymbol? symbol = none ∧ symbol ∉ generated ∧ aliases' = aliases) ∨
      ∃ path name, splitSymbol? symbol = some (path, name) ∧
        (((path ∈ fixedPaths ∨ path ∈ aliases.map (·.1)) ∧ aliases' = aliases) ∨
          (path ∉ fixedPaths ∧ path ∉ aliases.map (·.1) ∧
            aliases' = aliases ++ [(path, free (takenBy generated aliases) (ofPath path))])) := by
  unfold addAlias at h
  split at h
  · next hsplit =>
    split at h
    · cases h
    · next hfree =>
      cases h
      exact .inl ⟨hsplit, by simpa using hfree, rfl⟩
  · next path name hsplit =>
    refine .inr ⟨path, name, hsplit, ?_⟩
    have hknown : (fixedImports.any (·.path == path) || aliases.any (·.1 == path)) = true ↔
        path ∈ fixedPaths ∨ path ∈ aliases.map (·.1) := by
      simp [fixedPaths, any_eq_true, mem_map]
    split at h
    · next hold =>
      cases h
      exact .inl ⟨hknown.mp hold, rfl⟩
    · next hnew =>
      cases h
      obtain ⟨hfixed, hpath⟩ := not_or.mp (mt hknown.mpr hnew)
      exact .inr ⟨hfixed, hpath, rfl⟩

/-- The package of one more symbol gets a name. -/
theorem WellNamed.addAlias (h : WellNamed generated aliases)
    (hstep : addAlias generated aliases symbol = .ok aliases') : WellNamed generated aliases' := by
  rcases addAlias_cases hstep with ⟨-, -, rfl⟩ | ⟨path, name, -, ⟨-, rfl⟩ | ⟨hfixed, hpath, rfl⟩⟩
  · exact h
  · exact h
  · have hsearch := search_free (takenBy generated aliases) (ofPath path)
    have hname : free (takenBy generated aliases) (ofPath path) ∉ aliases.map (·.2) := by
      intro hmem
      exact hsearch.notMem (mem_append_left _ (mem_append_right _ hmem))
    refine ⟨?_, ?_, ?_, ?_⟩
    · rw [map_append]
      exact h.paths.append (nodup_singleton _) (by simpa using hpath)
    · rw [map_append]
      exact h.names.append (nodup_singleton _) (by simpa using hname)
    · exact forall_mem_append.mpr ⟨h.chosen, by simpa using hfixed⟩
    · intro before path' name' after heq
      rcases eq_nil_or_concat after with rfl | ⟨after, last, rfl⟩
      · obtain ⟨rfl, hlast⟩ := append_inj' heq rfl
        cases hlast
        exact hsearch
      · rw [concat_eq_append, ← cons_append, ← append_assoc] at heq
        obtain ⟨hinit, -⟩ := append_inj' heq rfl
        exact h.searched before path' name' after hinit

theorem WellNamed.addAliases (h : WellNamed generated aliases)
    (hrun : addAliases generated aliases symbols = .ok aliases') : WellNamed generated aliases' := by
  induction symbols generalizing aliases with
  | nil =>
    cases hrun
    exact h
  | cons symbol symbols ih =>
    unfold Names.addAliases at hrun
    split at hrun
    · cases hrun
    · next aliases₁ hstep => exact ih (h.addAlias hstep) hrun

/-- The packages of the symbols have names afterwards, and no others got any. -/
theorem addAliases_paths (hrun : addAliases generated aliases symbols = .ok aliases')
    (hfixed : path ∉ fixedPaths) :
    path ∈ aliases'.map (·.1) ↔
      path ∈ aliases.map (·.1) ∨ ∃ x ∈ symbols, ∃ name, splitSymbol? x = some (path, name) := by
  induction symbols generalizing aliases with
  | nil =>
    cases hrun
    simp
  | cons symbol symbols ih =>
    unfold Names.addAliases at hrun
    split at hrun
    · cases hrun
    · next aliases₁ hstep =>
      have hone : path ∈ aliases₁.map (·.1) ↔
          path ∈ aliases.map (·.1) ∨ ∃ name, splitSymbol? symbol = some (path, name) := by
        rcases addAlias_cases hstep with ⟨hsplit, -, rfl⟩ | ⟨path', name', hsplit, ⟨hold, rfl⟩ | ⟨-, -, rfl⟩⟩
        · simp [hsplit]
        · constructor
          · exact .inl
          · rintro (hmem | ⟨name, hname⟩)
            · exact hmem
            · cases hsplit.symm.trans hname
              exact hold.resolve_left hfixed
        · simp [hsplit, eq_comm]
      rw [ih hrun, hone, or_assoc, exists_mem_cons_iff]

/-- Bare symbols that pass are no generated names. -/
theorem addAliases_bare (hrun : addAliases generated aliases symbols = .ok aliases') :
    ∀ x ∈ symbols, splitSymbol? x = none → x ∉ generated := by
  induction symbols generalizing aliases with
  | nil => exact nofun
  | cons symbol symbols ih =>
    unfold Names.addAliases at hrun
    split at hrun
    · cases hrun
    · next aliases₁ hstep =>
      refine forall_mem_cons.mpr ⟨fun hbare => ?_, ih hrun⟩
      rcases addAlias_cases hstep with ⟨-, hfree, -⟩ | ⟨path, name, hsplit, -⟩
      · exact hfree
      · exact absurd (hbare.symm.trans hsplit) (by simp)

end WellNamed

/-! ## Programs -/

section Programs

variable {registry : Registry} {units : List FlowUnit} {form : ProgramForm} {as : Aliases}

theorem aliases_eq_ok (h : aliases registry units form = .ok as) :
    addAliases (generated registry units form) [] (units.flatMap (·.catalogSymbols)) = .ok as := by
  unfold aliases at h
  cases form with
  | standalone => exact h
  | accessor symbol package =>
    dsimp only at h
    split at h
    · cases h
    · exact h

theorem aliases_wellNamed (h : aliases registry units form = .ok as) :
    WellNamed (generated registry units form) as := by
  have hnil : WellNamed (generated registry units form) [] := by
    refine ⟨nodup_nil, nodup_nil, fun e he => absurd he not_mem_nil, ?_⟩
    intro before path name after heq
    simp at heq
  exact hnil.addAliases (aliases_eq_ok h)

theorem aliases_paths (h : aliases registry units form = .ok as) {path : String}
    (hfixed : path ∉ fixedPaths) :
    path ∈ as.map (·.1) ↔
      ∃ x ∈ units.flatMap (·.catalogSymbols), ∃ name, splitSymbol? x = some (path, name) := by
  rw [addAliases_paths (aliases_eq_ok h) hfixed]
  simp

/-- Names of packages and bare symbols are no generated names. -/
theorem aliases_ok (h : aliases registry units form = .ok as) :
    (∀ x ∈ units.flatMap (·.catalogSymbols), splitSymbol? x = none → x ∉ generated registry units form) ∧
      ∀ e ∈ as, e.2 ∉ generated registry units form :=
  ⟨addAliases_bare (aliases_eq_ok h), fun _ he => ((aliases_wellNamed h).notMem he).1⟩

end Programs

end FlowCompiler.Names
