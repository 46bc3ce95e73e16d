import FlowCompiler.Proofs.Catalog.Packets
import FlowCompiler.Proofs.Text.Cuts

/-!
# The grammar of composed declarations

The contents of a composed declaration are fields `name(type)` between bars. `Composed.Spells` says of one field
which name and which type it gives, and `Composed.Lists` says it of all contents, without reference to how they
are read.

Main statement: `Composed.simplePorts_grammar`. Contents are read exactly if they list at least two fields with
distinct names, as ports numbered in that order; and ports that are written down are read back, whatever blanks
stand around them.
-/

namespace FlowCompiler

open List

namespace Text

theorem trimChars_append_blanks {cs blanks : List Char} (h : ∀ c ∈ blanks, isBlank c = true) :
    trimChars (cs ++ blanks) = trimChars cs := by
  induction blanks using List.reverseRecOn with
  | nil => rw [append_nil]
  | append_singleton blanks x ih =>
    obtain ⟨hblanks, hx⟩ := forall_mem_append.mp h
    rw [← append_assoc, trimChars_append_blank (hx x (by simp)), ih hblanks]

theorem trimChars_blanks_append {cs blanks : List Char} (h : ∀ c ∈ blanks, isBlank c = true) :
    trimChars (blanks ++ cs) = trimChars cs := by
  rw [trimChars, trimChars, dropWhile_append_of_pos h]

/-- A trimmed text starts with no blank. -/
theorem isBlank_head?_trimChars (cs : List Char) : ∀ x ∈ (trimChars cs).head?, isBlank x = false := by
  intro x hx
  have hdrop : x ∈ (cs.dropWhile isBlank).head? := by
    obtain ⟨rest, hrest⟩ := rdropWhile_prefix isBlank (cs.dropWhile isBlank)
    rw [← hrest, head?_append]
    rw [trimChars_eq_rdropWhile] at hx
    rw [hx]
    rfl
  have hhead := head?_dropWhile_not isBlank cs
  rwa [hdrop] at hhead

theorem dropWhile_trimmed {cs : List Char} (h : trimChars cs = cs) : cs.dropWhile isBlank = cs := by
  cases cs with
  | nil => rfl
  | cons x cs =>
    have hx : isBlank x = false := isBlank_head?_trimChars (x :: cs) x (by rw [h]; rfl)
    rw [dropWhile_cons_of_neg (by simp [hx])]

end Text

namespace Composed

open Text

/-! ## Fields -/

/-- A field, trimmed, is `name(type)`: the name is what stands before the first opening bracket, the type what stands
between that one and the closing bracket at the end. Both are trimmed, and neither is empty. -/
def Spells (field : List Char) (port : String × String) : Prop :=
  ∃ before inside, trimChars field = before ++ '(' :: (inside ++ [')']) ∧ '(' ∉ before ∧
    port.1 = String.ofList (trimChars before) ∧ port.1 ≠ "" ∧
    port.2 = String.ofList (trimChars inside) ∧ port.2 ≠ ""

/-- The fields between the bars of `contents` spell the `ports`, at least two, which have distinct names. -/
structure Lists (contents : String) (ports : List (String × String)) : Prop where
  fields : List.Forall₂ Spells (contents.toList.splitOn '|') ports
  several : 2 ≤ ports.length
  distinct : (ports.map (·.1)).Nodup

/-- Ports with the given names and data types, numbered in their order. -/
def numbered (ports : List (String × String)) : List Port :=
  ports.mapIdx fun i p => { name := p.1, dataType := p.2, base := i }

theorem splitField_append {before inside : List Char} (hnone : '(' ∉ before) (hne : before ≠ []) :
    splitField (before ++ '(' :: (inside ++ [')'])) =
      some (String.ofList (trimChars before), String.ofList (trimChars inside)) := by
  obtain ⟨x, xs, rfl⟩ := exists_cons_of_ne_nil hne
  have hbefore : ((x :: xs) ++ '(' :: (inside ++ [')'])).takeWhile (· != '(') = x :: xs := by
    rw [takeWhile_append_of_pos fun c hc => bne_iff_ne.mpr (ne_of_mem_of_not_mem hc hnone)]
    simp
  have hlast : ((x :: xs) ++ '(' :: (inside ++ [')'])).getLast? = some ')' := by
    rw [← cons_append, ← append_assoc, getLast?_concat]
  simp only [splitField, hbefore, hlast, drop_left, dropLast_concat]

/-- The name of a trimmed field is empty only if nothing stands before the bracket. -/
theorem spells_iff {field : List Char} {port : String × String} :
    Spells field port ↔ splitField (trimChars field) = some port ∧ port.2 ≠ "" := by
  constructor
  · rintro ⟨before, inside, hfield, hnone, hname, hnameNe, htype, htypeNe⟩
    refine ⟨?_, htypeNe⟩
    have hbefore : before ≠ [] := by
      rintro rfl
      exact hnameNe hname
    rw [hfield, splitField_append hnone hbefore, ← hname, ← htype]
  · obtain ⟨name, type⟩ := port
    rintro ⟨hsplit, htypeNe⟩
    obtain ⟨before, inside, hfield, hnone, hbefore, hname, htype⟩ := splitField_eq_some hsplit
    refine ⟨before, inside, hfield, hnone, hname, ?_, htype, htypeNe⟩
    obtain ⟨x, xs, rfl⟩ := exists_cons_of_ne_nil hbefore
    have hx : isBlank x = false := isBlank_head?_trimChars field x (by rw [hfield]; rfl)
    have hmem : x ∈ trimChars (x :: xs) := (mem_trimChars hx).mpr (by simp)
    intro hempty
    rw [hname] at hempty
    rw [String.ofList_eq_empty_iff.mp hempty] at hmem
    exact not_mem_nil hmem

/-! ## Lists of fields -/

/-- A field is read exactly if it spells a port with a name that is new. -/
theorem readFields_cons_eq_ok_iff {done ports : List Port} {field : List Char} {rest : List (List Char)} :
    readFields done (field :: rest) = .ok ports ↔
      ∃ p, Spells field p ∧ p.1 ∉ done.map (·.name) ∧
        readFields (done ++ [{ name := p.1, dataType := p.2, base := done.length }]) rest = .ok ports := by
  simp only [spells_iff, readFields]
  cases splitField (trimChars field) with
  | none => simp
  | some p =>
    simp only [Option.some.injEq, and_assoc, exists_eq_left']
    by_cases htype : p.2 = ""
    · simp [htype]
    · rw [if_neg htype]
      by_cases hname : p.1 ∈ done.map (·.name)
      · have hany : done.any (·.name == p.1) = true := by simpa using hname
        simp [hany, hname]
      · have hany : done.any (·.name == p.1) = false := by simpa using hname
        simp [hany, hname, htype]

theorem numbered_concat (ports : List (String × String)) (p : String × String) :
    numbered (ports ++ [p]) =
      numbered ports ++ [{ name := p.1, dataType := p.2, base := (numbered ports).length }] := by
  simp [numbered, mapIdx_concat]

theorem names_numbered (ports : List (String × String)) :
    (numbered ports).map (·.name) = ports.map (·.1) := by
  induction ports using List.reverseRecOn with
  | nil => rfl
  | append_singleton ports p ih => simp [numbered_concat, ih]

/-- Behind ports that were read, fields are read exactly if they spell ports with names that are new. -/
theorem readFields_eq_ok_iff (done : List (String × String)) {fields : List (List Char)} {ports : List Port}
    (hdone : (done.map (·.1)).Nodup) :
    readFields (numbered done) fields = .ok ports ↔
      ∃ more, List.Forall₂ Spells fields more ∧ ((done ++ more).map (·.1)).Nodup ∧
        ports = numbered (done ++ more) := by
  induction fields generalizing done with
  | nil =>
    simp only [readFields, forall₂_nil_left_iff, Except.ok.injEq, exists_eq_left, append_nil]
    exact ⟨fun h => ⟨hdone, h.symm⟩, fun h => h.2.symm⟩
  | cons field rest ih =>
    have hnext : ∀ p : String × String, p.1 ∉ done.map (·.1) → ((done ++ [p]).map (·.1)).Nodup := by
      intro p hnew
      rw [map_append]
      exact concat_eq_append ▸ hdone.concat hnew
    rw [readFields_cons_eq_ok_iff, names_numbered]
    simp only [← numbered_concat]
    constructor
    · rintro ⟨p, hp, hnew, hread⟩
      obtain ⟨more, hmore, hnodup, hports⟩ := (ih _ (hnext p hnew)).mp hread
      rw [append_assoc, singleton_append] at hnodup hports
      exact ⟨p :: more, .cons hp hmore, hnodup, hports⟩
    · rintro ⟨_, hspelled, hnodup, hports⟩
      cases hspelled with
      | cons hp hmore =>
        rename_i p more
        have hnew : p.1 ∉ done.map (·.1) := by
          rw [map_append, map_cons] at hnodup
          exact fun hmem => (nodup_append.mp hnodup).2.2 _ hmem _ (by simp) rfl
        rw [append_cons] at hnodup hports
        exact ⟨p, hp, hnew, (ih _ (hnext p hnew)).mpr ⟨more, hmore, hnodup, hports⟩⟩

/-- Contents are read exactly if they list ports. -/
theorem simplePorts_eq_ok_iff {contents : String} {ports : List Port} :
    simplePorts contents = .ok ports ↔ ∃ listed, Lists contents listed ∧ ports = numbered listed := by
  have hread : ∀ {ps}, readFields [] (contents.toList.splitOn '|') = .ok ps ↔
      ∃ listed, List.Forall₂ Spells (contents.toList.splitOn '|') listed ∧ (listed.map (·.1)).Nodup ∧
        ps = numbered listed := readFields_eq_ok_iff [] nodup_nil
  have hlength : ∀ listed, (numbered listed).length = listed.length := by simp [numbered]
  unfold simplePorts
  constructor
  · intro h
    split at h
    · cases h
    · next ps hps =>
      obtain ⟨listed, hfields, hnames, rfl⟩ := hread.mp hps
      split at h
      · cases h
      · next hlen =>
        rw [hlength, Nat.not_lt] at hlen
        exact ⟨listed, ⟨hfields, hlen, hnames⟩, (Except.ok.inj h).symm⟩
  · rintro ⟨listed, hlisted, rfl⟩
    rw [hread.mpr ⟨listed, hlisted.fields, hlisted.distinct, rfl⟩]
    dsimp only
    rw [hlength, if_neg (Nat.not_lt.mpr hlisted.several)]

/-! ## Written ports -/

/-- A port as a declaration may write it, with blanks before and behind it. -/
structure Entry where
  name : String
  type : String
  leading : String
  trailing : String
  name_ne : name ≠ "" := by decide
  name_trimmed : Text.trim name = name := by decide
  name_free : '(' ∉ name.toList ∧ '|' ∉ name.toList := by decide
  type_ne : type ≠ "" := by decide
  type_trimmed : Text.trim type = type := by decide
  type_free : '|' ∉ type.toList := by decide
  leading_blank : leading.toList.all isBlank = true := by decide
  trailing_blank : trailing.toList.all isBlank = true := by decide

namespace Entry

/-- The text of an entry. -/
def text (e : Entry) : String := e.leading ++ e.name ++ "(" ++ e.type ++ ")" ++ e.trailing

/-- What an entry says. -/
def port (e : Entry) : String × String := (e.name, e.type)

/-- The text of entries, with bars between them. -/
def textOf (entries : List Entry) : String := "|".intercalate (entries.map text)

theorem trimmed {s : String} (h : Text.trim s = s) : trimChars s.toList = s.toList := by
  rw [← String.toList_ofList (l := trimChars s.toList)]
  exact congrArg String.toList h

theorem spells_text (e : Entry) : Spells e.text.toList e.port := by
  have hname := trimmed e.name_trimmed
  have htype := trimmed e.type_trimmed
  refine ⟨e.name.toList, e.type.toList, ?_, e.name_free.1, ?_, e.name_ne, ?_, e.type_ne⟩
  · have hinner : e.text.toList =
        e.leading.toList ++ ((e.name.toList ++ '(' :: (e.type.toList ++ [')'])) ++ e.trailing.toList) := by
      simp [text]
    rw [hinner, trimChars_blanks_append (all_eq_true.mp e.leading_blank),
      trimChars_append_blanks (all_eq_true.mp e.trailing_blank)]
    -- neither the first character of the name nor the closing bracket is a blank
    rw [trimChars_append_mark (by decide), dropWhile_trimmed hname, rdropWhile_concat_neg _ _ _ (by decide)]
  · rw [hname, String.ofList_toList]
    rfl
  · rw [htype, String.ofList_toList]
    rfl

theorem notMem_text (e : Entry) : '|' ∉ e.text.toList := by
  have hblank : isBlank '|' = false := by decide
  have hleading : '|' ∉ e.leading.toList := fun h => by simpa [hblank] using all_eq_true.mp e.leading_blank _ h
  have htrailing : '|' ∉ e.trailing.toList := fun h => by simpa [hblank] using all_eq_true.mp e.trailing_blank _ h
  simp [text, hleading, htrailing, e.name_free.2, e.type_free]

theorem lists_textOf {entries : List Entry} (hlen : 2 ≤ entries.length) (hnames : (entries.map (·.name)).Nodup) :
    Lists (textOf entries) (entries.map port) := by
  have hsplit : (textOf entries).toList.splitOn '|' = entries.map (·.text.toList) := by
    rw [textOf, String.toList_intercalate, map_map]
    refine splitOn_intercalate '|' (forall_mem_map.mpr fun e _ => e.notMem_text) ?_
    rintro hnil
    simp_all
  constructor
  · rw [hsplit, forall₂_map_left_iff, forall₂_map_right_iff]
    exact forall₂_same.mpr fun e _ => e.spells_text
  · simpa using hlen
  · rwa [map_map]

end Entry

/-- Contents are read exactly if they list at least two ports with distinct names, and then as these ports, numbered
in their order. Whatever ports are written down are read back. -/
theorem simplePorts_grammar :
    (∀ contents ports, simplePorts contents = .ok ports ↔
      ∃ listed, Lists contents listed ∧ ports = numbered listed) ∧
    ∀ entries : List Entry, 2 ≤ entries.length → (entries.map (·.name)).Nodup →
      simplePorts (Entry.textOf entries) = .ok (numbered (entries.map Entry.port)) := by
  refine ⟨fun contents ports => simplePorts_eq_ok_iff, fun entries hlen hnames => ?_⟩
  exact simplePorts_eq_ok_iff.mpr ⟨_, Entry.lists_textOf hlen hnames, rfl⟩

/-- A port with a blank in its name and brackets in its type, and one with blanks around it. -/
def Entry.samples : List Entry :=
  [{ name := "B 2", type := "map(int)", leading := "", trailing := "\t" },
   { name := "A", type := ")", leading := " \u00a0", trailing := "" }]

theorem simplePorts_grammar_samples :
    2 ≤ Entry.samples.length ∧ (Entry.samples.map (·.name)).Nodup ∧
      Entry.textOf Entry.samples = "B 2(map(int))\t| \u00a0A())" ∧
      simplePorts (Entry.textOf Entry.samples) =
        .ok [{ name := "B 2", dataType := "map(int)", base := 0 }, { name := "A", dataType := ")", base := 1 }] :=
  ⟨by decide, by decide, by decide, simplePorts_grammar.2 Entry.samples (by decide) (by decide)⟩

end Composed

end FlowCompiler
