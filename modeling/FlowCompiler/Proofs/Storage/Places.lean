import FlowCompiler.Storage.Basic
import Mathlib

/-!
# Paths and the places that they lead to

A path leads to a place by walking its parts in the storage, and it has an absolute form by cleaning it as
a text. The two agree on every path that can be walked, whatever `.`, `..` and slashes it has, as long as
the path of the working directory leads to it (`Storage.Settled`).

Main statement: `Storage.locate_absolute`. The absolute form of a path that leads to a place is the path of
that place, and it leads there too. So files are the same exactly if the absolute forms of their paths are
(`read_absolute`), and there are no more of these than there are stored items (`absolute_mem_paths`).
-/

namespace FlowCompiler

open List

variable {l l' : Location} {part path text : String}

namespace Path

/-- The path of a place. -/
def ofPlace (l : Location) : String := "/" ++ "/".intercalate l

/-- Whether a part of a path is a name, which leads to a place of its own. -/
structure IsName (part : String) : Prop where
  ne_empty : part ≠ ""
  ne_dot : part ≠ "."
  ne_up : part ≠ ".."
  slashless : '/' ∉ part.toList

theorem isAbsolute_slash (t : String) : isAbsolute ("/" ++ t) = true := by
  simp [isAbsolute]

theorem parts_append (a b : String) : parts (a ++ "/" ++ b) = parts a ++ parts b := by
  have hslash : "/".toList = ['/'] := rfl
  simp only [parts, String.toList_append, hslash, append_assoc, cons_append, nil_append,
    splitOn_append_cons_self, map_append]

theorem slashless_of_mem_splitOn {xs cs : List Char} (h : cs ∈ xs.splitOn '/') : '/' ∉ cs := by
  induction xs generalizing cs with
  | nil =>
    simp only [List.splitOn, splitOnP_nil, mem_singleton] at h
    simp [h]
  | cons x xs ih =>
    rw [splitOn_cons_eq_if_modifyHead] at h
    by_cases hx : x = '/'
    · rw [if_pos (by simpa using hx)] at h
      rcases mem_cons.mp h with rfl | h
      · simp
      · exact ih h
    · rw [if_neg (by simpa using hx)] at h
      cases hsplit : List.splitOn '/' xs with
      | nil => simp [hsplit] at h
      | cons first rest =>
        rw [hsplit] at ih h
        rcases mem_cons.mp h with rfl | h
        · simp only [mem_cons, not_or]
          exact ⟨Ne.symm hx, ih mem_cons_self⟩
        · exact ih (mem_cons_of_mem _ h)

theorem slashless_of_mem_parts (h : part ∈ parts path) : '/' ∉ part.toList := by
  obtain ⟨cs, hcs, rfl⟩ := mem_map.mp h
  rw [String.toList_ofList]
  exact slashless_of_mem_splitOn hcs

/-- The parts of the path of a place are its names, after an empty one for the root. -/
theorem parts_ofPlace (hl : ∀ name ∈ l, IsName name) (hne : l ≠ []) : parts (ofPlace l) = "" :: l := by
  have hslash : "/".toList = ['/'] := rfl
  have hnames : ∀ cs ∈ l.map String.toList, '/' ∉ cs := by
    intro cs hcs
    obtain ⟨name, hname, rfl⟩ := mem_map.mp hcs
    exact (hl name hname).slashless
  have hsplit : List.splitOn '/' (['/'].intercalate (l.map String.toList)) = l.map String.toList :=
    splitOn_intercalate _ hnames (by simpa using hne)
  have hofList : String.ofList ∘ String.toList = id := by
    funext s
    exact String.ofList_toList
  rw [parts, ofPlace, String.toList_append, String.toList_intercalate, hslash, singleton_append,
    splitOn_cons_eq_if_modifyHead, if_pos (by rfl), hsplit, map_cons, map_map, hofList,
    map_id]

end Path

namespace Storage

variable {s : Storage}

/-- Whether a place is there to be walked to: all places above it are directories, and names lead from
each to the next. -/
inductive Reached (s : Storage) : Location → Prop where
  | root : Reached s []
  | child {l : Location} {name : String} (above : Reached s l) (directory : s.item? l = some .directory)
      (isName : Path.IsName name) : Reached s (l ++ [name])

theorem Reached.dropLast (h : s.Reached l) : s.Reached l.dropLast := by
  cases h with
  | root => exact .root
  | child above _ _ => simpa using above

theorem Reached.isName (h : s.Reached l) : ∀ name ∈ l, Path.IsName name := by
  induction h with
  | root => simp
  | child _ _ isName ih =>
    intro name hname
    rcases mem_append.mp hname with hname | hname
    · exact ih name hname
    · rwa [mem_singleton.mp hname]

theorem enter_eq_ok (h : s.enter l part = .ok l') :
    s.item? l = some .directory ∧
      l' = if part = "" ∨ part = "." then l else if part = ".." then l.dropLast else l ++ [part] := by
  unfold enter at h
  split at h
  · cases h
  · cases h
  · next hitem =>
    refine ⟨hitem, ?_⟩
    split at h
    · next hstay =>
      cases h
      rw [if_pos hstay]
    · next hstay =>
      rw [if_neg hstay]
      split at h <;> cases h <;> simp_all

/-- One part of a path: the walk and the cleaning do the same. -/
theorem enter_step (hl : s.Reached l) (hslash : '/' ∉ part.toList) (h : s.enter l part = .ok l') :
    s.Reached l' ∧ Path.step true l.reverse part = l'.reverse := by
  obtain ⟨hitem, rfl⟩ := enter_eq_ok h
  unfold Path.step
  by_cases hstay : part = "" ∨ part = "."
  · simpa only [if_pos hstay, and_true] using hl
  · by_cases hup : part = ".."
    · simp only [if_neg hstay, if_pos hup]
      refine ⟨hl.dropLast, ?_⟩
      cases hl with
      | root => rfl
      | child above _ isName => simp [isName.ne_up]
    · simp only [if_neg hstay, if_neg hup]
      have hname : Path.IsName part := ⟨fun h => hstay (.inl h), fun h => hstay (.inr h), hup, hslash⟩
      exact ⟨hl.child hitem hname, by simp⟩

theorem walk_steps {parts : List String} (hl : s.Reached l) (hslash : ∀ part ∈ parts, '/' ∉ part.toList)
    (h : s.walk l parts = .ok l') : s.Reached l' ∧ parts.foldl (Path.step true) l.reverse = l'.reverse := by
  induction parts generalizing l with
  | nil =>
    cases h
    exact ⟨hl, rfl⟩
  | cons part parts ih =>
    unfold walk at h
    split at h
    · next l₁ henter =>
      obtain ⟨hl₁, hstep⟩ := enter_step hl (hslash part (by simp)) henter
      obtain ⟨hl', hfold⟩ := ih hl₁ (fun p hp => hslash p (by simp [hp])) h
      exact ⟨hl', by rw [foldl_cons, hstep, hfold]⟩
    · cases h

/-- Whether the path of the working directory leads to it. -/
def Settled (s : Storage) : Prop := s.locate s.workingPath = .ok s.working

instance (s : Storage) : Decidable s.Settled := inferInstanceAs (Decidable (_ = _))

theorem workingPath_eq (s : Storage) : s.workingPath = Path.ofPlace s.working := rfl

theorem locate_of_isAbsolute (hpath : Path.isAbsolute path = true) (h : s.locate path = .ok l) :
    s.Reached l ∧ Path.clean path = Path.ofPlace l := by
  unfold locate at h
  rw [if_pos hpath] at h
  split at h
  · cases h
  · obtain ⟨hl, hfold⟩ := walk_steps .root (fun _ => Path.slashless_of_mem_parts) h
    refine ⟨hl, ?_⟩
    have hclean : Path.cleanParts path = l := by
      rw [Path.cleanParts, hpath]
      exact reverse_eq_iff.mpr hfold
    simp only [Path.clean, hpath, hclean, if_true, Path.ofPlace]

/-- Walking the names of a place from the root leads to it, whatever parts come after them. -/
theorem Reached.walk (h : s.Reached l) (more : List String) : s.walk [] (l ++ more) = s.walk l more := by
  induction h generalizing more with
  | root => rfl
  | @child l name above directory isName ih =>
    have henter : s.enter l name = .ok (l ++ [name]) := by
      simp [enter, directory, isName.ne_empty, isName.ne_dot, isName.ne_up]
    rw [append_assoc, ih, singleton_append, Storage.walk, henter]

/-- The path of a place that can be walked to leads there. -/
theorem Reached.locate (h : s.Reached l) : s.locate (Path.ofPlace l) = .ok l := by
  have hrooted : Path.isAbsolute (Path.ofPlace l) = true := Path.isAbsolute_slash _
  have hne : Path.ofPlace l ≠ "" := by
    intro h0
    rw [h0] at hrooted
    cases hrooted
  rw [Storage.locate, if_neg hne, if_pos hrooted]
  by_cases hl : l = []
  · subst hl
    rfl
  · have hwalk := h.walk []
    rw [append_nil] at hwalk
    rw [Path.parts_ofPlace h.isName hl]
    exact hwalk

/-- The absolute form of a path that leads to a place is the path of the place, and leads there. -/
theorem locate_absolute (hs : s.Settled) (h : s.locate path = .ok l) :
    s.absolute path = Path.ofPlace l ∧ s.locate (s.absolute path) = .ok l := by
  suffices hmain : s.Reached l ∧ s.absolute path = Path.ofPlace l from
    ⟨hmain.2, hmain.2 ▸ hmain.1.locate⟩
  unfold absolute Path.absolute
  by_cases hpath : Path.isAbsolute path = true
  · rw [if_pos hpath]
    exact locate_of_isAbsolute hpath h
  · rw [if_neg hpath]
    have hne : path ≠ "" := by
      rintro rfl
      simp [locate] at h
    have hworking : s.workingPath ≠ "" := by
      intro h0
      rw [Settled, h0] at hs
      simp [locate] at hs
    rw [Path.join, if_neg (fun hj => hne hj.2), if_neg hworking, if_neg hne]
    have hrooted : Path.isAbsolute (s.workingPath ++ "/" ++ path) = true := by
      rw [workingPath_eq, Path.ofPlace, String.append_assoc, String.append_assoc]
      exact Path.isAbsolute_slash _
    -- The parts of the working directory's path come first; the walk of `path` goes on where they end.
    obtain ⟨hreached, hfirst⟩ : s.Reached s.working ∧
        (Path.parts s.workingPath).foldl (Path.step true) [] = s.working.reverse := by
      rw [Settled, locate, if_neg hworking, workingPath_eq, Path.ofPlace,
        if_pos (Path.isAbsolute_slash _)] at hs
      exact walk_steps .root (fun _ => Path.slashless_of_mem_parts) hs
    rw [locate, if_neg hne, if_neg hpath] at h
    obtain ⟨hl, hrest⟩ := walk_steps hreached (fun _ => Path.slashless_of_mem_parts) h
    refine ⟨hl, ?_⟩
    have hclean : Path.cleanParts (s.workingPath ++ "/" ++ path) = l := by
      rw [Path.cleanParts, hrooted, Path.parts_append, foldl_append, hfirst, hrest,
        reverse_reverse]
    simp only [Path.clean, hrooted, hclean, if_true, Path.ofPlace]

theorem read_eq_ok (h : s.read path = .ok text) :
    ∃ l mode, s.locate path = .ok l ∧ s.item? l = some (.file text mode) := by
  unfold read open? lookup at h
  cases hl : s.locate path with
  | error e => simp [hl] at h
  | ok l =>
    simp only [hl] at h
    cases hi : s.item? l with
    | none => simp [hi] at h
    | some i =>
      cases i with
      | directory => simp [hi] at h
      | file t mode =>
        simp only [hi] at h
        cases h
        exact ⟨l, mode, rfl, hi⟩

/-- A file can be read by the absolute form of its path. -/
theorem read_absolute (hs : s.Settled) (h : s.read path = .ok text) :
    s.read (s.absolute path) = .ok text := by
  obtain ⟨l, mode, hl, hi⟩ := read_eq_ok h
  simp [read, open?, lookup, (locate_absolute hs hl).2, hi]

/-- The paths of the places at which something is stored. -/
def paths (s : Storage) : Finset String := (s.items.map fun item => Path.ofPlace item.1).toFinset

theorem card_paths_le (s : Storage) : s.paths.card ≤ s.items.length := by
  have h := toFinset_card_le (s.items.map fun item => Path.ofPlace item.1)
  rwa [length_map] at h

theorem absolute_mem_paths (hs : s.Settled) (h : s.read path = .ok text) : s.absolute path ∈ s.paths := by
  obtain ⟨l, mode, hl, hi⟩ := read_eq_ok h
  rw [(locate_absolute hs hl).1, paths, mem_toFinset, mem_map]
  unfold item? at hi
  split at hi
  · cases hi
  · obtain ⟨item, hfind, -⟩ := Option.map_eq_some_iff.mp hi
    have hplace : item.1 = l := by simpa using find?_some hfind
    exact ⟨item, mem_of_find?_eq_some hfind, by rw [hplace]⟩

end Storage

end FlowCompiler
