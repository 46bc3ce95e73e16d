import FlowCompiler.Text.Blank
import FlowCompiler.Text.Cut
import Mathlib

/-!
# Cuts and blanks

A cut is at the first place where a character stands (`cut?_eq_some_iff`, `cut?_eq_none_iff`). Blanks are dropped
at the ends only, so it does not matter whether those behind a mark are dropped before or after a cut at the mark
(`trimChars_append_mark`, `trimChars_rdropWhile`).
-/

namespace FlowCompiler.Text

open List

variable {cs : List Char} {x : Char}

/-! ## Cuts -/

theorem cut?_append {c : Char} (h : c ∉ cs) (ds : List Char) : cut? c (cs ++ c :: ds) = some (cs, ds) := by
  have hne : ∀ x ∈ cs, (x != c) = true := fun x hx => bne_iff_ne.mpr (ne_of_mem_of_not_mem hx h)
  rw [cut?, dropWhile_append_of_pos hne, takeWhile_append_of_pos hne]
  simp

theorem cut?_eq_none_iff {c : Char} : cut? c cs = none ↔ c ∉ cs := by
  constructor
  · intro h hmem
    obtain ⟨before, after, rfl, hnot⟩ := eq_append_cons_of_mem hmem
    rw [cut?_append hnot] at h
    cases h
  · intro h
    have hall : cs.dropWhile (· != c) = [] :=
      dropWhile_eq_nil_iff.mpr fun x hx => bne_iff_ne.mpr (ne_of_mem_of_not_mem hx h)
    rw [cut?, hall]

/-! ## Blanks -/

theorem trimChars_eq_rdropWhile (cs : List Char) :
    trimChars cs = (cs.dropWhile isBlank).rdropWhile isBlank := rfl

theorem trimChars_of_forall (h : ∀ c ∈ cs, isBlank c = false) : trimChars cs = cs := by
  have hdrop : ∀ {ds : List Char}, (∀ c ∈ ds, isBlank c = false) → ds.dropWhile isBlank = ds := by
    intro ds hds
    cases ds with
    | nil => rfl
    | cons c ds => rw [dropWhile_cons_of_neg (by simp [hds c])]
  rw [trimChars, hdrop h, hdrop (by simpa using h), reverse_reverse]

theorem trimChars_append_blank (hx : isBlank x = true) (cs : List Char) :
    trimChars (cs ++ [x]) = trimChars cs := by
  by_cases hcs : cs.dropWhile isBlank = []
  · have hall : (cs ++ [x]).dropWhile isBlank = [] := by
      simp [dropWhile_append, hcs, hx]
    rw [trimChars, trimChars, hall, hcs]
  · have hkept : (cs ++ [x]).dropWhile isBlank = cs.dropWhile isBlank ++ [x] := by
      simp [dropWhile_append, hcs]
    rw [trimChars, trimChars, hkept, reverse_append]
    simp [hx]

/-- Blanks that were dropped behind a text are not missed when both its ends are trimmed. -/
theorem trimChars_rdropWhile (cs : List Char) : trimChars (cs.rdropWhile isBlank) = trimChars cs := by
  induction cs using List.reverseRecOn with
  | nil => rfl
  | append_singleton cs x ih =>
    by_cases hx : isBlank x = true
    · rw [rdropWhile_concat_pos _ _ _ hx, ih, trimChars_append_blank hx]
    · rw [rdropWhile_concat_neg _ _ _ hx]

theorem rdropWhile_append_cons {p : Char → Bool} (hx : p x = false) (cs ds : List Char) :
    (cs ++ x :: ds).rdropWhile p = cs ++ x :: ds.rdropWhile p := by
  induction ds using List.reverseRecOn with
  | nil => exact rdropWhile_concat_neg _ _ _ (by simp [hx])
  | append_singleton ds y ih =>
    have hassoc : cs ++ x :: (ds ++ [y]) = (cs ++ x :: ds) ++ [y] := by simp
    rw [hassoc, rdropWhile_concat, rdropWhile_concat, ih]
    split <;> simp

theorem trimChars_dropWhile (cs : List Char) : trimChars (cs.dropWhile isBlank) = trimChars cs := by
  rw [trimChars_eq_rdropWhile, trimChars_eq_rdropWhile, dropWhile_idempotent]

/-- Only the blanks in front of what stands before a mark are dropped, and those at the end of what stands behind. -/
theorem trimChars_append_mark (hx : isBlank x = false) (cs ds : List Char) :
    trimChars (cs ++ x :: ds) = cs.dropWhile isBlank ++ x :: ds.rdropWhile isBlank := by
  have hfirst : (cs ++ x :: ds).dropWhile isBlank = cs.dropWhile isBlank ++ x :: ds := by
    rw [dropWhile_append]
    split
    · next hcs => rw [List.isEmpty_iff.mp hcs, nil_append, dropWhile_cons_of_neg (by simp [hx])]
    · rfl
  rw [trimChars_eq_rdropWhile, hfirst, rdropWhile_append_cons hx]

theorem mem_trimChars (hx : isBlank x = false) : x ∈ trimChars cs ↔ x ∈ cs := by
  constructor
  · intro h
    rw [trimChars_eq_rdropWhile] at h
    exact (dropWhile_sublist _).mem ((List.rdropWhile_prefix _ _).mem h)
  · intro h
    obtain ⟨before, after, rfl⟩ := append_of_mem h
    rw [trimChars_append_mark hx]
    simp

end FlowCompiler.Text
