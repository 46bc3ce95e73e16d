import FlowCompiler.Proofs.Naming.Words

/-!
# Names with numbers

Names that have to be distinct are asked for one after the other, with counts of how often each was asked
for. `Naming.Gives c c' names` says that `names` were given while the counts went from `c` to `c'`. A name
that is asked for has no underscore, so that what is given tells the name and its number
(`Naming.numbered_inj`), and the numbers given for a name lie beyond those given before. Hence all names
given are distinct, in any order (`Naming.Gives.trans`, `Naming.Gives.perm`).
-/

namespace FlowCompiler.Naming

open List

/-- What is given for a name that is asked for the `n`-th time. -/
def numbered (name : String) (n : Nat) : String := if 1 < n then s!"{name}_{n}" else name

theorem toList_numbered (name : String) (n : Nat) :
    (numbered name n).toList =
      name.toList ++ if 1 < n then '_' :: n.repr.toList else [] := by
  unfold numbered
  split
  · change (name ++ "_" ++ n.repr).toList = _
    simp only [String.toList_append, append_assoc]
    rfl
  · exact (append_nil _).symm

theorem notMem_repr (n : Nat) {x : Char} (hx : x.isDigit = false) : x ∉ n.repr.toList := by
  rw [Nat.toList_repr]
  intro h
  rw [Nat.isDigit_of_mem_toDigits (by decide) (by decide) h] at hx
  cases hx

theorem underscore_notMem_repr (n : Nat) : '_' ∉ n.repr.toList := notMem_repr n rfl

theorem notMem_numbered {name : String} {x : Char} (hname : x ∉ name.toList) (hscore : x ≠ '_')
    (hx : x.isDigit = false) (n : Nat) : x ∉ (numbered name n).toList := by
  rw [toList_numbered]
  split
  · simp only [mem_append, mem_cons, not_or]
    exact ⟨hname, hscore, notMem_repr n hx⟩
  · rwa [append_nil]

/-- What is given tells the name and its number. -/
theorem numbered_inj {a b : String} {m n : Nat} (ha : '_' ∉ a.toList) (hb : '_' ∉ b.toList)
    (hm : 0 < m) (hn : 0 < n) (h : numbered a m = numbered b n) : a = b ∧ m = n := by
  have hl := congrArg String.toList h
  rw [toList_numbered, toList_numbered] at hl
  split at hl <;> split at hl
  · obtain ⟨hab, -, hmn⟩ := (append_cons_inj_of_notMem ha (underscore_notMem_repr m)).mp hl
    exact ⟨String.toList_inj.mp hab, Nat.repr_injective (String.toList_inj.mp hmn)⟩
  · rw [append_nil] at hl
    exact absurd (hl ▸ mem_append_right _ mem_cons_self) hb
  · rw [append_nil] at hl
    exact absurd (hl ▸ mem_append_right _ mem_cons_self) ha
  · rw [append_nil, append_nil] at hl
    exact ⟨String.toList_inj.mp hl, by omega⟩

/-! ## Counts -/

theorem lookup_filter_of_ne {counts : Counts} {name other : String} (h : other ≠ name) :
    (counts.filter (·.1 != name)).lookup other = counts.lookup other := by
  induction counts with
  | nil => rfl
  | cons e counts ih =>
    obtain ⟨key, n⟩ := e
    by_cases hkey : key = name
    · rw [filter_cons_of_neg (by simp [hkey]), ih, lookup_cons, hkey, beq_false_of_ne h]
    · rw [filter_cons_of_pos (by simp [hkey]), lookup_cons, lookup_cons, ih]

theorem count_take_self (counts : Counts) (name : String) :
    (counts.take name).1.count name = counts.count name + 1 := by
  simp [Counts.take, Counts.count]

theorem count_take_of_ne (counts : Counts) {name other : String} (h : other ≠ name) :
    (counts.take name).1.count other = counts.count other := by
  simp only [Counts.take, Counts.count, lookup_cons, beq_false_of_ne h, lookup_filter_of_ne h]

/-- The names that are given while counts go from `c` to `c'`. -/
structure Gives (c c' : Counts) (names : List String) : Prop where
  grows : ∀ name, c.count name ≤ c'.count name
  numbers : ∀ given ∈ names, ∃ name n, '_' ∉ name.toList ∧ c.count name < n ∧ n ≤ c'.count name ∧
    given = numbered name n
  nodup : names.Nodup

namespace Gives

variable {c c' c'' : Counts} {names names' : List String}

theorem nothing (c : Counts) : Gives c c [] :=
  ⟨fun _ => le_rfl, fun _ h => absurd h not_mem_nil, nodup_nil⟩

theorem take (c : Counts) {name : String} (hname : '_' ∉ name.toList) :
    Gives c (c.take name).1 [(c.take name).2] := by
  refine ⟨fun other => ?_, fun given hgiven => ?_, nodup_singleton _⟩
  · by_cases h : other = name
    · rw [h, count_take_self]
      exact Nat.le_succ _
    · rw [count_take_of_ne c h]
  · refine ⟨name, c.count name + 1, hname, Nat.lt_succ_self _, ?_, mem_singleton.mp hgiven⟩
    rw [count_take_self]

/-- Names that are given later have greater numbers. -/
theorem trans (h : Gives c c' names) (h' : Gives c' c'' names') : Gives c c'' (names ++ names') := by
  refine ⟨fun name => (h.grows name).trans (h'.grows name), fun given hgiven => ?_, ?_⟩
  · rcases mem_append.mp hgiven with hgiven | hgiven
    · obtain ⟨name, n, hname, hlow, hhigh, heq⟩ := h.numbers given hgiven
      exact ⟨name, n, hname, hlow, hhigh.trans (h'.grows name), heq⟩
    · obtain ⟨name, n, hname, hlow, hhigh, heq⟩ := h'.numbers given hgiven
      exact ⟨name, n, hname, (h.grows name).trans_lt hlow, hhigh, heq⟩
  · refine nodup_append.mpr ⟨h.nodup, h'.nodup, ?_⟩
    rintro given hgiven _ hgiven' rfl
    obtain ⟨a, m, ha, hpos, hm, heq⟩ := h.numbers given hgiven
    obtain ⟨b, n, hb, hn, -, heq'⟩ := h'.numbers given hgiven'
    obtain ⟨rfl, rfl⟩ := numbered_inj ha hb (by omega) (by omega) (heq.symm.trans heq')
    omega

theorem perm (h : Gives c c' names) (hperm : names.Perm names') : Gives c c' names' :=
  ⟨h.grows, fun given hgiven => h.numbers given (hperm.mem_iff.mpr hgiven), hperm.nodup_iff.mp h.nodup⟩

end Gives

end FlowCompiler.Naming
