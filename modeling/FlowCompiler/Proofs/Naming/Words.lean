import FlowCompiler.Compile.Naming
import FlowCompiler.Proofs.Graph.Mentions
import FlowCompiler.Source.Identifier

/-!
# Letters of identifiers

Identifiers are made of names by changing the case of letters. Outside ASCII nearly all letters have their
other case outside ASCII too: the exceptions are dotless `ı` and long `ſ`, whose capitals are `I` and `S`,
and dotted `İ` and the Kelvin sign, whose small letters are `i` and `k`.

Letters are moved to letters and digits are not moved, which is checked on the tables.

Main statements: an identifier is made of letters and digits, and the first of them in the name decides whether it is
one and starts with a capital (`Naming.exported_identifier`); it starts with no small ASCII letter
(`Naming.exported_starts`); and two capitals that are different get the same small letter only if one of them is dotted
`İ` or the Kelvin sign (`Text.toLower_inj`).
-/

namespace FlowCompiler

open List

variable {c x : Char}

namespace Text

/-- Capital `I` with a dot. -/
def dottedI : Char := Char.ofNat 0x130

/-- The sign of the unit Kelvin. -/
def kelvin : Char := Char.ofNat 0x212A

theorem forall_ascii {P : Char → Prop} (h : ∀ n < 128, P (Char.ofNat n)) (hc : c.toNat < 128) : P c := by
  rw [← Char.ofNat_toNat c]
  exact h _ hc

theorem shiftBy_cases (table : List (CodeRange × Int)) (c : Char) :
    shiftBy table c = c ∨ ∃ e ∈ table, (e.1.first ≤ c.toNat ∧ c.toNat ≤ e.1.last) ∧
      shiftBy table c = Char.ofNat (c.toNat + e.2).toNat := by
  unfold shiftBy
  split
  · next e hfind =>
    refine .inr ⟨_, mem_of_find?_eq_some hfind, ?_, rfl⟩
    have hholds := find?_some hfind
    simp only [CodeRange.holds, Bool.and_eq_true, decide_eq_true_eq] at hholds
    exact hholds.1
  · exact .inl rfl

/-- Whether a range of letters is moved to characters outside ASCII. -/
def Far (e : CodeRange × Int) : Prop :=
  128 ≤ e.1.first + e.2 ∧
    (e.1.last + e.2 < 0xD800 ∨ (0xDFFF < e.1.first + e.2 ∧ e.1.last + e.2 < 0x110000))

instance (e : CodeRange × Int) : Decidable (Far e) := inferInstanceAs (Decidable (_ ∧ _))

theorem far_upperShifts : ∀ e ∈ upperShifts,
    Far e ∨ e ∈ [(⟨305, 305, 1⟩, -232), (⟨383, 383, 1⟩, -300)] := by decide +kernel

theorem far_lowerShifts : ∀ e ∈ lowerShifts,
    Far e ∨ e ∈ [(⟨304, 304, 1⟩, -199), (⟨8490, 8490, 1⟩, -8383)] := by decide +kernel

theorem toNat_ofNat_of_far {e : CodeRange × Int} (h : Far e) {n : Nat} (hfirst : e.1.first ≤ n)
    (hlast : n ≤ e.1.last) : 128 ≤ (Char.ofNat (n + e.2).toNat).toNat := by
  obtain ⟨hlow, hvalid⟩ := h
  have hchar : (n + e.2).toNat.isValidChar := hvalid.imp (by omega) (by omega)
  rw [Char.toNat_ofNat, if_pos hchar]
  omega

/-- A character outside ASCII is moved into ASCII by the other ranges only. -/
theorem shiftBy_ascii {table near : List (CodeRange × Int)} (htable : ∀ e ∈ table, Far e ∨ e ∈ near)
    (hc : 128 ≤ c.toNat) (h : (shiftBy table c).toNat < 128) :
    ∃ e ∈ near, (e.1.first ≤ c.toNat ∧ c.toNat ≤ e.1.last) ∧
      shiftBy table c = Char.ofNat (c.toNat + e.2).toNat := by
  rcases shiftBy_cases table c with heq | ⟨e, he, hrange, heq⟩
  · rw [heq] at h
    omega
  · rcases htable e he with hfar | hnear
    · have := toNat_ofNat_of_far hfar hrange.1 hrange.2
      rw [heq] at h
      omega
    · exact ⟨e, hnear, hrange, heq⟩

theorem toUpper_ascii (hc : 128 ≤ c.toNat) (h : (toUpper c).toNat < 128) :
    toUpper c = 'I' ∨ toUpper c = 'S' := by
  have hshift : toUpper c = shiftBy upperShifts c := by rw [toUpper, if_neg (by omega)]
  rw [hshift] at h ⊢
  obtain ⟨e, he, hrange, heq⟩ := shiftBy_ascii far_upperShifts hc h
  simp only [mem_cons, not_mem_nil, or_false] at he
  rcases he with rfl | rfl
  · rw [heq, show c.toNat = 305 by simp only at hrange; omega]
    decide
  · rw [heq, show c.toNat = 383 by simp only at hrange; omega]
    decide

theorem toLower_ascii (hc : 128 ≤ c.toNat) (h : (toLower c).toNat < 128) :
    (c = dottedI ∧ toLower c = 'i') ∨ (c = kelvin ∧ toLower c = 'k') := by
  have hshift : toLower c = shiftBy lowerShifts c := by rw [toLower, if_neg (by omega)]
  rw [hshift] at h ⊢
  obtain ⟨e, he, hrange, heq⟩ := shiftBy_ascii far_lowerShifts hc h
  simp only [mem_cons, not_mem_nil, or_false] at he
  rcases he with rfl | rfl
  · have hn : c.toNat = 304 := by simp only at hrange; omega
    refine .inl ⟨by rw [← Char.ofNat_toNat c, hn]; rfl, ?_⟩
    rw [heq, hn]
    decide
  · have hn : c.toNat = 8490 := by simp only at hrange; omega
    refine .inr ⟨by rw [← Char.ofNat_toNat c, hn]; rfl, ?_⟩
    rw [heq, hn]
    decide

theorem toUpper_of_ascii (hc : c.toNat < 128) : toUpper c = c.toUpper := if_pos hc

theorem toLower_of_ascii (hc : c.toNat < 128) : toLower c = c.toLower := if_pos hc

/-! ### Letters and digits -/

/-- Whether a range lies in another one. -/
def CodeRange.within (r s : CodeRange) : Bool := s.first.ble r.first && r.last.ble s.last

/-- Whether two ranges have no code point in common. -/
def CodeRange.apart (r s : CodeRange) : Bool := r.last.blt s.first || s.last.blt r.first

theorem CodeRange.covers_eq_true {table : List CodeRange} (h : covers table c = true) :
    ∃ r ∈ table, r.first ≤ c.toNat ∧ c.toNat ≤ r.last := by
  obtain ⟨r, hr, hholds⟩ := any_eq_true.mp h
  simp only [holds, Bool.and_eq_true, decide_eq_true_eq] at hholds
  exact ⟨r, hr, hholds.1⟩

/-- Whether letters are moved to letters: to a range of them or into ASCII, or there are none to move. -/
def movesLetters (e : CodeRange × Int) : Bool :=
  letterRanges.any (e.1.shift e.2).within || (e.1.shift e.2).last.blt 128 || letterRanges.all e.1.apart

theorem isLetter_shiftBy {table : List (CodeRange × Int)} (htable : table.all movesLetters = true)
    (hc : 128 ≤ c.toNat) (h : isLetter c = true) (hother : 128 ≤ (shiftBy table c).toNat) :
    isLetter (shiftBy table c) = true := by
  rcases shiftBy_cases table c with heq | ⟨e, he, hrange, heq⟩
  · rwa [heq]
  · have hn : (shiftBy table c).toNat = (c.toNat + e.2).toNat := by
      rw [heq, Char.toNat_ofNat] at hother ⊢
      split
      · rfl
      · next hinvalid =>
        rw [if_neg hinvalid] at hother
        omega
    have hmoves := all_eq_true.mp htable e he
    simp only [movesLetters, Bool.or_eq_true, any_eq_true, all_eq_true, CodeRange.within, CodeRange.apart,
      Bool.and_eq_true, Nat.ble_eq, Nat.blt_eq, CodeRange.shift] at hmoves
    rw [isLetter, if_neg (by omega)] at h ⊢
    obtain (⟨r, hr, hfirst, hlast⟩ | hascii) | hnone := hmoves
    · have hstep : ∀ r ∈ letterRanges, r.step = 1 := by decide +kernel
      refine any_eq_true.mpr ⟨r, hr, ?_⟩
      simp only [CodeRange.holds, hstep r hr, Nat.mod_one, Bool.and_eq_true, decide_eq_true_eq, beq_self_eq_true,
        and_true]
      omega
    · omega
    · obtain ⟨r, hr, hmem⟩ := CodeRange.covers_eq_true h
      have := hnone r hr
      omega

theorem isLetter_toUpper (h : isLetter c = true) : isLetter (toUpper c) = true := by
  by_cases hc : c.toNat < 128
  · rw [toUpper_of_ascii hc]
    exact forall_ascii (P := fun c => isLetter c = true → isLetter c.toUpper = true) (by decide) hc h
  · by_cases hascii : (toUpper c).toNat < 128
    · rcases toUpper_ascii (by omega) hascii with heq | heq <;> rw [heq] <;> rfl
    · rw [toUpper, if_neg hc] at hascii ⊢
      exact isLetter_shiftBy (by decide +kernel) (by omega) h (by omega)

theorem isLetter_toLower (h : isLetter c = true) : isLetter (toLower c) = true := by
  by_cases hc : c.toNat < 128
  · rw [toLower_of_ascii hc]
    exact forall_ascii (P := fun c => isLetter c = true → isLetter c.toLower = true) (by decide) hc h
  · by_cases hascii : (toLower c).toNat < 128
    · rcases toLower_ascii (by omega) hascii with ⟨-, heq⟩ | ⟨-, heq⟩ <;> rw [heq] <;> rfl
    · rw [toLower, if_neg hc] at hascii ⊢
      exact isLetter_shiftBy (by decide +kernel) (by omega) h (by omega)

theorem shiftBy_of_isDigit {table : List (CodeRange × Int)}
    (htable : (table.all fun e => digitRanges.all e.1.apart) = true) (hc : ¬ c.toNat < 128) (h : isDigit c = true) :
    shiftBy table c = c := by
  rcases shiftBy_cases table c with heq | ⟨e, he, hrange, -⟩
  · exact heq
  · rw [isDigit, if_neg hc] at h
    obtain ⟨r, hr, hmem⟩ := CodeRange.covers_eq_true h
    have hapart := all_eq_true.mp (all_eq_true.mp htable e he) r hr
    simp only [CodeRange.apart, Bool.or_eq_true, Nat.blt_eq] at hapart
    omega

/-- Digits have no case. -/
theorem case_of_isDigit (h : isDigit c = true) : toUpper c = c ∧ toLower c = c := by
  by_cases hc : c.toNat < 128
  · rw [toUpper_of_ascii hc, toLower_of_ascii hc]
    exact forall_ascii (P := fun c => isDigit c = true → c.toUpper = c ∧ c.toLower = c) (by decide) hc h
  · rw [toUpper, toLower, if_neg hc, if_neg hc]
    exact ⟨shiftBy_of_isDigit (by decide +kernel) hc h, shiftBy_of_isDigit (by decide +kernel) hc h⟩

/-- The code points of blanks. -/
def blankPoints : List Nat :=
  [9, 10, 11, 12, 13, 32, 0x85, 0xA0, 0x1680, 0x2000, 0x2001, 0x2002, 0x2003, 0x2004, 0x2005, 0x2006, 0x2007,
    0x2008, 0x2009, 0x200A, 0x2028, 0x2029, 0x202F, 0x205F, 0x3000]

theorem mem_blankPoints (h : isBlank c = true) : c.toNat ∈ blankPoints := by
  simp only [isBlank, Bool.or_eq_true, Bool.and_eq_true, decide_eq_true_eq, beq_iff_eq] at h
  simp only [blankPoints, mem_cons, not_mem_nil, or_false]
  omega

theorem toNat_lt_of_isLower (h : c.isLower = true) : c.toNat < 128 := by
  simp only [Char.isLower, Bool.and_eq_true, decide_eq_true_eq] at h
  have := UInt32.le_iff_toNat_le.mp h.2
  exact Nat.lt_of_le_of_lt this (by decide)

theorem toNat_lt_of_isUpper (h : c.isUpper = true) : c.toNat < 128 := by
  simp only [Char.isUpper, decide_eq_true_eq] at h
  have := UInt32.le_iff_toNat_le.mp h.2
  exact Nat.lt_of_le_of_lt this (by decide)

theorem isLower_toUpper (c : Char) : (toUpper c).isLower = false := by
  rcases Nat.lt_or_ge c.toNat 128 with hc | hc
  · rw [toUpper_of_ascii hc]
    exact forall_ascii (P := fun c => c.toUpper.isLower = false) (by decide) hc
  · rw [← Bool.not_eq_true]
    intro hlower
    rcases toUpper_ascii hc (toNat_lt_of_isLower hlower) with h | h <;> rw [h] at hlower <;> cases hlower

theorem toNat_lt_of_isDigit (h : c.isDigit = true) : c.toNat < 128 := by
  simp only [Char.isDigit, Bool.and_eq_true, decide_eq_true_eq] at h
  exact Nat.lt_of_le_of_lt (UInt32.le_iff_toNat_le.mp h.2) (by decide)

theorem isDigit_toUpper (c : Char) : (toUpper c).isDigit = c.isDigit := by
  rcases Nat.lt_or_ge c.toNat 128 with hc | hc
  · rw [toUpper_of_ascii hc]
    exact forall_ascii (P := fun c => c.toUpper.isDigit = c.isDigit) (by decide) hc
  · rw [Bool.eq_iff_iff]
    refine ⟨fun h => ?_, fun h => ?_⟩
    · rcases toUpper_ascii hc (toNat_lt_of_isDigit h) with heq | heq <;> rw [heq] at h <;> cases h
    · have := toNat_lt_of_isDigit h
      omega

theorem toUpper_toLower (hc : c.toNat < 128) (h : c.isLower = false) : (toLower c).toUpper = c := by
  rw [toLower_of_ascii hc]
  exact forall_ascii (P := fun c => c.isLower = false → c.toLower.toUpper = c) (by decide) hc h

/-- Two different capitals have the same small letter only if one of them is dotted `İ` or the Kelvin
sign. -/
theorem toLower_inj {d : Char} (hc : c.isLower = false) (hd : d.isUpper = true) (h : toLower c = toLower d) :
    c = d ∨ (c = dottedI ∧ d = 'I') ∨ (c = kelvin ∧ d = 'K') := by
  have hlt := toNat_lt_of_isUpper hd
  have hback : (toLower c).toUpper = d := by
    rw [h]
    refine toUpper_toLower hlt ?_
    exact forall_ascii (P := fun d => d.isUpper = true → d.isLower = false) (by decide) hlt hd
  rcases Nat.lt_or_ge c.toNat 128 with hascii | hother
  · exact .inl ((toUpper_toLower hascii hc).symm.trans hback)
  · have hsmall : (toLower c).toNat < 128 := by
      rw [h, toLower_of_ascii hlt]
      exact forall_ascii (P := fun d => d.toLower.toNat < 128) (by decide) hlt
    rcases toLower_ascii hother hsmall with ⟨rfl, hi⟩ | ⟨rfl, hk⟩
    · exact .inr (.inl ⟨rfl, by rw [← hback, hi]; rfl⟩)
    · exact .inr (.inr ⟨rfl, by rw [← hback, hk]; rfl⟩)

end Text

/-! ## Words -/

namespace Naming

theorem mem_joinWords {inside : Bool} {cs : List Char} (h : x ∈ joinWords inside cs) :
    ∃ c ∈ cs, isSeparator c = false ∧ (x = Text.toUpper c ∨ x = Text.toLower c) := by
  induction cs generalizing inside with
  | nil => cases h
  | cons c cs ih =>
    unfold joinWords at h
    split at h
    · obtain ⟨d, hd, hcase⟩ := ih h
      exact ⟨d, mem_cons_of_mem c hd, hcase⟩
    · next hsep =>
      rw [Bool.not_eq_true] at hsep
      split at h <;> rcases mem_cons.mp h with rfl | h
      · exact ⟨c, mem_cons_self, hsep, .inr rfl⟩
      · obtain ⟨d, hd, hcase⟩ := ih h
        exact ⟨d, mem_cons_of_mem c hd, hcase⟩
      · exact ⟨c, mem_cons_self, hsep, .inl rfl⟩
      · obtain ⟨d, hd, hcase⟩ := ih h
        exact ⟨d, mem_cons_of_mem c hd, hcase⟩

/-- Characters that identifiers are made of. -/
def isPart (c : Char) : Bool := Text.isLetter c || Text.isDigit c

theorem isSeparator_eq_false (h : isPart c = true) : isSeparator c = false := by
  by_contra hsep
  have hblank : ∀ n ∈ Text.blankPoints, isPart (Char.ofNat n) = false := by decide +kernel
  simp only [isSeparator, Bool.not_eq_false, Bool.or_eq_true, beq_iff_eq] at hsep
  rcases hsep with ((rfl | rfl) | rfl) | hsep
  · cases h
  · cases h
  · cases h
  · have hc := hblank c.toNat (Text.mem_blankPoints hsep)
    rw [Char.ofNat_toNat, h] at hc
    cases hc

/-- The first letter or digit of a name. -/
def initial? (name : String) : Option Char := name.toList.find? isPart

/-- The first word starts with a capital. -/
theorem head?_joinWords (cs : List Char) :
    (joinWords false (cs.map fun c => if isPart c then c else '_')).head? = (cs.find? isPart).map Text.toUpper := by
  induction cs with
  | nil => rfl
  | cons c cs ih =>
    cases hpart : isPart c with
    | true => simp [joinWords, hpart, isSeparator_eq_false hpart]
    | false =>
      rw [find?_cons_of_neg (by simp [hpart]), ← ih, map_cons, if_neg (by simp [hpart])]
      rfl

theorem exported_eq (name : String) :
    exported name = match joinWords false (name.toList.map fun c => if isPart c then c else '_') with
      | [] => "X"
      | c :: rest => if c.isDigit then String.ofList ('X' :: c :: rest) else String.ofList (c :: rest) := rfl

/-- An identifier starts with the capital of the first letter or digit, or with `X`. -/
theorem exported_cons (name : String) :
    ∃ first rest, (exported name).toList = first :: rest ∧
      ((∀ c ∈ initial? name, c.isDigit = true) ∧ first = 'X' ∨
        ∃ c, initial? name = some c ∧ c.isDigit = false ∧ first = Text.toUpper c) := by
  have hhead : _ = (initial? name).map _ := head?_joinWords name.toList
  rw [exported_eq]
  split
  · next hwords =>
    rw [hwords] at hhead
    exact ⟨'X', [], rfl, .inl ⟨by simp [Option.map_eq_none_iff.mp hhead.symm], rfl⟩⟩
  · next x rest hwords =>
    rw [hwords] at hhead
    obtain ⟨c, hc, rfl⟩ := Option.map_eq_some_iff.mp hhead.symm
    split
    · next hdigit =>
      rw [Text.isDigit_toUpper] at hdigit
      exact ⟨'X', _, String.toList_ofList, .inl ⟨by simpa [hc] using hdigit, rfl⟩⟩
    · next hdigit =>
      rw [Text.isDigit_toUpper, Bool.not_eq_true] at hdigit
      exact ⟨_, rest, String.toList_ofList, .inr ⟨c, hc, hdigit, rfl⟩⟩

/-- An identifier is made of letters and digits. -/
theorem mem_exported {name : String} (h : x ∈ (exported name).toList) : isPart x = true := by
  have hwords : x = 'X' ∨ x ∈ joinWords false (name.toList.map fun c => if isPart c then c else '_') := by
    rw [exported_eq] at h
    split at h
    · exact .inl (mem_singleton.mp h)
    · next c rest hwords =>
      rw [hwords]
      split at h
      · rw [String.toList_ofList] at h
        exact mem_cons.mp h
      · rw [String.toList_ofList] at h
        exact .inr h
  rcases hwords with rfl | hmem
  · rfl
  · obtain ⟨d, hd, hsep, hx⟩ := mem_joinWords hmem
    obtain ⟨c, -, rfl⟩ := mem_map.mp hd
    split at hsep
    · next hpart =>
      rw [if_pos hpart] at hx
      rcases Bool.or_eq_true _ _ ▸ hpart with hletter | hdigit
      · rcases hx with rfl | rfl
        · simp [isPart, Text.isLetter_toUpper hletter]
        · simp [isPart, Text.isLetter_toLower hletter]
      · obtain ⟨hupper, hlower⟩ := Text.case_of_isDigit hdigit
        rw [hupper, hlower, or_self] at hx
        rwa [hx]
    · cases hsep

theorem notMem_exported (name : String) (hascii : x.toNat < 128) (hx : x.isAlphanum = false) :
    x ∉ (exported name).toList := by
  intro hmem
  have hpart : (x.isAlpha || x.isDigit) = true := by
    simpa [isPart, Text.isLetter, Text.isDigit, hascii] using mem_exported hmem
  exact Bool.false_ne_true (hx.symm.trans hpart)

theorem underscore_notMem_exported (name : String) : '_' ∉ (exported name).toList :=
  notMem_exported name (by decide) rfl

theorem toNat_lt_of_isNameChar (h : isNameChar c = true) : c.toNat < 128 := by
  simp only [isNameChar, Char.isAlphanum, Char.isAlpha, Bool.or_eq_true, beq_iff_eq] at h
  rcases h with (((h | h) | h) | rfl) | rfl
  · exact Text.toNat_lt_of_isUpper h
  · exact Text.toNat_lt_of_isLower h
  · exact Text.toNat_lt_of_isDigit h
  · decide
  · decide

/-- An identifier starts with no small ASCII letter, and with an ASCII capital if the name is one that a
flow text can have. -/
theorem exported_starts (name : String) :
    ∃ c rest, (exported name).toList = c :: rest ∧ c.isLower = false ∧
      (IsName name → c.isUpper = true) := by
  obtain ⟨first, rest, heq, ⟨-, rfl⟩ | ⟨c, hc, hdigit, rfl⟩⟩ := exported_cons name
  · exact ⟨'X', rest, heq, rfl, fun _ => rfl⟩
  · refine ⟨_, rest, heq, Text.isLower_toUpper c, fun hname => ?_⟩
    have hlt := toNat_lt_of_isNameChar (hname.2 c (mem_of_find?_eq_some hc))
    rw [Text.toUpper_of_ascii hlt]
    exact Text.forall_ascii (P := fun c => isPart c = true → c.isDigit = false → c.toUpper.isUpper = true)
      (by decide) hlt (find?_some hc) hdigit

/-- Only the first character decides whether it is an identifier of the target language. -/
theorem isIdentifier_exported {name : String} {rest : List Char} (h : (exported name).toList = x :: rest) :
    Source.isIdentifier (exported name) = Text.isLetter x := by
  have hscore : x ≠ '_' := fun hx => underscore_notMem_exported name (h ▸ hx ▸ mem_cons_self)
  have hrest : ∀ y ∈ rest, Text.isWord y = true := by
    intro y hy
    have hpart : isPart y = true := mem_exported (h ▸ mem_cons_of_mem x hy)
    rw [Text.isWord, Bool.or_assoc, show (Text.isLetter y || Text.isDigit y) = true from hpart, Bool.or_true]
  have hkeyword : exported name ∉ Source.keywords := by
    have hsmall : ∀ k ∈ Source.keywords, (k.toList.head?.any Char.isLower) = true :=
      all_eq_true.mp (by decide)
    obtain ⟨c, _, heq, hlower, -⟩ := exported_starts name
    intro hmem
    have hfirst := hsmall _ hmem
    rw [heq, head?_cons, Option.any_some, hlower] at hfirst
    cases hfirst
  have hall : rest.all Text.isWord = true := all_eq_true.mpr hrest
  simp only [Source.isIdentifier, h, Source.startsIdentifier, beq_false_of_ne hscore, hall]
  simp [hkeyword]

/-- The identifier for a name is not empty and made of letters and digits, without underscores. It is one of the target
language exactly if the name does not start, other characters aside, with a digit outside ASCII, and it starts with a
capital exactly if what the name starts with is an ASCII digit or has a capital. -/
theorem exported_identifier (name : String) :
    exported name ≠ "" ∧ (∀ c ∈ (exported name).toList, isPart c = true) ∧ '_' ∉ (exported name).toList ∧
    (Source.isIdentifier (exported name) = true ↔
      ∀ c ∈ initial? name, c.isDigit = true ∨ Text.isLetter c = true) ∧
    ((∃ c ∈ (exported name).toList.head?, Text.isUpper c = true) ↔
      ∀ c ∈ initial? name, c.isDigit = true ∨ Text.isUpper (Text.toUpper c) = true) := by
  obtain ⟨first, rest, heq, hfirst⟩ := exported_cons name
  refine ⟨fun hempty => ?_, fun c => mem_exported, underscore_notMem_exported name, ?_, ?_⟩
  · rw [hempty] at heq
    cases heq
  · rw [isIdentifier_exported heq]
    obtain ⟨hdigits, rfl⟩ | ⟨c, hc, hdigit, rfl⟩ := hfirst
    · exact ⟨fun _ c hc => .inl (hdigits c hc), fun _ => rfl⟩
    · simp only [hc, hdigit, Option.mem_def, Option.some.injEq, forall_eq', Bool.false_eq_true, false_or]
      refine ⟨fun hletter => ?_, Text.isLetter_toUpper⟩
      by_contra hnot
      have hpart : isPart c = true := find?_some hc
      rw [isPart, Bool.or_eq_true] at hpart
      rw [(Text.case_of_isDigit (hpart.resolve_left hnot)).1] at hletter
      exact hnot hletter
  · rw [heq]
    obtain ⟨hdigits, rfl⟩ | ⟨c, hc, hdigit, rfl⟩ := hfirst
    · exact ⟨fun _ c hc => .inl (hdigits c hc), fun _ => ⟨'X', rfl, rfl⟩⟩
    · simp [hc, hdigit]

/-- A digit outside ASCII stays in front, and so does a letter without a capital. -/
theorem exported_not_identifier :
    exported "٣" = "٣" ∧ Source.isIdentifier (exported "٣") = false ∧
      exported "日本" = "日本" ∧ Text.isUpper '日' = false := by
  decide +kernel

end Naming

end FlowCompiler
