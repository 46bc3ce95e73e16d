import FlowCompiler.Text.Octets
import Mathlib

/-!
# Characters kept as bytes

A text of characters alone is kept as it is, except for the last block of code points, whose characters are
kept as their bytes (`keep`). The bytes of such a text form the same characters again.

Main statement: `shownChars_keep`. A text is shown as the characters that it was received with, so no two
texts are received as the same (`keep_injective`).
-/

namespace FlowCompiler.Text

open List

/-- How characters are kept. -/
def keep (cs : List Char) : List Char := cs.flatMap fun c => Rune.kept (.char c)

@[simp] theorem keep_nil : keep [] = [] := rfl

theorem keep_cons (c : Char) (cs : List Char) : keep (c :: cs) = Rune.kept (.char c) ++ keep cs := rfl

theorem keep_append (cs ds : List Char) : keep (cs ++ ds) = keep cs ++ keep ds := flatMap_append

theorem kept_of_not_isStray {c : Char} (h : isStray c = false) : Rune.kept (.char c) = [c] := by
  simp [Rune.kept, h]

theorem keep_of_not_isStray {cs : List Char} (h : cs.any isStray = false) : keep cs = cs := by
  induction cs with
  | nil => rfl
  | cons c cs ih =>
    rw [any_cons, Bool.or_eq_false_iff] at h
    rw [keep_cons, kept_of_not_isStray h.1, ih h.2, singleton_append]

theorem toList_received (s : String) : (received s).toList = keep s.toList := by
  unfold received
  split
  · rw [String.toList_ofList, keep]
  · next h => rw [keep_of_not_isStray (by simpa using h)]

/-! ## The bytes of a character -/

theorem scalar?_toNat (c : Char) : scalar? c.toNat = some c := by
  have hvalid : c.toNat < 0xD800 ∨ (0xDFFF < c.toNat ∧ c.toNat < 0x110000) := c.valid
  rw [scalar?, if_pos hvalid, Char.ofNat_toNat]

theorem toNat_lt (c : Char) : c.toNat < 0x110000 := by
  have hvalid : c.toNat < 0xD800 ∨ (0xDFFF < c.toNat ∧ c.toNat < 0x110000) := c.valid
  omega

theorem encodePoint_ne_nil (n : Nat) : encodePoint n ≠ [] := by
  unfold encodePoint
  split_ifs <;> simp

theorem lt_of_mem_encodePoint {c : Char} {b : Nat} (h : b ∈ encodePoint c.toNat) : b < 256 := by
  have hc := toNat_lt c
  unfold encodePoint at h
  split_ifs at h <;> simp only [mem_cons, not_mem_nil, or_false] at h <;> omega

theorem one_eq_none {a : Nat} (h : 0x80 ≤ a) : leadingChar?.one a = none := by
  simp [leadingChar?.one, h]

theorem two_eq_none {a : Nat} (h : 0xE0 ≤ a) (b : Nat) : leadingChar?.two a b = none := by
  simp [leadingChar?.two, h]

theorem three_eq_none {a : Nat} (h : 0xF0 ≤ a) (b c : Nat) : leadingChar?.three a b c = none := by
  simp [leadingChar?.three, h]

theorem isTail_add (n : Nat) : isTail (0x80 + n % 64) = true := by
  have := Nat.mod_lt n (show 0 < 64 by decide)
  simp only [isTail, Bool.and_eq_true, decide_eq_true_eq]
  omega

/-- The bytes of a character are read as that character, whatever follows them. -/
theorem leadingChar?_encodePoint (c : Char) (rest : List Nat) :
    leadingChar? (encodePoint c.toNat ++ rest) = some (c, (encodePoint c.toNat).length) := by
  have hc := toNat_lt c
  have hscalar := scalar?_toNat c
  have hofNat := Char.ofNat_toNat c
  generalize c.toNat = n at hc hscalar hofNat ⊢
  unfold encodePoint
  split_ifs with h1 h2 h3
  · have hone : leadingChar?.one n = some (c, 1) := by simp [leadingChar?.one, h1, hofNat]
    rcases rest with _ | ⟨b, _ | ⟨b', _ | ⟨b'', rest⟩⟩⟩ <;> simp [leadingChar?, hone]
  · have htwo : leadingChar?.two (0xC0 + n / 64) (0x80 + n % 64) = some (c, 2) := by
      have hlead : 0xC2 ≤ 0xC0 + n / 64 ∧ 0xC0 + n / 64 < 0xE0 := by omega
      have hvalue : n / 64 * 64 + n % 64 = n := by omega
      simp [leadingChar?.two, hlead, isTail_add, hvalue, hscalar]
    have hone := one_eq_none (show 0x80 ≤ 0xC0 + n / 64 by omega)
    rcases rest with _ | ⟨b, _ | ⟨b', rest⟩⟩ <;> simp [leadingChar?, hone, htwo]
  · have hthree : leadingChar?.three (0xE0 + n / 4096) (0x80 + n / 64 % 64) (0x80 + n % 64) =
        some (c, 3) := by
      have hlead : 0xE0 ≤ 0xE0 + n / 4096 ∧ 0xE0 + n / 4096 < 0xF0 := by omega
      have hvalue : n / 4096 * 4096 + n / 64 % 64 * 64 + n % 64 = n := by omega
      have hlong : 0x800 ≤ n := by omega
      simp [leadingChar?.three, hlead, isTail_add, hvalue, hlong, hscalar]
    have hone := one_eq_none (show 0x80 ≤ 0xE0 + n / 4096 by omega)
    have htwo := two_eq_none (show 0xE0 ≤ 0xE0 + n / 4096 by omega)
    rcases rest with _ | ⟨b, rest⟩ <;> simp [leadingChar?, hone, htwo, hthree]
  · have hlead : 0xF0 ≤ 0xF0 + n / 262144 ∧ 0xF0 + n / 262144 < 0xF5 := by omega
    have hvalue : n / 262144 * 262144 + n / 4096 % 64 * 4096 + n / 64 % 64 * 64 + n % 64 = n := by
      omega
    have hlong : 0x10000 ≤ n := by omega
    have hone := one_eq_none (show 0x80 ≤ 0xF0 + n / 262144 by omega)
    have htwo := two_eq_none (show 0xE0 ≤ 0xF0 + n / 262144 by omega)
    have hthree := three_eq_none (show 0xF0 ≤ 0xF0 + n / 262144 by omega)
    simp [leadingChar?, hone, htwo, hthree, hlead, isTail_add, hvalue, hlong, hscalar]

/-! ## Reading the bytes again -/

theorem toNat_stray (b : Nat) : (stray b).toNat = strayBase + b % 256 := by
  have hlt := Nat.mod_lt b (show 0 < 256 by decide)
  have hvalid : (strayBase + b % 256).isValidChar := by
    right
    unfold strayBase
    omega
  rw [stray, Char.ofNat, dif_pos hvalid]
  rfl

theorem isStray_stray (b : Nat) : isStray (stray b) = true := by
  simp [isStray, toNat_stray]

theorem charBytes_stray {b : Nat} (h : b < 256) : charBytes (stray b) = [b] := by
  simp [charBytes, isStray_stray, toNat_stray, Nat.mod_eq_of_lt h]

theorem bytesOf_map_stray {bs : List Nat} (h : ∀ b ∈ bs, b < 256) : bytesOf (bs.map stray) = bs := by
  induction bs with
  | nil => rfl
  | cons b bs ih =>
    rw [map_cons, bytesOf, flatMap_cons, charBytes_stray (h b (by simp)), singleton_append]
    exact congrArg (b :: ·) (ih fun x hx => h x (by simp [hx]))

theorem bytesOf_kept (c : Char) : bytesOf (Rune.kept (.char c)) = encodePoint c.toNat := by
  by_cases hc : isStray c = true
  · rw [Rune.kept, if_pos hc]
    exact bytesOf_map_stray fun b hb => lt_of_mem_encodePoint hb
  · simp [Rune.kept, bytesOf, charBytes, hc]

theorem bytesOf_keep (cs : List Char) : bytesOf (keep cs) = cs.flatMap fun c => encodePoint c.toNat := by
  induction cs with
  | nil => rfl
  | cons c cs ih =>
    rw [keep_cons, bytesOf, flatMap_append, flatMap_cons, ← ih]
    exact congrArg (· ++ _) (bytesOf_kept c)

/-- The bytes of characters form these characters, if there is fuel for each byte. -/
theorem runesOfBytes_encodePoint (cs : List Char) {fuel : Nat}
    (hfuel : (cs.flatMap fun c => encodePoint c.toNat).length ≤ fuel) :
    runesOfBytes fuel (cs.flatMap fun c => encodePoint c.toNat) = cs.map .char := by
  induction cs generalizing fuel with
  | nil => cases fuel <;> rfl
  | cons c cs ih =>
    rw [flatMap_cons, length_append] at hfuel
    have hpos := length_pos_iff.mpr (encodePoint_ne_nil c.toNat)
    obtain ⟨fuel, rfl⟩ := Nat.exists_eq_succ_of_ne_zero (show fuel ≠ 0 by omega)
    have hlead := leadingChar?_encodePoint c (cs.flatMap fun c => encodePoint c.toNat)
    rw [flatMap_cons]
    obtain ⟨b, bs, hbytes⟩ : ∃ b bs, encodePoint c.toNat = b :: bs := by
      cases h : encodePoint c.toNat with
      | nil => exact absurd h (encodePoint_ne_nil _)
      | cons b bs => exact ⟨b, bs, rfl⟩
    rw [hbytes, cons_append] at hlead ⊢
    rw [runesOfBytes, hlead]
    simp only [map_cons, length_cons, drop_succ_cons, drop_left]
    rw [ih (by rw [hbytes, length_cons] at hfuel; omega)]

theorem any_isStray_keep {cs : List Char} (h : cs.any isStray = true) :
    (keep cs).any isStray = true := by
  obtain ⟨c, hc, hstray⟩ := any_eq_true.mp h
  cases hbytes : encodePoint c.toNat with
  | nil => exact absurd hbytes (encodePoint_ne_nil _)
  | cons b bs =>
    refine any_eq_true.mpr ⟨stray b, mem_flatMap.mpr ⟨c, hc, ?_⟩, isStray_stray b⟩
    simp [Rune.kept, hstray, hbytes]

/-- A text is shown as the characters that it was received with. -/
theorem shownChars_keep (cs : List Char) : shownChars (keep cs) = cs := by
  have hrunes : runesOf (keep cs) = cs.map .char := by
    unfold runesOf
    split
    · rw [bytesOf_keep]
      exact runesOfBytes_encodePoint cs le_rfl
    · next h =>
      rw [keep_of_not_isStray]
      exact Bool.eq_false_iff.mpr fun hcs => h (any_isStray_keep hcs)
  rw [shownChars, hrunes, map_map]
  exact map_id cs

theorem keep_injective {cs ds : List Char} (h : keep cs = keep ds) : cs = ds := by
  rw [← shownChars_keep cs, h, shownChars_keep]

end FlowCompiler.Text
