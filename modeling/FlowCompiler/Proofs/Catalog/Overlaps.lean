import FlowCompiler.Proofs.Slots.References

/-!
# Which lists of ports are accepted

Ports of one direction are accepted if they have names of their own and no negative numbers, and if no two of them
overlap. The last is checked of neighbours in the order of first slots, with ends computed in words. For sorted
ports that is enough as long as ends are words; an end beyond them wraps to a negative number and goes unnoticed.

Main statement: `Port.check_exact_iff`. No list that should be accepted is refused. A list that should be refused is
accepted exactly if a port reaches beyond the words that does not begin after all others. Slots of elements are
computed without wrapping exactly if the last slot of each port is a word.
-/

namespace FlowCompiler

open Number

theorem Number.isWord_wrap (n : Int) : isWord (wrap n) = true := by
  have hlow : -((wordCount : Int) / 2) ≤ wrap n := Int.le_bmod (by decide)
  have hhigh : wrap n < ((wordCount : Int) + 1) / 2 := Int.bmod_lt (by decide)
  unfold wordCount at hlow hhigh
  rw [isWord_iff, wordBound]
  omega

namespace Port

variable {ports checked : List Port}

/-- Disjoint ports pass the check: in the order of first slots, each ends before the next one begins, and so within
the words. -/
theorem Proper.check_eq_ok (h : Proper ports) (hwords : ∀ p ∈ ports, p.size < wordBound ∧ p.base < wordBound)
    (hdisjoint : ports.Pairwise Disjoint) : check ports = .ok ports := by
  refine (check_eq_ok_iff_of_words hwords).mpr ⟨rfl, h, ?_⟩
  have hsorted : (byBase ports).Pairwise Disjoint :=
    (List.mergeSort_perm ports _).symm.pairwise hdisjoint fun hpq => Or.symm hpq
  refine (pairwise_byBase ports).and hsorted |>.imp fun {p q} h => ⟨h.1, fun _ => ?_⟩
  have hlt := q.base_lt_stop
  have hle := h.1
  rcases h.2 with hpq | hqp
  · exact hpq
  · omega

/-- The slots of a port are computed without wrapping exactly if its last one is a word. -/
theorem Placed.slot_exact_iff {p : Port} (h : p.Placed) :
    Number.isWord (p.stop - 1) = true ↔
      ∀ typeName index s, p.slot typeName index = .ok s → s = p.base + index.getD 0 := by
  have hbase := h.nonneg
  have hpos := p.width_pos
  constructor
  · intro hlast typeName index s hslot
    obtain ⟨-, hlt, rfl⟩ := h.slot_eq_ok_iff.mp hslot
    rw [isWord_iff, stop] at hlast
    exact wrap_of_isWord (isWord_iff.mpr (by omega))
  · intro hexact
    have hindex : ((p.width - 1).toNat : Int) = p.width - 1 := Int.toNat_of_nonneg (by omega)
    have hslot : p.slot "" (some (p.width - 1).toNat) = .ok (wrap (p.base + (p.width - 1).toNat)) := by
      refine h.slot_eq_ok_iff.mpr ⟨fun _ => rfl, ?_, rfl⟩
      rw [Option.getD_some, hindex]
      omega
    have hlast : wrap (p.base + (p.width - 1).toNat) = p.stop - 1 := by
      rw [hexact _ _ _ hslot, Option.getD_some, hindex, stop]
      omega
    exact hlast ▸ isWord_wrap _

/-- The check of ports whose numbers are words. What is accepted is left as it is. It is accepted exactly if names are
given and distinct, no number is negative and, in the order of first slots, each port ends before those after it
begin or its end is no word. So a list is accepted exactly if it is proper and its ports are disjoint, unless a port
that does not begin after all others reaches beyond the words. Of accepted ports, slots are computed without wrapping
exactly if the last slot of each is a word. -/
theorem check_exact_iff (hwords : ∀ p ∈ ports, p.size < wordBound ∧ p.base < wordBound) :
    (∀ checked, check ports = .ok checked ↔ checked = ports ∧ Proper ports ∧ (byBase ports).Pairwise Before) ∧
    (((∃ checked, check ports = .ok checked) ↔ Proper ports ∧ ports.Pairwise Disjoint) ↔
      ((∃ checked, check ports = .ok checked) →
        ∀ p ∈ ports, ∀ q ∈ ports, p ≠ q → p.base ≤ q.base → p.stop < wordBound)) ∧
    ∀ checked, check ports = .ok checked → ∀ p ∈ checked,
      (isWord (p.stop - 1) = true ↔
        ∀ typeName index s, p.slot typeName index = .ok s → s = p.base + index.getD 0) := by
  have haccepts : ∀ checked, check ports = .ok checked ↔
      checked = ports ∧ Proper ports ∧ (byBase ports).Pairwise Before := fun _ => check_eq_ok_iff_of_words hwords
  have hdisjoint : ∀ checked, check ports = .ok checked →
      Proper ports ∧ (ports.Pairwise Disjoint ↔
        ∀ p ∈ ports, ∀ q ∈ ports, p ≠ q → p.base ≤ q.base → p.stop < wordBound) := by
    intro checked h
    obtain ⟨rfl, hproper, -⟩ := (haccepts checked).mp h
    exact ⟨hproper, (checked_of_check h hwords).pairwise_disjoint_iff⟩
  refine ⟨haccepts, ⟨?_, ?_⟩, fun checked h p hp => ?_⟩
  · rintro hiff ⟨checked, h⟩
    exact (hdisjoint checked h).2.mp (hiff.mp ⟨checked, h⟩).2
  · intro hwithin
    constructor
    · rintro ⟨checked, h⟩
      obtain ⟨hproper, hiff⟩ := hdisjoint checked h
      exact ⟨hproper, hiff.mpr (hwithin ⟨checked, h⟩)⟩
    · rintro ⟨hproper, hpairwise⟩
      exact ⟨ports, hproper.check_eq_ok hwords hpairwise⟩
  · exact ((checked_of_check h hwords).placed p hp).slot_exact_iff

/-- A port in the last slot that is a word, and an array in the first slots. -/
def remotePorts : List Port := [⟨"LAST", "any", 0, 9223372036854775807⟩, ⟨"FIRST", "int", 3, 0⟩]

/-- These ports are accepted in the order in which they are given, and their slots are as many as they take. -/
theorem check_exact_iff_remote :
    check remotePorts = .ok remotePorts ∧
      ∀ p ∈ remotePorts, ∀ typeName index s, p.slot typeName index = .ok s → s = p.base + index.getD 0 := by
  obtain ⟨haccepts, hiff, hslots⟩ := check_exact_iff (show ∀ p ∈ remotePorts, _ by decide)
  have hproper : Proper remotePorts := ⟨⟨by decide, by decide⟩, by decide⟩
  obtain ⟨checked, h⟩ := (hiff.mpr fun _ => by decide).mpr ⟨hproper, by decide⟩
  obtain rfl := ((haccepts checked).mp h).1
  have hlast : ∀ p ∈ remotePorts, isWord (p.stop - 1) = true := by decide
  exact ⟨h, fun p hp => (hslots _ h p hp).mp (hlast p hp)⟩

/-- Two ports that are both in the last slot are accepted, and so is an array from there on, whose second element has
a negative slot. -/
theorem overlap_accepted :
    ∃ p q r : Port, check [p, q] = .ok [p, q] ∧ ¬ p.Disjoint q ∧ check [r] = .ok [r] ∧
      r.slot "far" (some 1) = .ok (-9223372036854775808) := by
  refine ⟨⟨"P", "", 0, 9223372036854775807⟩, ⟨"Q", "", 0, 9223372036854775807⟩, ⟨"R", "", 2, 9223372036854775807⟩,
    check_eq_ok_iff.mpr ⟨rfl, ⟨⟨by decide, by decide⟩, by decide⟩, ?_⟩, by decide,
    check_eq_ok_iff.mpr ⟨rfl, ⟨⟨by decide, by decide⟩, by decide⟩, ?_⟩, by decide⟩
  · rw [byBase, List.mergeSort_of_pairwise (by decide)]
    decide
  · rw [byBase, List.mergeSort_singleton]
    decide

end Port

end FlowCompiler
