/-!
# Words

Whole numbers of 64 bits with a sign. A sum that leaves their range wraps around.
-/

namespace FlowCompiler.Number

def wordCount : Nat := 0x10000000000000000

/-- The number of words below zero, and so the first number above all words. -/
def wordBound : Nat := 0x8000000000000000

def wrap (n : Int) : Int := Int.bmod n wordCount

def isWord (n : Int) : Bool := -(wordBound : Int) ≤ n && n < (wordBound : Int)

theorem wrap_of_isWord {n : Int} (h : isWord n = true) : wrap n = n := by
  have hn : -(wordBound : Int) ≤ n ∧ n < (wordBound : Int) := by simpa [isWord] using h
  unfold wordBound at hn
  unfold wrap wordCount
  exact Int.bmod_eq_of_le_mul_two (by omega) (by omega)

theorem wrap_wrap_add (a b : Int) : wrap (wrap a + b) = wrap (a + b) := Int.bmod_add_bmod

/-- Numbers that are not negative wrap to different words if they are fewer than all words. -/
theorem wrap_inj {a b : Int} (ha : 0 ≤ a ∧ a < wordCount) (hb : 0 ≤ b ∧ b < wordCount)
    (h : wrap a = wrap b) : a = b := by
  have hmod : a % wordCount = b % wordCount := by
    rw [← Int.bmod_emod, ← Int.bmod_emod (x := b)]
    exact congrArg (· % (wordCount : Int)) h
  rwa [Int.emod_eq_of_lt ha.1 ha.2, Int.emod_eq_of_lt hb.1 hb.2] at hmod

end FlowCompiler.Number
