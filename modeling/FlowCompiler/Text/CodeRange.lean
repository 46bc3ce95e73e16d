/-!
# Ranges of code points

Character classes are lists of ranges; a range may take every second code point, which is how scripts
that alternate upper and lower case are laid out. A long table is written as its runs.
-/

namespace FlowCompiler.Text

/-- The code points `first`, `first + step`, ... up to `last`. -/
structure CodeRange where
  first : Nat
  last : Nat
  step : Nat
deriving DecidableEq, Repr

namespace CodeRange

def holds (r : CodeRange) (c : Char) : Bool :=
  r.first ≤ c.toNat && c.toNat ≤ r.last && (c.toNat - r.first) % r.step == 0

/-- The range `distance` code points further on. -/
def shift (r : CodeRange) (distance : Int) : CodeRange :=
  ⟨(r.first + distance).toNat, (r.last + distance).toNat, r.step⟩

/-- The ranges of a class from its runs: from `start` on, in turns, the numbers of code points outside and
inside. -/
def ofRuns (start : Nat) : List Nat → List CodeRange
  | outside :: inside :: runs =>
    ⟨start + outside, start + outside + inside - 1, 1⟩ :: ofRuns (start + outside + inside) runs
  | _ => []

def covers (table : List CodeRange) (c : Char) : Bool := table.any (·.holds c)

end CodeRange

end FlowCompiler.Text
