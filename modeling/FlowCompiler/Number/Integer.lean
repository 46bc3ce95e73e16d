/-!
# Integer literals

A natural number is written in decimal, or with a leading `0x`, `0o` or `0b` to the base 16, 8 or 2; a
leading `0` alone also means base 8. Underscores may stand between digits and after a base mark. A signed
integer may start with one sign. Bounds are given in bits.
-/

namespace FlowCompiler.Number

/-- What stands directly before a character, for the rule on underscores. -/
inductive Before where
  | start
  | digit
  | underscore
  | other
deriving DecidableEq, Repr

/-- Whether every underscore follows a digit and is followed by one. -/
def underscoresFollow (hex : Bool) : Before → List Char → Bool
  | before, [] => before != .underscore
  | before, c :: cs =>
    if c.isDigit || (hex && 'a' ≤ c.toLower && c.toLower ≤ 'f') then
      underscoresFollow hex .digit cs
    else if c == '_' then before == .digit && underscoresFollow hex .underscore cs
    else before != .underscore && underscoresFollow hex .other cs

/-- The rule on underscores for a literal without its sign. A base mark counts as a digit. -/
def underscoresOk (cs : List Char) : Bool :=
  match cs with
  | '0' :: m :: r =>
    let mark := m.toLower
    if mark == 'b' || mark == 'o' || mark == 'x' then underscoresFollow (mark == 'x') .digit r
    else underscoresFollow false .start cs
  | _ => underscoresFollow false .start cs

/-- The value of a digit; letters continue the decimal digits. -/
def digitValue? (c : Char) : Option Nat :=
  if c.isDigit then some (c.toNat - 48)
  else if 'a' ≤ c.toLower ∧ c.toLower ≤ 'z' then some (c.toLower.toNat - 87)
  else none

/-- The value of digits to a base, with underscores passed over. -/
def digitsValue? (base : Nat) : Nat → List Char → Option Nat
  | value, [] => some value
  | value, c :: cs =>
    if c = '_' then digitsValue? base value cs
    else
      match digitValue? c with
      | some d => if d < base then digitsValue? base (value * base + d) cs else none
      | none => none

/-- The base of a literal and what follows its base mark. -/
def splitBase (cs : List Char) : Nat × List Char :=
  match cs with
  | '0' :: m :: d :: r =>
    if m.toLower = 'b' then (2, d :: r)
    else if m.toLower = 'o' then (8, d :: r)
    else if m.toLower = 'x' then (16, d :: r)
    else (8, m :: d :: r)
  | '0' :: r => (8, r)
  | _ => (10, cs)

def natural? (cs : List Char) : Option Nat :=
  if cs = [] then none
  else if cs.contains '_' && !underscoresOk cs then none
  else digitsValue? (splitBase cs).1 0 (splitBase cs).2

/-- The value of a literal without a sign that fits into `bits` bits. -/
def unsigned? (bits : Nat) (cs : List Char) : Option Nat :=
  (natural? cs).filter (· < Nat.pow 2 bits)

/-- The sign of a literal, true for minus, and the literal without it. -/
def splitSign (cs : List Char) : Bool × List Char :=
  match cs with
  | '-' :: r => (true, r)
  | '+' :: r => (false, r)
  | _ => (false, cs)

/-- The value of a literal that fits into `bits` bits with one for the sign. -/
def signed? (bits : Nat) (cs : List Char) : Option Int :=
  match splitSign cs with
  | (true, r) => ((natural? r).filter (· ≤ Nat.pow 2 (bits - 1))).map fun n => -(n : Int)
  | (false, r) => ((natural? r).filter (· < Nat.pow 2 (bits - 1))).map fun n => (n : Int)

end FlowCompiler.Number
