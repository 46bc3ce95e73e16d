import FlowCompiler.Number.Integer

/-!
# Binary floating point numbers

Finite numbers `m * 2 ^ e` with 53 bits for `m` and exponents from -1074 on, held as exact integers. A
literal denotes a ratio of naturals, which is rounded to the nearest number, ties going to even; a ratio
that would round past the largest number has no value. A number is written with the fewest decimal digits
that round back to it.
-/

namespace FlowCompiler.Number

/-- A finite number. The mantissa is below `2 ^ 53`, and `2 ^ 52` or more unless the exponent is the least.
-/
structure Binary64 where
  negative : Bool
  mantissa : Nat
  exponent : Int
deriving DecidableEq, Repr

namespace Binary64

def minExponent : Int := -1074

def maxExponent : Int := 971

/-- The least mantissa of 53 bits. -/
def leastFull : Nat := 0x10000000000000

/-- A power of a natural number, as a ratio. -/
def ratioPow (base : Nat) (e : Int) : Nat × Nat :=
  if 0 ≤ e then (Nat.pow base e.toNat, 1) else (1, Nat.pow base (-e).toNat)

def twoTo (e : Int) : Nat × Nat := ratioPow 2 e

def tenTo (e : Int) : Nat × Nat := ratioPow 10 e

/-- `num / den` to the nearest integer, ties going to even. -/
def divNearest (num den : Nat) : Nat :=
  let q := num / den
  let r := num % den
  if den < 2 * r || (2 * r == den && q % 2 == 1) then q + 1 else q

/-- The exponent `k` with `2 ^ k ≤ num / den < 2 ^ (k + 1)`. -/
def log2Ratio (num den : Nat) : Int :=
  let k : Int := (num.log2 : Int) - (den.log2 : Int)
  let (a, b) := twoTo k
  if num * b < den * a then k - 1 else k

/-- The number nearest to `num / den`, or none beyond the largest. -/
def ofRatio? (negative : Bool) (num den : Nat) : Option Binary64 :=
  if num = 0 then some ⟨negative, 0, minExponent⟩
  else
    let e := max (log2Ratio num den - 52) minExponent
    let (a, b) := twoTo e
    let m := divNearest (num * b) (den * a)
    let (m, e) := if m = 2 * leastFull then (leastFull, e + 1) else (m, e)
    if maxExponent < e then none else some ⟨negative, m, e⟩

/-! ## Literals -/

/-- The digits of a literal before its exponent. -/
structure Digits where
  value : Nat := 0
  places : Nat := 0
  point : Bool := false
  seen : Bool := false
deriving DecidableEq, Repr

/-- Reads digits, underscores and at most one point. -/
def takeDigits (base : Nat) (d : Digits) : List Char → Digits × List Char
  | [] => (d, [])
  | c :: cs =>
    if c = '_' then takeDigits base d cs
    else if c = '.' then
      if d.point then (d, c :: cs) else takeDigits base { d with point := true } cs
    else
      match digitValue? c with
      | some v =>
        if v < base then
          takeDigits base { d with
            value := d.value * base + v, places := if d.point then d.places + 1 else d.places,
            seen := true } cs
        else (d, c :: cs)
      | none => (d, c :: cs)

/-- Reads the digits of an exponent. Past ten thousand it stops growing. -/
def takeExponent (value : Nat) : List Char → Nat × List Char
  | [] => (value, [])
  | c :: cs =>
    if c = '_' then takeExponent value cs
    else if c.isDigit then
      takeExponent (if value < 10000 then value * 10 + (c.toNat - 48) else value) cs
    else (value, c :: cs)

/-- Reads an exponent after its mark, which has to be the end of the literal. -/
def exponent? (cs : List Char) : Option Int :=
  let (negative, r) := splitSign cs
  match r with
  | c :: _ =>
    if c.isDigit then
      match takeExponent 0 r with
      | (e, []) => some (if negative then -(e : Int) else (e : Int))
      | _ => none
    else none
  | [] => none

def decimalLength (n : Nat) : Nat := (Nat.toDigits 10 n).length

/-- The number nearest to `value * 10 ^ e`. -/
def ofDecimal? (negative : Bool) (value : Nat) (e : Int) : Option Binary64 :=
  let magnitude := (decimalLength value : Int) + e
  if value = 0 ∨ magnitude < -400 then some ⟨negative, 0, minExponent⟩
  else if 400 < magnitude then none
  else
    let (a, b) := tenTo e
    ofRatio? negative (value * a) b

/-- The number nearest to `value * 2 ^ e`. -/
def ofBinary? (negative : Bool) (value : Nat) (e : Int) : Option Binary64 :=
  let magnitude := (value.log2 : Int) + e
  if value = 0 ∨ magnitude < -1200 then some ⟨negative, 0, minExponent⟩
  else if 1200 < magnitude then none
  else
    let (a, b) := twoTo e
    ofRatio? negative (value * a) b

/-- The value of a floating point literal: decimal, or hexadecimal with a binary exponent. -/
def ofLiteral? (cs : List Char) : Option Binary64 :=
  let (negative, body) := splitSign cs
  if body.contains '_' && !underscoresOk body then none
  else
    match body with
    | '0' :: x :: c :: r =>
      if x.toLower = 'x' then
        match takeDigits 16 {} (c :: r) with
        | (d, p :: r) =>
          if d.seen && p.toLower == 'p' then
            (exponent? r).bind fun e => ofBinary? negative d.value (e - 4 * d.places)
          else none
        | _ => none
      else decimal? negative body
    | _ => decimal? negative body
where
  decimal? (negative : Bool) (body : List Char) : Option Binary64 :=
    match takeDigits 10 {} body with
    | (d, []) => if d.seen then ofDecimal? negative d.value (-(d.places : Int)) else none
    | (d, p :: r) =>
      if d.seen && p.toLower == 'e' then
        (exponent? r).bind fun e => ofDecimal? negative d.value (e - d.places)
      else none

def truncate (x : Binary64) : Int :=
  let (a, b) := twoTo x.exponent
  let n := x.mantissa * a / b
  if x.negative then -(n : Int) else n

/-! ## Shortest digits -/

/-- The numbers that round to a positive one: multiples of `2 ^ scale` from `low` to `high`, with the ends
if `closed`. -/
structure Neighbourhood where
  low : Nat
  mid : Nat
  high : Nat
  scale : Int
  closed : Bool

/-- The neighbourhood of a number. Below a power of two the next number is half as far. -/
def neighbourhood (x : Binary64) : Neighbourhood :=
  let closer := x.mantissa == leastFull && minExponent < x.exponent
  ⟨4 * x.mantissa - (if closer then 1 else 2), 4 * x.mantissa, 4 * x.mantissa + 2,
    x.exponent - 2, x.mantissa % 2 == 0⟩

/-- Whether `n * 10 ^ e` lies in a neighbourhood. -/
def Neighbourhood.holds (b : Neighbourhood) (n : Nat) (e : Int) : Bool :=
  let (tn, td) := tenTo e
  let (sn, sd) := twoTo b.scale
  let x := n * tn * sd
  let unit := sn * td
  if b.closed then b.low * unit ≤ x && x ≤ b.high * unit
  else b.low * unit < x && x < b.high * unit

/-- The multiple of `10 ^ e` just below the middle, and whether it is nearer than the next. -/
def Neighbourhood.around (b : Neighbourhood) (e : Int) : Nat × Bool :=
  let (tn, td) := tenTo e
  let (sn, sd) := twoTo b.scale
  let num := b.mid * sn * td
  let den := sd * tn
  let q := num / den
  let r := num % den
  (q, 2 * r < den || (2 * r == den && q % 2 == 0))

/-- The exponent `k` with `10 ^ (k - 1) ≤ mid < 10 ^ k`. -/
def Neighbourhood.decimalExponent (b : Neighbourhood) : Int :=
  let (sn, sd) := twoTo b.scale
  let num := b.mid * sn
  if sd ≤ num then decimalLength (num / sd)
  else
    -- the first power of ten that brings the ratio to one or more
    let k := (decimalLength sd : Int) - (decimalLength num : Int)
    if sd ≤ num * Nat.pow 10 (k - 1).toNat then 2 - k
    else if sd ≤ num * Nat.pow 10 k.toNat then 1 - k
    else -k

/-- Tries decimal grids, coarse to fine, for a point of the neighbourhood. -/
def Neighbourhood.shortest (b : Neighbourhood) (k : Int) : Nat → Nat → Nat × Int
  | 0, count => ((b.around (k - count)).1, k - count)
  | fuel + 1, count =>
    let e := k - count
    let (lower, lowerNearer) := b.around e
    match b.holds lower e, b.holds (lower + 1) e with
    | true, true => (if lowerNearer then lower else lower + 1, e)
    | true, false => (lower, e)
    | false, true => (lower + 1, e)
    | false, false => b.shortest k fuel (count + 1)

/-- Drops trailing zeros: the same value with a greater exponent. -/
def dropZeros : Nat → Nat → Int → Nat × Int
  | 0, n, e => (n, e)
  | fuel + 1, n, e => if n ≠ 0 ∧ n % 10 = 0 then dropZeros fuel (n / 10) (e + 1) else (n, e)

/-- The fewest decimal digits that round to the number, and the exponent of the last of them. -/
def shortestDigits (x : Binary64) : Nat × Int :=
  if x.mantissa = 0 then (0, 0)
  else
    let b := x.neighbourhood
    let (n, e) := b.shortest b.decimalExponent 17 1
    dropZeros 20 n e

/-- The text of a number: with an exponent below `1e-4` and from `1e6` on, and always with a point or an
exponent. -/
def text (x : Binary64) : String :=
  let (n, e) := x.shortestDigits
  let digits := Nat.toDigits 10 n
  let point : Int := if n = 0 then 1 else digits.length + e
  let leading := point - 1
  let body : List Char :=
    if leading < -4 ∨ 6 ≤ leading then
      let power := Nat.toDigits 10 leading.natAbs
      let fraction := if digits.length ≤ 1 then [] else '.' :: digits.drop 1
      digits.take 1 ++ fraction ++ ['e', if leading < 0 then '-' else '+'] ++
        (if power.length < 2 then '0' :: power else power)
    else if point ≤ 0 then
      '0' :: '.' :: (List.replicate (-point).toNat '0' ++ digits)
    else
      let whole := digits.take point.toNat ++ List.replicate (point.toNat - digits.length) '0'
      let fraction := digits.drop point.toNat
      whole ++ '.' :: (if fraction.isEmpty then ['0'] else fraction)
  String.ofList (if x.negative then '-' :: body else body)

end Binary64

end FlowCompiler.Number
