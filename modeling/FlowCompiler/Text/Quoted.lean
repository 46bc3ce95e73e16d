import FlowCompiler.Text.Octets
import FlowCompiler.Text.Printable

/-!
# Quoted texts

A quoted text stands between double quotes. Printable characters stand for themselves, except the quote
and the backslash; the others are written as escapes. Reading accepts more escapes than writing uses:
also octal and hexadecimal bytes, which need not form characters.
-/

namespace FlowCompiler.Text

def escapeLetter? (c : Char) : Option Char :=
  match c.toNat with
  | 7 => some 'a'
  | 8 => some 'b'
  | 9 => some 't'
  | 10 => some 'n'
  | 11 => some 'v'
  | 12 => some 'f'
  | 13 => some 'r'
  | _ => none

/-- The digits of `n` to the base 16, at least `width` of them. -/
def hexDigits (width n : Nat) : List Char :=
  let digits := Nat.toDigits 16 n
  List.replicate (width - digits.length) '0' ++ digits

def quoteChar (c : Char) : List Char :=
  if c = '"' ∨ c = '\\' then ['\\', c]
  else if isPrintable c then [c]
  else
    match escapeLetter? c with
    | some letter => ['\\', letter]
    | none =>
      if c.toNat < 128 then '\\' :: 'x' :: hexDigits 2 c.toNat
      else if c.toNat < 0x10000 then '\\' :: 'u' :: hexDigits 4 c.toNat
      else '\\' :: 'U' :: hexDigits 8 c.toNat

def quoteRune : Rune → List Char
  | .char c => quoteChar c
  | .byte b => '\\' :: 'x' :: hexDigits 2 b

def quote (s : String) : String :=
  String.ofList ('"' :: (runesOf s.toList).flatMap quoteRune ++ ['"'])

/-! ## Reading -/

def hexValue? (c : Char) : Option Nat :=
  if c.isDigit then some (c.toNat - 48)
  else if 'a' ≤ c ∧ c ≤ 'f' then some (c.toNat - 87)
  else if 'A' ≤ c ∧ c ≤ 'F' then some (c.toNat - 55)
  else none

/-- The value of exactly `count` hexadecimal digits at the start of a text, and the rest. -/
def takeHex : Nat → Nat → List Char → Option (Nat × List Char)
  | 0, value, cs => some (value, cs)
  | _ + 1, _, [] => none
  | count + 1, value, c :: cs =>
    match hexValue? c with
    | some d => takeHex count (value * 16 + d) cs
    | none => none

/-- Reads an escape; the text starts after its backslash. -/
def takeEscape : List Char → Option (Rune × List Char)
  | [] => none
  | c :: cs =>
    match c with
    | 'a' => some (.char (Char.ofNat 7), cs)
    | 'b' => some (.char (Char.ofNat 8), cs)
    | 'f' => some (.char (Char.ofNat 12), cs)
    | 'n' => some (.char '\n', cs)
    | 'r' => some (.char '\r', cs)
    | 't' => some (.char '\t', cs)
    | 'v' => some (.char (Char.ofNat 11), cs)
    | '\\' => some (.char '\\', cs)
    | '"' => some (.char '"', cs)
    | 'x' => (takeHex 2 0 cs).map fun (n, r) => (.byte n, r)
    | 'u' => (takeHex 4 0 cs).bind fun (n, r) => (scalar? n).map fun d => (.char d, r)
    | 'U' => (takeHex 8 0 cs).bind fun (n, r) => (scalar? n).map fun d => (.char d, r)
    | _ =>
      match c :: cs with
      | a :: b :: d :: r =>
        if [a, b, d].all (fun x => '0' ≤ x && x ≤ '7') then
          let n := ((a.toNat - 48) * 8 + (b.toNat - 48)) * 8 + (d.toNat - 48)
          if n < 256 then some (.byte n, r) else none
        else none
      | _ => none

theorem takeHex_le {count value n : Nat} {cs r : List Char}
    (h : takeHex count value cs = some (n, r)) : r.length ≤ cs.length := by
  induction count generalizing value cs with
  | zero => cases h; exact Nat.le_refl _
  | succ count ih =>
    cases cs with
    | nil => cases h
    | cons c cs =>
      simp only [takeHex] at h
      split at h
      · exact Nat.le_succ_of_le (ih h)
      · cases h

theorem takeEscape_lt {cs r : List Char} {p : Rune} (h : takeEscape cs = some (p, r)) :
    r.length < cs.length := by
  unfold takeEscape at h
  split at h
  · cases h
  · next c cs =>
    split at h
    all_goals first
      | (cases h; simp)
      | (obtain ⟨⟨n, s⟩, hx, hy⟩ := Option.map_eq_some_iff.1 h
         cases hy
         exact Nat.lt_succ_of_le (takeHex_le hx))
      | (obtain ⟨⟨n, s⟩, hx, hy⟩ := Option.bind_eq_some_iff.1 h
         obtain ⟨d, hd, he⟩ := Option.map_eq_some_iff.1 hy
         cases he
         exact Nat.lt_succ_of_le (takeHex_le hx))
      | skip
    split at h
    · next a b d r' heq =>
      split at h
      · simp only at h
        split at h
        · cases h
          rw [heq]
          simp only [List.length_cons]
          omega
        · cases h
      · cases h
    · cases h

/-- Reads the inside of a quoted text up to the closing quote, with which the text has to end. -/
def unquoteRest (cs : List Char) : Option (List Rune) :=
  match cs with
  | [] => none
  | c :: r =>
    if c = '"' then if r = [] then some [] else none
    else if c = '\n' then none
    else if c = '\\' then
      match _h : takeEscape r with
      | none => none
      | some (p, r') => (unquoteRest r').map (p :: ·)
    else (unquoteRest r).map (.char c :: ·)
termination_by cs.length
decreasing_by
  · have := takeEscape_lt _h
    simp only [List.length_cons]
    omega
  · simp

/-- Puts runes together; `bytes` are those directly before them, the last first. -/
def assemble (bytes : List Nat) : List Rune → List Char
  | [] => ofBytes bytes.reverse
  | .byte b :: rs => assemble (b :: bytes) rs
  | .char c :: rs => ofBytes bytes.reverse ++ Rune.kept (.char c) ++ assemble [] rs

/-- Reads a quoted text. A byte that belongs to no character is read as the replacement character. -/
def unquote? (cs : List Char) : Option (List Char) :=
  match shownChars cs with
  | c :: r => if c = '"' then (unquoteRest r).map (assemble []) else none
  | [] => none

end FlowCompiler.Text
