/-!
# Texts as bytes

A text is a sequence of bytes, most of which form characters. A byte that belongs to no character is kept as
a character of its own, from the last block of code points: these stand for single bytes and for nothing
else. A character of that block is kept as its bytes. So different byte sequences are different texts.
-/

namespace FlowCompiler.Text

/-- The first of the characters that stand for single bytes. -/
def strayBase : Nat := 0x10FF00

/-- Whether a character stands for a byte that belongs to no character. -/
def isStray (c : Char) : Bool := strayBase ≤ c.toNat

def stray (byte : Nat) : Char := Char.ofNat (strayBase + byte % 256)

/-- What a byte that belongs to no character is shown as. -/
def replacement : Char := Char.ofNat 0xFFFD

def charSize (c : Char) : Nat := if isStray c then 1 else c.utf8Size

def sizeOfChars (cs : List Char) : Nat := cs.foldl (fun n c => n + charSize c) 0

def size (s : String) : Nat := sizeOfChars s.toList

/-- The character of a code point, if there is one. -/
def scalar? (n : Nat) : Option Char :=
  if n < 0xD800 ∨ (0xDFFF < n ∧ n < 0x110000) then some (Char.ofNat n) else none

def encodePoint (n : Nat) : List Nat :=
  if n < 0x80 then [n]
  else if n < 0x800 then [0xC0 + n / 64, 0x80 + n % 64]
  else if n < 0x10000 then [0xE0 + n / 4096, 0x80 + n / 64 % 64, 0x80 + n % 64]
  else [0xF0 + n / 262144, 0x80 + n / 4096 % 64, 0x80 + n / 64 % 64, 0x80 + n % 64]

def charBytes (c : Char) : List Nat :=
  if isStray c then [c.toNat - strayBase] else encodePoint c.toNat

def bytesOf (cs : List Char) : List Nat := cs.flatMap charBytes

def isTail (b : Nat) : Bool := 0x80 ≤ b && b < 0xC0

/-- The character that the bytes start with, and the number of its bytes. -/
def leadingChar? : List Nat → Option (Char × Nat)
  | a :: b :: c :: d :: _ =>
    one a <|> two a b <|> three a b c <|>
      if 0xF0 ≤ a && a < 0xF5 && isTail b && isTail c && isTail d then
        let n := (a - 0xF0) * 0x40000 + (b - 0x80) * 0x1000 + (c - 0x80) * 0x40 + (d - 0x80)
        if 0x10000 ≤ n then (scalar? n).map (·, 4) else none
      else none
  | [a, b, c] => one a <|> two a b <|> three a b c
  | [a, b] => one a <|> two a b
  | [a] => one a
  | [] => none
where
  one (a : Nat) : Option (Char × Nat) := if a < 0x80 then some (Char.ofNat a, 1) else none
  two (a b : Nat) : Option (Char × Nat) :=
    if 0xC2 ≤ a && a < 0xE0 && isTail b then (scalar? ((a - 0xC0) * 0x40 + (b - 0x80))).map (·, 2)
    else none
  three (a b c : Nat) : Option (Char × Nat) :=
    if 0xE0 ≤ a && a < 0xF0 && isTail b && isTail c then
      let n := (a - 0xE0) * 0x1000 + (b - 0x80) * 0x40 + (c - 0x80)
      if 0x800 ≤ n then (scalar? n).map (·, 3) else none
    else none

/-- A rune of a text: a character, or a byte that belongs to none. -/
inductive Rune where
  | char (c : Char)
  | byte (b : Nat)
deriving DecidableEq, Repr

def runesOfBytes : Nat → List Nat → List Rune
  | 0, _ => []
  | _, [] => []
  | fuel + 1, b :: bs =>
    match leadingChar? (b :: bs) with
    | some (c, n) => .char c :: runesOfBytes fuel ((b :: bs).drop n)
    | none => .byte b :: runesOfBytes fuel bs

def Rune.kept : Rune → List Char
  | char c => if isStray c then (encodePoint c.toNat).map stray else [c]
  | byte b => [stray b]

def ofBytes (bytes : List Nat) : List Char := (runesOfBytes bytes.length bytes).flatMap Rune.kept

/-- The runes of characters; bytes that stand side by side may form a character. -/
def runesOf (cs : List Char) : List Rune :=
  if cs.any isStray then
    let bytes := bytesOf cs
    runesOfBytes bytes.length bytes
  else cs.map .char

def Rune.shown : Rune → Char
  | char c => c
  | byte _ => replacement

/-- Characters as they are shown, with the replacement character for bytes that belong to none. -/
def shownChars (cs : List Char) : List Char := (runesOf cs).map Rune.shown

def shown (s : String) : String := String.ofList (shownChars s.toList)

/-- A text of characters alone, with those of the block of single bytes kept as their bytes. -/
def received (s : String) : String :=
  if s.toList.any isStray then String.ofList (s.toList.flatMap fun c => Rune.kept (.char c)) else s

end FlowCompiler.Text
