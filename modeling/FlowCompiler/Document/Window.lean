import FlowCompiler.Text.Octets

/-!
# The text of a document, portion by portion

A text is read in portions of 512 bytes, and a portion is read when the first of its characters is needed.
A portion with a character that no document may hold is a fault, but only once it is read: what stands far
behind the end of a document does no harm to it.

The window is what was read and not yet passed over. Whenever more is read, it starts anew at the next
character.
-/

namespace FlowCompiler.Document

/-! ## Classes of characters -/

def isAllowed (c : Char) : Bool :=
  let n := c.toNat
  n == 9 || n == 10 || n == 13 || (0x20 ≤ n && n ≤ 0x7E) || n == 0x85 || (0xA0 ≤ n && n ≤ 0xD7FF) ||
    (0xE000 ≤ n && n ≤ 0xFFFD) || 0x10000 ≤ n

def isBreak (c : Char) : Bool :=
  c == '\n' || c == '\r' || c.toNat == 0x85 || c.toNat == 0x2028 || c.toNat == 0x2029

def isSpace (c : Char) : Bool := c == ' ' || c == '\t'

def isHandleChar (c : Char) : Bool := c.isAlphanum || c == '_' || c == '-'

/-- The mark at the start of a text that tells how it is encoded. -/
def orderMark : Char := Char.ofNat 0xFEFF

/-- The characters of a text; a byte that belongs to none is not allowed in documents. -/
def characters (s : String) : List Char :=
  (Text.runesOf s.toList).map fun r =>
    match r with
    | .char c => c
    | .byte _ => Char.ofNat 0xFFFF

/-! ## Portions -/

/-- A portion of a text: the number of its characters, and whether a document may hold all of them. -/
structure Portion where
  count : Nat
  sound : Bool
deriving DecidableEq, Repr

/-- The bytes of a portion. A character is not divided. -/
def portionSize : Nat := 512

/-- Divides a text into portions, the first of which has `count` characters and room for `room` more. -/
def portionsOf (room count : Nat) (sound : Bool) : List Char → List Portion
  | [] => if count = 0 then [] else [⟨count, sound⟩]
  | c :: cs =>
    if c.utf8Size ≤ room then portionsOf (room - c.utf8Size) (count + 1) (sound && isAllowed c) cs
    else ⟨count, sound⟩ :: portionsOf (portionSize - c.utf8Size) 1 (isAllowed c) cs

/-- The part of a text that is left. `known` counts the characters read since the start, the end of the text
each time that it is met; `first` is the first character of the window. -/
structure Window where
  rest : List Char
  known : Nat := 0
  first : Option Char := none
  portions : List Portion
deriving DecidableEq, Repr

namespace Window

/-- The window on a text, before anything is read. An encoding mark at its start is no part of it. -/
def ofText (s : String) : Window :=
  match characters s with
  | c :: cs =>
    if c = orderMark then { rest := cs, portions := portionsOf (portionSize - c.utf8Size) 0 true cs }
    else { rest := c :: cs, portions := portionsOf portionSize 0 true (c :: cs) }
  | [] => { rest := [], portions := [] }

def readPortions (wanted known : Nat) : List Portion → Option (Nat × List Portion)
  | [] => some (if known < wanted then known + 1 else known, [])
  | p :: ps =>
    if wanted ≤ known then some (known, p :: ps)
    else if p.sound then readPortions wanted (known + p.count) ps
    else none

def reach? (w : Window) (wanted : Nat) : Option Window :=
  if wanted ≤ w.known then some w
  else
    (readPortions wanted w.known w.portions).map fun (known, portions) =>
      { w with known := known, portions := portions, first := w.rest.head? }

def startsMarked (w : Window) : Bool := w.first == some orderMark

end Window

end FlowCompiler.Document
