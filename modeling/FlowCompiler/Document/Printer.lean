import FlowCompiler.Document.Node
import FlowCompiler.Document.Window

/-!
# Printing nodes

A node is printed in the style that it was written in: flow collections on one line, block collections with
one entry a line and four columns of indentation, scalars with their quotes. A scalar that its style cannot
hold takes the next stronger one: quotes instead of none, double quotes instead of single ones. Comments are
printed where they stood, and end their lines.

The pen holds the text so far with the column, and whether it stands after a blank or after nothing but
indentation; both decide where blanks and line ends are needed. It also holds the comments of the node that is
written until their places come; a place that does not come leaves them to a later node.
-/

namespace FlowCompiler.Document

/-! ## What a scalar can be written as -/

/-- Characters that are written as they are in any style. -/
def isPlainPrintable (c : Char) : Bool :=
  let n := c.toNat
  n == 0x0A || (0x20 ≤ n && n ≤ 0x7E) || (0xA0 ≤ n && n ≤ 0xD7FF) ||
    (0xE000 ≤ n && n ≤ 0xFFFD && n != 0xFEFF)

/-- What stands against writing a text in some style. -/
structure Analysis where
  multiline : Bool := false
  flowPlain : Bool := true
  blockPlain : Bool := true
  singleQuoted : Bool := true
  block : Bool := true
deriving Repr

/-- Whether a first character, with `more` after it, looks like a mark in flow and in block collections. -/
def firstMark (c : Char) (more : List Char) : Bool × Bool :=
  let ends := more.head?.all isSpace
  if "#,[]\x7b\x7d&*!|>'\"%@`".toList.contains c then (true, true)
  else if c == '?' || c == ':' then (true, ends)
  else if c == '-' then (ends, ends)
  else (false, false)

/-- The same for a character inside a text, after `before`. -/
def innerMark (before c : Char) (more : List Char) : Bool × Bool :=
  let ends := more.head?.all isSpace
  if ",?[]\x7b\x7d".toList.contains c then (true, false)
  else if c == ':' then (true, ends)
  else if c == '#' then
    let after := isSpace before || isBreak before || before.toNat == 0
    (after, after)
  else (false, false)

def innerMarks (before : Char) : List Char → Bool × Bool
  | [] => (false, false)
  | c :: more =>
    let a := innerMark before c more
    let b := innerMarks c more
    (a.1 || b.1, a.2 || b.2)

/-- Whether a character of the class `p` is followed at once by one of the class `q`. -/
def followed (p q : Char → Bool) : List Char → Bool
  | a :: b :: more => (p a && q b) || followed p q (b :: more)
  | _ => false

def analyze (cs : List Char) : Analysis :=
  match cs with
  | [] => { flowPlain := false, block := false }
  | c :: more =>
    let first := firstMark c more
    let inner := innerMarks c more
    let lined := cs.take 3 == ['-', '-', '-'] || cs.take 3 == ['.', '.', '.']
    let flowMarks := first.1 || inner.1 || lined
    let blockMarks := first.2 || inner.2 || lined
    let last := cs.getLast?.getD c
    let special := cs.any fun c => c != '\t' && !isPlainPrintable c
    let tabs := cs.any (· == '\t')
    let broken := cs.any isBreak
    let blank (c : Char) : Bool := c == ' '
    let ends := blank c || isBreak c || blank last || isBreak last
    let breakSpace := followed isBreak blank cs
    let spaceBreak := followed blank isBreak cs
    let plain := !(ends || breakSpace || spaceBreak || tabs || special || broken)
    { multiline := broken
      flowPlain := plain && !flowMarks
      blockPlain := plain && !blockMarks
      singleQuoted := !(breakSpace || spaceBreak || tabs || special)
      block := !(blank last || spaceBreak || special) }

/-- The style that a scalar is written in, inside flow collections (`flow`) or as a key (`key`). -/
def chosenStyle (text : String) (style : ScalarStyle) (flow key : Bool) : ScalarStyle :=
  let a := analyze text.toList
  let wanted : ScalarStyle :=
    if style = .plain ∧ text.toList.contains '\n' then .literal else style
  let wanted : ScalarStyle := if key && a.multiline then .doubleQuoted else wanted
  let quoted (s : ScalarStyle) : ScalarStyle :=
    if s = .singleQuoted ∧ !a.singleQuoted then .doubleQuoted else s
  match wanted with
  | .plain =>
    if (if flow then !a.flowPlain else !a.blockPlain) || (text == "" && (flow || key)) then
      quoted .singleQuoted
    else .plain
  | .literal | .folded => if !a.block || flow || key then .doubleQuoted else wanted
  | s => quoted s

/-! ## The pen -/

/-- The text written so far, newest character first, and the comments still to be written. `tail` is the one
below the entry before, `keyLine` the one on the line of a key. -/
structure Pen where
  out : List Char := []
  column : Nat := 0
  afterBlank : Bool := true
  inIndent : Bool := true
  /-- The column of a comment that was just written below something: an empty line follows it there. -/
  footColumn : Option Nat := none
  comments : Comments := {}
  tail : List Char := []
  keyLine : List Char := []

namespace Pen

def put (p : Pen) (c : Char) : Pen := { p with out := c :: p.out, column := p.column + 1 }

def puts (p : Pen) (cs : List Char) : Pen := cs.foldl put p

def newline (p : Pen) : Pen := { p with out := '\n' :: p.out, column := 0, inIndent := true }

/-- Writes a line end of a text. -/
def putBreak (p : Pen) (c : Char) : Pen :=
  if c == '\n' then p.newline else { p.put c with column := 0, inIndent := true }

/-- Moves to a column on a line that holds nothing else. -/
def indent (p : Pen) (column : Nat) : Pen :=
  let p := if !p.inIndent || column < p.column || (p.column == column && !p.afterBlank) then p.newline
    else p
  let p := if p.footColumn == some column then p.newline else p
  { p.puts (List.replicate (column - p.column) ' ') with afterBlank := true, footColumn := none }

/-- Writes a mark, with a blank before it if `apart` holds and there is none. -/
def mark (p : Pen) (text : String) (apart afterBlank inIndent : Bool) : Pen :=
  let p := if apart && !p.afterBlank then p.put ' ' else p
  { p.puts text.toList with afterBlank := afterBlank, inIndent := p.inIndent && inIndent }

/-! ## Comments -/

/-- Writes the lines of a comment. `broken` tells whether a line has just ended, `marked` whether this one
has its mark. -/
def commentChars (column : Nat) (broken marked : Bool) (p : Pen) : List Char → Pen
  | [] => { (if broken then p else p.newline) with afterBlank := true }
  | c :: more =>
    if isBreak c then commentChars column true false (p.putBreak c) more
    else
      let p := if broken then p.indent column else p
      let p := if !marked && c != '#' then (p.put '#').put ' ' else p
      commentChars column false true { p.put c with inIndent := false } more

/-- Writes a comment and ends its line. Further lines of it start at `column`. -/
def comment (p : Pen) (column : Nat) (text : List Char) : Pen := commentChars column false false p text

/-- Takes over the comments of a node that is about to be written. -/
def note (p : Pen) (c : Comments) (tail : List Char) : Pen :=
  let newer (a b : List Char) : List Char := if a.isEmpty then b else a
  { p with
    comments := ⟨newer c.head p.comments.head, newer c.line p.comments.line, newer c.foot p.comments.foot⟩
    tail := newer tail p.tail }

/-- Writes the comment below the entry before and the one above what follows. -/
def writeAbove (p : Pen) (column : Nat) : Pen :=
  let p := if p.tail.isEmpty then p
    else { (p.indent column).comment column p.tail with tail := [], footColumn := some column }
  if p.comments.head.isEmpty then p
  else
    let p := (p.indent column).comment column p.comments.head
    { p with comments := { p.comments with head := [] } }

def writeBeside (p : Pen) (column : Nat) : Pen :=
  if p.comments.line.isEmpty then p
  else
    let p := (if p.afterBlank then p else p.put ' ').comment column p.comments.line
    { p with comments := { p.comments with line := [] } }

def writeBelow (p : Pen) (column : Nat) : Pen :=
  if p.comments.foot.isEmpty then p
  else
    let p := (p.indent column).comment column p.comments.foot
    { p with comments := { p.comments with foot := [] }, footColumn := some column }

def isFollowed (p : Pen) : Bool :=
  !p.comments.line.isEmpty || !p.comments.foot.isEmpty || !p.tail.isEmpty

/-- Writes the comments after an entry of a block collection. -/
def endEntry (p : Pen) (column : Nat) : Pen := (p.writeBeside column).writeBelow column

/-- Writes the comments after an entry of a flow collection. Its comma stands before them. -/
def endFlowEntry (p : Pen) (column : Nat) : Pen :=
  (if p.isFollowed then p.mark "," false false false else p).endEntry column

end Pen

/-! ## Scalars -/

/-- Writes the characters between single quotes; `broken` tells whether a line end came before. -/
def singleChars (column : Nat) (broken : Bool) (p : Pen) : List Char → Pen
  | [] => p
  | c :: more =>
    if c == ' ' then singleChars column broken (p.put c) more
    else if isBreak c then
      let p := if !broken && c == '\n' then p.newline else p
      singleChars column true (p.putBreak c) more
    else
      let p := if broken then p.indent column else p
      let p := if c == '\'' then p.put '\'' else p
      singleChars column false { p.put c with inIndent := false } more

def doubleEscape (c : Char) : List Char :=
  let n := c.toNat
  let hex (width : Nat) : List Char := (Text.hexDigits width n).map Char.toUpper
  let letter : Option Char :=
    match n with
    | 0x00 => some '0'
    | 0x07 => some 'a'
    | 0x08 => some 'b'
    | 0x09 => some 't'
    | 0x0A => some 'n'
    | 0x0B => some 'v'
    | 0x0C => some 'f'
    | 0x0D => some 'r'
    | 0x1B => some 'e'
    | 0x22 => some '"'
    | 0x5C => some '\\'
    | 0x85 => some 'N'
    | 0xA0 => some '_'
    | 0x2028 => some 'L'
    | 0x2029 => some 'P'
    | _ => none
  match letter with
  | some l => ['\\', l]
  | none =>
    if n ≤ 0xFF then '\\' :: 'x' :: hex 2
    else if n ≤ 0xFFFF then '\\' :: 'u' :: hex 4
    else '\\' :: 'U' :: hex 8

/-- A character as written between double quotes. If `marked` holds, all are escaped. -/
def doubleChar (marked : Bool) (c : Char) : List Char :=
  if marked || !isPlainPrintable c || isBreak c || c == '"' || c == '\\' then doubleEscape c else [c]

/-- The characters between double quotes. In a text that starts with an encoding mark all are escaped. -/
def doubleChars (cs : List Char) : List Char := cs.flatMap (doubleChar (cs.head? == some orderMark))

/-- The marks of a block scalar: its indentation if the text starts with a blank, and how line ends are
kept. -/
def blockMarks (cs : List Char) : String :=
  let starts := cs.head?.any fun c => c == ' ' || isBreak c
  let ends :=
    match cs.reverse with
    | [] => "-"
    | last :: before =>
      if !isBreak last then "-"
      else if before.head?.all isBreak then "+"
      else ""
  (if starts then "4" else "") ++ ends

def literalChars (column : Nat) (broken : Bool) (p : Pen) : List Char → Pen
  | [] => p
  | c :: more =>
    if isBreak c then literalChars column true (p.putBreak c) more
    else
      let p := if broken then p.indent column else p
      literalChars column false { p.put c with inIndent := false } more

/-- Writes the lines of a folded scalar, with line ends between lines of text twice, unless the text starts
with line ends and a blank. -/
def foldedChars (column : Nat) (double : Bool) (broken blank : Bool) (p : Pen) : List Char → Pen
  | [] => p
  | c :: more =>
    if isBreak c then
      let p := if !broken && !blank && c == '\n' && double then p.newline else p
      foldedChars column double true blank (p.putBreak c) more
    else
      let blank := if broken then isSpace c else blank
      let p := if broken then p.indent column else p
      foldedChars column double false blank { p.put c with inIndent := false } more

/-- Writes a scalar in a style, further lines at `column`. The comment of a block scalar stands after its
marks. -/
def writeScalar (p : Pen) (column : Nat) (cs : List Char) (style : ScalarStyle) : Pen :=
  let closed (p : Pen) : Pen := { p with afterBlank := false, inIndent := false }
  match style with
  | .plain =>
    if cs.isEmpty then { p with inIndent := false }
    else closed ((if p.afterBlank then p else p.put ' ').puts cs)
  | .singleQuoted => closed ((singleChars column false (p.mark "'" true false false) cs).mark "'" false
      false false)
  | .doubleQuoted =>
    closed (((p.mark "\"" true false false).puts (doubleChars cs)).mark "\"" false false false)
  | .literal =>
    let p := (p.mark "|" true false false).mark (blockMarks cs) false false false
    literalChars column true { p.writeBeside column with afterBlank := true } cs
  | .folded =>
    let p := (p.mark ">" true false false).mark (blockMarks cs) false false false
    let after := (cs.dropWhile isBreak).head?
    let double := !(after.all fun c => isSpace c || isBreak c)
    foldedChars column double true true { p.writeBeside column with afterBlank := true } cs

/-! ## Nodes -/

/-- Where a node stands: in flow collections, as a key without a mark, or in a block sequence. The comment
below a key comes after its value. -/
structure Place where
  flow : Bool := false
  key : Bool := false
  entry : Bool := false
  footless : Bool := false

/-- What a node at a place has of its own. -/
def Head.within (h : Head) (place : Place) : Head :=
  if place.footless then { h with comments := { h.comments with foot := [] } } else h

/-- The columns that a level of nesting takes. -/
def indentWidth : Nat := 4

/-- The indentation one level further in: an entry of a sequence moves past its mark, all else to the next
multiple of the width; the root starts at the first column, or at the width if `flow` holds. -/
def deeper (column : Option Nat) (flow entry : Bool) : Nat :=
  match column with
  | none => if flow then indentWidth else 0
  | some c => if entry then c + 2 else indentWidth * ((c + indentWidth) / indentWidth)

/-- Whether a character stands for itself in a tag. -/
def isTagLetter (c : Char) : Bool := isHandleChar c || ";/?:@&=+$,_.~*'()[]".toList.contains c

/-- The text of a tag, with percent signs for what does not stand for itself. -/
def tagLetters (cs : List Char) : List Char :=
  cs.flatMap fun c =>
    if isTagLetter c then [c]
    else (Text.charBytes c).flatMap fun b => '%' :: (Text.hexDigits 2 b).map Char.toUpper

/-- The text of a tag: with its handle, or in brackets if it has none. -/
def tagMark (t : Tag) : String :=
  String.ofList <| match t.text.toList with
    | '!' :: '!' :: cs => '!' :: '!' :: tagLetters cs
    | '!' :: cs => '!' :: tagLetters cs
    | cs => '!' :: '<' :: tagLetters cs ++ ['>']

/-- Whether the tag of a node is written: if it was, or if it is that of a merge key. -/
def Head.showsTag (h : Head) : Bool := h.tagged || h.tag == .merge

def writeHead (p : Pen) (h : Head) : Pen :=
  let p := if h.anchor = "" then p else p.mark ("&" ++ h.anchor) true false false
  if h.showsTag then p.mark (tagMark h.tag) true false false else p

/-- The longest key that is written without a mark. -/
def simpleKeyLimit : Nat := 128

def Head.size (h : Head) : Nat := Text.size h.anchor + (if h.showsTag then Text.size h.tag.text else 0)

/-- Whether a key can be written without a mark: it is short and on one line. -/
def isSimpleKey : Node → Bool
  | .reference _ name _ => Text.size name ≤ simpleKeyLimit
  | .scalar h text _ => !(analyze text.toList).multiline && h.size + Text.size text ≤ simpleKeyLimit
  | .sequence h _ items => items.isEmpty && h.size ≤ simpleKeyLimit
  | .mapping h _ entries => entries.isEmpty && h.size ≤ simpleKeyLimit

namespace Pen

/-- Takes over the comments of a node at its start, for a collection only the one above. A scalar or mapping
that is a key takes over `tail`. -/
def noteStart (p : Pen) (n : Node) (tail : List Char) : Pen :=
  let c := n.head.comments
  match n with
  | .scalar .. => p.note c tail
  | .reference .. => p.note c []
  | .mapping .. => p.note { head := c.head } tail
  | .sequence .. => p.note { head := c.head } []

/-- Takes over the comments of a collection when it ends. -/
def noteEnd (p : Pen) (h : Head) (tail : List Char) : Pen := p.note { h.comments with head := [] } tail

/-- Keeps the comment on the line of a key until its value is known. -/
def holdKeyLine (p : Pen) : Pen :=
  if p.comments.line.isEmpty then p
  else { p with keyLine := p.comments.line, comments := { p.comments with line := [] } }

/-- Writes the comment on the line of a key: after a scalar that has none of its own, or before a block
collection. -/
def releaseKeyLine (p : Pen) (column : Nat) (value : Node) : Pen :=
  if p.keyLine.isEmpty then p
  else
    let beforeBlock : Pen :=
      let line := p.comments.line
      let q := { p with comments := { p.comments with line := p.keyLine } }.writeBeside column
      { q with comments := { q.comments with line }, keyLine := [] }
    match value with
    | .scalar .. =>
      if p.comments.line.isEmpty then { p with comments := { p.comments with line := p.keyLine }, keyLine := [] }
      else p
    | .sequence _ flow _ | .mapping _ flow _ => if flow then p else beforeBlock
    | .reference .. => p

end Pen

mutual

/-- Writes a node; `after` is written when a scalar is complete or a collection has begun. -/
def writeNode (p : Pen) (column : Option Nat) (place : Place) (after : Pen → Pen) : Node → Pen
  | .reference _ name _ => after (p.mark ("*" ++ name) true false false)
  | .scalar h text style =>
    let cs := (Text.shown text).toList
    let style := chosenStyle (Text.shown text) style place.flow place.key
    after (writeScalar (writeHead p h) (deeper column true place.entry) cs style)
  | .sequence h flow items =>
    let p := after (writeHead p h)
    let h := h.within place
    if flow || place.flow || items.isEmpty then
      let p := p.mark "[" true true false
      let p := writeFlowItems p (deeper column true place.entry) true items
      let outer := column.getD 0
      let p := p.noteEnd h []
      let p := if p.column = 0 then p.indent outer else p
      (p.mark "]" false false false).endEntry outer
    else (writeItems p (deeper column false place.entry) items).noteEnd h []
  | .mapping h flow entries =>
    let p := after (writeHead p h)
    let h := h.within place
    if flow || place.flow || entries.isEmpty then
      let p := p.mark "\x7b" true true false
      let p := writeFlowEntries p (deeper column true place.entry) h true true [] entries
      (p.mark "\x7d" false false false).endEntry (column.getD 0)
    else writeEntries p (deeper column false place.entry) h [] entries

/-- Writes the entries of a flow sequence; `separated` tells whether a comma stands before the next one. -/
def writeFlowItems (p : Pen) (column : Nat) (separated : Bool) : List Node → Pen
  | [] => p
  | n :: rest =>
    let p := p.noteStart n []
    let p := if separated then p else p.mark "," false false false
    let p := p.writeAbove column
    let p := if p.column = 0 then p.indent column else p
    let followed := p.isFollowed
    let p := writeNode p (some column) { flow := true } (·.endFlowEntry column) n
    writeFlowItems p column followed rest

/-- Writes the entries of a flow mapping with the head `h`. `tail` is the comment below the entry before. -/
def writeFlowEntries (p : Pen) (column : Nat) (h : Head) (first separated : Bool) (tail : List Char) :
    List (Node × Node) → Pen
  | [] =>
    let p := p.noteEnd h tail
    let commented := !p.comments.head.isEmpty || !p.comments.foot.isEmpty || !p.tail.isEmpty
    let p := if commented && !first && !separated then p.mark "," false false false else p
    p.writeAbove column
  | (k, v) :: rest =>
    let p := p.noteStart (k.withFoot []) tail
    let p := if separated then p else p.mark "," false false false
    let p := p.writeAbove column
    let p := if p.column = 0 then p.indent column else p
    let simple := isSimpleKey k
    let p := if simple then p else p.mark "?" true false false
    let p := writeNode p (some column) { flow := true, key := simple, footless := true } id k
    let p := p.noteStart v []
    let p := p.mark ":" (!simple) false false
    let followed := p.isFollowed
    let p := writeNode p (some column) { flow := true } (·.endFlowEntry column) v
    writeFlowEntries p column h false followed k.foot rest

def writeItems (p : Pen) (column : Nat) : List Node → Pen
  | [] => p
  | n :: rest =>
    let p := (p.noteStart n []).writeAbove column
    let p := (p.indent column).mark "-" true false true
    writeItems (writeNode p (some column) { entry := true } (·.endEntry column) n) column rest

/-- Writes the entries of a block mapping with the head `h`. `tail` is the comment below the entry before.
-/
def writeEntries (p : Pen) (column : Nat) (h : Head) (tail : List Char) : List (Node × Node) → Pen
  | [] => (p.noteEnd h tail).writeAbove column
  | (k, v) :: rest =>
    let p := (p.noteStart (k.withFoot []) tail).writeAbove column
    let p := (p.indent column).holdKeyLine
    let simple := isSimpleKey k
    let p := if simple then p else p.mark "?" true false true
    let p := writeNode p (some column) { key := simple, footless := true } id k
    let p := p.noteStart v []
    let p := if simple then p.mark ":" false false false
      else (p.indent column).mark ":" true false true
    let p := p.releaseKeyLine column v
    let p := writeNode p (some column) {} (·.endEntry column) v
    writeEntries p column h k.foot rest

end

def Node.print (n : Node) : String :=
  let p := (({} : Pen).noteStart n []).writeAbove 0
  let p := writeNode p none {} (·.endEntry 0) n
  let p := { p with footColumn := some 0 }.writeBelow 0
  Text.received (String.ofList p.out.reverse)

end FlowCompiler.Document
