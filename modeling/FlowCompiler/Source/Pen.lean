import FlowCompiler.Source.Condition
import FlowCompiler.Source.Entry
import FlowCompiler.Source.Remark
import Std.Data.HashMap

/-!
# Writing source text

A pen writes the lexemes of a source text one after the other. White space is held back until the next lexeme
comes, for comments may have to be written first: they go where they stand in the source, and the space
around them is chosen so that neither their lines nor the meaning of the code change.

What is written is not yet text: columns are still marked (`Ink.column`), and literals are kept apart from
the rest, since nothing in them may be moved.
-/

namespace FlowCompiler.Source

open FlowCompiler.Source.Tree

/-- White space that is held back. `indent` and `unindent` are for the lines that follow. -/
inductive Space where
  | ignore
  | blank
  | column
  | newline
  | section
  | indent
  | unindent
deriving DecidableEq, Repr

/-- What a pen has written. A `section` is a line end after which columns start anew. -/
inductive Ink where
  | text (s : String)
  | literal (s : String)
  | blank
  | tab
  | column
  | newline
  | section
deriving DecidableEq, Repr

/-- A position in the source or in what is written. The line is zero if there is none. -/
structure Spot where
  offset : Nat
  line : Nat
  column : Nat
deriving DecidableEq, Repr, Inhabited

/-- An offset behind every text. -/
def farAway : Nat := 0x40000000

/-- The state of a pen. -/
structure Pen where
  /-- The lines of the source. -/
  lines : LineTable
  /-- Whether comments are taken from the nodes as they are written. -/
  ownComments : Bool := false
  /-- Whether numbers are brought to their usual form. -/
  usualNumbers : Bool := false
  /-- The groups of comments after the current one. -/
  comments : List Group := []
  /-- The group that comes next, where it starts, and whether a line ends in it. -/
  group : Group := []
  groupOffset : Nat := farAway
  groupBreaks : Bool := false
  indent : Nat := 0
  /-- How many literals are open. -/
  level : Nat := 0
  noExtraBlank : Bool := false
  noExtraLineBreak : Bool := false
  /-- Whether columns are no longer aligned up to the end of the line. -/
  endAlignment : Bool := false
  /-- Whether a line end here would end a statement. -/
  endsStatement : Bool := false
  lastTok : Tok := .none
  lastOpening : Tok := .none
  spaces : List Space := []
  /-- The positions in the source and in the output, and the source position after the last lexeme. -/
  pos : Spot := ⟨0, 1, 1⟩
  out : Spot := ⟨0, 1, 1⟩
  last : Spot := ⟨0, 0, 0⟩
  /-- Lines that were asked for, and the one that the next lexeme gives. -/
  marks : Array Nat := #[]
  pending : Option Nat := none
  /-- The known sizes of nodes, by their places. A node that does not fit on a line has none. -/
  sizes : Std.HashMap (Place × Option Place) (Option Nat) := ∅
  output : Array Ink := #[]
  /-- Where comments with build conditions start in the output, last one first: with an expression, and with
  words. -/
  expressions : List Nat := []
  words : List Nat := []

abbrev Write (α : Type) := StateM Pen α

namespace Pen

def spot (p : Pen) (place : Place) : Spot :=
  if place = 0 then ⟨0, 0, 0⟩ else ⟨place, p.lines.lineOf place, p.lines.columnOf place⟩

def lineFor (p : Pen) (place : Place) : Nat := p.lines.lineOf place

/-- Whether a group of comments has a line end in it or after it. -/
def breaks (p : Pen) : Group → Bool
  | [] => false
  | c :: cs =>
    (c :: cs).any (fun d => p.lineFor d.place != p.lineFor c.place) ||
      (c :: cs).any fun d =>
        let t := d.text.toList
        t.take 2 == ['/', '/'] || t.contains '\n'

def nextGroup (p : Pen) : Pen :=
  match p.comments with
  | [] => { p with groupOffset := farAway }
  | g :: gs =>
    { p with
      comments := gs
      group := g
      groupOffset := (g.head?.map (·.place)).getD farAway
      groupBreaks := p.breaks g }

/-- Whether comments, which must not end a statement, have to be written before a position. -/
def commentBefore (p : Pen) (next : Spot) : Bool :=
  p.groupOffset < next.offset && (!p.endsStatement || !p.groupBreaks)

end Pen

/-- At most two line ends are written at once. -/
def fewLines (n : Nat) : Nat := min n 2

namespace Write

def space (ink : Ink) (n : Nat) : Write Unit := modify fun p =>
  let lineEnds := ink == .newline || ink == .section
  let ink := if !p.endAlignment then ink
    else if ink == .tab || ink == .column then .blank
    else if lineEnds then .section
    else ink
  let p := { p with
    endAlignment := p.endAlignment && !lineEnds
    output := (List.replicate n ink).foldl Array.push p.output }
  if lineEnds then
    { p with
      pos := ⟨p.pos.offset + n, p.pos.line + n, 1⟩
      out := ⟨p.out.offset + n, p.out.line + n, 1⟩ }
  else
    { p with
      pos := ⟨p.pos.offset + n, p.pos.line, p.pos.column + n⟩
      out := ⟨p.out.offset + n, p.out.line, p.out.column + n⟩ }

def indentation : Write Unit := modify fun p =>
  let n := p.indent
  { p with
    output := (List.replicate n Ink.tab).foldl Array.push p.output
    pos := ⟨p.pos.offset + n, p.pos.line, p.pos.column + n⟩
    out := ⟨p.out.offset + n, p.out.line, p.out.column + n⟩ }

def endsLine (c : Char) : Bool := c == '\n' || c == '\x0c'

def text (at' : Spot) (s : String) (literal : Bool) : Write Unit := do
  if (← get).out.column = 1 then indentation
  modify fun p =>
    let pos := if 0 < at'.line then at' else p.pos
    let size := s.utf8ByteSize
    let lineEnds := s.toList.countP endsLine
    let tail := s.toList.reverse.takeWhile fun c => !endsLine c
    let column (c : Nat) : Nat :=
      if 0 < lineEnds then 1 + (String.ofList tail).utf8ByteSize else c + size
    let pos := ⟨pos.offset + size, pos.line + lineEnds, column pos.column⟩
    { p with
      output := p.output.push (if literal then .literal s else .text s)
      endAlignment := p.endAlignment || 0 < lineEnds
      pos := pos
      out := ⟨p.out.offset + size, p.out.line + lineEnds, column p.out.column⟩
      last := pos }

/-- Writes held back white space. A line end before `unindent` comes after it, as labels need. -/
def spaceList : List Space → Write Unit
  | [] => return ()
  | .ignore :: rest => spaceList rest
  | .indent :: rest => do
    modify fun p => { p with indent := p.indent + 1 }
    spaceList rest
  | .unindent :: rest => do
    modify fun p => { p with indent := p.indent - 1 }
    spaceList rest
  | .newline :: .unindent :: rest | .section :: .unindent :: rest => do
    modify fun p => { p with indent := p.indent - 1 }
    spaceList (.section :: rest)
  | .newline :: rest => do
    space .newline 1
    spaceList rest
  | .section :: rest => do
    space .section 1
    spaceList rest
  | .blank :: rest => do
    space .blank 1
    spaceList rest
  | .column :: rest => do
    space .column 1
    spaceList rest
termination_by ss => ss.length

def firstSpaces (n : Nat) : Write Unit := do
  let spaces := (← get).spaces
  spaceList (spaces.take n)
  modify fun p => { p with spaces := spaces.drop n }

def allSpaces : Write Unit := do firstSpaces (← get).spaces.length

/-! ## Comments -/

/-- The space before a comment on the line of the last lexeme: columns stay, blanks are dropped. Gives the
space, how much of it comes before the comment, and whether there is a column. -/
def spaceOnLine (before : List Space) (column : Bool) : List Space → List Space × Nat × Bool
  | [] => (before.reverse, 0, column)
  | .blank :: rest => spaceOnLine (.ignore :: before) column rest
  | .column :: rest => spaceOnLine (.column :: before) true rest
  | .indent :: rest => spaceOnLine (.indent :: before) column rest
  | s :: rest => (before.reverse ++ s :: rest, before.length, column)

/-- The space before a comment on another line, without blanks, columns and its line end. `aligned` tells
whether the comment is aligned with a lexeme that follows and closes no block. Gives the space, how much of
it comes before the comment, and whether a line end was dropped. -/
def spaceBetweenLines (aligned : Bool) (before : List Space) : List Space → List Space × Nat × Bool
  | [] => (before.reverse, 0, false)
  | .blank :: rest | .column :: rest => spaceBetweenLines aligned (.ignore :: before) rest
  | .indent :: rest => spaceBetweenLines aligned (.indent :: before) rest
  | .unindent :: rest =>
    if rest.head? == some .unindent || aligned then
      spaceBetweenLines aligned (.unindent :: before) rest
    else (before.reverse ++ .unindent :: rest, before.length, false)
  | .newline :: rest | .section :: rest => (before.reverse ++ .ignore :: rest, before.length, true)
  | .ignore :: rest => (before.reverse ++ .ignore :: rest, before.length, false)

def isLineComment (c : Comment) : Bool := c.text.toList.take 2 == ['/', '/']

/-- Writes the space between the comment `before` and one at `at'`, with the lexeme `tok` at `next` to
follow. -/
def beforeComment (at' next : Spot) (before : Option Comment) (tok : Tok) : Write Unit := do
  let p ← get
  if p.output.isEmpty then return ()
  if at'.line == p.last.line && !(before.any isLineComment) then
    let hasColumn ← if before.isNone then
        let (spaces, n, column) := spaceOnLine [] false p.spaces
        set { p with spaces := spaces }
        firstSpaces n
        pure column
      else pure false
    if !hasColumn then space (if at'.line == next.line then .blank else .tab) 1
  else
    let aligned := tok != .sign "\x7d" && at'.column == next.column
    let (spaces, n, dropped) := spaceBetweenLines aligned [] p.spaces
    set { p with spaces := spaces }
    firstSpaces n
    let p ← get
    let lines := if 0 < at'.line && 0 < p.last.line then at'.line - p.last.line else 0
    let lines := if p.indent = 0 && dropped && before.isNone then lines + 1 else lines
    let lines := if lines = 0 && before.any isLineComment then 1 else lines
    if 0 < lines then space .section (fewLines lines)

/-- Writes the lines of a block comment after the first. -/
def commentLines : List (List Char) → Write Unit
  | [] => return ()
  | l :: ls => do
    space .section 1
    if !l.isEmpty then text (← get).pos (String.ofList (Remark.trimEnd l)) true
    commentLines ls

def noteCondition (c : Comment) : Write Unit := modify fun p =>
  if (Condition.expressionText? c.text.toList).isSome then
    { p with expressions := p.output.size :: p.expressions }
  else if (Condition.wordsText? c.text.toList).isSome then { p with words := p.output.size :: p.words }
  else p

def comment (c : Comment) : Write Unit := do
  let p ← get
  let at' := p.spot c.place
  let indent := p.indent
  let numbersLines := "//line ".toList.isPrefixOf c.text.toList && at'.column ≤ 1
  if numbersLines then set { p with indent := 0 }
  if isLineComment c then
    noteCondition c
    text at' (String.ofList (Remark.trimEnd c.text.toList)) true
  else
    match Remark.blockLines c.text (at'.column == 1 && 0 < p.indent) with
    | [] => return ()
    | first :: rest =>
      text at' (String.ofList (Remark.trimEnd first)) true
      commentLines rest
  if numbersLines then modify fun p => { p with indent := indent }

/-- The space after comments, with at most one line end. Gives the space, whether a line end is still
needed, and whether one that starts a new section was dropped. -/
def spaceAfter (needed dropped : Bool) : List Space → List Space × Bool × Bool
  | [] => ([], needed, dropped)
  | s :: rest =>
    match s with
    | .blank | .column =>
      let (spaces, needed, dropped) := spaceAfter needed dropped rest
      (.ignore :: spaces, needed, dropped)
    | .newline | .section =>
      if needed then
        let (spaces, _, dropped) := spaceAfter false dropped rest
        (s :: spaces, false, dropped)
      else
        let (spaces, needed, dropped) := spaceAfter needed (dropped || s == .section) rest
        (.ignore :: spaces, needed, dropped)
    | _ =>
      let (spaces, needed, dropped) := spaceAfter needed dropped rest
      (s :: spaces, needed, dropped)

/-- Writes the space after comments. Tells whether a line end was written, and one of a new section dropped.
-/
def afterComments (needed : Bool) : Write (Bool × Bool) := do
  let p ← get
  let (spaces, still, dropped) := spaceAfter needed false p.spaces
  set { p with spaces := spaces }
  allSpaces
  if still then space .newline 1
  return (needed, dropped)

/-- Writes comments of a group, after the comment `before`, and gives the last one. -/
def groupComments (next : Spot) (tok : Tok) (before : Option Comment) : List Comment → Write (Option Comment)
  | [] => return before
  | c :: cs => do
    beforeComment ((← get).spot c.place) next before tok
    comment c
    groupComments next tok (some c) cs

def stopOf (g : Group) : Place :=
  match g.getLast? with
  | some c => c.place + c.text.utf8ByteSize
  | none => 0

/-- Whether a group documents the declaration at a position. -/
def documents (p : Pen) (next : Spot) : Bool :=
  match p.group with
  | [] => false
  | c :: _ =>
    p.lastTok != .keyword "import" && (p.spot c.place).column == 1 &&
      p.spot (stopOf p.group + 1) == next

/-- Writes the groups of comments before a position, after `before`. Gives the last comment, or nothing if
one without text was dropped. -/
def groups (next : Spot) (tok : Tok) : Nat → Option Comment → Write (Option (Option Comment))
  | 0, before => return some before
  | fuel + 1, before => do
    let p ← get
    if !p.commentBefore next then return some before
    if documents p next then
      let usual := DocText.usualGroup p.group
      if usual.isEmpty then
        beforeComment (p.spot ((p.group.head?.map (·.place)).getD 0)) next before tok
        modify fun p => { p with pos := next, last := next }
        modify Pen.nextGroup
        return none
      let _ ← groupComments next tok before usual
      modify fun p =>
        let stop := p.spot (stopOf p.group)
        { p with pos := stop, last := stop }
      let last := p.group.getLast?
      modify Pen.nextGroup
      groups next tok fuel last
    else
      let last ← groupComments next tok before p.group
      modify Pen.nextGroup
      groups next tok fuel last

/-- Writes the comments before a position with the space around them. -/
def commentsBefore (next : Spot) (tok : Tok) : Write (Bool × Bool) := do
  match ← groups next tok ((← get).comments.length + 2) none with
  | none => afterComments false
  | some none => afterComments false
  | some (some last) =>
    let p ← get
    let block := !isLineComment last
    let apart := !p.noExtraBlank && block && p.lineFor last.place == next.line && tok != .sign "," &&
      (tok != .sign ")" || p.lastOpening == .sign "(") && (tok != .sign "]" || p.lastOpening == .sign "[")
    let lineEnds := p.spaces.any fun s => s == .newline || s == .section
    let breaks := apart && lineEnds && !p.noExtraLineBreak && p.level == 0
    if apart && !breaks then space .blank 1
    let needed := breaks || !block || tok == .stop || (tok == .sign "\x7d" && !p.noExtraLineBreak)
    afterComments needed

/-- Writes what has to come before the lexeme `tok` at a position. -/
def flush (next : Spot) (tok : Tok) : Write (Bool × Bool) := do
  if (← get).commentBefore next then commentsBefore next tok
  else
    allSpaces
    return (false, false)

/-! ## Lexemes -/

def noteOpening : Write Unit := modify fun p =>
  match p.lastTok with
  | .none => p
  | .sign "(" => { p with lastOpening := .sign "(" }
  | .sign "[" => { p with lastOpening := .sign "[" }
  | _ => { p with lastOpening := .none }

def spaceLimit : Nat := 16

/-- Holds white space back. -/
def hold (s : Space) : Write Unit := do
  noteOpening
  if s == .ignore then return ()
  if (← get).spaces.length == spaceLimit then allSpaces
  modify fun p =>
    { p with
      spaces := p.spaces ++ [s]
      endsStatement := p.endsStatement && !(s == .newline || s == .section)
      lastTok := .none }

/-- Sets the position in the source of what is written next. -/
def at' (place : Place) : Write Unit := modify fun p => if place = 0 then p else { p with pos := p.spot place }

/-- Writes a lexeme. `ends` tells whether a line end after it would end a statement. -/
def lexeme (tok : Tok) (data : String) (literal ends : Bool) : Write Unit := do
  modify fun p => { p with lastTok := tok }
  let next := (← get).pos
  let (wrote, dropped) ← flush next tok
  let p ← get
  let lines := if p.endsStatement then 0 else fewLines (next.line - p.pos.line)
  let lines := if wrote && lines == 2 then 1 else lines
  if 0 < lines then space (if dropped then .section else .newline) lines
  modify fun p =>
    match p.pending with
    | some mark => { p with marks := p.marks.setIfInBounds mark p.out.line, pending := none }
    | none => p
  text next data literal
  modify fun p => { p with endsStatement := ends && lines == 0 }

/-- Whether a sign would run together with the lexeme before it. -/
def runsTogether (before : Tok) (next : Char) : Bool :=
  match before with
  | .int => next == '.'
  | .sign "+" => next == '+'
  | .sign "-" => next == '-'
  | .sign "/" => next == '*'
  | .sign "<" => next == '-' || next == '<'
  | .sign "&" => next == '&' || next == '^'
  | _ => false

def token (tok : Tok) : Write Unit := do
  noteOpening
  let p ← get
  if tok.text.toList.head?.any (runsTogether p.lastTok) then set { p with spaces := [.blank] }
  lexeme tok tok.text false (tok matches .keyword "break" | .keyword "continue" | .keyword "fallthrough"
    | .keyword "return" | .sign "++" | .sign "--" | .sign ")" | .sign "]" | .sign "\x7d")

def sign (s : String) : Write Unit := token (.sign s)

def keyword (s : String) : Write Unit := token (.keyword s)

def name (s : String) : Write Unit := do
  noteOpening
  lexeme .name s false true

def literal (kind : Tok) (s : String) : Write Unit := do
  noteOpening
  lexeme kind s true true

/-- Switches an extra blank and an extra line end around comments on or off. -/
def toggle (blank lineBreak : Bool) : Write Unit := do
  noteOpening
  modify fun p =>
    { p with
      noExtraBlank := p.noExtraBlank != blank
      noExtraLineBreak := p.noExtraLineBreak != lineBreak }

/-- Holds back the line ends that lead to a line, at least `least`, after `before`. The first one starts a
new section if `anew` is set. Gives zero for none, one for one line end, and more otherwise. -/
def lineBreak (line least : Nat) (before : Space) (anew : Bool) : Write Nat := do
  let n := max (fewLines (line - (← get).pos.line)) least
  if n = 0 then return 0
  hold before
  if anew then hold .section
  let more := if anew then n - 1 else n
  for _ in List.range more do hold .newline
  return if anew then 2 + more else more

def mark : Write Nat := do
  let p ← get
  set { p with marks := p.marks.push 0, pending := some p.marks.size }
  return p.marks.size

def linesSince (mark : Option Nat) : Write Nat := do
  let p ← get
  return p.out.line - ((mark.bind (p.marks[·]?)).getD 0)

/-- Takes a group of comments from a node, if comments are taken from there. -/
def ownComment (g : Option Group) : Write Unit := do
  let p ← get
  match g with
  | none => return ()
  | some g =>
    if !p.ownComments then return ()
    if !p.comments.isEmpty then
      let _ ← flush (p.spot ((g.head?.map (·.place)).getD 0)) .none
    modify fun p =>
      let p := { p with comments := [g] }
      if p.groupOffset == farAway then p.nextGroup else p

end Write

end FlowCompiler.Source
