import FlowCompiler.Document.Token
import FlowCompiler.Document.Window

/-!
# The state of reading tokens

The lexer keeps the columns of the open block collections, the depth of flow collections, and for each
depth the token that may turn out to be a key: a key is only known when the colon after it is read, and
then its token is put in front of that token. A key stands on one line and within 1024 characters.

Tokens wait in a queue until they are taken. A token is numbered by how many were taken before it.
-/

namespace FlowCompiler.Document

/-- A token that may turn out to be a key, as it has to at the column of its block. -/
structure PossibleKey where
  possible : Bool := false
  required : Bool := false
  number : Nat := 0
  mark : Mark := {}
deriving DecidableEq, Repr

/-- The state of reading: the text left, and tokens and comments not yet used. -/
structure Lexer where
  window : Window
  /-- The number of characters of the whole text. -/
  length : Nat
  mark : Mark := {}
  /-- The line ends that were passed over since the last character that is no blank. -/
  newlines : Nat := 0
  flow : Nat := 0
  keyAllowed : Bool := true
  /-- The possible keys, the one of the innermost depth first. -/
  keys : List PossibleKey := [{}]
  /-- The numbers of the tokens that may be keys. -/
  waiting : List Nat := []
  indent : Int := -1
  indents : List Int := []
  tokens : List Token := []
  taken : Nat := 0
  comments : List Comment := []
deriving Repr

/-- Reading that ends at a fault. A fault has no description here. -/
abbrev Scan := StateT Lexer Option

namespace Lexer

def ofText (s : String) : Lexer :=
  let window := Window.ofText s
  { window, length := window.rest.length, tokens := [⟨.streamStart, {}, {}⟩] }

/-- More than the number of characters that are left. -/
def fuel (s : Lexer) : Nat := s.length + 2 - s.mark.index

def skipped (s : Lexer) : Lexer :=
  { s with
    window := { s.window with rest := s.window.rest.tail }
    mark := { s.mark with index := s.mark.index + 1, column := s.mark.column + 1 }
    newlines := if s.window.rest.head?.any isSpace then s.newlines else 0 }

/-- Passes over a line end of `n` characters. -/
def lineSkipped (s : Lexer) (n : Nat) : Lexer :=
  { s with
    window := { s.window with rest := s.window.rest.drop n }
    mark := ⟨s.mark.index + n, s.mark.line + 1, 0⟩
    newlines := s.newlines + 1 }

def nextNumber (s : Lexer) : Nat := s.taken + s.tokens.length

/-- Whether a possible key is too far behind. -/
def stale (s : Lexer) (k : PossibleKey) : Bool :=
  k.mark.line < s.mark.line || k.mark.index + 1024 < s.mark.index

/-- Puts a token at the place of the token with a number, or behind all others if that one was taken. -/
def insert (s : Lexer) (number : Nat) (t : Token) : Lexer :=
  { s with
    tokens := if number < s.taken then s.tokens ++ [t] else s.tokens.insertIdx (number - s.taken) t }

end Lexer

namespace Scan

def fault {α : Type} : Scan α := fun _ => none

def require (condition : Bool) : Scan Unit := if condition then pure () else fault

/-- Reads on until `n` characters ahead are known, or the end of the text. -/
def need (n : Nat) : Scan Unit := fun s =>
  (s.window.reach? (s.mark.index + n)).map fun w => ((), { s with window := w })

/-- The character `n` places ahead; there is none at the end of the text. -/
def ahead (n : Nat) : Scan (Option Char) := return (← get).window.rest[n]?

def look : Scan (Option Char) := ahead 0

def at? (n : Nat) (c : Char) : Scan Bool := return (← ahead n) == some c

/-- Whether a character is a blank, a line end or the end of the text. -/
def isGap (c : Option Char) : Bool := c.all fun c => isSpace c || isBreak c

/-- Whether a character is a line end or the end of the text. -/
def isLineEnd (c : Option Char) : Bool := c.all isBreak

def skip : Scan Unit := modify Lexer.skipped

/-- Passes over a line end and gives the text that it stands for. -/
def readBreak : Scan (List Char) := do
  let s ← get
  match s.window.rest with
  | '\r' :: '\n' :: _ => set (s.lineSkipped 2); pure ['\n']
  | c :: _ =>
    if isBreak c then
      set (s.lineSkipped 1)
      pure [if c.toNat = 0x2028 ∨ c.toNat = 0x2029 then c else '\n']
    else pure []
  | [] => pure []

def skipBreak : Scan Unit := do
  let _ ← readBreak

/-- Passes over the line end that comes next, unless the text ends. -/
def endLine : Scan Unit := do
  require (isLineEnd (← look))
  if (← look).isSome then
    need 2
    skipBreak

/-- Reads characters of a class; after each of them `n` characters have to be known. -/
def readWhileFrom (accept : Char → Bool) (n : Nat) : Nat → List Char → Scan (List Char)
  | 0, read => pure read.reverse
  | fuel + 1, read => do
    match ← look with
    | some c =>
      if accept c then
        skip
        need n
        readWhileFrom accept n fuel (c :: read)
      else pure read.reverse
    | none => pure read.reverse

def readWhile (accept : Char → Bool) : Scan (List Char) := do
  need 1
  readWhileFrom accept 1 (← get).fuel []

def skipWhile (accept : Char → Bool) : Scan Unit := do
  let _ ← readWhile accept

/-- Whether a line starts here with three times `c` and a gap: the mark of a document's start or end. -/
def documentMark (c : Char) : Scan Bool := do
  let s ← get
  let rest := s.window.rest
  return s.mark.column == 0 && rest.take 3 == [c, c, c] && isGap rest[3]?

def anyDocumentMark : Scan Bool := return (← documentMark '-') || (← documentMark '.')

/-! ## Tokens and indentation -/

def append (t : Token) : Scan Unit := modify fun s => { s with tokens := s.tokens ++ [t] }

/-- Appends a token that started at `start` and stops here. -/
def emit (kind : TokenKind) (start : Mark) : Scan Unit := do
  append ⟨kind, start, (← get).mark⟩

def fixed (n : Nat) (kind : TokenKind) : Scan Unit := do
  let start := (← get).mark
  for _ in [0:n] do
    skip
  emit kind start

/-- How deep collections may stand in one another. -/
def depthLimit : Nat := 10000

/-- Opens a block collection at `column`, with its token in the place of `number`, unless a flow collection
or a block as far in is open. -/
def rollIndent (column number : Nat) (kind : TokenKind) (mark : Mark) : Scan Unit := do
  let s ← get
  if s.flow = 0 ∧ s.indent < column then
    require (s.indents.length < depthLimit)
    set ({ s with indents := s.indent :: s.indents, indent := column }.insert number ⟨kind, mark, mark⟩)

/-- Where a block ends: before the first of the comments at its own column that follow its text. The
comments come newest first. -/
def blockStop (indent : Int) (stopIndex : Nat) (block : Mark) : List Comment → Mark
  | [] => block
  | c :: older =>
    if c.stop.index < stopIndex then block
    else blockStop indent c.scan.index (if (c.start.column : Int) = indent + 1 then c.start else block) older

/-- Closes the blocks that are further in than `column`; `fuel` bounds their number. -/
def closeBlocks (column : Int) : Nat → Mark → Scan Unit
  | 0, _ => pure ()
  | fuel + 1, block => do
    let s ← get
    match s.indents with
    | [] => pure ()
    | outer :: more =>
      if column < s.indent then
        let block := blockStop s.indent block.index block s.comments.reverse
        append ⟨.blockEnd, block, block⟩
        modify fun s => { s with indent := outer, indents := more }
        closeBlocks column fuel block
      else pure ()

/-- Closes the blocks further in than `column`, with what follows them from `start` on. -/
def unrollIndent (column : Int) (start : Mark) : Scan Unit := do
  let s ← get
  if s.flow = 0 then closeBlocks column s.indents.length { start with index := start.index - 1 }

/-! ## Possible keys -/

/-- Gives up the possible key of this depth. A required one is a fault. -/
def removeKey : Scan Unit := do
  let s ← get
  match s.keys with
  | k :: more =>
    if k.possible then
      require (!k.required)
      set { s with keys := { k with possible := false } :: more, waiting := s.waiting.erase k.number }
  | [] => pure ()

/-- Notes that the next token may be a key. -/
def saveKey : Scan Unit := do
  let s ← get
  if s.keyAllowed then
    let key : PossibleKey :=
      { possible := true, required := s.flow == 0 && s.indent == s.mark.column, number := s.nextNumber,
        mark := s.mark }
    removeKey
    modify fun s => { s with keys := key :: s.keys.tail, waiting := key.number :: s.waiting }

/-- Whether the key of the next token to be taken is still awaited. A required one that is too far behind is a
fault. -/
def awaitsKey : Scan Bool := do
  let s ← get
  if s.waiting.contains s.taken then
    match s.keys.find? fun k => k.possible && k.number == s.taken with
    | none => pure false
    | some k =>
      if s.stale k then
        require (!k.required)
        pure false
      else pure true
  else pure false

def allowKey (allowed : Bool) : Scan Unit := modify fun s => { s with keyAllowed := allowed }

end Scan

end FlowCompiler.Document
