import FlowCompiler.Document.Lexer

/-!
# Reading comments

A comment on the line of a token belongs to that token. Comments on lines of their own stand above what
follows them, or below what comes before them: below it if they start on the next line and an empty line
follows, if what follows is further out, or if they are the last thing in a flow collection.

A comment is looked for at most 512 characters ahead.
-/

namespace FlowCompiler.Document.Scan

def commentReach : Nat := 512

def keepComment (c : Comment) : Scan Unit := modify fun s => { s with comments := s.comments ++ [c] }

/-- Reads a comment from character `seen` up to its line end; what stands before it is passed over. -/
def commentLine (seen : Nat) : Nat → List Char → Scan (List Char)
  | 0, read => pure read.reverse
  | fuel + 1, read => do
    need 1
    let s ← get
    match s.window.rest.head? with
    | none => pure read.reverse
    | some c =>
      if isBreak c then
        if seen ≤ s.mark.index then pure read.reverse
        else
          need 2
          skipBreak
          commentLine seen fuel read
      else
        skip
        commentLine seen fuel (if seen ≤ s.mark.index then c :: read else read)

/-! ## Comments on the line of a token -/

/-- The number of blanks before a comment on this line, if there is one. -/
def blanksBeforeComment : Nat → Nat → Scan (Option Nat)
  | 0, _ => pure none
  | fuel + 1, n => do
    need (n + 1)
    match ← ahead n with
    | some '#' => pure (some n)
    | some c => if isSpace c then blanksBeforeComment fuel (n + 1) else pure none
    | none => pure none

/-- Reads a comment on the line of the token at `owner`, if that line has not ended. -/
def lineComment (owner : Mark) : Scan Unit := do
  if (← get).newlines = 0 then
    match ← blanksBeforeComment commentReach 0 with
    | none => pure ()
    | some n =>
      let s ← get
      let text ← commentLine (s.mark.index + n) (s.fuel + 1) []
      let start : Mark := { s.mark with index := s.mark.index + n, column := s.mark.column + n }
      keepComment { kind := .line, text, owner, start }

/-! ## Comments on lines of their own -/

/-- A character that stands for the inner bytes of a longer one. -/
def innerByte : Char := Char.ofNat 1

def charAtByte : List Char → Nat → Option Char
  | [], _ => none
  | c :: _, 0 => some c
  | c :: cs, n + 1 => if n + 1 < c.utf8Size then some innerByte else charAtByte cs (n + 1 - c.utf8Size)

/-- What was read of the comments between two tokens. -/
structure CommentRun where
  text : List Char := []
  start : Mark := {}
  scan : Mark
  owner : Mark
  line : Nat
  column : Nat
  afterEmpty : Bool := false
  beforeEmpty : Bool

/-- Ends the current comment as one that stands below what comes before it. -/
def CommentRun.endFoot (r : CommentRun) (index : Nat) : Scan CommentRun := do
  let here : Mark := ⟨index, r.line, r.column⟩
  keepComment { kind := .foot, text := r.text, owner := r.owner, start := r.start, scan := r.scan, stop := here }
  pure { r with text := [], scan := here, owner := here }

/-- Reads comments after the token `after`, one of which may stand below it on the line `footLine`. Tells
how far ahead it was looked. -/
def commentRun (after : TokenKind) (footLine : Int) : Nat → Nat → CommentRun → Scan (CommentRun × Nat)
  | 0, peek, r => pure (r, peek)
  | fuel + 1, peek, r => do
    if commentReach ≤ peek then return (r, peek)
    need (peek + 1)
    let s ← get
    let r := { r with column := r.column + 1 }
    let next := charAtByte s.window.rest peek
    if next.any isSpace then commentRun after footLine fuel (peek + 1) r
    else
      let indent := max s.indent 0
      let closes := 0 < s.flow && (next == some ']' || next == some '\x7d')
      if closes || isLineEnd next then
        let dedented := (r.start.column : Int) - 1 < indent
        let belongsBefore := closes ||
          (r.beforeEmpty && (((r.start.line : Int) == footLine && after != .value) || dedented))
        let r ←
          if !closes && r.afterEmpty then pure r
          else if belongsBefore then
            if r.text.isEmpty then pure r
            else
              let owner := if dedented then r.start else r.owner
              CommentRun.endFoot { r with owner } (s.mark.index + peek)
          else pure { r with text := if r.text.isEmpty || next.isNone then r.text else r.text ++ ['\n'] }
        if next.any isBreak then
          commentRun after footLine fuel (peek + 1)
            { r with beforeEmpty := false, afterEmpty := true, column := 0, line := r.line + 1 }
        else pure (r, peek)
      else
        let r ←
          if !r.text.isEmpty && (r.column : Int) - 1 < indent && r.column != r.start.column then
            r.endFoot (s.mark.index + peek)
          else pure r
        if next == some '#' then
          let start := if r.text.isEmpty then ⟨s.mark.index + peek, r.line, r.column⟩ else r.start
          let text ← commentLine (s.mark.index + peek) (s.fuel + 1) []
          let text := if r.text.isEmpty then text else r.text ++ '\n' :: text
          commentRun after footLine fuel 1
            { r with text, start, afterEmpty := false, column := 0, line := (← get).mark.line }
        else pure (r, peek)

/-- The token that comments stand after: the last one, or the one before it if that is a comma. -/
def tokenBeforeComments (s : Lexer) : Token :=
  match s.tokens.reverse with
  | t :: before :: _ => if t.kind = .flowEntry then before else t
  | [t] => t
  | [] => default

/-- Reads the comments up to the next token. What follows the last token was looked for from `scan` on. -/
def comments (scan : Mark) : Scan Unit := do
  let s ← get
  let token := tokenBeforeComments s
  let footLine : Int :=
    if scan.line = 0 then -1
    else (s.mark.line : Int) - s.newlines + 1 + (if s.newlines = 0 ∧ 1 < s.mark.column then 1 else 0)
  let (r, peek) ← commentRun token.kind footLine ((commentReach + 1) * (s.fuel + 1)) 0
    { scan, owner := token.start, line := s.mark.line, column := s.mark.column, beforeEmpty := s.newlines ≤ 1 }
  if !r.text.isEmpty then
    keepComment { kind := .head, text := r.text, owner := r.start, start := r.start, scan := r.scan,
                  stop := ⟨(← get).mark.index + peek - 1, r.line, r.column⟩ }

/-! ## Blanks between tokens -/

/-- A comment on the line of the first mark of a list entry stands above the text that follows, or above the
entry if lines are between them. -/
def liftEntryComment : Scan Unit := do
  let s ← get
  match s.tokens.reverse, s.comments.reverse with
  | entry :: opening :: _, c :: older =>
    if opening.kind = .blockSequenceStart ∧ entry.kind = .blockEntry ∧ c.kind = .line ∧
        !(s.window.rest.head?.any isBreak) then
      let owner := if c.start.line + 1 = s.mark.line then s.mark else c.owner
      set { s with comments := ({ c with kind := .head, owner } :: older).reverse }
  | _, _ => pure ()

/-- Passes over blanks, comments and line ends before the next token. -/
def toNextToken (scan : Mark) : Nat → Scan Unit
  | 0 => pure ()
  | fuel + 1 => do
    need 1
    let s ← get
    if s.mark.column = 0 ∧ s.window.startsMarked then skip
    let tabs := 0 < s.flow || !s.keyAllowed
    skipWhile fun c => c == ' ' || (tabs && c == '\t')
    liftEntryComment
    if ← at? 0 '#' then comments scan
    if (← look).any isBreak then
      need 2
      skipBreak
      if (← get).flow = 0 then allowKey true
      toNextToken scan fuel

end FlowCompiler.Document.Scan
