import FlowCompiler.Document.Properties
import FlowCompiler.Document.Scalars

/-!
# Reading tokens

`next` reads one token, with the block ends before it and the comment after it. `fill` reads tokens until the
next one to be taken is known for certain, which takes two more tokens after it, and, if it may be a key, the
text up to the colon.
-/

namespace FlowCompiler.Document.Scan

def flowStart (kind : TokenKind) : Scan Unit := do
  saveKey
  modify fun s => { s with
    flow := s.flow + 1, keys := { number := s.nextNumber, mark := s.mark } :: s.keys, keyAllowed := true }
  require ((← get).flow ≤ depthLimit)
  fixed 1 kind

def flowEnd (kind : TokenKind) : Scan Unit := do
  removeKey
  let s ← get
  match s.keys with
  | k :: outer =>
    if 0 < s.flow then
      set { s with flow := s.flow - 1, keys := outer, waiting := s.waiting.erase k.number }
  | [] => pure ()
  allowKey false
  fixed 1 kind

def flowEntry : Scan Unit := do
  removeKey
  allowKey true
  fixed 1 .flowEntry

/-- Reads the mark of a block entry or of an explicit key; `opening` opens its collection. -/
def blockMark (opening kind : TokenKind) : Scan Unit := do
  let s ← get
  if s.flow = 0 then
    require s.keyAllowed
    rollIndent s.mark.column s.nextNumber opening s.mark
  removeKey
  allowKey (kind == .blockEntry || s.flow == 0)
  fixed 1 kind

/-- Reads a colon, after a possible key or for the value of an explicit one. -/
def colon : Scan Unit := do
  let s ← get
  let key := s.keys.headD {}
  require (!(key.possible && key.required && s.stale key))
  if key.possible && !s.stale key then
    set { s.insert key.number ⟨.key, key.mark, key.mark⟩ with
      keys := { key with possible := false } :: s.keys.tail, waiting := s.waiting.erase key.number }
    rollIndent key.mark.column key.number .blockMappingStart key.mark
    allowKey false
  else
    if s.flow = 0 then
      require s.keyAllowed
      rollIndent s.mark.column s.nextNumber .blockMappingStart s.mark
    allowKey (s.flow == 0)
  fixed 1 .value

def property (read : Scan TokenKind) : Scan Unit := do
  saveKey
  allowKey false
  let start := (← get).mark
  emit (← read) start

/-- Whether a plain scalar may start with `c`, which `after` follows. -/
def plainStarts (flow : Bool) (c : Char) (after : Option Char) : Bool :=
  !(isSpace c || isBreak c || "-?:,[]\x7b\x7d#&*!|>'\"%@`".toList.contains c) ||
    (c == '-' && !after.any isSpace) ||
    (!flow && (c == '?' || c == ':') && !isGap after)

/-- Reads a token that may have a comment on its line, which starts with `c`. -/
def token (c : Char) : Scan Unit := do
  let after ← ahead 1
  let flow := 0 < (← get).flow
  match c with
  | '[' => flowStart .flowSequenceStart
  | '\x7b' => flowStart .flowMappingStart
  | ']' => flowEnd .flowSequenceEnd
  | '\x7d' => flowEnd .flowMappingEnd
  | ',' => flowEntry
  | '*' => property (return .reference (← handleName))
  | '&' => property (return .anchor (← handleName))
  | '!' => property tag
  | '\'' => quotedScalar true
  | '"' => quotedScalar false
  | _ =>
    if c = '-' ∧ isGap after then blockMark .blockSequenceStart .blockEntry
    else if c = '?' ∧ (flow ∨ isGap after) then blockMark .blockMappingStart .key
    else if c = ':' ∧ (flow ∨ isGap after) then colon
    else if c = '|' ∧ !flow then blockScalar false
    else if c = '>' ∧ !flow then blockScalar true
    else if plainStarts flow c after then plainScalar
    else fault

/-- Reads a token and the comment on its line. After the mark of a list entry it stands above the text of
the entry, after a colon or a comma it belongs to the token before. -/
def commentedToken (c : Char) : Scan Unit := do
  let s ← get
  let behind := if s.flow = 0 then c == ':' else c == ','
  let owner := match s.tokens.getLast? with
    | some t => if behind then t.start else s.mark
    | none => s.mark
  token c
  if (← get).tokens.getLast?.any (·.kind != .blockEntry) then lineComment owner

/-- Closes all that is open before a directive or the mark of a document. -/
def closeAll : Scan Unit := do
  unrollIndent (-1) (← get).mark
  removeKey
  allowKey false

def finish : Scan Unit := do
  modify fun s =>
    if s.mark.column = 0 then s
    else { s with mark := { s.mark with line := s.mark.line + 1, column := 0 } }
  closeAll
  emit .streamEnd (← get).mark

def next : Scan Unit := do
  need 1
  let scan := (← get).mark
  toNextToken scan (← get).fuel
  unrollIndent (← get).mark.column scan
  need 4
  match ← look with
  | none => finish
  | some c =>
    if (← get).mark.column = 0 ∧ c = '%' then
      closeAll
      directive
    else if ← documentMark '-' then
      closeAll
      fixed 3 .documentStart
    else if ← documentMark '.' then
      closeAll
      fixed 3 .documentEnd
    else commentedToken c

/-- Reads tokens until the next one to be taken is known for certain. -/
def fill : Nat → Scan Unit
  | 0 => fault
  | fuel + 1 => do
    let more ← if (← get).tokens.length < 3 then pure true else awaitsKey
    if more then
      next
      fill fuel

end FlowCompiler.Document.Scan
