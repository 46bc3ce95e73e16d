import FlowCompiler.Document.Comments
import FlowCompiler.Text.Quoted

/-!
# Reading scalars

Plain and quoted scalars may run over several lines. A single line end between two lines becomes a blank; of
several line ends the first is dropped. A block scalar keeps its lines, and its first line tells how it is
indented and which of the line ends after it are kept.
-/

namespace FlowCompiler.Document.Scan

/-- What was read of a scalar, newest character first, and the blanks or line ends after it, the first
apart. -/
structure Run where
  text : List Char := []
  spaces : List Char := []
  first : List Char := []
  more : List Char := []
  broken : Bool := false
  stop : Mark := {}

/-- Takes the blanks or line ends after the text into it. -/
def Run.joined (r : Run) : Run :=
  let gap :=
    if !r.broken then r.spaces.reverse
    else if r.first.head? = some '\n' then (if r.more.isEmpty then [' '] else r.more)
    else r.first ++ r.more
  { text := gap.reverse ++ r.text, stop := r.stop }

/-- Passes over blanks and line ends. After a line end, a tab may not stand before the column `limit`. -/
def gap (limit : Int) : Nat → Run → Scan Run
  | 0, r => pure r
  | fuel + 1, r => do
    match ← look with
    | none => pure r
    | some c =>
      if isSpace c then
        require (!(r.broken && c == '\t' && ((← get).mark.column : Int) < limit))
        skip
        need 1
        gap limit fuel (if r.broken then r else { r with spaces := c :: r.spaces })
      else if isBreak c then
        need 2
        let line ← readBreak
        need 1
        gap limit fuel
          (if r.broken then { r with more := r.more ++ line }
           else { r with spaces := [], first := line, broken := true })
      else pure r

/-! ## Plain scalars -/

/-- Marks that end a plain scalar in a flow collection. -/
def flowMarks : List Char := ",?[]\x7b\x7d".toList

/-- Reads a plain scalar up to a blank or a mark that ends it. -/
def plainWord : Nat → Run → Scan Run
  | 0, r => pure r
  | fuel + 1, r => do
    let s ← get
    match s.window.rest with
    | [] => pure r
    | c :: rest =>
      if isSpace c || isBreak c || (c == ':' && isGap rest.head?) || (0 < s.flow && flowMarks.contains c) then
        pure r
      else
        skip
        let joined := r.joined
        let r := { joined with text := c :: joined.text, stop := (← get).mark }
        need 2
        plainWord fuel r

def plainLines : Nat → Run → Scan Run
  | 0, r => pure r
  | fuel + 1, r => do
    need 4
    if (← anyDocumentMark) || (← at? 0 '#') then return r
    let r ← plainWord (← get).fuel r
    match ← look with
    | none => pure r
    | some c =>
      if isSpace c || isBreak c then
        let s ← get
        let r ← gap (s.indent + 1) s.fuel r
        let s ← get
        if s.flow = 0 ∧ (s.mark.column : Int) < s.indent + 1 then pure r else plainLines fuel r
      else pure r

/-- Reads a plain scalar. After one that ends with a line end a key may come. -/
def plainScalar : Scan Unit := do
  saveKey
  allowKey false
  let s ← get
  let r ← plainLines s.fuel { stop := s.mark }
  append ⟨.scalar (String.ofList r.text.reverse) .plain, s.mark, r.stop⟩
  if r.broken then allowKey true

/-! ## Quoted scalars -/

/-- The character of a one-letter escape in a double-quoted scalar. -/
def escapeChar? (c : Char) : Option Char :=
  match c with
  | '0' => some (Char.ofNat 0)
  | 'a' => some (Char.ofNat 7)
  | 'b' => some (Char.ofNat 8)
  | 't' | '\t' => some '\t'
  | 'n' => some '\n'
  | 'v' => some (Char.ofNat 11)
  | 'f' => some (Char.ofNat 12)
  | 'r' => some '\r'
  | 'e' => some (Char.ofNat 27)
  | ' ' => some ' '
  | '"' => some '"'
  | '\'' => some '\''
  | '\\' => some '\\'
  | 'N' => some (Char.ofNat 0x85)
  | '_' => some (Char.ofNat 0xA0)
  | 'L' => some (Char.ofNat 0x2028)
  | 'P' => some (Char.ofNat 0x2029)
  | _ => none

/-- The number of hexadecimal digits of an escape. -/
def escapeLength (c : Char) : Nat :=
  match c with
  | 'x' => 2
  | 'u' => 4
  | 'U' => 8
  | _ => 0

/-- Reads an escape: a backslash, a letter, and for some letters the number of a character. -/
def escape : Scan Char := do
  match ← ahead 1 with
  | none => fault
  | some c =>
    let n := escapeLength c
    skip
    skip
    if n = 0 then
      match escapeChar? c with
      | some x => pure x
      | none => fault
    else
      need n
      let s ← get
      match (Text.takeHex n 0 s.window.rest).bind fun (v, _) => Text.scalar? v with
      | none => fault
      | some x =>
        for _ in [0:n] do
          skip
        pure x

/-- Reads a quoted scalar up to a blank or its end. The flag tells whether an escaped line end was met. -/
def quotedWord (single : Bool) : Nat → List Char → Scan (List Char × Bool)
  | 0, text => pure (text, false)
  | fuel + 1, text => do
    let s ← get
    match s.window.rest with
    | [] => pure (text, false)
    | c :: rest =>
      if isSpace c || isBreak c then pure (text, false)
      else if single && c == '\'' then
        if rest.head? = some '\'' then
          skip
          skip
          need 2
          quotedWord single fuel ('\'' :: text)
        else pure (text, false)
      else if !single && c == '"' then pure (text, false)
      else if !single && c == '\\' then
        if rest.head?.any isBreak then
          need 3
          skip
          skipBreak
          pure (text, true)
        else
          let x ← escape
          need 2
          quotedWord single fuel (x :: text)
      else
        skip
        need 2
        quotedWord single fuel (c :: text)

/-- Reads the lines of a quoted scalar up to its closing quote. -/
def quotedLines (single : Bool) : Nat → List Char → Scan (List Char)
  | 0, _ => fault
  | fuel + 1, text => do
    need 4
    require (!(← anyDocumentMark) && (← look).isSome)
    let (text, escaped) ← quotedWord single (← get).fuel text
    need 1
    if (← look) = some (if single then '\'' else '"') then pure text.reverse
    else
      let r ← gap 0 (← get).fuel { text, broken := escaped }
      quotedLines single fuel r.joined.text

def quotedScalar (single : Bool) : Scan Unit := do
  saveKey
  allowKey false
  let s ← get
  skip
  let text ← quotedLines single s.fuel []
  skip
  emit (.scalar (String.ofList text) (if single then .singleQuoted else .doubleQuoted)) s.mark

/-! ## Block scalars -/

/-- How the line ends after a block scalar are kept. -/
inductive Chomping where
  | clip
  | strip
  | keep

def chomping : Scan (Option Chomping) := do
  match ← look with
  | some '+' => skip; pure (some .keep)
  | some '-' => skip; pure (some .strip)
  | _ => pure none

/-- Reads the digit of an indentation, which is not zero, if there is one. -/
def increment : Scan Nat := do
  match ← look with
  | some c =>
    if c.isDigit then
      require (c != '0')
      skip
      pure (c.toNat - '0'.toNat)
    else pure 0
  | none => pure 0

/-- Reads the marks in the first line of a block scalar: its chomping and its indentation, in any order. -/
def blockHeader : Scan (Chomping × Nat) := do
  need 1
  match ← chomping with
  | some chomp =>
    need 1
    pure (chomp, ← increment)
  | none =>
    let n ← increment
    if n = 0 then pure (.clip, 0)
    else
      need 1
      pure ((← chomping).getD .clip, n)

/-- Passes over the indentation and the empty lines of a block scalar, and gives their line ends. If it is
zero, it is found from the deepest line of blanks. -/
def blockBreaks (indent : Nat) : Nat → Nat → List Char → Scan (Nat × List Char)
  | 0, deepest, breaks => pure (deepest, breaks)
  | fuel + 1, deepest, breaks => do
    need 1
    let s ← get
    let width := (s.window.rest.takeWhile (· == ' ')).length
    for _ in [0 : if indent = 0 then width else min width (indent - s.mark.column)] do
      skip
      need 1
    let s ← get
    let deepest := max deepest s.mark.column
    require (!((indent == 0 || s.mark.column < indent) && s.window.rest.head? == some '\t'))
    if s.window.rest.head?.any isBreak then
      need 2
      let line ← readBreak
      blockBreaks indent fuel deepest (breaks ++ line)
    else pure (deepest, breaks)

/-- What was read of a block scalar, newest character first, its line end, and the empty lines after that.
-/
structure BlockRun where
  text : List Char := []
  last : List Char := []
  empty : List Char := []
  indented : Bool := false

def blockLines (folded : Bool) (indent : Nat) : Nat → BlockRun → Scan BlockRun
  | 0, r => pure r
  | fuel + 1, r => do
    let s ← get
    match s.window.rest with
    | [] => pure r
    | c :: _ =>
      if s.mark.column = indent then
        let blank := isSpace c
        let joint :=
          if folded && !r.indented && !blank && r.last.head? == some '\n' then
            if r.empty.isEmpty then [' '] else []
          else r.last
        let line ← readWhileFrom (!isBreak ·) 1 s.fuel []
        need 2
        let last ← readBreak
        let (_, empty) ← blockBreaks indent (← get).fuel 0 []
        blockLines folded indent fuel
          ⟨line.reverse ++ (joint ++ r.empty).reverse ++ r.text, last, empty, blank⟩
      else pure r

def blockScalar (folded : Bool) : Scan Unit := do
  removeKey
  allowKey true
  let start := (← get).mark
  skip
  let (chomp, n) ← blockHeader
  skipWhile isSpace
  if ← at? 0 '#' then
    lineComment start
    skipWhile (!isBreak ·)
  endLine
  let s ← get
  let given := if n = 0 then 0 else if 0 ≤ s.indent then s.indent.toNat + n else n
  let (deepest, empty) ← blockBreaks given s.fuel 0 []
  let indent := if given = 0 then max (max deepest (s.indent + 1).toNat) 1 else given
  need 1
  let r ← blockLines folded indent s.fuel { empty }
  let text := r.text.reverse ++ match chomp with
    | .strip => []
    | .clip => r.last
    | .keep => r.last ++ r.empty
  emit (.scalar (String.ofList text) (if folded then .folded else .literal)) start

end FlowCompiler.Document.Scan
