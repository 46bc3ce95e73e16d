import FlowCompiler.Document.Comments
import FlowCompiler.Text.Quoted

/-!
# Reading properties and directives

An anchor gives a node a name, an alias stands for the node of a name, and a tag tells the kind of a node.
Directives stand before a document: its version, and what the handles of tags mean.
-/

namespace FlowCompiler.Document.Scan

/-- Reads the name of an anchor or alias after its first character. -/
def handleName : Scan String := do
  skip
  let name ← readWhile isHandleChar
  let next ← look
  require (!name.isEmpty && (isGap next || next.any "?:,]\x7d%@`".toList.contains))
  pure (String.ofList name)

/-! ## Tags -/

def isTagChar (c : Char) : Bool := isHandleChar c || ";/?:@&=+$.,!~*'()[]".toList.contains c

/-- Reads a byte that is written as a percent sign and two hexadecimal digits. -/
def escapedByte : Scan Nat := do
  need 3
  match (← get).window.rest with
  | '%' :: a :: b :: _ =>
    match Text.hexValue? a, Text.hexValue? b with
    | some x, some y =>
      skip
      skip
      skip
      pure (x * 16 + y)
    | _, _ => fault
  | _ => fault

/-- The number of bytes of the character that starts with a byte. -/
def sizeFromByte (b : Nat) : Nat :=
  if b < 0x80 then 1
  else if b < 0xC0 then 0
  else if b < 0xE0 then 2
  else if b < 0xF0 then 3
  else if b < 0xF8 then 4
  else 0

def escapedTail : Nat → Scan (List Nat)
  | 0 => pure []
  | n + 1 => do
    let b ← escapedByte
    require (Text.isTail b)
    pure (b :: (← escapedTail n))

/-- Reads a character that is written with percent signs. -/
def escapedChar : Scan (List Nat) := do
  let b ← escapedByte
  let size := sizeFromByte b
  require (size != 0)
  pure (b :: (← escapedTail (size - 1)))

/-- Reads the bytes of a tag, newest first. -/
def tagBytes : Nat → List Nat → Scan (List Nat)
  | 0, read => pure read
  | fuel + 1, read => do
    match ← look with
    | none => pure read
    | some c =>
      if c == '%' then
        let bytes ← escapedChar
        need 1
        tagBytes fuel (bytes.reverse ++ read)
      else if isTagChar c then
        skip
        need 1
        tagBytes fuel (c.toNat :: read)
      else pure read

def tagRest (start : List Char) : Scan String := do
  need 1
  let bytes ← tagBytes (← get).fuel (start.map Char.toNat).reverse
  pure (String.ofList (Text.ofBytes bytes.reverse))

/-- Reads a handle: `!`, or a name between two of them, or a name after one, which is no whole handle. -/
def tagHandle : Scan (List Char) := do
  need 1
  require (← at? 0 '!')
  skip
  let name ← readWhile isHandleChar
  if ← at? 0 '!' then
    skip
    pure ('!' :: name ++ ['!'])
  else pure ('!' :: name)

/-- Whether a handle is a whole one, with a suffix of its own. -/
def isWholeHandle (handle : List Char) : Bool := 1 < handle.length && handle.getLast? == some '!'

/-- Reads a tag: `!<uri>`, `!handle!suffix`, `!suffix` or `!`. -/
def tag : Scan TokenKind := do
  need 2
  let kind ←
    if ← at? 1 '<' then do
      skip
      skip
      let suffix ← tagRest []
      require (suffix != "" && (← at? 0 '>'))
      skip
      pure (TokenKind.tag "" suffix)
    else do
      let handle ← tagHandle
      if isWholeHandle handle then
        let suffix ← tagRest []
        require (suffix != "")
        pure (TokenKind.tag (String.ofList handle) suffix)
      else
        let suffix ← tagRest handle.tail
        pure (if suffix = "" then TokenKind.tag "" "!" else TokenKind.tag "!" suffix)
  need 1
  require (isGap (← look))
  pure kind

/-! ## Directives -/

/-- Reads a number of at most two digits. -/
def shortNumber : Scan Nat := do
  let digits ← readWhile Char.isDigit
  require (!digits.isEmpty && digits.length ≤ 2)
  pure (digits.foldl (fun n d => n * 10 + (d.toNat - '0'.toNat)) 0)

def versionDirective : Scan TokenKind := do
  skipWhile isSpace
  let major ← shortNumber
  require (← at? 0 '.')
  skip
  pure (.version major (← shortNumber))

def handleDirective : Scan TokenKind := do
  skipWhile isSpace
  let handle ← tagHandle
  require (handle == ['!'] || isWholeHandle handle)
  need 1
  require ((← look).any isSpace)
  skipWhile isSpace
  let meaning ← tagRest []
  require (meaning != "")
  need 1
  require (isGap (← look))
  pure (.tagHandle (String.ofList handle) meaning)

def directive : Scan Unit := do
  let start := (← get).mark
  skip
  let name := String.ofList (← readWhile isHandleChar)
  require (isGap (← look))
  let kind ←
    if name = "YAML" then versionDirective
    else if name = "TAG" then handleDirective
    else fault
  let stop := (← get).mark
  skipWhile isSpace
  if ← at? 0 '#' then skipWhile (!isBreak ·)
  endLine
  append ⟨kind, start, stop⟩

end FlowCompiler.Document.Scan
