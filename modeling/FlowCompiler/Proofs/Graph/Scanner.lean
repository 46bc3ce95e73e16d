import FlowCompiler.Graph.Assembly

/-!
# A checked scanner of flow texts

The readers of a flow text give their results to one another as they are, and they read all statements before the
graph is built. The scanner here goes over a text step by step, and builds the graph on the way; it has a scan for
each reader, of the same name. Two things can go wrong with it that are no fault of the text: it may step over a
character where none is left (`Ending.overrun`), and an iteration of a loop may go on at the offset that it started
at (`Ending.stalled`). Both are endings of their own, so that it can be said that they do not occur.

At the end of the text a zero character is seen, which is not told from one in the text.
-/

namespace FlowCompiler

/-- How a scan ends. -/
inductive Ending (α : Type) where
  | done (a : α)
  | refused (e : ParseError)
  | overrun
  | stalled
deriving Repr

namespace Ending

variable {α β : Type}

def bind (x : Ending α) (f : α → Ending β) : Ending β :=
  match x with
  | done a => f a
  | refused e => refused e
  | overrun => overrun
  | stalled => stalled

/-- The ending of a reader. -/
def of : Except ParseError α → Ending α
  | .ok a => done a
  | .error e => refused e

end Ending

/-- The bytes that are still to be read. The offset in the text grows as they get fewer. -/
def Cursor.bytesLeft (c : Cursor) : Nat := (Text.bytesOf c.rest).length

/-- A scan of a text: what it gives, and the cursor where it ends. -/
def Scan (α : Type) : Type := Cursor → Ending (α × Cursor)

/-- What an iteration of a loop decides: to go on with a new state, or to leave the loop with a result. -/
inductive Turn (σ β : Type) where
  | again (a : σ)
  | leave (b : β)

namespace Scan

variable {α β σ : Type}

instance : Monad Scan where
  pure a := fun c => .done (a, c)
  bind x f := fun c => (x c).bind fun q => f q.1 q.2

/-! ## Steps -/

def fail (e : ParseError) : Scan α := fun _ => .refused e

/-- Fails where the scan stands. -/
def refuse (fault : Fault) : Scan α := fun c => .refused ⟨c.pos, fault⟩

/-- A result that needs no reading. -/
def lift (r : Except ParseError α) : Scan α := fun c => .of (r.map (·, c))

def save : Scan Cursor := fun c => .done (c, c)

/-- Goes back to a cursor. -/
def restore (c : Cursor) : Scan Unit := fun _ => .done ((), c)

def pos : Scan Position := fun c => .done (c.pos, c)

def eof : Scan Bool := fun c => .done (c.peek.isNone, c)

def peek : Scan Char := fun c => .done (c.peek.getD '\x00', c)

def sees (x : Char) : Scan Bool := fun c => .done (c.peek.getD '\x00' == x, c)

/-- Whether `x` stands behind the next character. -/
def seesBehind (x : Char) : Scan Bool := fun c => .done (c.rest.tail.head?.getD '\x00' == x, c)

/-- Steps over the next character. -/
def next : Scan Char := fun c =>
  match c.peek with
  | none => .overrun
  | some x => .done (x, c.next)

/-- The text that was read since a cursor. -/
def since (c : Cursor) : Scan String := fun d =>
  .done (String.ofList (c.rest.take (c.rest.length - d.rest.length)), d)

/-- Repeats `body` until it leaves. An iteration that goes on has to end at a greater offset than it starts. -/
def loop (body : σ → Scan (Turn σ β)) (a : σ) (c : Cursor) : Ending (β × Cursor) :=
  match body a c with
  | .done (.leave b, d) => .done (b, d)
  | .done (.again a', d) => if d.bytesLeft < c.bytesLeft then loop body a' d else .stalled
  | .refused e => .refused e
  | .overrun => .overrun
  | .stalled => .stalled
termination_by c.bytesLeft

-- A character that is not there cannot be stepped over, and a loop that reads nothing does not go on.
example : next (Cursor.ofList []) = .overrun := rfl

example : loop (fun _ => (pure (.again ()) : Scan (Turn Unit Unit))) () (Cursor.ofList ['x']) = .stalled := by
  rw [loop]
  rfl

/-! ## Words and blanks -/

def skipWhileTurn (accept : Char → Bool) (_ : Unit) : Scan (Turn Unit Unit) := do
  if !(← eof) && accept (← peek) then
    let _ ← next
    return .again ()
  else return .leave ()

def skipWhile (accept : Char → Bool) : Scan Unit := loop (skipWhileTurn accept) ()

def word (accept : Char → Bool) : Scan String := do
  let c ← save
  skipWhile accept
  since c

def expect (x : Char) (fault : Fault) : Scan Unit := do
  if ← sees x then
    let _ ← next
  else refuse fault

def atStatementEnd : Scan Bool := do
  return (← eof) || (← sees '\n') || (← sees ',')

/-- A comment is passed over in a loop of its own; the line feed behind it then ends the blanks. -/
def spaceTurn (_ : Unit) : Scan (Turn Unit Unit) := do
  if ← eof then return .leave ()
  else if (← sees ' ') || (← sees '\t') then
    let _ ← next
    return .again ()
  else if ← sees '\r' then
    if ← seesBehind '\n' then
      let _ ← next
      return .again ()
    else refuse .loneCarriageReturn
  else if ← sees '#' then
    skipWhile (· ≠ '\n')
    return .again ()
  else return .leave ()

def skipSpace : Scan Unit := loop spaceTurn ()

def blankTurn (_ : Unit) : Scan (Turn Unit Unit) := do
  skipSpace
  if ← sees '\n' then
    let _ ← next
    return .again ()
  else return .leave ()

def skipBlank : Scan Unit := loop blankTurn ()

/-! ## Ports -/

def index : Scan Nat := do
  let p ← pos
  let _ ← next
  let digits ← word Char.isDigit
  if digits == "" || !(← sees ']') then fail ⟨p, .badIndex⟩
  else
    let _ ← next
    if Cursor.digitsValue digits ≤ maxIndex then return Cursor.digitsValue digits
    else fail ⟨p, .indexTooLarge digits⟩

def port : Scan PortRef := do
  let name ← word isNameChar
  if name == "" || !(← sees '[') then return ⟨name, none⟩
  else
    let i ← index
    return ⟨name, some i⟩

/-! ## Settings and component clauses -/

/-- Goes on in the quoted value that starts at `c`, behind its character `x`. -/
def quotedChar (c : Cursor) (x : Char) : Scan (Turn Unit String) := do
  if x = '"' then return .leave (← since c)
  else if x = '\\' then
    if ← eof then fail ⟨c.pos, .unterminatedString⟩
    else
      let p ← pos
      let y ← next
      if isEscapable y then return .again () else fail ⟨p, .badEscape⟩
  else return .again ()

def quotedTurn (c : Cursor) (_ : Unit) : Scan (Turn Unit String) := do
  if (← eof) || (← sees '\n') then fail ⟨c.pos, .unterminatedString⟩
  else
    let x ← next
    quotedChar c x

def quoted : Scan String := do
  let c ← save
  let _ ← next
  loop (quotedTurn c) ()

def settingValue : Scan String := do
  if ← sees '"' then quoted else word isSettingChar

def setting : Scan Meta := do
  skipBlank
  let p ← pos
  let key ← word isSettingChar
  if key = "" then fail ⟨p, .noSettingName⟩
  else
    skipBlank
    if ← sees '=' then
      let _ ← next
      skipBlank
      let value ← settingValue
      skipBlank
      return ⟨key, value, p⟩
    else return ⟨key, "", p⟩

def settingsTurn (ms : List Meta) : Scan (Turn (List Meta) (List Meta)) := do
  let m ← setting
  if ← sees ',' then
    let _ ← next
    return .again (ms ++ [m])
  else return .leave (ms ++ [m])

def settings : Scan (List Meta) := loop settingsTurn []

def clauseSettings : Scan (List Meta) := do
  if ← sees ':' then
    let _ ← next
    settings
  else return []

def clause : Scan (String × List Meta) := do
  if ← sees '(' then
    let _ ← next
    let component ← word isComponentChar
    let ms ← clauseSettings
    skipBlank
    expect ')' .unclosedComponent
    return (component, ms)
  else return ("", [])

/-! ## Chains -/

def mention : Scan Mention := do
  let p ← pos
  let name ← word isNameChar
  if name = "" then fail ⟨p, .noNode⟩
  else
    let r ← clause
    if name == "_" && r.1 == "" then fail ⟨p, .anonymousWithoutComponent⟩
    else return ⟨name, r.1, r.2, p⟩

def arrow : Scan Unit := do
  if (← sees '-') && (← seesBehind '>') then
    let _ ← next
    let _ ← next
  else refuse .noArrow

def link : Scan Link := do
  let p ← pos
  let source ← port
  if source.name = "" then fail ⟨p, .noSourcePort⟩
  else
    skipSpace
    arrow
    skipSpace
    let q ← pos
    let target ← port
    if target.name == "" || (← sees '(') then fail ⟨q, .arrowWithoutPorts⟩
    else
      skipSpace
      let node ← mention
      return ⟨source, target, node, p⟩

/-- Reads a link that leaves the node at the place `state.2` of the graph, and takes it into the graph. -/
def linksTurn (state : Graph × Nat) : Scan (Turn (Graph × Nat) Graph) := do
  skipSpace
  if ← atStatementEnd then return .leave state.1
  else
    let l ← link
    let r ← lift (state.1.addMention l.node)
    let g ← lift (r.1.addConnection ⟨state.2, l.sourcePort, r.2, l.targetPort, l.pos⟩)
    return .again (g, r.2)

def chain (g : Graph) : Scan Graph := do
  let head ← mention
  let r ← lift (g.addMention head)
  loop linksTurn r

/-! ## Exports and declarations -/

def exportPort (direction : Direction) : Scan Statement := do
  let p ← pos
  let node ← word isNameChar
  if node = "" then fail ⟨p, .exportWithoutNode⟩
  else
    expect '.' .exportWithoutDot
    let port ← port
    if port.name = "" then refuse .exportWithoutPort
    else
      expect ':' .exportWithoutColon
      let name ← word isNameChar
      if name = "" then refuse .exportWithoutName
      else return .exportPort direction node port name p

def declare : Scan Statement := do
  let p ← pos
  let name ← word isNameChar
  if name = "" then fail ⟨p, .declarationWithoutName⟩
  else
    expect ':' .declarationWithoutKindColon
    let kind ← word isNameChar
    if kind = "" then refuse .declarationWithoutKind
    else
      expect ':' .declarationWithoutContentsColon
      let raw ← word isContentsChar
      if Text.trim raw = "" then fail ⟨p, .declarationWithoutContents name⟩
      else return .declare ⟨name, kind, Text.trim raw, p⟩

def exportOption : Scan Statement := do
  let p ← pos
  let node ← word isNameChar
  if node = "" then fail ⟨p, .optionWithoutNode⟩
  else
    expect '.' .optionWithoutDot
    let option ← word isNameChar
    if option = "" then refuse .optionWithoutNodeOption
    else
      expect ':' .optionWithoutColon
      let name ← word isNameChar
      if name = "" then refuse .optionWithoutName
      else return .exportOption node option name p

/-! ## Statements -/

def keyword? (w : String) : Option (Scan Statement) :=
  if w = "INPORT" then some (exportPort .input)
  else if w = "OUTPORT" then some (exportPort .output)
  else if w = "DECLARE" then some declare
  else if w = "OPTION" then some exportOption
  else none

/-- Reads one statement into the graph. What looks like a keyword and is none is read again, as a chain. -/
def statement (g : Graph) : Scan Graph := do
  let c ← save
  let w ← word isNameChar
  match if ← sees '=' then keyword? w else none with
  | some read =>
    let _ ← next
    let st ← read
    lift (g.add st)
  | none =>
    restore c
    chain g

def statementsTurn (g : Graph) : Scan (Turn Graph Graph) := do
  skipSpace
  if ← eof then return .leave g
  else if (← sees '\n') || (← sees ',') then
    let _ ← next
    return .again g
  else
    let g ← statement g
    skipSpace
    if ← atStatementEnd then
      if ← eof then return .again g
      else
        let _ ← next
        return .again g
    else refuse .trailing

/-- Scans a whole source. -/
def flow : Scan Graph := do
  let g ← loop statementsTurn {}
  lift g.checkTyped

end Scan

/-- The flow of a text, by a scan from its start. -/
def Graph.scan (text : List Char) : Ending Graph := (Scan.flow (Cursor.ofList text)).bind fun q => .done q.1

end FlowCompiler
