import FlowCompiler.Document.Node
import FlowCompiler.Document.Tokens

/-!
# Reading a document

`parse` reads the first document of a text. The tokens are taken one after the other, each when the two that
follow it are known, so a fault close behind the document is a fault of the document too.

Comments wait until a token is looked at that does not stand before the one they belong to. They go to the
next node that takes comments: a scalar, an alias, or a flow collection when it starts and when it ends.
-/

namespace FlowCompiler.Document

/-- The tokens, the comments that wait for a node, and what names stand for. -/
structure Source where
  lexer : Lexer
  waiting : Comments := {}
  /-- The comment above an entry that is itself a block collection. -/
  stem : List Char := []
  handles : List (String × String) := []
  /-- The numbers of the anchors met so far, newest first. -/
  anchors : List (String × Nat) := []
  anchored : List (Nat × Node) := []

/-- Reading that ends at a fault. -/
abbrev Parse := StateT Source Option

namespace Parse

def fault {α : Type} : Parse α := fun _ => none

def require (condition : Bool) : Parse Unit := if condition then pure () else fault

/-! ## Tokens and comments -/

def joinComments (a b : List Char) : List Char := if a.isEmpty then b else a ++ '\n' :: b

def addComment (w : Comments) (c : Comment) : Comments :=
  match c.kind with
  | .head => { w with head := joinComments w.head c.text }
  | .line => { w with line := joinComments w.line c.text }
  | .foot => { w with foot := joinComments w.foot c.text }

/-- Takes the comments behind `t`, up to one that stands above what follows the end of a block. -/
def gatherComments (t : Token) (w : Comments) : List Comment → Comments × List Comment
  | [] => (w, [])
  | c :: more =>
    if c.owner.index ≤ t.start.index ∧ !(c.kind = .head ∧ t.kind = .blockEnd) then
      gatherComments t (addComment w c) more
    else (w, c :: more)

def peek : Parse Token := do
  let s ← get
  match (Scan.fill (s.lexer.fuel + 8)).run s.lexer with
  | none => fault
  | some (_, lexer) =>
    match lexer.tokens with
    | [] => fault
    | t :: _ =>
      let (waiting, comments) := gatherComments t s.waiting lexer.comments
      set { s with waiting, lexer := { lexer with comments } }
      pure t

def next : Parse Unit := modify fun s =>
  { s with lexer := { s.lexer with tokens := s.lexer.tokens.tail, taken := s.lexer.taken + 1 } }

def takeComments : Parse Comments := do
  let s ← get
  set { s with waiting := {}, stem := [] }
  pure s.waiting

/-- Takes the comment above a block collection that is an entry. -/
def takeStem : Parse Comments := do
  let s ← get
  set { s with stem := [] }
  pure { head := s.stem }

/-- A comment of `length` characters above an entry belongs to it as a whole, if it is a block collection.
-/
def splitStem (length : Nat) : Parse Unit := do
  if length ≠ 0 then
    let t ← peek
    if t.kind = .blockSequenceStart ∨ t.kind = .blockMappingStart then
      modify fun s => { s with
        stem := s.waiting.head.take length
        waiting := { s.waiting with head := s.waiting.head.drop (length + 1) } }

/-! ## Properties -/

/-- The place of a mark, counted from one. -/
def position (m : Mark) : Position := ⟨m.line + 1, m.column + 1⟩

/-- A node that was left out. -/
def emptyNode (m : Mark) : Node := .scalar { pos := position m, tag := .null } "" .plain

/-- The properties before a node. -/
structure Properties where
  start : Option Mark := none
  anchor : String := ""
  tag : String := ""

def tagText (handle suffix : String) : Parse String := do
  if handle = "" then pure suffix
  else
    match (← get).handles.find? (·.1 == handle) with
    | none => fault
    | some (_, meaning) =>
      require (meaning ++ suffix != "")
      pure (meaning ++ suffix)

def anchorProperty (p : Properties) : Parse Properties := do
  let t ← peek
  match t.kind with
  | .anchor name =>
    next
    pure { p with anchor := name, start := p.start.or (some t.start) }
  | _ => pure p

def tagProperty (p : Properties) : Parse Properties := do
  let t ← peek
  match t.kind with
  | .tag handle suffix =>
    next
    let _ ← peek
    let tag ← tagText handle suffix
    pure { p with tag, start := p.start.or (some t.start) }
  | _ => pure p

/-- Reads the properties of a node: an anchor and a tag, in either order. -/
def properties : Parse Properties := do
  let p ← tagProperty (← anchorProperty {})
  if p.anchor = "" then anchorProperty p else pure p

/-- The head of a node with given properties, with the tag `implicit` if it has none or `!`. -/
def Properties.head (p : Properties) (start : Mark) (implicit : Tag) (comments : Comments) : Head :=
  let pos := position (p.start.getD start)
  if p.tag = "" ∨ p.tag = "!" then ⟨pos, implicit, false, p.anchor, comments⟩
  else ⟨pos, Tag.ofText p.tag, true, p.anchor, comments⟩

/-- The tag of a scalar that has none of its own. -/
def implicitTag (text : String) : ScalarStyle → Tag
  | .plain => (reading true text).tag
  | _ => .str

/-- Makes a node known under its anchor before its parts are read, and gives it a number. -/
def announce (anchor : String) : Parse Nat := do
  let s ← get
  let number := s.anchors.length
  if anchor ≠ "" then set { s with anchors := (anchor, number) :: s.anchors }
  pure number

/-- Keeps a node that was announced. -/
def fulfil (number : Nat) (n : Node) : Parse Node := do
  if n.head.anchor ≠ "" then modify fun s => { s with anchored := (number, n) :: s.anchored }
  pure n

/-! ## Nodes -/

/-- The comments of a collection that ends with `stop`: only the one above it is kept from its start. -/
def endComments (start stop : Comments) : Comments := { stop with head := start.head }

/-- Adds an entry to a mapping, newest first. A comment below the value belongs to the key; in a block
mapping, one below a key to the key before. -/
def addEntry (block : Bool) (entries : List (Node × Node)) (k v : Node) : List (Node × Node) :=
  let (k, entries) := match entries with
    | (before, value) :: more =>
      if block && !k.foot.isEmpty then (k.withFoot [], (before.withFoot k.foot, value) :: more)
      else (k, entries)
    | [] => (k, [])
  if k.foot.isEmpty && !v.foot.isEmpty then (k.withFoot v.foot, v.withFoot []) :: entries
  else (k, v) :: entries

/-- A comment below a block mapping belongs to its last key. -/
def closeEntries (comments : Comments) (entries : List (Node × Node)) : Comments × List (Node × Node) :=
  match entries with
  | (k, v) :: more =>
    if comments.foot.isEmpty then (comments, entries)
    else ({ comments with foot := [] }, (k.withFoot comments.foot, v) :: more)
  | [] => (comments, [])

/-- The node read by `read`, or an empty one at `place` if one of `stops` comes next. -/
def optional (stops : List TokenKind) (place : Mark) (read : Parse Node) : Parse Node := do
  let t ← peek
  if stops.contains t.kind then pure (emptyNode place) else read

mutual

/-- Reads a node. `block` allows block collections, `level` list entries at the column of their key. -/
def node : Nat → Bool → Bool → Parse Node
  | 0, _, _ => fault
  | fuel + 1, block, level => do
    let first ← peek
    match first.kind with
    | .reference name =>
      let comments ← takeComments
      match (← get).anchors.find? (·.1 == name) with
      | none => fault
      | some (_, target) =>
        next
        pure (.reference { pos := position first.start, tag := .str, comments } name target)
    | _ =>
      let p ← properties
      let t ← peek
      let number ← announce p.anchor
      match t.kind with
      | .scalar text style =>
        let comments ← takeComments
        next
        let text := Text.received text
        fulfil number (.scalar (p.head t.start (implicitTag text style) comments) text style)
      | .flowSequenceStart =>
        let start ← takeComments
        next
        let items ← flowItems fuel true
        let stop ← takeComments
        next
        fulfil number (.sequence (p.head t.start .seq (endComments start stop)) true items)
      | .flowMappingStart =>
        let start ← takeComments
        next
        let entries ← flowEntries fuel true []
        let stop ← takeComments
        next
        fulfil number (.mapping (p.head t.start .map (endComments start stop)) true entries.reverse)
      | kind =>
        if level && kind == .blockEntry then
          let items ← levelItems fuel
          fulfil number (.sequence (p.head t.start .seq {}) false items)
        else if block && kind == .blockSequenceStart then
          let start ← takeStem
          next
          let items ← blockItems fuel
          next
          fulfil number (.sequence (p.head t.start .seq start) false items)
        else if block && kind == .blockMappingStart then
          let start ← takeStem
          next
          let entries ← blockEntries fuel []
          let stop ← takeComments
          next
          let (comments, entries) := closeEntries (endComments start stop) entries
          fulfil number (.mapping (p.head t.start .map comments) false entries.reverse)
        else
          require p.start.isSome
          fulfil number (.scalar (p.head t.start .null {}) "" .plain)

def blockItems : Nat → Parse (List Node)
  | 0 => fault
  | fuel + 1 => do
    let t ← peek
    match t.kind with
    | .blockEntry =>
      let above := (← get).waiting.head.length
      next
      splitStem above
      let n ← optional [.blockEntry, .blockEnd] t.stop (node fuel true false)
      pure (n :: (← blockItems fuel))
    | .blockEnd => pure []
    | _ => fault

/-- Reads the entries of a sequence at the column of its key. -/
def levelItems : Nat → Parse (List Node)
  | 0 => fault
  | fuel + 1 => do
    let t ← peek
    match t.kind with
    | .blockEntry =>
      let above := (← get).waiting.head.length
      next
      splitStem above
      let n ← optional [.blockEntry, .key, .value, .blockEnd] t.stop (node fuel true false)
      pure (n :: (← levelItems fuel))
    | _ => pure []

/-- Reads the entries of a block mapping up to its end, the newest of which comes first. -/
def blockEntries : Nat → List (Node × Node) → Parse (List (Node × Node))
  | 0, _ => fault
  | fuel + 1, entries => do
    let t ← peek
    match t.kind with
    | .key =>
      next
      let k ← optional [.key, .value, .blockEnd] t.stop (node fuel true true)
      let t ← peek
      let v ←
        if t.kind == .value then do
          next
          optional [.key, .value, .blockEnd] t.stop (node fuel true true)
        else pure (emptyNode t.start)
      blockEntries fuel (addEntry true entries k v)
    | .blockEnd => pure entries
    | _ => fault

/-- Passes over the mark before an entry of a flow collection, which only the first one does without. -/
def flowSeparator (first : Bool) (stop : TokenKind) : Parse Token := do
  let t ← peek
  if first || t.kind == stop then pure t
  else
    require (t.kind == .flowEntry)
    next
    peek

/-- Reads the value after a key in a flow collection that ends with `stop`, or an empty one. -/
def flowValue : Nat → TokenKind → Parse Node
  | 0, _ => fault
  | fuel + 1, stop => do
    let t ← peek
    if t.kind == .value then
      next
      let after ← peek
      if after.kind == .flowEntry || after.kind == stop then pure (emptyNode after.start)
      else node fuel false false
    else pure (emptyNode t.start)

/-- Reads the entries of a flow sequence up to its end. An entry with a key is a mapping of one pair. -/
def flowItems : Nat → Bool → Parse (List Node)
  | 0, _ => fault
  | fuel + 1, first => do
    let t ← flowSeparator first .flowSequenceEnd
    match t.kind with
    | .flowSequenceEnd => pure []
    | .key =>
      next
      let k ← peek
      let kn ←
        if [.value, .flowEntry, .flowSequenceEnd].contains k.kind then do
          next
          pure (emptyNode k.stop)
        else node fuel false false
      let vn ← flowValue fuel .flowSequenceEnd
      let _ ← peek
      let pair := Node.mapping { pos := position t.start, tag := .map } true (addEntry false [] kn vn)
      pure (pair :: (← flowItems fuel false))
    | _ =>
      let n ← node fuel false false
      pure (n :: (← flowItems fuel false))

/-- Reads the entries of a flow mapping, newest first. A node without a key mark is a key with an empty
value. -/
def flowEntries : Nat → Bool → List (Node × Node) → Parse (List (Node × Node))
  | 0, _, _ => fault
  | fuel + 1, first, entries => do
    let t ← flowSeparator first .flowMappingEnd
    match t.kind with
    | .flowMappingEnd => pure entries
    | .key =>
      next
      let k ← peek
      let kn ← optional [.value, .flowEntry, .flowMappingEnd] k.start (node fuel false false)
      let vn ← flowValue fuel .flowMappingEnd
      flowEntries fuel false (addEntry false entries kn vn)
    | _ =>
      let kn ← node fuel false false
      let after ← peek
      flowEntries fuel false (addEntry false entries kn (emptyNode after.start))

end

/-! ## Documents -/

/-- Reads the directives before a document. There is at most one version, `1.1`, and one meaning per
handle. -/
def directives : Nat → Bool → Parse Unit
  | 0, _ => fault
  | fuel + 1, versioned => do
    let t ← peek
    match t.kind with
    | .version major minor =>
      require (!versioned && major == 1 && minor == 1)
      next
      directives fuel true
    | .tagHandle handle meaning =>
      require ((← get).handles.all (·.1 != handle))
      modify fun s => { s with handles := s.handles ++ [(handle, meaning)] }
      next
      directives fuel versioned
    | _ =>
      modify fun s => { s with
        handles := s.handles ++ [("!", "!"), ("!!", String.ofList Tag.standardStart)] }

/-- What is left of the comment above a document behind its last empty line; it is given last character
first. -/
def belowEmptyLine : List Char → List Char → List Char
  | below, '\n' :: '\n' :: _ => below
  | below, c :: above => belowEmptyLine (c :: below) above
  | below, [] => below

/-- Leaves the part of the comment above a document to it that ends with an empty line. -/
def splitDocumentComment : Parse Unit := modify fun s =>
  let above := s.waiting.head.reverse
  let head := match above with
    | '\n' :: _ :: _ => []
    | _ => belowEmptyLine [] above
  { s with waiting := { s.waiting with head } }

def document : Parse (Option Content) := do
  let _ ← peek
  next
  let fuel := 6 * (← get).lexer.length + 12
  let t ← peek
  let root ← match t.kind with
    | .streamEnd => return none
    | .version .. | .tagHandle .. | .documentStart => do
      directives fuel false
      let t ← peek
      require (t.kind == .documentStart)
      next
      let t ← peek
      match t.kind with
      | .version .. | .tagHandle .. | .documentStart | .documentEnd | .streamEnd => pure (emptyNode t.start)
      | _ => node fuel true false
    | _ => do
      directives fuel false
      splitDocumentComment
      node fuel true false
  let _ ← peek
  return some ⟨root, (← get).anchored⟩

end Parse

/-- The first document of a text: absent inside if there is none, absent outside if it is none. -/
def parse (text : String) : Option (Option Content) :=
  (Parse.document.run { lexer := .ofText text }).map (·.1)

end FlowCompiler.Document
