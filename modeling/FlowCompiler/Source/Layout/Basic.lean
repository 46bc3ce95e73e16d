import FlowCompiler.Source.Pen

/-!
# Layout of source text

The tree of a file is written with a pen. Where lines end follows the source, within limits; blanks around
binary operators show how tightly the operators bind; short functions and literals stay on one line.

The writers of expressions, statements and declarations refer to each other. `Layout` holds those that others
refer to. Here it is used for the sizes of nodes, which decide what stays on one line, and for lists.
-/

namespace FlowCompiler.Source.Tree

open Write

/-- Which parameters are written. -/
inductive ParamMode where
  | plain
  | typesOfFunc
  | typesOfType
deriving DecidableEq

/-- A node whose size is asked for. -/
inductive Sized where
  | expr (e : Expr)
  | stmt (s : Stmt)

/-- What a node is known by: no two expressions, and no two statements of bodies, have the same one. -/
def Sized.key : Sized → Place × Option Place
  | expr e => (e.start, some e.stop)
  | stmt s => (s.start, none)

/-- The writers that other writers refer to. -/
structure Layout where
  expr1 : Expr → Nat → Nat → Write Unit
  stmt : Stmt → Bool → Write Unit
  genDecl : GenDecl → Write Unit

namespace Layout

/-! ## Sizes -/

/-- The number of bytes written on one line, blanks at its end apart. -/
def inkSize (output : Array Ink) : Option Nat :=
  let step (s : Option (Nat × Nat)) (ink : Ink) : Option (Nat × Nat) :=
    s.bind fun (size, space) =>
      match ink with
      | .text t => some (size + space + t.utf8ByteSize, 0)
      | .literal t => if t.toList.any endsLine then none else some (size + space + t.utf8ByteSize, 0)
      | .blank | .tab | .column => some (size, space + 1)
      | .newline | .section => none
  (output.foldl step (some (0, 0))).map (·.1)

def alone (l : Layout) (n : Sized) : Write Unit := do
  match n with
  | .expr e => l.expr1 e 0 1
  | .stmt s =>
    match s.form with
    | .labeled .. => modify fun p => { p with indent := 1 }
    | _ => pure ()
    l.stmt s false
  modify fun p => { p with endsStatement := false }
  let _ ← flush ⟨farAway, farAway, 0⟩ .stop

/-- The size of a node on one line, if it fits there. It is worked out once. -/
def lineSize (l : Layout) (n : Sized) : Write (Option Nat) := do
  let p ← get
  match p.sizes[n.key]? with
  | some size => return size
  | none =>
    let done := ((l.alone n).run { lines := p.lines, ownComments := true, sizes := p.sizes }).2
    let size := inkSize done.output
    set { p with sizes := done.sizes.insert n.key size }
    return size

/-- The size of a node on one line, or one more than `most` if it does not fit. -/
def nodeSize (l : Layout) (n : Sized) (most : Nat) : Write Nat := do
  match ← l.lineSize n with
  | some size => return if size ≤ most then size else most + 1
  | none => return most + 1

/-! ## Lists of expressions -/

/-- Writes an expression at a depth. -/
def expr0 (l : Layout) (e : Expr) (depth : Nat) : Write Unit := l.expr1 e 0 depth

def expr (l : Layout) (e : Expr) : Write Unit := l.expr1 e 0 1

/-- The size up to which a key always fits to its neighbours. -/
def smallKey : Nat := 40

def anySize : Nat := 1000000

/-- Whether an element starts new columns: it or the one before is not small, and it is two and a half times
as long as the mean of the run, or as short. -/
def breaksRun (before size : Nat) (run : List Nat) : Bool :=
  if before = 0 || size = 0 then true
  else if run.isEmpty || (before ≤ smallKey && size ≤ smallKey) then false
  else
    let power (base : Nat) : Nat := Nat.pow base run.length
    let product := run.foldl (· * ·) 1
    power 5 * product ≤ power (2 * size) || power (5 * size) ≤ power 2 * product

/-- How a list of expressions is written. -/
structure ListMode where
  depth : Nat := 1
  /-- Whether a comma stands before a line end after the last element. -/
  commaEnds : Bool := false
  noIndent : Bool := false

/-- What is known while the elements of a list are written. -/
structure ListState where
  space : Space
  /-- The index of the element before which the line was broken last. -/
  lastBreak : Option Nat
  size : Nat := 0
  run : List Nat := []
  line : Nat

def keyOf? (e : Expr) : Option (Expr × Place × Expr) :=
  match e.form with
  | .keyed k colon v => some (k, colon, v)
  | _ => none

/-- Writes the elements of a list that goes over several lines. -/
def listElements (l : Layout) (mode : ListMode) (framed several : Bool) :
    Nat → ListState → List Expr → Write ListState
  | _, st, [] => return st
  | i, st, e :: es => do
    let line := (← get).lineFor e.start
    let whole ← l.nodeSize (.expr e) anySize
    let size ← if whole ≤ anySize && framed then
        match keyOf? e with
        | some (k, _, _) => l.nodeSize (.expr k) anySize
        | none => pure whole
      else pure 0
    let anew := breaksRun st.size size st.run
    let needsBreak := 0 < st.line && st.line < line
    let mut st := { st with size := size }
    if 0 < i then
      if !needsBreak then at' e.start
      sign ","
      let mut needsBlank := true
      if needsBreak then
        let crowded := match st.lastBreak with
          | some b => b + 1 < i
          | none => 0 < i
        let breaks ← lineBreak line 0 st.space (anew || crowded)
        if 0 < breaks then
          st := { st with space := .ignore, lastBreak := some i, run := if 1 < breaks then [] else st.run }
          needsBlank := false
      if needsBlank then hold .blank
    match keyOf? e with
    | some (k, colon, v) =>
      if several && 0 < size && needsBreak then
        l.expr k
        at' colon
        sign ":"
        hold .column
        l.expr v
      else l.expr0 e mode.depth
    | none => l.expr0 e mode.depth
    l.listElements mode framed several (i + 1)
      { st with run := if 0 < size then size :: st.run else st.run, line := line } es

def inlineElements (l : Layout) (depth : Nat) : Bool → List Expr → Write Unit
  | _, [] => return ()
  | first, e :: es => do
    if !first then
      at' e.start
      sign ","
      hold .blank
    l.expr0 e depth
    l.inlineElements depth false es

/-- Writes a list of expressions between two places, of which either may be unknown. -/
def exprList (l : Layout) (before : Place) (es : List Expr) (mode : ListMode) (after : Place) :
    Write Unit := do
  let p ← get
  match es with
  | [] => return ()
  | first :: _ =>
    let prev := p.spot before
    let next := p.spot after
    let line := p.lineFor first.start
    let stopLine := p.lineFor ((es.getLast?.map Expr.stop).getD 0)
    if 0 < prev.line && prev.line == line && line == stopLine then
      l.inlineElements mode.depth true es
    else
      let space : Space := if mode.noIndent then .ignore else .indent
      let start : ListState := { space := space, lastBreak := none, line := prev.line }
      let broken ← if 0 < prev.line && prev.line < line then lineBreak line 0 space true else pure 0
      let start := if 0 < broken then { start with space := .ignore, lastBreak := some 0 } else start
      let st ← l.listElements mode (0 < prev.line && 0 < next.line) (1 < es.length) 0 start es
      let unindents := st.space == .ignore && !mode.noIndent
      if mode.commaEnds && 0 < next.line && (← get).pos.line < next.line then
        sign ","
        if unindents then hold .unindent
        hold .section
      else if unindents then hold .unindent

def identExprs (names : List Ident) : List Expr :=
  names.map fun i => .mk i.place (i.place + i.name.utf8ByteSize) (.ident i.name)

def identList (l : Layout) (names : List Ident) (indent : Bool) : Write Unit :=
  l.exprList 0 (identExprs names) { depth := 1, noIndent := !indent } 0

def ident (i : Ident) : Write Unit := do
  at' i.place
  name i.name

end Layout

end FlowCompiler.Source.Tree
