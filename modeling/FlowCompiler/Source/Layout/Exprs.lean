import FlowCompiler.Source.Layout.Fields

/-!
# Layout of expressions
-/

namespace FlowCompiler.Source.Tree

open Write

namespace Layout

/-! ## Binary expressions -/

/-- The operators of a binary expression, and up to which level blanks keep them apart. -/
structure OperatorMix where
  fourth : Bool := false
  fifth : Bool := false
  apart : Nat := 0

def OperatorMix.join (a b : OperatorMix) : OperatorMix :=
  ⟨a.fourth || b.fourth, a.fifth || b.fifth, max a.apart b.apart⟩

/-- The level up to which an operator needs blanks before its right operand. -/
def apartFrom (op : Tok) (right : Expr) : Nat :=
  match right.form with
  | .star _ => if op == .sign "/" then 5 else 0
  | .unary sign _ =>
    let both := op.text ++ sign.text
    if ["/*", "&&", "&^"].contains both then 5
    else if ["++", "--"].contains both then 4
    else 0
  | _ => 0

/-- The operators of an expression down to its operands that are not binary. -/
def operatorMix : Expr → OperatorMix
  | .mk _ _ (.binary left _ op right) =>
    let p := op.precedence
    let own : OperatorMix := ⟨p == 4, p == 5, apartFrom op right⟩
    own.join ((operatorMix left).join (operatorMix right))
  | _ => {}

/-- The level below which operators have blanks, in an expression at a depth. -/
def blankLevel (e : Expr) (depth : Nat) : Nat :=
  let mix := operatorMix e
  if 0 < mix.apart then mix.apart + 1
  else if mix.fourth && mix.fifth then (if depth = 1 then 5 else 4)
  else if depth = 1 then 6
  else 4

/-- How much deeper an operand stands: not at all if it has an operator of the same level. -/
def deeper (e : Expr) (level : Nat) : Nat :=
  match e.form with
  | .binary _ _ op _ => if op.precedence == level then 0 else 1
  | _ => 1

/-- Writes a binary expression whose operators below `blanks` have blanks around them. -/
def binary (l : Layout) (left : Expr) (opPlace : Place) (op : Tok) (right : Expr) (level blanks depth : Nat) :
    Write Unit := do
  let own := op.precedence
  let spaced := own < blanks
  let write : Write Unit := do
    l.expr1 left own (depth + deeper left own)
    if spaced then hold .blank
    let p ← get
    let leftLine := p.pos.line
    let rightLine := p.lineFor right.start
    at' opPlace
    token op
    let broken ← if leftLine != rightLine && 0 < leftLine && 0 < rightLine then
        lineBreak rightLine 1 .indent true
      else pure 0
    if spaced && broken = 0 then hold .blank
    l.expr1 right (own + 1) (depth + 1)
    if 0 < broken then hold .unindent
  if own < level then
    sign "("
    write
    sign ")"
  else write

/-! ## Bodies of functions -/

/-- The greatest size of a function on one line. -/
def smallFunction : Nat := 100

def commentSize (next : Spot) : Nat → Pen → Nat
  | 0, _ => 0
  | fuel + 1, p =>
    if p.commentBefore next then
      p.group.foldl (fun n c => n + c.text.utf8ByteSize) 0 + commentSize next fuel p.nextGroup
    else 0

/-- The size of statements on one line, given up when it is too large. -/
def stmtsSize (l : Layout) : Bool → Nat → List Stmt → Write Nat
  | _, size, [] => return size
  | first, size, s :: ss => do
    if smallFunction < size then return size
    let own ← l.nodeSize (.stmt s) smallFunction
    l.stmtsSize false (size + (if first then 0 else 2) + own) ss

def bodySize (l : Layout) (b : Block) : Write Nat := do
  let p ← get
  if p.lineFor b.lbrace != p.lineFor b.rbrace || 5 < b.body.length then return smallFunction + 1
  l.stmtsSize true (commentSize (p.spot b.rbrace) (p.comments.length + 2) p) b.body

def inlineStmts (l : Layout) : Bool → List Stmt → Write Unit
  | _, [] => return ()
  | first, s :: ss => do
    if !first then
      sign ";"
      hold .blank
    l.stmt s ss.isEmpty
    l.inlineStmts false ss

def labelCount : Stmt → Nat
  | .mk _ (.labeled _ _ s) => labelCount s + 1
  | _ => 0

/-- Writes statements, one a line. With `clauses`, each starts a new section. The last one of `count` comes
before what closes the block, if none is empty. -/
def stmtLines (l : Layout) (clauses closes : Bool) (count : Nat) :
    Nat → Option Nat → Nat → List Stmt → Write Unit
  | _, _, _, [] => return ()
  | i, mark, labels, s :: ss => do
    if s.isEmpty then l.stmtLines clauses closes count i mark labels ss
    else
      if !(← get).output.isEmpty then
        let far := labels < (← linesSince mark)
        let _ ← lineBreak ((← get).lineFor s.start) 1 .ignore (i = 0 || clauses || far)
      let mark ← Write.mark
      l.stmt s (closes && i + 1 == count)
      l.stmtLines clauses closes count (i + 1) (some mark) (labelCount s) ss

def stmtList (l : Layout) (body : List Stmt) (clauses closes : Bool) : Write Unit := do
  if !clauses then hold .indent
  l.stmtLines clauses closes body.length 0 none 0 body
  if !clauses then hold .unindent

def block (l : Layout) (b : Block) (clauses : Bool) : Write Unit := do
  at' b.lbrace
  sign "\x7b"
  l.stmtList b.body clauses true
  let _ ← lineBreak ((← get).lineFor b.rbrace) 1 .ignore false
  at' b.rbrace
  sign "\x7d"

/-- Writes the body of a function after a head of some size, on one line if it is small. -/
def funcBody (l : Layout) (headSize : Nat) (space : Space) (b : Block) : Write Unit := do
  let level := (← get).level
  modify fun p => { p with level := 0 }
  let size ← l.bodySize b
  if headSize + size ≤ smallFunction then
    hold space
    at' b.lbrace
    sign "\x7b"
    if !b.body.isEmpty then
      hold .blank
      l.inlineStmts true b.body
      hold .blank
    toggle false true
    at' b.rbrace
    sign "\x7d"
    toggle false true
  else
    hold .blank
    l.block b false
  modify fun p => { p with level := level }

/-- The size of what was written since a column, if it is on the line of a place. -/
def distance (start : Place) (column : Nat) : Write Nat := do
  let p ← get
  return if 0 < p.pos.line && p.lineFor start == p.pos.line then p.out.column - column else farAway

/-! ## Expressions -/

/-- Writes a selector, and tells whether its line was broken. A method keeps the indentation (`stays`). -/
def selector (l : Layout) (e : Expr) (member : Ident) (depth : Nat) (stays : Bool) : Write Bool := do
  l.expr1 e 7 depth
  sign "."
  let p ← get
  let line := p.lineFor member.place
  if 0 < p.pos.line && p.pos.line < line then
    hold .indent
    hold .newline
    ident member
    if !stays then hold .unindent
    return true
  ident member
  return false

def bounds (l : Layout) (spaced : Bool) (depth : Nat) : Option (Option Expr) → List (Option Expr) → Write Unit
  | _, [] => return ()
  | before, b :: bs => do
    match before with
    | some previous =>
      if previous.isSome && spaced then hold .blank
      sign ":"
      if b.isSome && spaced then hold .blank
    | none => pure ()
    match b with
    | some e => l.expr0 e (depth + 1)
    | none => pure ()
    l.bounds spaced depth (some b) bs

/-- Whether a function that is called has to stand in parentheses. -/
def callNeedsParens (f : Expr) : Bool :=
  match f.form with
  | .funcType _ => true
  | .channel .receive _ _ => true
  | _ => false

def call (l : Layout) (f : Expr) (lparen : Place) (args : List Expr) (dots rparen : Place) (depth : Nat) :
    Write Unit := do
  let depth := if 1 < args.length then depth + 1 else depth
  let parens := callNeedsParens f
  if parens then sign "("
  let indented ← match f.form with
    | .selector e member => do
      at' f.start
      l.selector e member depth true
    | _ => do
      l.expr1 f 7 depth
      pure false
  if parens then sign ")"
  at' lparen
  sign "("
  if dots != 0 then
    l.exprList lparen args { depth := depth } dots
    at' dots
    sign "..."
    let p ← get
    if rparen != 0 && p.lineFor dots < p.lineFor rparen then
      sign ","
      hold .section
  else l.exprList lparen args { depth := depth, commaEnds := true } rparen
  at' rparen
  sign ")"
  if indented then hold .unindent

/-- Writes an expression at the current position, inside an operator of a `level`. -/
def exprForm (l : Layout) (e : Expr) (level depth : Nat) : Write Unit := do
  match e.form with
  | .ident n => name n
  | .binary left p op right => l.binary left p op right level (blankLevel e depth) depth
  | .keyed k colon v =>
    l.expr k
    at' colon
    sign ":"
    hold .blank
    l.expr v
  | .star x =>
    if 6 < level then sign "("
    sign "*"
    l.expr x
    if 6 < level then sign ")"
  | .unary op x =>
    if 6 < level then
      sign "("
      l.expr e
      sign ")"
    else
      token op
      if op == .keyword "range" then hold .blank
      l.expr1 x 6 depth
  | .literal kind t =>
    literal kind (if (← get).usualNumbers && kind.isNumber then Lexeme.usualNumber t else t)
  | .func type body =>
    let start := match type with
      | .mk s _ _ _ => s
    at' start
    keyword "func"
    let column := (← get).out.column - 4
    l.signature type
    l.funcBody (← distance start column) .blank body
  | .paren x rparen =>
    if x.isParen then l.expr0 x depth
    else
      sign "("
      l.expr0 x (max 1 (depth - 1))
      at' rparen
      sign ")"
  | .selector x member =>
    let _ ← l.selector x member depth false
  | .assertion x lparen type rparen =>
    l.expr1 x 7 depth
    sign "."
    at' lparen
    sign "("
    match type with
    | some t => l.expr t
    | none => keyword "type"
    at' rparen
    sign ")"
  | .index x lbrack indices rbrack =>
    l.expr1 x 7 1
    at' lbrack
    sign "["
    match indices with
    | [i] => l.expr0 i (depth + 1)
    | _ => l.exprList lbrack indices { depth := depth + 1, commaEnds := true } rbrack
    at' rbrack
    sign "]"
  | .slice x lbrack bs rbrack =>
    l.expr1 x 7 1
    at' lbrack
    sign "["
    let given := bs.filterMap id
    l.bounds (depth ≤ 1 && 1 < given.length && given.any Expr.isBinary) depth none bs
    at' rbrack
    sign "]"
  | .call f lparen args dots rparen => l.call f lparen args dots rparen depth
  | .composite type lbrace elements rbrace =>
    match type with
    | some t => l.expr1 t 7 depth
    | none => pure ()
    modify fun p => { p with level := p.level + 1 }
    at' lbrace
    sign "\x7b"
    l.exprList lbrace elements { depth := 1, commaEnds := true } rbrace
    hold .indent
    hold .unindent
    toggle (!elements.isEmpty) true
    at' rbrace
    sign "\x7d"
    toggle (!elements.isEmpty) true
    modify fun p => { p with level := p.level - 1 }
  | .ellipsis element =>
    sign "..."
    match element with
    | some t => l.expr t
    | none => pure ()
  | .array length element =>
    sign "["
    match length with
    | some n => l.expr n
    | none => pure ()
    sign "]"
    l.expr element
  | .struct fields =>
    keyword "struct"
    l.fieldList fields true
  | .funcType type =>
    keyword "func"
    l.signature type
  | .interface methods =>
    keyword "interface"
    l.fieldList methods false
  | .map k v =>
    keyword "map"
    sign "["
    l.expr k
    sign "]"
    l.expr v
  | .channel direction arrow v =>
    match direction with
    | .both => keyword "chan"
    | .receive =>
      sign "<-"
      keyword "chan"
    | .send =>
      keyword "chan"
      at' arrow
      sign "<-"
    hold .blank
    l.expr v

def exprRule (l : Layout) (e : Expr) (level depth : Nat) : Write Unit := do
  at' e.start
  l.exprForm e level depth

end Layout

end FlowCompiler.Source.Tree
