import FlowCompiler.Source.Grammar.Types

/-!
# Reading expressions
-/

namespace FlowCompiler.Source.Tree

open Parse

namespace Grammar

/-- Reads statements up to the end of a block or of a clause. -/
def stmts (g : Grammar) : Parse (List Stmt) :=
  many (return !((← tok) matches .keyword "case" | .keyword "default" | .sign "\x7d" | .stop)) g.stmt

def block (g : Grammar) : Parse Block := do
  let lbrace ← sign "\x7b"
  let body ← g.stmts
  return .mk lbrace body (← sign "\x7d")

def funcOrType (g : Grammar) : Parse Expr := located do
  let type ← g.funcType
  if ← sign? "\x7b" then
    let body ← nested g.block
    return .func type body
  else return .funcType type

def operand (g : Grammar) : Parse Expr := do
  let l ← peek
  match l.tok with
  | .name => return nameExpr (← ident)
  | .sign "(" =>
    located do
      let _ ← next
      let e ← nested g.expr
      return .paren e (← sign ")")
  | .keyword "func" => g.funcOrType
  | _ =>
    if l.tok.isLiteral then
      located do
        let _ ← next
        return .literal l.tok l.text
    else
      match ← g.type? with
      | some t => return t
      | none => failure

def selector (g : Grammar) (e : Expr) : Parse Expr := do
  let _ ← sign "."
  match ← tok with
  | .name =>
    let member ← ident
    from' e.start (.selector e member)
  | .sign "(" =>
    let lparen ← sign "("
    let type ← if ← at? (.keyword "type") then
        let _ ← next
        pure none
      else pure (some (← g.type))
    let rparen ← sign ")"
    from' e.start (.assertion e lparen type rparen)
  | _ => failure

/-- Reads the bound of a slice after its colon, if there is one. -/
def bound (g : Grammar) : Parse (Option Expr) := do
  let _ ← sign ":"
  if (← sign? ":") || (← sign? "]") then return none
  return some (← g.expr)

/-- Reads an index, a slice or type arguments. Two colons need their last two bounds. -/
def indexOrSlice (g : Grammar) (e : Expr) : Parse Expr := do
  let lbrack ← sign "["
  if ← sign? "]" then failure
  let form ← nested do
    let first ← if ← sign? ":" then pure none else pure (some (← g.expr))
    match ← tok, first with
    | .sign ":", _ =>
      let second ← g.bound
      if ← sign? ":" then
        let third ← g.bound
        if second.isNone || third.isNone then failure
        return Sum.inl [first, second, third]
      else return Sum.inl [first, second]
    | _, some first =>
      let more ← many (sign? ",") do
        let _ ← next
        if ← sign? "]" then return none
        return some (← g.type)
      return Sum.inr (first :: more.filterMap id)
    | _, none => failure
  let rbrack ← sign "]"
  match form with
  | .inl bounds => from' e.start (.slice e lbrack bounds rbrack)
  | .inr indices => from' e.start (.index e lbrack indices rbrack)

def callArgs (g : Grammar) : Nat → Parse (List Expr × Place)
  | 0 => failure
  | fuel + 1 => do
    if ← sign? ")" then return ([], 0)
    let e ← g.expr
    if ← sign? "..." then
      let p ← place
      let _ ← next
      let _ ← comma ")"
      return ([e], p)
    else if ← comma ")" then
      let (more, p) ← g.callArgs fuel
      return (e :: more, p)
    else return ([e], 0)

def call (g : Grammar) (f : Expr) : Parse Expr := do
  let lparen ← sign "("
  let (args, dots) ← nested (do g.callArgs ((← get).rest.length + 1))
  let rparen ← sign ")"
  from' f.start (.call f lparen args dots rparen)

/-- Reads an element of a literal, which may be a literal without a type. -/
def element (g : Grammar) : Parse Expr := do
  if ← sign? "\x7b" then
    let p ← place
    g.literalValue none p
  else g.expr

/-- Reads an element of a literal with its key, if it has one. -/
def keyedElement (g : Grammar) : Parse Expr := do
  let e ← g.element
  if ← sign? ":" then
    let colon ← sign ":"
    let value ← g.element
    from' e.start (.keyed e colon value)
  else return e

def literalRule (g : Grammar) (type : Option Expr) (start : Place) : Parse Expr := do
  let lbrace ← sign "\x7b"
  let es ← nested (elements "\x7d" g.keyedElement)
  let rbrace ← sign "\x7d"
  from' start (.composite type lbrace es rbrace)

/-- Whether a brace after an expression opens a literal of its type, at some nesting. -/
def opensLiteral (nesting : Int) (e : Expr) : Bool :=
  match e.form with
  | .ident _ | .selector .. | .index .. => 0 ≤ nesting
  | .array .. | .struct .. | .map .. => true
  | _ => false

def primaryStep (g : Grammar) (e : Expr) : Parse (Option Expr) := do
  match ← tok with
  | .sign "." => return some (← g.selector e)
  | .sign "[" => return some (← g.indexOrSlice e)
  | .sign "(" => return some (← g.call e)
  | .sign "\x7b" =>
    let nesting := (← get).nesting
    if opensLiteral nesting e.bare then
      if e.isParen then failure
      return some (← g.literalValue (some e) e.start)
    else return none
  | _ => return none

def primaryRule (g : Grammar) (first : Option Expr) : Parse Expr := do
  let e ← match first with
    | some e => pure e
    | none => g.operand
  repeatedly g.primaryStep e

/-- Puts an arrow in front of a channel type: it belongs to the first `chan`, the arrow of that one to the
next. -/
def receiving (arrow : Place) : Expr → Option Expr
  | .mk _ stop (.channel .both _ v) => some (.mk arrow stop (.channel .receive arrow v))
  | .mk _ stop (.channel .send own v) =>
    (receiving own v).map fun v => .mk arrow stop (.channel .receive arrow v)
  | _ => none

def isChannel (e : Expr) : Bool :=
  match e.form with
  | .channel .. => true
  | _ => false

def unaryRule (g : Grammar) : Parse Expr := do
  let l ← peek
  match l.tok with
  | .sign "+" | .sign "-" | .sign "!" | .sign "^" | .sign "&" | .sign "~" =>
    located do
      let _ ← next
      return .unary l.tok (← g.unary)
  | .sign "<-" =>
    let arrow ← sign "<-"
    let e ← g.unary
    if isChannel e then
      match receiving arrow e with
      | some e => return e
      | none => failure
    else from' arrow (.unary l.tok e)
  | .sign "*" =>
    located do
      let _ ← next
      return .star (← g.unary)
  | _ => g.primary none

/-- Reads operators that bind at least as tightly as `level`, with their operands. -/
def binaryRule (g : Grammar) (first : Option Expr) (level : Nat) : Parse Expr := do
  let e ← match first with
    | some e => pure e
    | none => g.unary
  repeatedly (fun e => do
    let l ← peek
    let p := l.tok.precedence
    if p < level then return none
    let _ ← next
    let right ← g.binary none (p + 1)
    return some (← from' e.start (.binary e l.place l.tok right))) e

end Grammar

end FlowCompiler.Source.Tree
