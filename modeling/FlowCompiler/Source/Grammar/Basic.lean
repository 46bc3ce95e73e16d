import FlowCompiler.Source.Entry

/-!
# Reading source text

A source text is read as the tree of a file, lexeme by lexeme. What is not well formed is not read at all:
there is no recovery, and it does not matter why a text is refused.

The rules for expressions, types and statements refer to each other. `Grammar` holds those that others refer
to.
-/

namespace FlowCompiler.Source.Tree

/-- The state of reading. The depth in brackets is negative in the head of a statement, where a brace opens
its body. -/
structure Reading where
  rest : List Entry
  nesting : Int := 0
  last : Place := 0

/-- Something that is read from lexemes, unless they do not fit. -/
abbrev Parse (α : Type) := StateT Reading Option α

namespace Parse

def peek : Parse Lexeme := fun r =>
  match r.rest with
  | e :: _ => some (e.lexeme, r)
  | [] => none

def tok : Parse Tok := return (← peek).tok

def place : Parse Place := return (← peek).place

def last : Parse Place := return (← get).last

/-- The comments on the lines before the lexeme to be read next. -/
def lead : Parse (Option Group) := return (← get).rest.head?.bind (·.lead)

/-- The comments at the end of the line before the lexeme to be read next. -/
def line : Parse (Option Group) := return (← get).rest.head?.bind (·.line)

def next : Parse Lexeme := fun r =>
  match r.rest with
  | e :: es => some (e.lexeme, { r with rest := es, last := e.lexeme.place + e.lexeme.text.utf8ByteSize })
  | [] => none

def at? (t : Tok) : Parse Bool := return (← tok) == t

def sign? (s : String) : Parse Bool := at? (.sign s)

def expect (t : Tok) : Parse Place := do
  let l ← next
  if l.tok == t then return l.place else failure

def sign (s : String) : Parse Place := expect (.sign s)

def keyword (s : String) : Parse Place := expect (.keyword s)

/-- Reads the end of a statement, which is left out before what closes, and gives the comment after it. -/
def semicolon : Parse (Option Group) := do
  let l ← peek
  match l.tok with
  | .sign ")" | .sign "\x7d" => return none
  | .sign ";" =>
    if l.text == ";" then
      let _ ← next
      line
    else
      let comment ← line
      let _ ← next
      return comment
  | _ => failure

/-- Reads the comma after an element, if there is one; none is needed before what closes. -/
def comma (closing : String) : Parse Bool := do
  if ← sign? "," then
    let _ ← next
    return true
  else if ← sign? closing then return false
  else failure

def nested {α : Type} (p : Parse α) : Parse α := do
  modify fun r => { r with nesting := r.nesting + 1 }
  let a ← p
  modify fun r => { r with nesting := r.nesting - 1 }
  return a

def head {α : Type} (p : Parse α) : Parse α := do
  let before := (← get).nesting
  modify fun r => { r with nesting := -1 }
  let a ← p
  modify fun r => { r with nesting := before }
  return a

def whileM {α : Type} (condition : Parse Bool) (p : Parse α) : Nat → Parse (List α)
  | 0 => failure
  | fuel + 1 => do
    if ← condition then
      let a ← p
      return a :: (← whileM condition p fuel)
    else return []

/-- Repeats reading as long as a condition holds; each repetition reads something. -/
def many {α : Type} (condition : Parse Bool) (p : Parse α) : Parse (List α) := do
  whileM condition p ((← get).rest.length + 1)

/-- Reads elements with commas between them and perhaps after the last, up to a closing sign. -/
def elementsUpTo {α : Type} (closing : String) (p : Parse α) : Nat → Parse (List α)
  | 0 => failure
  | fuel + 1 => do
    if ← sign? closing then return []
    let a ← p
    if ← comma closing then return a :: (← elementsUpTo closing p fuel)
    else return [a]

/-- Reads elements with commas between them, up to a sign that closes. -/
def elements {α : Type} (closing : String) (p : Parse α) : Parse (List α) := do
  elementsUpTo closing p ((← get).rest.length + 1)

def located (p : Parse ExprForm) : Parse Expr := do
  let start ← place
  let form ← p
  return .mk start (← last) form

/-- An expression from `start` up to the last lexeme. -/
def from' (start : Place) (form : ExprForm) : Parse Expr := return .mk start (← last) form

def ident : Parse Ident := do
  let l ← next
  if l.tok == .name then return ⟨l.place, l.text⟩ else failure

def nameExpr (i : Ident) : Expr := .mk i.place (i.place + i.name.utf8ByteSize) (.ident i.name)

def iterate {α : Type} (step : α → Parse (Option α)) : Nat → α → Parse α
  | 0, _ => failure
  | fuel + 1, a => do
    match ← step a with
    | some a => iterate step fuel a
    | none => return a

/-- Repeats a step as long as it changes a value; each repetition reads something. -/
def repeatedly {α : Type} (step : α → Parse (Option α)) (a : α) : Parse α := do
  iterate step ((← get).rest.length + 2) a

end Parse

open Parse

/-- The rules that other rules refer to. -/
structure Grammar where
  unary : Parse Expr
  binary : Option Expr → Nat → Parse Expr
  primary : Option Expr → Parse Expr
  type? : Parse (Option Expr)
  literalValue : Option Expr → Place → Parse Expr
  simple : Bool → Bool → Parse (Stmt × Bool)
  stmt : Parse Stmt
  ifStmt : Parse Stmt

namespace Grammar

def expr (g : Grammar) : Parse Expr := g.binary none 1

def exprs (g : Grammar) : Parse (List Expr) := do
  let first ← g.expr
  let more ← many (sign? ",") (do let _ ← next; g.expr)
  return first :: more

def type (g : Grammar) : Parse Expr := do
  match ← g.type? with
  | some t => return t
  | none => failure

end Grammar

end FlowCompiler.Source.Tree
