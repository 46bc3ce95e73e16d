import FlowCompiler.Source.Grammar.Decls

/-!
# Reading statements
-/

namespace FlowCompiler.Source.Tree

open Parse

namespace Grammar

def assignments : List String := [
  ":=", "=", "+=", "-=", "*=", "/=", "%=", "&=", "|=", "^=", "<<=", ">>=", "&^="]

def rangeOnly (g : Grammar) : Parse Stmt := do
  let start ← keyword "range"
  let e ← g.expr
  let e ← from' start (.unary (.keyword "range") e)
  return .mk start (.assign [] 0 .none [e])

/-- Reads an assignment after its left side, from its sign `l` on. -/
def assignRule (g : Grammar) (start : Place) (left : List Expr) (l : Lexeme) (ranges : Bool) :
    Parse (Stmt × Bool) := do
  let _ ← next
  let ranged := ranges && (← at? (.keyword "range")) && (l.tok == .sign ":=" || l.tok == .sign "=")
  if ranged then
    let p ← keyword "range"
    let e ← g.expr
    let e ← from' p (.unary (.keyword "range") e)
    return (.mk start (.assign left l.place l.tok [e]), true)
  else return (.mk start (.assign left l.place l.tok (← g.exprs)), false)

/-- Reads a simple statement, with a label if `labels`, and tells whether it is a range clause, if `ranges`.
-/
def simpleRule (g : Grammar) (labels ranges : Bool) : Parse (Stmt × Bool) := do
  let start ← place
  let left ← g.exprs
  let l ← peek
  match l.tok, left with
  | .sign s, [e] =>
    if assignments.contains s then g.assignRule start left l ranges
    else if s == ":" then
      let colon ← sign ":"
      match labels, e.form with
      | true, .ident n => return (.mk start (.labeled ⟨start, n⟩ colon (← g.stmt)), false)
      | _, _ => failure
    else if s == "<-" then
      let arrow ← sign "<-"
      return (.mk start (.send e arrow (← g.expr)), false)
    else if s == "++" || s == "--" then
      let _ ← next
      return (.mk start (.step e l.place l.tok), false)
    else return (.mk start (.expr e), false)
  | .sign s, _ => if assignments.contains s then g.assignRule start left l ranges else failure
  | _, [e] => return (.mk start (.expr e), false)
  | _, _ => failure

/-- The expression that a statement consists of, if there is one; fails for other statements. -/
def asExpr : Option Stmt → Parse (Option Expr)
  | none => return none
  | some s =>
    match s.form with
    | .expr e => return some e
    | _ => failure

def ifHead (g : Grammar) : Parse (Option Stmt × Expr) := do
  if ← sign? "\x7b" then failure
  head do
    let first ← if ← sign? ";" then pure none else pure (some (← g.simple false false).1)
    let (init, condition) ← if ← sign? "\x7b" then pure (none, first)
      else do
        let _ ← sign ";"
        if ← sign? "\x7b" then pure (first, none)
        else pure (first, some (← g.simple false false).1)
    match ← asExpr condition with
    | some e => return (init, e)
    | none => failure

def ifRule (g : Grammar) : Parse Stmt := do
  let start ← keyword "if"
  let (init, condition) ← g.ifHead
  let body ← g.block
  if ← at? (.keyword "else") then
    let _ ← next
    let otherwise ← match ← tok with
      | .keyword "if" => g.ifStmt
      | .sign "\x7b" => do
        let p ← place
        let b ← g.block
        let _ ← semicolon
        pure (.mk p (.block b))
      | _ => failure
    return .mk start (.ifElse init condition body (some otherwise))
  else
    let _ ← semicolon
    return .mk start (.ifElse init condition body none)

def clauseFollows : Parse Bool := return (← tok) matches .keyword "case" | .keyword "default"

def caseClause (g : Grammar) : Parse Stmt := do
  let l ← next
  let values ← if l.tok == .keyword "case" then pure (some (← g.exprs)) else pure none
  let colon ← sign ":"
  return .mk l.place (.caseClause values colon (← g.stmts))

/-- Whether a statement asks for the type of a value. Fails if it assigns it with a plain sign. -/
def isTypeGuard (s : Option Stmt) : Parse Bool :=
  match s.map Stmt.form with
  | some (.expr e) => return asksType e
  | some (.assign [_] _ op [e]) =>
    if asksType e then
      if op == .sign ":=" then return true
      else if op == .sign "=" then failure
      else return false
    else return false
  | _ => return false
where
  asksType (e : Expr) : Bool :=
    match e.form with
    | .assertion _ _ none _ => true
    | _ => false

def switchRule (g : Grammar) : Parse Stmt := do
  let start ← keyword "switch"
  let (init, subject) ← if ← sign? "\x7b" then pure (none, none)
    else head do
      let first ← if ← sign? ";" then pure none else pure (some (← g.simple false false).1)
      if ← sign? ";" then
        let _ ← next
        if ← sign? "\x7b" then return (first, none)
        return (first, some (← g.simple false false).1)
      else return (none, first)
  let byType ← isTypeGuard subject
  let lbrace ← sign "\x7b"
  let clauses ← many clauseFollows g.caseClause
  let rbrace ← sign "\x7d"
  let _ ← semicolon
  let body : Block := .mk lbrace clauses rbrace
  match byType, subject with
  | true, some s => return .mk start (.typeSwitch init s body)
  | _, _ => return .mk start (.switch init (← asExpr subject) body)

/-- Reads what a clause of a select waits for. -/
def communication (g : Grammar) : Parse Stmt := do
  let start ← place
  let left ← g.exprs
  let l ← peek
  match l.tok, left with
  | .sign "<-", [e] =>
    let arrow ← sign "<-"
    return .mk start (.send e arrow (← g.expr))
  | .sign ":=", [_] | .sign ":=", [_, _] | .sign "=", [_] | .sign "=", [_, _] =>
    let _ ← next
    return .mk start (.assign left l.place l.tok [← g.expr])
  | _, [e] => return .mk start (.expr e)
  | _, _ => failure

def commClause (g : Grammar) : Parse Stmt := do
  let l ← next
  let comm ← if l.tok == .keyword "case" then pure (some (← g.communication)) else pure none
  let colon ← sign ":"
  return .mk l.place (.commClause comm colon (← g.stmts))

def selectRule (g : Grammar) : Parse Stmt := do
  let start ← keyword "select"
  let lbrace ← sign "\x7b"
  let clauses ← many clauseFollows g.commClause
  let rbrace ← sign "\x7d"
  let _ ← semicolon
  return .mk start (.select (.mk lbrace clauses rbrace))

/-- The head of a loop. -/
inductive LoopHead where
  | plain (init condition post : Option Stmt)
  | ranged (s : Stmt)

def loopHead (g : Grammar) : Parse LoopHead := do
  if ← sign? "\x7b" then return .plain none none none
  head do
    if ← at? (.keyword "range") then return .ranged (← g.rangeOnly)
    let first ← if ← sign? ";" then pure none
      else do
        let (s, ranged) ← g.simple false true
        if ranged then return .ranged s
        pure (some s)
    if ← sign? ";" then
      let _ ← next
      if ← sign? "\x7b" then failure
      let condition ← if ← sign? ";" then pure none else pure (some (← g.simple false false).1)
      let _ ← semicolon
      let post ← if ← sign? "\x7b" then pure none else pure (some (← g.simple false false).1)
      return .plain first condition post
    else return .plain none first none

def loopRule (g : Grammar) : Parse Stmt := do
  let start ← keyword "for"
  let h ← g.loopHead
  let body ← g.block
  let _ ← semicolon
  match h with
  | .plain init condition post =>
    return .mk start (.loop init (← asExpr condition) post body)
  | .ranged s =>
    match s.form with
    | .assign left p op [.mk _ _ (.unary _ e)] =>
      match left with
      | [] => return .mk start (.range none none p op e body)
      | [k] => return .mk start (.range (some k) none p op e body)
      | [k, v] => return .mk start (.range (some k) (some v) p op e body)
      | _ => failure
    | _ => failure

/-- Reads a call that is started on its own or put off. -/
def spawnRule (g : Grammar) : Parse Stmt := do
  let l ← next
  let e ← g.expr
  match e.form with
  | .call .. =>
    let _ ← semicolon
    return .mk l.place (.spawn l.tok e)
  | _ => failure

def branchRule : Parse Stmt := do
  let l ← next
  let labelled := l.tok == .keyword "goto" ||
    ((l.tok == .keyword "break" || l.tok == .keyword "continue") && (← at? .name))
  let label ← if labelled then pure (some (← ident)) else pure none
  let _ ← semicolon
  return .mk l.place (.branch l.tok label)

def stmtRule (g : Grammar) : Parse Stmt := do
  let l ← peek
  let simple : Parse Stmt := do
    let (s, _) ← g.simple true false
    match s.form with
    | .labeled .. => return s
    | _ =>
      let _ ← semicolon
      return s
  match l.tok with
  | .keyword word =>
    match word with
    | "const" | "type" | "var" => return .mk l.place (.decl (← g.genDecl word))
    | "func" | "struct" | "map" | "chan" | "interface" => simple
    | "go" | "defer" => g.spawnRule
    | "return" =>
      let _ ← next
      let results ← if (← tok) matches .sign ";" | .sign "\x7d" then pure [] else g.exprs
      let _ ← semicolon
      return .mk l.place (.give results)
    | "break" | "continue" | "goto" | "fallthrough" => branchRule
    | "if" => g.ifStmt
    | "switch" => g.switchRule
    | "select" => g.selectRule
    | "for" => g.loopRule
    | _ => failure
  | .sign s =>
    match s with
    | "\x7b" =>
      let b ← g.block
      let _ ← semicolon
      return .mk l.place (.block b)
    | ";" =>
      let _ ← next
      return .mk l.place .empty
    | "\x7d" => return .mk l.place .empty
    | "(" | "[" | "+" | "-" | "*" | "&" | "^" | "<-" | "!" => simple
    | _ => failure
  | .name => simple
  | t => if t.isLiteral then simple else failure

end Grammar

end FlowCompiler.Source.Tree
