import FlowCompiler.Source.Grammar.Exprs

/-!
# Reading declarations
-/

namespace FlowCompiler.Source.Tree

open Parse

namespace Grammar

/-- The name and the type that an expression after the bracket of a type declaration stands for, if it can
start type parameters. `force` takes any operand for a type. -/
def splitName : Expr → Bool → Option (Ident × Option Expr)
  | .mk s _ (.ident n), _ => some (⟨s, n⟩, none)
  | .mk _ stop (.binary l p (.sign "*") r), force =>
    match l.form with
    | .ident n =>
      if force || r.isTypeElement then some (⟨l.start, n⟩, some (.mk p stop (.star r))) else none
    | _ => none
  | .mk _ stop (.binary l p (.sign "|") r), force =>
    match splitName l (force || r.isTypeElement) with
    | some (name, some t) => some (name, some (.mk t.start stop (.binary t p (.sign "|") r)))
    | _ => none
  | .mk _ _ (.call f _ [arg] 0 _), force =>
    match f.form with
    | .ident n => if force || arg.isTypeElement then some (⟨f.start, n⟩, some arg) else none
    | _ => none
  | _, _ => none

/-- Reads type parameters and a type, or an array type, behind the opening bracket. -/
def bracketType (g : Grammar) : Parse (Option FieldList × Place × Expr) := do
  let lbrack ← sign "["
  if ← at? .name then
    let i ← ident
    let x ← if ← sign? "[" then pure (nameExpr i)
      else nested do
        let left ← g.primary (some (nameExpr i))
        g.binary (some left) 1
    let force ← sign? ","
    let closes ← sign? "]"
    match splitName x force with
    | some (name, type) =>
      if type.isSome || !closes then
        let fields ← g.params (some (name, type)) "]"
        let rbrack ← sign "]"
        let equals ← if ← sign? "=" then sign "=" else pure 0
        let t ← g.type
        return (some (.mk lbrack fields rbrack), equals, t)
      else return (none, 0, ← g.arrayType lbrack (some x))
    | none => return (none, 0, ← g.arrayType lbrack (some x))
  else return (none, 0, ← g.arrayType lbrack none)

def spec (g : Grammar) (word : String) (doc : Option Group) : Parse (Spec × Place) := do
  let start ← place
  match word with
  | "import" =>
    let name ← match ← tok with
      | .name => pure (some (← ident))
      | .sign "." => pure (some ⟨← sign ".", "."⟩)
      | _ => pure none
    let l ← next
    if l.tok != .string then failure
    let stop ← last
    return (.imported start doc name l.place l.text (← semicolon), stop)
  | "type" =>
    let name ← ident
    let (typeParams, equals, type) ← if ← sign? "[" then g.bracketType
      else do
        let equals ← if ← sign? "=" then sign "=" else pure 0
        pure (none, equals, ← g.type)
    let stop ← last
    return (.type start doc name typeParams equals type (← semicolon), stop)
  | _ =>
    let name ← ident
    let names ← many (sign? ",") (do let _ ← next; ident)
    let ends := (← tok) matches .stop | .sign ";" | .sign ")"
    let untyped ← if word == "const" then pure ends else sign? "="
    let type ← if untyped then pure none
      else if word == "const" then g.type?
      else pure (some (← g.type))
    let values ← if !(word == "const" && ends) && (← sign? "=") then
        let _ ← next
        g.exprs
      else pure []
    let stop ← last
    return (.value start doc (name :: names) type values (← semicolon), stop)

def genDecl (g : Grammar) (word : String) : Parse GenDecl := do
  let doc ← lead
  let start ← keyword word
  if ← sign? "(" then
    let lparen ← sign "("
    let specs ← many (return !((← tok) matches .sign ")" | .stop)) (do g.spec word (← lead))
    let rparen ← sign ")"
    let stop ← last
    let _ ← semicolon
    return .mk start stop doc (.keyword word) lparen (specs.map (·.1)) rparen
  else
    let (s, stop) ← g.spec word none
    return .mk start stop doc (.keyword word) 0 [s] 0

def funcDecl (g : Grammar) : Parse Decl := do
  let doc ← lead
  let start ← keyword "func"
  let receiver ← if ← sign? "(" then pure (some (← g.parameters)) else pure none
  let name ← ident
  let typeParams ← g.typeParameters
  if receiver.isSome && typeParams.isSome then failure
  let params ← g.parameters
  let results ← g.results
  let type : FuncType := .mk start typeParams params results
  if ← sign? "\x7b" then
    let body ← g.block
    let stop ← last
    let _ ← semicolon
    return .func start stop doc receiver name type (some body)
  else
    let stop ← last
    if ← sign? ";" then
      let _ ← next
      if ← sign? "\x7b" then failure
    else
      let _ ← semicolon
    return .func start stop doc receiver name type none

end Grammar

end FlowCompiler.Source.Tree
