import FlowCompiler.Source.Grammar.Stmts

/-!
# Reading files

`grammar` ties the rules together; its argument bounds how deeply they may be nested.
-/

namespace FlowCompiler.Source.Tree

open Parse

namespace Grammar

def empty : Grammar where
  unary := failure
  binary _ _ := failure
  primary _ := failure
  type? := failure
  literalValue _ _ := failure
  simple _ _ := failure
  stmt := failure
  ifStmt := failure

end Grammar

/-- The rules, nested at most as deeply as the argument says. -/
def grammar : Nat → Grammar
  | 0 => .empty
  | depth + 1 => {
    unary := fun r => (grammar depth).unaryRule r
    binary := fun e level r => (grammar depth).binaryRule e level r
    primary := fun e r => (grammar depth).primaryRule e r
    type? := fun r => (grammar depth).typeRule r
    literalValue := fun e p r => (grammar depth).literalRule e p r
    simple := fun labels ranges r => (grammar depth).simpleRule labels ranges r
    stmt := fun r => (grammar depth).stmtRule r
    ifStmt := fun r => (grammar depth).ifRule r }

namespace Grammar

def decl (g : Grammar) : Parse Decl := do
  match ← tok with
  | .keyword "func" => g.funcDecl
  | .keyword word =>
    if ["import", "const", "var", "type"].contains word then return .gen (← g.genDecl word) else failure
  | _ => failure

/-- Whether imports stand only before other declarations. -/
def importsFirst (decls : List Decl) : Bool :=
  (decls.dropWhile (·.keyword == .keyword "import")).all (·.keyword != .keyword "import")

def file (g : Grammar) (comments : List Group) : Parse File := do
  let start ← keyword "package"
  let name ← ident
  let _ ← semicolon
  let decls ← many (return (← tok) != .stop) g.decl
  if !importsFirst decls then failure
  return ⟨start, name, decls, comments⟩

end Grammar

def File.ofText? (s : String) : Option File :=
  (Lexeme.ofText s).bind fun lexemes =>
    let (entries, comments) := Entry.ofLexemes (.ofText s) lexemes
    (((grammar (8 * lexemes.length + 8)).file comments).run ⟨entries, 0, 0⟩).map (·.1)

end FlowCompiler.Source.Tree
