import FlowCompiler.Source.Expr
import FlowCompiler.Source.Format
import FlowCompiler.Text.Order

/-!
# Source files

A source file is a package clause, imports and declarations. `SourceFile.draft` writes it down without regard
to layout, and `SourceFile.render` gives its text in the usual one. That fails where text that was taken over
from catalogs or flows cannot be read in its place.
-/

namespace FlowCompiler.Source

/-- A statement. `callWith` calls a function with one argument, a function with the given body. -/
inductive Stmt where
  | define (names : List String) (e : Expr)
  | assign (targets : List Expr) (e : Expr)
  | expr (e : Expr)
  | give (es : List Expr)
  | when (condition : Expr) (body : List Stmt)
  | choose (subject : Expr) (cases : List (Expr × List Stmt))
  | callWith (f : Expr) (body : List Stmt)
deriving Repr, Inhabited

/-- A name with a type: a parameter, a field or a variable. -/
structure Typed where
  name : String
  type : Expr
deriving Repr, Inhabited

/-- A function. The last parameter may stand for any number of arguments. -/
structure Func where
  name : String
  params : List Typed := []
  variadic : Bool := false
  results : List Expr := []
  body : List Stmt := []
deriving Repr, Inhabited

/-- A declaration. -/
inductive Decl where
  | record (comment : String) (name : String) (fields : List Typed)
  | uninitialised (name : String) (type : Expr)
  | initialised (name : String) (value : Expr)
  | block (vars : List Typed)
  | func (comment : Option String) (f : Func)
deriving Repr, Inhabited

def Decl.names : Decl → List String
  | record _ n _ => [n]
  | uninitialised n _ => [n]
  | initialised n _ => [n]
  | block vs => vs.map (·.name)
  | func _ f => [f.name]

/-- A package that a file uses, under a name. The name of some packages is not written. -/
structure Import where
  name : String
  path : String
  named : Bool := true
deriving DecidableEq, Repr, Inhabited

/-- A source file. `names` gives the packages their names; those that are used are imported. -/
structure SourceFile where
  header : Option String := none
  package : String
  names : List Import := []
  decls : List Decl := []

/-! ## Packages that are used -/

mutual

def Stmt.paths : Stmt → List String
  | .define _ e | .expr e => e.paths
  | .assign targets e => Expr.pathsAll targets ++ e.paths
  | .give es => Expr.pathsAll es
  | .when c body => c.paths ++ Stmt.pathsAll body
  | .choose e cases => e.paths ++ Stmt.pathsCases cases
  | .callWith f body => f.paths ++ Stmt.pathsAll body

def Stmt.pathsAll : List Stmt → List String
  | [] => []
  | s :: ss => s.paths ++ Stmt.pathsAll ss

def Stmt.pathsCases : List (Expr × List Stmt) → List String
  | [] => []
  | (e, body) :: rest => e.paths ++ Stmt.pathsAll body ++ Stmt.pathsCases rest

end

def Decl.paths : Decl → List String
  | record _ _ fields => fields.flatMap (·.type.paths)
  | uninitialised _ t => t.paths
  | initialised _ v => v.paths
  | block vs => vs.flatMap (·.type.paths)
  | func _ f => f.params.flatMap (·.type.paths) ++ Expr.pathsAll f.results ++ Stmt.pathsAll f.body

/-! ## Drafts -/

def blockText (texts : List String) : String := enclosed "\x7b" "" "" "\x7d" true texts

mutual

def Stmt.draft (nameOf : String → String) : Stmt → String
  | .define names e => ",".intercalate names ++ " := " ++ e.draft nameOf
  | .assign targets e => ",".intercalate (Expr.draftAll nameOf targets) ++ " = " ++ e.draft nameOf
  | .expr e => e.draft nameOf
  | .give es => "return " ++ ",".intercalate (Expr.draftAll nameOf es)
  | .when c body => "if " ++ c.draft nameOf ++ " " ++ blockText (Stmt.draftAll nameOf body)
  | .choose e cases => "switch " ++ e.draft nameOf ++ " " ++ blockText (Stmt.draftCases nameOf cases)
  | .callWith f body =>
    f.draft nameOf ++ " (func () " ++ blockText (Stmt.draftAll nameOf body) ++ ")"

def Stmt.draftAll (nameOf : String → String) : List Stmt → List String
  | [] => []
  | s :: ss => s.draft nameOf :: Stmt.draftAll nameOf ss

def Stmt.draftCases (nameOf : String → String) : List (Expr × List Stmt) → List String
  | [] => []
  | (e, body) :: rest =>
    ("case " ++ e.draft nameOf ++ ": " ++ String.join ((Stmt.draftAll nameOf body).map ("\n" ++ ·))) ::
      Stmt.draftCases nameOf rest

end

/-- The text of a comment, unless it is marked as one already. With line ends it is a block. -/
def commentText (c : String) : String :=
  let cs := c.toList
  if cs.take 2 == ['/', '/'] || cs.take 2 == ['/', '*'] then c
  else if cs.contains '\n' then "/*\n" ++ c ++ (if cs.getLast? == some '\n' then "" else "\n") ++ "*/"
  else "// " ++ c

def Typed.draft (nameOf : String → String) (v : Typed) : String := v.name ++ " " ++ v.type.draft nameOf

/-- The texts of parameters, the last of which may stand for any number of arguments. -/
def paramTexts (nameOf : String → String) (variadic : Bool) : List Typed → List String
  | [] => []
  | [v] => [if variadic then v.name ++ " ... " ++ v.type.draft nameOf else v.draft nameOf]
  | v :: vs => v.draft nameOf :: paramTexts nameOf variadic vs

def Func.draft (nameOf : String → String) (f : Func) : String :=
  let params := enclosed "(" "," "" ")" false (paramTexts nameOf f.variadic f.params)
  let results := if f.results.isEmpty then ""
    else enclosed "(" "," "" ")" false (Expr.draftAll nameOf f.results)
  spaced ["func", f.name, params, results, blockText (Stmt.draftAll nameOf f.body)]

/-- The texts of a declaration: its comment, if it has one, and itself. -/
def Decl.drafts (nameOf : String → String) : Decl → List String
  | record c n fields =>
    [commentText c,
      "type " ++ n ++ " " ++ enclosed "struct\x7b" "" "" "\x7d" true (fields.map (Typed.draft nameOf))]
  | uninitialised n t => ["var " ++ n ++ " " ++ t.draft nameOf]
  | initialised n v => ["var " ++ n ++ " = " ++ v.draft nameOf]
  | block vs => ["var " ++ enclosed "(" "" "" ")" true (vs.map (Typed.draft nameOf))]
  | func c f => (c.map commentText).toList ++ [f.draft nameOf]

/-! ## Imports -/

def badPathChars : List Char := "!\"#$%&'()*,:;<=>?[\\]^\x7b|\x7d`".toList ++ [Char.ofNat 0xFFFD]

def isImportPath (path : String) : Bool :=
  path != "" && path.toList.all fun c =>
    Text.isPrintable c && !Text.isBlank c && !badPathChars.contains c

/-- The group of a path: first those whose first part has no dot. -/
def importGroup (path : String) : Nat :=
  if "appengine".toList.isPrefixOf path.toList then 2
  else if (path.toList.takeWhile (· != '/')).contains '.' then 1
  else 0

def Import.text (i : Import) : String :=
  if i.named then i.name ++ " " ++ Text.quote i.path else Text.quote i.path

/-- Whether an import does not come after another: by group, then by path. -/
def Import.notAfter (a b : Import) : Bool :=
  let x := importGroup a.path
  let y := importGroup b.path
  x < y || (x == y && Text.notAfter a.path b.path)

/-- The lines of sorted imports, with an empty line between two groups. -/
def importLines (before : Option Nat) : List Import → List String
  | [] => []
  | i :: rest =>
    let g := importGroup i.path
    (if before.any (· != g) then ["", i.text] else [i.text]) ++ importLines (some g) rest

def importClause (imports : List Import) : String :=
  match imports with
  | [] => ""
  | [i] => "import " ++ i.text ++ "\n\n"
  | _ =>
    "import " ++ enclosed "(" "" "" ")" true (importLines none (imports.mergeSort Import.notAfter)) ++ "\n\n"

namespace SourceFile

def used (f : SourceFile) : List Import :=
  let paths := f.decls.flatMap Decl.paths
  f.names.filter fun i => paths.contains i.path

def packageName (f : SourceFile) (path : String) : String :=
  match f.names.find? (·.path == path) with
  | some i => i.name
  | none => ""

/-- The text of a file without regard to layout. -/
def draft (f : SourceFile) : String :=
  let header := match f.header with
    | some h => commentText h ++ "\n\n"
    | none => ""
  let body := (f.decls.flatMap (Decl.drafts f.packageName)).map ("\n" ++ ·)
  header ++ "package " ++ f.package ++ "\n\n" ++ importClause f.used ++ String.join body

/-- The text of a file in the usual layout, unless some part of it cannot be read. -/
def render (f : SourceFile) : Option String :=
  if f.used.all (isImportPath ·.path) then format? f.draft else none

end SourceFile

end FlowCompiler.Source
