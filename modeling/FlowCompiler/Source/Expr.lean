import FlowCompiler.Text.Quoted

/-!
# Expressions of generated programs

The expressions that generated programs are made of. Names from catalogs and values without a notation of
their own stand in them as text (`raw`), which may be anything. `Expr.draft` writes an expression down
without regard to layout.
-/

namespace FlowCompiler.Source

/-- An expression, or a type. `omitted` is the type or the key that a literal leaves out. -/
inductive Expr where
  | omitted
  | name (s : String)
  | literal (s : String)
  | raw (s : String)
  | imported (path : String) (member : String)
  | member (e : Expr) (field : String)
  | unary (op : String) (e : Expr)
  | binary (op : String) (left right : Expr)
  | call (f : Expr) (args : List Expr)
  | index (e i : Expr)
  | assert (e type : Expr)
  | listType (element : Expr)
  | record (type : Expr) (fields : List (Expr × Expr)) (stacked : Bool)
deriving Repr, Inhabited

namespace Expr

def string (s : String) : Expr := literal (Text.quote s)

def int (n : Int) : Expr := literal (toString n)

def null : Expr := name "nil"

/-- A literal on one line with named fields. -/
def withFields (type : Expr) (fields : List (String × Expr)) : Expr :=
  record type (fields.map fun (k, v) => (name k, v)) false

/-- A literal with named fields, one a line. -/
def withLines (type : Expr) (fields : List (String × Expr)) : Expr :=
  record type (fields.map fun (k, v) => (name k, v)) true

/-- A list literal with one element a line. -/
def lines (element : Expr) (elements : List Expr) : Expr :=
  record (listType element) (elements.map fun e => (omitted, e)) true

end Expr

/-- Texts between an opening and a closing one. Stacked ones stand on lines of their own, with `ending`
after the last. -/
def enclosed (opening separator ending closing : String) (stacked : Bool) (texts : List String) : String :=
  if stacked && !texts.isEmpty then
    opening ++ "\n" ++ (separator ++ "\n").intercalate texts ++ ending ++ "\n" ++ closing
  else opening ++ separator.intercalate texts ++ closing

/-- Words with a blank between them. Those without text are left out. -/
def spaced (words : List String) : String := " ".intercalate (words.filter (· != ""))

mutual

/-- The text of an expression, with the names of packages. -/
def Expr.draft (nameOf : String → String) : Expr → String
  | .omitted => ""
  | .name s | .literal s | .raw s => s
  | .imported path s => nameOf path ++ "." ++ s
  | .member e field => e.draft nameOf ++ " . " ++ field
  | .unary op e => op ++ " " ++ e.draft nameOf
  | .binary op l r => l.draft nameOf ++ " " ++ op ++ " " ++ r.draft nameOf
  | .call f args => f.draft nameOf ++ " " ++ enclosed "(" "," "" ")" false (Expr.draftAll nameOf args)
  | .index e i => e.draft nameOf ++ " [" ++ i.draft nameOf ++ "]"
  | .assert e type => e.draft nameOf ++ " .(" ++ type.draft nameOf ++ ")"
  | .listType element => "[] " ++ element.draft nameOf
  | .record type fields stacked =>
    spaced [type.draft nameOf,
      enclosed "\x7b" "," "," "\x7d" stacked (Expr.draftFields nameOf fields)]

def Expr.draftAll (nameOf : String → String) : List Expr → List String
  | [] => []
  | e :: es => e.draft nameOf :: Expr.draftAll nameOf es

def Expr.draftFields (nameOf : String → String) : List (Expr × Expr) → List String
  | [] => []
  | (.omitted, v) :: rest => v.draft nameOf :: Expr.draftFields nameOf rest
  | (k, v) :: rest => (k.draft nameOf ++ " : " ++ v.draft nameOf) :: Expr.draftFields nameOf rest

end

/-! ## Packages that are used -/

mutual

/-- The paths of the packages in an expression. -/
def Expr.paths : Expr → List String
  | .imported path _ => [path]
  | .member e _ | .unary _ e | .listType e => e.paths
  | .binary _ l r => l.paths ++ r.paths
  | .call f args => f.paths ++ Expr.pathsAll args
  | .index e i => e.paths ++ i.paths
  | .assert e type => e.paths ++ type.paths
  | .record type fields _ => type.paths ++ Expr.pathsFields fields
  | _ => []

def Expr.pathsAll : List Expr → List String
  | [] => []
  | e :: es => e.paths ++ Expr.pathsAll es

def Expr.pathsFields : List (Expr × Expr) → List String
  | [] => []
  | (k, v) :: rest => k.paths ++ v.paths ++ Expr.pathsFields rest

end

end FlowCompiler.Source
