import FlowCompiler.Catalog.Numeral
import FlowCompiler.Catalog.Value
import FlowCompiler.Source.Package

/-!
# Literals for option values

The value of an option becomes an expression of the generated program. A token of a number is written as the
number that it is, the name of a limit as a constant. What has no notation of its own is written as it
stands. A value without a meaning, or a composite without a field that is set, has no expression: the field
for it is left out.
-/

namespace FlowCompiler

open Source Number

/-- The named limits of numbers. -/
inductive Limit where
  | maxInt
  | minInt
  | maxFloat
deriving DecidableEq, Repr

def Limit.constant : Limit → String
  | maxInt => "MaxInt32"
  | minInt => "MinInt32"
  | maxFloat => "MaxFloat64"

/-- A scalar of a program. `smallest` is the least positive normal float; `verbatim` is taken over as it
stands. -/
inductive Literal where
  | text (s : String)
  | bool (b : Bool)
  | int (n : Int)
  | float (x : Binary64)
  | limit (negative : Bool) (l : Limit)
  | smallest (negative : Bool)
  | notANumber
  | infinity (negative : Bool)
  | verbatim (s : String)
deriving Repr

namespace Literal

def signed (negative : Bool) (e : Expr) : Expr := if negative then .unary "-" e else e

def expr : Literal → Expr
  | text s => .string s
  | bool b => .name (if b then "true" else "false")
  | int n => .int n
  | float x => .literal x.text
  | limit negative l => signed negative (math l.constant)
  | smallest negative => signed negative (.literal "2.2250738585072014e-308")
  | notANumber => .call (math "NaN") []
  | infinity negative => .call (math "Inf") [.int (if negative then -1 else 1)]
  | verbatim s => .raw s

/-- The sign of a token, true for minus, and the token without it. -/
def splitSign (tok : String) : Bool × String :=
  let (negative, body) := Number.splitSign tok.toList
  (negative, String.ofList body)

/-- The literal for a whole number. The negation of the least one becomes the greatest one. -/
def ofInt (tok : String) : Literal :=
  let (negative, body) := splitSign tok
  if body = "INT32_MAX" then limit negative .maxInt
  else if body = "INT32_MIN" then limit false (if negative then .maxInt else .minInt)
  else
    match signed? 32 tok.toList with
    | some n => int n
    | none => verbatim tok

def ofUnsigned (tok : String) : Literal :=
  match unsigned? 32 tok.toList with
  | some n => int n
  | none => verbatim tok

def ofFloat (tok : String) : Literal :=
  let (negative, body) := splitSign tok
  let word := Text.lowercase body
  if word = "nan" then notANumber
  else if word = "inf" ∨ word = "infinity" then infinity negative
  else if body = "DBL_MAX" then limit negative .maxFloat
  else if body = "DBL_MIN" then smallest negative
  else if body = "INT32_MAX" then limit negative .maxInt
  else if body = "INT32_MIN" then limit negative .minInt
  else
    match Binary64.ofLiteral? tok.toList with
    | some x => float x
    | none => verbatim tok

def ofScalar (dataType t : String) : Literal :=
  if dataType = DataType.string then text t
  else if dataType = DataType.boolean then
    match Numeral.bool? t with
    | some b => bool b
    | none => verbatim t
  else if dataType = DataType.byte then
    match unsigned? 8 t.toList with
    | some n => int n
    | none => verbatim t
  else verbatim t

end Literal

namespace Composite

/-- The type of a composite in a generated program, for a data type. -/
def typeName (c : Composite) (dataType : String) : String :=
  match c.shape with
  | .range => if dataType = DataType.int then "IntRange" else "FloatRange"
  | .spec => "SpecRange"
  | .rgb => "RGB"
  | .vector => "DirectionVector"

/-- The literal for the token of a field, for a data type. -/
def literal (c : Composite) (dataType tok : String) : Literal :=
  match c.shape with
  | .range => if dataType = DataType.int then .ofInt tok else .ofFloat tok
  | .spec | .vector => .ofFloat tok
  | .rgb => .ofUnsigned tok

def memberName (field : String) : String :=
  if field = "red_max" then "RedMax"
  else if field = "green_max" then "GreenMax"
  else if field = "blue_max" then "BlueMax"
  else
    match field.toList with
    | [] => field
    | c :: rest => String.ofList (c.toUpper :: rest)

/-- The literals of the fields that are set. -/
def literals (c : Composite) (dataType : String) : List (String × Literal) :=
  ((c.shape.fields.zip c.texts).filter (·.2 != "")).map fun (field, tok) =>
    (memberName field, c.literal dataType tok)

/-- The expression of a composite, unless no field is set. -/
def expr? (c : Composite) (dataType : String) : Option Expr :=
  match c.literals dataType with
  | [] => none
  | fields => some (.withFields (flow (c.typeName dataType)) (fields.map fun (k, l) => (k, l.expr)))

end Composite

namespace Value

def expr? (v : Value) (dataType : String) : Option Expr :=
  let dataType := DataType.canonical dataType
  match v with
  | .raw _ => none
  | .composite c => c.expr? dataType
  | .text t => some (Literal.ofScalar dataType t).expr

end Value

namespace DataType

/-- The type of options of a data type in a generated program. -/
def fieldType (dataType : String) : Expr :=
  let name := canonical dataType
  if name = int then flow "IntRange"
  else if name = float then flow "FloatRange"
  else if name = rangeSpec then flow "SpecRange"
  else if name = rgb then flow "RGB"
  else if name = directionVector then flow "DirectionVector"
  else if name = string then .name "string"
  else if name = boolean then .name "bool"
  else if name = byte then .name "byte"
  else .name "any"

end DataType

end FlowCompiler
