/-!
# Data types

The data type of a port or an option is a name. Some option types have two names; `canonical` gives the
one that the rules use.
-/

namespace FlowCompiler.DataType

def int : String := "int"

def float : String := "float"

def string : String := "string"

def boolean : String := "boolean"

def byte : String := "byte"

def rgb : String := "rgb"

def directionVector : String := "direction-vector"

def rangeSpec : String := "drange-spec"

def canonical (dataType : String) : String :=
  match dataType with
  | "drange" => float
  | "irange" => int
  | "direction_vector" => directionVector
  | "drange_spec" => rangeSpec
  | "bool" => boolean
  | other => other

end FlowCompiler.DataType
