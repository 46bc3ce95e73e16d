import FlowCompiler.Catalog.DataType
import FlowCompiler.Number.Binary64
import FlowCompiler.Text.LetterCase

/-!
# Numerals of a data type

The fields of a composite value hold tokens: numbers in the notation of their data type, names of limits,
and for floats not-a-number and infinity. `token?` gives the normal form of a token.
-/

namespace FlowCompiler.Numeral

open Number

def intLimits : List String := ["INT32_MIN", "INT32_MAX"]

def floatLimits : List String := ["DBL_MIN", "DBL_MAX", "INT32_MIN", "INT32_MAX"]

def isSign (c : Char) : Bool := c == '+' || c == '-'

/-- A token without the signs before it. -/
def unsignedPart (tok : String) : String := String.ofList (tok.toList.dropWhile isSign)

def signs (tok : String) : String := String.ofList (tok.toList.takeWhile isSign)

/-- The normal form of a token of a whole number of 32 bits. -/
def int? (tok : String) : Option String :=
  if intLimits.contains (unsignedPart tok) ∧ (signs tok).length ≤ 1 then some tok
  else (signed? 32 tok.toList).map fun _ => tok

/-- The normal form of a token of a natural number of 32 bits. -/
def unsigned? (tok : String) : Option String :=
  (Number.unsigned? 32 tok.toList).map fun _ => tok

/-- The normal form of a token of a float. -/
def float? (tok : String) : Option String :=
  let body := unsignedPart tok
  let word := Text.lowercase body
  if 1 < (signs tok).length then none
  else if word = "nan" then some "nan"
  else if word = "inf" ∨ word = "infinity" then some (signs tok ++ "inf")
  else if floatLimits.contains body then some tok
  else (Binary64.ofLiteral? tok.toList).map fun _ => tok

/-- The normal form of a token: whole numbers for `int`, natural numbers for `rgb`, floats for all others.
-/
def token? (dataType tok : String) : Option String :=
  let name := DataType.canonical dataType
  if name = DataType.int then int? tok
  else if name = DataType.rgb then unsigned? tok
  else float? tok

def bool? (text : String) : Option Bool :=
  if ["1", "t", "T", "TRUE", "true", "True"].contains text then some true
  else if ["0", "f", "F", "FALSE", "false", "False"].contains text then some false
  else none

/-- Whether a text is a value of a data type without fields. Types without a notation take any text. -/
def isScalar (dataType text : String) : Bool :=
  let name := DataType.canonical dataType
  if name = DataType.boolean then (bool? text).isSome
  else if name = DataType.byte then (Number.unsigned? 8 text.toList).isSome
  else true

end FlowCompiler.Numeral
