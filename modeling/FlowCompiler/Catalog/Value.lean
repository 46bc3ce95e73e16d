import FlowCompiler.Catalog.DataType

/-!
# Option values

The value of an option is a text, a composite of named numeric fields, or the text of something that has
no meaning for its data type. Which fields a composite has is its shape, given by the data type. A field
holds the token that was written for it; an empty one is not set.
-/

namespace FlowCompiler

/-- The kinds of composite values. -/
inductive Shape where
  | range
  | spec
  | rgb
  | vector
deriving DecidableEq, Repr

namespace Shape

def fields : Shape → List String
  | range => ["val", "min", "max", "step"]
  | spec => ["min", "max", "step"]
  | rgb => ["red", "green", "blue", "red_max", "green_max", "blue_max"]
  | vector => ["x", "y", "z", "min", "max"]

/-- The shape of the values of a data type, if they are composite. -/
def ofType? (dataType : String) : Option Shape :=
  let name := DataType.canonical dataType
  if name = DataType.int ∨ name = DataType.float then some range
  else if name = DataType.rangeSpec then some spec
  else if name = DataType.rgb then some rgb
  else if name = DataType.directionVector then some vector
  else none

theorem fields_nodup (s : Shape) : s.fields.Nodup := by cases s <;> decide

end Shape

/-- A composite value: a text for each field of its shape. -/
structure Composite where
  shape : Shape
  texts : List String
  sized : texts.length = shape.fields.length
deriving DecidableEq, Repr

namespace Composite

def empty (shape : Shape) : Composite where
  shape := shape
  texts := List.replicate shape.fields.length ""
  sized := List.length_replicate

/-- The text of a field, empty for a name that is no field. -/
def field (c : Composite) (name : String) : String :=
  ((c.shape.fields.zip c.texts).lookup name).getD ""

def set? (c : Composite) (name text : String) : Option Composite :=
  match c.shape.fields.idxOf? name with
  | none => none
  | some i => some { c with
    texts := c.texts.set i text, sized := by rw [List.length_set]; exact c.sized }

/-- The fields that are set, as `name:text` parts joined by bars. -/
def text (c : Composite) : String :=
  "|".intercalate <|
    ((c.shape.fields.zip c.texts).filter (·.2 != "")).map fun (name, t) => name ++ ":" ++ t

end Composite

/-- The value of an option. -/
inductive Value where
  | text (t : String)
  | composite (c : Composite)
  | raw (t : String)
deriving DecidableEq, Repr

def Value.str : Value → String
  | text t => t
  | composite c => c.text
  | raw t => t

end FlowCompiler
