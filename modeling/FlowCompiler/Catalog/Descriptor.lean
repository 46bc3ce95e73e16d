import FlowCompiler.Catalog.Value

/-!
# Node types

A descriptor says what the compiler knows of a node type: the symbols that stand for it in the target
program, its ports, and its options with their defaults.

The slots of all ports of one direction are numbered in one row. A port without a size takes one slot, an
array port as many as its size.
-/

namespace FlowCompiler

/-- A port of a node type: `base` is its first slot. -/
structure Port where
  name : String
  dataType : String
  size : Int := 0
  base : Int := 0
deriving DecidableEq, Repr, Inhabited

namespace Port

def isArray (p : Port) : Bool := 0 < p.size

/-- The number of slots of a port. -/
def width (p : Port) : Int := if 0 < p.size then p.size else 1

theorem width_pos (p : Port) : 0 < p.width := by
  unfold width
  split <;> omega

end Port

/-- An option of a node type. -/
structure OptionSpec where
  name : String
  dataType : String
  fallback : Option Value := none
deriving DecidableEq, Repr

/-- A node type. `generated` marks types whose options the generated program defines. -/
structure Descriptor where
  name : String
  symbol : String
  optionsSymbol : String := ""
  inputs : List Port := []
  outputs : List Port := []
  options : List OptionSpec := []
  generated : Bool := false
deriving DecidableEq, Repr

namespace Descriptor

def input? (d : Descriptor) (name : String) : Option Port := d.inputs.find? (·.name == name)

def output? (d : Descriptor) (name : String) : Option Port := d.outputs.find? (·.name == name)

def optionIndex? (d : Descriptor) (name : String) : Option Nat :=
  d.options.findIdx? (·.name == name)

end Descriptor

end FlowCompiler
