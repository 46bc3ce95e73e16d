import FlowCompiler.Text.Quoted

/-!
# Presets

A preset gives a symbolic id a node type and defaults for its options, written `key=value`. A resolver looks
ids up; it may not know an id, or fail for a reason of its own.
-/

namespace FlowCompiler

/-- A node type with defaults for its options. -/
structure Preset where
  typeName : String
  options : List String
deriving DecidableEq, Repr

/-- Why an id has no preset. -/
inductive ResolveError where
  | undeclared (id : String)
  | failed (message : String)
deriving DecidableEq, Repr

def ResolveError.message : ResolveError → String
  | undeclared id => Text.quote id ++ ": id not declared"
  | failed message => message

abbrev Resolver := String → Except ResolveError Preset

/-- Presets by their ids, in the order of their declaration. -/
structure Presets where
  entries : List (String × Preset) := []
deriving DecidableEq, Repr

namespace Presets

def find? (p : Presets) (id : String) : Option Preset := p.entries.lookup id

def resolver (p : Presets) : Resolver := fun id =>
  match p.find? id with
  | some e => .ok e
  | none => .error (.undeclared id)

end Presets

end FlowCompiler
