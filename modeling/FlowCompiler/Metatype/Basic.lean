import FlowCompiler.Metatype.Composed
import FlowCompiler.Source.Package

/-!
# Metatypes

A metatype makes node types out of declarations that are no flows. It knows the ports of a declared type and
writes the code that builds it: a part that all declarations share, a part for each declaration, and a part
after the last one. A registry holds metatypes by the kinds of their declarations.
-/

namespace FlowCompiler

open Source

/-- A declared type, and the function that has to build it. -/
structure MetatypeUse where
  name : String
  contents : String
  funcName : String
deriving DecidableEq, Repr

/-- A metatype. An error is given by its text. -/
structure Metatype where
  ports : String → Except String (List Port × List Port)
  declares : List String := []
  start : Except String (List Decl) := .ok []
  define : MetatypeUse → Except String (List Decl) := fun _ => .ok []
  finish : Except String (List Decl) := .ok []

namespace Composed

def helperName (splitter : Bool) : String :=
  if splitter then "newComposedSplitType" else "newComposedNewType"

def helper (splitter : Bool) : Decl :=
  .func none {
    name := helperName splitter
    params := [⟨"name", .name "string"⟩, ⟨"ports", flow "PortType"⟩]
    variadic := true
    results := [nodeTypePointer, errorType]
    body := [.give [.call (flow "NewComposedType")
      [.name "name", .name (if splitter then "true" else "false"), .name "ports"]]] }

/-- The arguments that a declared type is built from. -/
def arguments (name : String) (ports : List Port) : List Expr :=
  .string name :: ports.map fun p =>
    .withFields (flow "PortType") [("Name", .string p.name), ("DataType", .string p.dataType)]

def constructor (splitter : Bool) (u : MetatypeUse) : Except String (List Decl) :=
  match simplePorts u.contents with
  | .error f => .error ("declaration " ++ Text.quote u.name ++ ": " ++ f.message)
  | .ok ports => .ok [.func none {
      name := u.funcName
      results := [nodeTypePointer, errorType]
      body := [.give [.call (.name (helperName splitter)) (arguments u.name ports)]] }]

def metatype (splitter : Bool) : Metatype where
  ports contents :=
    match ports splitter contents with
    | .ok ps => .ok ps
    | .error f => .error f.message
  declares := [helperName splitter]
  start := .ok [helper splitter]
  define := constructor splitter

end Composed

/-- Metatypes by kind. -/
structure Registry where
  entries : List (String × Metatype)

namespace Registry

def find? (r : Registry) (kind : String) : Option Metatype := r.entries.lookup kind

/-- Puts a metatype in place of the one of its kind. -/
def register (r : Registry) (kind : String) (m : Metatype) : Registry :=
  ⟨(kind, m) :: r.entries.filter (·.1 != kind)⟩

def kinds (r : Registry) : List String := Text.sorted (r.entries.map (·.1))

def builtin : Registry :=
  ⟨[("composed-new", Composed.metatype false), ("composed-split", Composed.metatype true)]⟩

def unknownKind (kind : String) : String := "no metatype registered for kind " ++ Text.quote kind

end Registry

end FlowCompiler
