import FlowCompiler.Compile.Naming
import FlowCompiler.Compile.Options
import FlowCompiler.Compile.Slots

/-!
# Flow units

A unit is one flow file with all that compiling it gives: the types that it declares, the types of its
nodes, the values of their options, rows of slots, and the type that the flow itself is for the flow that
declares it. A unit that failed keeps what it got so far.
-/

namespace FlowCompiler

/-- Where the type of a node comes from. -/
inductive Role where
  | external
  | subflow
  | metatype
deriving DecidableEq, Repr

namespace Role

def text : Role → String
  | external => "external"
  | subflow => "subflow"
  | metatype => "metatype"

def ofNumber (n : Int) : Role := if n = 1 then subflow else if n = 2 then metatype else external

end Role

def Direction.ofNumber (n : Int) : Direction := if n = 1 then .output else .input

/-- The type of a node, and its settings with those of its preset. -/
structure Binding where
  type : Descriptor
  role : Role
  settings : List Meta
deriving DecidableEq, Repr

/-- A flow that a unit declares, and the unit that it is. -/
structure Subflow where
  name : String
  child : Nat
  pos : Position
deriving DecidableEq, Repr

/-- A type that a unit declares and a metatype makes, and the function that builds it. -/
structure DeclaredType where
  name : String
  kind : String
  contents : String
  funcName : String
  pos : Position
deriving DecidableEq, Repr

/-- An option of a child that takes its value from an option of the unit. -/
structure ForwardingRow where
  child : Nat
  option : String
  parentField : String
deriving DecidableEq, Repr

/-- A flow file as far as it is compiled. The options of a node are missing if nothing sets them. -/
structure FlowUnit where
  id : Nat
  name : String
  path : String
  graph : Graph
  parent : Option Nat
  stem : String
  locals : Catalog := {}
  subflows : List Subflow := []
  declared : List DeclaredType := []
  bindings : List Binding := []
  forwarding : List ForwardingRow := []
  options : List (Option (List ResolvedOption)) := []
  connections : List ConnectionRow := []
  inputs : List SlotRow := []
  outputs : List SlotRow := []
  type : Option Descriptor := none
deriving DecidableEq, Repr

/-- The variable of a declared type. -/
def typeVariable (name : String) : String := "type" ++ Naming.exported name

namespace Graph

/-- The rows of exported options, up to one that the type of its node does not have. -/
def forwardingRows (g : Graph) (types : List Descriptor) :
    List ExportedOption → List ForwardingRow × Option Misplaced
  | [] => ([], none)
  | o :: rest =>
    let t := typeAt types o.node
    if (t.optionIndex? o.option).isNone then
      ([], some (o.pos, .noExportedOption o.name (g.nodeName o.node) t.name o.option))
    else
      let (rows, fault) := g.forwardingRows types rest
      (⟨o.node, o.option, Naming.forwarded o.name⟩ :: rows, fault)

end Graph

namespace FlowUnit

/-- The function that builds the type of a unit. -/
def funcName (u : FlowUnit) : String := "create" ++ u.stem ++ "Type"

def types (u : FlowUnit) : List Descriptor := u.bindings.map (·.type)

def hasForwarding (u : FlowUnit) (node : Nat) : Bool := u.forwarding.any (·.child == node)

/-- The values of the options of all nodes, with warnings, up to a node with an unknown setting. -/
structure Encoded where
  warnings : List Diagnostic := []
  options : List (Option (List ResolvedOption)) := []
  fault : Option Diagnostic := none

/-- Encodes the options of nodes from place `i` on, but for those without settings and exported options. -/
def encodeFrom (u : FlowUnit) (i : Nat) : List Binding → Encoded
  | [] => {}
  | b :: rest =>
    if b.settings.isEmpty && !u.hasForwarding i then
      let e := u.encodeFrom (i + 1) rest
      { e with options := none :: e.options }
    else
      match b.type.encode u.path b.settings with
      | (warnings, .error d) =>
        { warnings, options := List.replicate (rest.length + 1) none, fault := some d }
      | (warnings, .ok values) =>
        let e := u.encodeFrom (i + 1) rest
        { e with warnings := warnings ++ e.warnings, options := some values :: e.options }

def encode (u : FlowUnit) : Encoded := u.encodeFrom 0 u.bindings

/-- The values of the options of a node, if they were encoded. -/
def valuesAt (u : FlowUnit) (node : Nat) : Option (List ResolvedOption) := u.options[node]?.join

def optionValue (u : FlowUnit) (node index : Nat) (fallback : Option Value) : Option Value :=
  match (u.valuesAt node).bind (·[index]?) with
  | some v => v.value
  | none => fallback

/-- The option of the unit's type for an exported option. -/
def exportedOption? (u : FlowUnit) (o : Graph.ExportedOption) : Option OptionSpec :=
  let t := Graph.typeAt u.types o.node
  match t.optionIndex? o.option with
  | none => none
  | some i =>
    match t.options[i]? with
    | none => none
    | some spec => some ⟨o.name, spec.dataType, u.optionValue o.node i spec.fallback⟩

/-- The type that a unit is for the unit that declares it. An exported option has the inner value as its
default. -/
def describe (u : FlowUnit) : Descriptor :=
  let options := u.graph.options.filterMap u.exportedOption?
  { name := u.name
    symbol := typeVariable u.name
    optionsSymbol := if options.isEmpty then "" else u.stem ++ "Options"
    inputs := u.graph.exportedPorts u.types .input
    outputs := u.graph.exportedPorts u.types .output
    options
    generated := true }

end FlowUnit

end FlowCompiler
