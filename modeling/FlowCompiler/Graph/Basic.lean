import FlowCompiler.Graph.Position

/-!
# Flow graphs

A flow graph has nodes, each an instance of a component, and connections from an output port of one
node to an input port of another. A flow may also export ports and options of its nodes as its own, and
declare types that its nodes use. Nodes are referred to by their place in the list of nodes; every list
keeps the order of the text.
-/

namespace FlowCompiler

/-- Whether a port takes packets or gives them. -/
inductive Direction where
  | input
  | output
deriving DecidableEq, Repr, Inhabited

namespace Direction

def text : Direction → String
  | input => "input"
  | output => "output"

end Direction

/-- A setting of a node. A quoted value keeps its quotes; without a value it is empty. -/
structure Meta where
  key : String
  value : String
  pos : Position
deriving DecidableEq, Repr, Inhabited

/-- A port as a flow names it, with an index for an element of an array. -/
structure PortRef where
  name : String
  index : Option Nat
deriving DecidableEq, Repr, Inhabited

namespace PortRef

/-- The written form, `NAME` or `NAME[index]`. -/
def text (p : PortRef) : String :=
  match p.index with
  | none => p.name
  | some i => s!"{p.name}[{i}]"

end PortRef

namespace Graph

/-- An instance of a component. -/
structure Node where
  name : String
  component : String
  settings : List Meta
  pos : Position
deriving DecidableEq, Repr, Inhabited

def Node.setting? (n : Node) (key : String) : Option String :=
  (n.settings.find? (·.key == key)).map (·.value)

/-- A connection between two nodes, given by their places in the list of nodes. -/
structure Connection where
  source : Nat
  sourcePort : PortRef
  target : Nat
  targetPort : PortRef
  pos : Position
deriving DecidableEq, Repr, Inhabited

def Connection.sameEnds (a b : Connection) : Bool :=
  a.source == b.source && a.sourcePort == b.sourcePort &&
    a.target == b.target && a.targetPort == b.targetPort

/-- A port of a node that the flow offers as its own under `name`. -/
structure ExportedPort where
  node : Nat
  port : PortRef
  name : String
  pos : Position
deriving DecidableEq, Repr, Inhabited

/-- A type local to the flow: another flow's file, or a composed type. -/
structure Declaration where
  name : String
  kind : String
  contents : String
  pos : Position
deriving DecidableEq, Repr, Inhabited

/-- An option of a node that the flow offers as its own under `name`. -/
structure ExportedOption where
  node : Nat
  option : String
  name : String
  pos : Position
deriving DecidableEq, Repr, Inhabited

end Graph

/-- A flow: nodes, connections, and what the flow offers and declares. -/
structure Graph where
  nodes : List Graph.Node := []
  connections : List Graph.Connection := []
  inputs : List Graph.ExportedPort := []
  outputs : List Graph.ExportedPort := []
  declarations : List Graph.Declaration := []
  options : List Graph.ExportedOption := []
deriving DecidableEq, Repr, Inhabited

namespace Graph

def index? (g : Graph) (name : String) : Option Nat := g.nodes.findIdx? (·.name == name)

def outgoing (g : Graph) (node : Nat) : List Connection :=
  g.connections.filter (·.source == node)

def exports (g : Graph) : Direction → List ExportedPort
  | .input => g.inputs
  | .output => g.outputs

/-- The name of the node at place `i`, or the empty name. -/
def nodeName (g : Graph) (i : Nat) : String :=
  match g.nodes[i]? with
  | some n => n.name
  | none => ""

end Graph

end FlowCompiler
