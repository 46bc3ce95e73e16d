import FlowCompiler.Compile.Slots

/-!
# Node types of running programs

A generated program builds node types out of others. The ports of such a type are a row of slots. A leaf
does work of its own when one of its nodes opens or closes; a static type is a fixed graph of child nodes.
A description of a static type is checked when the type is built.

`ω` is the type of the options of nodes, which may be missing.
-/

namespace FlowCompiler.Live

/-- A slot of a node type. -/
structure PortType where
  name : String
  dataType : String
deriving DecidableEq, Repr

/-- Something that happened. -/
inductive Event (ω : Type) where
  | prepared (type : String)
  | opened (node : Nat) (name : String) (options : Option ω)
  | closed (node : Nat) (name : String)
deriving DecidableEq, Repr

/-- What a leaf does. `opens` gives the error text of opening a node, if it fails, from what happened
before. -/
structure Behaviour (ω : Type) where
  prepares : Bool := false
  opens : Option (List (Event ω) → String → Option ω → Option String) := none
  closes : Bool := false

/-- Gives a child its options: from those of the node that it belongs to, its place and its own. -/
abbrev HandOn (ω : Type) := Option ω → Nat → Option ω → Except String (Option ω)

/-- A connection between slots of two children. -/
structure Link where
  source : Int
  sourcePort : Int
  target : Int
  targetPort : Int
deriving DecidableEq, Repr

/-- A slot of a child. -/
structure Slot where
  node : Int
  port : Int
deriving DecidableEq, Repr

/-- The name and the slots of a type. Types are told apart by `id`. -/
structure Signature where
  id : Nat
  name : String
  inputs : List PortType := []
  outputs : List PortType := []
deriving DecidableEq, Repr

/-- A node type: a leaf, or a graph of children. -/
inductive NodeType (ω : Type) where
  | leaf (signature : Signature) (behaviour : Behaviour ω)
  | static (signature : Signature) (children : List (NodeType ω × String × Option ω))
      (links : List Link) (handOn : Option (HandOn ω))

namespace NodeType

variable {ω : Type}

def signature : NodeType ω → Signature
  | leaf s _ => s
  | static s _ _ _ => s

def name (t : NodeType ω) : String := t.signature.name

def inputs (t : NodeType ω) : List PortType := t.signature.inputs

def outputs (t : NodeType ω) : List PortType := t.signature.outputs

def isStatic : NodeType ω → Bool
  | leaf .. => false
  | static .. => true

def links : NodeType ω → List Link
  | leaf .. => []
  | static _ _ links _ => links

end NodeType

/-- A child of a static type, as it is described. Its type may be missing. -/
structure ChildSpec (ω : Type) where
  type : Option (NodeType ω)
  name : String
  options : Option ω

/-- A description of a static type. -/
structure StaticSpec (ω : Type) where
  nodes : List (ChildSpec ω)
  links : List Link := []
  inputs : List Slot := []
  outputs : List Slot := []
  handOn : Option (HandOn ω) := none

/-- What is wrong with a description. -/
inductive SpecFault where
  | noNodes
  | noType (node : Nat) (name : String)
  | notSorted (link : Nat)
  | nodeRange (link : Nat)
  | sourceRange (link : Nat) (port : Int)
  | targetRange (link : Nat) (port : Int)
  | inputRange (index : Nat)
  | outputRange (index : Nat)
deriving DecidableEq, Repr

def SpecFault.message : SpecFault → String
  | noNodes => "no nodes"
  | noType node name => s!"node {node} ({name}): nil type"
  | notSorted link => s!"conn {link}: not sorted by source"
  | nodeRange link => s!"conn {link}: node out of range"
  | sourceRange link port => s!"conn {link}: source port {port} out of range"
  | targetRange link port => s!"conn {link}: destination port {port} out of range"
  | inputRange index => s!"exported in {index}: out of range"
  | outputRange index => s!"exported out {index}: out of range"

/-- Why a type is not built. -/
inductive TypeError where
  | static (name : String) (f : SpecFault)
  | composed (name : String)
deriving DecidableEq, Repr

def TypeError.message : TypeError → String
  | static name f => "static type " ++ Text.quote name ++ ": " ++ f.message
  | composed name =>
    "composed type " ++ Text.quote name ++ ": a composed node must have at least two ports"

/-- The element at a place that may be negative. -/
def at? {α : Type} (xs : List α) (i : Int) : Option α := if i < 0 then none else xs[i.toNat]?

namespace NodeType

variable {ω : Type}

/-- The output slot at a place; every type has one for errors. -/
def outputAt? (t : NodeType ω) (port : Int) : Option PortType :=
  if port = errorSlot then some ⟨errorPortName, "error"⟩ else at? t.outputs port

def inputAt? (t : NodeType ω) (port : Int) : Option PortType := at? t.inputs port

end NodeType

namespace Link

/-- Whether a connection comes before another: by its source. -/
def before (a b : Link) : Bool :=
  a.source < b.source || (a.source == b.source && a.sourcePort < b.sourcePort)

def fault? {ω : Type} (types : List (NodeType ω)) (index : Nat) (l : Link) : Option SpecFault :=
  match at? types l.source, at? types l.target with
  | some source, some target =>
    if (source.outputAt? l.sourcePort).isNone then some (.sourceRange index l.sourcePort)
    else if (target.inputAt? l.targetPort).isNone then some (.targetRange index l.targetPort)
    else none
  | _, _ => some (.nodeRange index)

end Link

namespace StaticSpec

variable {ω : Type}

/-- The first child without a type, from place `i` on. -/
def noType? (i : Nat) : List (ChildSpec ω) → Option SpecFault
  | [] => none
  | c :: rest => if c.type.isNone then some (.noType i c.name) else noType? (i + 1) rest

/-- The first fault of connections from place `i` on, after the connection before them. -/
def linkFault? (types : List (NodeType ω)) (i : Nat) (previous : Option Link) :
    List Link → Option SpecFault
  | [] => none
  | l :: rest =>
    if previous.any l.before then some (.notSorted i)
    else
      match l.fault? types i with
      | some f => some f
      | none => linkFault? types (i + 1) (some l) rest

/-- The slots of exported ports, found by `find`, up to one that is out of range. -/
def slotsFrom (types : List (NodeType ω)) (find : NodeType ω → Int → Option PortType)
    (fault : Nat → SpecFault) (i : Nat) : List Slot → Except SpecFault (List PortType)
  | [] => .ok []
  | s :: rest =>
    match (at? types s.node).bind (find · s.port) with
    | none => .error (fault i)
    | some p =>
      match slotsFrom types find fault (i + 1) rest with
      | .error f => .error f
      | .ok ps => .ok (p :: ps)

def types (s : StaticSpec ω) : List (NodeType ω) := s.nodes.filterMap (·.type)

def children (s : StaticSpec ω) : List (NodeType ω × String × Option ω) :=
  s.nodes.filterMap fun c => c.type.map fun t => (t, c.name, c.options)

/-- Checks a description and gives the slots of the type that it describes. -/
def check (s : StaticSpec ω) : Except SpecFault (List PortType × List PortType) :=
  if s.nodes.isEmpty then .error .noNodes
  else
    match noType? 0 s.nodes with
    | some f => .error f
    | none =>
      match linkFault? s.types 0 none s.links with
      | some f => .error f
      | none =>
        match slotsFrom s.types NodeType.inputAt? .inputRange 0 s.inputs with
        | .error f => .error f
        | .ok inputs =>
          match slotsFrom s.types NodeType.outputAt? .outputRange 0 s.outputs with
          | .error f => .error f
          | .ok outputs => .ok (inputs, outputs)

def build (s : StaticSpec ω) (id : Nat) (name : String) : Except TypeError (NodeType ω) :=
  match s.check with
  | .error f => .error (.static name f)
  | .ok (inputs, outputs) => .ok (.static ⟨id, name, inputs, outputs⟩ s.children s.links s.handOn)

end StaticSpec

/-- The type that packs the packets of its ports into one, or unpacks one for its ports. -/
def composedType {ω : Type} (id : Nat) (name : String) (splitter : Bool) (ports : List PortType) :
    Except TypeError (NodeType ω) :=
  if ports.length < 2 then .error (.composed name)
  else
    let packed := "composed:" ++ ",".intercalate (ports.map (·.dataType))
    if splitter then .ok (.leaf ⟨id, name, [⟨"IN", packed⟩], ports⟩ {})
    else .ok (.leaf ⟨id, name, ports, [⟨"OUT", packed⟩]⟩ {})

end FlowCompiler.Live
