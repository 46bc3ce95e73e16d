import FlowCompiler.Compile.Diagnostic

/-!
# Slots

Ports of a type are told apart by their slots. Connections and exported ports of a flow are checked against
the types of its nodes and turned into rows of slots. Every type has an output for errors, unless it
declares a port of that name itself.
-/

namespace FlowCompiler

/-- The data type that goes with every other one. -/
def anyType : String := "any"

def errorPortName : String := "ERROR"

def errorSlot : Int := 65534

def errorPort : Port := { name := errorPortName, dataType := "error", base := errorSlot }

/-- Whether data may flow from a port of one data type to a port of another. -/
def compatible (source target : String) : Bool :=
  source == target || source == anyType || target == anyType

/-- A connection between slots of two nodes. -/
structure ConnectionRow where
  source : Nat
  sourceSlot : Int
  target : Nat
  targetSlot : Int
deriving DecidableEq, Repr

/-- Whether a row does not come after another: by source node, then by source slot. -/
def ConnectionRow.notAfter (a b : ConnectionRow) : Bool :=
  a.source < b.source || (a.source == b.source && a.sourceSlot ≤ b.sourceSlot)

/-- An exported slot of a node. -/
structure SlotRow where
  node : Nat
  slot : Int
deriving DecidableEq, Repr

abbrev Misplaced := Position × Cause

namespace Descriptor

def port? (d : Descriptor) (dir : Direction) (name : String) : Option Port :=
  match dir with
  | .input => d.input? name
  | .output => (d.output? name).or (if name = errorPortName then some errorPort else none)

/-- A type that stands for none. -/
def unknown : Descriptor := { name := "", symbol := "" }

end Descriptor

namespace Port

/-- The slot of an element of a port. An array needs an index within its size, any other port takes none
but zero. -/
def slot (p : Port) (typeName : String) (index : Option Nat) : Except Cause Int :=
  if p.isArray then
    match index with
    | none => .error (.noIndex p.name typeName)
    | some i =>
      if p.size ≤ i then .error (.badIndex p.name typeName p.size i)
      else .ok (Number.wrap (p.base + i))
  else
    match index with
    | none => .ok p.base
    | some i => if i = 0 then .ok p.base else .error (.badIndex p.name typeName 0 i)

end Port

namespace Graph

def typeAt (types : List Descriptor) (node : Nat) : Descriptor := types.getD node .unknown

def connectionRow (g : Graph) (types : List Descriptor) (c : Connection) : Except Cause ConnectionRow :=
  let source := typeAt types c.source
  let target := typeAt types c.target
  match source.port? .output c.sourcePort.name with
  | none => .error (.noPort c.sourcePort.name source.name)
  | some p =>
    match p.slot source.name c.sourcePort.index with
    | .error e => .error e
    | .ok sourceSlot =>
      match target.port? .input c.targetPort.name with
      | none => .error (.noPort c.targetPort.name target.name)
      | some q =>
        match q.slot target.name c.targetPort.index with
        | .error e => .error e
        | .ok targetSlot =>
          if compatible p.dataType q.dataType then
            .ok ⟨c.source, sourceSlot, c.target, targetSlot⟩
          else .error (.differentTypes (g.nodeName c.source) c.sourcePort.name c.targetPort.name
            (g.nodeName c.target) p.dataType q.dataType)

/-- The rows of connections, up to one that is wrong. -/
def rowsOf (g : Graph) (types : List Descriptor) :
    List Connection → Except Misplaced (List ConnectionRow)
  | [] => .ok []
  | c :: rest =>
    match g.connectionRow types c with
    | .error e => .error (c.pos, e)
    | .ok row =>
      match g.rowsOf types rest with
      | .error e => .error e
      | .ok rows => .ok (row :: rows)

/-- The rows of all connections, sorted by their sources. Rows of one source keep their order. -/
def connectionRows (g : Graph) (types : List Descriptor) : Except Misplaced (List ConnectionRow) :=
  match g.rowsOf types g.connections with
  | .error e => .error e
  | .ok rows => .ok (rows.mergeSort ConnectionRow.notAfter)

/-- The rows of an exported port. A port that is exported as a whole has a row for each slot. -/
def exportRow (g : Graph) (types : List Descriptor) (dir : Direction) (e : ExportedPort) :
    Except Cause (List SlotRow) :=
  match (typeAt types e.node).port? dir e.port.name with
  | none => .error (.noExportedPort e.name e.port.name (g.nodeName e.node))
  | some p =>
    match e.port.index with
    | none => .ok ((List.range p.width.toNat).map fun (i : Nat) => ⟨e.node, Number.wrap (p.base + i)⟩)
    | some i =>
      if p.width ≤ i then .error (.badExportedIndex e.name i p.size)
      else .ok [⟨e.node, Number.wrap (p.base + i)⟩]

/-- The rows of exported ports, up to one that is wrong. -/
def exportRowsOf (g : Graph) (types : List Descriptor) (dir : Direction) :
    List ExportedPort → Except Misplaced (List SlotRow)
  | [] => .ok []
  | e :: rest =>
    match g.exportRow types dir e with
    | .error f => .error (e.pos, f)
    | .ok rows =>
      match g.exportRowsOf types dir rest with
      | .error f => .error f
      | .ok more => .ok (rows ++ more)

def exportRows (g : Graph) (types : List Descriptor) (dir : Direction) : Except Misplaced (List SlotRow) :=
  g.exportRowsOf types dir (g.exports dir)

/-- The ports of the type that a flow is, from slot `base` on: one for each exported port. -/
def portsFrom (types : List Descriptor) (dir : Direction) (base : Int) : List ExportedPort → List Port
  | [] => []
  | e :: rest =>
    let inner := ((typeAt types e.node).port? dir e.port.name).getD { name := "", dataType := "" }
    let p : Port := {
      name := e.name, dataType := inner.dataType
      size := if e.port.index.isNone then inner.size else 0
      base := base }
    p :: portsFrom types dir (Number.wrap (base + p.width)) rest

/-- The ports of the type that a flow is, in a direction. -/
def exportedPorts (g : Graph) (types : List Descriptor) (dir : Direction) : List Port :=
  portsFrom types dir 0 (g.exports dir)

end Graph

end FlowCompiler
