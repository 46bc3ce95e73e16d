import FlowCompiler.Graph.Reader

/-!
# Graphs from statements

A graph is built by taking the statements in order. A node is created when it is first mentioned; later
mentions add to it. What would contradict an earlier statement is refused: a second component for a node,
a setting, connection, export, declaration or option that is there already. At the end every node must
have a component.
-/

namespace FlowCompiler

namespace Graph

/-- Gives the node a component. The empty component stands for none. -/
def Node.addComponent (n : Node) (component : String) (pos : Position) : Except ParseError Node :=
  if component = "" then .ok n
  else if n.component = "" then .ok { n with component := component, pos := pos }
  else .error ⟨pos, .retyped n.name n.component n.pos⟩

/-- Adds settings after those that the node has. -/
def Node.addSettings (n : Node) : List Meta → Except ParseError Node
  | [] => .ok n
  | m :: ms =>
    match n.settings.find? (·.key == m.key) with
    | some earlier => .error ⟨m.pos, .repeatedSetting n.name m.key earlier.pos⟩
    | none => Node.addSettings { n with settings := n.settings ++ [m] } ms

/-- The place of the node called `name`, which is created at `pos` if it is new. -/
def place (g : Graph) (name : String) (pos : Position) : Graph × Nat :=
  match g.index? name with
  | some i => (g, i)
  | none => ({ g with nodes := g.nodes ++ [⟨name, "", [], pos⟩] }, g.nodes.length)

def modifyNode (g : Graph) (i : Nat) (change : Node → Except ParseError Node) :
    Except ParseError Graph :=
  match g.nodes[i]? with
  | none => .ok g
  | some n => (change n).map fun n' => { g with nodes := g.nodes.set i n' }

/-- Takes a mention into the graph and returns the place of its node. -/
def addMention (g : Graph) (m : Mention) : Except ParseError (Graph × Nat) := do
  let (g, i) := g.place m.nodeName m.pos
  let g ← g.modifyNode i fun n => do
    let n ← n.addComponent m.component m.pos
    n.addSettings m.settings
  .ok (g, i)

/-- Adds a connection that joins ports which no earlier connection joins. -/
def addConnection (g : Graph) (c : Connection) : Except ParseError Graph :=
  match g.connections.find? (·.sameEnds c) with
  | some earlier =>
    .error ⟨c.pos, .repeatedConnection (g.nodeName c.source) c.sourcePort.name c.targetPort.name
      (g.nodeName c.target) earlier.pos⟩
  | none => .ok { g with connections := g.connections ++ [c] }

/-- Adds the links of a chain, the first of which leaves the node at place `source`. -/
def addLinks (g : Graph) (source : Nat) : List Link → Except ParseError Graph
  | [] => .ok g
  | l :: ls => do
    let (g, target) ← g.addMention l.node
    let g ← g.addConnection ⟨source, l.sourcePort, target, l.targetPort, l.pos⟩
    g.addLinks target ls

/-- Whether two exports of one direction name the same element, or the same whole port. -/
def ExportedPort.sharesPort (a b : ExportedPort) : Bool :=
  a.node == b.node && a.port.name == b.port.name &&
    (a.port.index == b.port.index || a.port.index.isNone || b.port.index.isNone)

/-- Checks an export against the earlier ones of its direction. -/
def checkExport (g : Graph) (direction : Direction) (e : ExportedPort) : Except ParseError Unit :=
  match (g.exports direction).find? (fun o => o.name == e.name || o.sharesPort e) with
  | none => .ok ()
  | some o =>
    if o.name = e.name then .error ⟨e.pos, .repeatedExportName direction e.name o.pos⟩
    else .error ⟨e.pos, .repeatedExportPort direction (g.nodeName e.node) e.port.name o.name o.pos⟩

/-- Adds an exported port whose name and slot are new in its direction. -/
def addExport (g : Graph) (direction : Direction) (e : ExportedPort) : Except ParseError Graph := do
  g.checkExport direction e
  .ok (match direction with
    | .input => { g with inputs := g.inputs ++ [e] }
    | .output => { g with outputs := g.outputs ++ [e] })

/-- Adds a declaration whose name is new. -/
def addDeclaration (g : Graph) (d : Declaration) : Except ParseError Graph :=
  if g.declarations.any (·.name == d.name) then .error ⟨d.pos, .repeatedDeclaration d.name⟩
  else .ok { g with declarations := g.declarations ++ [d] }

/-- Refuses the name of an exported option that an earlier one has. -/
def checkOption (g : Graph) (name : String) (pos : Position) : Except ParseError Unit :=
  match g.options.find? (·.name == name) with
  | some earlier => .error ⟨pos, .repeatedOption name earlier.pos⟩
  | none => .ok ()

def add (g : Graph) : Statement → Except ParseError Graph
  | .chain head links => do
    let (g, source) ← g.addMention head
    g.addLinks source links
  | .exportPort direction node port name pos =>
    let (g, i) := g.place node pos
    g.addExport direction ⟨i, port, name, pos⟩
  | .declare d => g.addDeclaration d
  | .exportOption node option name pos => do
    g.checkOption name pos
    let (g, i) := g.place node pos
    .ok { g with options := g.options ++ [⟨i, option, name, pos⟩] }

def addAll (g : Graph) : List Statement → Except ParseError Graph
  | [] => .ok g
  | s :: ss => do
    let g ← g.add s
    g.addAll ss

def checkTyped (g : Graph) : Except ParseError Graph :=
  match g.nodes.find? (·.component == "") with
  | some n => .error ⟨n.pos, .untyped n.name⟩
  | none => .ok g

/-- Reads a flow text. A contradiction between statements comes before a later fault of form. -/
def parse (text : String) : Except ParseError Graph := do
  let (statements, fault) := Statement.ofText text
  let g ← addAll {} statements
  match fault with
  | some e => .error e
  | none => g.checkTyped

end Graph

end FlowCompiler
