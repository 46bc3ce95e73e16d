import FlowCompiler.Graph.FlowOrder
import FlowCompiler.Text.Column
import FlowCompiler.Text.Quoted

/-!
# Listings of a graph

A summary for readers, with one line per node, connection, export and declaration, and a description of
the graph in the DOT language.
-/

namespace FlowCompiler.Graph

open FlowCompiler.Text

def settingWidth : Nat := 40

def Node.settingsText (n : Node) : String :=
  " ".intercalate (n.settings.map fun m => s!"{m.key}={truncate m.value settingWidth}")

def orderedNodes (g : Graph) : List Node := g.flowOrder.filterMap (g.nodes[·]?)

def nameWidth (g : Graph) : Nat := g.nodes.foldl (fun w n => max w (Text.size n.name)) 4

/-- The lines under a heading, which an empty line sets off. -/
def headed (heading : String) (lines : List String) : String :=
  "\n" ++ heading ++ ":\n" ++ String.join (lines.map (· ++ "\n"))

def exportLine (g : Graph) (word : String) (e : ExportedPort) : String :=
  s!"  {padRight 3 word}  {padRight 12 e.name}  {g.nodeName e.node}.{e.port.text}"

def summary (g : Graph) : String :=
  let width := g.nameWidth
  let nodes := g.orderedNodes.map fun n =>
    s!"  {padRight width n.name}  {padRight 16 n.component}  {n.settingsText}"
  let connections := g.connections.map fun c =>
    s!"  {padRight width (g.nodeName c.source)}  {c.sourcePort.text}  →  {c.targetPort.text}  {g.nodeName c.target}"
  let exports := g.inputs.map (g.exportLine "in") ++ g.outputs.map (g.exportLine "out")
  let declarations := g.declarations.map fun d =>
    s!"  {padRight 12 d.name}  {padRight 14 d.kind}  {d.contents}"
  s!"Flow: {g.nodes.length} nodes, {g.connections.length} connections\n" ++
    headed "Nodes" nodes ++ headed "Connections" connections ++
    (if exports.isEmpty then "" else headed "Exports" exports) ++
    (if declarations.isEmpty then "" else headed "Declarations" declarations)

def dotEdge (g : Graph) (c : Connection) : String :=
  s!"\t{quote (g.nodeName c.source)}->{quote (g.nodeName c.target)}" ++
    s!"[ headlabel={quote c.targetPort.text}, taillabel={quote c.sourcePort.text} ];\n"

def dotNode (n : Node) : String :=
  let tooltip := if n.settings.isEmpty then "" else s!", tooltip={quote n.settingsText}"
  let label := quote (n.name ++ "\n" ++ n.component)
  s!"\t{quote n.name} [ label={label}, shape=box{tooltip} ];\n"

/-- A graph in the DOT language: connections in their order, then nodes by name. -/
def dot (g : Graph) : String :=
  let nodes := g.nodes.mergeSort (fun a b => quote a.name ≤ quote b.name)
  "digraph flow \x7b\n" ++ String.join (g.connections.map g.dotEdge) ++
    String.join (nodes.map dotNode) ++ "\n\x7d\n"

end FlowCompiler.Graph
