import FlowCompiler.Program.Literal
import FlowCompiler.Program.Names

/-!
# The code of a unit

The code of a unit is a function that builds its type. A unit with exported options has a type for them, a
variable with their defaults, and a function that hands them on to the children.
-/

namespace FlowCompiler

open Source Names

/-- The literal for option values of a type. Options without an expression are left out. -/
def Descriptor.optionsLiteral (d : Descriptor) (values : List ResolvedOption) : Expr :=
  .withLines (symbolExpr d.optionsSymbol) <| values.filterMap fun o =>
    match o.value.bind (·.expr? o.dataType) with
    | some e => some (Naming.optionField d o.name, e)
    | none => none

def failOnError : Stmt := .when (.binary "!=" (.name "err") .null) [.give [.null, .name "err"]]

namespace FlowUnit

def descriptor (u : FlowUnit) : Descriptor := u.type.getD .unknown

/-- The type of the options of a unit, and their defaults. -/
def optionsDecls (u : FlowUnit) : List Decl :=
  let t := u.descriptor
  if t.optionsSymbol = "" then []
  else [
    .record (t.optionsSymbol ++ " holds the exported options of " ++ u.name ++ ".") t.optionsSymbol
      (t.options.map fun o => ⟨Naming.optionField t o.name, DataType.fieldType o.dataType⟩),
    .initialised u.defaultsName (t.optionsLiteral t.defaults)]

/-- The children that options are handed on to, in their order. -/
def forwardedChildren (u : FlowUnit) : List Nat :=
  (List.range u.bindings.length).filter u.hasForwarding

/-- The statements that hand options on to a child. -/
def forwardTo (u : FlowUnit) (child : Nat) : List Stmt :=
  let t := Graph.typeAt u.types child
  let rows := u.forwarding.filter (·.child == child)
  [.define ["o"] (.assert (.name "opts") (symbolExpr t.optionsSymbol))] ++
    (rows.map fun r => .assign [.member (.name "o") (Naming.optionField t r.option)]
      (.member (.name "p") (Naming.exported r.parentField))) ++
    [.give [.name "o", .null]]

def childOptionsDecls (u : FlowUnit) : List Decl :=
  if u.forwarding.isEmpty then []
  else [.func none {
    name := u.childOptionsName
    params := [⟨"parent", flow "Options"⟩, ⟨"child", .name "int"⟩, ⟨"opts", flow "Options"⟩]
    results := [flow "Options", errorType]
    body := [
      .define ["p"] (.name u.defaultsName),
      .when (.binary "!=" (.name "parent") .null) [
        .define ["v", "ok"] (.assert (.name "parent") (.name u.optionsSymbol)),
        .when (.unary "!" (.name "ok")) [
          .give [.null, .call (.imported "fmt" "Errorf")
            [.string (u.name ++ ": unexpected options type %T"), .name "parent"]]],
        .assign [.name "p"] (.name "v")],
      .choose (.name "child") (u.forwardedChildren.map fun (c : Nat) => (.int c, u.forwardTo c)),
      .give [.name "opts", .null]] }]

def hasOptions (u : FlowUnit) (node : Nat) : Bool :=
  (u.valuesAt node).isSome && (Graph.typeAt u.types node).optionsSymbol != ""

def optionVariables (u : FlowUnit) : List Stmt :=
  (u.options.zipIdx).filterMap fun (values, i) =>
    let t := Graph.typeAt u.types i
    match values with
    | none => none
    | some values =>
      if t.optionsSymbol = "" then none
      else some (.define [optionsVariable i] (t.optionsLiteral values))

/-- The variable of a list, if it is not empty. -/
def listVariable {α : Type} (name element : String) (row : α → List (String × Expr)) (rows : List α) :
    List Stmt :=
  if rows.isEmpty then []
  else [.define [name] (.lines (flow element) (rows.map fun r => .withFields .omitted (row r)))]

def connectionFields (r : ConnectionRow) : List (String × Expr) :=
  [("Src", .int r.source), ("SrcPort", .int r.sourceSlot), ("Dst", .int r.target),
    ("DstPort", .int r.targetSlot)]

def slotFields (r : SlotRow) : List (String × Expr) := [("Node", .int r.node), ("Port", .int r.slot)]

/-- The function that builds a declared type. `units` are all units. -/
def constructorOf (u : FlowUnit) (units : List FlowUnit) (name : String) : String :=
  match u.declared.find? (·.name == name) with
  | some d => d.funcName
  | none =>
    match u.subflows.find? (·.name == name) with
    | some s => ((units[s.child]?).map (·.funcName)).getD ""
    | none => ""

/-- The declared types that nodes use, with the functions that build them, as declared. -/
def declaredTypes (u : FlowUnit) (units : List FlowUnit) : List (Descriptor × String) :=
  let used := (u.bindings.filter (·.role != .external)).map (·.type)
  u.graph.declarations.filterMap fun d =>
    match used.find? (·.name == d.name) with
    | some t => some (t, u.constructorOf units d.name)
    | none => none

def nodeFields (u : FlowUnit) (node : Nat) (n : Graph.Node) : List (String × Expr) :=
  ("Name", .string n.name) ::
    if u.hasOptions node then [("Options", .name (optionsVariable node))] else []

/-- The fields of the description that the type of a unit is built from. -/
def specFields (u : FlowUnit) : List (String × Expr) :=
  [("Nodes", .name "nodes")] ++
    (if u.connections.isEmpty then [] else [("Conns", .name "conns")]) ++
    (if u.inputs.isEmpty then [] else [("ExportedIn", .name "exportedIn")]) ++
    (if u.outputs.isEmpty then [] else [("ExportedOut", .name "exportedOut")]) ++
    (if u.forwarding.isEmpty then [] else [("ChildOptions", .name u.childOptionsName)])

def createBody (u : FlowUnit) (units : List FlowUnit) : List Stmt :=
  u.optionVariables ++
    listVariable "conns" "ConnSpec" connectionFields u.connections ++
    listVariable "exportedIn" "PortSpec" slotFields u.inputs ++
    listVariable "exportedOut" "PortSpec" slotFields u.outputs ++
    ((u.declaredTypes units).flatMap fun (t, f) =>
      [.define [t.symbol, "err"] (.call (.name f) []), failOnError]) ++
    [.define ["nodes"] (.lines (flow "NodeSpec")
      (u.graph.nodes.zipIdx.map fun (n, i) => .withFields .omitted (u.nodeFields i n)))] ++
    (u.bindings.zipIdx.map fun (b, i) =>
      .assign [.member (.index (.name "nodes") (.int i)) "Type"] (symbolExpr b.type.symbol)) ++
    [.give [.call (flow "NewStaticType")
      [.string u.name, .unary "&" (.withLines (flow "StaticSpec") u.specFields)]]]

/-- The function that builds the type of a unit. -/
def createDecl (u : FlowUnit) (units : List FlowUnit) : Decl :=
  .func (some (u.funcName ++ " builds the node type of " ++ Path.base u.path ++ ".")) {
    name := u.funcName
    results := [nodeTypePointer, errorType]
    body := u.createBody units }

def decls (u : FlowUnit) (units : List FlowUnit) : List Decl :=
  u.optionsDecls ++ u.childOptionsDecls ++ [u.createDecl units]

end FlowUnit

end FlowCompiler
