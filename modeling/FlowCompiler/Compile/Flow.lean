import FlowCompiler.Compile.Session
import FlowCompiler.Graph.Assembly

/-!
# Compiling flows

A flow file is compiled after the files that it declares, each of which is a unit of its own. The steps for
one unit are: its declarations, the types of its nodes, its exported options, the option values of its
nodes, and its connections and exported ports. The first fault ends the compilation.

A file that is being compiled cannot be declared again, so no more files are open at a time than are stored,
and one more for a text that is not stored.
-/

namespace FlowCompiler

/-- Why a compilation does not start or fails. -/
inductive CompileError where
  | alreadyCompiled (path : String)
  | diagnostic (d : Diagnostic)
deriving DecidableEq, Repr

def CompileError.message : CompileError → String
  | alreadyCompiled path => "context already compiled " ++ path
  | diagnostic d => d.text

/-- The kind of declarations that name a flow file. -/
def flowKind : String := "fbp"

/-- Compiles the file of a declaration. -/
abbrev CompileDeclared := String → String → FlowUnit → Position → CompileM FlowUnit

namespace FlowUnit

/-- Keeps a state of a unit. -/
def keep (u : FlowUnit) : CompileM FlowUnit := do
  modify (·.store u)
  return u

/-- Adds a declared type to the types of a unit. -/
def addLocal (u : FlowUnit) (d : Graph.Declaration) (t : Descriptor) : CompileM FlowUnit :=
  match u.locals.add t with
  | .error e => throw ⟨u.path, d.pos, .notRegistered d.name e⟩
  | .ok locals => return { u with locals }

/-- Declares a flow file as a type. -/
def declareSubflow (cfg : Config) (compileDeclared : CompileDeclared) (u : FlowUnit)
    (d : Graph.Declaration) (symbol : String) : CompileM FlowUnit := do
  match cfg.findFile? (← get).rootDir d.contents with
  | none => throw ⟨u.path, d.pos, .noFile d.contents d.name⟩
  | some path =>
    let child ← compileDeclared path d.name u d.pos
    let type := { child.type.getD .unknown with symbol }
    let child ← keep { child with type := some type }
    let u ← u.addLocal d type
    keep { u with subflows := u.subflows ++ [⟨d.name, child.id, d.pos⟩] }

/-- Declares a type that a metatype makes. -/
def declareType (cfg : Config) (u : FlowUnit) (d : Graph.Declaration) (symbol : String) :
    CompileM FlowUnit := do
  match cfg.registry.find? d.kind with
  | none => throw ⟨u.path, d.pos, .noMetatype d.kind d.name⟩
  | some m =>
    match m.ports d.contents with
    | .error text => throw ⟨u.path, d.pos, .badDeclaration d.kind d.name text⟩
    | .ok (inputs, outputs) =>
      let u ← u.addLocal d { name := d.name, symbol, inputs, outputs }
      let funcName ← modifyGet fun s => (s.takeFunc d.name u.id).swap
      keep { u with declared := u.declared ++ [⟨d.name, d.kind, d.contents, funcName, d.pos⟩] }

/-- Declares types one by one. The variables of the types are distinct. -/
def declareAll (cfg : Config) (compileDeclared : CompileDeclared) (names : Naming.Counts)
    (u : FlowUnit) : List Graph.Declaration → CompileM FlowUnit
  | [] => return u
  | d :: rest => do
    let (names, symbol) := names.take (typeVariable d.name)
    let u ← if d.kind = flowKind then u.declareSubflow cfg compileDeclared d symbol
      else u.declareType cfg d symbol
    u.declareAll cfg compileDeclared names rest

/-- Gives nodes their types one by one. -/
def bindAll (cfg : Config) (u : FlowUnit) : List Graph.Node → CompileM FlowUnit
  | [] => return u
  | n :: rest => do
    let outcome ← modifyGet fun s => (s.resolve cfg u n).swap
    let b ← liftExcept outcome
    let u ← keep { u with bindings := u.bindings ++ [b] }
    u.bindAll cfg rest
where
  /-- An outcome as a step. -/
  liftExcept : Except Diagnostic Binding → CompileM Binding
    | .ok b => return b
    | .error d => throw d

def check (u : FlowUnit) : Option Misplaced → CompileM Unit
  | none => return
  | some (pos, cause) => throw ⟨u.path, pos, cause⟩

def rows {α : Type} (u : FlowUnit) : Except Misplaced α → CompileM α
  | .ok rows => return rows
  | .error (pos, cause) => throw ⟨u.path, pos, cause⟩

def forward (u : FlowUnit) : CompileM FlowUnit := do
  let (forwarding, fault) := u.graph.forwardingRows u.types u.graph.options
  let u ← keep { u with forwarding }
  u.check fault
  return u

def encodeAll (u : FlowUnit) : CompileM FlowUnit := do
  let e := u.encode
  modify fun s => e.warnings.foldl Session.warn s
  let u ← keep { u with options := e.options }
  match e.fault with
  | some d => throw d
  | none => return u

/-- Compiles what a unit's text says. -/
def compile (cfg : Config) (compileDeclared : CompileDeclared) (u : FlowUnit) : CompileM FlowUnit := do
  let u ← u.declareAll cfg compileDeclared [] u.graph.declarations
  let u ← u.bindAll cfg u.graph.nodes
  let u ← u.forward
  let u ← u.encodeAll
  let u ← keep { u with connections := ← u.rows (u.graph.connectionRows u.types) }
  let u ← keep { u with inputs := ← u.rows (u.graph.exportRows u.types .input) }
  let u ← keep { u with outputs := ← u.rows (u.graph.exportRows u.types .output) }
  keep { u with type := some u.describe }

end FlowUnit

namespace Config

/-- Compiles a flow text as a new unit. -/
def compileText (cfg : Config) (compileDeclared : CompileDeclared) (name path text : String)
    (parent : Option Nat) : CompileM FlowUnit := do
  match Graph.parse text with
  | .error e => throw ⟨path, e.pos, .malformed e.fault⟩
  | .ok graph =>
    let u ← modifyGet fun s => (s.addUnit name path graph parent).swap
    u.compile cfg compileDeclared

/-- Runs a step while a file is open. -/
def whileOpen {α : Type} (path : String) (step : CompileM α) : CompileM α := fun s =>
  let (outcome, s) := step (s.openFile path)
  (outcome, s.closeFile path)

/-- Compiles a file that `declaredIn` names at `pos`. -/
def compileStored (cfg : Config) (compileDeclared : CompileDeclared) (path name : String)
    (parent : Option Nat) (declaredIn : String) (pos : Position) : CompileM FlowUnit := do
  let absolute := cfg.storage.absolute path
  if (← get).opened.contains absolute then throw ⟨declaredIn, pos, .cycle path⟩
  match cfg.storage.read path with
  | .error e => throw ⟨path, .none, .unreadable e⟩
  | .ok text => whileOpen absolute (cfg.compileText compileDeclared name path text parent)

/-- Compiles declared files down to a depth. -/
def compileDeclared (cfg : Config) : Nat → CompileDeclared
  | 0 => fun path _ u pos => throw ⟨u.path, pos, .cycle path⟩
  | depth + 1 => fun path name u pos =>
    cfg.compileStored (cfg.compileDeclared depth) path name (some u.id) u.path pos

/-- A depth that is enough for all stored files. -/
def depth (cfg : Config) : Nat := cfg.storage.items.length + 2

end Config

namespace Session

def start (s : Session) (cfg : Config) (path : String) : Except CompileError Session :=
  match s.units with
  | u :: _ => .error (.alreadyCompiled u.path)
  | [] => .ok { s with rootDir := Path.dir (cfg.storage.absolute path) }

def runFrom (s : Session) (cfg : Config) (path : String) (step : CompileM FlowUnit) :
    Session × Except CompileError FlowUnit :=
  match s.start cfg path with
  | .error e => (s, .error e)
  | .ok s =>
    match step s with
    | (.ok u, s) => (s, .ok u)
    | (.error d, s) => (s, .error (.diagnostic d))

/-- Compiles the flow file at a path, and all files that it declares. -/
def compileFile (s : Session) (cfg : Config) (path : String) : Session × Except CompileError FlowUnit :=
  s.runFrom cfg path
    (cfg.compileStored (cfg.compileDeclared cfg.depth) path (Path.stem path) none "" .none)

/-- Compiles a flow text as if it stood at a path, and all files that it declares. -/
def compileText (s : Session) (cfg : Config) (path text : String) :
    Session × Except CompileError FlowUnit :=
  s.runFrom cfg path
    (Config.whileOpen (cfg.storage.absolute path)
      (cfg.compileText (cfg.compileDeclared cfg.depth) (Path.stem path) path text none))

end Session

end FlowCompiler
