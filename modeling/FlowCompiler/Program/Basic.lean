import FlowCompiler.Program.Constructor
import FlowCompiler.Storage.Replace

/-!
# Generated programs

The program for a compiled flow holds the code of the metatypes that it uses, the code of its units, those
that are declared before those that declare them, and either a main function that runs the flow or a
function that gives its type.
-/

namespace FlowCompiler

open Source

/-! ## Code of metatypes -/

/-- A request to a metatype, for shared code or for a declaration. -/
inductive MetatypeCall where
  | start
  | define (use : MetatypeUse)
  | finish
deriving DecidableEq, Repr

def Metatype.answer (m : Metatype) : MetatypeCall → Except String (List Decl)
  | .start => m.start
  | .define use => m.define use
  | .finish => m.finish

/-- The requests for the declarations of a kind. -/
def metatypeCalls (first : Bool) (uses : List MetatypeUse) : List MetatypeCall :=
  (if first then [.start] else []) ++ uses.map .define ++ [.finish]

/-- The code that requests give, up to one that fails. -/
def Metatype.answers (m : Metatype) : List MetatypeCall → Except String (List Decl)
  | [] => .ok []
  | c :: rest =>
    match m.answer c with
    | .error e => .error e
    | .ok decls =>
      match m.answers rest with
      | .error e => .error e
      | .ok more => .ok (decls ++ more)

namespace Session

/-- All declared types that metatypes make, in the order of the units. -/
def declared (s : Session) : List DeclaredType := s.units.flatMap (·.declared)

/-- The kinds of declared types, each once, in the order of their first use. -/
def kinds (s : Session) : List String :=
  (s.declared.foldl (fun kept d => if kept.contains d.kind then kept else d.kind :: kept) []).reverse

def usesOf (s : Session) (kind : String) : List MetatypeUse :=
  (s.declared.filter (·.kind == kind)).map fun d => ⟨d.name, d.contents, d.funcName⟩

/-- The code of metatypes for the given kinds. Shared code is only asked for once in a session. -/
def metatypeDecls (s : Session) (registry : Registry) :
    List String → Session × Except ProgramError (List Decl)
  | [] => (s, .ok [])
  | kind :: rest =>
    match registry.find? kind with
    | none => (s, .error (.unknownKind kind))
    | some m =>
      let (s, first) := s.begin kind
      match m.answers (metatypeCalls first (s.usesOf kind)) with
      | .error text => (s, .error (.metatype kind text))
      | .ok decls =>
        match s.metatypeDecls registry rest with
        | (s, .error e) => (s, .error e)
        | (s, .ok more) => (s, .ok (decls ++ more))

end Session

/-! ## Entry points -/

/-- The function that prepares the catalog types. -/
def initializeDecl (types : List Descriptor) : Decl :=
  .func none {
    name := "initializeTypes"
    body := types.map fun t => .expr (.call (.member (Names.symbolExpr t.symbol) "Init") []) }

def plainCall (name : String) : Expr := .call (.name name) []

/-- The main function of a program, and what it starts and ends. -/
def standaloneDecls (root : FlowUnit) : List Decl := [
  .uninitialised "rootNode" (.unary "*" (flow "Node")),
  .func none {
    name := "startup"
    results := [errorType]
    body := [
      .expr (plainCall "initializeTypes"),
      .define ["t", "err"] (plainCall root.funcName),
      .when (.binary "!=" (.name "err") .null) [.give [.name "err"]],
      .assign [.name "rootNode", .name "err"]
        (.call (flow "NewNode") [.name "t", .string root.name, .null]),
      .give [.name "err"]] },
  .func none {
    name := "shutdown"
    body := [.when (.binary "!=" (.name "rootNode") .null)
      [.expr (.call (.member (.name "rootNode") "Close") [])]] },
  .func none {
    name := "main"
    body := [.expr (.call (flow "Main") [.name "startup", .name "shutdown"])] }]

/-- The function that gives the type of a flow, which is built once. -/
def accessorDecls (root : FlowUnit) (symbol : String) : List Decl :=
  let first := Naming.lowerFirst symbol
  let once := first ++ "Once"
  let type := first ++ "Type"
  let error := first ++ "Err"
  [.block [⟨once, .imported "sync" "Once"⟩, ⟨type, nodeTypePointer⟩, ⟨error, errorType⟩],
   .func (some (symbol ++ " returns the node type built from " ++ Path.base root.path ++ ".")) {
     name := symbol
     results := [nodeTypePointer, errorType]
     body := [
       .callWith (.member (.name once) "Do") [
         .expr (plainCall "initializeTypes"),
         .assign [.name type, .name error] (plainCall root.funcName)],
       .give [.name type, .name error]] }]

namespace ProgramForm

/-- The package of a program, if the names in its form can be used. -/
def package : ProgramForm → Except ProgramError String
  | standalone => .ok "main"
  | accessor symbol package =>
    if !isIdentifier symbol || symbol == "init" || symbol == "main" then .error (.badSymbol symbol)
    else if !isIdentifier package then .error (.badPackage package)
    else .ok package

def entryDecls (root : FlowUnit) : ProgramForm → List Decl
  | standalone => standaloneDecls root
  | accessor symbol _ => accessorDecls root symbol

end ProgramForm

namespace Session

def programHeader : String := "Code generated by fbpgen. DO NOT EDIT."

/-- The file of a program, from the code of its metatypes. -/
def programFile (s : Session) (root : FlowUnit) (form : ProgramForm) (package : String)
    (aliases : Names.Aliases) (metatypes : List Decl) : SourceFile where
  header := some programHeader
  package := package
  names := Names.imports aliases
  decls := metatypes ++ s.units.reverse.flatMap (·.decls s.units) ++
    [initializeDecl s.externalTypes] ++ form.entryDecls root

def program (s : Session) (registry : Registry) (form : ProgramForm) :
    Session × Except ProgramError SourceFile :=
  match s.units with
  | [] => (s, .error .nothingCompiled)
  | root :: _ =>
    match form.package with
    | .error e => (s, .error e)
    | .ok package =>
      match Names.aliases registry s.units form with
      | .error e => (s, .error e)
      | .ok aliases =>
        match s.metatypeDecls registry s.kinds with
        | (s, .error e) => (s, .error e)
        | (s, .ok decls) => (s, .ok (s.programFile root form package aliases decls))

def generate (s : Session) (registry : Registry) (form : ProgramForm) :
    Session × Except ProgramError String :=
  match s.program registry form with
  | (s, .error e) => (s, .error e)
  | (s, .ok file) =>
    match file.render with
    | none => (s, .error .malformed)
    | some text => (s, .ok text)

end Session

end FlowCompiler
