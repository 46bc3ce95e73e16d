import FlowCompiler.Compile.Session

/-!
# Names in a generated program

A symbol of a catalog is a name in a package, `path.Name`, or a bare name. Each package gets a name that
nothing in the generated file has, so that nothing hides it. A bare name cannot be changed: one that the
file declares itself is an error.
-/

namespace FlowCompiler

open Source

/-- What a generated program is: a program, or a function that gives the type of a flow. -/
inductive ProgramForm where
  | standalone
  | accessor (symbol package : String)
deriving DecidableEq, Repr

/-- Why a program cannot be generated. -/
inductive ProgramError where
  | nothingCompiled
  | badSymbol (symbol : String)
  | badPackage (package : String)
  | symbolClash (symbol name : String)
  | catalogClash (symbol : String)
  | unknownKind (kind : String)
  | metatype (kind text : String)
  | malformed
deriving DecidableEq, Repr

def ProgramError.message : ProgramError → String
  | nothingCompiled => "emit: nothing compiled"
  | badSymbol symbol => "emit: invalid symbol " ++ Text.quote symbol
  | badPackage package => "emit: invalid package name " ++ Text.quote package
  | symbolClash symbol name =>
    "emit: symbol " ++ Text.quote symbol ++ " collides with generated name " ++ Text.quote name
  | catalogClash symbol =>
    "emit: catalog symbol " ++ Text.quote symbol ++ " collides with a generated name"
  | unknownKind kind => Registry.unknownKind kind
  | metatype kind text => "metatype " ++ kind ++ ": " ++ text
  | malformed => "emit: render: malformed program"

namespace Names

/-- The path and the name of a symbol in a package. The name stands after the last dot, which comes behind
the last slash, but not directly. -/
def splitSymbol? (symbol : String) : Option (String × String) :=
  let reversed := symbol.toList.reverse
  let name := reversed.takeWhile (· != '.')
  match reversed.drop (name.length + 1) with
  | [] => none
  | last :: before =>
    if name.isEmpty || name.contains '/' || last == '/' then none
    else some (String.ofList (last :: before).reverse, String.ofList name.reverse)

def symbolExpr (symbol : String) : Expr :=
  match splitSymbol? symbol with
  | some (path, name) => .imported path name
  | none => .raw symbol

/-- The names in the bodies of generated functions. -/
def inBodies : List String := [
  "nodes", "conns", "exportedIn", "exportedOut", "err", "t", "p", "o", "v", "ok", "parent", "child", "opts"]

/-- The names that are always kept for the file itself. -/
def fixed : List String :=
  "any" :: inBodies ++ ["initializeTypes", "rootNode", "startup", "shutdown", "main", "init"]

def ofAccessor (symbol : String) : List String :=
  let first := Naming.lowerFirst symbol
  [symbol, first ++ "Once", first ++ "Type", first ++ "Err"]

def optionsVariable (node : Nat) : String := "opts" ++ toString node

end Names

namespace FlowUnit

def base (u : FlowUnit) : String := Naming.lowerFirst u.stem

def defaultsName (u : FlowUnit) : String := u.base ++ "Defaults"

/-- The function that gives the children of a unit their options. -/
def childOptionsName (u : FlowUnit) : String := u.base ++ "ChildOptions"

/-- The type of the options of a unit, empty if it has none. -/
def optionsSymbol (u : FlowUnit) : String := (u.type.map (·.optionsSymbol)).getD ""

def generatedNames (registry : Registry) (u : FlowUnit) : List String :=
  [u.funcName, u.defaultsName, u.childOptionsName] ++
    (if u.optionsSymbol = "" then [] else [u.optionsSymbol]) ++
    (List.range u.bindings.length).map Names.optionsVariable ++
    (u.bindings.filter (·.role != .external)).map (·.type.symbol) ++
    u.declared.flatMap fun d =>
      d.funcName :: ((registry.find? d.kind).map (·.declares)).getD []

/-- The symbols of a catalog that the code of a unit refers to. -/
def catalogSymbols (u : FlowUnit) : List String :=
  (u.bindings.zipIdx).flatMap fun (b, i) =>
    if b.role != .external then []
    else if (u.valuesAt i).isSome && b.type.optionsSymbol != "" then
      [b.type.symbol, b.type.optionsSymbol]
    else [b.type.symbol]

end FlowUnit

namespace Names

def generated (registry : Registry) (units : List FlowUnit) : ProgramForm → List String
  | .standalone => fixed ++ units.flatMap (·.generatedNames registry)
  | .accessor symbol _ => fixed ++ ofAccessor symbol ++ units.flatMap (·.generatedNames registry)

/-- The own name of a package: small letters and digits of the last part of its path, from the first letter
on. -/
def ofPath (path : String) : String :=
  let last := (path.toList.reverse.takeWhile (· != '/')).reverse
  let kept := (Text.lowercase (String.ofList last)).toList.filter fun c => c.isLower || c.isDigit
  match kept.dropWhile Char.isDigit with
  | [] => "pkg"
  | cs => String.ofList cs

/-- The first of a name and the same name with numbers that is not taken. -/
def free (taken : List String) (name : String) : String :=
  let numbered := (List.range taken.length).map fun i => name ++ toString (i + 1)
  ((name :: numbered).find? fun n => !taken.contains n).getD name

/-- The words that are no names of packages. -/
def reserved : List String := "err" :: keywords ++ predeclared

/-- Names of packages, by path, in the order in which they were given. -/
abbrev Aliases := List (String × String)

def addAlias (generated : List String) (aliases : Aliases) (symbol : String) :
    Except ProgramError Aliases :=
  match splitSymbol? symbol with
  | none => if generated.contains symbol then .error (.catalogClash symbol) else .ok aliases
  | some (path, _) =>
    if fixedImports.any (·.path == path) || aliases.any (·.1 == path) then .ok aliases
    else
      let taken := generated ++ fixedImports.map (·.name) ++ aliases.map (·.2) ++ reserved
      .ok (aliases ++ [(path, free taken (ofPath path))])

def addAliases (generated : List String) (aliases : Aliases) : List String → Except ProgramError Aliases
  | [] => .ok aliases
  | symbol :: rest =>
    match addAlias generated aliases symbol with
    | .error e => .error e
    | .ok aliases => addAliases generated aliases rest

/-- The names for the packages of all symbols that units refer to. -/
def aliases (registry : Registry) (units : List FlowUnit) (form : ProgramForm) :
    Except ProgramError Aliases :=
  let resolve := addAliases (generated registry units form) [] (units.flatMap (·.catalogSymbols))
  match form with
  | .standalone => resolve
  | .accessor symbol _ =>
    let clean := generated registry units .standalone
    match (ofAccessor symbol).find? clean.contains with
    | some name => .error (.symbolClash symbol name)
    | none => resolve

/-- The imports for named packages. The package of foreign functions keeps its own name. -/
def imports (aliases : Aliases) : List Import :=
  fixedImports ++ aliases.map fun (path, name) =>
    if path = "C" then ⟨"C", "C", false⟩ else ⟨name, path, true⟩

/-- The name for the package of a file, from its directory, if it is a name. -/
def ofDirectory (path : String) : String :=
  let dir := (Text.lowercase (Path.base (Path.dir path))).toList
  let name := String.ofList (dir.map fun c => if Text.isWord c then c else '_')
  if isIdentifier name then name else "flows"

end Names

end FlowCompiler
