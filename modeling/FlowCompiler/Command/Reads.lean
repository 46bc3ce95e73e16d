import FlowCompiler.Command.Basic

/-!
# The files that a command may read

Before a command runs, the files that it may read are collected. Which ones they are follows from its words
and from the flows among the files collected so far.
-/

namespace FlowCompiler.Command

/-- The operands and the values of flags in a command line. -/
def givenPaths (words : List String) : List String :=
  match (plainWords sharedFlags words).head?.bind fun n => commands.find? (·.name == n) with
  | none => []
  | some c =>
    match readWords (c.flags ++ sharedFlags ++ [helpFlag]) {} none (dropPlain sharedFlags c.name words) with
    | .error _ => []
    | .ok w => w.operands ++ w.values.map (·.2)

def declaredFiles (text : String) : List String :=
  match Graph.parse text with
  | .error _ => []
  | .ok g => (g.declarations.filter (·.kind == flowKind)).map (·.contents)

def declaredIn (s : Storage) : List String :=
  s.items.flatMap fun (_, item) =>
    match item with
    | .file text _ => declaredFiles text
    | .directory => []

/-- The paths on the way to a path, and the path itself. -/
def waypoints (path : String) : List String :=
  let parts := Path.parts path
  (List.range parts.length).map fun i => "/".intercalate (parts.take (i + 1))

/-- The paths that a command line may read, as far as the flows in a storage tell. -/
def readable (s : Storage) (words : List String) : List String :=
  let given := givenPaths words
  let dirs := given ++ given.map Path.dir
  given.flatMap waypoints ++ dirs ++ (declaredIn s).flatMap fun name =>
    if Path.isAbsolute name then [name] else dirs.map (Path.join · name)

end FlowCompiler.Command
