import FlowCompiler.Storage.Path

/-!
# Stored files

A storage is a tree of directories and files, seen from a working directory. Places in it are lists of
names from the root. Looking a path up walks its parts one by one: each part but the last has to be a
directory, and `..` goes back up.
-/

namespace FlowCompiler

/-- What is stored at a place. -/
inductive Item where
  | file (text : String) (mode : Nat)
  | directory
deriving DecidableEq, Repr

abbrev Location := List String

/-- Directories and files by their places, and the working directory. The root is not listed. -/
structure Storage where
  working : Location
  items : List (Location × Item)
deriving DecidableEq, Repr

/-- Why the system refuses an operation. -/
inductive SystemError where
  | notFound
  | notDirectory
  | isDirectory
  | alreadyExists
  | badPattern
deriving DecidableEq, Repr

def SystemError.text : SystemError → String
  | notFound => "no such file or directory"
  | notDirectory => "not a directory"
  | isDirectory => "is a directory"
  | alreadyExists => "file exists"
  | badPattern => "pattern contains path separator"

/-- An operation that failed, with the paths that it was given. -/
structure StorageError where
  operation : String
  paths : List String
  cause : SystemError
deriving DecidableEq, Repr

def StorageError.text (e : StorageError) : String :=
  " ".intercalate (e.operation :: e.paths) ++ ": " ++ e.cause.text

namespace Storage

def item? (s : Storage) (l : Location) : Option Item :=
  if l = [] then some .directory else (s.items.find? (·.1 == l)).map (·.2)

/-- Goes from a place over one part of a path. -/
def enter (s : Storage) (l : Location) (part : String) : Except SystemError Location :=
  match s.item? l with
  | none => .error .notFound
  | some (.file ..) => .error .notDirectory
  | some .directory =>
    if part = "" ∨ part = "." then .ok l
    else if part = ".." then .ok l.dropLast
    else .ok (l ++ [part])

def walk (s : Storage) (l : Location) : List String → Except SystemError Location
  | [] => .ok l
  | part :: rest =>
    match s.enter l part with
    | .ok l => s.walk l rest
    | .error e => .error e

/-- The place that a path leads to, whether or not something is stored there. -/
def locate (s : Storage) (path : String) : Except SystemError Location :=
  if path = "" then .error .notFound
  else s.walk (if Path.isAbsolute path then [] else s.working) (Path.parts path)

def lookup (s : Storage) (path : String) : Except SystemError Item :=
  match s.locate path with
  | .error e => .error e
  | .ok l =>
    match s.item? l with
    | some i => .ok i
    | none => .error .notFound

def workingPath (s : Storage) : String := "/" ++ "/".intercalate s.working

def absolute (s : Storage) (path : String) : String := Path.absolute s.workingPath path

def stat (s : Storage) (path : String) : Except StorageError Item :=
  match s.lookup path with
  | .ok i => .ok i
  | .error e => .error ⟨"stat", [path], e⟩

def isFile (s : Storage) (path : String) : Bool :=
  match s.lookup path with
  | .ok (.file ..) => true
  | _ => false

/-- Opens what is stored at a path. A directory can be opened but not read. -/
def open? (s : Storage) (path : String) : Except StorageError (Option String) :=
  match s.lookup path with
  | .ok (.file text _) => .ok (some text)
  | .ok .directory => .ok none
  | .error e => .error ⟨"open", [path], e⟩

def read (s : Storage) (path : String) : Except StorageError String :=
  match s.open? path with
  | .ok (some text) => .ok text
  | .ok none => .error ⟨"read", [path], .isDirectory⟩
  | .error e => .error e

/-- The names and items directly in the directory at a place. -/
def children (s : Storage) (l : Location) : List (String × Item) :=
  s.items.filterMap fun (m, i) =>
    match m.getLast? with
    | some name => if m.dropLast = l then some (name, i) else none
    | none => none

/-- The names of the files directly in the directory at a path. -/
def fileNames (s : Storage) (path : String) : List String :=
  match s.locate path with
  | .error _ => []
  | .ok l =>
    (s.children l).filterMap fun (name, i) =>
      match i with
      | .file .. => some name
      | .directory => none

/-- Stores an item at a place, over the one that is there. -/
def put (s : Storage) (l : Location) (i : Item) : Storage :=
  if s.items.any (·.1 == l) then
    { s with items := s.items.map fun e => if e.1 == l then (l, i) else e }
  else { s with items := s.items ++ [(l, i)] }

def remove (s : Storage) (l : Location) : Storage :=
  { s with items := s.items.filter (·.1 != l) }

/-- Makes a directory, if nothing is there. -/
def makeDirectory (s : Storage) (l : Location) : Storage :=
  if (s.item? l).isSome then s else s.put l .directory

/-- Stores an item at a place and makes the directories above it. -/
def plant (s : Storage) (l : Location) (i : Item) : Storage :=
  let parents := (List.range l.length).map l.take
  (parents.foldl makeDirectory s).put l i

end Storage

end FlowCompiler
