import FlowCompiler.Storage.Basic

/-!
# Replacing a file at once

A file is replaced by making a temporary file beside it, writing it and renaming it over the file. The steps
are taken one after the other. When one fails the temporary file is removed, so the file is either replaced as
a whole or left as it was.

Every step is one that the system may refuse; `Refusals` says which ones it does. The steps that depend on
what is stored, making the temporary file and renaming it, fail by themselves where they have to.
-/

namespace FlowCompiler

/-- The steps of replacing a file. -/
inductive ReplaceStep where
  | create
  | write
  | sync
  | close
  | chmod
  | rename
deriving DecidableEq, Repr

/-- The steps that the system refuses, beyond those that cannot succeed. A refused write may leave the first
`written` characters. -/
structure Refusals where
  step : ReplaceStep → Option SystemError
  written : Nat := 0
  removal : Bool := false

def Refusals.none : Refusals := { step := fun _ => Option.none }

/-- Why a file was not replaced. -/
structure ReplaceError where
  step : ReplaceStep
  temporary : String
  error : StorageError
deriving DecidableEq, Repr

def ReplaceError.text (e : ReplaceError) : String :=
  match e.step with
  | .create => "create temp file: " ++ e.error.text
  | .write => "write " ++ e.temporary ++ ": " ++ e.error.text
  | .sync => "sync " ++ e.temporary ++ ": " ++ e.error.text
  | .close => "close " ++ e.temporary ++ ": " ++ e.error.text
  | .chmod => "chmod " ++ e.temporary ++ ": " ++ e.error.text
  | .rename => "rename " ++ e.temporary ++ ": " ++ e.error.text

/-- The error of a step on the temporary file that is refused. -/
def Refusals.error? (r : Refusals) (step : ReplaceStep) (operation temporary : String) :
    Option ReplaceError :=
  (r.step step).map fun e => ⟨step, temporary, ⟨operation, [temporary], e⟩⟩

namespace Storage

/-- The name of the temporary file for a path; `stamp` sets it apart from other names. -/
def temporaryName (path stamp : String) : String :=
  "." ++ Path.base path ++ "." ++ stamp ++ ".tmp"

def temporaryPath (path stamp : String) : String :=
  let dir := Path.dir path
  let name := temporaryName path stamp
  if dir.toList.getLast? == some '/' then dir ++ name else dir ++ "/" ++ name

def sharedMode : Nat := 0o644

def privateMode : Nat := 0o600

/-- Makes the temporary file and gives its place. A name that is taken is refused. -/
def createTemporary (s : Storage) (refusals : Refusals) (path stamp : String) :
    Except StorageError (Location × Storage) :=
  let temporary := temporaryPath path stamp
  if (Path.base path).toList.contains '/' then
    .error ⟨"createtemp", ["." ++ Path.base path ++ ".*.tmp"], .badPattern⟩
  else
    match refusals.step .create with
    | some e => .error ⟨"open", [temporary], e⟩
    | none =>
      match s.locate temporary with
      | .error e => .error ⟨"open", [temporary], e⟩
      | .ok l =>
        if (s.item? l).isSome then .error ⟨"open", [temporary], .alreadyExists⟩
        else .ok (l, s.put l (.file "" privateMode))

/-- Renames the file at a place to a path. A directory is not replaced. -/
def renameTo (s : Storage) (refusals : Refusals) (l : Location) (temporary path : String) :
    Except StorageError Storage :=
  let refused (e : SystemError) : Except StorageError Storage :=
    .error ⟨"rename", [temporary, path], e⟩
  match refusals.step .rename with
  | some e => refused e
  | none =>
    match s.locate path with
    | .error e => refused e
    | .ok target =>
      match s.item? target, s.item? l with
      | some .directory, _ => refused .alreadyExists
      | _, none => refused .notFound
      | _, some i => .ok ((s.remove l).put target i)

/-- What a step leaves behind, and why it failed, if it did. -/
abbrev Attempt := Storage × Option ReplaceError

def writeTemporary (s : Storage) (refusals : Refusals) (l : Location) (temporary text : String) : Attempt :=
  match refusals.error? .write "write" temporary with
  | some e => (s.put l (.file (String.ofList (text.toList.take refusals.written)) privateMode), some e)
  | none => (s.put l (.file text privateMode), none)

/-- Gives the temporary file at a place the access mode of generated files. -/
def shareTemporary (s : Storage) (refusals : Refusals) (l : Location) (temporary : String) : Attempt :=
  match refusals.error? .chmod "chmod" temporary with
  | some e => (s, some e)
  | none =>
    match s.item? l with
    | some (.file text _) => (s.put l (.file text sharedMode), none)
    | some .directory => (s, none)
    | none => (s, some ⟨.chmod, temporary, ⟨"chmod", [temporary], .notFound⟩⟩)

def moveTemporary (s : Storage) (refusals : Refusals) (l : Location) (temporary path : String) : Attempt :=
  match s.renameTo refusals l temporary path with
  | .error e => (s, some ⟨.rename, temporary, e⟩)
  | .ok s => (s, none)

/-- Removes the temporary file at a place, unless this is refused. -/
def dropTemporary (s : Storage) (refusals : Refusals) (l : Location) : Storage :=
  if refusals.removal then s else s.remove l

/-- Takes steps one after the other, up to one that fails. -/
def attempt (s : Storage) : List (Storage → Attempt) → Attempt
  | [] => (s, none)
  | step :: rest =>
    match step s with
    | (s, none) => s.attempt rest
    | (s, some e) => (s, some e)

/-- The steps from an empty temporary file at `l` to the file at a path. -/
def replaceSteps (refusals : Refusals) (l : Location) (temporary path text : String) :
    List (Storage → Attempt) := [
  fun s => s.writeTemporary refusals l temporary text,
  fun s => (s, refusals.error? .sync "sync" temporary),
  fun s => (s, refusals.error? .close "close" temporary),
  fun s => s.shareTemporary refusals l temporary,
  fun s => s.moveTemporary refusals l temporary path]

def replace (s : Storage) (refusals : Refusals) (path stamp text : String) : Attempt :=
  let temporary := temporaryPath path stamp
  match s.createTemporary refusals path stamp with
  | .error e => (s, some ⟨.create, temporary, e⟩)
  | .ok (l, s) =>
    match s.attempt (replaceSteps refusals l temporary path text) with
    | (s, some e) => (s.dropTemporary refusals l, some e)
    | (s, none) => (s, none)

end Storage

end FlowCompiler
