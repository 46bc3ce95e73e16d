import FlowCompiler.Command.Reads
import Std.Time.Zoned

/-!
# The program

Collects the files that the command line may read, runs it, writes the files that changed, and prints what
the command wrote.
-/

namespace FlowCompiler.Program

def placeOf (path : String) : Location := (Path.parts path).filter (· != "")

def textOf (bytes : ByteArray) : String := String.ofList (Text.ofBytes (bytes.toList.map UInt8.toNat))

def bytesOf (s : String) : ByteArray := ⟨((Text.bytesOf s.toList).map Nat.toUInt8).toArray⟩

/-- Stores the file at a path, or the files of the directory there. -/
def fetch (s : Storage) (path : String) : IO Storage := do
  let place := placeOf (s.absolute path)
  let found := (← IO.currentDir) / path
  if ← found.isDir then
    let mut s := s.makeDirectory place
    for entry in ← found.readDir do
      match ← (IO.FS.readBinFile entry.path).toBaseIO with
      | .ok bytes => s := s.plant (place ++ [entry.fileName]) (.file (textOf bytes) Storage.sharedMode)
      | .error _ => pure ()
    return s
  else
    match ← (IO.FS.readBinFile found).toBaseIO with
    | .ok bytes => return s.plant place (.file (textOf bytes) Storage.sharedMode)
    | .error _ => return s

/-- Stores all files that a command line may read. -/
partial def gather (words seen : List String) (s : Storage) : IO Storage := do
  let fresh := (Command.readable s words).eraseDups.filter fun path => !seen.contains path
  if fresh.isEmpty then return s
  gather words (seen ++ fresh) (← fresh.foldlM fetch s)

/-- Writes the files that differ between two storages. -/
def commit (stamp : String) (before after : Storage) : IO Unit := do
  for (place, item) in after.items do
    match item with
    | .directory => pure ()
    | .file text _ =>
      if before.item? place != some item then
        let path := "/" ++ "/".intercalate place
        let temporary := Storage.temporaryPath path stamp
        IO.FS.writeBinFile temporary (bytesOf text)
        IO.FS.rename temporary path

def clock : IO String := do
  let now ← Std.Time.PlainDateTime.now
  let two (n : Int) : String := if n < 10 then s!"0{n}" else toString n
  let year := now.year.toInt
  let day := s!"{year}-{two now.month.val}-{two now.day.val}"
  return s!"{day} {two now.hour.val}:{two now.minute.val}:{two now.second.val}"

def run (words : List String) : IO UInt32 := do
  let working := placeOf (← IO.currentDir).toString
  let stamp := toString (← IO.monoNanosNow)
  let start : Storage := { working, items := [] }
  let storage ← gather words [] (start.plant working .directory)
  let outcome := Command.run { storage, stamp } words
  commit stamp storage outcome.storage
  (← IO.getStdout).write (bytesOf outcome.output)
  (← IO.getStderr).write (bytesOf (outcome.errorText (← clock)))
  return outcome.exitCode.toUInt32

end FlowCompiler.Program

def main (words : List String) : IO UInt32 := FlowCompiler.Program.run (words.map FlowCompiler.Text.received)
