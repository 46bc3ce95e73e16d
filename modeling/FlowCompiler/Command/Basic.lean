import FlowCompiler.Catalog.Listing
import FlowCompiler.Catalog.Load
import FlowCompiler.Command.Arguments
import FlowCompiler.Compile.Flow
import FlowCompiler.Graph.Listing
import FlowCompiler.Log.Format
import FlowCompiler.Presets.Load
import FlowCompiler.Program.Basic

/-!
# Commands

`compile` writes the program for a flow, `lint` checks flows, `graph` prints a flow, and `catalog` prints
node types. Running a command gives what it writes, what it logs, the files afterwards, and the error that
it failed with, if it did.
-/

namespace FlowCompiler

/-- What a command runs in: stored files, refused steps, and a text for names of temporary files. -/
structure Environment where
  storage : Storage
  refusals : Refusals := .none
  stamp : String := ""

/-- Why a command failed. -/
inductive CommandError where
  | usage (e : Command.UsageError)
  | logger (e : Log.LoggerError)
  | catalog (e : LoadError)
  | presets (e : PresetsError)
  | compile (e : CompileError)
  | program (e : ProgramError)
  | notWritten (e : ReplaceError)
  | flowsFailed (failed total : Nat)
  | unreadable (e : StorageError)
  | malformed (path : String) (e : ParseError)
  | unknownFormat (name : String)
  | unknownType (name : String)
deriving DecidableEq, Repr

namespace CommandError

def message : CommandError → String
  | usage e => e.message
  | logger e => e.message
  | catalog e => "load catalog: " ++ e.message
  | presets e => e.message
  | compile e => e.message
  | program e => e.message
  | notWritten e => e.text
  | flowsFailed failed total => s!"{failed} of {total} flows failed"
  | unreadable e => "read file: " ++ e.text
  | malformed path e => path ++ ":" ++ e.text
  | unknownFormat name => "unknown format " ++ Text.quote name ++ ": use text or dot"
  | unknownType name => "type " ++ Text.quote name ++ " not found in catalog"

/-- The line for an error at the end of a program. A diagnostic stands alone. -/
def line : CommandError → String
  | compile (.diagnostic d) => d.text ++ "\n"
  | e => "error: " ++ e.message ++ "\n"

end CommandError

/-- What a command did. -/
structure Outcome where
  storage : Storage
  output : String := ""
  errors : String := ""
  logger : Option Log.Logger := none
  log : List Log.Record := []
  failure : Option CommandError := none

namespace Outcome

def logText (o : Outcome) (time : String) : String :=
  match o.logger with
  | none => ""
  | some g => g.lines time o.log

def exitCode (o : Outcome) : Nat := if o.failure.isSome then 1 else 0

/-- All that the program writes beside its output: the log, errors, and the line for a failure. -/
def errorText (o : Outcome) (time : String) : String :=
  o.logText time ++ o.errors ++ (o.failure.map (·.line)).getD ""

end Outcome

namespace Command

/-! ## Records -/

def rejectionRecord (r : Rejection) : Log.Record where
  level := .warn
  message := "dropping catalog entry"
  data := [("file", .text r.source), ("line", .int r.pos.line), ("column", .int r.pos.column),
    ("type", .text r.typeName), ("reason", .text r.fault.message)]

def ignoredRecord (p : IgnoredPreset) : Log.Record where
  level := .warn
  message := "ignoring duplicate conffile id"
  data := [("file", .text p.source), ("line", .int p.line), ("id", .text p.id)]

def loadedRecord (c : Catalog) : Log.Record where
  level := .debug
  message := "catalog loaded"
  data := [("types", .int c.types.length), ("rejected", .int c.rejected.length)]

def compiledRecord (input output : String) (units : Nat) : Log.Record where
  level := .info
  message := "flow compiled"
  data := [("input", .text input), ("output", .text output), ("units", .int units)]

/-! ## Flags -/

def sharedFlags : List Flag := [{ name := "log-level" }, { name := "log-format" }]

/-- The switch for help, which every command has when its words are read. -/
def helpFlag : Flag := { name := "help", short := some 'h', switch := true }

def catalogFlag : Flag := { name := "catalog", short := some 'j' }

def sourceFlags : List Flag := [
  { name := "conffile", short := some 'c' }, catalogFlag, { name := "include", short := some 'I' }]

/-! ## What commands do -/

/-- What a command does with its words and the storage, before its log is written. -/
abbrev Action := Environment → Words → Outcome

/-- The configuration that flags describe, and what was logged while it was read. -/
def readConfig (storage : Storage) (w : Words) : List Log.Record × Except CommandError Config :=
  match Catalog.loadPaths {} storage (w.all "catalog") with
  | (c, some e) => (c.rejected.map rejectionRecord, .error (.catalog e))
  | (c, none) =>
    let log := c.rejected.map rejectionRecord ++ [loadedRecord c]
    let cfg : Config := { storage, common := c, searchPaths := w.all "include" }
    match w.last "conffile" "" with
    | "" => (log, .ok cfg)
    | path =>
      match Presets.loadFile storage path with
      | (ignored, .error e) => (log ++ ignored.map ignoredRecord, .error (.presets e))
      | (ignored, .ok p) =>
        (log ++ ignored.map ignoredRecord, .ok { cfg with resolver := some p.resolver })

/-- The form of the program that flags ask for. -/
def programForm (storage : Storage) (w : Words) (output : String) : ProgramForm :=
  match w.last "symbol" "" with
  | "" => .standalone
  | symbol =>
    match w.last "package" "" with
    | "" => .accessor symbol (Names.ofDirectory (storage.absolute output))
    | package => .accessor symbol package

/-- Compiles a flow and writes its program. -/
def compileFlow (env : Environment) (w : Words) (input output : String) : Outcome :=
  match readConfig env.storage w with
  | (log, .error e) => { storage := env.storage, log, failure := some e }
  | (log, .ok cfg) =>
    match Session.compileFile {} cfg input with
    | (s, .error e) => { storage := env.storage, log := log ++ s.log, failure := some (.compile e) }
    | (s, .ok _) =>
      let log := log ++ s.log
      match s.generate cfg.registry (programForm env.storage w output) with
      | (_, .error e) => { storage := env.storage, log, failure := some (.program e) }
      | (s, .ok text) =>
        match env.storage.replace env.refusals output env.stamp text with
        | (storage, some e) => { storage, log, failure := some (.notWritten e) }
        | (storage, none) => { storage, log := log ++ [compiledRecord input output s.units.length] }

/-- What checking one flow writes: its output, its errors and its log. -/
structure LintResult where
  output : String
  errors : String
  log : List Log.Record
  failed : Bool

def lintFlow (cfg : Config) (input : String) : LintResult :=
  let (s, outcome) := Session.compileFile {} cfg input
  match outcome with
  | .error e => { output := "", errors := e.message ++ "\n", log := s.log, failed := true }
  | .ok _ =>
    let units := s.units.length
    let nodes := s.units.foldl (fun n u => n + u.graph.nodes.length) 0
    { output := s!"OK: {input} ({units} units, {nodes} nodes)\n", errors := "", log := s.log
      failed := false }

def lintFlows (env : Environment) (w : Words) : Outcome :=
  match readConfig env.storage w with
  | (log, .error e) => { storage := env.storage, log, failure := some e }
  | (log, .ok cfg) =>
    let results := w.operands.map (lintFlow cfg)
    let failed := (results.filter (·.failed)).length
    { storage := env.storage
      output := String.join (results.map (·.output))
      errors := String.join (results.map (·.errors))
      log := log ++ results.flatMap (·.log)
      failure := if 0 < failed then some (.flowsFailed failed results.length) else none }

def printFlow (env : Environment) (w : Words) (input : String) : Outcome :=
  let fail (e : CommandError) : Outcome := { storage := env.storage, failure := some e }
  match env.storage.read input with
  | .error e => fail (.unreadable e)
  | .ok text =>
    match Graph.parse text with
    | .error e => fail (.malformed input e)
    | .ok g =>
      let format := w.last "format" "text"
      if Text.lowercase format = "dot" then { storage := env.storage, output := g.dot }
      else if Text.lowercase format = "text" ∨ format = "" then
        { storage := env.storage, output := g.summary }
      else fail (.unknownFormat format)

/-- Prints a catalog, or one of its types. -/
def printCatalog (env : Environment) (w : Words) : Outcome :=
  match Catalog.loadPaths {} env.storage (w.all "catalog") with
  | (c, some e) =>
    { storage := env.storage, log := c.rejected.map rejectionRecord, failure := some (.catalog e) }
  | (c, none) =>
    let log := c.rejected.map rejectionRecord
    match w.operands with
    | [] => { storage := env.storage, log, output := c.listing .plain }
    | name :: _ =>
      match c.find? name with
      | none => { storage := env.storage, log, failure := some (.unknownType name) }
      | some t => { storage := env.storage, log, output := t.listing .plain }

/-! ## Choosing a command -/

/-- A command of the program. -/
structure Spec where
  name : String
  flags : List Flag
  arity : Arity
  needed : List String := []
  action : Action

def commands : List Spec := [
  { name := "compile"
    flags := sourceFlags ++ [{ name := "symbol", short := some 's' }, { name := "package" }]
    arity := .exactly 2
    needed := ["catalog"]
    action := fun env w =>
      compileFlow env w (w.operands.headD "") ((w.operands.drop 1).headD "") },
  { name := "lint", flags := sourceFlags, arity := .atLeast 1, needed := ["catalog"]
    action := lintFlows },
  { name := "graph", flags := [{ name := "format" }], arity := .exactly 1
    action := fun env w => printFlow env w (w.operands.headD "") },
  { name := "catalog", flags := [catalogFlag], arity := .atMost 1, needed := ["catalog"]
    action := printCatalog }]

/-- Commands that explain the program; they do nothing here. -/
def guides : List String := ["completion", "help"]

/-- The names that a mistyped command may have meant. -/
def suggestable : List String := commands.map (·.name) ++ ["completion"]

/-- Checks operands, logger and needed flags of a command, and runs it. -/
def Spec.perform (c : Spec) (env : Environment) (w : Words) : Outcome :=
  let fail (e : CommandError) : Outcome := { storage := env.storage, failure := some e }
  let given := w.operands.length
  if !c.arity.accepts given then fail (.usage (.arity c.arity given))
  else
    match Log.Logger.ofNames (w.last "log-level" "warn") (w.last "log-format" "text") with
    | .error e => fail (.logger e)
    | .ok logger =>
      match c.needed.find? fun n => (w.all n).isEmpty with
      | some n => fail (.usage (.missingFlag n))
      | none => { c.action env w with logger := some logger }

/-- Reads the words of a command and runs it, unless help is asked for. -/
def Spec.run (c : Spec) (env : Environment) (words : List String) : Outcome :=
  match readWords (c.flags ++ sharedFlags ++ [helpFlag]) {} none words with
  | .error e => { storage := env.storage, failure := some (.usage e) }
  | .ok w => if w.isOn "help" then { storage := env.storage } else c.perform env w

/-- Runs a command line. Without a command only its flags are checked. -/
def run (env : Environment) (words : List String) : Outcome :=
  let fail (e : UsageError) : Outcome := { storage := env.storage, failure := some (.usage e) }
  match plainWords sharedFlags words with
  | [] =>
    match readWords (sharedFlags ++ [helpFlag]) {} none words with
    | .error e => fail e
    | .ok _ => { storage := env.storage }
  | name :: _ =>
    match commands.find? (·.name == name) with
    | some c => c.run env (dropPlain sharedFlags name words)
    | none =>
      if guides.contains name then { storage := env.storage }
      else fail (.unknownCommand name (similarTo name suggestable))

end Command

end FlowCompiler
