import FlowCompiler.Compile.Resolve
import FlowCompiler.Log.Record

/-!
# Compile sessions

A session holds the units of one compilation, in the order in which they were begun, and what was noted on
the way. It stays readable after a failure.
-/

namespace FlowCompiler

/-- The units of a compilation, and what was noted. `opened` are the files being compiled, `begun` the
metatypes whose shared code was asked for. -/
structure Session where
  units : List FlowUnit := []
  stems : Naming.Counts := []
  rootDir : String := ""
  opened : List String := []
  warnings : List Diagnostic := []
  log : List Log.Record := []
  begun : List String := []

/-- A step of a compilation: it changes the session, and may fail with a diagnostic. -/
abbrev CompileM := ExceptT Diagnostic (StateM Session)

def Diagnostic.record (d : Diagnostic) : Log.Record where
  level := .warn
  message := d.message
  data := [("kind", .text d.kind.text), ("file", .text d.file), ("line", .int d.pos.line),
    ("column", .int d.pos.column)]

namespace FlowUnit

def record (u : FlowUnit) : Log.Record where
  level := .debug
  message := "compiling unit"
  data := [("id", .int u.id), ("name", .text u.name), ("file", .text u.path)]

end FlowUnit

namespace Binding

/-- The record of a node that got its type, by its component or by a preset. -/
def record (b : Binding) (n : Graph.Node) (direct : Bool) : Log.Record :=
  if direct then
    { level := .debug, message := "resolved node"
      data := [("node", .text n.name), ("type", .text b.type.name), ("role", .text b.role.text)] }
  else
    { level := .debug, message := "resolved node through conffile"
      data := [("node", .text n.name), ("id", .text n.component), ("type", .text b.type.name)] }

end Binding

namespace Session

def note (s : Session) (r : Log.Record) : Session := { s with log := s.log ++ [r] }

def warn (s : Session) (d : Diagnostic) : Session :=
  { s with warnings := s.warnings ++ [d], log := s.log ++ [d.record] }

/-- Puts a unit in place of its former state. -/
def store (s : Session) (u : FlowUnit) : Session := { s with units := s.units.set u.id u }

def addUnit (s : Session) (name path : String) (graph : Graph) (parent : Option Nat) :
    Session × FlowUnit :=
  let id := s.units.length
  let (stems, stem) := s.stems.take (Naming.exported name ++ toString id)
  let u : FlowUnit := { id, name, path, graph, parent, stem }
  ({ s with units := s.units ++ [u], stems }.note u.record, u)

/-- A distinct name for a function that builds a declared type. -/
def takeFunc (s : Session) (name : String) (unit : Nat) : Session × String :=
  let (stems, stem) := s.stems.take (Naming.exported name ++ toString unit)
  ({ s with stems }, "new" ++ stem ++ "Type")

def openFile (s : Session) (path : String) : Session := { s with opened := path :: s.opened }

def closeFile (s : Session) (path : String) : Session :=
  { s with opened := s.opened.filter (· != path) }

/-- Asks for the shared code of a metatype; tells whether this is the first time. -/
def begin (s : Session) (kind : String) : Session × Bool :=
  if s.begun.contains kind then (s, false) else ({ s with begun := s.begun ++ [kind] }, true)

/-- The catalog types of all nodes, each symbol once, in the order of their first use. -/
def externalTypes (s : Session) : List Descriptor :=
  let used := (s.units.flatMap (·.bindings)).filter (·.role == .external)
  (used.foldl (fun kept b => if kept.any (·.symbol == b.type.symbol) then kept else b.type :: kept)
    []).reverse

def resolve (s : Session) (cfg : Config) (u : FlowUnit) (n : Graph.Node) :
    Session × Except Diagnostic Binding :=
  let (warnings, outcome) := cfg.resolve u n
  let s := warnings.foldl warn s
  match outcome with
  | .error d => (s, .error d)
  | .ok b => (s.note (b.record n (cfg.lookup u n.component).isSome), .ok b)

end Session

end FlowCompiler
