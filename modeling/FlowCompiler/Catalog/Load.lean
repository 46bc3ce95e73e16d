import FlowCompiler.Catalog.Basic
import FlowCompiler.Catalog.Numeral
import FlowCompiler.Document.Parser
import FlowCompiler.Document.Printer
import FlowCompiler.Storage.Basic
import FlowCompiler.Text.Blank
import FlowCompiler.Text.Order

/-!
# Loading catalogs

A catalog document is an object whose values are arrays of type entries. An entry that is malformed is
refused and the others are added; only a document of the wrong form fails as a whole, and then what was
added before stays.
-/

namespace FlowCompiler

open Document

/-! ## The form of an entry -/

/-- An option as an entry gives it. -/
structure OptionEntry where
  name : String := ""
  dataType : String := ""
  fallback : Option Node := none

/-- A type as an entry gives it. -/
structure TypeEntry where
  name : String := ""
  symbol : String := ""
  optionsSymbol : String := ""
  inputs : List Port := []
  outputs : List Port := []
  options : List OptionEntry := []

namespace TypeEntry

def portFields : List (RecordField Port) := [
  .text "name" fun s p => { p with name := s },
  .text "data_type" fun s p => { p with dataType := s },
  .int "array_size" fun n p => { p with size := n },
  .int "base_port_idx" fun n p => { p with base := n }]

def port (n : Node) : Decode (Option Port) :=
  n.asRecord "catalog.rawPort" portFields { name := "", dataType := "" }

def optionFields : List (RecordField OptionEntry) := [
  .text "name" fun s o => { o with name := s },
  .text "data_type" fun s o => { o with dataType := s },
  .node "default" fun n o => { o with fallback := some n }]

def option (n : Node) : Decode (Option OptionEntry) :=
  n.asRecord "catalog.rawOption" optionFields {}

/-- The object that holds the options of a type. -/
def optionsObject : RecordField TypeEntry where
  key := "options"
  read n t := do
    let members : RecordField (List OptionEntry) :=
      .list "members" "[]catalog.rawOption" option fun os _ => os
    match ← n.asRecord "struct \x7b Members []catalog.rawOption \"yaml:\\\"members\\\"\" \x7d"
        [members] t.options with
    | some os => pure { t with options := os }
    | none => pure t

def fields : List (RecordField TypeEntry) := [
  .text "name" fun s t => { t with name := s },
  .text "symbol" fun s t => { t with symbol := s },
  .text "options_symbol" fun s t => { t with optionsSymbol := s },
  .list "in_ports" "[]catalog.rawPort" port fun ps t => { t with inputs := ps },
  .list "out_ports" "[]catalog.rawPort" port fun ps t => { t with outputs := ps },
  optionsObject]

/-- Reads a type of a document with given anchored nodes. -/
def ofNode (anchored : List (Nat × Node)) (n : Node) : Except DecodeError TypeEntry :=
  match (n.asRecord "catalog.rawType" fields {}).run anchored with
  | .ok t => .ok (t.getD {})
  | .error e => .error e

end TypeEntry

/-! ## Ports -/

namespace Port

/-- Checks the ports: each has a new name, and no negative number. -/
def checkEach (seen : List String) : List Port → Except PortsFault Unit
  | [] => .ok ()
  | p :: rest =>
    if p.name = "" then .error .unnamed
    else if seen.contains p.name then .error (.duplicate p.name)
    else if p.size < 0 ∨ p.base < 0 then .error (.negative p.name)
    else checkEach (p.name :: seen) rest

/-- The ports by their first slots; ports with the same one keep their order. -/
def byBase (ports : List Port) : List Port := ports.mergeSort fun a b => a.base ≤ b.base

/-- The first two neighbours of which one reaches into the next, with ends computed in words. -/
def overlap? : List Port → Option (Port × Port)
  | a :: b :: rest =>
    if b.base < Number.wrap (a.base + a.width) then some (a, b) else overlap? (b :: rest)
  | _ => none

/-- Checks the ports of one direction. -/
def check (ports : List Port) : Except PortsFault (List Port) :=
  match checkEach [] ports with
  | .error f => .error f
  | .ok () =>
    match overlap? (byBase ports) with
    | some (a, b) => .error (.overlap a.name b.name)
    | none => .ok ports

end Port

/-! ## Defaults -/

namespace Value

/-- Sets the fields of a composite from the entries of a mapping. A null leaves its field alone. -/
def setFields (dataType : String) (c : Composite) : List (Node × Node) → Except DefaultFault Composite
  | [] => .ok c
  | (k, v) :: rest =>
    if !v.isScalar then .error (.fieldNotScalar k.text)
    else if !c.shape.fields.contains k.text then .error (.unknownField k.text dataType)
    else if v.isNull then setFields dataType c rest
    else
      match Numeral.token? dataType v.text with
      | none => .error (.invalidField v.text k.text dataType)
      | some tok => setFields dataType ((c.set? k.text tok).getD c) rest

/-- The default of a data type with fields. A bare number is the first field of a range. -/
def compositeOf (dataType : String) (shape : Shape) : Node → Except DefaultFault Composite
  | .scalar _ t _ =>
    if shape = .range then
      match Numeral.token? dataType t with
      | some tok => .ok (((Composite.empty shape).set? "val" tok).getD (Composite.empty shape))
      | none => .error (.invalid dataType t)
    else .error (.notObject dataType)
  | .mapping _ _ entries => setFields dataType (Composite.empty shape) entries
  | _ => .error (.notObject dataType)

/-- The default that a node stands for, kept as text if it has no meaning for the data type. A null is none.
-/
def ofNode? (dataType : String) (n : Node) : Except DefaultFault (Option Value) :=
  if n.isNull then .ok none
  else
    match Shape.ofType? dataType with
    | some shape => (compositeOf dataType shape n).map fun c => some (.composite c)
    | none =>
      if n.isScalar then
        if Numeral.isScalar dataType n.text then .ok (some (.text n.text))
        else .error (.invalid dataType n.text)
      else .ok (some (.raw (Text.trim n.print)))

end Value

/-! ## Types -/

namespace Descriptor

def fallbackOf (o : OptionEntry) : Except DefaultFault (Option Value) :=
  match o.fallback with
  | none => .ok none
  | some n => Value.ofNode? o.dataType n

/-- The options of a type. Each has a name that no option before it has. -/
def optionsOf (seen : List String) : List OptionEntry → Except EntryFault (List OptionSpec)
  | [] => .ok []
  | o :: rest =>
    if o.name = "" then .error .unnamedOption
    else if seen.contains o.name then .error (.duplicateOption o.name)
    else
      match fallbackOf o with
      | .error f => .error (.badDefault o.name f)
      | .ok fallback =>
        match optionsOf (o.name :: seen) rest with
        | .error f => .error f
        | .ok os => .ok (⟨o.name, o.dataType, fallback⟩ :: os)

def ofEntry (t : TypeEntry) : Except EntryFault Descriptor :=
  if t.name = "" then .error .missingName
  else if t.symbol = "" then .error .missingSymbol
  else if !t.options.isEmpty && t.optionsSymbol == "" then .error .missingOptionsSymbol
  else
    match Port.check t.inputs with
    | .error f => .error (.inputs f)
    | .ok inputs =>
      match Port.check t.outputs with
      | .error f => .error (.outputs f)
      | .ok outputs =>
        match optionsOf [] t.options with
        | .error f => .error f
        | .ok options => .ok {
            name := t.name, symbol := t.symbol, optionsSymbol := t.optionsSymbol,
            inputs := inputs, outputs := outputs, options := options }

def ofNode (anchored : List (Nat × Node)) : Node → Except EntryFault Descriptor
  | .mapping h flow entries =>
    match TypeEntry.ofNode anchored (.mapping h flow entries) with
    | .error e => .error (.unreadable e)
    | .ok t => ofEntry t
  | _ => .error .notObject

end Descriptor

/-! ## Documents -/

/-- Why a catalog was not loaded. -/
inductive LoadError where
  | empty (source : String)
  | unreadable (source : String)
  | notObject (source : String) (pos : Position)
  | notArray (source : String) (pos : Position) (key : String)
  | notOpened (e : StorageError)
  | notFound (e : StorageError)
deriving DecidableEq, Repr

def LoadError.message : LoadError → String
  | empty source => source ++ ": empty catalog document"
  | unreadable source => source ++ ": unreadable catalog document"
  | notObject source pos => source ++ ":" ++ pos.text ++ ": catalog document must be an object"
  | notArray source pos key =>
    source ++ ":" ++ pos.text ++ ": " ++ Text.quote key ++ " must be an array of types"
  | notOpened e => "open catalog: " ++ e.text
  | notFound e => "stat catalog: " ++ e.text

/-- The name that an entry gives, if it is an object with a scalar for its name. -/
def entryName : Node → String
  | .mapping _ _ entries =>
    match entries.find? fun (k, v) => k.text == "name" && v.isScalar with
    | some (_, v) => v.text
    | none => ""
  | _ => ""

namespace Catalog

/-- Adds an entry of a document, or notes why it is refused. -/
def loadEntry (c : Catalog) (source : String) (anchored : List (Nat × Node)) (n : Node) : Catalog :=
  let refused (f : EntryFault) : Catalog := c.reject ⟨source, n.pos, entryName n, f⟩
  match Descriptor.ofNode anchored n with
  | .error f => refused f
  | .ok d =>
    match c.add d with
    | .error e => refused (.notAdded e)
    | .ok c => c

/-- Adds the entries of the arrays of a document, up to a value that is no array. -/
def loadArrays (c : Catalog) (source : String) (anchored : List (Nat × Node)) :
    List (Node × Node) → Catalog × Option LoadError
  | [] => (c, none)
  | (_, .sequence _ _ items) :: rest =>
    loadArrays (items.foldl (fun c n => c.loadEntry source anchored n) c) source anchored rest
  | (k, v) :: _ => (c, some (.notArray source v.pos k.text))

/-- Adds the types of a document. -/
def load (c : Catalog) (text source : String) : Catalog × Option LoadError :=
  match Document.parse text with
  | none => (c, some (.unreadable source))
  | some none => (c, some (.empty source))
  | some (some ⟨.mapping _ _ entries, anchored⟩) => c.loadArrays source anchored entries
  | some (some ⟨n, _⟩) => (c, some (.notObject source n.pos))

def loadFile (c : Catalog) (s : Storage) (path : String) : Catalog × Option LoadError :=
  match s.open? path with
  | .error e => (c, some (.notOpened e))
  | .ok none => (c, some (.unreadable path))
  | .ok (some text) => c.load text path

/-- Adds the types of several documents, up to one that fails. -/
def loadFiles (c : Catalog) (s : Storage) : List String → Catalog × Option LoadError
  | [] => (c, none)
  | path :: rest =>
    match c.loadFile s path with
    | (c, none) => c.loadFiles s rest
    | (c, some e) => (c, some e)

def documentExtensions : List String := [".json", ".yaml", ".yml"]

/-- The catalog documents in a directory, in order. Names that start with a dot are left out. -/
def documentsIn (s : Storage) (dir : String) : List String :=
  let names := (s.fileNames dir).filter fun name =>
    name.toList.head? != some '.' &&
      documentExtensions.contains (Text.lowercase (Path.extension name))
  Text.sorted (names.map (Path.join dir))

/-- The documents that a path stands for: the file itself, or those in the directory. -/
def documentsAt (s : Storage) (path : String) : Except LoadError (List String) :=
  match s.stat path with
  | .error e => .error (.notFound e)
  | .ok (.file ..) => .ok [path]
  | .ok .directory => .ok (documentsIn s path)

/-- Adds the types of all documents that some paths stand for, up to a failure. -/
def loadPaths (c : Catalog) (s : Storage) : List String → Catalog × Option LoadError
  | [] => (c, none)
  | path :: rest =>
    match documentsAt s path with
    | .error e => (c, some e)
    | .ok files =>
      match c.loadFiles s files with
      | (c, none) => c.loadPaths s rest
      | (c, some e) => (c, some e)

end Catalog

end FlowCompiler
