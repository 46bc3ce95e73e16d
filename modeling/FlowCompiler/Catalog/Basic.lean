import FlowCompiler.Catalog.Descriptor
import FlowCompiler.Document.Decode

/-!
# Catalogs

A catalog is a row of node types with distinct names. Types are only ever added; a second type of a name is
refused. Entries of documents that could not be added are kept beside the types, with the reason.
-/

namespace FlowCompiler

/-- Why a type cannot be added. -/
inductive AddError where
  | missing
  | emptyName
  | duplicate (name : String)
deriving DecidableEq, Repr

def AddError.message : AddError → String
  | missing => "add type: nil descriptor"
  | emptyName => "add type: empty name"
  | duplicate name => "type " ++ Text.quote name ++ " already in catalog"

/-- Why the default of an option is refused. -/
inductive DefaultFault where
  | notObject (dataType : String)
  | invalid (dataType text : String)
  | fieldNotScalar (field : String)
  | unknownField (field dataType : String)
  | invalidField (text field dataType : String)
deriving DecidableEq, Repr

def DefaultFault.message : DefaultFault → String
  | notObject dataType => "default for " ++ dataType ++ " must be an object"
  | invalid dataType text => "invalid " ++ dataType ++ " default " ++ Text.quote text
  | fieldNotScalar field => "default field " ++ Text.quote field ++ " must be a scalar"
  | unknownField field dataType =>
    "unknown field " ++ Text.quote field ++ " in " ++ dataType ++ " default"
  | invalidField text field dataType =>
    "invalid value " ++ Text.quote text ++ " for field " ++ Text.quote field ++ " of " ++ dataType ++
      " default"

/-- Why a list of ports is refused. -/
inductive PortsFault where
  | unnamed
  | duplicate (name : String)
  | negative (name : String)
  | overlap (first second : String)
deriving DecidableEq, Repr

def PortsFault.message : PortsFault → String
  | unnamed => "port without name"
  | duplicate name => "duplicate port " ++ Text.quote name
  | negative name => "port " ++ Text.quote name ++ " has negative size or index"
  | overlap first second =>
    "ports " ++ Text.quote first ++ " and " ++ Text.quote second ++ " overlap"

/-- Why an entry of a document is refused. -/
inductive EntryFault where
  | notObject
  | unreadable (e : Document.DecodeError)
  | missingName
  | missingSymbol
  | missingOptionsSymbol
  | inputs (f : PortsFault)
  | outputs (f : PortsFault)
  | unnamedOption
  | duplicateOption (name : String)
  | badDefault (option : String) (f : DefaultFault)
  | notAdded (e : AddError)
deriving DecidableEq, Repr

def EntryFault.message : EntryFault → String
  | notObject => "type entry must be an object"
  | unreadable e => e.message
  | missingName => "missing name"
  | missingSymbol => "missing symbol"
  | missingOptionsSymbol => "options given without options_symbol"
  | inputs f => "in_ports: " ++ f.message
  | outputs f => "out_ports: " ++ f.message
  | unnamedOption => "option without name"
  | duplicateOption name => "duplicate option " ++ Text.quote name
  | badDefault option f => "option " ++ Text.quote option ++ ": " ++ f.message
  | notAdded e => e.message

/-- An entry that was refused. -/
structure Rejection where
  source : String
  pos : Position
  typeName : String
  fault : EntryFault
deriving DecidableEq, Repr

def Rejection.text (r : Rejection) : String :=
  let place := r.source ++ ":" ++ r.pos.text ++ ": "
  if r.typeName = "" then place ++ r.fault.message
  else place ++ "type " ++ Text.quote r.typeName ++ ": " ++ r.fault.message

/-- The types in the order they were added, and the refused entries. -/
structure Catalog where
  types : List Descriptor := []
  rejected : List Rejection := []
deriving DecidableEq, Repr, Inhabited

namespace Catalog

def find? (c : Catalog) (name : String) : Option Descriptor := c.types.find? (·.name == name)

def add (c : Catalog) (d : Descriptor) : Except AddError Catalog :=
  if d.name = "" then .error .emptyName
  else if (c.find? d.name).isSome then .error (.duplicate d.name)
  else .ok { c with types := c.types ++ [d] }

/-- Adds a type that may be missing, which is refused. -/
def add? (c : Catalog) : Option Descriptor → Except AddError Catalog
  | none => .error .missing
  | some d => c.add d

def reject (c : Catalog) (r : Rejection) : Catalog := { c with rejected := c.rejected ++ [r] }

end Catalog

end FlowCompiler
