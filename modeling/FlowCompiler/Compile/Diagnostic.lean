import FlowCompiler.Catalog.Basic
import FlowCompiler.Graph.Fault
import FlowCompiler.Storage.Basic

/-!
# Diagnostics

What the compiler finds wrong: a cause, and the place that it has in a file. The kind of a cause tells
whether compiling goes on.
-/

namespace FlowCompiler

/-- The kinds of diagnostics. -/
inductive Kind where
  | parseFailure
  | catalogParseError
  | typeNotFound
  | portNotFound
  | arrayIndexRequired
  | arrayIndexOutOfBounds
  | portTypeMismatch
  | invalidOptionKey
  | malformedSuboption
  | indirectionFailure
  | ioFailure
  | declarationCycle
deriving DecidableEq, Repr

namespace Kind

/-- All kinds, in the order of their numbers, which start from one. -/
def all : List Kind := [parseFailure, catalogParseError, typeNotFound, portNotFound, arrayIndexRequired,
  arrayIndexOutOfBounds, portTypeMismatch, invalidOptionKey, malformedSuboption, indirectionFailure,
  ioFailure, declarationCycle]

def text : Kind → String
  | parseFailure => "ParseFailure"
  | catalogParseError => "CatalogParseError"
  | typeNotFound => "TypeNotFound"
  | portNotFound => "PortNotFound"
  | arrayIndexRequired => "ArrayIndexRequired"
  | arrayIndexOutOfBounds => "ArrayIndexOutOfBounds"
  | portTypeMismatch => "PortTypeMismatch"
  | invalidOptionKey => "InvalidOptionKey"
  | malformedSuboption => "MalformedSuboption"
  | indirectionFailure => "IndirectionFailure"
  | ioFailure => "IOFailure"
  | declarationCycle => "DeclarationCycle"

/-- Whether diagnostics of a kind are only warnings. -/
def recoverable (k : Kind) : Bool := k == catalogParseError || k == malformedSuboption

def ofNumber? (n : Int) : Option Kind := if n < 1 then none else all[n.toNat - 1]?

/-- The name for a number, which may be that of no kind. -/
def numberText (n : Int) : String :=
  match ofNumber? n with
  | some k => k.text
  | none => s!"Kind({n})"

end Kind

/-- What is wrong. -/
inductive Cause where
  | malformed (fault : Fault)
  | unreadable (e : StorageError)
  | noFile (contents declaration : String)
  | cycle (path : String)
  | noMetatype (kind declaration : String)
  | badDeclaration (kind declaration text : String)
  | notRegistered (declaration : String) (e : AddError)
  | noType (component node : String)
  | noResolvedType (component typeName : String)
  | notResolved (component text : String)
  | noPort (port typeName : String)
  | noIndex (port typeName : String)
  | badIndex (port typeName : String) (size : Int) (index : Nat)
  | differentTypes (node port targetPort target dataType targetType : String)
  | noExportedPort (name port node : String)
  | badExportedIndex (name : String) (index : Nat) (size : Int)
  | noExportedOption (name node typeName option : String)
  | noOption (key typeName : String)
  | badPresetOption (text : String)
  | badScalar (dataType text key : String)
  | mixedForms (segment : String)
  | tooManyValues (key segment : String)
  | noField (field key dataType : String)
  | badField (token field key : String)
deriving DecidableEq, Repr

namespace Cause

def kind : Cause → Kind
  | malformed _ | badDeclaration .. => .parseFailure
  | unreadable _ | noFile .. => .ioFailure
  | cycle _ => .declarationCycle
  | noMetatype .. | notRegistered .. | noType .. | noResolvedType .. => .typeNotFound
  | notResolved .. => .indirectionFailure
  | noPort .. | noExportedPort .. => .portNotFound
  | noIndex .. => .arrayIndexRequired
  | badIndex .. | badExportedIndex .. => .arrayIndexOutOfBounds
  | differentTypes .. => .portTypeMismatch
  | noExportedOption .. | noOption .. => .invalidOptionKey
  | badPresetOption _ | badScalar .. | mixedForms _ | tooManyValues .. | noField .. | badField .. =>
    .malformedSuboption

def message : Cause → String
  | malformed fault => fault.message
  | unreadable e =>
    let text := e.text
    s!"read file: {text}"
  | noFile contents declaration => s!"Couldn't find file '{contents}' for declaration '{declaration}'"
  | cycle path => s!"Recursive declaration: '{path}' is already being compiled"
  | noMetatype kind declaration =>
    s!"Couldn't find metatype '{kind}' for declaration '{declaration}'"
  | badDeclaration kind declaration text => s!"Invalid '{kind}' declaration '{declaration}': {text}"
  | notRegistered declaration e =>
    let text := e.message
    s!"Couldn't register type '{declaration}': {text}"
  | noType component node => s!"Couldn't find node type '{component}' for node '{node}'"
  | noResolvedType component typeName =>
    s!"Couldn't resolve type id '{component}': type '{typeName}' not found"
  | notResolved component text => s!"Couldn't resolve type id '{component}': {text}"
  | noPort port typeName => s!"Port '{port}' doesn't exist for node type '{typeName}'"
  | noIndex port typeName =>
    s!"Port '{port}' from node type '{typeName}' is an array port and no index was given"
  | badIndex port typeName size index =>
    s!"Port '{port}' from node type '{typeName}' has size '{size}', but given index '{index}' is out of" ++
      " bounds"
  | differentTypes node port targetPort target dataType targetType =>
    s!"Couldn't connect '{node} {port} -> {targetPort} {target}'. Source port type '{dataType}' doesn't" ++
      s!" match destination port type '{targetType}'"
  | noExportedPort name port node =>
    s!"Couldn't export '{name}'. Port '{port}' doesn't exist in node '{node}'"
  | badExportedIndex name index size =>
    s!"Couldn't export '{name}'. Index '{index}' is out of range (port size: {size})."
  | noExportedOption name node typeName option =>
    s!"Couldn't export option '{name}': node '{node}' of type '{typeName}' has no option '{option}'"
  | noOption key typeName => s!"Invalid option key '{key}' for node type '{typeName}'"
  | badPresetOption text => s!"Couldn't handle '{text}' conffile option, ignoring this option..."
  | badScalar dataType text key => s!"Invalid {dataType} value '{text}' for option '{key}', ignoring it"
  | mixedForms segment =>
    s!"Wrong suboption format, ignoring value '{segment}'. You cannot mix the formats, choose one" ++
      " 'opt1:val1|opt2:val2...' or 'val1|val2...'"
  | tooManyValues key segment => s!"Too many values for option '{key}', ignoring value '{segment}'"
  | noField field key dataType =>
    s!"Unknown field '{field}' for option '{key}' of type '{dataType}', ignoring it"
  | badField token field key => s!"Invalid value '{token}' for field '{field}' of option '{key}', ignoring it"

end Cause

/-- A cause at a place in a file. -/
structure Diagnostic where
  file : String
  pos : Position
  cause : Cause
deriving DecidableEq, Repr

namespace Diagnostic

/-- A message with its place, as far as it is known. -/
def located (file : String) (line column : Int) (message : String) : String :=
  if file = "" then message
  else if 0 < line then s!"{file}:{line}:{column}: {message}"
  else s!"{file}: {message}"

def kind (d : Diagnostic) : Kind := d.cause.kind

def message (d : Diagnostic) : String := d.cause.message

def text (d : Diagnostic) : String := located d.file d.pos.line d.pos.column d.message

end Diagnostic

end FlowCompiler
