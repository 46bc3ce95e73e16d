import FlowCompiler.Catalog.Numeral
import FlowCompiler.Compile.Diagnostic
import FlowCompiler.Text.Blank
import FlowCompiler.Text.Cut

/-!
# Option values of a node

The settings of a node are laid over the defaults of its type. A value of a type with fields is written in
segments between bars, either as `field:token` or by position. What cannot be read is left out with a
warning; a setting that the type does not know is an error.
-/

namespace FlowCompiler

/-- The value that an option of a node has in the end. -/
structure ResolvedOption where
  name : String
  dataType : String
  value : Option Value
deriving DecidableEq, Repr

namespace Setting

def isQuoted (s : String) : Bool :=
  let cs := s.toList
  2 ≤ cs.length && cs.head? == some '"' && cs.getLast? == some '"'

/-- A text in which a single quote after a backslash stands alone. -/
def plainQuotes : List Char → List Char
  | '\\' :: '\'' :: r => '\'' :: plainQuotes r
  | c :: r => c :: plainQuotes r
  | [] => []

/-- The text between the quotes with its escapes resolved, or as it is if one of them is unknown. -/
def unquoted (s : String) : String :=
  match Text.unquote? (plainQuotes s.toList) with
  | some cs => String.ofList cs
  | none => String.ofList (s.toList.tail.dropLast)

/-- The text of a setting, without quotes around it. -/
def plainText (s : String) : String := if isQuoted s then unquoted s else s

end Setting

namespace Composite

/-- The field and the token of a segment. By position, `index` gives the field. -/
def segmentTarget (shape : Shape) (key : String) (explicit : Bool) (index : Nat) (segment : List Char) :
    Except Cause (String × String) :=
  let text := String.ofList segment
  if explicit then
    match Text.cut? ':' segment with
    | none => .error (.mixedForms text)
    | some (field, token) =>
      .ok (String.ofList (Text.trimChars field), String.ofList (Text.trimChars token))
  else if segment.contains ':' then .error (.mixedForms text)
  else
    match shape.fields[index]? with
    | none => .error (.tooManyValues key text)
    | some field => .ok (field, text)

/-- Lays a segment over a composite. An empty token leaves its field alone. -/
def applySegment (dataType key : String) (explicit : Bool) (index : Nat) (c : Composite)
    (segment : List Char) : Composite × Option Cause :=
  match segmentTarget c.shape key explicit index (Text.trimChars segment) with
  | .error w => (c, some w)
  | .ok (field, token) =>
    if !c.shape.fields.contains field then (c, some (.noField field key dataType))
    else if token = "" then (c, none)
    else
      match Numeral.token? dataType token with
      | none => (c, some (.badField token field key))
      | some normal => ((c.set? field normal).getD c, none)

/-- Lays segments over a composite, the first of them at position `index`. -/
def applySegments (dataType key : String) (explicit : Bool) (index : Nat) (c : Composite) :
    List (List Char) → Composite × List Cause
  | [] => (c, [])
  | segment :: rest =>
    let (c, warning) := applySegment dataType key explicit index c segment
    let (c, warnings) := applySegments dataType key explicit (index + 1) c rest
    (c, warning.toList ++ warnings)

/-- Lays a text over a composite. The first segment decides whether fields are named. -/
def overlay (dataType key : String) (c : Composite) (text : String) : Composite × List Cause :=
  let segments := text.toList.splitOn '|'
  let explicit := (segments.headD []).contains ':'
  applySegments dataType key explicit 0 c segments

end Composite

namespace OptionSpec

/-- The composite that the settings of an option start from. -/
def baseComposite (o : OptionSpec) (shape : Shape) : Composite :=
  match o.fallback with
  | some (.composite c) => c
  | _ => Composite.empty shape

/-- The value that a setting gives to an option, with warnings. -/
def encode (o : OptionSpec) (key raw : String) : Option Value × List Cause :=
  let dataType := DataType.canonical o.dataType
  let text := Setting.plainText raw
  match Shape.ofType? dataType with
  | some shape =>
    let (c, warnings) := (o.baseComposite shape).overlay dataType key text
    (some (.composite c), warnings)
  | none =>
    if Numeral.isScalar dataType text then (some (.text text), [])
    else (o.fallback, [.badScalar dataType text key])

end OptionSpec

namespace Descriptor

def defaults (d : Descriptor) : List ResolvedOption :=
  d.options.map fun o => ⟨o.name, o.dataType, o.fallback⟩

/-- Lays settings over option values, up to an unknown key, with the warnings so far. -/
def overlay (d : Descriptor) (file : String) (values : List ResolvedOption) (warnings : List Diagnostic) :
    List Meta → List Diagnostic × Except Diagnostic (List ResolvedOption)
  | [] => (warnings, .ok values)
  | m :: rest =>
    match d.optionIndex? m.key with
    | none => (warnings, .error ⟨file, m.pos, .noOption m.key d.name⟩)
    | some i =>
      match d.options[i]? with
      | none => (warnings, .error ⟨file, m.pos, .noOption m.key d.name⟩)
      | some o =>
        let (value, causes) := o.encode m.key m.value
        overlay d file (values.set i ⟨o.name, o.dataType, value⟩)
          (warnings ++ causes.map fun c => ⟨file, m.pos, c⟩) rest

/-- The values of all options of a type for the settings of a node, with warnings. -/
def encode (d : Descriptor) (file : String) (settings : List Meta) :
    List Diagnostic × Except Diagnostic (List ResolvedOption) :=
  d.overlay file d.defaults [] settings

end Descriptor

end FlowCompiler
