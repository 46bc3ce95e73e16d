import FlowCompiler.Document.Decode
import FlowCompiler.Document.Parser
import FlowCompiler.Presets.Basic
import FlowCompiler.Storage.Basic
import FlowCompiler.Text.Order

/-!
# Loading presets

A document lists entries under `nodetypes`, each with a name, a type and an object of options. The first
entry of a name counts and later ones are ignored. Any other fault fails the document.
-/

namespace FlowCompiler

open Document

/-- Why the options of an entry are refused. -/
inductive PresetOptionsFault where
  | notObject
  | fieldNotScalar (option field : String)
  | notScalarOrObject (option : String)
deriving DecidableEq, Repr

def PresetOptionsFault.message : PresetOptionsFault → String
  | notObject => "options must be an object"
  | fieldNotScalar option field =>
    "option " ++ Text.quote option ++ ": field " ++ Text.quote field ++ " must be a scalar"
  | notScalarOrObject option => "option " ++ Text.quote option ++ " must be a scalar or an object"

/-- Why presets were not loaded. -/
inductive PresetsError where
  | unreadable (source : String)
  | misfit (source : String) (e : DecodeError)
  | misfitEntry (source : String) (pos : Position) (e : DecodeError)
  | incomplete (source : String) (pos : Position)
  | badOptions (source : String) (pos : Position) (id : String) (f : PresetOptionsFault)
  | notOpened (e : StorageError)
deriving DecidableEq, Repr

def PresetsError.message : PresetsError → String
  | unreadable source => source ++ ": unreadable conffile"
  | misfit source e => source ++ ": " ++ e.message
  | misfitEntry source pos e => source ++ ":" ++ pos.text ++ ": " ++ e.message
  | incomplete source pos => source ++ ":" ++ pos.text ++ ": node type entry needs name and type"
  | badOptions source pos id f =>
    source ++ ":" ++ pos.text ++ ": id " ++ Text.quote id ++ ": " ++ f.message
  | notOpened e => "open conffile: " ++ e.text

/-- An entry as a document gives it. -/
structure PresetEntry where
  name : String := ""
  typeName : String := ""
  options : Option Node := none

namespace PresetEntry

def fields : List (RecordField PresetEntry) := [
  .text "name" fun s e => { e with name := s },
  .text "type" fun s e => { e with typeName := s },
  .node "options" fun n e => { e with options := some n }]

/-- Reads an entry of a document with given anchored nodes. -/
def ofNode (anchored : List (Nat × Node)) (n : Node) : Except DecodeError PresetEntry :=
  match (n.asRecord "conffile.rawEntry" fields {}).run anchored with
  | .ok e => .ok (e.getD {})
  | .error e => .error e

def listOf (c : Content) : Except DecodeError (List Node) :=
  let list : RecordField (List Node) := .list "nodetypes" "[]yaml.Node" Node.asNode fun ns _ => ns
  let entries : Decode (Option (List Node)) := do
    Decode.visit
    c.root.asRecord "conffile.rawFile" [list] []
  match entries.run c.anchored with
  | .ok ns => .ok (ns.getD [])
  | .error e => .error e

end PresetEntry

namespace Preset

/-- The parts `field:value` of an object in an option. -/
def fieldParts (option : String) : List (Node × Node) → Except PresetOptionsFault (List String)
  | [] => .ok []
  | (k, v) :: rest =>
    if !v.isScalar then .error (.fieldNotScalar option k.text)
    else
      match fieldParts option rest with
      | .error f => .error f
      | .ok parts => .ok ((k.text ++ ":" ++ v.text) :: parts)

/-- The text of the value of an option: a scalar as it is, an object as its fields. -/
def optionText (option : String) : Node → Except PresetOptionsFault String
  | .scalar _ t _ => .ok t
  | .mapping _ _ entries => (fieldParts option entries).map "|".intercalate
  | _ => .error (.notScalarOrObject option)

def optionTexts : List (Node × Node) → Except PresetOptionsFault (List String)
  | [] => .ok []
  | (k, v) :: rest =>
    match optionText k.text v with
    | .error f => .error f
    | .ok t =>
      match optionTexts rest with
      | .error f => .error f
      | .ok ts => .ok ((k.text ++ "=" ++ t) :: ts)

/-- The options that a node stands for, sorted. None and null are no options. -/
def optionsOf : Option Node → Except PresetOptionsFault (List String)
  | none => .ok []
  | some (.mapping h _ entries) =>
    if h.tag = .null then .ok [] else (optionTexts entries).map Text.sorted
  | some n => if n.tag = .null then .ok [] else .error .notObject

end Preset

/-- An entry that was ignored because its name was declared before. -/
structure IgnoredPreset where
  source : String
  line : Nat
  id : String
deriving DecidableEq, Repr

namespace Presets

/-- Adds the entries of a document one by one. The entries ignored so far are given also on a fault. -/
def addEntries (source : String) (anchored : List (Nat × Node)) (ignored : List IgnoredPreset) (p : Presets) :
    List Node → List IgnoredPreset × Except PresetsError Presets
  | [] => (ignored, .ok p)
  | n :: rest =>
    match PresetEntry.ofNode anchored n with
    | .error e => (ignored, .error (.misfitEntry source n.pos e))
    | .ok e =>
      if e.name = "" ∨ e.typeName = "" then (ignored, .error (.incomplete source n.pos))
      else if (p.find? e.name).isSome then
        addEntries source anchored (ignored ++ [⟨source, n.pos.line, e.name⟩]) p rest
      else
        match Preset.optionsOf e.options with
        | .error f => (ignored, .error (.badOptions source n.pos e.name f))
        | .ok options =>
          addEntries source anchored ignored ⟨p.entries ++ [(e.name, ⟨e.typeName, options⟩)]⟩ rest

/-- The presets of a document. A document that holds nothing has none. -/
def load (text source : String) : List IgnoredPreset × Except PresetsError Presets :=
  match Document.parse text with
  | none => ([], .error (.unreadable source))
  | some none => ([], .ok {})
  | some (some content) =>
    match PresetEntry.listOf content with
    | .error e => ([], .error (.misfit source e))
    | .ok nodes => addEntries source content.anchored [] {} nodes

def loadFile (s : Storage) (path : String) : List IgnoredPreset × Except PresetsError Presets :=
  match s.open? path with
  | .error e => ([], .error (.notOpened e))
  | .ok none => ([], .error (.unreadable path))
  | .ok (some text) => load text path

end Presets

end FlowCompiler
