import FlowCompiler.Compile.Unit
import FlowCompiler.Metatype.Basic
import FlowCompiler.Presets.Basic

/-!
# Types of nodes

The component of a node is looked up in the common catalog, then among the types that its unit declares. If
both miss, a resolver may give a preset: the name of another type, which is looked up in the same way, and
defaults for settings that the node does not have.
-/

namespace FlowCompiler

/-- What a compilation works with. Declared files are looked for in `searchPaths` and then beside the first
file. -/
structure Config where
  storage : Storage
  common : Catalog := {}
  resolver : Option Resolver := none
  registry : Registry := .builtin
  searchPaths : List String := []

/-- The key and the value of a default `key=value`. -/
def presetSetting? (text : String) : Option (String × String) :=
  match Text.cut? '=' text.toList with
  | none => none
  | some (key, value) =>
    match Text.trimChars key with
    | [] => none
    | key => some (String.ofList key, String.ofList value)

/-- Adds defaults to the settings of a node for keys that are not set. One without a key gives a warning. -/
def mergeDefaults (file : String) (pos : Position) (settings : List Meta) :
    List String → List Diagnostic × List Meta
  | [] => ([], settings)
  | text :: rest =>
    match presetSetting? text with
    | none =>
      let (warnings, merged) := mergeDefaults file pos settings rest
      (⟨file, pos, .badPresetOption text⟩ :: warnings, merged)
    | some (key, value) =>
      if settings.any (·.key == key) then mergeDefaults file pos settings rest
      else mergeDefaults file pos (settings ++ [⟨key, value, pos⟩]) rest

namespace Config

/-- The type of a name, and where it comes from. -/
def lookup (cfg : Config) (u : FlowUnit) (name : String) : Option (Descriptor × Role) :=
  match cfg.common.find? name with
  | some t => some (t, .external)
  | none =>
    match u.locals.find? name with
    | none => none
    | some t => some (t, if u.subflows.any (·.name == name) then .subflow else .metatype)

/-- The type and the settings of a node, with warnings. -/
def resolve (cfg : Config) (u : FlowUnit) (n : Graph.Node) :
    List Diagnostic × Except Diagnostic Binding :=
  match cfg.lookup u n.component with
  | some (t, role) => ([], .ok ⟨t, role, n.settings⟩)
  | none =>
    match cfg.resolver with
    | none => ([], .error ⟨u.path, n.pos, .noType n.component n.name⟩)
    | some resolver =>
      match resolver n.component with
      | .error (.undeclared _) => ([], .error ⟨u.path, n.pos, .noType n.component n.name⟩)
      | .error (.failed text) => ([], .error ⟨u.path, n.pos, .notResolved n.component text⟩)
      | .ok preset =>
        let (warnings, settings) := mergeDefaults u.path n.pos n.settings preset.options
        match cfg.lookup u preset.typeName with
        | none => (warnings, .error ⟨u.path, n.pos, .noResolvedType n.component preset.typeName⟩)
        | some (t, role) => (warnings, .ok ⟨t, role, settings⟩)

def findFile? (cfg : Config) (rootDir name : String) : Option String :=
  if Path.isAbsolute name then if cfg.storage.isFile name then some name else none
  else ((cfg.searchPaths ++ [rootDir]).map (Path.join · name)).find? cfg.storage.isFile

end Config

end FlowCompiler
