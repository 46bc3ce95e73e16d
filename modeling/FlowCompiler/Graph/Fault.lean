import FlowCompiler.Graph.Basic

/-!
# What can be wrong with a flow text

Each fault is a cause; its wording is in `Fault.message` alone.
-/

namespace FlowCompiler

/-- The reasons to refuse a flow text. -/
inductive Fault where
  | loneCarriageReturn
  | trailing
  | noSourcePort
  | noArrow
  | arrowWithoutPorts
  | noNode
  | unclosedComponent
  | anonymousWithoutComponent
  | noSettingName
  | unterminatedString
  | badEscape
  | badIndex
  | indexTooLarge (digits : String)
  | exportWithoutNode
  | exportWithoutDot
  | exportWithoutPort
  | exportWithoutColon
  | exportWithoutName
  | declarationWithoutName
  | declarationWithoutKindColon
  | declarationWithoutKind
  | declarationWithoutContentsColon
  | declarationWithoutContents (name : String)
  | optionWithoutNode
  | optionWithoutDot
  | optionWithoutNodeOption
  | optionWithoutColon
  | optionWithoutName
  | retyped (node component : String) (first : Position)
  | repeatedSetting (node key : String) (first : Position)
  | repeatedConnection (source sourcePort targetPort target : String) (first : Position)
  | repeatedExportName (direction : Direction) (name : String) (first : Position)
  | repeatedExportPort (direction : Direction) (node port name : String) (first : Position)
  | repeatedDeclaration (name : String)
  | repeatedOption (name : String) (first : Position)
  | untyped (node : String)
deriving DecidableEq, Repr

namespace Fault

def message : Fault → String
  | loneCarriageReturn => "Carriage return must be followed by a newline"
  | trailing => "Invalid trailing after statements."
  | noSourcePort => "Couldn't parse statement."
  | noArrow => "Expected '->' between connection statement."
  | arrowWithoutPorts => "Arrow symbol must appear between two port names"
  | noNode =>
    "Expected node identifier. " ++
      "Identifiers must contain only alphanumeric characters, '_' or '-'."
  | unclosedComponent => "Expected ')' to close the node component."
  | anonymousWithoutComponent => "Anonymous node must have a component, e.g. '_(nodetype)'"
  | noSettingName => "Expected option name in node meta."
  | unterminatedString => "Unterminated string."
  | badEscape => "Invalid escape sequence in string."
  | badIndex => "Invalid port index, expected '[<number>]'."
  | indexTooLarge digits =>
    s!"Invalid port index: strconv.Atoi: parsing \"{digits}\": value out of range"
  | exportWithoutNode => "Expected node identifier in exported port."
  | exportWithoutDot => "Expected '.' between node and port of exported port."
  | exportWithoutPort => "Expected port name in exported port."
  | exportWithoutColon => "Expected ':' before the exported port name."
  | exportWithoutName => "Expected exported port name."
  | declarationWithoutName => "Expected type name in declaration."
  | declarationWithoutKindColon => "Expected ':' after declared type name."
  | declarationWithoutKind => "Expected declaration kind."
  | declarationWithoutContentsColon => "Expected ':' after declaration kind."
  | declarationWithoutContents name => s!"Expected contents for declaration '{name}'."
  | optionWithoutNode => "Expected node identifier in exported option."
  | optionWithoutDot => "Expected '.' between node and option name."
  | optionWithoutNodeOption => "Expected node option name."
  | optionWithoutColon => "Expected ':' before the exported option name."
  | optionWithoutName => "Expected exported option name."
  | retyped node component first =>
    s!"Node '{node}' already declared with type '{component}' at {first.text}"
  | repeatedSetting node key first =>
    s!"Node '{node}' option '{key}' already declared at {first.text}"
  | repeatedConnection source sourcePort targetPort target first =>
    s!"Connection '{source} {sourcePort} -> {targetPort} {target}' already declared at {first.text}"
  | repeatedExportName direction name first =>
    s!"Exported {direction.text} port with name '{name}' already declared in {first.text}"
  | repeatedExportPort direction node port name first =>
    s!"Node '{node}' and {direction.text} port '{port}' already exported as '{name}'" ++
      s!" declared in {first.text}"
  | repeatedDeclaration name => s!"Type '{name}' already declared"
  | repeatedOption name first => s!"Option '{name}' already declared at {first.text}"
  | untyped node =>
    s!"Node '{node}' doesn't have a type, Node type must be defined. e.g. 'node(nodetype)'"

end Fault

/-- A fault and the place in the text that it belongs to. -/
structure ParseError where
  pos : Position
  fault : Fault
deriving DecidableEq, Repr

namespace ParseError

/-- The wording without the place. -/
def message (e : ParseError) : String := e.fault.message

/-- The wording after the place, `line:column: message`. -/
def text (e : ParseError) : String := s!"{e.pos.text}: {e.message}"

end ParseError

end FlowCompiler
