import FlowCompiler.Text.Letter

/-!
# Identifiers of the target language

Generated programs are written in Go. An identifier is a word of letters, digits and underscores that does
not start with a digit and is no keyword. Some identifiers have a meaning from the start.
-/

namespace FlowCompiler.Source

def keywords : List String := [
  "break", "case", "chan", "const", "continue", "default", "defer", "else", "fallthrough", "for", "func",
  "go", "goto", "if", "import", "interface", "map", "package", "range", "return", "select", "struct",
  "switch", "type", "var"]

/-- The names of types, constants and functions that are always declared. -/
def predeclared : List String := [
  "bool", "byte", "complex64", "complex128", "error", "float32", "float64", "int", "int8", "int16",
  "int32", "int64", "rune", "string", "uint", "uint8", "uint16", "uint32", "uint64", "uintptr",
  "true", "false", "iota", "nil",
  "append", "cap", "clear", "close", "complex", "copy", "delete", "imag", "len", "make", "max", "min",
  "new", "panic", "print", "println", "real", "recover"]

def startsIdentifier (c : Char) : Bool := c == '_' || Text.isLetter c

def isIdentifier (s : String) : Bool :=
  match s.toList with
  | [] => false
  | c :: rest => startsIdentifier c && rest.all Text.isWord && !keywords.contains s

end FlowCompiler.Source
