import FlowCompiler.Source.Columns
import FlowCompiler.Source.Grammar.Files
import FlowCompiler.Source.Layout.Files

/-!
# The usual layout of source text

Reads a source text and writes it again in its usual layout. A text is laid out three times, since the first
layout may change what the next one sees: lines that were joined or broken, and comments that were moved.
-/

namespace FlowCompiler.Source

def layOut? (s : String) : Option String :=
  (Tree.File.ofText? s).map fun f => Columns.text (f.ink (.ofText s) (8 * s.length + 64))

/-- A source text in its usual layout, unless it cannot be read. -/
def format? (s : String) : Option String :=
  if (Text.runesOf s.toList).any (· matches .byte _) then none
  else (((layOut? (Text.shown s)).bind layOut?).bind layOut?).map Text.received

end FlowCompiler.Source
