import FlowCompiler.Text.Octets

/-!
# Columns

Texts filled up with blanks to the width of a column. Widths count characters.
-/

namespace FlowCompiler.Text

def padRight (width : Nat) (s : String) : String :=
  s ++ String.ofList (List.replicate (width - (runesOf s.toList).length) ' ')

/-- Cuts a text to `limit` characters; a cut text ends with an ellipsis. -/
def truncate (s : String) (limit : Nat) : String :=
  if (runesOf s.toList).length ≤ limit then s
  else received (String.ofList ((shownChars s.toList).take limit)) ++ "…"

end FlowCompiler.Text
