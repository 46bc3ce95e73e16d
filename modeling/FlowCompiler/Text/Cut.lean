/-!
# Cutting a text in two
-/

namespace FlowCompiler.Text

/-- What stands before and after the first `c` of a text. -/
def cut? (c : Char) (cs : List Char) : Option (List Char × List Char) :=
  match cs.dropWhile (· != c) with
  | [] => none
  | _ :: after => some (cs.takeWhile (· != c), after)

end FlowCompiler.Text
