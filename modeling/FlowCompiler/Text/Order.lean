import FlowCompiler.Text.Octets

/-!
# Sorted texts

Texts are compared byte by byte.
-/

namespace FlowCompiler.Text

def notAfter (a b : String) : Bool := !decide (bytesOf b.toList < bytesOf a.toList)

/-- The texts of a list in order; equal ones keep their places. -/
def sorted (texts : List String) : List String := texts.mergeSort notAfter

end FlowCompiler.Text
