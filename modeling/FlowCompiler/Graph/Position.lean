import FlowCompiler.Text.Octets

/-!
# Positions in a text

A position is a line and a column, both counted from one. Columns count bytes, so a character moves the
column on by the size of its encoding; a line feed starts the next line.
-/

namespace FlowCompiler

/-- A line and a column, counted from one. -/
structure Position where
  line : Nat
  column : Nat
deriving DecidableEq, Repr, Inhabited

namespace Position

def start : Position := ⟨1, 1⟩

/-- No position: what a message that belongs to a whole file carries. -/
def none : Position := ⟨0, 0⟩

/-- The position after the character `c` that stands at `p`. -/
def advance (p : Position) (c : Char) : Position :=
  if c = '\n' then ⟨p.line + 1, 1⟩ else ⟨p.line, p.column + Text.charSize c⟩

/-- The position after the characters `cs` that stand at `p`. -/
def advanceAll (p : Position) (cs : List Char) : Position := cs.foldl advance p

@[simp] theorem advanceAll_nil (p : Position) : p.advanceAll [] = p := rfl

@[simp] theorem advanceAll_cons (p : Position) (c : Char) (cs : List Char) :
    p.advanceAll (c :: cs) = (p.advance c).advanceAll cs := rfl

theorem advanceAll_append (p : Position) (cs ds : List Char) :
    p.advanceAll (cs ++ ds) = (p.advanceAll cs).advanceAll ds := List.foldl_append

/-- The written form, `line:column`. -/
def text (p : Position) : String := s!"{p.line}:{p.column}"

end Position

end FlowCompiler
