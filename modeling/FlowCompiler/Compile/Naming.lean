import FlowCompiler.Catalog.Descriptor
import FlowCompiler.Text.Letter
import FlowCompiler.Text.LetterCase
import FlowCompiler.Text.Blank

/-!
# Names of generated things

Names of flows and options become exported identifiers: words start with capital letters and are joined.
Names that have to be distinct get numbers, after an underscore, from the second time on.
-/

namespace FlowCompiler.Naming

def isSeparator (c : Char) : Bool := c == '_' || c == ':' || c == '-' || Text.isBlank c

/-- Joins words, each with one capital in front. A separator or a capital ends a word; `inside` tells
whether one has begun. -/
def joinWords (inside : Bool) : List Char → List Char
  | [] => []
  | c :: rest =>
    if isSeparator c then joinWords false rest
    else if inside && !Text.isUpper c then Text.toLower c :: joinWords true rest
    else Text.toUpper c :: joinWords true rest

/-- The exported identifier for a name, in words of letters and digits. It starts with `X` if it would be
empty or start with an ASCII digit. -/
def exported (name : String) : String :=
  let words := name.toList.map fun c => if Text.isLetter c || Text.isDigit c then c else '_'
  match joinWords false words with
  | [] => "X"
  | c :: rest => if c.isDigit then String.ofList ('X' :: c :: rest) else String.ofList (c :: rest)

/-- The name of an exported option among the options of a flow. -/
def forwarded (name : String) : String := "opt_" ++ name

def optionField (d : Descriptor) (option : String) : String :=
  if d.generated then exported (forwarded option) else exported option

def lowerFirst (s : String) : String :=
  match s.toList with
  | [] => s
  | c :: rest => String.ofList (Text.toLower c :: rest)

abbrev Counts := List (String × Nat)

def Counts.count (counts : Counts) (name : String) : Nat := (counts.lookup name).getD 0

/-- Asks for a name: as it is for the first time, with a number afterwards. -/
def Counts.take (counts : Counts) (name : String) : Counts × String :=
  let n := counts.count name + 1
  ((name, n) :: counts.filter (·.1 != name), if 1 < n then s!"{name}_{n}" else name)

end FlowCompiler.Naming
