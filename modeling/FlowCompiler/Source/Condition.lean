import FlowCompiler.Source.DocText

/-!
# Build conditions

A line comment can tell when a file belongs to a program. It has one of two forms: an expression after
`//go:build`, or words after `// +build`, which say in an older way what an expression says.
-/

namespace FlowCompiler.Source

/-- When a file is built: a tag is set, or a combination of conditions holds. -/
inductive Condition where
  | tag (name : List Char)
  | not (c : Condition)
  | and (a b : Condition)
  | or (a b : Condition)
deriving DecidableEq, Repr

namespace Condition

/-! ## Comments with conditions -/

/-- What follows a word in a line, unless the word goes on. -/
def after? (word line : List Char) : Option (List Char) :=
  if word.isPrefixOf line then
    let rest := line.drop word.length
    let text := Text.trimChars rest
    if text.length = rest.length ∧ rest ≠ [] then none else some text
  else none

def expressionText? (comment : List Char) : Option (List Char) :=
  let mark := "//go:build".toList
  if mark.isPrefixOf comment then after? mark (Text.trimChars comment) else none

/-- The words of a comment in the older form. -/
def wordsText? (comment : List Char) : Option (List Char) :=
  if "//".toList.isPrefixOf comment then after? "+build".toList (Text.trimChars (comment.drop 2)) else none

def isTagChar (c : Char) : Bool := Text.isLetter c || Text.isDigit c || c == '_' || c == '.'

/-! ## Expressions -/

/-- A lexeme of an expression. -/
inductive Mark where
  | opening
  | closing
  | not
  | and
  | or
  | tag (name : List Char)
deriving DecidableEq, Repr

def marks : Nat → List Char → Option (List Mark)
  | 0, _ => none
  | _, [] => some []
  | fuel + 1, c :: cs =>
    if c = ' ' ∨ c = '\t' then marks fuel cs
    else if c = '(' then (marks fuel cs).map (.opening :: ·)
    else if c = ')' then (marks fuel cs).map (.closing :: ·)
    else if c = '!' then (marks fuel cs).map (.not :: ·)
    else if c = '&' ∨ c = '|' then
      if cs.head? = some c then (marks fuel (cs.drop 1)).map ((if c = '&' then Mark.and else .or) :: ·)
      else none
    else
      let name := (c :: cs).takeWhile isTagChar
      if name.isEmpty then none
      else (marks fuel (cs.drop (name.length - 1))).map (.tag name :: ·)

mutual

def readOr : Nat → List Mark → Option (Condition × List Mark)
  | 0, _ => none
  | fuel + 1, ms => (readAnd fuel ms).bind fun (c, ms) => readMoreOr fuel c ms

def readMoreOr : Nat → Condition → List Mark → Option (Condition × List Mark)
  | fuel + 1, c, .or :: ms => (readAnd fuel ms).bind fun (d, ms) => readMoreOr fuel (.or c d) ms
  | _, c, ms => some (c, ms)

def readAnd : Nat → List Mark → Option (Condition × List Mark)
  | 0, _ => none
  | fuel + 1, ms => (readNot fuel ms).bind fun (c, ms) => readMoreAnd fuel c ms

def readMoreAnd : Nat → Condition → List Mark → Option (Condition × List Mark)
  | fuel + 1, c, .and :: ms => (readNot fuel ms).bind fun (d, ms) => readMoreAnd fuel (.and c d) ms
  | _, c, ms => some (c, ms)

/-- Reads a condition that may be negated, but not twice. -/
def readNot : Nat → List Mark → Option (Condition × List Mark)
  | fuel + 1, .not :: ms => (readAtom fuel ms).map fun (c, ms) => (.not c, ms)
  | fuel + 1, ms => readAtom fuel ms
  | 0, _ => none

def readAtom : Nat → List Mark → Option (Condition × List Mark)
  | fuel + 1, .opening :: ms =>
    match readOr fuel ms with
    | some (c, .closing :: ms) => some (c, ms)
    | _ => none
  | _, .tag name :: ms => some (.tag name, ms)
  | _, _ => none

end

/-- How many tags and parentheses an expression may have. -/
def maxOperands : Nat := 1000

def ofExpression? (text : List Char) : Option Condition :=
  (marks (text.length + 1) text).bind fun ms =>
    if maxOperands < ms.countP fun m => m matches .opening | .tag _ then none
    else
      match readOr (8 * ms.length + 8) ms with
      | some (c, []) => some c
      | _ => none

/-! ## Words -/

def words (text : List Char) : List (List Char) :=
  (text.splitBy fun a b => Text.isBlank a == Text.isBlank b).filter fun w => !(w.any Text.isBlank)

/-- The tag for what cannot be understood. It is never set. -/
def never : Condition := .tag "ignore".toList

def ofTag (text : List Char) : Condition :=
  if !text.isEmpty && text.all isTagChar then .tag text else never

/-- The condition of a part of a word: a tag, which may be negated. -/
def ofPart : List Char → Condition
  | ['!'] => never
  | '!' :: '!' :: _ => never
  | '!' :: rest => .not (ofTag rest)
  | text => ofTag text

/-- Combines conditions from left to right. -/
def combine (f : Condition → Condition → Condition) : List Condition → Condition
  | [] => never
  | c :: cs => cs.foldl f c

def maxOperators : Nat := 100

/-- The condition of words. One of them has to hold, and of each word all parts between commas. -/
def ofWords? (text : List Char) : Option Condition :=
  let parts := (words text).map (DocText.splitAt ',')
  let operators := parts.foldl (fun n ps => n + ps.length) 0 - 1
  if maxOperators < operators then none
  else some (combine .or (parts.map fun ps => combine .and (ps.map ofPart)))

def ofComment? (comment : List Char) : Option Condition :=
  match expressionText? comment with
  | some text => ofExpression? text
  | none => (wordsText? comment).bind ofWords?

/-! ## Texts -/

def parenthesized (needed : Bool) (text : List Char) : List Char :=
  if needed then '(' :: text ++ [')'] else text

def text : Condition → List Char
  | tag name => name
  | not c => '!' :: parenthesized (c matches .and .. | .or ..) c.text
  | and a b =>
    parenthesized (a matches .or ..) a.text ++ " && ".toList ++ parenthesized (b matches .or ..) b.text
  | or a b =>
    parenthesized (a matches .and ..) a.text ++ " || ".toList ++ parenthesized (b matches .and ..) b.text

/-- A condition, or its negation, in which only tags are negated. -/
def pushNot (negated : Bool) : Condition → Condition
  | tag name => if negated then .not (.tag name) else .tag name
  | not c => c.pushNot (!negated)
  | and a b =>
    if negated then .or (a.pushNot true) (b.pushNot true) else .and (a.pushNot false) (b.pushNot false)
  | or a b =>
    if negated then .and (a.pushNot true) (b.pushNot true) else .or (a.pushNot false) (b.pushNot false)

def conjuncts : Condition → List Condition
  | and a b => a.conjuncts ++ b.conjuncts
  | c => [c]

def disjuncts : Condition → List Condition
  | or a b => a.disjuncts ++ b.disjuncts
  | c => [c]

/-- Whether a condition is a tag or a negated one. -/
def isPlain : Condition → Bool
  | tag _ | not _ => true
  | _ => false

def joined (separator : Char) (texts : List (List Char)) : List Char :=
  (texts.intersperse [separator]).flatten

/-- The lines of words that say the same as a condition, if there are any. -/
def wordLines? (c : Condition) : Option (List (List Char)) :=
  let lines := (c.pushNot false).conjuncts.map fun d => d.disjuncts.map conjuncts
  if lines.all fun line => line.all (·.all isPlain) then
    let lines := if lines.all (·.length ≤ 1) then [[(lines.flatMap id).flatten]] else lines
    some (lines.map fun line =>
      "// +build ".toList ++ joined ' ' (line.map fun word => joined ',' (word.map text)))
  else none

/-- The lines of words for a condition. -/
def oldLines (c : Condition) : List (List Char) :=
  c.wordLines?.getD ["// +build error: expression too complex for // +build lines".toList]

end Condition

end FlowCompiler.Source
