import FlowCompiler.Source.DocText

/-!
# Block comments over several lines

The lines of a block comment are moved with the code around it. What they have in common at their starts is
taken off, so that indentation can be put in its place.
-/

namespace FlowCompiler.Source.Remark

def isBlankLine (line : List Char) : Bool := line.all (· ≤ ' ')

/-- The blanks and asterisks that two lines start with. -/
def commonStart : List Char → List Char → List Char
  | a :: as, b :: bs => if a == b && (a ≤ ' ' || a == '*') then a :: commonStart as bs else []
  | _, _ => []

def dropEnd (ending cs : List Char) : List Char :=
  if ending.isSuffixOf cs then cs.take (cs.length - ending.length) else cs

/-- The common start of the inner lines with text, or of the last line if there are none. -/
def innerStart (inner : List (List Char)) (last : List Char) : List Char :=
  match inner.filter fun l => !isBlankLine l with
  | [] => commonStart last last
  | l :: ls => ls.foldl commonStart (commonStart l l)

/-- The blanks at the end of a common start that belong to the text: up to three, or a tab. -/
def withoutIndent (start : List Char) : List Char :=
  let blanks := min 3 ((start.reverse.takeWhile (· == ' ')).length)
  if 0 < blanks then start.take (start.length - blanks)
  else if start.getLast? == some '\t' then start.dropLast
  else start

/-- What the text of the first line is indented by, seen from the opening. -/
def firstIndent (first : List Char) : List Char :=
  let space := (first.drop 2).takeWhile (· ≤ ' ')
  if space.head? == some '\t' then space else ' ' :: ' ' :: space

/-- The lines of a comment without their common start. -/
def strip (lines : List (List Char)) : List (List Char) :=
  match lines with
  | [] => []
  | [l] => [l]
  | first :: rest =>
    let inner := rest.dropLast
    let last := rest.getLast?.getD []
    let common := innerStart inner last
    let stars := common.contains '*'
    let common :=
      if stars then dropEnd [' '] (common.takeWhile (· != '*'))
      else if isBlankLine (first.drop 2) then withoutIndent common
      else dropEnd (firstIndent first) common
    let closing := (DocText.indexOf? ['*', '/'] 0 last).getD last.length
    let alone := isBlankLine (last.take closing)
    let last := if alone then common ++ (if stars then [' ', '*', '/'] else ['*', '/']) else last
    let common := if alone then common else commonStart common last
    let inner := inner.map fun l => if isBlankLine l then [] else l
    first :: (inner ++ [last]).map fun l => if l.isEmpty then l else l.drop common.length

def trimEnd (cs : List Char) : List Char := (cs.reverse.dropWhile Text.isBlank).reverse

/-- The lines of a block comment. For one that has been indented, so are its other lines. -/
def blockLines (text : String) (moved : Bool) : List (List Char) :=
  match DocText.splitAt '\n' text.toList with
  | [] => []
  | first :: rest => strip (first :: if moved then rest.map ([' ', ' ', ' '] ++ ·) else rest)

end FlowCompiler.Source.Remark
