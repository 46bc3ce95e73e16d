import FlowCompiler.Source.Pen

/-!
# The places of build conditions

Comments with build conditions have to stand before the package clause. Wherever a pen has written some, they
are put together in a block of their own at the start of the file.
-/

namespace FlowCompiler.Source.BuildLines

def endsLine (i : Ink) : Bool := i == .newline || i == .section

/-- The line at the start of ink, its end included. -/
def lineOf (ink : List Ink) : List Ink :=
  let line := ink.takeWhile fun i => !endsLine i
  ink.take (line.length + 1)

def commentOf : List Ink → List Char
  | .literal s :: _ => s.toList
  | _ => []

def endsEmpty (ink : List Ink) : Bool :=
  match ink.reverse with
  | a :: b :: _ => endsLine a && endsLine b
  | _ => false

/-- Adds lines to others, without two empty lines one after the other. -/
def append (before lines : List Ink) : List Ink :=
  match lines with
  | [] => before
  | i :: rest => if endsLine i && (before.isEmpty || endsEmpty before) then before ++ rest else before ++ lines

/-- The place after the last empty line among the empty lines and line comments at the start of a file.
`place` is where `ink` starts, `found` the last place found. -/
def startBlock : Nat → Nat → Nat → List Ink → Nat
  | 0, _, found, _ => found
  | fuel + 1, place, found, ink =>
    let space := (ink.takeWhile fun i => i == .blank || i == .tab).length
    let rest := ink.drop space
    let comment := "//".toList.isPrefixOf (commentOf rest)
    let inside := if comment then (rest.takeWhile fun i => !endsLine i).length else 0
    match rest.drop inside with
    | i :: more =>
      if endsLine i then
        let next := place + space + inside + 1
        startBlock fuel next (if comment then found else next) more
      else found
    | [] => found

/-- Ink from a place on, without the lines that start at the given places. -/
def without (ink : List Ink) (start : Nat) (before : List Ink) : List Nat → List Ink
  | [] => append before (ink.drop start)
  | place :: places =>
    if place < start then without ink start before places
    else
      let kept := (ink.drop start).take (place - start)
      without ink (place + (lineOf (ink.drop place)).length) (append before kept) places

/-- The condition of a file: that of its only expression, or of all words. -/
def condition? (ink : List Ink) (expressions words : List Nat) : Option Condition :=
  let conditionAt (place : Nat) : Option Condition := Condition.ofComment? (commentOf (ink.drop place))
  match expressions with
  | [] => (words.mapM conditionAt).map (Condition.combine .and)
  | [place] => conditionAt place
  | _ => none

/-- The block of the conditions, or the lines as they are if none is understood. -/
def block (ink : List Ink) (expressions words : List Nat) : List Ink :=
  match condition? ink expressions words with
  | none => (expressions ++ words).flatMap (fun place => lineOf (ink.drop place)) ++ [.section]
  | some c =>
    let lines := ("//go:build ".toList ++ c.text) :: if words.isEmpty then [] else c.oldLines
    (lines.flatMap fun l => [.literal (String.ofList l), .section]) ++ [.section]

/-- Moves conditions, of the two forms at the given places, to the start of a file. -/
def gather (ink : List Ink) (expressions words : List Nat) : List Ink :=
  if expressions.isEmpty && words.isEmpty then ink
  else
    let found := startBlock (ink.length + 1) 0 0 ink
    let earlier (places : List Nat) : Option Nat := places.head?.filter (· < found)
    let start := (earlier expressions <|> earlier words).getD found
    let rest := without ink start [] ((expressions ++ words).mergeSort (· ≤ ·))
    let rest := if endsEmpty rest then rest.dropLast else rest
    ink.take start ++ block ink expressions words ++ rest

end FlowCompiler.Source.BuildLines
