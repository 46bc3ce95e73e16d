import FlowCompiler.Source.Tree

/-!
# Lexemes with their comments

Before a text is read as a tree, its comments are taken out from between its lexemes and put together to
groups. A lexeme knows the group that ends on the line before it, which documents what starts with it, and
the group that ends the line of the lexeme before it.
-/

namespace FlowCompiler.Source

/-- The places where the lines of a text start. -/
structure LineTable where
  starts : Array Place

namespace LineTable

/-- The places after the line ends of a text, from a place on. -/
def startsAfter (place : Place) : List Char → List Place
  | [] => []
  | c :: cs =>
    let after := place + c.utf8Size
    if c == '\n' then after :: startsAfter after cs else startsAfter after cs

def ofText (s : String) : LineTable := ⟨(1 :: startsAfter 1 s.toList).toArray⟩

/-- The number of starts below `hi` that are not after a place, at least `lo`. -/
def countUpTo (starts : Array Place) (place : Place) : Nat → Nat → Nat → Nat
  | 0, lo, _ => lo
  | fuel + 1, lo, hi =>
    if lo < hi then
      let mid := (lo + hi) / 2
      if (starts[mid]?).any (· ≤ place) then countUpTo starts place fuel (mid + 1) hi
      else countUpTo starts place fuel lo mid
    else lo

/-- The line of a place, counted from one; zero for no place. -/
def lineOf (t : LineTable) (place : Place) : Nat :=
  if place = 0 then 0 else countUpTo t.starts place (t.starts.size + 1) 0 t.starts.size

/-- The column of a place in its line, in bytes, counted from one. -/
def columnOf (t : LineTable) (place : Place) : Nat :=
  match t.starts[t.lineOf place - 1]? with
  | some start => place - start + 1
  | none => 0

end LineTable

/-- A lexeme with its comments: `lead` on the lines directly before it, `line` behind the lexeme before it.
-/
structure Entry where
  lexeme : Lexeme
  lead : Option Tree.Group := none
  line : Option Tree.Group := none
deriving Inhabited

namespace Entry

def lineEnds (s : String) : Nat := s.toList.countP (· == '\n')

/-- Takes a group of comments, at most `gap` lines apart. Gives the group, its last line, and what follows.
-/
def takeGroup (t : LineTable) (gap : Nat) (endLine : Nat) : List Lexeme → Tree.Group × Nat × List Lexeme
  | [] => ([], endLine, [])
  | l :: ls =>
    let line := t.lineOf l.place
    if l.tok == .comment && line ≤ endLine + gap then
      let (group, endLine, rest) := takeGroup t gap (line + lineEnds l.text) ls
      (⟨l.place, l.text⟩ :: group, endLine, rest)
    else ([], endLine, l :: ls)

/-- Takes all groups in front of a lexeme. Gives them with the last line of the last one. -/
def takeGroups (t : LineTable) : Nat → List Lexeme → List Tree.Group × Option Nat × List Lexeme
  | 0, ls => ([], none, ls)
  | _, [] => ([], none, [])
  | fuel + 1, l :: ls =>
    if l.tok == .comment then
      let (group, endLine, rest) := takeGroup t 1 (t.lineOf l.place) (l :: ls)
      let (groups, last, rest) := takeGroups t fuel rest
      (group :: groups, last <|> some endLine, rest)
    else ([], none, l :: ls)

/-- Takes the group at the end of the line of the lexeme before. -/
def takeLineGroup (t : LineTable) (before : Nat) (ls : List Lexeme) :
    Option Tree.Group × Bool × List Lexeme :=
  match ls with
  | l :: _ =>
    if l.tok == .comment && t.lineOf l.place == before then
      let (group, endLine, rest) := takeGroup t 0 (t.lineOf l.place) ls
      let ends := match rest with
        | r :: _ => t.lineOf r.place != endLine || r.tok == .sign ";" || r.tok == .stop
        | [] => true
      (some group, ends, rest)
    else (none, false, ls)
  | [] => (none, false, [])

/-- The entries of lexemes, after one on the line `before`, and all groups of comments. -/
def arrange (t : LineTable) : Nat → Nat → List Lexeme → List Entry × List Tree.Group
  | 0, _, _ => ([], [])
  | fuel + 1, before, ls =>
    let (line, ends, ls) := takeLineGroup t before ls
    let (groups, last, ls) := takeGroups t ls.length ls
    match ls with
    | [] => ([], line.toList ++ groups)
    | l :: rest =>
      let here := t.lineOf l.place
      let lead := if last.any (· + 1 == here) then groups.getLast? else none
      let (entries, more) := arrange t fuel here rest
      (⟨l, lead, if ends then line else none⟩ :: entries, line.toList ++ groups ++ more)

/-- The entries of all lexemes of a text, and all groups of its comments. -/
def ofLexemes (t : LineTable) (ls : List Lexeme) : List Entry × List Tree.Group :=
  arrange t (ls.length + 1) 0 ls

end Entry

end FlowCompiler.Source
