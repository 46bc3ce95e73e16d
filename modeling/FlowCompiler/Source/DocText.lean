import FlowCompiler.Source.Tree
import FlowCompiler.Text.Blank
import FlowCompiler.Text.Cut

/-!
# Documentation comments

The text of a comment in front of a declaration has a structure: paragraphs, headings, lists, code, and
definitions of links. It is read and written again in its usual form. Two backquotes and two quotes stand for
quotation marks.
-/

namespace FlowCompiler.Source.DocText

/-! ## Lines -/

def splitAt (c : Char) : List Char → List (List Char)
  | [] => [[]]
  | d :: ds =>
    if d == c then [] :: splitAt c ds
    else
      match splitAt c ds with
      | part :: parts => (d :: part) :: parts
      | [] => [[d]]

def joinLines : List (List Char) → List Char
  | [] => []
  | [l] => l
  | l :: ls => l ++ '\n' :: joinLines ls

def leadingSpace (line : List Char) : List Char := line.takeWhile fun c => c == ' ' || c == '\t'

def isIndented (line : List Char) : Bool := line.head?.any fun c => c == ' ' || c == '\t'

def commonStart : List Char → List Char → List Char
  | a :: as, b :: bs => if a == b then a :: commonStart as bs else []
  | _, _ => []

def dropEmptyEnds (lines : List (List Char)) : List (List Char) :=
  ((lines.dropWhile List.isEmpty).reverse.dropWhile List.isEmpty).reverse

/-- Lines without their common indentation. Lines of blanks become empty, and those at both ends are
dropped. -/
def unindent (lines : List (List Char)) : List (List Char) :=
  match dropEmptyEnds lines with
  | [] => []
  | first :: rest =>
    let common := rest.foldl (fun p line => if line.isEmpty then p else commonStart p (leadingSpace line))
      (leadingSpace first)
    dropEmptyEnds ((first :: rest).map fun line =>
      let line := if common.isPrefixOf line then line.drop common.length else line
      if (Text.trimChars line).isEmpty then [] else line)

/-! ## Blocks -/

/-- A definition of a link. -/
structure LinkDef where
  text : List Char
  target : List Char
deriving DecidableEq, Repr

/-- An item of a list: its number, empty for a bullet, and its paragraphs. -/
structure Item where
  number : List Char
  paragraphs : List (List Char)
deriving Repr

/-- A block of a documentation text. -/
inductive Block where
  | paragraph (text : List Char)
  | heading (text : List Char)
  | code (lines : List (List Char))
  | list (items : List Item) (blankBefore blankBetween : Bool)
deriving Repr

/-- The kind of a block. -/
inductive Kind where
  | paragraph
  | heading
  | oldHeading
  | code
  | list
deriving DecidableEq, Repr

/-- The number and the rest of a line that starts an item of a list. A bullet has no number. -/
def listMarker? (line : List Char) : Option (List Char × List Char) :=
  let line := Text.trimChars line
  let found : Option (List Char × List Char) := match line with
    | [] => none
    | c :: rest =>
      if c == '•' || c == '*' || c == '+' || c == '-' then some ([], rest)
      else if c.isDigit then
        let number := line.takeWhile Char.isDigit
        match line.drop number.length with
        | d :: rest => if d == '.' || d == ')' then some (number, rest) else none
        | [] => none
      else none
  found.filter fun (_, rest) => isIndented rest && !(Text.trimChars rest).isEmpty

def isItem (line : List Char) : Bool := (listMarker? line).isSome

def isHeading (line : List Char) : Bool :=
  match line with
  | '#' :: c :: _ => (c == ' ' || c == '\t') && Text.trimChars line != ['#']
  | _ => false

/-- The characters that a heading without a mark may not have. -/
def notInHeading : List Char := ";:!?+*/=[]\x7b\x7d_^°&§~%#@<\">\\".toList

/-- Whether each quote of a text belongs to a final `'s` of a word. -/
def possessive : List Char → Bool
  | [] => true
  | '\'' :: rest => (rest == ['s'] || ['s', ' '].isPrefixOf rest) && possessive rest
  | _ :: rest => possessive rest

/-- Whether each dot of a text has something other than a blank after it. -/
def dotsInside : List Char → Bool
  | [] => true
  | '.' :: rest => rest.head?.any (· != ' ') && dotsInside rest
  | _ :: rest => dotsInside rest

/-- Whether a line between empty lines is a heading without a mark. -/
def isOldHeading (before : Option (List Char)) (line : List Char) (after : List (List Char)) : Bool :=
  let framed := before == some [] && match after with
    | [] :: next :: _ => (leadingSpace next).isEmpty
    | _ => false
  let text := Text.trimChars line
  framed && (text.head?.any fun c => Text.isLetter c && Text.isUpper c) &&
    (text.getLast?.any fun c => Text.isLetter c || Text.isDigit c) &&
    !(text.any notInHeading.contains) && possessive text && dotsInside text

/-- A run of lines of a kind, from `start` up to `stop`. -/
structure Span where
  start : Nat
  stop : Nat
  kind : Kind
deriving DecidableEq, Repr

/-- The first index from `i` on at which a condition does not hold. -/
def scanWhile (lines : Array (List Char)) (p : Nat → List Char → Bool) : Nat → Nat → Nat
  | 0, i => i
  | fuel + 1, i =>
    match lines[i]? with
    | some line => if p i line then scanWhile lines p fuel (i + 1) else i
    | none => i

/-- The index to which one can go back from `i` over lines with a property, at most to `start`. -/
def scanBack (lines : Array (List Char)) (p : List Char → Bool) (start : Nat) : Nat → Nat
  | 0 => 0
  | i + 1 => if start < i + 1 && (lines[i]?).any p then scanBack lines p start i else i + 1

/-- The end of an indented run. A list that is taken as indented ends at the first empty line. -/
def indentedEnd (lines : Array (List Char)) (forced : Nat) : Nat → Bool → Nat → Nat
  | 0, _, i => i
  | fuel + 1, itemsOk, i =>
    match lines[i]? with
    | none => i
    | some line =>
      if line.isEmpty || i < forced || isIndented line || (itemsOk && isItem line) then
        indentedEnd lines forced fuel (itemsOk && !line.isEmpty) (i + 1)
      else i

/-- The runs of lines from `i` on. Lines before `forced` count as indented. -/
def spans (lines : Array (List Char)) : Nat → Nat → Nat → List Span
  | 0, _, _ => []
  | fuel + 1, forced, i =>
    let size := lines.size
    let line (k : Nat) : List Char := (lines[k]?).getD []
    let start := scanWhile lines (fun _ l => l.isEmpty) size i
    if size ≤ start then []
    else if start < forced || isIndented (line start) then
      let after := indentedEnd lines forced size (isItem (line start) && start < forced) (start + 1)
      let stop := scanBack lines List.isEmpty start after
      let stop := if stop < size && (line stop).head? == some '\x7d' then stop + 1 else stop
      ⟨start, stop, if isItem (line start) then .list else .code⟩ :: spans lines fuel forced stop
    else
      let stop := scanWhile lines (fun _ l => !l.isEmpty && !isIndented l) size (start + 1)
      let follows := stop < size && !(line stop).isEmpty && !isItem (line stop)
      let lastLine := line (stop - 1)
      let opens := lastLine.getLast?.any fun c => c == '\x7b' || c == '\\'
      let (forced, stop) :=
        if follows && isItem lastLine then (stop, scanBack lines isItem start (stop - 1))
        else if follows && opens then (stop, stop - 1)
        else (forced, stop)
      if follows && start == stop && start < forced then spans lines fuel forced start
      else
        let before := if start = 0 then none else lines[start - 1]?
        let kind : Kind :=
          if stop - start == 1 && isHeading (line start) then .heading
          else if stop - start == 1 &&
              isOldHeading before (line start) [line (start + 1), line (start + 2)] &&
              start + 2 < size then .oldHeading
          else .paragraph
        ⟨start, stop, kind⟩ :: spans lines fuel forced stop

/-! ## Links -/

def schemes : List String := ["file", "ftp", "gopher", "http", "https", "mailto", "nntp"]

def indexOf? (part : List Char) : Nat → List Char → Option Nat
  | n, cs =>
    if part.isPrefixOf cs then some n
    else
      match cs with
      | [] => none
      | _ :: rest => indexOf? part (n + 1) rest

/-- Whether the part of an address before its `://` is a known scheme. -/
def isAddress (cs : List Char) : Bool :=
  match indexOf? "://".toList 0 cs with
  | some n => schemes.contains (String.ofList (cs.take n))
  | none => false

/-- The definition of a link that a line is. -/
def linkDef? (line : List Char) : Option LinkDef :=
  match line with
  | '[' :: _ =>
    (indexOf? [']', ':'] 0 line).bind fun i =>
      let mark := (line.drop (i + 2)).head?
      if line.length ≤ i + 3 || !(mark == some ' ' || mark == some '\t') then none
      else
        let target := Text.trimChars (line.drop (i + 3))
        if isAddress target then some ⟨(line.take i).drop 1, target⟩ else none
  | _ => none

/-- The block of a paragraph's lines, or the definitions of links that they are. -/
def paragraph (lines : List (List Char)) : Option (List Char) × List LinkDef :=
  match lines.mapM linkDef? with
  | some defs => (none, defs)
  | none => (some (joinLines lines), [])

/-- A list as it is read, last items and last lines first. -/
structure ListState where
  items : List Item := []
  lines : List (List Char) := []
  loose : Bool := false
  defs : List LinkDef := []

/-- Ends the paragraph of an item. Without lines, it defines no links and is no paragraph. -/
def ListState.close (s : ListState) : ListState :=
  match s.items with
  | [] => { s with lines := [] }
  | item :: items =>
    match paragraph s.lines.reverse with
    | (none, defs) => { s with lines := [], defs := s.defs ++ defs }
    | (some text, _) =>
      { s with items := { item with paragraphs := item.paragraphs ++ [text] } :: items, lines := [] }

def ListState.add (numbered : Bool) (s : ListState) (line : List Char) : ListState :=
  let (s, line) := match listMarker? line with
    | some (number, rest) =>
      if number.isEmpty != numbered then
        let s := s.close
        ({ s with items := ⟨number, []⟩ :: s.items }, rest)
      else (s, line)
    | none => (s, line)
  let line := Text.trimChars line
  if line.isEmpty then { s.close with loose := true }
  else { s with lines := line :: s.lines }

def listBlock (lines : List (List Char)) (apart : Bool) : Block × List LinkDef :=
  let numbered := ((lines.head?.bind listMarker?).map fun (n, _) => !n.isEmpty).getD false
  let s := (lines.foldl (ListState.add numbered) {}).close
  let items := s.items.reverse
  let loose := s.loose || items.any (·.paragraphs.length != 1)
  (.list items (apart || loose) loose, s.defs)

/-- The block of a run of lines, `before` being the end of the run before it. -/
def blockOf (lines : Array (List Char)) (before : Nat) (s : Span) : Option Block × List LinkDef :=
  let body := (lines.extract s.start s.stop).toList
  match s.kind with
  | .list =>
    let (b, defs) := listBlock body (before < s.start)
    (some b, defs)
  | .code => (some (.code (unindent body)), [])
  | .oldHeading => (some (.heading (Text.trimChars (body.headD []))), [])
  | .heading => (some (.heading (Text.trimChars ((body.headD []).drop 1))), [])
  | .paragraph =>
    let (text, defs) := paragraph body
    (text.map .paragraph, defs)

/-- The blocks of runs of lines, and the definitions of links. -/
def blocksOf (lines : Array (List Char)) (before : Nat) : List Span → List Block × List LinkDef
  | [] => ([], [])
  | s :: rest =>
    let (block, defs) := blockOf lines before s
    let (blocks, more) := blocksOf lines s.stop rest
    (block.toList ++ blocks, defs ++ more)

/-! ## Text -/

def isHost (c : Char) : Bool := c.isAlphanum || "_@-.[]:".toList.contains c

/-- Whether a character can stand inside an address but not at its end. -/
def isInner (c : Char) : Bool := ".,:;?!".toList.contains c

def isPathChar (c : Char) : Bool := c.isAlphanum || "$'()*+&#=@~_/-[]\x7b\x7d%".toList.contains c

/-- The length of the host at the start of a text, up to its last character that can end it. -/
def hostLength (found : Nat) : Nat → List Char → Nat
  | _, [] => found
  | n, c :: rest =>
    if isHost c then hostLength (if isInner c then found else n + 1) (n + 1) rest else found

/-- The length of the path at the start of a text. `opened` holds what closes the open brackets. -/
def pathLength (found : Nat) (opened : List Char) : Nat → List Char → Nat
  | _, [] => found
  | n, c :: rest =>
    if isInner c then pathLength found opened (n + 1) rest
    else if !isPathChar c then found
    else
      let next : Option (List Char) :=
        if c == '(' then some (')' :: opened)
        else if c == '\x7b' then some ('\x7d' :: opened)
        else if c == '[' then some (']' :: opened)
        else if c == ')' || c == '\x7d' || c == ']' then
          match opened with
          | o :: more => if o == c then some more else none
          | [] => none
        else some opened
      match next with
      | none => found
      | some opened => pathLength (if opened.isEmpty then n + 1 else found) opened (n + 1) rest

/-- The length of the address that a text starts with, zero if there is none. -/
def addressLength (cs : List Char) : Nat :=
  match schemes.find? fun s => (s ++ "://").toList.isPrefixOf cs with
  | none => 0
  | some s =>
    let scheme := s.length + 3
    match cs.drop scheme with
    | [] => 0
    | c :: rest =>
      if cs.length < 7 || !isHost c || isInner c then 0
      else
        let host := scheme + hostLength 1 1 (c :: rest |>.drop 1)
        pathLength host [] host (cs.drop host)

def wordLength (cs : List Char) : Nat :=
  match cs with
  | [] => 0
  | c :: _ =>
    if c.isDigit then 0
    else (cs.takeWhile fun d => d == '_' || d.isAlphanum || (127 < d.toNat && Text.isLetter d)).length

/-- Where at least three backquotes end that start at `i`. Those after the third are looked for as far
behind the start of the text again as the first one is. -/
def backquotesEnd (text : Array Char) (i : Nat) : Nat → Nat → Nat
  | 0, j => j
  | fuel + 1, j => if text[i + j]? == some '`' then backquotesEnd text i fuel (j + 1) else j

/-- The rest `cs` of a text from `i` on, with quotation marks outside addresses and words. -/
def quotedFrom (text : Array Char) : Nat → Nat → List Char → List Char
  | 0, _, cs => cs
  | _, _, [] => []
  | fuel + 1, i, c :: rest =>
    let cs := c :: rest
    let address := addressLength cs
    let skipped := if 0 < address then address else wordLength cs
    if 0 < skipped then cs.take skipped ++ quotedFrom text fuel (i + skipped) (cs.drop skipped)
    else
      match cs with
      | '`' :: '`' :: '`' :: _ =>
        let stop := backquotesEnd text i text.size (i + 3)
        cs.take (stop - i) ++ quotedFrom text fuel stop (cs.drop (stop - i))
      | '`' :: '`' :: more => '“' :: quotedFrom text fuel (i + 2) more
      | '\'' :: '\'' :: more => '”' :: quotedFrom text fuel (i + 2) more
      | _ => c :: quotedFrom text fuel (i + 1) rest

def shownText (cs : List Char) : List Char := quotedFrom cs.toArray (cs.length + 1) 0 cs

/-- The names in brackets in a text. `inside` is the current one, last character first. -/
def bracketNames (inside : List Char) (opened : Bool) : List Char → List (List Char)
  | [] => []
  | '[' :: rest => bracketNames inside true rest
  | ']' :: rest =>
    if opened then inside.reverse :: bracketNames [] false rest else bracketNames [] false rest
  | c :: rest =>
    let c := if c == '\n' || c == '\t' then ' ' else c
    bracketNames (if opened then c :: inside else inside) opened rest

/-- The first definition for each of the names, and the other definitions. -/
def partitionDefs (names : List (List Char)) (seen : List (List Char)) :
    List LinkDef → List LinkDef × List LinkDef
  | [] => ([], [])
  | d :: ds =>
    let (used, unused) := partitionDefs names (d.text :: seen) ds
    if names.contains d.text && !seen.contains d.text then (d :: used, unused) else (used, d :: unused)

/-! ## Printing -/

def Block.texts : Block → List (List Char)
  | paragraph t => [t]
  | list items _ _ => items.flatMap (·.paragraphs)
  | _ => []

/-- A text whose lines after the first are indented. -/
def indentMore (cs : List Char) : List Char :=
  cs.flatMap fun c => if c == '\n' then '\n' :: [' ', ' ', ' ', ' '] else [c]

def itemText : List (List Char) → List Char
  | [] => []
  | [p] => indentMore (shownText p) ++ ['\n']
  | p :: ps => indentMore (shownText p) ++ '\n' :: '\n' :: [' ', ' ', ' ', ' '] ++ itemText ps

def itemTexts (loose : Bool) : List Item → List Char
  | [] => []
  | i :: is =>
    let mark := if i.number.isEmpty then [' ', '-', ' '] else i.number ++ ['.', ' ']
    ' ' :: mark ++ itemText i.paragraphs ++
      (if loose && !is.isEmpty then ['\n'] else []) ++ itemTexts loose is

def Block.text : Block → List Char
  | paragraph t => shownText t ++ ['\n']
  | heading t => '#' :: ' ' :: t ++ ['\n']
  | code lines => lines.flatMap fun l => (if l.isEmpty then [] else '\t' :: l) ++ ['\n']
  | list items _ loose => itemTexts loose items

/-- Whether an empty line stands before a block. -/
def Block.apart : Block → Bool
  | list _ before _ => before
  | _ => true

def blockTexts : List Block → List Char
  | [] => []
  | b :: bs =>
    b.text ++ (if bs.head?.any Block.apart then ['\n'] else []) ++ blockTexts bs

/-- The lines of definitions of links, after an empty line. -/
def defTexts (defs : List LinkDef) : List Char :=
  if defs.isEmpty then []
  else '\n' :: defs.flatMap fun d => '[' :: d.text ++ [']', ':', ' '] ++ d.target ++ ['\n']

/-- A documentation text in its usual form, unless nothing is left of it. -/
def usual? (text : List Char) : Option (List Char) :=
  let lines := (unindent (splitAt '\n' text)).toArray
  let (blocks, defs) := blocksOf lines 0 (spans lines (2 * lines.size + 2) 0 0)
  if blocks.isEmpty then none
  else
    let names := (blocks.flatMap Block.texts).flatMap (bracketNames [] false)
    let (used, unused) := partitionDefs names [] defs
    some (blockTexts blocks ++ defTexts used ++ defTexts unused)

/-! ## Comments -/

/-- Whether each line of a text after its first starts with an asterisk. -/
def allStars (text : List Char) : Bool :=
  ((splitAt '\n' text).drop 1).all fun line => (line.drop (leadingSpace line).length).head? == some '*'

/-- Whether a line comment, without its slashes, is an instruction to a tool. -/
def isDirective (text : List Char) : Bool :=
  let small (c : Char) : Bool := c.isLower || c.isDigit
  ["line ", "extern ", "export "].any (fun s => s.toList.isPrefixOf text) ||
    match Text.cut? ':' text with
    | some (before, after) => !before.isEmpty && before.all small && after.head?.any small
    | none => false

def lineComments (place : Place) (text : List Char) : List Tree.Comment :=
  ((splitAt '\n' text).dropLast).map fun line =>
    let shown := match line with
      | [] => []
      | '\t' :: _ => line
      | _ => ' ' :: line
    ⟨place, String.ofList ('/' :: '/' :: shown)⟩

/-- A group of comments in front of a declaration, in its usual form. -/
def usualGroup (group : Tree.Group) : Tree.Group :=
  match group with
  | [] => []
  | first :: rest =>
    let text := first.text.toList
    if text.take 2 == ['/', '*'] then
      if !rest.isEmpty || !text.contains '\n' || allStars text then group
      else
        match usual? ((text.drop 2).take (text.length - 4)) with
        | none => []
        | some shown => [⟨first.place, String.ofList ('/' :: '*' :: '\n' :: shown ++ ['*', '/'])⟩]
    else if group.all fun c => c.text.toList.take 2 == ['/', '/'] then
      let bodies := group.map fun c => (c, c.text.toList.drop 2)
      let (directives, lines) := bodies.partition fun (_, body) => isDirective body
      let body := lines.flatMap fun (_, line) =>
        (if line.head? == some ' ' then line.drop 1 else line) ++ ['\n']
      if body.isEmpty then group
      else
        match usual? body with
        | none => []
        | some shown =>
          lineComments first.place shown ++
            if directives.isEmpty then []
            else ⟨first.place, "//"⟩ :: directives.map fun (c, _) => ⟨first.place, c.text⟩
    else group

end FlowCompiler.Source.DocText
