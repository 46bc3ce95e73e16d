import FlowCompiler.Source.Pen

/-!
# Columns

Turns what a pen has written into text. A cell is what stands between two column marks; the cells of
neighbouring lines at the same place form a column, which is as wide as its widest cell and a blank. A
column whose cells are all empty has no width. Tabs before a line stay tabs. Blanks at the ends of lines are
dropped, except in literals.
-/

namespace FlowCompiler.Source.Columns

/-- A cell of a line, which a tab may have ended. -/
structure Cell where
  ink : List Ink := []
  width : Nat := 0
  tab : Bool := false

/-- A line of cells, the last of which is not part of a column. -/
abbrev Line := List Cell

def widthOf : Ink → Nat
  | .text s | .literal s => s.length
  | .blank => 1
  | _ => 0

def cellOf (ink : List Ink) (tab : Bool) : Cell := ⟨ink, ink.foldl (fun n i => n + widthOf i) 0, tab⟩

/-- Lines in sections, which end with a line that starts new columns or has none. -/
structure Page where
  done : List (List Line) := []
  lines : List Line := []
  cells : List Cell := []
  ink : List Ink := []

namespace Page

def endCell (p : Page) (tab : Bool) : Page :=
  { p with cells := cellOf p.ink.reverse tab :: p.cells, ink := [] }

def endSection (p : Page) : Page := { p with done := p.lines.reverse :: p.done, lines := [] }

def endLine (p : Page) (anew : Bool) : Page :=
  let p := p.endCell false
  let single := p.cells.length == 1
  let p := { p with lines := p.cells.reverse :: p.lines, cells := [] }
  if anew || single then p.endSection else p

def add (p : Page) : Ink → Page
  | .tab => p.endCell true
  | .column => p.endCell false
  | .newline => p.endLine false
  | .section => p.endLine true
  | ink => { p with ink := ink :: p.ink }

/-- The sections of a page; a last line without an end counts as well. -/
def sections (p : Page) : List (List Line) :=
  let p := if p.ink.isEmpty && p.cells.isEmpty then p else p.endLine true
  (p.endSection).done.reverse

end Page

/-- Text of a line: characters that may be dropped at its end, and those that stay. -/
structure Drop where
  char : Char
  fixed : Bool

def plain (s : String) : List Drop := s.toList.map (⟨·, false⟩)

def blanks (n : Nat) : List Drop := List.replicate n ⟨' ', false⟩

def inkText : Ink → List Drop
  | .text s => plain s
  | .literal s => s.toList.map (⟨·, true⟩)
  | .blank => blanks 1
  | _ => []

def tabWidth : Nat := 8

/-- The tabs that fill a column of a width. -/
def tabs (width : Nat) : List Drop := List.replicate ((width + tabWidth - 1) / tabWidth) ⟨'\t', false⟩

/-- The cells of a line, filled up to the widths of their columns: with tabs while only empty cells were
seen (`indenting`), then with blanks. -/
def lineText (indenting : Bool) : List Nat → Line → List Drop
  | _, [] => []
  | widths, c :: cs =>
    let own := c.ink.flatMap inkText
    match widths with
    | [] => own ++ lineText false [] cs
    | w :: ws =>
      if c.ink.isEmpty then (if indenting then tabs w else blanks w) ++ lineText indenting ws cs
      else own ++ blanks (w - c.width) ++ lineText false ws cs

def columnWidth (cells : List Cell) : Nat :=
  let widest := cells.foldl (fun w c => max w (c.width + 1)) 0
  let empty := cells.all fun c => c.width = 0 && !c.tab
  if empty then 0 else widest

/-- The texts of lines, in which the columns before `column` have the given widths. -/
def linesText : Nat → List Nat → List Line → List (List Drop)
  | 0, _, _ => []
  | _, _, [] => []
  | fuel + 1, widths, l :: ls =>
    let column := widths.length
    let has (line : Line) : Bool := column + 1 < line.length
    if has l then
      let block := (l :: ls).takeWhile has
      let cells := block.filterMap (·[column]?)
      linesText fuel (widths ++ [columnWidth cells]) block ++
        linesText fuel widths ((l :: ls).dropWhile has)
    else lineText true widths l :: linesText fuel widths ls

/-- A line without the blanks at its end. -/
def trimmed (line : List Drop) : List Char :=
  let droppable (d : Drop) : Bool := !d.fixed && (d.char == ' ' || d.char == '\t')
  ((line.reverse.dropWhile droppable).reverse).map (·.char)

def sectionText (lines : List Line) : List Char :=
  let cells := lines.foldl (fun n l => n + l.length) 0
  (linesText (2 * cells + lines.length + 2) [] lines).flatMap fun l => trimmed l ++ ['\n']

def text (ink : Array Ink) : String :=
  let page := ink.foldl Page.add ({} : Page)
  String.ofList (page.sections.flatMap sectionText)

end FlowCompiler.Source.Columns
