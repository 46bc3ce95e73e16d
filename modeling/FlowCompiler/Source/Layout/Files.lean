import FlowCompiler.Source.BuildLines
import FlowCompiler.Source.Layout.Stmts

/-!
# Layout of declarations and files

`layout` ties the writers together; its argument bounds how deeply nodes may be nested.
-/

namespace FlowCompiler.Source.Tree

open Write

namespace Layout

/-! ## Declarations -/

/-- Which variables keep a column for types: those with values in a run in which one has a type. -/
def typeColumns : List Spec → List Bool
  | specs =>
    let parts := specs.map fun
      | .value _ _ _ t vs _ => (t.isSome, !vs.isEmpty)
      | _ => (false, false)
    go [] false parts
where
  /-- Ends the run of variables with values that are counted in `run`. -/
  go (run : List Unit) (typed : Bool) : List (Bool × Bool) → List Bool
    | [] => run.map fun _ => typed
    | (hasType, hasValue) :: rest =>
      if hasValue then
        let typed := (!run.isEmpty && typed) || hasType
        go (() :: run) typed rest
      else (run.map fun _ => typed) ++ false :: go [] false rest

/-- Writes the variables of a declaration, with types and values in columns. -/
def valueSpec (l : Layout) (keepType : Bool) : Spec → Write Unit
  | .value _ doc names type values comment => do
    ownComment doc
    l.identList names false
    let typed := type.isSome || keepType
    if typed then hold .column
    match type with
    | some t => l.expr t
    | none => pure ()
    if !values.isEmpty then
      hold .column
      sign "="
      hold .blank
      l.exprList 0 values {} 0
    if comment.isSome then
      let extra := 3 - (if typed then 1 else 0) - (if values.isEmpty then 0 else 1)
      for _ in List.range extra do hold .column
      ownComment comment
  | _ => return ()

/-- Writes a part of a declaration, one of `count`. -/
def specRule (l : Layout) (count : Nat) (indent : Bool) : Spec → Write Unit
  | .imported _ doc alias' pathPlace path comment => do
    ownComment doc
    match alias' with
    | some i =>
      ident i
      hold .blank
    | none => pure ()
    at' pathPlace
    literal .string path
    ownComment comment
  | .value _ doc names type values comment => do
    ownComment doc
    l.identList names indent
    match type with
    | some t =>
      hold .blank
      l.expr t
    | none => pure ()
    if !values.isEmpty then
      hold .blank
      sign "="
      hold .blank
      l.exprList 0 values {} 0
    ownComment comment
  | .type _ doc n typeParams equals type comment => do
    ownComment doc
    ident n
    match typeParams with
    | some t => l.parameters t .typesOfType
    | none => pure ()
    hold (if count = 1 then .blank else .column)
    if equals != 0 then
      sign "="
      hold .blank
    l.expr type
    ownComment comment

def specLines (write : Spec → Bool → Write Unit) (mark : Option Nat) : List (Spec × Bool) → Write Unit
  | [] => return ()
  | (s, keepType) :: rest => do
    if mark.isSome then
      let _ ← lineBreak ((← get).lineFor s.start) 1 .ignore (0 < (← linesSince mark))
    let mark ← Write.mark
    write s keepType
    specLines write (some mark) rest

def genDeclRule (l : Layout) : GenDecl → Write Unit
  | .mk start _ doc word lparen specs rparen => do
    ownComment doc
    at' start
    token word
    hold .blank
    match lparen, specs with
    | 0, [s] => l.specRule 1 true s
    | _, _ =>
      at' lparen
      sign "("
      if !specs.isEmpty then
        hold .indent
        hold .section
        let values := word == .keyword "const" || word == .keyword "var"
        if 1 < specs.length && values then
          specLines (fun s keepType => l.valueSpec keepType s) none (specs.zip (typeColumns specs))
        else specLines (fun s _ => l.specRule specs.length false s) none (specs.map (·, false))
        hold .unindent
        hold .section
      at' rparen
      sign ")"

def decl (l : Layout) : Decl → Write Unit
  | .gen d => do
    match d with
    | .mk start .. => at' start
    l.genDeclRule d
  | .func start _ doc receiver n type body => do
    ownComment doc
    at' start
    keyword "func"
    hold .blank
    let column := (← get).out.column - 5
    match receiver with
    | some r =>
      l.parameters r .plain
      hold .blank
    | none => pure ()
    ident n
    l.signature type
    match body with
    | some b => l.funcBody (← distance start column) .column b
    | none => pure ()

/-- Writes the declarations of a file, after one with the given keyword. -/
def declLines (l : Layout) (before : Tok) : List Decl → Write Unit
  | [] => return ()
  | d :: ds => do
    let word := d.keyword
    let p ← get
    let least := if before != word || d.doc.isSome then 2 else 1
    let several := p.lineFor d.start < p.lineFor d.stop
    let _ ← lineBreak (p.lineFor d.start) least .ignore (word == .keyword "func" && several)
    l.decl d
    l.declLines word ds

def file (l : Layout) (f : File) : Write Unit := do
  at' f.start
  keyword "package"
  hold .blank
  ident f.name
  l.declLines .none f.decls
  hold .newline

def empty : Layout where
  expr1 _ _ _ := return ()
  stmt _ _ := return ()
  genDecl _ := return ()

end Layout

/-- The writers, for nodes that are nested at most as deeply as the argument says. -/
def layout : Nat → Layout
  | 0 => .empty
  | depth + 1 => {
    expr1 := fun e level d p => (layout depth).exprRule e level d p
    stmt := fun s closes p => (layout depth).stmtRule s closes p
    genDecl := fun d p => (layout depth).genDeclRule d p }

def File.ink (f : File) (lines : LineTable) (depth : Nat) : Array Ink :=
  let pen : Pen := {
    lines := lines
    ownComments := f.comments.isEmpty
    usualNumbers := true
    comments := f.comments }
  let write : Write Unit := do
    modify Pen.nextGroup
    (layout depth).file f
    modify fun p => { p with endsStatement := false }
    let _ ← flush ⟨farAway, farAway, 0⟩ .stop
  let done := (write.run pen).2
  (BuildLines.gather done.output.toList done.expressions.reverse done.words.reverse).toArray

end FlowCompiler.Source.Tree
