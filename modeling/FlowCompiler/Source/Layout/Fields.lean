import FlowCompiler.Source.Layout.Basic

/-!
# Layout of parameters and fields
-/

namespace FlowCompiler.Source.Tree

open Write

namespace Layout

/-- Whether a name before a type could be read together with it as an expression. -/
def combinesWithName : Expr → Bool
  | .mk _ _ (.star e) => !e.isTypeElement
  | .mk _ _ (.binary left _ _ right) => combinesWithName left && !right.isTypeElement
  | _ => false

/-- Writes the parameters of a list, the lines of which are broken as in the source. -/
def paramFields (l : Layout) : Bool → Nat → Space → List FieldDecl → Write (Nat × Space)
  | _, line, space, [] => return (line, space)
  | first, line, space, f :: fs => do
    let p ← get
    let begins := p.lineFor f.start
    let needsBreak := 0 < line && line < begins
    if !first then
      if !needsBreak then at' f.start
      sign ","
    let broken ← if needsBreak then lineBreak begins 0 space true else pure 0
    let space := if 0 < broken then Space.ignore else space
    if broken = 0 && !first then hold .blank
    if !f.names.isEmpty then
      l.identList f.names (space == .indent)
      hold .blank
    l.expr f.type.bare
    l.paramFields false (p.lineFor f.stop) space fs

def parameters (l : Layout) (fields : FieldList) (mode : ParamMode) : Write Unit := do
  let (opening, closing) := if mode = .plain then ("(", ")") else ("[", "]")
  at' fields.opening
  sign opening
  match fields.fields with
  | [] => pure ()
  | first :: _ =>
    let (line, space) ← l.paramFields true ((← get).lineFor fields.opening) .indent fields.fields
    let closes := (← get).lineFor fields.closing
    if 0 < line && line < closes then
      sign ","
      let _ ← lineBreak closes 0 .ignore true
    else if mode = .typesOfType && fields.count = 1 && combinesWithName first.type.bare then sign ","
    if space == .ignore then hold .unindent
  at' fields.closing
  sign closing

def signature (l : Layout) : FuncType → Write Unit
  | .mk _ typeParams params results => do
    match typeParams with
    | some t => l.parameters t .typesOfFunc
    | none => pure ()
    l.parameters params .plain
    match results with
    | none => pure ()
    | some r =>
      if 0 < r.count then
        hold .blank
        match r.fields with
        | [f] => if f.names.isEmpty then l.expr f.type.bare else l.parameters r .plain
        | _ => l.parameters r .plain

def methodType? (f : FieldDecl) : Option FuncType :=
  match f.type.form with
  | .funcType t => some t
  | _ => none

/-- The greatest size of a struct or an interface on one line. -/
def smallFields : Nat := 30

/-- The number of characters of names with commas between them, counted up to a limit. -/
def namesSize (limit : Nat) (size : Nat) (first : Bool) : List Ident → Nat
  | [] => size
  | i :: is =>
    let size := size + (if first then 0 else 2) + i.name.length
    if limit ≤ size then size else namesSize limit size false is

/-- Whether fields fit on one line: there is only one, and it is small. -/
def isOneLine (l : Layout) (fields : List FieldDecl) : Write Bool := do
  match fields with
  | [f] =>
    if f.tag.isSome || f.comment.isSome then return false
    let names := if 0 < namesSize smallFields 0 true f.names then 1 else 0
    let type ← l.nodeSize (.expr f.type) smallFields
    return names + type ≤ smallFields
  | _ => return false

def method (l : Layout) (f : FieldDecl) : Write Unit := do
  match f.names, methodType? f with
  | n :: _, some t =>
    ident n
    l.signature t
  | _, _ => l.expr f.type

def inlineNames : Bool → List Ident → Write Unit
  | _, [] => return ()
  | first, i :: is => do
    if !first then
      sign ","
      hold .blank
    ident i
    inlineNames false is

def structFields (l : Layout) (sep : Space) (mark : Option Nat) : List FieldDecl → Write Unit
  | [] => return ()
  | f :: fs => do
    if mark.isSome then
      let _ ← lineBreak ((← get).lineFor f.start) 1 .ignore (0 < (← linesSince mark))
    ownComment f.doc
    let mark ← Write.mark
    let extra ← if !f.names.isEmpty then do
        l.identList f.names false
        hold sep
        l.expr f.type
        pure 1
      else do
        l.expr f.type
        pure 2
    let extra ← match f.tag with
      | some (p, t) => do
        if !f.names.isEmpty && sep == .column then hold sep
        hold sep
        at' p
        literal .string t
        pure 0
      | none => pure extra
    if f.comment.isSome then
      for _ in List.range extra do hold sep
      ownComment f.comment
    l.structFields sep (some mark) fs

def interfaceFields (l : Layout) (mark : Option Nat) : List FieldDecl → Write Unit
  | [] => return ()
  | f :: fs => do
    if mark.isSome then
      let _ ← lineBreak ((← get).lineFor f.start) 1 .ignore (0 < (← linesSince mark))
    ownComment f.doc
    let mark ← Write.mark
    l.method f
    ownComment f.comment
    l.interfaceFields (some mark) fs

/-- Writes the fields of a struct or the elements of an interface. -/
def fieldList (l : Layout) (fields : FieldList) (isStruct : Bool) : Write Unit := do
  let p ← get
  let commented := p.commentBefore (p.spot fields.closing)
  let oneLine := p.lineFor fields.opening == p.lineFor fields.closing
  if !commented && oneLine && fields.fields.isEmpty then
    at' fields.opening
    sign "\x7b"
    at' fields.closing
    sign "\x7d"
  else if !commented && oneLine && (← l.isOneLine fields.fields) then
    at' fields.opening
    sign "\x7b"
    hold .blank
    match fields.fields with
    | f :: _ =>
      if isStruct then
        inlineNames true f.names
        if !f.names.isEmpty then hold .blank
        l.expr f.type
      else l.method f
    | [] => pure ()
    hold .blank
    at' fields.closing
    sign "\x7d"
  else
    hold .blank
    at' fields.opening
    sign "\x7b"
    hold .indent
    if commented || !fields.fields.isEmpty then hold .section
    if isStruct then
      l.structFields (if fields.fields.length = 1 then .blank else .column) none fields.fields
    else l.interfaceFields none fields.fields
    hold .unindent
    hold .section
    at' fields.closing
    sign "\x7d"

end Layout

end FlowCompiler.Source.Tree
