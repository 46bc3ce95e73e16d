import FlowCompiler.Source.Layout.Exprs

/-!
# Layout of statements
-/

namespace FlowCompiler.Source.Tree

open Write

namespace Layout

def isTypeName : Expr → Bool
  | .mk _ _ (.ident _) => true
  | .mk _ _ (.selector e _) => isTypeName e
  | _ => false

mutual

/-- Whether an expression has, outside of parentheses, a literal whose type is a name. `fuel` bounds the
search. -/
def hasBareLiteral : Nat → Expr → Bool
  | 0, _ => false
  | fuel + 1, e =>
    let look := hasBareLiteral fuel
    let fieldTypes (fs : FieldList) : Bool := fs.fields.any fun f => look f.type
    let funcTypes : FuncType → Bool
      | .mk _ t p r => t.any fieldTypes || fieldTypes p || r.any fieldTypes
    match e.form with
    | .composite (some t) _ _ _ => isTypeName t
    | .composite none _ _ _ => false
    | .paren .. => false
    | .ellipsis t => t.any look
    | .func t b => funcTypes t || b.body.any (hasBareLiteralIn fuel)
    | .selector x _ => look x
    | .index x _ is _ => look x || is.any look
    | .slice x _ bs _ => look x || bs.any (·.any look)
    | .assertion x _ t _ => look x || t.any look
    | .call f _ args _ _ => look f || args.any look
    | .star x => look x
    | .unary _ x => look x
    | .binary a _ _ b => look a || look b
    | .keyed k _ v => look k || look v
    | .array n t => n.any look || look t
    | .struct fs => fieldTypes fs
    | .funcType t => funcTypes t
    | .interface fs => fieldTypes fs
    | .map k v => look k || look v
    | .channel _ _ v => look v
    | _ => false

def hasBareLiteralIn : Nat → Stmt → Bool
  | 0, _ => false
  | fuel + 1, s =>
    let look := hasBareLiteral fuel
    let lookIn := hasBareLiteralIn fuel
    let fieldTypes (fs : FieldList) : Bool := fs.fields.any fun f => look f.type
    match s.form with
    | .decl (.mk _ _ _ _ _ specs _) => specs.any fun
      | .value _ _ _ t vs _ => t.any look || vs.any look
      | .type _ _ _ ps _ t _ => ps.any fieldTypes || look t
      | .imported .. => false
    | .labeled _ _ s => lookIn s
    | .expr e | .step e _ _ | .spawn _ e => look e
    | .send c _ v => look c || look v
    | .assign ls _ _ rs => ls.any look || rs.any look
    | .give es => es.any look
    | .block b | .select b => b.body.any lookIn
    | .ifElse i c b o => i.any lookIn || look c || b.body.any lookIn || o.any lookIn
    | .caseClause vs _ ss => vs.any (·.any look) || ss.any lookIn
    | .switch i e b => i.any lookIn || e.any look || b.body.any lookIn
    | .typeSwitch i g b => i.any lookIn || lookIn g || b.body.any lookIn
    | .commClause c _ ss => c.any lookIn || ss.any lookIn
    | .loop i c p b => i.any lookIn || c.any look || p.any lookIn || b.body.any lookIn
    | .range k v _ _ e b => k.any look || v.any look || look e || b.body.any lookIn
    | .branch .. | .empty => false

end

/-- An expression without the parentheses around it, unless they keep a literal apart from a block. -/
def stripParens (fuel : Nat) : Expr → Expr
  | .mk s t (.paren e r) =>
    if hasBareLiteral fuel e then .mk s t (.paren e r) else stripParens fuel e
  | e => e

def literalDepth : Nat := 1000

def head (l : Layout) (isLoop : Bool) (init : Option Stmt) (e : Option Expr) (post : Option Stmt) :
    Write Unit := do
  hold .blank
  let condition : Write Bool := do
    match e with
    | some e =>
      l.expr (stripParens literalDepth e)
      return true
    | none => return false
  let needsBlank ← if init.isNone && post.isNone then condition
    else do
      match init with
      | some s => l.stmt s false
      | none => pure ()
      sign ";"
      hold .blank
      let given ← condition
      if isLoop then
        sign ";"
        hold .blank
        match post with
        | some s =>
          l.stmt s false
          pure true
        | none => pure false
      else pure given
  if needsBlank then hold .blank

/-- Whether results are indented as a whole: several have more than one line, or one starts behind the line
where the one before it ends. -/
def indentsWhole (p : Pen) (es : List Expr) : Bool :=
  match es with
  | [] | [_] => false
  | first :: _ =>
    let begins := p.lineFor first.start
    let ends := p.lineFor ((es.getLast?.map Expr.stop).getD 0)
    if 0 < begins && begins < ends then
      let lines := es.map fun e => (p.lineFor e.start, p.lineFor e.stop)
      let gaps := ((begins, begins) :: lines).zip lines |>.any fun (a, b) => a.2 < b.1
      gaps || 1 < (lines.filter fun (b, e) => b < e).length
    else false

def rangeHead (l : Layout) (key value : Option Expr) (opPlace : Place) (op : Tok) (e : Expr) : Write Unit := do
  match key with
  | some k =>
    l.expr k
    match value with
    | some v =>
      at' v.start
      sign ","
      hold .blank
      l.expr v
    | none => pure ()
    hold .blank
    at' opPlace
    token op
    hold .blank
  | none => pure ()
  keyword "range"
  hold .blank
  l.expr (stripParens literalDepth e)
  hold .blank

/-- Writes a statement. `closes` tells whether a brace follows that closes the block. -/
def stmtRule (l : Layout) (s : Stmt) (closes : Bool) : Write Unit := do
  at' s.start
  match s.form with
  | .decl d => l.genDecl d
  | .empty => pure ()
  | .labeled label colon inner =>
    hold .unindent
    ident label
    at' colon
    sign ":"
    hold .indent
    if inner.isEmpty && !closes then
      hold .newline
      at' inner.start
      sign ";"
    else
      if !inner.isEmpty then
        let _ ← lineBreak ((← get).lineFor inner.start) 1 .ignore true
      l.stmt inner closes
  | .expr e => l.expr0 e 1
  | .send channel arrow v =>
    l.expr0 channel 1
    hold .blank
    at' arrow
    sign "<-"
    hold .blank
    l.expr0 v 1
  | .step e p op =>
    l.expr0 e 2
    at' p
    token op
  | .assign left p op right =>
    let depth := if 1 < left.length && 1 < right.length then 2 else 1
    l.exprList s.start left { depth := depth } p
    hold .blank
    at' p
    token op
    hold .blank
    l.exprList p right { depth := depth } 0
  | .spawn word e =>
    token word
    hold .blank
    l.expr e
  | .give results =>
    keyword "return"
    if !results.isEmpty then
      hold .blank
      if indentsWhole (← get) results then
        hold .indent
        l.exprList 0 results { noIndent := true } 0
        hold .unindent
      else l.exprList 0 results {} 0
  | .branch word label =>
    token word
    match label with
    | some i =>
      hold .blank
      ident i
    | none => pure ()
  | .block b => l.block b false
  | .ifElse init condition body otherwise =>
    keyword "if"
    l.head false init (some condition) none
    l.block body false
    match otherwise with
    | some s =>
      hold .blank
      keyword "else"
      hold .blank
      l.stmt s closes
    | none => pure ()
  | .caseClause values colon body =>
    match values with
    | some es =>
      keyword "case"
      hold .blank
      l.exprList s.start es {} colon
    | none => keyword "default"
    at' colon
    sign ":"
    l.stmtList body false closes
  | .switch init subject body =>
    keyword "switch"
    l.head false init subject none
    l.block body true
  | .typeSwitch init guard body =>
    keyword "switch"
    match init with
    | some i =>
      hold .blank
      l.stmt i false
      sign ";"
    | none => pure ()
    hold .blank
    l.stmt guard false
    hold .blank
    l.block body true
  | .commClause comm colon body =>
    match comm with
    | some c =>
      keyword "case"
      hold .blank
      l.stmt c false
    | none => keyword "default"
    at' colon
    sign ":"
    l.stmtList body false closes
  | .select body =>
    keyword "select"
    hold .blank
    let p ← get
    if body.body.isEmpty && !p.commentBefore (p.spot body.rbrace) then
      at' body.lbrace
      sign "\x7b"
      at' body.rbrace
      sign "\x7d"
    else l.block body true
  | .loop init condition post body =>
    keyword "for"
    l.head true init condition post
    l.block body false
  | .range k v p op e body =>
    keyword "for"
    hold .blank
    l.rangeHead k v p op e
    l.block body false

end Layout

end FlowCompiler.Source.Tree
