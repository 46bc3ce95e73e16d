import FlowCompiler.Source.Grammar.Basic

/-!
# Reading types

Types, the parameters of functions, and the fields of structures.
-/

namespace FlowCompiler.Source.Tree

open Parse

namespace Grammar

/-- Reads the name of a type, which may name a package. -/
def typeName (first : Option Ident) : Parse Expr := do
  let i ← match first with
    | some i => pure i
    | none => ident
  if ← sign? "." then
    let _ ← next
    let member ← ident
    from' i.place (.selector (nameExpr i) member)
  else return nameExpr i

def typeInstance (g : Grammar) (t : Expr) : Parse Expr := do
  let lbrack ← sign "["
  let args ← nested (elements "]" g.type)
  let rbrack ← sign "]"
  if args.isEmpty then failure
  from' t.start (.index t lbrack args rbrack)

def qualified (g : Grammar) (first : Option Ident) : Parse Expr := do
  let t ← typeName first
  if ← sign? "[" then g.typeInstance t else return t

/-- Reads an array type after its opening bracket at `start`, with a length that may have been read. -/
def arrayType (g : Grammar) (start : Place) (length : Option Expr) : Parse Expr := do
  let length ← match length with
    | some e => pure (some e)
    | none => nested do
      if ← sign? "..." then
        let p ← place
        let _ ← next
        return some (← from' p (.ellipsis none))
      else if ← sign? "]" then return none
      else return some (← g.expr)
  let _ ← sign "]"
  let element ← g.type
  from' start (.array length element)

/-- Reads what follows the name of a field or a parameter and a bracket: an array type, or type arguments.
-/
def arrayOrInstance (g : Grammar) (x : Ident) : Parse (Option Ident × Expr) := do
  let lbrack ← sign "["
  let (args, trailing) ← nested do
    if ← sign? "]" then return ([], false)
    let first ← g.expr
    repeatedly (fun (args, trailing) => do
      if trailing || !(← sign? ",") then return none
      let _ ← next
      if ← sign? "]" then return some (args, true)
      return some (args ++ [← g.expr], false)) ([first], false)
  let rbrack ← sign "]"
  match args with
  | [] =>
    let element ← g.type
    return (some x, ← from' lbrack (.array none element))
  | [length] =>
    match ← g.type? with
    | some element =>
      if trailing then failure
      return (some x, ← from' lbrack (.array (some length) element))
    | none => return (none, ← from' x.place (.index (nameExpr x) lbrack args rbrack))
  | _ => return (none, ← from' x.place (.index (nameExpr x) lbrack args rbrack))

def typeTerm (g : Grammar) : Parse Expr := do
  if ← sign? "~" then
    located do
      let _ ← next
      return .unary (.sign "~") (← g.type)
  else g.type

/-- Reads the terms of a set of types, the first of which may have been read. -/
def typeSet (g : Grammar) (first : Option Expr) : Parse Expr := do
  let first ← match first with
    | some t => pure t
    | none => g.typeTerm
  repeatedly (fun t => do
    if ← sign? "|" then
      let p ← place
      let _ ← next
      let right ← g.typeTerm
      return some (← from' t.start (.binary t p (.sign "|") right))
    else return none) first

def structField (g : Grammar) : Parse FieldDecl := do
  let doc ← lead
  let start ← place
  let (names, type) ← match ← tok with
    | .name => do
      let name ← ident
      match ← tok with
      | .sign "." => pure ([], ← g.qualified (some name))
      | .string | .sign ";" | .sign "\x7d" => pure ([], nameExpr name)
      | _ =>
        let more ← many (sign? ",") (do let _ ← next; ident)
        if more.isEmpty && (← sign? "[") then
          let (name, type) ← g.arrayOrInstance name
          pure (name.toList, type)
        else pure (name :: more, ← g.type)
    | .sign "*" => do
      let _ ← next
      let t ← g.qualified none
      pure ([], ← from' start (.star t))
    | _ => failure
  let tag ← do
    let l ← peek
    if l.tok == .string then
      let _ ← next
      pure (some (l.place, l.text))
    else pure none
  let stop ← last
  let comment ← semicolon
  return .mk start stop doc names type tag comment

def structType (g : Grammar) : Parse Expr := located do
  let _ ← keyword "struct"
  let lbrace ← sign "\x7b"
  let fields ← many (return (← tok) matches .name | .sign "*" | .sign "(") g.structField
  let rbrace ← sign "\x7d"
  return .struct (.mk lbrace fields rbrace)

/-! ## Parameters -/

/-- A parameter as it is read: a name, a type or both. -/
structure Param where
  name : Option Ident := none
  type : Option Expr := none
deriving Inhabited

/-- Reads the type of a parameter that stands for any number of arguments. -/
def dotsType (g : Grammar) : Parse Expr := located do
  let _ ← sign "..."
  return .ellipsis (some (← g.type))

/-- Adds the other types of a set to the type of a type parameter. -/
def moreTypes (g : Grammar) (typeSets : Bool) (p : Param) : Parse Param := do
  match p.type with
  | some t =>
    if typeSets && (← sign? "|") then return { p with type := some (← g.typeSet (some t)) }
    else return p
  | none => return p

/-- Reads a parameter, of which a name may have been read. With `typeSets`, its type can be a set of types.
-/
def param (g : Grammar) (first : Option Ident) (typeSets : Bool) : Parse Param := do
  if first.isNone && typeSets && (← sign? "~") then return ⟨none, some (← g.typeSet none)⟩
  let named := first.isSome || (← tok) == .name
  if named then
    let name ← match first with
      | some i => pure i
      | none => ident
    match ← tok with
    | .sign "[" =>
      let (name, type) ← g.arrayOrInstance name
      g.moreTypes typeSets ⟨name, some type⟩
    | .sign "..." => return ⟨some name, some (← g.dotsType)⟩
    | .sign "." =>
      let type ← g.qualified (some name)
      g.moreTypes typeSets ⟨none, some type⟩
    | .sign "~" =>
      if typeSets then return ⟨some name, some (← g.typeSet none)⟩ else return ⟨some name, none⟩
    | .sign "|" =>
      if typeSets then return ⟨none, some (← g.typeSet (some (nameExpr name)))⟩
      else return ⟨some name, none⟩
    | .name | .sign "*" | .sign "<-" | .sign "(" | .keyword "func" | .keyword "chan" | .keyword "map"
    | .keyword "struct" | .keyword "interface" =>
      let type ← g.type
      g.moreTypes typeSets ⟨some name, some type⟩
    | _ => return ⟨some name, none⟩
  else
    match ← tok with
    | .sign "..." => return ⟨none, some (← g.dotsType)⟩
    | .sign "*" | .sign "<-" | .sign "(" | .sign "[" | .keyword "func" | .keyword "chan" | .keyword "map"
    | .keyword "struct" | .keyword "interface" =>
      let type ← g.type
      g.moreTypes typeSets ⟨none, some type⟩
    | _ => failure

/-- Gives names the type after them, from the last parameter on. Fails if a name has no type or a type no
name. -/
def distribute : List Param → Option (List (List Ident × Expr))
  | [] => some []
  | p :: ps =>
    (distribute ps).bind fun groups =>
      match p.name, p.type, groups with
      | some n, some t, _ => some (([n], t) :: groups)
      | some n, none, (ns, t) :: more => some ((n :: ns, t) :: more)
      | _, _, _ => none

def paramDecl (names : List Ident) (type : Expr) : FieldDecl :=
  let start := match names with
    | n :: _ => n.place
    | [] => type.start
  .mk start type.stop none names type none none

/-- The declarations of parameters. If none has both a name and a type, names are types. -/
def paramDecls (typeParams : Bool) (params : List Param) : Option (List FieldDecl) :=
  if params.any fun p => p.name.isSome && p.type.isSome then
    (distribute params).map fun groups => groups.map fun (ns, t) => paramDecl ns t
  else if typeParams && !params.isEmpty then none
  else params.mapM fun p => (p.type <|> p.name.map nameExpr).map (paramDecl [])

/-- Reads parameters up to a sign that closes, after a first one that may have been read in part. -/
def params (g : Grammar) (first : Option (Ident × Option Expr)) (closing : String) :
    Parse (List FieldDecl) := do
  let typeParams := closing == "]"
  let start : List Param ← match first with
    | none => pure []
    | some (name, some type) =>
      let type ← if typeParams then g.typeSet (some type) else pure type
      pure [⟨some name, some type⟩]
    | some (name, none) => pure [← g.param (some name) typeParams]
  let goesOn ← if start.isEmpty then pure true else comma closing
  let more ← if goesOn then elements closing (g.param none typeParams) else pure []
  match paramDecls typeParams (start ++ more) with
  | some fields => return fields
  | none => failure

def parameters (g : Grammar) : Parse FieldList := do
  let opening ← sign "("
  let fields ← g.params none ")"
  let closing ← sign ")"
  return .mk opening fields closing

/-- Reads the type parameters of a function. There is at least one. -/
def typeParameters (g : Grammar) : Parse (Option FieldList) := do
  if ← sign? "[" then
    let opening ← sign "["
    let fields ← g.params none "]"
    let closing ← sign "]"
    if fields.isEmpty then failure
    return some (.mk opening fields closing)
  else return none

def results (g : Grammar) : Parse (Option FieldList) := do
  if ← sign? "(" then return some (← g.parameters)
  match ← g.type? with
  | some t => return some (.mk 0 [paramDecl [] t] 0)
  | none => return none

def funcType (g : Grammar) : Parse FuncType := do
  let start ← keyword "func"
  let params ← g.parameters
  return .mk start none params (← g.results)

/-- Reads a method of an interface or an embedded type. -/
def interfaceName (g : Grammar) : Parse FieldDecl := do
  let doc ← lead
  let start ← place
  let name ← typeName none
  match name.form with
  | .ident n =>
    match ← tok with
    | .sign "[" =>
      let lbrack ← sign "["
      let first ← nested g.expr
      let more ← if ← comma "]" then nested (elements "]" g.type) else pure []
      let rbrack ← sign "]"
      let type ← from' start (.index name lbrack (first :: more) rbrack)
      return .mk start (← last) doc [] (← g.typeSet (some type)) none none
    | .sign "(" =>
      let params ← g.parameters
      let results ← g.results
      let type ← from' params.opening (.funcType (.mk 0 none params results))
      return .mk start (← last) doc [⟨start, n⟩] type none none
    | _ => return .mk start (← last) doc [] (← g.typeSet (some name)) none none
  | _ =>
    let type ← if ← sign? "[" then g.typeInstance name else pure name
    return .mk start (← last) doc [] (← g.typeSet (some type)) none none

def interfaceElement? (g : Grammar) : Parse (Option FieldDecl) := do
  let start ← place
  let field ← match ← tok with
    | .name => do pure (some (← g.interfaceName))
    | .sign "~" => do pure (some (paramDecl [] (← g.typeSet none)))
    | _ => do
      match ← g.type? with
      | some t => pure (some (paramDecl [] (← g.typeSet (some t))))
      | none => pure none
  match field with
  | none => return none
  | some (.mk _ _ doc names type tag _) =>
    let stop ← last
    let comment ← semicolon
    return some (.mk start stop doc names type tag comment)

def interfaceType (g : Grammar) : Parse Expr := located do
  let _ ← keyword "interface"
  let lbrace ← sign "\x7b"
  let methods ← repeatedly (fun fields => do
    match ← g.interfaceElement? with
    | some f => return some (fields ++ [f])
    | none => return none) ([] : List FieldDecl)
  let rbrace ← sign "\x7d"
  return .interface (.mk lbrace methods rbrace)

def channelType (g : Grammar) : Parse Expr := located do
  if ← at? (.keyword "chan") then
    let _ ← next
    if ← sign? "<-" then
      let arrow ← sign "<-"
      return .channel .send arrow (← g.type)
    else return .channel .both 0 (← g.type)
  else
    let arrow ← sign "<-"
    let _ ← keyword "chan"
    return .channel .receive arrow (← g.type)

/-- Reads a type, if there is one. -/
def typeRule (g : Grammar) : Parse (Option Expr) := do
  match ← tok with
  | .name => return some (← g.qualified none)
  | .sign "[" =>
    let lbrack ← sign "["
    return some (← g.arrayType lbrack none)
  | .keyword "struct" => return some (← g.structType)
  | .sign "*" =>
    return some (← located do
      let _ ← next
      return .star (← g.type))
  | .keyword "func" => return some (← located do return .funcType (← g.funcType))
  | .keyword "interface" => return some (← g.interfaceType)
  | .keyword "map" =>
    return some (← located do
      let _ ← next
      let _ ← sign "["
      let key ← g.type
      let _ ← sign "]"
      return .map key (← g.type))
  | .keyword "chan" | .sign "<-" => return some (← g.channelType)
  | .sign "(" =>
    return some (← located do
      let _ ← next
      let t ← g.type
      return .paren t (← sign ")"))
  | _ => return none

end Grammar

end FlowCompiler.Source.Tree
