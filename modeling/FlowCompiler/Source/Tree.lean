import FlowCompiler.Source.Lexeme

/-!
# Source files as trees

A source text as the tree of its declarations, statements and expressions. Each node keeps where its parts
stand, since the layout of a text follows the lines of what it was read from. Comments are kept beside the
tree, in groups of neighbours; some nodes also know the groups that belong to them.
-/

namespace FlowCompiler.Source.Tree

/-- A comment and where it starts. -/
structure Comment where
  place : Place
  text : String
deriving DecidableEq, Repr, Inhabited

/-- Comments without an empty line or anything else between them. -/
abbrev Group := List Comment

/-- A name and where it stands. -/
structure Ident where
  place : Place
  name : String
deriving DecidableEq, Repr, Inhabited

/-- What may be done with a channel. -/
inductive Direction where
  | both
  | send
  | receive
deriving DecidableEq, Repr, Inhabited

mutual

/-- An expression or a type, with its first place and the place after it. -/
inductive Expr where
  | mk (start stop : Place) (form : ExprForm)

/-- The form of an expression. An absent part is left out of the text. -/
inductive ExprForm where
  | ident (name : String)
  | ellipsis (element : Option Expr)
  | literal (kind : Tok) (text : String)
  | func (type : FuncType) (body : Block)
  | composite (type : Option Expr) (lbrace : Place) (elements : List Expr) (rbrace : Place)
  | paren (e : Expr) (rparen : Place)
  | selector (e : Expr) (member : Ident)
  | index (e : Expr) (lbrack : Place) (indices : List Expr) (rbrack : Place)
  | slice (e : Expr) (lbrack : Place) (bounds : List (Option Expr)) (rbrack : Place)
  | assertion (e : Expr) (lparen : Place) (type : Option Expr) (rparen : Place)
  | call (f : Expr) (lparen : Place) (args : List Expr) (ellipsis : Place) (rparen : Place)
  | star (e : Expr)
  | unary (op : Tok) (e : Expr)
  | binary (left : Expr) (opPlace : Place) (op : Tok) (right : Expr)
  | keyed (key : Expr) (colon : Place) (value : Expr)
  | array (length : Option Expr) (element : Expr)
  | struct (fields : FieldList)
  | funcType (type : FuncType)
  | interface (methods : FieldList)
  | map (key value : Expr)
  | channel (direction : Direction) (arrow : Place) (value : Expr)

/-- The type of a function. -/
inductive FuncType where
  | mk (start : Place) (typeParams : Option FieldList) (params : FieldList) (results : Option FieldList)

/-- Fields or parameters between two places, which are zero if there are no brackets. -/
inductive FieldList where
  | mk (opening : Place) (fields : List FieldDecl) (closing : Place)

/-- Names with a type: a field, a parameter or a method. -/
inductive FieldDecl where
  | mk (start stop : Place) (doc : Option Group) (names : List Ident) (type : Expr)
    (tag : Option (Place × String)) (comment : Option Group)

/-- Statements between braces. -/
inductive Block where
  | mk (lbrace : Place) (body : List Stmt) (rbrace : Place)

/-- A statement, with its first place. -/
inductive Stmt where
  | mk (start : Place) (form : StmtForm)

/-- The form of a statement. -/
inductive StmtForm where
  | decl (d : GenDecl)
  | empty
  | labeled (label : Ident) (colon : Place) (s : Stmt)
  | expr (e : Expr)
  | send (channel : Expr) (arrow : Place) (value : Expr)
  | step (e : Expr) (opPlace : Place) (op : Tok)
  | assign (left : List Expr) (opPlace : Place) (op : Tok) (right : List Expr)
  | spawn (keyword : Tok) (call : Expr)
  | give (results : List Expr)
  | branch (keyword : Tok) (label : Option Ident)
  | block (b : Block)
  | ifElse (init : Option Stmt) (condition : Expr) (body : Block) (otherwise : Option Stmt)
  | caseClause (values : Option (List Expr)) (colon : Place) (body : List Stmt)
  | switch (init : Option Stmt) (subject : Option Expr) (body : Block)
  | typeSwitch (init : Option Stmt) (guard : Stmt) (body : Block)
  | commClause (comm : Option Stmt) (colon : Place) (body : List Stmt)
  | select (body : Block)
  | loop (init : Option Stmt) (condition : Option Expr) (post : Option Stmt) (body : Block)
  | range (key value : Option Expr) (opPlace : Place) (op : Tok) (e : Expr) (body : Block)

/-- A declaration of imports, constants, types or variables. -/
inductive GenDecl where
  | mk (start stop : Place) (doc : Option Group) (keyword : Tok) (lparen : Place) (specs : List Spec)
    (rparen : Place)

/-- A part of a declaration. -/
inductive Spec where
  | imported (start : Place) (doc : Option Group) (name : Option Ident) (pathPlace : Place) (path : String)
    (comment : Option Group)
  | value (start : Place) (doc : Option Group) (names : List Ident) (type : Option Expr) (values : List Expr)
    (comment : Option Group)
  | type (start : Place) (doc : Option Group) (name : Ident) (typeParams : Option FieldList)
    (equals : Place) (type : Expr) (comment : Option Group)

end

instance : Inhabited Expr := ⟨.mk 0 0 (.ident "")⟩

instance : Inhabited Stmt := ⟨.mk 0 .empty⟩

/-- A declaration of a file. -/
inductive Decl where
  | gen (d : GenDecl)
  | func (start stop : Place) (doc : Option Group) (receiver : Option FieldList) (name : Ident)
    (type : FuncType) (body : Option Block)

/-- A file: its package, its declarations, and all its comments. -/
structure File where
  start : Place
  name : Ident
  decls : List Decl
  comments : List Group

namespace Expr

def start : Expr → Place
  | mk s _ _ => s

def stop : Expr → Place
  | mk _ s _ => s

def form : Expr → ExprForm
  | mk _ _ f => f

/-- An expression without the parentheses around it. -/
def bare : Expr → Expr
  | mk _ _ (.paren e _) => e.bare
  | e => e

def isBinary (e : Expr) : Bool :=
  match e.form with
  | .binary .. => true
  | _ => false

def isParen (e : Expr) : Bool :=
  match e.form with
  | .paren .. => true
  | _ => false

/-- Whether an expression can only be a type, or an element of a set of types. -/
def isTypeElement : Expr → Bool
  | mk _ _ (.array ..) | mk _ _ (.struct ..) | mk _ _ (.funcType ..) | mk _ _ (.interface ..)
  | mk _ _ (.map ..) | mk _ _ (.channel ..) => true
  | mk _ _ (.binary l _ _ r) => l.isTypeElement || r.isTypeElement
  | mk _ _ (.unary op _) => op == .sign "~"
  | mk _ _ (.paren e _) => e.isTypeElement
  | _ => false

end Expr

def Stmt.start : Stmt → Place
  | mk s _ => s

def Stmt.form : Stmt → StmtForm
  | mk _ f => f

def Stmt.isEmpty (s : Stmt) : Bool :=
  match s.form with
  | .empty => true
  | _ => false

namespace FieldDecl

def start : FieldDecl → Place
  | mk s .. => s

def stop : FieldDecl → Place
  | mk _ s .. => s

def doc : FieldDecl → Option Group
  | mk _ _ d .. => d

def names : FieldDecl → List Ident
  | mk _ _ _ ns .. => ns

def type : FieldDecl → Expr
  | mk _ _ _ _ t .. => t

def tag : FieldDecl → Option (Place × String)
  | mk _ _ _ _ _ t _ => t

def comment : FieldDecl → Option Group
  | mk _ _ _ _ _ _ c => c

end FieldDecl

def FieldList.opening : FieldList → Place
  | mk o _ _ => o

def FieldList.fields : FieldList → List FieldDecl
  | mk _ fs _ => fs

def FieldList.closing : FieldList → Place
  | mk _ _ c => c

/-- How many fields a list has, where each name counts. -/
def FieldList.count (l : FieldList) : Nat :=
  l.fields.foldl (fun n f => n + max 1 f.names.length) 0

def Block.lbrace : Block → Place
  | mk l _ _ => l

def Block.body : Block → List Stmt
  | mk _ ss _ => ss

def Block.rbrace : Block → Place
  | mk _ _ r => r

def Spec.start : Spec → Place
  | imported s .. | value s .. | type s .. => s

def Decl.start : Decl → Place
  | gen (.mk s ..) => s
  | func s .. => s

def Decl.stop : Decl → Place
  | gen (.mk _ s ..) => s
  | func _ s .. => s

def Decl.keyword : Decl → Tok
  | gen (.mk _ _ _ k ..) => k
  | func .. => .keyword "func"

def Decl.doc : Decl → Option Group
  | gen (.mk _ _ d ..) => d
  | func _ _ d .. => d

end FlowCompiler.Source.Tree
