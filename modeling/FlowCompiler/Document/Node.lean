import FlowCompiler.Document.Tag
import FlowCompiler.Document.Token
import FlowCompiler.Graph.Position

/-!
# Nodes of a document

A document is a tree of scalars, sequences and mappings. A node keeps its place, its tag, whether the tag
was written, its anchor, the style that it was written in and its comments, so that it can be printed again.
An alias stands for the anchored node that it names; anchored nodes are numbered, since an alias may stand
inside the node that it names.
-/

namespace FlowCompiler.Document

/-- The comments of a node: above it, on its line, and below it. -/
structure Comments where
  head : List Char := []
  line : List Char := []
  foot : List Char := []
deriving DecidableEq, Repr, Inhabited

/-- What every node has. -/
structure Head where
  pos : Position
  tag : Tag
  tagged : Bool := false
  anchor : String := ""
  comments : Comments := {}
deriving DecidableEq, Repr, Inhabited

/-- A node. An alias has the number of the node that it stands for. -/
inductive Node where
  | scalar (head : Head) (text : String) (style : ScalarStyle)
  | sequence (head : Head) (flow : Bool) (items : List Node)
  | mapping (head : Head) (flow : Bool) (entries : List (Node × Node))
  | reference (head : Head) (name : String) (target : Nat)
deriving Repr, Inhabited

namespace Node

def head : Node → Head
  | scalar h _ _ | sequence h _ _ | mapping h _ _ | reference h _ _ => h

def withHead (h : Head) : Node → Node
  | scalar _ t s => scalar h t s
  | sequence _ f items => sequence h f items
  | mapping _ f entries => mapping h f entries
  | reference _ n t => reference h n t

def pos (n : Node) : Position := n.head.pos

def foot (n : Node) : List Char := n.head.comments.foot

def withFoot (foot : List Char) (n : Node) : Node :=
  n.withHead { n.head with comments := { n.head.comments with foot } }

/-- The text of a scalar, or the name that an alias stands for. Collections have none. -/
def text : Node → String
  | scalar _ t _ => t
  | reference _ n _ => n
  | _ => ""

def isScalar : Node → Bool
  | scalar .. => true
  | _ => false

def isNull : Node → Bool
  | scalar h _ _ => h.tag == .null
  | _ => false

end Node

/-- What a document holds: its root, and its anchored nodes by their numbers. -/
structure Content where
  root : Node
  anchored : List (Nat × Node)
deriving Repr, Inhabited

end FlowCompiler.Document
