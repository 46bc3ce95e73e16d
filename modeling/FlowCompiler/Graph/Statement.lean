import FlowCompiler.Graph.Basic

/-!
# Statements of a flow text

A flow text is a list of statements: a chain of nodes joined by connections (a single node is a chain
without links), an exported port, a declaration, or an exported option.
-/

namespace FlowCompiler

/-- A node as a statement mentions it, with its component clause if it has one. -/
structure Mention where
  name : String
  component : String := ""
  settings : List Meta := []
  pos : Position
deriving DecidableEq, Repr, Inhabited

namespace Mention

/-- The name of an anonymous node. No written name holds `#`, and no two mentions share a position. -/
def anonymousName (pos : Position) : String := s!"#anon:{pos.line}:{pos.column}"

/-- The name of the mentioned node in the graph. The name `_` stands for a new node each time. -/
def nodeName (m : Mention) : String := if m.name = "_" then anonymousName m.pos else m.name

end Mention

/-- A connection of a chain, with the node it leads to. -/
structure Link where
  sourcePort : PortRef
  targetPort : PortRef
  node : Mention
  pos : Position
deriving DecidableEq, Repr, Inhabited

/-- A statement of a flow text. -/
inductive Statement where
  | chain (head : Mention) (links : List Link)
  | exportPort (direction : Direction) (node : String) (port : PortRef) (name : String)
      (pos : Position)
  | declare (declaration : Graph.Declaration)
  | exportOption (node option name : String) (pos : Position)
deriving DecidableEq, Repr, Inhabited

end FlowCompiler
