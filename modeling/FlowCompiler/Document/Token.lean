/-!
# Tokens of a document

A document is written in YAML, of which JSON is a part. Its text is a sequence of tokens: the marks of
block and flow collections, keys and values, properties of nodes, and scalars. A token keeps the place
where it starts, counted from zero in characters. Comments stand beside the tokens, each with the place of
the token that it belongs to.
-/

namespace FlowCompiler.Document

/-- A place in a document, counted from zero. -/
structure Mark where
  index : Nat := 0
  line : Nat := 0
  column : Nat := 0
deriving DecidableEq, Repr, Inhabited

/-- How a scalar is written. -/
inductive ScalarStyle where
  | plain
  | singleQuoted
  | doubleQuoted
  | literal
  | folded
deriving DecidableEq, Repr, Inhabited

/-- The kinds of tokens. -/
inductive TokenKind where
  | streamStart
  | streamEnd
  | version (major minor : Nat)
  | tagHandle (handle meaning : String)
  | documentStart
  | documentEnd
  | blockSequenceStart
  | blockMappingStart
  | blockEnd
  | flowSequenceStart
  | flowSequenceEnd
  | flowMappingStart
  | flowMappingEnd
  | blockEntry
  | flowEntry
  | key
  | value
  | reference (name : String)
  | anchor (name : String)
  | tag (handle suffix : String)
  | scalar (text : String) (style : ScalarStyle)
deriving DecidableEq, Repr, Inhabited

/-- A token and its extent. -/
structure Token where
  kind : TokenKind
  start : Mark
  stop : Mark
deriving DecidableEq, Repr, Inhabited

/-- Where a comment stands: above what it belongs to, on its line, or below it. -/
inductive CommentKind where
  | head
  | line
  | foot
deriving DecidableEq, Repr, Inhabited

/-- A comment. `owner` is the place of its token, `scan` where the blanks before it start. -/
structure Comment where
  kind : CommentKind
  text : List Char
  owner : Mark
  start : Mark
  scan : Mark := {}
  stop : Mark := {}
deriving DecidableEq, Repr, Inhabited

end FlowCompiler.Document
