import FlowCompiler.Live.Type

/-!
# Nodes

Opening a node of a static type opens its children one after the other. If one of them fails, those that
were opened are closed, last one first. Closing a node closes its children, last one first; a node that is
closed stays so.

A world holds what happened so far. Each node has a number of its own.
-/

namespace FlowCompiler.Live

/-- What happened, the types that were used, and the number of nodes. -/
structure World (ω : Type) where
  events : List (Event ω) := []
  prepared : List Nat := []
  nodes : Nat := 0

/-- A node, with its children in the order of their opening. -/
structure Node (ω : Type) where
  id : Nat
  type : NodeType ω
  name : String
  options : Option ω
  children : List (Node ω) := []
  closed : Bool := false

/-- Why a node is not opened. -/
inductive OpenError where
  | noType (name : String)
  | failed (text : String)
  | noOptions (child : String) (text : String)
  | opening (name : String) (cause : OpenError)
deriving DecidableEq, Repr

def OpenError.message : OpenError → String
  | noType name => "node " ++ Text.quote name ++ ": nil type"
  | failed text => text
  | noOptions child text => "options of " ++ Text.quote child ++ ": " ++ text
  | opening name cause => "open node " ++ Text.quote name ++ ": " ++ cause.message

variable {ω : Type}

namespace World

def note (w : World ω) (e : Event ω) : World ω := { w with events := w.events ++ [e] }

/-- Prepares a type, if it has something to prepare and was not prepared before. -/
def prepare (w : World ω) : NodeType ω → World ω
  | .static .. => w
  | .leaf s b =>
    if w.prepared.contains s.id then w
    else
      let w := { w with prepared := w.prepared ++ [s.id] }
      if b.prepares then w.note (.prepared s.name) else w

def number (w : World ω) : World ω × Nat := ({ w with nodes := w.nodes + 1 }, w.nodes)

/-- The work of a leaf when one of its nodes opens. -/
def openLeaf (w : World ω) (b : Behaviour ω) (id : Nat) (name : String) (options : Option ω) :
    World ω × Option OpenError :=
  match b.opens with
  | none => (w, none)
  | some failure =>
    match failure w.events name options with
    | some text => (w, some (.opening name (.failed text)))
    | none => (w.note (.opened id name options), none)

end World

mutual

def Node.close (w : World ω) : Node ω → World ω × Node ω
  | ⟨id, type, name, options, children, closed⟩ =>
    if closed then (w, ⟨id, type, name, options, children, closed⟩)
    else
      match type with
      | .leaf _ b =>
        (if b.closes then w.note (.closed id name) else w, ⟨id, type, name, options, children, true⟩)
      | .static .. => (closeAll w children, ⟨id, type, name, options, [], true⟩)

/-- Closes nodes, last one first. -/
def closeAll (w : World ω) : List (Node ω) → World ω
  | [] => w
  | n :: rest => (n.close (closeAll w rest)).1

end

def childOptions (handOn : Option (HandOn ω)) (parent : Option ω) (place : Nat) (own : Option ω) :
    Except String (Option ω) :=
  match handOn with
  | none => .ok own
  | some f => f parent place own

mutual

def NodeType.openNode (w : World ω) (name : String) (options : Option ω) :
    NodeType ω → World ω × Except OpenError (Node ω)
  | .leaf s b =>
    let (w, id) := (w.prepare (.leaf s b)).number
    match w.openLeaf b id name options with
    | (w, some e) => (w, .error e)
    | (w, none) => (w, .ok { id, type := .leaf s b, name, options })
  | .static s specs links handOn =>
    let (w, id) := w.number
    match openAll w handOn options 0 [] specs with
    | (w, .error e) => (w, .error (.opening name e))
    | (w, .ok children) =>
      (w, .ok { id, type := .static s specs links handOn, name, options, children })

/-- Opens children from a place on, after those that were opened. -/
def openAll (w : World ω) (handOn : Option (HandOn ω)) (parent : Option ω) (place : Nat)
    (opened : List (Node ω)) :
    List (NodeType ω × String × Option ω) → World ω × Except OpenError (List (Node ω))
  | [] => (w, .ok opened)
  | (type, name, own) :: rest =>
    match childOptions handOn parent place own with
    | .error text => (closeAll w opened, .error (.noOptions name text))
    | .ok options =>
      match type.openNode w name options with
      | (w, .error e) => (closeAll w opened, .error e)
      | (w, .ok child) => openAll w handOn parent (place + 1) (opened ++ [child]) rest

end

/-- Opens a node of a type that may be missing. -/
def openNode (w : World ω) (type : Option (NodeType ω)) (name : String) (options : Option ω) :
    World ω × Except OpenError (Node ω) :=
  match type with
  | none => (w, .error (.noType name))
  | some t => t.openNode w name options

def Node.closeChild (w : World ω) (n : Node ω) (place : Nat) : World ω × Node ω :=
  match n.children[place]? with
  | none => (w, n)
  | some child =>
    let (w, child) := child.close w
    (w, { n with children := n.children.set place child })

end FlowCompiler.Live
