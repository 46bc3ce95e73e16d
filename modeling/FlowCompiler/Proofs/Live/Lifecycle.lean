import FlowCompiler.Live.Node
import Mathlib

/-!
# Opening and closing in order

`NodeType.attempts` lists what opening a node of a type has to do, depth first: a leaf is opened with the options
that it is handed, or a child gets none. `Node.openLeaves` lists the leaves of a node that are still to be closed.
Closing a node notes these in reverse (`Node.close_fst`) and leaves none (`Node.openLeaves_close`).

Main statement: `openNode_last_in_first_out`. If opening a node fails, the leaves that were opened are those of
the attempts before the one that failed, and they are closed in reverse; if it succeeds, all leaves are opened and
none is closed, and closing the node closes them in reverse, once. Nodes have numbers of their own, so each event
tells which leaf it is about.
-/

namespace FlowCompiler.Live

open List

variable {ω : Type}

/-! ## Leaves -/

/-- A leaf node that was opened. -/
structure Leaf (ω : Type) where
  id : Nat
  name : String
  options : Option ω
  behaviour : Behaviour ω

/-- A part of the opening of a node. -/
inductive Attempt (ω : Type) where
  | leaf (behaviour : Behaviour ω) (name : String) (options : Option ω)
  | noOptions

namespace Leaf

/-- What the leaf is opened for. -/
def attempt (l : Leaf ω) : Attempt ω := .leaf l.behaviour l.name l.options

/-- What the opening of the leaf notes. -/
def opening (l : Leaf ω) : List (Event ω) :=
  if l.behaviour.opens.isSome then [.opened l.id l.name l.options] else []

/-- What the closing of the leaf notes. -/
def closing (l : Leaf ω) : List (Event ω) := if l.behaviour.closes then [.closed l.id l.name] else []

end Leaf

/-- Whether an attempt fails after some events. -/
def Attempt.Fails (events : List (Event ω)) : Attempt ω → Prop
  | .leaf b name options => ∃ failure, b.opens = some failure ∧ (failure events name options).isSome
  | .noOptions => True

mutual

/-- What opening a node of a type has to do, in order. -/
def NodeType.attempts (name : String) (options : Option ω) : NodeType ω → List (Attempt ω)
  | .leaf _ b => [.leaf b name options]
  | .static _ specs _ handOn => attemptsFrom handOn options 0 specs

/-- What opening children from a place on has to do. -/
def attemptsFrom (handOn : Option (HandOn ω)) (parent : Option ω) (place : Nat) :
    List (NodeType ω × String × Option ω) → List (Attempt ω)
  | [] => []
  | (type, name, own) :: rest =>
    match childOptions handOn parent place own with
    | .error _ => [.noOptions]
    | .ok options => type.attempts name options ++ attemptsFrom handOn parent (place + 1) rest

end

mutual

/-- The leaves of a node that are not closed. -/
def Node.openLeaves : Node ω → List (Leaf ω)
  | ⟨id, type, name, options, children, closed⟩ =>
    if closed then []
    else
      match type with
      | .leaf _ b => [⟨id, name, options, b⟩]
      | .static .. => openLeavesOf children

/-- The leaves of nodes that are not closed. -/
def openLeavesOf : List (Node ω) → List (Leaf ω)
  | [] => []
  | n :: rest => n.openLeaves ++ openLeavesOf rest

end

theorem openLeavesOf_append (ns ms : List (Node ω)) :
    openLeavesOf (ns ++ ms) = openLeavesOf ns ++ openLeavesOf ms := by
  induction ns with
  | nil => rfl
  | cons n ns ih => rw [cons_append, openLeavesOf, openLeavesOf, ih, append_assoc]

/-! ## Closing -/

/-- Notes several events. -/
def World.noteAll (w : World ω) (events : List (Event ω)) : World ω := { w with events := w.events ++ events }

theorem World.noteAll_nil (w : World ω) : w.noteAll [] = w := by
  simp [noteAll]

theorem World.noteAll_append (w : World ω) (first second : List (Event ω)) :
    w.noteAll (first ++ second) = (w.noteAll first).noteAll second := by
  simp [noteAll]

/-- What closing leaves notes: the last one is closed first. -/
def closings (leaves : List (Leaf ω)) : List (Event ω) := leaves.reverse.flatMap Leaf.closing

theorem closings_append (first second : List (Leaf ω)) :
    closings (first ++ second) = closings second ++ closings first := by
  simp [closings]

mutual

/-- Closing a node closes its open leaves, the last one first. -/
theorem Node.close_fst (w : World ω) : ∀ n : Node ω, (n.close w).1 = w.noteAll (closings n.openLeaves)
  | ⟨id, type, name, options, children, closed⟩ => by
    cases closed with
    | true => simp [Node.close, Node.openLeaves, closings, World.noteAll]
    | false =>
      cases type with
      | leaf s b =>
        by_cases hb : b.closes = true <;>
          simp [Node.close, Node.openLeaves, closings, Leaf.closing, World.noteAll, World.note, hb]
      | static s specs links handOn =>
        simp only [Node.close, Node.openLeaves, Bool.false_eq_true, if_false]
        exact closeAll_eq w children

theorem closeAll_eq (w : World ω) : ∀ ns : List (Node ω), closeAll w ns = w.noteAll (closings (openLeavesOf ns))
  | [] => (World.noteAll_nil w).symm
  | n :: rest => by
    rw [closeAll, closeAll_eq w rest, Node.close_fst _ n, openLeavesOf, closings_append, World.noteAll_append]

end

/-- A node that was closed has no open leaves. -/
theorem Node.openLeaves_close (w : World ω) (n : Node ω) : (n.close w).2.openLeaves = [] := by
  obtain ⟨id, type, name, options, children, closed⟩ := n
  cases closed with
  | true => simp [Node.close, Node.openLeaves]
  | false =>
    cases type with
    | leaf s b => simp [Node.close, Node.openLeaves]
    | static s specs links handOn => simp [Node.close, Node.openLeaves]

/-- Closing a node again does nothing. -/
theorem Node.close_iterate (w : World ω) (n : Node ω) (k : Nat) :
    ((fun p : World ω × Node ω => p.2.close p.1)^[k + 1] (w, n)).1 = w.noteAll (closings n.openLeaves) := by
  have hstep : ∀ k, ((fun p : World ω × Node ω => p.2.close p.1)^[k + 1] (w, n)).1 =
        w.noteAll (closings n.openLeaves) ∧
      ((fun p : World ω × Node ω => p.2.close p.1)^[k + 1] (w, n)).2.openLeaves = [] := by
    intro k
    induction k with
    | zero => exact ⟨Node.close_fst w n, Node.openLeaves_close w n⟩
    | succ k ih =>
      rw [Function.iterate_succ_apply']
      refine ⟨?_, Node.openLeaves_close _ _⟩
      rw [Node.close_fst, ih.2, ih.1]
      exact World.noteAll_nil _
  exact (hstep k).1

/-! ## What happens between two worlds -/

/-- Whether an event is about a node. -/
def Event.isOfNode : Event ω → Bool
  | .prepared _ => false
  | .opened .. => true
  | .closed .. => true

/-- What is noted about nodes between two worlds, and the leaves that are opened meanwhile. Their numbers are new
and in order. -/
structure World.Passes (w w' : World ω) (leaves : List (Leaf ω)) (log : List (Event ω)) : Prop where
  events : ∃ more, w'.events = w.events ++ more ∧ more.filter (·.isOfNode) = log
  nodes_le : w.nodes ≤ w'.nodes
  numbers : ∀ l ∈ leaves, w.nodes ≤ l.id ∧ l.id < w'.nodes
  ordered : leaves.Pairwise fun a b => a.id < b.id

/-- All attempts succeed, and give some leaves. -/
structure World.OpensAll (w w' : World ω) (attempts : List (Attempt ω)) (leaves : List (Leaf ω)) : Prop where
  attempts_eq : attempts = leaves.map Leaf.attempt
  passes : w.Passes w' leaves (leaves.flatMap Leaf.opening)

/-- An attempt fails, after the earlier ones gave some leaves. These are closed, and then the leaves `before`. -/
def World.OpensSome (w w' : World ω) (attempts : List (Attempt ω)) (before : List (Leaf ω)) : Prop :=
  ∃ leaves failed rest past, attempts = leaves.map Leaf.attempt ++ failed :: rest ∧
    past.filter (·.isOfNode) = leaves.flatMap Leaf.opening ∧ failed.Fails (w.events ++ past) ∧
    w.Passes w' leaves (leaves.flatMap Leaf.opening ++ closings (before ++ leaves))

namespace World

variable {w w₁ w₂ : World ω} {first second before leaves : List (Leaf ω)} {log log₁ log₂ : List (Event ω)}
  {attempts attempts₁ attempts₂ : List (Attempt ω)}

theorem Passes.trans (h₁ : w.Passes w₁ first log₁) (h₂ : w₁.Passes w₂ second log₂) :
    w.Passes w₂ (first ++ second) (log₁ ++ log₂) := by
  obtain ⟨more₁, hevents₁, hlog₁⟩ := h₁.events
  obtain ⟨more₂, hevents₂, hlog₂⟩ := h₂.events
  have hle₁ := h₁.nodes_le
  have hle₂ := h₂.nodes_le
  refine ⟨⟨more₁ ++ more₂, ?_, ?_⟩, by omega, ?_, ?_⟩
  · rw [hevents₂, hevents₁, append_assoc]
  · rw [filter_append, hlog₁, hlog₂]
  · intro l hl
    rcases mem_append.mp hl with hl | hl
    · have := h₁.numbers l hl
      omega
    · have := h₂.numbers l hl
      omega
  · refine pairwise_append.mpr ⟨h₁.ordered, h₂.ordered, fun a ha b hb => ?_⟩
    have hlt := (h₁.numbers a ha).2
    have hge := (h₂.numbers b hb).1
    omega

/-- Nothing is noted about nodes. -/
theorem passes_nil (hevents : w₁.events = w.events) (hnodes : w.nodes ≤ w₁.nodes) : w.Passes w₁ [] [] :=
  ⟨⟨[], by simp [hevents], rfl⟩, hnodes, by simp, .nil⟩

theorem number_passes (w : World ω) : w.Passes w.number.1 [] [] := passes_nil rfl (Nat.le_succ _)

theorem noteAll_passes (w : World ω) {events : List (Event ω)} (h : ∀ e ∈ events, e.isOfNode = true) :
    w.Passes (w.noteAll events) [] events :=
  ⟨⟨events, rfl, filter_eq_self.mpr h⟩, le_rfl, by simp, .nil⟩

theorem prepare_passes (w : World ω) (t : NodeType ω) : w.Passes (w.prepare t) [] [] := by
  cases t with
  | static s specs links handOn => exact passes_nil rfl le_rfl
  | leaf s b =>
    simp only [prepare]
    split_ifs with hknown hprepares
    · exact passes_nil rfl le_rfl
    · exact ⟨⟨[.prepared s.name], rfl, rfl⟩, le_rfl, by simp, .nil⟩
    · exact passes_nil rfl le_rfl

theorem closings_isOfNode (leaves : List (Leaf ω)) : ∀ e ∈ closings leaves, e.isOfNode = true := by
  intro e he
  obtain ⟨l, -, hl⟩ := mem_flatMap.mp he
  unfold Leaf.closing at hl
  split at hl
  · rw [mem_singleton.mp hl]
    rfl
  · cases hl

theorem opening_isOfNode (l : Leaf ω) : ∀ e ∈ l.opening, e.isOfNode = true := by
  intro e he
  unfold Leaf.opening at he
  split at he
  · rw [mem_singleton.mp he]
    rfl
  · cases he

/-- A leaf that takes the next number is opened. -/
theorem opening_passes {l : Leaf ω} (h : l.id = w.nodes) :
    w.Passes (w.number.1.noteAll l.opening) [l] l.opening where
  events := ⟨l.opening, rfl, filter_eq_self.mpr (opening_isOfNode l)⟩
  nodes_le := Nat.le_succ _
  numbers := by simp [h, number, noteAll]
  ordered := pairwise_singleton _ _

theorem OpensAll.append (h₁ : w.OpensAll w₁ attempts₁ first) (h₂ : w₁.OpensAll w₂ attempts₂ second) :
    w.OpensAll w₂ (attempts₁ ++ attempts₂) (first ++ second) where
  attempts_eq := by rw [h₁.attempts_eq, h₂.attempts_eq, map_append]
  passes := by
    rw [flatMap_append]
    exact h₁.passes.trans h₂.passes

/-- A failure after attempts that succeeded. The leaves of these are closed with those before. -/
theorem OpensAll.opensSome (h₁ : w.OpensAll w₁ attempts₁ first)
    (h₂ : w₁.OpensSome w₂ attempts₂ (before ++ first)) : w.OpensSome w₂ (attempts₁ ++ attempts₂) before := by
  obtain ⟨leaves, failed, rest, past, rfl, hpast, hfails, hpasses⟩ := h₂
  obtain ⟨more, hevents, hmore⟩ := h₁.passes.events
  refine ⟨first ++ leaves, failed, rest, more ++ past, ?_, ?_, ?_, ?_⟩
  · rw [h₁.attempts_eq, map_append, append_assoc]
  · rw [filter_append, hmore, hpast, flatMap_append]
  · rwa [← append_assoc, ← hevents]
  · have htrans := h₁.passes.trans hpasses
    rwa [← append_assoc, ← flatMap_append, append_assoc before] at htrans

/-- After a failure the leaves before are closed. -/
theorem OpensSome.noteAll (h : w.OpensSome w₁ attempts []) (before : List (Leaf ω))
    (more : List (Attempt ω)) : w.OpensSome (w₁.noteAll (closings before)) (attempts ++ more) before := by
  obtain ⟨leaves, failed, rest, past, rfl, hpast, hfails, hpasses⟩ := h
  refine ⟨leaves, failed, rest ++ more, past, by simp, hpast, hfails, ?_⟩
  have htrans := hpasses.trans (noteAll_passes w₁ (closings_isOfNode before))
  rwa [append_nil, nil_append, append_assoc, ← closings_append] at htrans

theorem opensSome_noOptions (w : World ω) (before : List (Leaf ω)) :
    w.OpensSome (w.noteAll (closings before)) [.noOptions] before := by
  refine ⟨[], .noOptions, [], [], rfl, rfl, trivial, ?_⟩
  rw [append_nil]
  exact noteAll_passes w (closings_isOfNode before)

end World

/-! ## Opening -/

theorem World.openLeaf_eq (w : World ω) (b : Behaviour ω) (id : Nat) (name : String) (options : Option ω) :
    (w.openLeaf b id name options = (w.noteAll (Leaf.opening ⟨id, name, options, b⟩), none)) ∨
      ∃ e, w.openLeaf b id name options = (w, some e) ∧ (Attempt.leaf b name options).Fails w.events := by
  unfold openLeaf
  cases hopens : b.opens with
  | none => exact .inl (by simp [Leaf.opening, hopens, noteAll_nil])
  | some failure =>
    cases hfailure : failure w.events name options with
    | none => exact .inl (by simp [Leaf.opening, hopens, hfailure, noteAll, note])
    | some text => exact .inr ⟨.opening name (.failed text), by simp [hfailure], failure, hopens, by simp [hfailure]⟩

/-- A leaf takes a number and does its work, after its type was prepared. -/
theorem NodeType.openNode_leaf (w : World ω) (s : Signature) (b : Behaviour ω) (name : String)
    (options : Option ω) :
    (∀ w' e, (NodeType.leaf s b).openNode w name options = (w', .error e) →
      w.OpensSome w' [.leaf b name options] []) ∧
    ∀ w' n, (NodeType.leaf s b).openNode w name options = (w', .ok n) →
      w.OpensAll w' [.leaf b name options] n.openLeaves := by
  have hprepare := w.prepare_passes (.leaf s b)
  unfold NodeType.openNode
  dsimp only
  obtain hopen | ⟨e, hopen, hfails⟩ := World.openLeaf_eq (w.prepare (.leaf s b)).number.1 b
    (w.prepare (.leaf s b)).number.2 name options
  · refine ⟨fun w' e h => ?_, fun w' n h => ?_⟩
    · rw [hopen] at h
      cases h
    · rw [hopen] at h
      cases h
      have hleaf := World.opening_passes (l := ⟨(w.prepare (.leaf s b)).number.2, name, options, b⟩) rfl
      exact ⟨rfl, by simpa [Node.openLeaves] using hprepare.trans hleaf⟩
  · refine ⟨fun w' e h => ?_, fun w' n h => ?_⟩
    · rw [hopen] at h
      cases h
      have hpasses := hprepare.trans (w.prepare (.leaf s b)).number_passes
      obtain ⟨past, hevents, hpast⟩ := hpasses.events
      exact ⟨[], _, [], past, rfl, hpast, hevents ▸ hfails, hpasses⟩
    · rw [hopen] at h
      cases h

mutual

/-- Opening a node makes the attempts of its type up to one that fails. Leaves that were opened before a failure
are closed. -/
theorem NodeType.openNode_opens (w : World ω) (name : String) (options : Option ω) : ∀ t : NodeType ω,
    (∀ w' e, t.openNode w name options = (w', .error e) → w.OpensSome w' (t.attempts name options) []) ∧
    ∀ w' n, t.openNode w name options = (w', .ok n) → w.OpensAll w' (t.attempts name options) n.openLeaves
  | .leaf s b => by
    simp only [NodeType.attempts]
    exact NodeType.openNode_leaf w s b name options
  | .static s specs links handOn => by
    have hnumber : w.OpensAll w.number.1 [] [] := ⟨rfl, w.number_passes⟩
    obtain ⟨hfailed, hopened⟩ := openAll_opens w.number.1 handOn options 0 [] specs
    rw [NodeType.openNode, NodeType.attempts]
    dsimp only
    cases hall : openAll w.number.1 handOn options 0 [] specs with
    | mk w₁ result =>
      cases result with
      | error e =>
        refine ⟨fun w' e' h => ?_, fun w' n h => by cases h⟩
        cases h
        exact hnumber.opensSome (hfailed w₁ e hall)
      | ok children =>
        refine ⟨fun w' e' h => (by cases h), fun w' n h => ?_⟩
        cases h
        obtain ⟨leaves, hleaves, hopens⟩ := hopened w₁ children hall
        simp only [Node.openLeaves, hleaves, openLeavesOf, nil_append, Bool.false_eq_true, if_false]
        exact hnumber.append hopens

theorem openAll_opens (w : World ω) (handOn : Option (HandOn ω)) (parent : Option ω) (place : Nat)
    (opened : List (Node ω)) : ∀ specs : List (NodeType ω × String × Option ω),
    (∀ w' e, openAll w handOn parent place opened specs = (w', .error e) →
      w.OpensSome w' (attemptsFrom handOn parent place specs) (openLeavesOf opened)) ∧
    ∀ w' ns, openAll w handOn parent place opened specs = (w', .ok ns) →
      ∃ leaves, openLeavesOf ns = openLeavesOf opened ++ leaves ∧
        w.OpensAll w' (attemptsFrom handOn parent place specs) leaves
  | [] => by
    rw [openAll, attemptsFrom]
    refine ⟨fun w' e h => (by cases h), fun w' ns h => ?_⟩
    cases h
    exact ⟨[], (append_nil _).symm, rfl, World.passes_nil rfl le_rfl⟩
  | (type, name, own) :: rest => by
    rw [openAll, attemptsFrom]
    cases childOptions handOn parent place own with
    | error text =>
      refine ⟨fun w' e h => ?_, fun w' ns h => by cases h⟩
      cases h
      rw [closeAll_eq]
      exact w.opensSome_noOptions _
    | ok options =>
      obtain ⟨hchildFailed, hchildOpened⟩ := NodeType.openNode_opens w name options type
      dsimp only
      cases hchild : type.openNode w name options with
      | mk w₁ result =>
        cases result with
        | error e =>
          -- The child closed its own leaves, now those of its earlier siblings are closed.
          refine ⟨fun w' e' h => ?_, fun w' ns h => by cases h⟩
          cases h
          rw [closeAll_eq]
          exact (hchildFailed w₁ e hchild).noteAll _ _
        | ok child =>
          have hfirst := hchildOpened w₁ child hchild
          obtain ⟨hfailed, hopened⟩ := openAll_opens w₁ handOn parent (place + 1) (opened ++ [child]) rest
          have hleaves : openLeavesOf (opened ++ [child]) = openLeavesOf opened ++ child.openLeaves := by
            rw [openLeavesOf_append, openLeavesOf, openLeavesOf, append_nil]
          rw [hleaves] at hfailed hopened
          refine ⟨fun w' e h => hfirst.opensSome (hfailed w' e h), fun w' ns h => ?_⟩
          obtain ⟨leaves, hns, hopens⟩ := hopened w' ns h
          exact ⟨child.openLeaves ++ leaves, by rw [hns, append_assoc], hfirst.append hopens⟩

end

/-- A node is opened and closed last in, first out. If opening it fails, at the first attempt that does, the
leaves that were opened before are closed in reverse, and nothing else. If it succeeds, all leaves are opened,
depth first, and none is closed; closing the node, once or more often, closes them in reverse. -/
theorem openNode_last_in_first_out (w : World ω) (t : NodeType ω) (name : String) (options : Option ω) :
    (∀ w' e, openNode w (some t) name options = (w', .error e) →
      ∃ leaves failed rest past, t.attempts name options = leaves.map Leaf.attempt ++ failed :: rest ∧
        past.filter (·.isOfNode) = leaves.flatMap Leaf.opening ∧ failed.Fails (w.events ++ past) ∧
        w.Passes w' leaves (leaves.flatMap Leaf.opening ++ leaves.reverse.flatMap Leaf.closing)) ∧
    ∀ w' n, openNode w (some t) name options = (w', .ok n) →
      ∃ leaves, t.attempts name options = leaves.map Leaf.attempt ∧
        w.Passes w' leaves (leaves.flatMap Leaf.opening) ∧
        ∀ w₁ k, ((fun p : World ω × Node ω => p.2.close p.1)^[k + 1] (w₁, n)).1 =
          w₁.noteAll (leaves.reverse.flatMap Leaf.closing) := by
  obtain ⟨hfailed, hopened⟩ := NodeType.openNode_opens w name options t
  refine ⟨hfailed, fun w' n h => ?_⟩
  have hopens := hopened w' n h
  exact ⟨n.openLeaves, hopens.attempts_eq, hopens.passes, fun w₁ k => n.close_iterate w₁ k⟩

/-- A leaf that opens and closes, or one that fails to open. -/
def stageType (fails : Bool) : NodeType Unit :=
  .leaf ⟨0, "stage", [], []⟩ { opens := some fun _ _ _ => if fails then some "stuck" else none, closes := true }

/-- A node with a node among its children, the second child of which may fail to open. -/
def stagedType (fails : Bool) : NodeType Unit :=
  .static ⟨1, "staged", [], []⟩ [
    (stageType false, "a", none),
    (.static ⟨2, "inner", [], []⟩ [(stageType false, "b", none), (stageType fails, "c", none)] [] none, "i", none),
    (stageType false, "d", none)] [] none

/-- A failure two nodes deep, and a node that is closed any number of times. -/
theorem openNode_last_in_first_out_staged :
    (∃ w' e, openNode {} (some (stagedType true)) "root" none = (w', .error e) ∧ ∃ leaves : List (Leaf Unit),
      leaves.flatMap Leaf.opening ++ leaves.reverse.flatMap Leaf.closing =
        [.opened 1 "a" none, .opened 3 "b" none, .closed 3 "b", .closed 1 "a"] ∧
      World.Passes {} w' leaves (leaves.flatMap Leaf.opening ++ leaves.reverse.flatMap Leaf.closing)) ∧
    ∃ w' n, openNode {} (some (stagedType false)) "root" none = (w', .ok n) ∧
      ∀ (w₁ : World Unit) k, ((fun p : World Unit × Node Unit => p.2.close p.1)^[k + 1] (w₁, n)).1 =
        w₁.noteAll [.closed 5 "d", .closed 4 "c", .closed 3 "b", .closed 1 "a"] := by
  constructor
  · obtain ⟨leaves, failed, rest, past, -, -, -, hpasses⟩ :=
      (openNode_last_in_first_out {} (stagedType true) "root" none).1 _ _ rfl
    obtain ⟨more, hevents, hlog⟩ := hpasses.events
    refine ⟨_, _, rfl, leaves, ?_, hpasses⟩
    rw [← hlog, ← nil_append more, ← hevents]
    rfl
  · obtain ⟨leaves, -, -, hclose⟩ := (openNode_last_in_first_out {} (stagedType false) "root" none).2 _ _ rfl
    have hclosings : [.closed 5 "d", .closed 4 "c", .closed 3 "b", .closed 1 "a"] =
        leaves.reverse.flatMap Leaf.closing := congrArg World.events (hclose {} 0)
    exact ⟨_, _, rfl, fun w₁ k => hclosings ▸ hclose w₁ k⟩

end FlowCompiler.Live
