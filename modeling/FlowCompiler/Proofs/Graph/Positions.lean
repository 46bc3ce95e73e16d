import FlowCompiler.Proofs.Graph.Spots
import FlowCompiler.Proofs.Graph.WellFormed
import FlowCompiler.Proofs.Text.Bytes

/-!
# Positions of a graph

What a graph has a position for stands in the text at that position. This holds of the statements that are read
(`Statement.Placed`); taking them into the graph keeps it (`Graph.Placed`), also where the component of a node is
given after its first mention and the node gets the position of the later one. A contradiction between
statements is blamed on one of their positions (`Graph.add_blames`), and connections, exports, declarations and
options come in the order of the text (`Graph.marks`).

Main statement: `Graph.parse_positions`, in terms of the bytes of the text and their offsets.
-/

namespace FlowCompiler

open List
open Cursor (Blames)

variable {ss : List Statement} {s : Statement} {ls : List Link} {i source : Nat} {m : Mention}
  {name text w : String} {direction : Direction} {e : ExportedPort} {bytes : List Nat} {k : Connection}

namespace Graph

variable {pos : Position}

/-! ## Places of nodes and what refers to them -/

/-- The word that stands for a node in a text: its name, or `_` for a node whose name spells its position. -/
def Node.Written (n : Node) (w : String) : Prop :=
  IsName w ∧ (w ≠ "_" ∧ n.name = w ∨ w = "_" ∧ n.name = Mention.anonymousName n.pos)

/-- The text says the word of a node with its component, and the keys of its settings. -/
structure Node.Placed (c : Cursor) (n : Node) : Prop where
  pos : c.Says n.pos []
  component : n.component ≠ "" →
    ∃ w, n.Written w ∧ c.Says n.pos (w.toList ++ '(' :: n.component.toList)
  settings : ∀ m ∈ n.settings, c.Says m.pos m.key.toList

/-- What a graph has a position for stands in the text there. -/
structure Placed (c : Cursor) (g : Graph) : Prop where
  nodes : ∀ n ∈ g.nodes, n.Placed c
  connections : ∀ k ∈ g.connections, c.Says k.pos k.sourcePort.name.toList
  exports : ∀ direction, ∀ e ∈ g.exports direction,
    c.Says e.pos ((g.nodeName e.node).toList ++ '.' :: e.port.name.toList)
  declarations : ∀ d ∈ g.declarations, d.Placed c
  options : ∀ o ∈ g.options,
    c.Says o.pos ((g.nodeName o.node).toList ++ '.' :: (o.option.toList ++ ':' :: o.name.toList))

variable {c : Cursor} {g g' : Graph}

theorem placed_empty (c : Cursor) : Placed c {} where
  nodes := by simp
  connections := by simp
  exports direction := by cases direction <;> simp [Graph.exports]
  declarations := by simp
  options := by simp

/-- Nodes may be added or changed as long as those that are there keep their names. -/
theorem Placed.withNodes (h : g.Placed c) (hg : g.Consistent) {nodes : List Node}
    (hnodes : ∀ n ∈ nodes, n.Placed c)
    (hnames : ∀ i < g.nodes.length, nodeName { g with nodes } i = g.nodeName i) :
    Placed c { g with nodes } where
  nodes := hnodes
  connections := h.connections
  exports direction e he := by
    have he' : e ∈ g.exports direction := by cases direction <;> exact he
    rw [hnames e.node ((hg.exports direction).nodes e he')]
    exact h.exports direction e he'
  declarations := h.declarations
  options o ho := by
    rw [hnames o.node (hg.optionNodes o ho)]
    exact h.options o ho

theorem nodeName_of_getElem? {n : Node} (h : g.nodes[i]? = some n) : g.nodeName i = n.name := by
  rw [nodeName, h]

theorem place_placed (h : g.Placed c) (hg : g.Consistent) (hpos : c.Says pos [])
    (hp : g.place name pos = (g', i)) : g'.Placed c := by
  obtain ⟨rfl, -⟩ | ⟨-, -, rfl⟩ := place_cases hp
  · exact h
  · refine h.withNodes hg (forall_mem_append.mpr ⟨h.nodes, ?_⟩) fun j hj => ?_
    · exact forall_mem_singleton.mpr ⟨hpos, fun hne => absurd rfl hne, forall_mem_nil _⟩
    · simp only [nodeName, getElem?_append_left hj]

theorem place_nodeName (hp : g.place name pos = (g', i)) : g'.nodeName i = name := by
  obtain ⟨n, hn, hname⟩ := place_getElem? hp
  rw [nodeName_of_getElem? hn, hname]

/-- A mention gives the node of its name a component that stands where the mention stands. -/
theorem Node.Placed.add {n n₁ n' : Node} (h : n.Placed c) (hm : m.Placed c) (hspelled : IsName m.name)
    (hname : n.name = m.nodeName) (h₁ : n.addComponent m.component m.pos = .ok n₁)
    (h' : n₁.addSettings m.settings = .ok n') : n'.Placed c := by
  have hn₁ : n₁.Placed c := by
    obtain ⟨-, rfl⟩ | ⟨hne, -, rfl⟩ := addComponent_iff.mp h₁
    · exact h
    · refine ⟨hm.name.shorten nil_prefix, fun _ => ⟨m.name, ⟨hspelled, ?_⟩, hm.component hne⟩, h.settings⟩
      by_cases hu : m.name = "_"
      · exact .inr ⟨hu, by simpa [Mention.nodeName, hu] using hname⟩
      · exact .inl ⟨hu, by simpa [Mention.nodeName, hu] using hname⟩
  obtain ⟨rfl, -⟩ := addSettings_eq_ok h'
  exact ⟨hn₁.pos, hn₁.component, forall_mem_append.mpr ⟨hn₁.settings, hm.settings⟩⟩

theorem addMention_placed (h : g.Placed c) (hg : g.Consistent) (hm : m.Placed c) (hspelled : IsName m.name)
    (ha : g.addMention m = .ok (g', i)) : g'.Placed c := by
  obtain ⟨g₁, n, n₁, n', hp, hn, hname, hn₁, hn', rfl⟩ := addMention_eq_ok ha
  have h₁ := place_placed h hg (hm.name.shorten nil_prefix) hp
  -- the node keeps its name, so whatever refers to it still says what the text says
  refine h₁.withNodes (place_consistent hg hp) (fun k hk => ?_) fun j hj => ?_
  · rcases mem_or_eq_of_mem_set hk with hk | rfl
    · exact h₁.nodes k hk
    · exact (h₁.nodes n (mem_of_getElem? hn)).add hm hspelled hname hn₁ hn'
  · have hsame : n'.name = n.name := by
      rw [(Node.addSettings_eq_ok hn').1, ← (Node.addComponent_eq_ok hn₁).1]
    by_cases hij : i = j
    · subst hij
      simp only [nodeName, getElem?_set_self hj, hn, hsame]
    · simp only [nodeName, getElem?_set_ne hij]

theorem addConnection_placed (h : g.Placed c) (hk : c.Says k.pos k.sourcePort.name.toList)
    (ha : g.addConnection k = .ok g') : g'.Placed c := by
  obtain ⟨-, rfl⟩ := addConnection_eq_ok ha
  exact ⟨h.nodes, forall_mem_append.mpr ⟨h.connections, forall_mem_singleton.mpr hk⟩,
    h.exports, h.declarations, h.options⟩

theorem addLinks_placed (h : g.Placed c) (hg : g.Consistent) (hs : source < g.nodes.length)
    (hls : ∀ l ∈ ls, l.Placed c ∧ IsName l.node.name) (ha : g.addLinks source ls = .ok g') : g'.Placed c := by
  induction ls generalizing g source with
  | nil =>
    cases ha
    exact h
  | cons l ls ih =>
    obtain ⟨⟨g₁, target⟩, h₁, ha⟩ := bind_eq_ok.mp ha
    obtain ⟨g₂, h₂, ha⟩ := bind_eq_ok.mp ha
    obtain ⟨⟨hl, hname⟩, hls⟩ := forall_mem_cons.mp hls
    have hg₁ := addMention_consistent hg h₁
    have ht := addMention_lt h₁
    have hs₁ := Nat.lt_of_lt_of_le hs (addMention_length_le h₁)
    have hplaced := addConnection_placed (addMention_placed h hg hl.node hname h₁) hl.port h₂
    have ht₂ : target < g₂.nodes.length := by
      rw [(addConnection_eq_ok h₂).2]
      exact ht
    exact ih hplaced (addConnection_consistent hg₁ hs₁ ht h₂) ht₂ hls ha

theorem addExport_placed (h : g.Placed c)
    (he : c.Says e.pos ((g.nodeName e.node).toList ++ '.' :: e.port.name.toList))
    (ha : g.addExport direction e = .ok g') : g'.Placed c := by
  obtain ⟨_, -, ha⟩ := bind_eq_ok.mp ha
  have hnew := forall_mem_append.mpr ⟨h.exports direction, forall_mem_singleton.mpr he⟩
  cases direction with
  | input =>
    cases ha
    refine ⟨h.nodes, h.connections, fun direction => ?_, h.declarations, h.options⟩
    cases direction with
    | input => exact hnew
    | output => exact h.exports .output
  | output =>
    cases ha
    refine ⟨h.nodes, h.connections, fun direction => ?_, h.declarations, h.options⟩
    cases direction with
    | input => exact h.exports .input
    | output => exact hnew

theorem add_placed (h : g.Placed c) (hg : g.Consistent) (hs : s.Placed c) (hspelled : s.Spelled)
    (ha : g.add s = .ok g') : g'.Placed c := by
  cases s with
  | chain head links =>
    obtain ⟨⟨g₁, source⟩, h₁, ha⟩ := bind_eq_ok.mp ha
    obtain ⟨hhead, hlinks⟩ := forall_mem_cons.mp hspelled
    refine addLinks_placed (addMention_placed h hg hs.1 hhead.1 h₁) (addMention_consistent hg h₁)
      (addMention_lt h₁) (fun l hl => ⟨hs.2 l hl, ?_⟩) ha
    exact (hlinks l.node (mem_map_of_mem hl)).1
  | exportPort direction node port name pos =>
    rcases hp : g.place node pos with ⟨g₁, i⟩
    simp only [add, hp] at ha
    refine addExport_placed (place_placed h hg (Cursor.Says.shorten hs nil_prefix) hp) ?_ ha
    rw [place_nodeName hp]
    exact hs
  | declare d =>
    obtain ⟨-, rfl⟩ := addDeclaration_eq_ok ha
    exact ⟨h.nodes, h.connections, h.exports,
      forall_mem_append.mpr ⟨h.declarations, forall_mem_singleton.mpr hs⟩, h.options⟩
  | exportOption node option name pos =>
    obtain ⟨_, -, ha⟩ := bind_eq_ok.mp ha
    rcases hp : g.place node pos with ⟨g₁, i⟩
    simp only [hp] at ha
    cases ha
    have h₁ := place_placed h hg (Cursor.Says.shorten hs nil_prefix) hp
    refine ⟨h₁.nodes, h₁.connections, h₁.exports, h₁.declarations,
      forall_mem_append.mpr ⟨h₁.options, forall_mem_singleton.mpr ?_⟩⟩
    have hname : g₁.nodeName i = node := place_nodeName hp
    simp only [nodeName] at hname ⊢
    rw [hname]
    exact hs

theorem addAll_placed (h : g.Placed c) (hg : g.Consistent) (hss : ∀ s ∈ ss, s.Placed c ∧ s.Spelled)
    (ha : g.addAll ss = .ok g') : g'.Placed c := by
  induction ss generalizing g with
  | nil =>
    cases ha
    exact h
  | cons s ss ih =>
    obtain ⟨g₁, h₁, ha⟩ := bind_eq_ok.mp ha
    obtain ⟨hs, hss⟩ := forall_mem_cons.mp hss
    exact ih (add_placed h hg hs.1 hs.2 h₁) (add_consistent hg h₁) hss ha

/-! ## Places of contradictions -/

theorem Node.addComponent_blames (n : Node) {component : String} (hpos : c.Says pos []) :
    c.Blames (n.addComponent component pos) := by
  unfold addComponent
  split
  · exact .ok _
  · split
    · exact .ok _
    · rintro e ⟨⟩
      exact hpos

theorem Node.addSettings_blames (n : Node) {ms : List Meta} (hms : ∀ m ∈ ms, c.Says m.pos m.key.toList) :
    c.Blames (n.addSettings ms) := by
  induction ms generalizing n with
  | nil => exact .ok _
  | cons m ms ih =>
    obtain ⟨hm, hms⟩ := forall_mem_cons.mp hms
    unfold addSettings
    split
    · rintro e ⟨⟩
      exact hm.shorten nil_prefix
    · exact ih _ hms

theorem addMention_blames (g : Graph) (hm : m.Placed c) : c.Blames (g.addMention m) := by
  unfold addMention
  dsimp only
  refine .bind ?_ fun _ _ => .ok _
  unfold modifyNode
  split
  · exact .ok _
  · next n _ =>
    refine .map ((n.addComponent_blames (hm.name.shorten nil_prefix)).bind fun n₁ _ => ?_)
    exact n₁.addSettings_blames hm.settings

theorem addConnection_blames (g : Graph) (hk : c.Says k.pos []) : c.Blames (g.addConnection k) := by
  unfold addConnection
  split
  · rintro e ⟨⟩
    exact hk
  · exact .ok _

theorem addLinks_blames (g : Graph) (source : Nat) (hls : ∀ l ∈ ls, l.Placed c) :
    c.Blames (g.addLinks source ls) := by
  induction ls generalizing g source with
  | nil => exact .ok _
  | cons l ls ih =>
    obtain ⟨hl, hls⟩ := forall_mem_cons.mp hls
    refine .bind (g.addMention_blames hl.node) fun r _ => ?_
    exact .bind (r.1.addConnection_blames (hl.port.shorten nil_prefix)) fun g₂ _ => ih g₂ r.2 hls

theorem checkExport_blames (g : Graph) (direction : Direction) (he : c.Says e.pos []) :
    c.Blames (g.checkExport direction e) := by
  unfold checkExport
  split
  · exact .ok _
  · split
    · rintro e ⟨⟩
      exact he
    · rintro e ⟨⟩
      exact he

theorem add_blames (g : Graph) (hs : s.Placed c) : c.Blames (g.add s) := by
  cases s with
  | chain head links =>
    exact .bind (g.addMention_blames hs.1) fun r _ => r.1.addLinks_blames r.2 hs.2
  | exportPort direction node port name pos =>
    have hpos := Cursor.Says.shorten hs nil_prefix
    exact .bind (checkExport_blames _ direction hpos) fun _ _ => .ok _
  | declare d =>
    obtain ⟨e, raw, r, he, hpos, -⟩ := hs
    simp only [add, addDeclaration]
    split
    · rw [← hpos]
      exact .error he _
    · exact .ok _
  | exportOption node option name pos =>
    refine .bind ?_ fun _ _ => .ok _
    unfold checkOption
    split
    · rintro e ⟨⟩
      exact Cursor.Says.shorten hs nil_prefix
    · exact .ok _

theorem addAll_blames (g : Graph) (hss : ∀ s ∈ ss, s.Placed c) : c.Blames (g.addAll ss) := by
  induction ss generalizing g with
  | nil => exact .ok _
  | cons s ss ih =>
    obtain ⟨hs, hss⟩ := forall_mem_cons.mp hss
    exact .bind (g.add_blames hs) fun g₁ _ => ih g₁ hss

theorem checkTyped_blames (h : g.Placed c) : c.Blames g.checkTyped := by
  unfold checkTyped
  split
  · next n hfind =>
    rintro e ⟨⟩
    exact (h.nodes n (mem_of_find?_eq_some hfind)).pos
  · exact .ok _

theorem placed_of_addAll (ht : Statement.ofText text = (ss, none)) (hg : addAll {} ss = .ok g) :
    g.Placed (.ofList text.toList) := by
  refine addAll_placed (placed_empty _) consistent_empty (fun s hs => ⟨?_, ?_⟩) hg
  · exact Cursor.statements_placed _ s (by rw [show Cursor.statements _ = _ from ht]; exact hs)
  · exact Cursor.statements_spelled ht s hs

theorem placed_of_parse (h : parse text = .ok g) : g.Placed (.ofList text.toList) := by
  obtain ⟨ss, ht, hg, -⟩ := parse_eq_ok h
  exact placed_of_addAll ht hg

/-- A text that is refused is refused for a place in it. -/
theorem parse_blames (text : String) : (Cursor.ofList text.toList).Blames (parse text) := by
  have hplaced := Cursor.statements_placed (.ofList text.toList)
  have hfault := Cursor.statements_blames (.ofList text.toList)
  unfold parse
  rcases ht : Statement.ofText text with ⟨ss, fault⟩
  rw [show Cursor.statements _ = _ from ht] at hplaced hfault
  -- statements before a fault of form are taken in first, and may contradict each other
  refine .bind (addAll_blames {} hplaced) fun g hg => ?_
  cases fault with
  | some e =>
    rintro e' ⟨⟩
    exact hfault e rfl
  | none => exact checkTyped_blames (placed_of_addAll ht hg)

end Graph

/-! ## The order of the text -/

/-- What comes in the order of the text. -/
inductive Mark where
  | connection
  | exported (direction : Direction)
  | declaration
  | option
deriving DecidableEq

/-- The positions of a statement for a kind of mark. -/
def Statement.marks (k : Mark) : Statement → List Position
  | .chain _ links => if k = .connection then links.map (·.pos) else []
  | .exportPort direction _ _ _ pos => if k = .exported direction then [pos] else []
  | .declare d => if k = .declaration then [d.pos] else []
  | .exportOption _ _ _ pos => if k = .option then [pos] else []

namespace Cursor

variable {c d : Cursor}

theorem links_between (h : c.links = (ls, .ok d)) : c.Between d (ls.map (·.pos)) := by
  fun_induction links c generalizing ls with
  | case1 | case3 => cases h
  | case2 =>
    cases h
    exact .nil _ _
  | case4 c d1 h1 _ l e h2 ls' r hr ih =>
    simp only [Prod.mk.injEq] at h
    obtain ⟨rfl, rfl⟩ := h
    have hl : c.Between e [l.pos] := by
      rw [(link_placed h2).1]
      exact (Between.singleton (link_gets h2)).widen (skipSpace_reaches h1) (.refl e)
    exact hl.append (ih hr) ((skipSpace_reaches h1).trans (link_reaches h2)) (links_reaches hr)

theorem chain_between (h : c.chain = (ss, .ok d)) (k : Mark) :
    c.Between d (ss.flatMap (Statement.marks k)) := by
  unfold chain at h
  split at h
  · cases h
  · next head e hm =>
    simp only [Prod.mk.injEq] at h
    obtain ⟨rfl, hr⟩ := h
    have hlinks : e.Between d (e.links.1.map (·.pos)) := links_between (Prod.ext rfl hr)
    rw [flatMap_singleton, Statement.marks]
    split
    · exact hlinks.widen (mention_reaches hm) (.refl d)
    · exact .nil _ _

/-- An export has the position that its reader starts at, and at least a name is read from there. -/
theorem exportPort_between (h : exportPort direction c = .ok (s, d)) (k : Mark) :
    c.Between d (s.marks k) := by
  obtain ⟨node, e, port, f, name, hw, hnode, -, hport, -, hx, -, rfl⟩ := exportPort_read h
  rw [Statement.marks]
  split
  · have hf : e.Reaches f := (next_reaches e).trans (port_reaches hport)
    exact .of_word hw hnode (hf.trans ((next_reaches f).trans (word_reaches hx)))
  · exact .nil _ _

theorem declare_between (h : declare c = .ok (s, d)) (k : Mark) : c.Between d (s.marks k) := by
  obtain ⟨name, e, kind, f, raw, hw, hname, -, hx, -, -, hy, -, rfl⟩ := declare_read h
  rw [Statement.marks]
  split
  · have hf : e.Reaches f := (next_reaches e).trans (word_reaches hx)
    exact .of_word hw hname (hf.trans ((next_reaches f).trans (word_reaches hy)))
  · exact .nil _ _

theorem exportOption_between (h : exportOption c = .ok (s, d)) (k : Mark) : c.Between d (s.marks k) := by
  obtain ⟨node, e, option, f, name, hw, hnode, -, hx, -, hy, -, rfl⟩ := exportOption_read h
  rw [Statement.marks]
  split
  · have hf : e.Reaches f := (next_reaches e).trans (word_reaches hx)
    exact .of_word hw hnode (hf.trans ((next_reaches f).trans (word_reaches hy)))
  · exact .nil _ _

theorem keyword?_between {read : Cursor → Except ParseError (Statement × Cursor)}
    (hw : keyword? w = some read) (h : read c = .ok (s, d)) (k : Mark) : c.Between d (s.marks k) := by
  obtain ⟨direction, rfl⟩ | rfl | rfl := keyword?_eq_some hw
  · exact exportPort_between h k
  · exact declare_between h k
  · exact exportOption_between h k

theorem statement_between (h : c.statement = (ss, .ok d)) (k : Mark) :
    c.Between d (ss.flatMap (Statement.marks k)) := by
  obtain ⟨w, e, read, hw, hpeek, hk, ⟨s, e', hr, hs⟩ | ⟨e', -, hs⟩⟩ | hs := statement_cases c
  · rw [hs] at h
    cases h
    rw [flatMap_singleton]
    exact (keyword?_between hk hr k).widen ((word_reaches hw).trans (next_reaches e)) (.refl d)
  · rw [hs] at h
    cases h
  · rw [hs] at h
    exact chain_between h k

end Cursor

namespace Graph

/-- The positions of a graph for a kind of mark, in the graph's order. -/
def marks (g : Graph) : Mark → List Position
  | .connection => g.connections.map (·.pos)
  | .exported direction => (g.exports direction).map (·.pos)
  | .declaration => g.declarations.map (·.pos)
  | .option => g.options.map (·.pos)

variable {g g' : Graph}

theorem marks_withNodes (g : Graph) (nodes : List Node) (k : Mark) :
    marks { g with nodes } k = g.marks k := by
  cases k with
  | exported direction => cases direction <;> rfl
  | connection | declaration | option => rfl

theorem place_marks {pos : Position} (h : g.place name pos = (g', i)) (k : Mark) :
    g'.marks k = g.marks k := by
  obtain ⟨rfl, -⟩ | ⟨-, -, rfl⟩ := place_cases h
  · rfl
  · exact g.marks_withNodes _ k

theorem addMention_marks (h : g.addMention m = .ok (g', i)) (k : Mark) : g'.marks k = g.marks k := by
  obtain ⟨g₁, n, n₁, n', hp, -, -, -, -, rfl⟩ := addMention_eq_ok h
  rw [marks_withNodes, place_marks hp]

theorem addConnection_marks {l : Connection} (h : g.addConnection l = .ok g') (k : Mark) :
    g'.marks k = g.marks k ++ if k = .connection then [l.pos] else [] := by
  obtain ⟨-, rfl⟩ := addConnection_eq_ok h
  cases k with
  | connection => simp [marks]
  | exported direction => cases direction <;> simp [marks, Graph.exports]
  | declaration | option => simp [marks]

theorem addLinks_marks (h : g.addLinks source ls = .ok g') (k : Mark) :
    g'.marks k = g.marks k ++ if k = .connection then ls.map (·.pos) else [] := by
  induction ls generalizing g source with
  | nil =>
    cases h
    simp
  | cons l ls ih =>
    obtain ⟨⟨g₁, target⟩, h₁, h⟩ := bind_eq_ok.mp h
    obtain ⟨g₂, h₂, h⟩ := bind_eq_ok.mp h
    rw [ih h, addConnection_marks h₂, addMention_marks h₁, append_assoc]
    split <;> rfl

/-- A statement appends its own positions. -/
theorem add_marks (h : g.add s = .ok g') (k : Mark) : g'.marks k = g.marks k ++ s.marks k := by
  cases s with
  | chain head links =>
    obtain ⟨⟨g₁, source⟩, h₁, h⟩ := bind_eq_ok.mp h
    rw [addLinks_marks h, addMention_marks h₁]
    rfl
  | exportPort direction node port name pos =>
    rcases hp : g.place node pos with ⟨g₁, i⟩
    simp only [add, hp] at h
    obtain ⟨_, -, h⟩ := bind_eq_ok.mp h
    rw [← place_marks hp]
    cases direction <;> cases h <;> cases k with
    | exported d => cases d <;> simp [marks, Statement.marks, Graph.exports]
    | connection | declaration | option => simp [marks, Statement.marks]
  | declare d =>
    obtain ⟨-, rfl⟩ := addDeclaration_eq_ok h
    cases k with
    | exported d => cases d <;> simp [marks, Statement.marks, Graph.exports]
    | connection | declaration | option => simp [marks, Statement.marks]
  | exportOption node option name pos =>
    obtain ⟨_, -, h⟩ := bind_eq_ok.mp h
    rcases hp : g.place node pos with ⟨g₁, i⟩
    simp only [hp] at h
    rw [← place_marks hp]
    cases h
    cases k with
    | exported d => cases d <;> simp [marks, Statement.marks, Graph.exports]
    | connection | declaration | option => simp [marks, Statement.marks]

theorem addAll_marks (h : g.addAll ss = .ok g') (k : Mark) :
    g'.marks k = g.marks k ++ ss.flatMap (Statement.marks k) := by
  induction ss generalizing g with
  | nil =>
    cases h
    simp
  | cons s ss ih =>
    obtain ⟨g₁, h₁, h⟩ := bind_eq_ok.mp h
    rw [ih h, add_marks h₁, append_assoc, flatMap_cons]

theorem marks_empty (k : Mark) : marks {} k = [] := by
  cases k with
  | exported direction => cases direction <;> rfl
  | connection | declaration | option => rfl

theorem marks_before_of_parse (h : parse text = .ok g) (k : Mark) : (g.marks k).Pairwise Position.Before := by
  obtain ⟨ss, ht, hg, -⟩ := parse_eq_ok h
  obtain ⟨d, -, hbetween⟩ := Cursor.statements_between (Cursor.statement_between · k) ht
  rw [addAll_marks hg, marks_empty, nil_append]
  exact hbetween.1

end Graph

/-! ## Offsets in bytes -/

/-- The bytes say `w` at an offset that `p` is the line and the column of. -/
def SaysAt (bytes : List Nat) (p : Position) (w : String) : Prop :=
  ∃ offset ≤ bytes.length, p = .ofOffset bytes offset ∧ Text.bytesOf w.toList <+: bytes.drop offset

theorem Cursor.Says.saysAt (hbytes : ∀ b ∈ bytes, b < 256) {p : Position}
    (h : (Cursor.ofList (Text.ofBytes bytes)).Says p w.toList) : SaysAt bytes p w := by
  obtain ⟨d, ⟨cs, hrest, hpos⟩, rfl, r, hr⟩ := h
  have hsafe : ∀ x ∈ cs, Text.LineSafe x := by
    intro x hx
    refine Text.lineSafe_ofBytes hbytes x ?_
    rw [show Text.ofBytes bytes = cs ++ d.rest from hrest]
    exact mem_append_left _ hx
  -- the offset is the number of bytes that the cursor has passed
  have hsplit : bytes = Text.bytesOf cs ++ Text.bytesOf d.rest := by
    rw [← Text.bytesOf_append, ← hrest]
    exact (Text.bytesOf_ofBytes hbytes).symm
  refine ⟨(Text.bytesOf cs).length, ?_, ?_, ?_⟩
  · rw [hsplit, length_append]
    exact Nat.le_add_right _ _
  · rw [hpos, hsplit]
    exact Position.advanceAll_eq_ofOffset hsafe _
  · rw [hsplit, drop_left, ← hr, Text.bytesOf_append]
    exact prefix_append _ _

/-- What a graph has positions for stands in the bytes at the offsets of these positions: a node by the word
for it with its component, a setting by its key, a connection by its source port, an exported port, a
declaration and an exported option by their parts. What comes in the order of the text has growing positions. -/
structure Graph.Pointed (bytes : List Nat) (g : Graph) : Prop where
  nodes : ∀ n ∈ g.nodes, ∃ w, n.Written w ∧ SaysAt bytes n.pos (w ++ "(" ++ n.component)
  settings : ∀ n ∈ g.nodes, ∀ m ∈ n.settings, SaysAt bytes m.pos m.key
  connections : ∀ c ∈ g.connections, SaysAt bytes c.pos c.sourcePort.name
  exports : ∀ direction, ∀ e ∈ g.exports direction,
    SaysAt bytes e.pos (g.nodeName e.node ++ "." ++ e.port.name)
  declarations : ∀ d ∈ g.declarations, SaysAt bytes d.pos (d.name ++ ":" ++ d.kind ++ ":")
  options : ∀ o ∈ g.options, SaysAt bytes o.pos (g.nodeName o.node ++ "." ++ o.option ++ ":" ++ o.name)
  ordered : ∀ k, (g.marks k).Pairwise Position.Before

namespace Graph

theorem pointed_of_parse (hbytes : ∀ b ∈ bytes, b < 256) {g : Graph}
    (h : parse (String.ofList (Text.ofBytes bytes)) = .ok g) : g.Pointed bytes := by
  have hplaced := placed_of_parse h
  obtain ⟨ss, -, -, htyped⟩ := parse_eq_ok h
  rw [String.toList_ofList] at hplaced
  constructor
  · intro n hn
    obtain ⟨w, hw, hspot⟩ := (hplaced.nodes n hn).component (htyped n hn)
    exact ⟨w, hw, Cursor.Says.saysAt hbytes (by simpa using hspot)⟩
  · exact fun n hn m hm => ((hplaced.nodes n hn).settings m hm).saysAt hbytes
  · exact fun c hc => (hplaced.connections c hc).saysAt hbytes
  · exact fun direction e he => Cursor.Says.saysAt hbytes (by simpa using hplaced.exports direction e he)
  · intro d hd
    obtain ⟨e, raw, r, he, hpos, hrest, -⟩ := hplaced.declarations d hd
    refine Cursor.Says.saysAt hbytes ⟨e, he, hpos, raw ++ r, ?_⟩
    rw [hrest]
    simp
  · exact fun o ho => Cursor.Says.saysAt hbytes (by simpa using hplaced.options o ho)
  · exact marks_before_of_parse h

/-- Positions point at what they describe, whatever bytes a text has: in a graph that is read, and in the error
where none is. -/
theorem parse_positions (bytes : List UInt8) :
    (∀ g, parse (String.ofList (Text.ofBytes (bytes.map UInt8.toNat))) = .ok g →
      g.Pointed (bytes.map UInt8.toNat)) ∧
    ∀ e, parse (String.ofList (Text.ofBytes (bytes.map UInt8.toNat))) = .error e →
      ∃ offset ≤ bytes.length, e.pos = .ofOffset (bytes.map UInt8.toNat) offset := by
  have hoctets : ∀ b ∈ bytes.map UInt8.toNat, b < 256 := by
    intro b hb
    obtain ⟨u, -, rfl⟩ := mem_map.mp hb
    exact u.toNat_lt
  refine ⟨fun g h => pointed_of_parse hoctets h, fun e h => ?_⟩
  have hspot := parse_blames _ e h
  rw [String.toList_ofList] at hspot
  obtain ⟨offset, hle, hpos, -⟩ := Cursor.Says.saysAt (w := "") hoctets hspot
  exact ⟨offset, by simpa using hle, hpos⟩

/-- Bytes of a flow that are no text of characters, where a node gets its component after its first mention and
a clause goes over a line end. -/
def mixedBytes : List UInt8 :=
  "OPTION=b.k:limit # \xff\r\nDECLARE=s:fbp:s.fbp\na(t) OUT -> IN b\nb(c:\n k=1) OUT[2] -> IN _(s)".toList.map
    fun c => .ofNat c.toNat

theorem parse_positions_mixed :
    (∃ g, parse (String.ofList (Text.ofBytes (mixedBytes.map UInt8.toNat))) = .ok g ∧
      g.nodes.map (·.pos) = [⟨4, 1⟩, ⟨3, 1⟩, ⟨5, 20⟩] ∧ g.Pointed (mixedBytes.map UInt8.toNat)) ∧
    ∃ e, parse (String.ofList (Text.ofBytes ((mixedBytes ++ [32, 195, 169]).map UInt8.toNat))) = .error e ∧
      e.pos = ⟨5, 25⟩ ∧
      ∃ offset ≤ (mixedBytes ++ [32, 195, 169]).length,
        e.pos = .ofOffset ((mixedBytes ++ [32, 195, 169]).map UInt8.toNat) offset := by
  have hread : parse (String.ofList (Text.ofBytes (mixedBytes.map UInt8.toNat))) = .ok
      { nodes := [⟨"b", "c", [⟨"k", "1", ⟨5, 2⟩⟩], ⟨4, 1⟩⟩, ⟨"a", "t", [], ⟨3, 1⟩⟩,
          ⟨"#anon:5:20", "s", [], ⟨5, 20⟩⟩]
        connections := [⟨1, ⟨"OUT", none⟩, 0, ⟨"IN", none⟩, ⟨3, 6⟩⟩,
          ⟨0, ⟨"OUT", some 2⟩, 2, ⟨"IN", none⟩, ⟨5, 7⟩⟩]
        declarations := [⟨"s", "fbp", "s.fbp", ⟨2, 9⟩⟩]
        options := [⟨0, "k", "limit", ⟨1, 8⟩⟩] } := by
    decide +kernel
  have hrefused : parse (String.ofList (Text.ofBytes ((mixedBytes ++ [32, 195, 169]).map UInt8.toNat))) =
      .error ⟨⟨5, 25⟩, .noSourcePort⟩ := by
    decide +kernel
  exact ⟨⟨_, hread, rfl, (parse_positions mixedBytes).1 _ hread⟩,
    ⟨_, hrefused, rfl, (parse_positions (mixedBytes ++ [32, 195, 169])).2 _ hrefused⟩⟩

end Graph

end FlowCompiler
