import FlowCompiler.Proofs.Graph.Drafts

/-!
# Outlines of graphs

An outline is a graph without positions and without the names of anonymous nodes. Drafts make one together: each
adds what it says to the outline of those before it, whether it agrees with them or not, so that an outline shows
in the end what they contradict each other in (`Outline.Consistent`).

Main statement: `Draft.parse_textOf`. Drafts that are consistent are read as a graph that has their outline, and
others are refused.
-/

namespace FlowCompiler

open List

variable {m : Mention} {n : Draft.Node} {rs : List Reference} {c : Connection} {ls : List Link}
  {i source : Nat} {ds : List Draft.Link} {direction : Direction} {ss : List Statement} {k : Node}
  {e : ExportedPort} {pos : Position} {s : Statement}

namespace Outline

/-- A node: its name unless it is anonymous, all components that it is given, and its settings. -/
structure Node where
  name : Option String
  components : List String
  settings : List (String × String)
deriving DecidableEq

structure Connection where
  source : Nat
  sourcePort : PortRef
  target : Nat
  targetPort : PortRef
deriving DecidableEq

structure ExportedPort where
  node : Nat
  port : PortRef
  name : String
deriving DecidableEq

structure Declaration where
  name : String
  kind : String
  contents : String
deriving DecidableEq

structure ExportedOption where
  node : Nat
  option : String
  name : String
deriving DecidableEq

/-- Whether two exports share an element of a port: one index, or a whole port and any of its elements. -/
def ExportedPort.sharesPort (a b : ExportedPort) : Bool :=
  a.node == b.node && a.port.name == b.port.name &&
    (a.port.index == b.port.index || a.port.index.isNone || b.port.index.isNone)

end Outline

/-- A graph without positions and without names of anonymous nodes. -/
structure Outline where
  nodes : List Outline.Node := []
  connections : List Outline.Connection := []
  inputs : List Outline.ExportedPort := []
  outputs : List Outline.ExportedPort := []
  declarations : List Outline.Declaration := []
  options : List Outline.ExportedOption := []
deriving DecidableEq

/-- The components that a draft of a node gives it. -/
def Draft.Node.components (n : Draft.Node) : List String :=
  ((n.clause?.bind (·.component?)).map (·.text)).toList

namespace Outline

def exports (o : Outline) : Direction → List ExportedPort
  | .input => o.inputs
  | .output => o.outputs

/-! ## Outlines of drafts -/

/-- The place of the node that has the name, which is new if there is none. A node without a name is always new. -/
def place (o : Outline) (name : Option String) : Outline × Nat :=
  match o.nodes.findIdx? (fun n => name.isSome && n.name == name) with
  | some i => (o, i)
  | none => ({ o with nodes := o.nodes ++ [⟨name, [], []⟩] }, o.nodes.length)

/-- A node with what a draft says of it. -/
def Node.extend (k : Node) (n : Draft.Node) : Node :=
  { k with components := k.components ++ n.components, settings := k.settings ++ n.settings }

def describe (o : Outline) (i : Nat) (n : Draft.Node) : Outline :=
  { o with nodes := o.nodes.modify i (·.extend n) }

def mention (o : Outline) (n : Draft.Node) : Outline × Nat :=
  let (o, i) := o.place n.name?
  (o.describe i n, i)

def connect (o : Outline) (c : Connection) : Outline := { o with connections := o.connections ++ [c] }

def addLinks (o : Outline) (source : Nat) : List Draft.Link → Outline
  | [] => o
  | l :: ls =>
    let (o, target) := o.mention l.node
    (o.connect ⟨source, l.source.ref, target, l.target.ref⟩).addLinks target ls

def addExport (o : Outline) (direction : Direction) (e : ExportedPort) : Outline :=
  match direction with
  | .input => { o with inputs := o.inputs ++ [e] }
  | .output => { o with outputs := o.outputs ++ [e] }

/-- Adds what a draft says. -/
def add (o : Outline) : Draft → Outline
  | .chain head links =>
    let (o, i) := o.mention head
    o.addLinks i links
  | .exportPort direction node port name =>
    let (o, i) := o.place (some node.text)
    o.addExport direction ⟨i, port.ref, name.text⟩
  | .declare name kind contents =>
    { o with declarations := o.declarations ++ [⟨name.text, kind.text, contents.text⟩] }
  | .exportOption node option name =>
    let (o, i) := o.place (some node.text)
    { o with options := o.options ++ [⟨i, option.text, name.text⟩] }

/-- The outline of drafts, taken in order. -/
def ofDrafts (ds : List Draft) : Outline := ds.foldl add {}

/-- Nothing is said twice that may be said only once. -/
structure Coherent (o : Outline) : Prop where
  components : ∀ n ∈ o.nodes, n.components.length ≤ 1
  keys : ∀ n ∈ o.nodes, (n.settings.map (·.1)).Nodup
  connections : o.connections.Nodup
  exportNames : ∀ direction, ((o.exports direction).map (·.name)).Nodup
  exportPorts : ∀ direction, (o.exports direction).Pairwise fun a b => a.sharesPort b = false
  declarations : (o.declarations.map (·.name)).Nodup
  options : (o.options.map (·.name)).Nodup

/-- What is said fits together, and every node gets a component. -/
structure Consistent (o : Outline) : Prop extends Coherent o where
  typed : ∀ n ∈ o.nodes, n.components ≠ []

instance (o : Outline) : Decidable o.Coherent :=
  decidable_of_iff
    ((∀ n ∈ o.nodes, n.components.length ≤ 1 ∧ (n.settings.map (·.1)).Nodup) ∧ o.connections.Nodup ∧
      (∀ direction ∈ [Direction.input, .output], ((o.exports direction).map (·.name)).Nodup ∧
        (o.exports direction).Pairwise fun a b => a.sharesPort b = false) ∧
      (o.declarations.map (·.name)).Nodup ∧ (o.options.map (·.name)).Nodup)
    ⟨fun ⟨hnodes, hconnections, hexports, hdeclarations, hoptions⟩ =>
      { components := fun n hn => (hnodes n hn).1
        keys := fun n hn => (hnodes n hn).2
        connections := hconnections
        exportNames := fun direction => (hexports direction (by cases direction <;> decide)).1
        exportPorts := fun direction => (hexports direction (by cases direction <;> decide)).2
        declarations := hdeclarations
        options := hoptions },
    fun h => ⟨fun n hn => ⟨h.components n hn, h.keys n hn⟩, h.connections,
      fun direction _ => ⟨h.exportNames direction, h.exportPorts direction⟩, h.declarations, h.options⟩⟩

instance (o : Outline) : Decidable o.Consistent :=
  decidable_of_iff (o.Coherent ∧ ∀ n ∈ o.nodes, n.components ≠ [])
    ⟨fun ⟨hcoherent, htyped⟩ => ⟨hcoherent, htyped⟩, fun h => ⟨h.toCoherent, h.typed⟩⟩

/-! ## What is said stays said -/

/-- All that an outline says is said by another. -/
structure Within (o o' : Outline) : Prop where
  nodes : ∀ n ∈ o.nodes, ∃ n' ∈ o'.nodes, n.components.Sublist n'.components ∧ n.settings.Sublist n'.settings
  connections : o.connections.Sublist o'.connections
  exports : ∀ direction, (o.exports direction).Sublist (o'.exports direction)
  declarations : o.declarations.Sublist o'.declarations
  options : o.options.Sublist o'.options

namespace Within

variable {o o' o'' : Outline}

theorem refl (o : Outline) : o.Within o where
  nodes n hn := ⟨n, hn, .refl _, .refl _⟩
  connections := .refl _
  exports _ := .refl _
  declarations := .refl _
  options := .refl _

theorem of_nodes_eq (hnodes : o.nodes = o'.nodes) (hconnections : o.connections.Sublist o'.connections)
    (hinputs : o.inputs.Sublist o'.inputs) (houtputs : o.outputs.Sublist o'.outputs)
    (hdeclarations : o.declarations.Sublist o'.declarations) (hoptions : o.options.Sublist o'.options) :
    o.Within o' where
  nodes n hn := ⟨n, hnodes ▸ hn, .refl _, .refl _⟩
  connections := hconnections
  exports
    | .input => hinputs
    | .output => houtputs
  declarations := hdeclarations
  options := hoptions

theorem trans (h : o.Within o') (h' : o'.Within o'') : o.Within o'' where
  nodes n hn := by
    obtain ⟨n', hn', hcomponents, hsettings⟩ := h.nodes n hn
    obtain ⟨n'', hn'', hcomponents', hsettings'⟩ := h'.nodes n' hn'
    exact ⟨n'', hn'', hcomponents.trans hcomponents', hsettings.trans hsettings'⟩
  connections := h.connections.trans h'.connections
  exports direction := (h.exports direction).trans (h'.exports direction)
  declarations := h.declarations.trans h'.declarations
  options := h.options.trans h'.options

/-- A contradiction stays one whatever else is said. -/
theorem coherent (h : o.Within o') (h' : o'.Coherent) : o.Coherent where
  components n hn := by
    obtain ⟨n', hn', hcomponents, -⟩ := h.nodes n hn
    exact hcomponents.length_le.trans (h'.components n' hn')
  keys n hn := by
    obtain ⟨n', hn', -, hsettings⟩ := h.nodes n hn
    exact (h'.keys n' hn').sublist (hsettings.map _)
  connections := h'.connections.sublist h.connections
  exportNames direction := (h'.exportNames direction).sublist ((h.exports direction).map _)
  exportPorts direction := (h'.exportPorts direction).sublist (h.exports direction)
  declarations := h'.declarations.sublist (h.declarations.map _)
  options := h'.options.sublist (h.options.map _)

end Within

theorem within_withNodes (o : Outline) {nodes : List Node}
    (h : ∀ n ∈ o.nodes, ∃ n' ∈ nodes, n.components.Sublist n'.components ∧ n.settings.Sublist n'.settings) :
    o.Within { o with nodes } :=
  { Within.refl o with
    nodes := h
    exports := fun direction => by cases direction <;> exact .refl _ }

theorem place_within (o : Outline) (name : Option String) : o.Within (o.place name).1 := by
  unfold place
  split
  · exact .refl o
  · exact o.within_withNodes fun n hn => ⟨n, mem_append_left _ hn, .refl _, .refl _⟩

theorem describe_within (o : Outline) (i : Nat) (n : Draft.Node) : o.Within (o.describe i n) := by
  refine o.within_withNodes fun k hk => ?_
  obtain ⟨j, hj⟩ := getElem?_of_mem hk
  by_cases hij : i = j
  · refine ⟨k.extend n, mem_of_getElem? (i := j) ?_, sublist_append_left _ _, sublist_append_left _ _⟩
    rw [getElem?_modify, hj]
    simp [hij]
  · refine ⟨k, mem_of_getElem? (i := j) ?_, .refl _, .refl _⟩
    rw [getElem?_modify, hj]
    simp [hij]

theorem mention_within (o : Outline) (n : Draft.Node) : o.Within (o.mention n).1 :=
  (o.place_within n.name?).trans (describe_within _ _ n)

theorem connect_within (o : Outline) (c : Connection) : o.Within (o.connect c) :=
  .of_nodes_eq rfl (sublist_append_left _ _) (.refl _) (.refl _) (.refl _) (.refl _)

theorem addExport_within (o : Outline) (direction : Direction) (e : ExportedPort) :
    o.Within (o.addExport direction e) := by
  cases direction with
  | input => exact .of_nodes_eq rfl (.refl _) (sublist_append_left _ _) (.refl _) (.refl _) (.refl _)
  | output => exact .of_nodes_eq rfl (.refl _) (.refl _) (sublist_append_left _ _) (.refl _) (.refl _)

theorem addLinks_within (o : Outline) (source : Nat) (ls : List Draft.Link) : o.Within (o.addLinks source ls) := by
  induction ls generalizing o source with
  | nil => exact .refl o
  | cons l ls ih => exact (o.mention_within l.node).trans ((connect_within _ _).trans (ih _ _))

theorem add_within (o : Outline) (d : Draft) : o.Within (o.add d) := by
  cases d with
  | chain head links => exact (o.mention_within head).trans (addLinks_within _ _ _)
  | exportPort direction node port name => exact (o.place_within (some node.text)).trans (addExport_within _ _ _)
  | declare name kind contents =>
    exact .of_nodes_eq rfl (.refl _) (.refl _) (.refl _) (sublist_append_left _ _) (.refl _)
  | exportOption node option name =>
    refine (o.place_within (some node.text)).trans ?_
    exact .of_nodes_eq rfl (.refl _) (.refl _) (.refl _) (.refl _) (sublist_append_left _ _)

theorem foldl_within (o : Outline) (ds : List Draft) : o.Within (ds.foldl add o) := by
  induction ds generalizing o with
  | nil => exact .refl o
  | cons d ds ih => exact (o.add_within d).trans (ih _)

end Outline

/-! ## Outlines of graphs -/

namespace Graph

/-- Only a name that is no written one starts with `#`. -/
def Node.outline (n : Node) : Outline.Node where
  name := if n.name.toList.head? = some '#' then none else some n.name
  components := if n.component = "" then [] else [n.component]
  settings := n.settings.map fun m => (m.key, m.value)

def Connection.outline (c : Connection) : Outline.Connection := ⟨c.source, c.sourcePort, c.target, c.targetPort⟩

def ExportedPort.outline (e : ExportedPort) : Outline.ExportedPort := ⟨e.node, e.port, e.name⟩

def Declaration.outline (d : Declaration) : Outline.Declaration := ⟨d.name, d.kind, d.contents⟩

def ExportedOption.outline (o : ExportedOption) : Outline.ExportedOption := ⟨o.node, o.option, o.name⟩

/-- A graph without its positions and the names of its anonymous nodes. -/
def outline (g : Graph) : Outline where
  nodes := g.nodes.map Node.outline
  connections := g.connections.map Connection.outline
  inputs := g.inputs.map ExportedPort.outline
  outputs := g.outputs.map ExportedPort.outline
  declarations := g.declarations.map Declaration.outline
  options := g.options.map ExportedOption.outline

theorem outline_exports (g : Graph) (direction : Direction) :
    g.outline.exports direction = (g.exports direction).map ExportedPort.outline := by
  cases direction <;> rfl

/-! ## Nodes -/

variable {g g' : Graph}

theorem head?_ne_of_isName {w : String} (h : IsName w) : ¬ w.toList.head? = some '#' := by
  intro hhead
  exact absurd (h.2 '#' (mem_of_mem_head? hhead)) (by decide)

theorem head?_anonymousName (p : Position) : (Mention.anonymousName p).toList.head? = some '#' := by
  rw [Mention.toList_anonymousName]
  rfl

/-- A written name finds the same node in a graph and in its outline. -/
theorem place_outline_named {name : String} (hname : IsName name) (pos : Position) :
    g.outline.place (some name) = ((g.place name pos).1.outline, (g.place name pos).2) := by
  have hfind : g.outline.nodes.findIdx? (fun n => (some name).isSome && n.name == some name) = g.index? name := by
    rw [outline, findIdx?_map, index?]
    congr 1
    funext n
    -- a node without a written name is found by none in the graph either
    by_cases hhash : n.name.toList.head? = some '#'
    · have hne : n.name ≠ name := by
        rintro rfl
        exact head?_ne_of_isName hname hhash
      simp [Node.outline, hhash, hne]
    · simp [Node.outline, hhash]
  unfold Outline.place place
  rw [hfind]
  cases g.index? name with
  | some i => rfl
  | none =>
    have hnew : Node.outline ⟨name, "", [], pos⟩ = ⟨some name, [], []⟩ := by
      simp [Node.outline, head?_ne_of_isName hname]
    simp [outline, hnew]

/-- A node without a name is new in the graph as in its outline. -/
theorem place_outline_anonymous (hnew : ∀ n ∈ g.nodes, n.name ≠ Mention.anonymousName pos) :
    g.outline.place none =
      ((g.place (Mention.anonymousName pos) pos).1.outline, (g.place (Mention.anonymousName pos) pos).2) := by
  have hfind : g.index? (Mention.anonymousName pos) = none := by
    refine findIdx?_eq_none_iff.mpr fun n hn => ?_
    simpa using hnew n hn
  have hnode : Node.outline ⟨Mention.anonymousName pos, "", [], pos⟩ = ⟨none, [], []⟩ := by
    simp [Node.outline, head?_anonymousName]
  have hnone : g.outline.nodes.findIdx? (fun n => (none : Option String).isSome && n.name == none) = none := by
    simp
  unfold Outline.place place
  rw [hfind, hnone]
  simp [outline, hnode]

theorem place_outline (hm : m.Shows n) (hnew : m.name = "_" → ∀ k ∈ g.nodes, k.name ≠ m.nodeName) :
    g.outline.place n.name? = ((g.place m.nodeName m.pos).1.outline, (g.place m.nodeName m.pos).2) := by
  have hname := hm.name
  cases n with
  | named name h clause =>
    have hwritten : m.name ≠ "_" := by
      rw [hname]
      exact h
    rw [Mention.nodeName, if_neg hwritten, hname]
    exact place_outline_named ⟨name.ne_empty, name.chars⟩ m.pos
  | anonymous component settings =>
    have hanonymous : m.name = "_" := hname
    have hnew := hnew hanonymous
    rw [Mention.nodeName, if_pos hanonymous] at hnew ⊢
    exact place_outline_anonymous hnew

theorem component_cases (n : Draft.Node) :
    n.component = "" ∧ n.components = [] ∨ n.component ≠ "" ∧ n.components = [n.component] := by
  unfold Draft.Node.component Draft.Node.components
  rcases n.clause? with _ | ⟨_ | w, settings⟩
  · exact .inl ⟨rfl, rfl⟩
  · exact .inl ⟨rfl, rfl⟩
  · exact .inr ⟨w.ne_empty, rfl⟩

/-- Settings are taken where no key comes twice. -/
theorem Node.addSettings_of_nodup {ms : List Meta} (h : ((k.settings ++ ms).map (·.key)).Nodup) :
    k.addSettings ms = .ok { k with settings := k.settings ++ ms } := by
  induction ms generalizing k with
  | nil => simp [addSettings]
  | cons m ms ih =>
    have hfind : k.settings.find? (·.key == m.key) = none := by
      refine find?_eq_none.mpr fun e he heq => ?_
      rw [map_append, nodup_append'] at h
      refine h.2.2 (mem_map_of_mem he) ?_
      rw [eq_of_beq heq]
      exact mem_cons_self
    rw [addSettings, hfind]
    dsimp only
    rw [ih (by simpa using h)]
    simp

theorem Node.outline_addMention {k₁ k' : Node} (hm : m.Shows n)
    (h₁ : k.addComponent m.component m.pos = .ok k₁) (h' : k₁.addSettings m.settings = .ok k') :
    k'.outline = k.outline.extend n := by
  obtain ⟨rfl, -⟩ := addSettings_eq_ok h'
  rw [addComponent_iff, hm.component] at h₁
  rcases component_cases n with ⟨hempty, hnone⟩ | ⟨hne, hsome⟩
  · obtain ⟨-, rfl⟩ | ⟨hne, -⟩ := h₁
    · simp [Node.outline, Outline.Node.extend, hnone, ← hm.settings]
    · exact absurd hempty hne
  · obtain ⟨hempty, -⟩ | ⟨-, hk, rfl⟩ := h₁
    · exact absurd hempty hne
    · simp [Node.outline, Outline.Node.extend, hsome, hk, hne, ← hm.settings]

/-- Changing the node at a place is describing it in the outline. -/
theorem outline_set {k' : Node} (hk : g.nodes[i]? = some k) (hk' : k'.outline = k.outline.extend n) :
    outline { g with nodes := g.nodes.set i k' } = g.outline.describe i n := by
  have hnodes : (g.nodes.set i k').map Node.outline = (g.nodes.map Node.outline).modify i (·.extend n) := by
    refine ext_getElem? fun j => ?_
    rw [getElem?_map, getElem?_modify, getElem?_map]
    by_cases hij : i = j
    · subst hij
      rw [getElem?_set_self (List.getElem?_eq_some_iff.mp hk).1, hk]
      simp [hk']
    · rw [getElem?_set_ne hij]
      simp [hij]
  simp only [outline, Outline.describe, hnodes]

/-- A mention that is taken in adds to the outline what its draft says. -/
theorem addMention_outline (hm : m.Shows n) (hnew : m.name = "_" → ∀ k ∈ g.nodes, k.name ≠ m.nodeName)
    (h : g.addMention m = .ok (g', i)) : g.outline.mention n = (g'.outline, i) := by
  obtain ⟨g₁, k, k₁, k', hp, hk, -, hk₁, hk', rfl⟩ := addMention_eq_ok h
  have hplace := place_outline hm hnew
  rw [hp] at hplace
  rw [Outline.mention, hplace, outline_set hk (Node.outline_addMention hm hk₁ hk')]

/-- A node takes what a draft says of it if that leaves it with one component and distinct keys. -/
theorem Node.exists_addMention (hm : m.Shows n) (hcomponents : (k.outline.extend n).components.length ≤ 1)
    (hkeys : ((k.outline.extend n).settings.map (·.1)).Nodup) :
    ∃ k₁ k', k.addComponent m.component m.pos = .ok k₁ ∧ k₁.addSettings m.settings = .ok k' := by
  -- either the draft or the node has no component
  have hfits : n.component = "" ∨ k.component = "" := by
    by_contra hboth
    push Not at hboth
    obtain ⟨hempty, -⟩ | ⟨-, hsome⟩ := component_cases n
    · exact hboth.1 hempty
    · simp [Node.outline, Outline.Node.extend, hboth.2, hsome] at hcomponents
  have hdistinct : ((k.settings ++ m.settings).map (·.key)).Nodup := by
    have hsame : (k.outline.extend n).settings.map (·.1) = (k.settings ++ m.settings).map (·.key) := by
      simp [Node.outline, Outline.Node.extend, ← hm.settings, Function.comp_def]
    rwa [hsame] at hkeys
  have hcomponent : ∃ k₁, k.addComponent m.component m.pos = .ok k₁ ∧ k₁.settings = k.settings := by
    rw [hm.component]
    by_cases hempty : n.component = ""
    · exact ⟨k, addComponent_iff.mpr (.inl ⟨hempty, rfl⟩), rfl⟩
    · exact ⟨_, addComponent_iff.mpr (.inr ⟨hempty, hfits.resolve_left hempty, rfl⟩), rfl⟩
  obtain ⟨k₁, hk₁, hsettings⟩ := hcomponent
  exact ⟨k₁, _, hk₁, addSettings_of_nodup (by rwa [hsettings])⟩

/-- A mention is taken in where the outline stays coherent. -/
theorem addMention_of_coherent (hm : m.Shows n) (hnew : m.name = "_" → ∀ k ∈ g.nodes, k.name ≠ m.nodeName)
    (h : (g.outline.mention n).1.Coherent) : ∃ g' i, g.addMention m = .ok (g', i) := by
  rcases hp : g.place m.nodeName m.pos with ⟨g₁, i⟩
  obtain ⟨k, hk, -⟩ := place_getElem? hp
  have hplace := place_outline hm hnew
  rw [hp] at hplace
  rw [Outline.mention, hplace] at h
  have hmem : k.outline.extend n ∈ (g₁.outline.describe i n).nodes := by
    refine mem_of_getElem? (i := i) ?_
    rw [Outline.describe, getElem?_modify, outline, getElem?_map, hk]
    simp
  obtain ⟨k₁, k', hk₁, hk'⟩ := Node.exists_addMention hm (h.components _ hmem) (h.keys _ hmem)
  refine ⟨{ g₁ with nodes := g₁.nodes.set i k' }, i, ?_⟩
  simp only [addMention, hp, modifyNode, hk, bind, Except.bind, hk₁, hk', Except.map]

/-! ## Links -/

/-- What comes last in a list without repetition of `key` has a new key. -/
theorem ne_of_nodup_map_concat {α β : Type} {key : α → β} {l : List α} {b : α} (h : ((l ++ [b]).map key).Nodup) :
    ∀ a ∈ l, key a ≠ key b := by
  rw [map_append, nodup_append'] at h
  intro a ha heq
  refine h.2.2 (mem_map_of_mem ha) ?_
  rw [heq]
  exact mem_singleton_self _

theorem addConnection_outline (h : g.addConnection c = .ok g') :
    g'.outline = g.outline.connect c.outline := by
  obtain ⟨-, rfl⟩ := addConnection_eq_ok h
  simp [outline, Outline.connect]

theorem sameEnds_iff (a b : Connection) : a.sameEnds b = true ↔ a.outline = b.outline := by
  simp [Connection.sameEnds, Connection.outline, and_assoc]

theorem addConnection_of_coherent (h : (g.outline.connect c.outline).Coherent) :
    ∃ g', g.addConnection c = .ok g' := by
  have hfind : g.connections.find? (·.sameEnds c) = none := by
    have hnodup : ((g.connections ++ [c]).map Connection.outline).Nodup := by
      rw [map_append]
      exact h.connections
    refine find?_eq_none.mpr fun e he hsame => ?_
    exact ne_of_nodup_map_concat hnodup e he ((sameEnds_iff e c).mp hsame)
  exact ⟨_, by rw [addConnection, hfind]⟩

/-- No reference of the list meets a node of the graph or another reference, but by a written name. -/
structure Fresh (g : Graph) (rs : List Reference) : Prop where
  apart : rs.Pairwise Statement.Apart
  unmet : ∀ n, .anonymous n ∈ rs → ∀ k ∈ g.nodes, k.name ≠ n.name

theorem Fresh.step {r : Reference} (h : g.Fresh (r :: rs)) (hv : Visits r g g') : g'.Fresh rs := by
  obtain ⟨hr, hrs⟩ := pairwise_cons.mp h.apart
  refine ⟨hrs, fun n hn k hk heq => ?_⟩
  rcases hv.names k hk with hname | ⟨k', hk', hname⟩
  · exact nomatch (hr _ hn (hname.symm.trans heq)).2
  · exact h.unmet n (mem_cons_of_mem r hn) k' hk' (hname.symm.trans heq)

theorem Fresh.visits {ts : List Reference} (h : g.Fresh (rs ++ ts)) (hv : VisitsAll rs g g') :
    g'.Fresh ts := by
  induction hv with
  | nil hnodes =>
    refine ⟨h.apart, ?_⟩
    rw [hnodes]
    exact h.unmet
  | cons hv _ ih => exact ih (h.step hv)

theorem Fresh.mention (h : g.Fresh (m.reference :: rs)) :
    m.name = "_" → ∀ k ∈ g.nodes, k.name ≠ m.nodeName := by
  intro hm
  have hreference : m.reference = .anonymous m.node := by rw [Mention.reference, if_pos hm]
  exact h.unmet m.node (by rw [hreference]; exact mem_cons_self)

theorem Fresh.connected (h : g.Fresh (m.reference :: rs)) {g₁ : Graph} (hm : g.addMention m = .ok (g₁, i))
    (hc : g₁.addConnection c = .ok g') : g'.Fresh rs := by
  have hnodes : g'.nodes = g₁.nodes := by rw [(addConnection_eq_ok hc).2]
  exact h.step ((addMention_visits hm).of_nodes_eq hnodes)

theorem addLinks_outline (hls : List.Forall₂ Link.Shows ls ds)
    (hfresh : g.Fresh (ls.map (·.node.reference))) (h : g.addLinks source ls = .ok g') :
    g'.outline = g.outline.addLinks source ds := by
  induction hls generalizing g source with
  | nil =>
    cases h
    rfl
  | @cons l d ls ds hl hls ih =>
    obtain ⟨⟨g₁, target⟩, h₁, h⟩ := bind_eq_ok.mp h
    obtain ⟨g₂, h₂, h⟩ := bind_eq_ok.mp h
    rw [ih (hfresh.connected h₁ h₂) h, addConnection_outline h₂, Outline.addLinks,
      addMention_outline hl.node hfresh.mention h₁, ← hl.source, ← hl.target]
    rfl

theorem addLinks_of_coherent (hls : List.Forall₂ Link.Shows ls ds)
    (hfresh : g.Fresh (ls.map (·.node.reference))) (h : (g.outline.addLinks source ds).Coherent) :
    ∃ g', g.addLinks source ls = .ok g' := by
  induction hls generalizing g source with
  | nil => exact ⟨g, rfl⟩
  | @cons l d ls ds hl hls ih =>
    rw [Outline.addLinks] at h
    -- what comes later cannot mend a contradiction, so each step stays coherent
    have hmention : (g.outline.mention d.node).1.Coherent :=
      ((Outline.connect_within _ _).trans (Outline.addLinks_within _ _ _)).coherent h
    obtain ⟨g₁, target, h₁⟩ := addMention_of_coherent hl.node hfresh.mention hmention
    rw [addMention_outline hl.node hfresh.mention h₁, ← hl.source, ← hl.target] at h
    have hconnect := (Outline.addLinks_within _ _ _).coherent h
    obtain ⟨g₂, h₂⟩ := addConnection_of_coherent (c := ⟨source, l.sourcePort, target, l.targetPort, l.pos⟩) hconnect
    have hrest := ih (hfresh.connected h₁ h₂) (by rw [addConnection_outline h₂]; exact h)
    obtain ⟨g', h'⟩ := hrest
    exact ⟨g', bind_eq_ok.mpr ⟨_, h₁, bind_eq_ok.mpr ⟨g₂, h₂, h'⟩⟩⟩

/-! ## Statements -/

theorem addExport_outline (h : g.addExport direction e = .ok g') :
    g'.outline = g.outline.addExport direction e.outline := by
  obtain ⟨_, -, h⟩ := bind_eq_ok.mp h
  cases direction <;> cases h <;> simp [outline, Outline.addExport]

theorem addExport_of_coherent (h : (g.outline.addExport direction e.outline).Coherent) :
    ∃ g', g.addExport direction e = .ok g' := by
  have hexports : (g.outline.addExport direction e.outline).exports direction =
      (g.exports direction).map ExportedPort.outline ++ [e.outline] := by
    cases direction <;> rfl
  have hfind : (g.exports direction).find? (fun o => o.name == e.name || o.sharesPort e) = none := by
    refine find?_eq_none.mpr fun o ho hclash => ?_
    have hnames := h.exportNames direction
    have hports := h.exportPorts direction
    rw [hexports] at hnames hports
    rcases Bool.or_eq_true_iff.mp hclash with hname | hport
    · exact ne_of_nodup_map_concat hnames o.outline (mem_map_of_mem ho) (eq_of_beq hname)
    · have hfree := (pairwise_append.mp hports).2.2 o.outline (mem_map_of_mem ho) e.outline
        (mem_singleton_self _)
      exact absurd (hport.symm.trans hfree) (by decide)
  exact ⟨_, bind_eq_ok.mpr ⟨(), by rw [checkExport, hfind], rfl⟩⟩

theorem place_outline_word (node : Word isNameChar) (hp : g.place node.text pos = (g', i)) :
    g.outline.place (some node.text) = (g'.outline, i) := by
  have hplace := place_outline_named (g := g) ⟨node.ne_empty, node.chars⟩ pos
  rwa [hp] at hplace

theorem fresh_chain (h : g.Fresh (Statement.references (.chain m ls))) :
    g.Fresh (m.reference :: ls.map (·.node.reference)) := by
  simpa [Statement.references, Function.comp_def] using h

/-- A statement that is taken in adds to the outline what its draft says. -/
theorem add_outline {d : Draft} (hs : s.Shows d) (hfresh : g.Fresh s.references) (h : g.add s = .ok g') :
    g'.outline = g.outline.add d := by
  cases hs with
  | @chain m n ls ds hm hls =>
    obtain ⟨⟨g₁, i⟩, h₁, h⟩ := bind_eq_ok.mp h
    have hfresh := fresh_chain hfresh
    rw [addLinks_outline hls (hfresh.step (addMention_visits h₁)) h, Outline.add,
      addMention_outline hm hfresh.mention h₁]
  | @exportPort direction node name port pos =>
    rcases hp : g.place node.text pos with ⟨g₁, i⟩
    simp only [add, hp] at h
    rw [addExport_outline h, Outline.add, place_outline_word node hp]
    rfl
  | declare pos =>
    obtain ⟨-, rfl⟩ := addDeclaration_eq_ok h
    simp [outline, Outline.add, Declaration.outline]
  | @exportOption node option name pos =>
    obtain ⟨_, -, h⟩ := bind_eq_ok.mp h
    rcases hp : g.place node.text pos with ⟨g₁, i⟩
    simp only [hp] at h
    cases h
    rw [Outline.add, place_outline_word node hp]
    simp [outline, ExportedOption.outline]

/-- A statement is taken in where the outline stays coherent. -/
theorem add_of_coherent {d : Draft} (hs : s.Shows d) (hfresh : g.Fresh s.references)
    (h : (g.outline.add d).Coherent) : ∃ g', g.add s = .ok g' := by
  cases hs with
  | @chain m n ls ds hm hls =>
    have hfresh := fresh_chain hfresh
    rw [Outline.add] at h
    obtain ⟨g₁, i, h₁⟩ :=
      addMention_of_coherent hm hfresh.mention ((Outline.addLinks_within _ _ _).coherent h)
    rw [addMention_outline hm hfresh.mention h₁] at h
    obtain ⟨g', h'⟩ := addLinks_of_coherent hls (hfresh.step (addMention_visits h₁)) h
    exact ⟨g', bind_eq_ok.mpr ⟨_, h₁, h'⟩⟩
  | @exportPort direction node name port pos =>
    rcases hp : g.place node.text pos with ⟨g₁, i⟩
    rw [Outline.add, place_outline_word node hp] at h
    simp only [add, hp]
    exact addExport_of_coherent (e := ⟨i, port.ref, name.text, pos⟩) h
  | @declare name kind contents pos =>
    have hnew : g.declarations.any (·.name == name.text) = false := by
      refine any_eq_false.mpr fun d hd hname => ?_
      exact ne_of_nodup_map_concat h.declarations d.outline (mem_map_of_mem hd) (eq_of_beq hname)
    exact ⟨_, by rw [add, addDeclaration, hnew]; rfl⟩
  | @exportOption node option name pos =>
    rcases hp : g.place node.text pos with ⟨g₁, i⟩
    rw [Outline.add, place_outline_word node hp] at h
    have hnew : g.options.find? (·.name == name.text) = none := by
      refine find?_eq_none.mpr fun o ho hname => ?_
      rw [← (place_kept hp).2] at ho
      exact ne_of_nodup_map_concat h.options o.outline (mem_map_of_mem ho) (eq_of_beq hname)
    exact ⟨_, bind_eq_ok.mpr ⟨(), by rw [checkOption, hnew], rfl⟩⟩

theorem Fresh.left {ts : List Reference} (h : g.Fresh (rs ++ ts)) : g.Fresh rs :=
  ⟨(pairwise_append.mp h.apart).1, fun n hn => h.unmet n (mem_append_left ts hn)⟩

theorem addAll_outline {ds : List Draft} (hss : List.Forall₂ Statement.Shows ss ds)
    (hfresh : g.Fresh (ss.flatMap Statement.references)) (h : g.addAll ss = .ok g') :
    g'.outline = ds.foldl Outline.add g.outline := by
  induction hss generalizing g with
  | nil =>
    cases h
    rfl
  | cons hs hss ih =>
    obtain ⟨g₁, h₁, h⟩ := bind_eq_ok.mp h
    rw [flatMap_cons] at hfresh
    rw [ih (hfresh.visits (add_visits h₁)) h, add_outline hs hfresh.left h₁, foldl_cons]

theorem addAll_of_coherent {ds : List Draft} (hss : List.Forall₂ Statement.Shows ss ds)
    (hfresh : g.Fresh (ss.flatMap Statement.references)) (h : (ds.foldl Outline.add g.outline).Coherent) :
    ∃ g', g.addAll ss = .ok g' := by
  induction hss generalizing g with
  | nil => exact ⟨g, rfl⟩
  | cons hs hss ih =>
    rw [flatMap_cons] at hfresh
    rw [foldl_cons] at h
    obtain ⟨g₁, h₁⟩ := add_of_coherent hs hfresh.left ((Outline.foldl_within _ _).coherent h)
    rw [← add_outline hs hfresh.left h₁] at h
    obtain ⟨g', h'⟩ := ih (hfresh.visits (add_visits h₁)) h
    exact ⟨g', bind_eq_ok.mpr ⟨g₁, h₁, h'⟩⟩

/-! ## Reading -/

theorem Consistent.coherent (h : g.Consistent) : g.outline.Coherent where
  components n hn := by
    obtain ⟨k, -, rfl⟩ := mem_map.mp hn
    by_cases hempty : k.component = "" <;> simp [Node.outline, hempty]
  keys n hn := by
    obtain ⟨k, hk, rfl⟩ := mem_map.mp hn
    simpa [Node.outline, Function.comp_def] using h.settings k hk
  connections := by
    refine pairwise_map.mpr (h.connectionEnds.imp fun {a b} hne heq => ?_)
    rw [(sameEnds_iff a b).mpr heq] at hne
    cases hne
  exportNames direction := by
    rw [outline_exports, map_map]
    exact (h.exports direction).names
  exportPorts direction := by
    rw [outline_exports]
    exact pairwise_map.mpr (h.exports direction).ports
  declarations := by
    rw [outline, map_map]
    exact h.declarationNames
  options := by
    rw [outline, map_map]
    exact h.optionNames

theorem outline_components_ne_nil (n : Node) : n.outline.components ≠ [] ↔ n.component ≠ "" := by
  by_cases hempty : n.component = "" <;> simp [Node.outline, hempty]

theorem checkTyped_of_typed (h : ∀ n ∈ g.outline.nodes, n.components ≠ []) : g.checkTyped = .ok g := by
  have hfind : g.nodes.find? (·.component == "") = none := by
    refine find?_eq_none.mpr fun n hn hempty => ?_
    exact (outline_components_ne_nil n).mp (h n.outline (mem_map_of_mem hn)) (eq_of_beq hempty)
  rw [checkTyped, hfind]

end Graph

namespace Draft

/-- The texts of drafts are read as the graphs that the drafts outline, and are refused if these contradict each
other or leave a node without a component. -/
theorem parse_textOf (ds : List Draft) :
    ((Outline.ofDrafts ds).Consistent →
      ∃ g, Graph.parse (textOf ds) = .ok g ∧ g.outline = Outline.ofDrafts ds) ∧
    (¬ (Outline.ofDrafts ds).Consistent → ∃ e, Graph.parse (textOf ds) = .error e) := by
  obtain ⟨ss, ht, hss⟩ := ofText_textOf ds
  have hfresh : Graph.Fresh {} (ss.flatMap Statement.references) :=
    ⟨Statement.references_apart ht, fun n _ k hk => absurd hk not_mem_nil⟩
  constructor
  · intro h
    obtain ⟨g, hg⟩ := Graph.addAll_of_coherent hss hfresh h.toCoherent
    have houtline : g.outline = Outline.ofDrafts ds := Graph.addAll_outline hss hfresh hg
    refine ⟨g, ?_, houtline⟩
    rw [← houtline] at h
    simp only [Graph.parse, ht, bind, Except.bind, hg, Graph.checkTyped_of_typed h.typed]
  · intro h
    cases hparse : Graph.parse (textOf ds) with
    | error e => exact ⟨e, rfl⟩
    | ok g =>
      obtain ⟨ss', ht', hg, htyped⟩ := Graph.parse_eq_ok hparse
      obtain rfl : ss = ss' := by
        rw [ht] at ht'
        exact congrArg Prod.fst ht'
      -- a graph that was read is consistent, and so is its outline
      have houtline : g.outline = Outline.ofDrafts ds := Graph.addAll_outline hss hfresh hg
      refine absurd ⟨houtline ▸ (Graph.consistent_of_parse hparse).coherent, ?_⟩ h
      rw [← houtline]
      intro n hn
      obtain ⟨k, hk, rfl⟩ := mem_map.mp hn
      exact (Graph.outline_components_ne_nil k).mpr (htyped k hk)

/-- A text as a word of the class that it is checked to be of. -/
def wordOf {accept : Char → Bool} (text : String)
    (h : (text != "" && text.toList.all accept) = true := by decide) : Word accept :=
  ⟨text, by simp_all, by simp_all⟩

/-- Drafts of all forms. The node `b` is exported from before it gets its component, and two nodes have no name. -/
def sample : List Draft :=
  [.exportPort .input (wordOf "b") ⟨wordOf "P", some ⟨0, by decide⟩⟩ (wordOf "in"),
    .chain
      (.named (wordOf "a") (by decide) (some ⟨some (wordOf "lib/src"),
        [⟨wordOf "k", .absent⟩, ⟨wordOf "v", .bare "1|min:-2" (all_eq_true.mp (by decide))⟩,
          ⟨wordOf "q", .quoted [.plain ',' (by decide), .escape '"' (by decide)]⟩]⟩))
      [⟨⟨wordOf "OUT", some ⟨maxIndex, Nat.le_refl _⟩⟩, ⟨wordOf "IN", none⟩, .anonymous (wordOf "tee") []⟩,
        ⟨⟨wordOf "X", none⟩, ⟨wordOf "-Y", none⟩, .named (wordOf "b") (by decide) none⟩],
    .declare (wordOf "s") (wordOf "fbp") ⟨"a # b.fbp", by decide, by decide, all_eq_true.mp (by decide)⟩,
    .exportOption (wordOf "b") (wordOf "k") (wordOf "limit"),
    .chain (.anonymous (wordOf "tee") []) [],
    .chain (.named (wordOf "b") (by decide) (some ⟨some (wordOf "s"), []⟩)) [],
    .exportPort .output (wordOf "DECLARE") ⟨wordOf "P", none⟩ (wordOf "in"),
    .chain (.named (wordOf "DECLARE") (by decide) (some ⟨some (wordOf "s"), []⟩)) []]

/-- The sample is read, and refused once a draft of it comes a second time. -/
theorem parse_textOf_sample :
    textOf sample = "INPORT=b.P[0]:in
a(lib/src:k,v=1|min:-2,q=\",\\\"\") OUT[9223372036854775807] -> IN _(tee) X -> -Y b
DECLARE=s:fbp:a # b.fbp
OPTION=b.k:limit
_(tee)
b(s)
OUTPORT=DECLARE.P:in
DECLARE(s)
" ∧
    (Outline.ofDrafts sample).Consistent ∧
    (∃ g, Graph.parse (textOf sample) = .ok g ∧ g.outline = Outline.ofDrafts sample) ∧
    ¬ (Outline.ofDrafts (sample ++ sample.take 1)).Consistent ∧
    ∃ e, Graph.parse (textOf (sample ++ sample.take 1)) = .error e := by
  have hconsistent : (Outline.ofDrafts sample).Consistent := by decide +kernel
  have hrepeated : ¬ (Outline.ofDrafts (sample ++ sample.take 1)).Consistent := by decide +kernel
  exact ⟨by decide +kernel, hconsistent, (parse_textOf sample).1 hconsistent, hrepeated,
    (parse_textOf (sample ++ sample.take 1)).2 hrepeated⟩

end Draft

end FlowCompiler
