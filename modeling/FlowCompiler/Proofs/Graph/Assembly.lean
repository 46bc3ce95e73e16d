import FlowCompiler.Graph.Assembly
import FlowCompiler.Proofs.Graph.Mentions

/-!
# What statements do to a graph

- **Consistency** (`Graph.Consistent`): names, keys and exports are distinct where they have to be, and
  whatever refers to a node refers to one of the list. Each operation keeps it, hence so does taking in
  a list of statements (`addAll_consistent`).
- **Frame** (`Graph.Visits`): a reference changes the node of its name and no other, and makes it if there
  is none. Over a list of statements, each `_` leaves the node that it describes in the graph, as long
  as nothing else refers to it (`VisitsAll.made`).
-/

namespace FlowCompiler

open List

variable {g g' : Graph} {pos : Position} {i source : Nat} {component name : String} {m : Mention}
  {e : ExportedPort} {rs : List Reference} {n : Node} {es : List ExportedPort} {direction : Direction}
  {ss : List Statement} {c : Connection} {ls : List Link} {s : Statement}

namespace Graph

/-- What holds of the exports of one direction in a graph with `size` nodes. -/
structure ExportsOk (size : Nat) (es : List ExportedPort) : Prop where
  nodes : ∀ e ∈ es, e.node < size
  names : (es.map (·.name)).Nodup
  ports : es.Pairwise fun a b => a.sharesPort b = false

/-- What holds of a graph while statements are taken into it. -/
structure Consistent (g : Graph) : Prop where
  names : (g.nodes.map (·.name)).Nodup
  settings : ∀ n ∈ g.nodes, (n.settings.map (·.key)).Nodup
  connectionNodes : ∀ c ∈ g.connections, c.source < g.nodes.length ∧ c.target < g.nodes.length
  connectionEnds : g.connections.Pairwise fun a b => a.sameEnds b = false
  inputs : ExportsOk g.nodes.length g.inputs
  outputs : ExportsOk g.nodes.length g.outputs
  declarationNames : (g.declarations.map (·.name)).Nodup
  optionNames : (g.options.map (·.name)).Nodup
  optionNodes : ∀ o ∈ g.options, o.node < g.nodes.length

theorem Consistent.exports (h : g.Consistent) : ∀ direction, ExportsOk g.nodes.length (g.exports direction)
  | .input => h.inputs
  | .output => h.outputs

theorem ExportsOk.nil (size : Nat) : ExportsOk size [] := ⟨by simp, .nil, .nil⟩

theorem ExportsOk.mono {size size' : Nat} (h : ExportsOk size es) (hs : size ≤ size') : ExportsOk size' es :=
  { h with nodes := fun e he => Nat.lt_of_lt_of_le (h.nodes e he) hs }

theorem consistent_empty : Consistent {} where
  names := .nil
  settings := by simp
  connectionNodes := by simp
  connectionEnds := .nil
  inputs := .nil _
  outputs := .nil _
  declarationNames := .nil
  optionNames := .nil
  optionNodes := by simp

/-- Nodes may be added or changed as long as names and keys stay distinct and none is lost. -/
theorem Consistent.withNodes (h : g.Consistent) {nodes : List Node} (hnames : (nodes.map (·.name)).Nodup)
    (hsettings : ∀ n ∈ nodes, (n.settings.map (·.key)).Nodup) (hlength : g.nodes.length ≤ nodes.length) :
    Consistent { g with nodes } :=
  { h with
    names := hnames
    settings := hsettings
    connectionNodes := fun c hc =>
      ⟨Nat.lt_of_lt_of_le (h.connectionNodes c hc).1 hlength,
        Nat.lt_of_lt_of_le (h.connectionNodes c hc).2 hlength⟩
    inputs := h.inputs.mono hlength
    outputs := h.outputs.mono hlength
    optionNodes := fun o ho => Nat.lt_of_lt_of_le (h.optionNodes o ho) hlength }

/-- A list without repetition of `key` stays so when an entry with a new key comes last. -/
theorem nodup_map_concat {α : Type} {key : α → String} {l : List α} {b : α}
    (h : (l.map key).Nodup) (hnew : ∀ a ∈ l, key a ≠ key b) : ((l ++ [b]).map key).Nodup := by
  rw [map_append]
  refine nodup_append'.mpr ⟨h, nodup_singleton _, ?_⟩
  intro k hk hb
  obtain rfl := mem_singleton.mp hb
  obtain ⟨a, ha, heq⟩ := mem_map.mp hk
  exact hnew a ha heq

/-! ## Finding nodes -/

theorem index?_eq_some (h : g.index? name = some i) : ∃ n, g.nodes[i]? = some n ∧ n.name = name := by
  obtain ⟨hi, hn, -⟩ := findIdx?_eq_some_iff_getElem.mp h
  exact ⟨g.nodes[i], getElem?_eq_getElem hi, by simpa using hn⟩

theorem index?_eq_none (h : g.index? name = none) : ∀ n ∈ g.nodes, n.name ≠ name := by
  intro n hn
  simpa using findIdx?_eq_none_iff.mp h n hn

/-- In a list of nodes with distinct names, the name of a node finds its place. -/
theorem index?_of_nodup (hnames : (g.nodes.map (·.name)).Nodup) (h : g.nodes[i]? = some n) :
    g.index? n.name = some i := by
  obtain ⟨hi, rfl⟩ := List.getElem?_eq_some_iff.mp h
  refine findIdx?_eq_some_iff_getElem.mpr ⟨hi, by simp, ?_⟩
  intro j hj heq
  have hne := pairwise_iff_getElem.mp hnames j i (by simp; omega) (by simpa using hi) hj
  simp only [getElem_map, beq_iff_eq] at hne heq
  exact hne heq

/-! ## Changes to one node -/

/-- A component is taken exactly where the node has none yet. -/
theorem Node.addComponent_iff {n' : Node} :
    n.addComponent component pos = .ok n' ↔
      component = "" ∧ n' = n ∨
        component ≠ "" ∧ n.component = "" ∧ n' = { n with component := component, pos := pos } := by
  constructor
  · intro h
    unfold addComponent at h
    split at h
    · next hempty => exact .inl ⟨hempty, (Except.ok.inj h).symm⟩
    · next hne =>
      split at h
      · next hn => exact .inr ⟨hne, hn, (Except.ok.inj h).symm⟩
      · cases h
  · rintro (⟨hempty, rfl⟩ | ⟨hne, hn, rfl⟩)
    · rw [addComponent, if_pos hempty]
    · rw [addComponent, if_neg hne, if_pos hn]

theorem Node.addComponent_eq_ok {n' : Node} (h : n.addComponent component pos = .ok n') :
    n'.name = n.name ∧ n'.settings = n.settings := by
  obtain ⟨-, rfl⟩ | ⟨-, -, rfl⟩ := addComponent_iff.mp h
  · exact ⟨rfl, rfl⟩
  · exact ⟨rfl, rfl⟩

/-- Settings are appended, and only where no key comes twice. -/
theorem Node.addSettings_eq_ok {n' : Node} {ms : List Meta} (h : n.addSettings ms = .ok n') :
    n' = { n with settings := n.settings ++ ms } ∧
      ((n.settings.map (·.key)).Nodup → (n'.settings.map (·.key)).Nodup) := by
  induction ms generalizing n with
  | nil =>
    cases h
    simp
  | cons m ms ih =>
    unfold addSettings at h
    split at h
    · cases h
    · next hfind =>
      obtain ⟨rfl, hnodup⟩ := ih h
      refine ⟨by simp, fun hn => hnodup (nodup_map_concat hn ?_)⟩
      intro m' hm'
      simpa using find?_eq_none.mp hfind m' hm'

/-! ## Mentions -/

/-- The node called `name` has its place already, or it is new and comes last. -/
theorem place_cases (h : g.place name pos = (g', i)) :
    (g' = g ∧ ∃ n, g.nodes[i]? = some n ∧ n.name = name) ∨
      ((∀ n ∈ g.nodes, n.name ≠ name) ∧ i = g.nodes.length ∧
        g' = { g with nodes := g.nodes ++ [⟨name, "", [], pos⟩] }) := by
  unfold place at h
  split at h
  · next j hj =>
    cases h
    exact .inl ⟨rfl, index?_eq_some hj⟩
  · next hj =>
    cases h
    exact .inr ⟨index?_eq_none hj, rfl, rfl⟩

/-- The node is in the list, whether it is new or not. -/
theorem place_getElem? (h : g.place name pos = (g', i)) : ∃ n, g'.nodes[i]? = some n ∧ n.name = name := by
  obtain ⟨rfl, hn⟩ | ⟨-, rfl, rfl⟩ := place_cases h
  · exact hn
  · exact ⟨⟨name, "", [], pos⟩, by simp, rfl⟩

theorem place_lt (h : g.place name pos = (g', i)) : i < g'.nodes.length := by
  obtain ⟨n, hn, -⟩ := place_getElem? h
  exact (List.getElem?_eq_some_iff.mp hn).1

theorem place_length_le (h : g.place name pos = (g', i)) : g.nodes.length ≤ g'.nodes.length := by
  obtain ⟨rfl, -⟩ | ⟨-, -, rfl⟩ := place_cases h
  · exact le_rfl
  · simp

/-- A mention changes the node of its name: it may get a component, and gets the settings. -/
theorem addMention_eq_ok (h : g.addMention m = .ok (g', i)) :
    ∃ g₁ n n₁ n', g.place m.nodeName m.pos = (g₁, i) ∧ g₁.nodes[i]? = some n ∧ n.name = m.nodeName ∧
      n.addComponent m.component m.pos = .ok n₁ ∧ n₁.addSettings m.settings = .ok n' ∧
      g' = { g₁ with nodes := g₁.nodes.set i n' } := by
  unfold addMention at h
  rcases hp : g.place m.nodeName m.pos with ⟨g₁, j⟩
  simp only [hp] at h
  obtain ⟨g₂, hg₂, h⟩ := bind_eq_ok.mp h
  cases h
  obtain ⟨n, hn, hname⟩ := place_getElem? hp
  simp only [modifyNode, hn] at hg₂
  cases hc : (n.addComponent m.component m.pos >>= fun n₁ => n₁.addSettings m.settings) with
  | error e =>
    rw [hc] at hg₂
    cases hg₂
  | ok n' =>
    rw [hc] at hg₂
    cases hg₂
    obtain ⟨n₁, hn₁, hn'⟩ := bind_eq_ok.mp hc
    exact ⟨g₁, n, n₁, n', rfl, hn, hname, hn₁, hn', rfl⟩

theorem addMention_lt (h : g.addMention m = .ok (g', i)) : i < g'.nodes.length := by
  obtain ⟨g₁, n, n₁, n', hp, -, -, -, -, rfl⟩ := addMention_eq_ok h
  simpa using place_lt hp

theorem addMention_length_le (h : g.addMention m = .ok (g', i)) : g.nodes.length ≤ g'.nodes.length := by
  obtain ⟨g₁, n, n₁, n', hp, -, -, -, -, rfl⟩ := addMention_eq_ok h
  simpa using place_length_le hp

/-! ## What is added -/

theorem addConnection_eq_ok (h : g.addConnection c = .ok g') :
    (∀ k ∈ g.connections, k.sameEnds c = false) ∧
      g' = { g with connections := g.connections ++ [c] } := by
  unfold addConnection at h
  split at h
  · cases h
  · next hfind =>
    cases h
    refine ⟨fun k hk => ?_, rfl⟩
    simpa using find?_eq_none.mp hfind k hk

theorem checkExport_eq_ok {u : Unit} (h : g.checkExport direction e = .ok u) :
    ∀ o ∈ g.exports direction, o.name ≠ e.name ∧ o.sharesPort e = false := by
  unfold checkExport at h
  split at h
  · next hfind =>
    intro o ho
    simpa using find?_eq_none.mp hfind o ho
  · split at h <;> cases h

theorem ExportsOk.concat {size : Nat} (h : ExportsOk size es) (hn : e.node < size)
    (hnew : ∀ o ∈ es, o.name ≠ e.name ∧ o.sharesPort e = false) : ExportsOk size (es ++ [e]) where
  nodes o ho := by
    rcases mem_append.mp ho with ho | ho
    · exact h.nodes o ho
    · obtain rfl := mem_singleton.mp ho
      exact hn
  names := nodup_map_concat h.names fun o ho => (hnew o ho).1
  ports := by
    refine pairwise_append.mpr ⟨h.ports, pairwise_singleton _ _, ?_⟩
    intro a ha b hb
    obtain rfl := mem_singleton.mp hb
    exact (hnew a ha).2

theorem addDeclaration_eq_ok {d : Declaration} (h : g.addDeclaration d = .ok g') :
    (∀ k ∈ g.declarations, k.name ≠ d.name) ∧
      g' = { g with declarations := g.declarations ++ [d] } := by
  unfold addDeclaration at h
  split at h
  · cases h
  · next hany =>
    cases h
    refine ⟨fun k hk => ?_, rfl⟩
    simpa using fun heq => hany (any_eq_true.mpr ⟨k, hk, by simpa using heq⟩)

theorem checkOption_eq_ok {u : Unit} (h : g.checkOption name pos = .ok u) :
    ∀ o ∈ g.options, o.name ≠ name := by
  unfold checkOption at h
  split at h
  · cases h
  · next hfind =>
    intro o ho
    simpa using find?_eq_none.mp hfind o ho

/-! ## Consistency is kept -/

theorem place_consistent (h : g.Consistent) (hp : g.place name pos = (g', i)) : g'.Consistent := by
  obtain ⟨rfl, -⟩ | ⟨hnew, -, rfl⟩ := place_cases hp
  · exact h
  · refine h.withNodes (nodup_map_concat h.names hnew) ?_ (by simp)
    intro n hn
    rcases mem_append.mp hn with hn | hn
    · exact h.settings n hn
    · obtain rfl := mem_singleton.mp hn
      exact .nil

theorem addMention_consistent (h : g.Consistent) (hm : g.addMention m = .ok (g', i)) : g'.Consistent := by
  obtain ⟨g₁, n, n₁, n', hp, hn, -, hn₁, hn', rfl⟩ := addMention_eq_ok hm
  have h₁ := place_consistent h hp
  obtain ⟨hname, hsettings⟩ := Node.addComponent_eq_ok hn₁
  obtain ⟨hn', hnodup⟩ := Node.addSettings_eq_ok hn'
  refine h₁.withNodes ?_ ?_ (by simp)
  · have hsame : (g₁.nodes.map (·.name))[i]? = some n'.name := by
      rw [getElem?_map, hn, hn', Option.map_some, ← hname]
    obtain ⟨_, hsame⟩ := List.getElem?_eq_some_iff.mp hsame
    rw [map_set, ← hsame, set_getElem_self]
    exact h₁.names
  · intro k hk
    rcases mem_or_eq_of_mem_set hk with hk | rfl
    · exact h₁.settings k hk
    · refine hnodup ?_
      rw [hsettings]
      exact h₁.settings n (mem_of_getElem? hn)

theorem addConnection_consistent (h : g.Consistent) (hs : c.source < g.nodes.length)
    (ht : c.target < g.nodes.length) (hc : g.addConnection c = .ok g') : g'.Consistent := by
  obtain ⟨hnew, rfl⟩ := addConnection_eq_ok hc
  exact
    { h with
      connectionNodes := by
        intro k hk
        rcases mem_append.mp hk with hk | hk
        · exact h.connectionNodes k hk
        · obtain rfl := mem_singleton.mp hk
          exact ⟨hs, ht⟩
      connectionEnds := by
        refine pairwise_append.mpr ⟨h.connectionEnds, pairwise_singleton _ _, ?_⟩
        intro a ha b hb
        obtain rfl := mem_singleton.mp hb
        exact hnew a ha }

theorem addLinks_consistent (h : g.Consistent) (hs : source < g.nodes.length)
    (hl : g.addLinks source ls = .ok g') : g'.Consistent := by
  induction ls generalizing g source with
  | nil =>
    cases hl
    exact h
  | cons l ls ih =>
    obtain ⟨⟨g₁, target⟩, h₁, hl⟩ := bind_eq_ok.mp hl
    obtain ⟨g₂, h₂, hl⟩ := bind_eq_ok.mp hl
    have ht := addMention_lt h₁
    have hs₁ : source < g₁.nodes.length := Nat.lt_of_lt_of_le hs (addMention_length_le h₁)
    have hc := addConnection_consistent (addMention_consistent h h₁) hs₁ ht h₂
    obtain ⟨-, rfl⟩ := addConnection_eq_ok h₂
    exact ih hc ht hl

theorem addExport_consistent (h : g.Consistent) (hn : e.node < g.nodes.length)
    (he : g.addExport direction e = .ok g') : g'.Consistent := by
  obtain ⟨_, hcheck, he⟩ := bind_eq_ok.mp he
  have hok := (h.exports direction).concat hn (checkExport_eq_ok hcheck)
  cases direction with
  | input =>
    cases he
    exact { h with inputs := hok }
  | output =>
    cases he
    exact { h with outputs := hok }

theorem add_consistent (h : g.Consistent) (hs : g.add s = .ok g') : g'.Consistent := by
  cases s with
  | chain head links =>
    obtain ⟨⟨g₁, source⟩, h₁, hs⟩ := bind_eq_ok.mp hs
    exact addLinks_consistent (addMention_consistent h h₁) (addMention_lt h₁) hs
  | exportPort direction node port name pos =>
    exact addExport_consistent (place_consistent h rfl) (place_lt rfl) hs
  | declare d =>
    obtain ⟨hnew, rfl⟩ := addDeclaration_eq_ok hs
    exact { h with declarationNames := nodup_map_concat h.declarationNames hnew }
  | exportOption node option name pos =>
    obtain ⟨_, hcheck, hs⟩ := bind_eq_ok.mp hs
    rcases hp : g.place node pos with ⟨g₁, i⟩
    simp only [hp] at hs
    cases hs
    have h₁ := place_consistent h hp
    have hi := place_lt hp
    have hoptions : g₁.options = g.options := by
      obtain ⟨rfl, -⟩ | ⟨-, -, rfl⟩ := place_cases hp <;> rfl
    exact
      { h₁ with
        optionNames := by
          refine nodup_map_concat h₁.optionNames ?_
          rw [hoptions]
          exact checkOption_eq_ok hcheck
        optionNodes := by
          intro o ho
          rcases mem_append.mp ho with ho | ho
          · exact h₁.optionNodes o ho
          · obtain rfl := mem_singleton.mp ho
            exact hi }

theorem addAll_consistent (h : g.Consistent) (hs : g.addAll ss = .ok g') : g'.Consistent := by
  induction ss generalizing g with
  | nil =>
    cases hs
    exact h
  | cons s ss ih =>
    obtain ⟨g₁, h₁, hs⟩ := bind_eq_ok.mp hs
    exact ih (add_consistent h h₁) hs

/-! ## What a reference does to the nodes -/

/-- A reference changes at most the node of its name, and makes it if there is none; then `_` makes the
node that it describes. -/
structure Visits (r : Reference) (g g' : Graph) : Prop where
  names : ∀ n' ∈ g'.nodes, n'.name = r.name ∨ ∃ n ∈ g.nodes, n'.name = n.name
  kept : ∀ n ∈ g.nodes, n.name ≠ r.name → n ∈ g'.nodes
  made : ∀ n, r = .anonymous n → (∀ k ∈ g.nodes, k.name ≠ n.name) → n ∈ g'.nodes

/-- A list of references, one after the other, with changes outside of the nodes between them. -/
inductive VisitsAll : List Reference → Graph → Graph → Prop where
  | nil {g g' : Graph} (h : g'.nodes = g.nodes) : VisitsAll [] g g'
  | cons {r : Reference} {rs : List Reference} {g g₁ g' : Graph} (h : Visits r g g₁)
      (hs : VisitsAll rs g₁ g') : VisitsAll (r :: rs) g g'

theorem Visits.of_nodes_eq {r : Reference} {g₁ : Graph} (h : Visits r g g₁) (hn : g'.nodes = g₁.nodes) :
    Visits r g g' := by
  obtain ⟨hnames, hkept, hmade⟩ := h
  rw [← hn] at hnames hkept hmade
  exact ⟨hnames, hkept, hmade⟩

theorem VisitsAll.append {ts : List Reference} {g₁ : Graph} (h : VisitsAll rs g g₁)
    (ht : VisitsAll ts g₁ g') : VisitsAll (rs ++ ts) g g' := by
  induction h with
  | nil hn =>
    cases ht with
    | nil hn' => exact .nil (hn'.trans hn)
    | cons h hs =>
      obtain ⟨hnames, hkept, hmade⟩ := h
      rw [hn] at hnames hkept hmade
      exact .cons ⟨hnames, hkept, hmade⟩ hs
  | cons h _ ih => exact .cons h (ih ht)

theorem place_visits (h : g.place name pos = (g', i)) : Visits (.named name) g g' := by
  obtain ⟨rfl, -⟩ | ⟨-, -, rfl⟩ := place_cases h
  · exact ⟨fun n hn => .inr ⟨n, hn, rfl⟩, fun n hn _ => hn, fun n hr => by cases hr⟩
  · refine ⟨fun n hn => ?_, fun n hn _ => mem_append_left _ hn, fun n hr => by cases hr⟩
    rcases mem_append.mp hn with hn | hn
    · exact .inr ⟨n, hn, rfl⟩
    · obtain rfl := mem_singleton.mp hn
      exact .inl rfl

/-- A mention of a new name makes the node that it describes. -/
theorem addMention_new (h : g.addMention m = .ok (g', i)) (hnew : ∀ n ∈ g.nodes, n.name ≠ m.nodeName) :
    m.node ∈ g'.nodes := by
  obtain ⟨g₁, n, n₁, n', hp, hn, -, hn₁, hn', rfl⟩ := addMention_eq_ok h
  obtain ⟨rfl, n, hn, hname⟩ | ⟨-, rfl, rfl⟩ := place_cases hp
  · exact absurd hname (hnew n (mem_of_getElem? hn))
  · obtain rfl : ⟨m.nodeName, "", [], m.pos⟩ = n := by simpa using hn
    obtain ⟨rfl, -⟩ := Node.addSettings_eq_ok hn'
    have hn₁ : n₁ = ⟨m.nodeName, m.component, [], m.pos⟩ := by
      unfold Node.addComponent at hn₁
      split at hn₁ <;> simp_all
    subst hn₁
    exact mem_of_getElem? (i := g.nodes.length) (by simp [Mention.node])

theorem addMention_visits (h : g.addMention m = .ok (g', i)) : Visits m.reference g g' := by
  have hnew := addMention_new h
  obtain ⟨g₁, n, n₁, n', hp, hn, hname, hn₁, hn', rfl⟩ := addMention_eq_ok h
  have hplace := place_visits hp
  have hname' : n'.name = m.nodeName := by
    rw [(Node.addSettings_eq_ok hn').1, ← hname, ← (Node.addComponent_eq_ok hn₁).1]
  refine ⟨fun k hk => ?_, fun k hk hne => ?_, fun k hr hk => ?_⟩
  · rw [m.reference_name]
    rcases mem_or_eq_of_mem_set hk with hk | rfl
    · exact hplace.names k hk
    · exact .inl hname'
  · rw [m.reference_name] at hne
    obtain ⟨j, hj⟩ := getElem?_of_mem (hplace.kept k hk hne)
    refine mem_of_getElem? (i := j) ?_
    rw [getElem?_set_ne, hj]
    rintro rfl
    rw [hn] at hj
    cases hj
    exact hne hname
  · unfold Mention.reference at hr
    split at hr
    · cases hr
      exact hnew hk
    · cases hr

theorem addLinks_visits (h : g.addLinks source ls = .ok g') : VisitsAll (ls.map (·.node.reference)) g g' := by
  induction ls generalizing g source with
  | nil =>
    cases h
    exact .nil rfl
  | cons l ls ih =>
    obtain ⟨⟨g₁, target⟩, h₁, h⟩ := bind_eq_ok.mp h
    obtain ⟨g₂, h₂, h⟩ := bind_eq_ok.mp h
    have hnodes : g₂.nodes = g₁.nodes := by rw [(addConnection_eq_ok h₂).2]
    exact .cons ((addMention_visits h₁).of_nodes_eq hnodes) (ih h)

theorem add_visits (h : g.add s = .ok g') : VisitsAll s.references g g' := by
  cases s with
  | chain head links =>
    obtain ⟨⟨g₁, source⟩, h₁, h⟩ := bind_eq_ok.mp h
    have hl := addLinks_visits h
    simp only [Statement.references, map_cons, map_map]
    exact .cons (addMention_visits h₁) hl
  | exportPort direction node port name pos =>
    obtain ⟨_, -, h⟩ := bind_eq_ok.mp h
    cases h
    exact .cons (place_visits rfl) (.nil (by cases direction <;> rfl))
  | declare d =>
    obtain ⟨-, rfl⟩ := addDeclaration_eq_ok h
    exact .nil rfl
  | exportOption node option name pos =>
    obtain ⟨_, -, h⟩ := bind_eq_ok.mp h
    cases h
    exact .cons (place_visits rfl) (.nil rfl)

theorem addAll_visits (h : g.addAll ss = .ok g') : VisitsAll (ss.flatMap Statement.references) g g' := by
  induction ss generalizing g with
  | nil =>
    cases h
    exact .nil rfl
  | cons s ss ih =>
    obtain ⟨g₁, h₁, h⟩ := bind_eq_ok.mp h
    exact (add_visits h₁).append (ih h)

theorem VisitsAll.kept (h : VisitsAll rs g g') (hn : n ∈ g.nodes) (hr : ∀ r ∈ rs, n.name ≠ r.name) :
    n ∈ g'.nodes := by
  induction h with
  | nil heq => rwa [heq]
  | cons h _ ih =>
    have hkept := h.kept n hn (hr _ mem_cons_self)
    exact ih hkept fun r hr' => hr r (mem_cons_of_mem _ hr')

/-- Where references share no node but by its written name, every `_` leaves the node it describes. -/
theorem VisitsAll.made (h : VisitsAll rs g g') (happart : rs.Pairwise Statement.Apart)
    (hnew : ∀ n, .anonymous n ∈ rs → ∀ k ∈ g.nodes, k.name ≠ n.name) :
    ∀ n, .anonymous n ∈ rs → n ∈ g'.nodes := by
  induction h with
  | nil => exact fun n hn => absurd hn not_mem_nil
  | @cons r rs g g₁ g' h hs ih =>
    obtain ⟨hr, hrs⟩ := pairwise_cons.mp happart
    intro n hn
    rcases mem_cons.mp hn with rfl | hn
    · -- the node is made here, and no later reference has its name
      refine hs.kept (h.made n rfl (hnew n mem_cons_self)) fun t ht heq => ?_
      cases (hr t ht heq).1
    · refine ih hrs (fun k hk k' hk' heq => ?_) n hn
      rcases h.names k' hk' with hname | ⟨k₀, hk₀, hname⟩
      · cases (hr _ hk (hname.symm.trans heq)).2
      · exact hnew k (mem_cons_of_mem _ hk) k₀ hk₀ (hname.symm.trans heq)

end Graph

end FlowCompiler
