import FlowCompiler.Proofs.Graph.Assembly

/-!
# Graphs read from a text

Main statement: `parse_wellFormed`. A graph that a text gives is well formed (`Graph.WellFormed`), so that
later stages may follow its indices without a check, and each `_` of the text has a node of its own in it.
-/

namespace FlowCompiler

open List

variable {g g' : Graph} {text : String} {s : Statement}

/-- The declarations of a statement. -/
def Statement.declared : Statement → List Graph.Declaration
  | .declare d => [d]
  | .chain .. | .exportPort .. | .exportOption .. => []

theorem Statement.eq_declare_of_mem {d : Graph.Declaration} (h : d ∈ s.declared) : s = .declare d := by
  cases s with
  | declare k => rw [mem_singleton.mp h]
  | chain | exportPort | exportOption => cases h

namespace Graph

/-- A graph whose names tell apart what they name and whose indices point into its nodes. -/
structure WellFormed (g : Graph) : Prop where
  names : (g.nodes.map (·.name)).Nodup
  index : ∀ name i, g.index? name = some i ↔ ∃ n, g.nodes[i]? = some n ∧ n.name = name
  components : ∀ n ∈ g.nodes, n.component ≠ ""
  settings : ∀ n ∈ g.nodes, (n.settings.map (·.key)).Nodup
  connectionNodes : ∀ c ∈ g.connections, c.source < g.nodes.length ∧ c.target < g.nodes.length
  connectionEnds : g.connections.Pairwise fun a b =>
    ¬ (a.source = b.source ∧ a.sourcePort = b.sourcePort ∧
      a.target = b.target ∧ a.targetPort = b.targetPort)
  exportNodes : ∀ direction, ∀ e ∈ g.exports direction, e.node < g.nodes.length
  exportNames : ∀ direction, ((g.exports direction).map (·.name)).Nodup
  exportPorts : ∀ direction, (g.exports direction).Pairwise fun a b =>
    ¬ (a.node = b.node ∧ a.port.name = b.port.name ∧
      (a.port.index = b.port.index ∨ a.port.index = none ∨ b.port.index = none))
  optionNodes : ∀ o ∈ g.options, o.node < g.nodes.length
  optionNames : (g.options.map (·.name)).Nodup
  declarationNames : (g.declarations.map (·.name)).Nodup
  contents : ∀ d ∈ g.declarations,
    d.contents ≠ "" ∧ ',' ∉ d.contents.toList ∧ '\n' ∉ d.contents.toList

/-! ## Declarations and exported options -/

theorem place_kept {name : String} {pos : Position} {i : Nat} (h : g.place name pos = (g', i)) :
    g'.declarations = g.declarations ∧ g'.options = g.options := by
  obtain ⟨rfl, -⟩ | ⟨-, -, rfl⟩ := place_cases h <;> exact ⟨rfl, rfl⟩

theorem addMention_kept {m : Mention} {i : Nat} (h : g.addMention m = .ok (g', i)) :
    g'.declarations = g.declarations ∧ g'.options = g.options := by
  obtain ⟨g₁, n, n₁, n', hp, -, -, -, -, rfl⟩ := addMention_eq_ok h
  have hkept := place_kept hp
  exact hkept

theorem addLinks_kept {source : Nat} {ls : List Link} (h : g.addLinks source ls = .ok g') :
    g'.declarations = g.declarations ∧ g'.options = g.options := by
  induction ls generalizing g source with
  | nil =>
    cases h
    exact ⟨rfl, rfl⟩
  | cons l ls ih =>
    obtain ⟨⟨g₁, target⟩, h₁, h⟩ := bind_eq_ok.mp h
    obtain ⟨g₂, h₂, h⟩ := bind_eq_ok.mp h
    obtain ⟨hdeclarations, hoptions⟩ := ih h
    obtain ⟨hdeclarations₁, hoptions₁⟩ := addMention_kept h₁
    rw [(addConnection_eq_ok h₂).2] at hdeclarations hoptions
    exact ⟨hdeclarations.trans hdeclarations₁, hoptions.trans hoptions₁⟩

/-- Only a declaration adds to the declarations, and only an exported option to the exported options. -/
theorem add_kept (h : g.add s = .ok g') :
    g'.declarations = g.declarations ++ s.declared ∧
      ∃ os, g'.options = g.options ++ os ∧ ∀ o ∈ os, ∃ node, s = .exportOption node o.option o.name o.pos := by
  cases s with
  | chain head links =>
    obtain ⟨⟨g₁, source⟩, h₁, h⟩ := bind_eq_ok.mp h
    obtain ⟨hdeclarations, hoptions⟩ := addMention_kept h₁
    rw [(addLinks_kept h).1, (addLinks_kept h).2, hdeclarations, hoptions]
    exact ⟨(append_nil _).symm, [], (append_nil _).symm, forall_mem_nil _⟩
  | exportPort direction node port name pos =>
    rcases hp : g.place node pos with ⟨g₁, i⟩
    simp only [add, hp] at h
    obtain ⟨_, -, h⟩ := bind_eq_ok.mp h
    rw [← (place_kept hp).1, ← (place_kept hp).2]
    cases direction <;> cases h <;>
      exact ⟨(append_nil _).symm, [], (append_nil _).symm, forall_mem_nil _⟩
  | declare d =>
    rw [(addDeclaration_eq_ok h).2]
    exact ⟨rfl, [], (append_nil _).symm, forall_mem_nil _⟩
  | exportOption node option name pos =>
    obtain ⟨_, -, h⟩ := bind_eq_ok.mp h
    rcases hp : g.place node pos with ⟨g₁, i⟩
    simp only [hp] at h
    rw [← (place_kept hp).1, ← (place_kept hp).2]
    cases h
    exact ⟨(append_nil _).symm, [_], rfl, forall_mem_singleton.mpr ⟨node, rfl⟩⟩

theorem addAll_kept {ss : List Statement} (h : g.addAll ss = .ok g') :
    g'.declarations = g.declarations ++ ss.flatMap Statement.declared ∧
      ∃ os, g'.options = g.options ++ os ∧ ∀ o ∈ os, ∃ node, .exportOption node o.option o.name o.pos ∈ ss := by
  induction ss generalizing g with
  | nil =>
    cases h
    exact ⟨(append_nil _).symm, [], (append_nil _).symm, forall_mem_nil _⟩
  | cons s ss ih =>
    obtain ⟨g₁, h₁, h⟩ := bind_eq_ok.mp h
    obtain ⟨hdeclarations₁, os₁, hoptions₁, hos₁⟩ := add_kept h₁
    obtain ⟨hdeclarations, os, hoptions, hos⟩ := ih h
    refine ⟨by rw [hdeclarations, hdeclarations₁, append_assoc, flatMap_cons], os₁ ++ os,
      by rw [hoptions, hoptions₁, append_assoc], forall_mem_append.mpr ⟨fun o ho => ?_, fun o ho => ?_⟩⟩
    · obtain ⟨node, rfl⟩ := hos₁ o ho
      exact ⟨node, mem_cons_self⟩
    · obtain ⟨node, hmem⟩ := hos o ho
      exact ⟨node, mem_cons_of_mem s hmem⟩

/-! ## Reading -/

theorem checkTyped_eq_ok (h : g.checkTyped = .ok g') : g' = g ∧ ∀ n ∈ g.nodes, n.component ≠ "" := by
  unfold checkTyped at h
  split at h
  · cases h
  · next hfind =>
    cases h
    exact ⟨rfl, fun n hn => by simpa using find?_eq_none.mp hfind n hn⟩

/-- A graph comes from the statements of the text, all of them without a fault. -/
theorem parse_eq_ok (h : parse text = .ok g) :
    ∃ ss, Statement.ofText text = (ss, none) ∧ addAll {} ss = .ok g ∧
      ∀ n ∈ g.nodes, n.component ≠ "" := by
  unfold parse at h
  rcases ht : Statement.ofText text with ⟨ss, fault⟩
  simp only [ht] at h
  obtain ⟨g₁, h₁, h⟩ := bind_eq_ok.mp h
  cases fault with
  | some e => cases h
  | none =>
    obtain ⟨rfl, htyped⟩ := checkTyped_eq_ok h
    exact ⟨ss, rfl, h₁, htyped⟩

theorem consistent_of_parse (h : parse text = .ok g) : g.Consistent := by
  obtain ⟨ss, -, hg, -⟩ := parse_eq_ok h
  exact addAll_consistent consistent_empty hg

theorem index?_iff (hnames : (g.nodes.map (·.name)).Nodup) (name : String) (i : Nat) :
    g.index? name = some i ↔ ∃ n, g.nodes[i]? = some n ∧ n.name = name := by
  constructor
  · exact index?_eq_some
  · rintro ⟨n, hn, rfl⟩
    exact index?_of_nodup hnames hn

theorem spelled_of_parse (h : parse text = .ok g) : ∀ d ∈ g.declarations, (Statement.declare d).Spelled := by
  obtain ⟨ss, ht, hg, -⟩ := parse_eq_ok h
  intro d hd
  rw [(addAll_kept hg).1] at hd
  obtain ⟨s, hs, hd⟩ := mem_flatMap.mp hd
  rw [← Statement.eq_declare_of_mem hd]
  exact Cursor.statements_spelled ht _ hs

theorem isName_option_of_parse (h : parse text = .ok g) : ∀ o ∈ g.options, IsName o.name := by
  obtain ⟨ss, ht, hg, -⟩ := parse_eq_ok h
  obtain ⟨-, os, hoptions, hos⟩ := addAll_kept hg
  intro o ho
  rw [hoptions] at ho
  obtain ⟨node, hs⟩ := hos o ho
  exact (Cursor.statements_spelled ht _ hs).2

theorem contents_of_parse (h : parse text = .ok g) :
    ∀ d ∈ g.declarations,
      d.contents ≠ "" ∧ ',' ∉ d.contents.toList ∧ '\n' ∉ d.contents.toList := by
  intro d hd
  obtain ⟨-, hne, hchars⟩ := spelled_of_parse h d hd
  refine ⟨hne, fun hc => ?_, fun hc => ?_⟩
  · exact absurd (hchars _ hc) (by decide)
  · exact absurd (hchars _ hc) (by decide)

theorem wellFormed_of_parse (h : parse text = .ok g) : g.WellFormed := by
  have hg := consistent_of_parse h
  obtain ⟨ss, -, -, htyped⟩ := parse_eq_ok h
  exact
    { names := hg.names
      index := index?_iff hg.names
      components := htyped
      settings := hg.settings
      connectionNodes := hg.connectionNodes
      connectionEnds := hg.connectionEnds.imp fun hab => by
        simpa [Connection.sameEnds, and_assoc] using hab
      exportNodes := fun direction => (hg.exports direction).nodes
      exportNames := fun direction => (hg.exports direction).names
      exportPorts := fun direction => (hg.exports direction).ports.imp fun hab => by
        simpa [ExportedPort.sharesPort, and_assoc, or_assoc, Option.isSome_iff_ne_none] using hab
      optionNodes := hg.optionNodes
      optionNames := hg.optionNames
      declarationNames := hg.declarationNames
      contents := contents_of_parse h }

/-- A text that can be read gives a well formed graph. Its references to nodes meet only where both
write the same name, and each `_` has in the graph the node that it describes. -/
theorem parse_wellFormed {text : String} {g : Graph} (h : parse text = .ok g) :
    g.WellFormed ∧ ∃ ss, Statement.ofText text = (ss, none) ∧
      (ss.flatMap Statement.references).Pairwise Statement.Apart ∧
      ∀ n, .anonymous n ∈ ss.flatMap Statement.references → n ∈ g.nodes := by
  refine ⟨wellFormed_of_parse h, ?_⟩
  obtain ⟨ss, ht, hg, -⟩ := parse_eq_ok h
  have hapart := Statement.references_apart ht
  refine ⟨ss, ht, hapart, (addAll_visits hg).made hapart ?_⟩
  intro n _ k hk
  cases hk

/-- A flow that exports two elements of a port and joins two anonymous nodes through a named one. -/
theorem parse_wellFormed_anonymous_pair :
    ∃ g, parse "INPORT=b.IN[0]:X, INPORT=b.IN[1]:Y\n_(t) OUT -> IN b(c:k=1), b OUT -> IN _(t)" = .ok g ∧
      g.nodes.map (·.name) = ["b", "#anon:2:1", "#anon:2:38"] ∧ g.WellFormed := by
  have h : parse "INPORT=b.IN[0]:X, INPORT=b.IN[1]:Y\n_(t) OUT -> IN b(c:k=1), b OUT -> IN _(t)" = .ok
      { nodes := [⟨"b", "c", [⟨"k", "1", ⟨2, 20⟩⟩], ⟨2, 16⟩⟩, ⟨"#anon:2:1", "t", [], ⟨2, 1⟩⟩,
          ⟨"#anon:2:38", "t", [], ⟨2, 38⟩⟩]
        connections := [⟨1, ⟨"OUT", none⟩, 0, ⟨"IN", none⟩, ⟨2, 6⟩⟩,
          ⟨0, ⟨"OUT", none⟩, 2, ⟨"IN", none⟩, ⟨2, 28⟩⟩]
        inputs := [⟨0, ⟨"IN", some 0⟩, "X", ⟨1, 8⟩⟩, ⟨0, ⟨"IN", some 1⟩, "Y", ⟨1, 26⟩⟩] } := by
    decide +kernel
  exact ⟨_, h, rfl, (parse_wellFormed h).1⟩

end Graph

end FlowCompiler
