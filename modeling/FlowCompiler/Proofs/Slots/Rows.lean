import FlowCompiler.Proofs.Slots.Connections

/-!
# Accepted connections

The rows of a unit are those of its connections, sorted; if a connection is refused, there are none, and the first
such connection is reported. Sorting keeps the order of rows that leave one slot (`filter_mergeSort`).

Main statement: `FlowUnit.connections_built_exactly`.
-/

namespace FlowCompiler

open List

namespace Graph

variable {g : Graph} {ds : List Descriptor} {cs : List Connection}

/-- A list has rows exactly if each of its connections has one. -/
theorem exists_rowsOf_iff : (∃ rows, g.rowsOf ds cs = .ok rows) ↔
    ∀ c ∈ cs, ∃ row, g.connectionRow ds c = .ok row := by
  constructor
  · rintro ⟨rows, h⟩ c hc
    exact mem_right_of_forall₂ (rowsOf_eq_ok h).flip hc
  · intro h
    cases hrows : g.rowsOf ds cs with
    | ok rows => exact ⟨rows, rfl⟩
    | error f =>
      obtain ⟨before, c, after, rfl, -, hc, -⟩ := rowsOf_eq_error_iff.mp hrows
      obtain ⟨row, hrow⟩ := h c (mem_append_right _ mem_cons_self)
      cases hc.symm.trans hrow

theorem connectionRows_eq_error_iff {f : Misplaced} :
    g.connectionRows ds = .error f ↔ g.rowsOf ds g.connections = .error f := by
  unfold connectionRows
  cases g.rowsOf ds g.connections with
  | ok rows => simp
  | error f => simp

theorem exists_connectionRows_iff :
    (∃ rows, g.connectionRows ds = .ok rows) ↔ ∃ rows, g.rowsOf ds g.connections = .ok rows := by
  unfold connectionRows
  cases g.rowsOf ds g.connections with
  | ok rows => simp
  | error f => simp

end Graph

/-! ## Sorting -/

/-- A stable sort keeps the order among elements none of which comes after another. -/
theorem filter_mergeSort {α : Type} {le : α → α → Bool}
    (htrans : ∀ a b c, le a b = true → le b c = true → le a c = true)
    (htotal : ∀ a b, (le a b || le b a) = true) {p : α → Bool}
    (hp : ∀ a b, p a = true → p b = true → le a b = true) (xs : List α) :
    (xs.mergeSort le).filter p = xs.filter p := by
  have hall : ∀ a ∈ xs.filter p, p a = true := fun a ha => (mem_filter.mp ha).2
  have hsorted : (xs.filter p).Pairwise fun a b => le a b = true :=
    pairwise_of_forall_mem_list fun a ha b hb => hp a b (hall a ha) (hall b hb)
  have hsub : (xs.filter p).Sublist ((xs.mergeSort le).filter p) := by
    have h := (sublist_mergeSort htrans htotal hsorted filter_sublist).filter p
    rwa [filter_filter, filter_congr (q := p) (by simp)] at h
  exact (hsub.eq_of_length ((mergeSort_perm xs le).filter p).length_eq.symm).symm

namespace ConnectionRow

variable {a b : ConnectionRow}

theorem notAfter_iff : a.notAfter b = true ↔
    a.source < b.source ∨ (a.source = b.source ∧ a.sourceSlot ≤ b.sourceSlot) := by
  simp [notAfter]

theorem notAfter_trans (a b c : ConnectionRow) (hab : a.notAfter b = true) (hbc : b.notAfter c = true) :
    a.notAfter c = true := by
  rw [notAfter_iff] at *
  omega

theorem notAfter_total (a b : ConnectionRow) : (a.notAfter b || b.notAfter a) = true := by
  rw [Bool.or_eq_true, notAfter_iff, notAfter_iff]
  omega

theorem pairwise_mergeSort (rows : List ConnectionRow) :
    (rows.mergeSort notAfter).Pairwise fun a b =>
      a.source < b.source ∨ (a.source = b.source ∧ a.sourceSlot ≤ b.sourceSlot) := by
  simpa only [notAfter_iff] using List.pairwise_mergeSort notAfter_trans notAfter_total rows

end ConnectionRow

/-! ## Connections of a unit -/

namespace FlowUnit

variable {u : FlowUnit} {c : Graph.Connection}

/-- A unit whose nodes have types, and whose connections are between nodes. -/
structure WellBound (u : FlowUnit) : Prop where
  bindings : u.bindings.length = u.graph.nodes.length
  connections : ∀ c ∈ u.graph.connections, c.source < u.graph.nodes.length ∧ c.target < u.graph.nodes.length

/-- The row of a connection, by the types of its nodes. -/
def Joins (u : FlowUnit) (c : Graph.Connection) (row : ConnectionRow) : Prop :=
  ∃ a b, u.bindings[c.source]? = some a ∧ u.bindings[c.target]? = some b ∧ c.Joins a.type b.type row

/-- Why there is no row for a connection, by the types of its nodes. -/
def Refuses (u : FlowUnit) (c : Graph.Connection) (e : Cause) : Prop :=
  ∃ a b, u.bindings[c.source]? = some a ∧ u.bindings[c.target]? = some b ∧ c.Refused u.graph a.type b.type e

theorem WellBound.exists_typeAt (h : u.WellBound) {i : Nat} (hi : i < u.graph.nodes.length) :
    ∃ b, u.bindings[i]? = some b ∧ Graph.typeAt u.types i = b.type := by
  have hi : i < u.bindings.length := h.bindings ▸ hi
  refine ⟨u.bindings[i], getElem?_eq_getElem hi, ?_⟩
  simp [Graph.typeAt, types, hi]

theorem WellBound.connectionRow_eq_ok_iff (h : u.WellBound) (hc : c ∈ u.graph.connections) {row : ConnectionRow} :
    u.graph.connectionRow u.types c = .ok row ↔ u.Joins c row := by
  obtain ⟨a, ha, hatype⟩ := h.exists_typeAt (h.connections c hc).1
  obtain ⟨b, hb, hbtype⟩ := h.exists_typeAt (h.connections c hc).2
  rw [Graph.connectionRow_eq_ok_iff, hatype, hbtype, Joins, ha, hb]
  simp

theorem WellBound.connectionRow_eq_error_iff (h : u.WellBound) (hc : c ∈ u.graph.connections) {e : Cause} :
    u.graph.connectionRow u.types c = .error e ↔ u.Refuses c e := by
  obtain ⟨a, ha, hatype⟩ := h.exists_typeAt (h.connections c hc).1
  obtain ⟨b, hb, hbtype⟩ := h.exists_typeAt (h.connections c hc).2
  rw [Graph.connectionRow_eq_error_iff, hatype, hbtype, Refuses, ha, hb]
  simp

theorem WellBound.rowsOf_eq_ok_iff (h : u.WellBound) {rows : List ConnectionRow} :
    u.graph.rowsOf u.types u.graph.connections = .ok rows ↔ List.Forall₂ u.Joins u.graph.connections rows := by
  rw [Graph.rowsOf_eq_ok_iff]
  constructor
  · intro hrows
    have hmem := (forall₂_and_left _ _).mpr ⟨fun c hc => hc, hrows⟩
    exact hmem.imp fun c row hrow => (h.connectionRow_eq_ok_iff hrow.1).mp hrow.2
  · intro hrows
    have hmem := (forall₂_and_left _ _).mpr ⟨fun c hc => hc, hrows⟩
    exact hmem.imp fun c row hrow => (h.connectionRow_eq_ok_iff hrow.1).mpr hrow.2

theorem WellBound.rowsOf_eq_error_iff (h : u.WellBound) {pos : Position} {e : Cause} :
    u.graph.rowsOf u.types u.graph.connections = .error (pos, e) ↔
      ∃ before c after, u.graph.connections = before ++ c :: after ∧ (∀ b ∈ before, ∃ row, u.Joins b row) ∧
        u.Refuses c e ∧ pos = c.pos := by
  rw [Graph.rowsOf_eq_error_iff]
  refine exists_congr fun before => exists_congr fun c => exists_congr fun after =>
    and_congr_right fun hsplit => ?_
  have hc : c ∈ u.graph.connections := hsplit ▸ mem_append_right _ mem_cons_self
  have hbefore : ∀ b ∈ before, b ∈ u.graph.connections := fun b hb => hsplit ▸ mem_append_left _ hb
  rw [h.connectionRow_eq_error_iff hc]
  refine and_congr_left fun _ => forall₂_congr fun b hb => exists_congr fun row => ?_
  exact h.connectionRow_eq_ok_iff (hbefore b hb)

/-- Handing rows on does not change the session, and gives a fault a file. -/
theorem rows_run (u : FlowUnit) (result : Except Misplaced (List ConnectionRow)) (s : Session) :
    ∃ outcome, u.rows result s = (outcome, s) ∧ (∀ rows, outcome = .ok rows ↔ result = .ok rows) ∧
      ∀ d, outcome = .error d ↔ ∃ pos e, result = .error (pos, e) ∧ d = ⟨u.path, pos, e⟩ := by
  cases result with
  | ok rows => exact ⟨.ok rows, rfl, by simp, by simp⟩
  | error f =>
    refine ⟨.error ⟨u.path, f.1, f.2⟩, rfl, by simp, fun d => ?_⟩
    constructor
    · intro h
      cases h
      exact ⟨f.1, f.2, rfl, rfl⟩
    · rintro ⟨pos, e, h, rfl⟩
      cases h
      rfl

/-- What becomes of the connections of a unit. There are rows exactly if each connection joins elements of ports
whose data types go together. They are the rows of the connections, sorted by their sources, and those of one
source have the order of their connections. Otherwise the first connection that joins none is reported, where it
stands. -/
theorem connections_built_exactly (h : u.WellBound) (s : Session) :
    ∃ outcome, u.rows (u.graph.connectionRows u.types) s = (outcome, s) ∧
      ((∃ rows, outcome = .ok rows) ↔ ∀ c ∈ u.graph.connections, ∃ row, u.Joins c row) ∧
      (∀ rows, outcome = .ok rows → ∃ images, List.Forall₂ u.Joins u.graph.connections images ∧
        rows.Perm images ∧
        (rows.Pairwise fun a b => a.source < b.source ∨ (a.source = b.source ∧ a.sourceSlot ≤ b.sourceSlot)) ∧
        ∀ (node : Nat) (slot : Int), rows.filter (fun r => r.source = node ∧ r.sourceSlot = slot) =
          images.filter fun r => r.source = node ∧ r.sourceSlot = slot) ∧
      ∀ d, outcome = .error d ↔ ∃ before c after e, u.graph.connections = before ++ c :: after ∧
        (∀ b ∈ before, ∃ row, u.Joins b row) ∧ u.Refuses c e ∧ d = ⟨u.path, c.pos, e⟩ := by
  obtain ⟨outcome, hrun, hok, herror⟩ := u.rows_run (u.graph.connectionRows u.types) s
  refine ⟨outcome, hrun, ?_, fun rows hrows => ?_, fun d => ?_⟩
  · simp only [hok, Graph.exists_connectionRows_iff, Graph.exists_rowsOf_iff]
    exact forall₂_congr fun c hc => exists_congr fun row => h.connectionRow_eq_ok_iff hc
  · obtain ⟨images, himages, rfl⟩ := Graph.connectionRows_eq_ok ((hok rows).mp hrows)
    refine ⟨images, h.rowsOf_eq_ok_iff.mp himages, mergeSort_perm images _,
      ConnectionRow.pairwise_mergeSort images, fun node slot => ?_⟩
    refine filter_mergeSort ConnectionRow.notAfter_trans ConnectionRow.notAfter_total (fun a b ha hb => ?_) images
    rw [decide_eq_true_eq] at ha hb
    rw [ConnectionRow.notAfter_iff]
    omega
  · simp only [herror, Graph.connectionRows_eq_error_iff, h.rowsOf_eq_error_iff]
    constructor
    · rintro ⟨pos, e, ⟨before, c, after, hsplit, hbefore, hc, rfl⟩, rfl⟩
      exact ⟨before, c, after, e, hsplit, hbefore, hc, rfl⟩
    · rintro ⟨before, c, after, e, hsplit, hbefore, hc, rfl⟩
      exact ⟨c.pos, e, ⟨before, c, after, hsplit, hbefore, hc, rfl⟩, rfl⟩

/-- A unit of a node with an array of outputs and a node with two inputs, one of which takes anything. -/
def crossedUnit (connections : List Graph.Connection) : FlowUnit where
  id := 0
  name := "main"
  path := "main.fbp"
  graph := { nodes := [⟨"a", "fan", [], ⟨1, 1⟩⟩, ⟨"b", "sink", [], ⟨1, 9⟩⟩], connections }
  parent := none
  stem := "Main0"
  bindings := [
    ⟨{ name := "fan", symbol := "lib.Fan", outputs := [⟨"OUT", "int", 2, 0⟩] }, .external, []⟩,
    ⟨{ name := "sink", symbol := "lib.Sink", inputs := [⟨"IN", "int", 0, 0⟩, ⟨"LOG", "any", 0, 1⟩] }, .external, []⟩]

/-- Connections from the elements of the array, one of them twice, and from the output for errors. -/
def crossedConnections : List Graph.Connection := [
  ⟨0, ⟨"ERROR", none⟩, 1, ⟨"LOG", none⟩, ⟨2, 3⟩⟩, ⟨0, ⟨"OUT", some 1⟩, 1, ⟨"LOG", some 0⟩, ⟨3, 3⟩⟩,
  ⟨0, ⟨"OUT", some 0⟩, 1, ⟨"IN", none⟩, ⟨4, 3⟩⟩, ⟨0, ⟨"OUT", some 1⟩, 1, ⟨"IN", none⟩, ⟨5, 3⟩⟩]

/-- Two more connections, from an element and from an output that are not there. -/
def strayConnections : List Graph.Connection := crossedConnections ++ [
  ⟨0, ⟨"OUT", some 2⟩, 1, ⟨"IN", none⟩, ⟨6, 3⟩⟩, ⟨0, ⟨"DONE", none⟩, 1, ⟨"IN", none⟩, ⟨7, 3⟩⟩]

theorem joins_crossedConnections (connections : List Graph.Connection) :
    List.Forall₂ (crossedUnit connections).Joins crossedConnections
      [⟨0, 65534, 1, 1⟩, ⟨0, 1, 1, 1⟩, ⟨0, 0, 1, 0⟩, ⟨0, 1, 1, 0⟩] := by
  have h : (crossedUnit crossedConnections).WellBound := ⟨rfl, by decide⟩
  exact h.rowsOf_eq_ok_iff.mp (by decide +kernel)

/-- Where all are accepted, connections from one element keep their order. Of two that are not, the first one is
reported. -/
theorem connections_built_exactly_crossed :
    (∃ u rows, u = crossedUnit crossedConnections ∧
      u.rows (u.graph.connectionRows u.types) {} = (.ok rows, {}) ∧
      rows.filter (fun r => r.source = 0 ∧ r.sourceSlot = 1) = [⟨0, 1, 1, 1⟩, ⟨0, 1, 1, 0⟩]) ∧
    ∃ u, u = crossedUnit strayConnections ∧ u.rows (u.graph.connectionRows u.types) {} =
      (.error ⟨"main.fbp", ⟨6, 3⟩, .badIndex "OUT" "fan" 2 2⟩, {}) := by
  have haccepted (connections : List Graph.Connection) :
      ∀ c ∈ crossedConnections, ∃ row, (crossedUnit connections).Joins c row := fun c hc =>
    mem_right_of_forall₂ (joins_crossedConnections connections).flip hc
  constructor
  · have h : (crossedUnit crossedConnections).WellBound := ⟨rfl, by decide⟩
    obtain ⟨outcome, hrun, hiff, hrows, -⟩ := connections_built_exactly h {}
    obtain ⟨rows, rfl⟩ := hiff.mpr (haccepted _)
    obtain ⟨images, himages, -, -, hstable⟩ := hrows rows rfl
    obtain rfl := Except.ok.inj ((h.rowsOf_eq_ok_iff.mpr (joins_crossedConnections _)).symm.trans
      (h.rowsOf_eq_ok_iff.mpr himages))
    exact ⟨_, rows, rfl, hrun, (hstable 0 1).trans (by decide)⟩
  · have h : (crossedUnit strayConnections).WellBound := ⟨rfl, by decide⟩
    obtain ⟨outcome, hrun, -, -, herror⟩ := connections_built_exactly h {}
    have hrefuses : (crossedUnit strayConnections).Refuses ⟨0, ⟨"OUT", some 2⟩, 1, ⟨"IN", none⟩, ⟨6, 3⟩⟩
        (.badIndex "OUT" "fan" 2 2) :=
      ⟨_, _, rfl, rfl, .first (.element (Descriptor.port?_eq_some_iff.mp rfl) (.item (by decide) (by decide)))⟩
    refine ⟨_, rfl, ?_⟩
    rw [hrun, (herror _).mpr ⟨crossedConnections, _, _, _, rfl, haccepted _, hrefuses, rfl⟩]
    rfl

end FlowUnit

end FlowCompiler
