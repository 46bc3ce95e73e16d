import FlowCompiler.Proofs.Catalog.Composed
import FlowCompiler.Proofs.Slots.References

/-!
# Rows of connections

Each connection of a flow gives a row with the slots of its ends. A connection that is written twice is refused,
but the same ends can be written in two ways: a port without a size is referred to without an index or with index
zero. So the rows of a unit need not be distinct.

Main statement: `Session.Compiles.connections_nodup_iff`. The rows are distinct exactly if no two connections
stand for the same slots. Where the slots of the types identify elements (`Descriptor.Apart`), that is exactly if
no two connections join the same elements. The ports of loaded documents, of flows and of composed declarations
are told apart by their names (`FlowUnit.Binds.listed`), so that there slots identify elements exactly if no two
ports overlap.
-/

namespace FlowCompiler

open List Number

/-! ## Rows -/

namespace Graph

variable {g : Graph} {ds : List Descriptor} {a b c : Connection} {cs : List Connection} {row : ConnectionRow}
  {rows : List ConnectionRow}

/-- Whether two connections join the same elements of the same ports. -/
def Connection.SameElements (a b : Connection) : Prop :=
  a.source = b.source ∧ a.sourcePort.SameElement b.sourcePort ∧
    a.target = b.target ∧ a.targetPort.SameElement b.targetPort

instance : DecidableRel Connection.SameElements := fun a b =>
  inferInstanceAs (Decidable (a.source = b.source ∧ a.sourcePort.SameElement b.sourcePort ∧
    a.target = b.target ∧ a.targetPort.SameElement b.targetPort))

/-- Whether two connections join the same slots of the same nodes. -/
def SameSlots (ds : List Descriptor) (a b : Connection) : Prop :=
  a.source = b.source ∧
    (typeAt ds a.source).slot? .output a.sourcePort = (typeAt ds b.source).slot? .output b.sourcePort ∧
    a.target = b.target ∧
    (typeAt ds a.target).slot? .input a.targetPort = (typeAt ds b.target).slot? .input b.targetPort

instance : DecidableRel (SameSlots ds) := fun a b =>
  inferInstanceAs (Decidable (a.source = b.source ∧
    (typeAt ds a.source).slot? .output a.sourcePort = (typeAt ds b.source).slot? .output b.sourcePort ∧
    a.target = b.target ∧
    (typeAt ds a.target).slot? .input a.targetPort = (typeAt ds b.target).slot? .input b.targetPort))

theorem typeAt_mem {i : Nat} (h : i < ds.length) : typeAt ds i ∈ ds := by
  rw [typeAt, getD_eq_getElem?_getD, getElem?_eq_getElem h]
  exact getElem_mem h

/-- A row holds the slots that the references of its connection stand for. -/
theorem connectionRow_slots (h : g.connectionRow ds c = .ok row) :
    row.source = c.source ∧ (typeAt ds c.source).slot? .output c.sourcePort = some row.sourceSlot ∧
      row.target = c.target ∧ (typeAt ds c.target).slot? .input c.targetPort = some row.targetSlot := by
  obtain ⟨hfirst, hsecond, -⟩ := connectionRow_eq_ok_iff.mp h
  exact ⟨rfl, Descriptor.slot?_eq_some_iff.mpr ⟨_, Descriptor.end_iff.mp hfirst⟩, rfl,
    Descriptor.slot?_eq_some_iff.mpr ⟨_, Descriptor.end_iff.mp hsecond⟩⟩

theorem row_eq_iff {ra rb : ConnectionRow} (ha : g.connectionRow ds a = .ok ra)
    (hb : g.connectionRow ds b = .ok rb) : ra = rb ↔ SameSlots ds a b := by
  obtain ⟨hsource, hsourceSlot, htarget, htargetSlot⟩ := connectionRow_slots ha
  obtain ⟨hsource', hsourceSlot', htarget', htargetSlot'⟩ := connectionRow_slots hb
  rw [SameSlots, hsourceSlot, hsourceSlot', htargetSlot, htargetSlot', ← hsource, ← hsource', ← htarget,
    ← htarget', Option.some_inj, Option.some_inj]
  cases ra
  cases rb
  rw [ConnectionRow.mk.injEq]

/-- Where slots identify elements, connections that were accepted join the same slots exactly if they join the
same elements. -/
theorem sameSlots_iff {ra rb : ConnectionRow} (ha : g.connectionRow ds a = .ok ra)
    (hb : g.connectionRow ds b = .ok rb) (hsource : (typeAt ds a.source).Apart .output)
    (htarget : (typeAt ds a.target).Apart .input) : SameSlots ds a b ↔ a.SameElements b := by
  obtain ⟨-, has, -, hat⟩ := connectionRow_slots ha
  obtain ⟨-, hbs, -, hbt⟩ := connectionRow_slots hb
  refine and_congr_right fun hs => and_congr ?_ (and_congr_right fun ht => ?_)
  · rw [← hs] at hbs ⊢
    exact hsource.slot?_eq_iff has hbs
  · rw [← ht] at hbt ⊢
    exact htarget.slot?_eq_iff hat hbt

theorem connectionRows_eq_ok (h : g.connectionRows ds = .ok rows) :
    ∃ unsorted, g.rowsOf ds g.connections = .ok unsorted ∧ rows = unsorted.mergeSort ConnectionRow.notAfter := by
  unfold connectionRows at h
  split at h
  · cases h
  · next unsorted hrows =>
    cases h
    exact ⟨unsorted, hrows, rfl⟩

theorem rowsOf_nodup_iff (h : g.rowsOf ds cs = .ok rows) :
    rows.Nodup ↔ cs.Pairwise fun a b => ¬ SameSlots ds a b := by
  have hrows := rowsOf_eq_ok h
  have hlen := hrows.length_eq
  have heq : ∀ (i j : Nat) (hi : i < cs.length) (hj : j < cs.length),
      rows[i] = rows[j] ↔ SameSlots ds cs[i] cs[j] := fun i j hi hj =>
    row_eq_iff (hrows.get hi (by omega)) (hrows.get hj (by omega))
  rw [List.Nodup, pairwise_iff_getElem, pairwise_iff_getElem]
  constructor
  · intro hnodup i j hi hj hij
    rw [← heq i j hi hj]
    exact hnodup i j (by omega) (by omega) hij
  · intro hpairwise i j hi hj hij
    rw [ne_eq, heq i j (by omega) (by omega)]
    exact hpairwise i j (by omega) (by omega) hij

end Graph

namespace FlowUnit

variable {cfg : Config} {units : List FlowUnit} {u : FlowUnit}

theorem Computed.exists_row (h : u.Computed) {c : Graph.Connection} (hc : c ∈ u.graph.connections) :
    ∃ row, u.graph.connectionRow u.types c = .ok row := by
  obtain ⟨unsorted, hrows, -⟩ := Graph.connectionRows_eq_ok h.connections
  exact mem_right_of_forall₂ (Graph.rowsOf_eq_ok hrows).flip hc

theorem Computed.nodup_iff (h : u.Computed) :
    u.connections.Nodup ↔ u.graph.connections.Pairwise fun a b => ¬ Graph.SameSlots u.types a b := by
  obtain ⟨unsorted, hrows, hsorted⟩ := Graph.connectionRows_eq_ok h.connections
  rw [hsorted, (mergeSort_perm unsorted _).nodup_iff, Graph.rowsOf_nodup_iff hrows]

theorem Compiled.typeAt_mem (h : u.Compiled cfg units) {i : Nat} (hi : i < u.graph.nodes.length) :
    Graph.typeAt u.types i ∈ u.types :=
  Graph.typeAt_mem (by rwa [types, length_map, ← h.bindings.length_eq])

/-- Where slots identify elements, rows are distinct exactly if no two connections join the same elements. -/
theorem Compiled.nodup_iff_of_apart (h : u.Compiled cfg units)
    (hapart : ∀ t ∈ u.types, t.Apart .input ∧ t.Apart .output) :
    u.connections.Nodup ↔ u.graph.connections.Pairwise fun a b => ¬ a.SameElements b := by
  obtain ⟨text, hparse⟩ := h.parsed
  rw [h.nodup_iff]
  refine List.Pairwise.iff_of_mem fun {a b} ha hb => not_congr ?_
  obtain ⟨hsource, htarget⟩ := (Graph.consistent_of_parse hparse).connectionNodes a ha
  obtain ⟨ra, hra⟩ := h.exists_row ha
  obtain ⟨rb, hrb⟩ := h.exists_row hb
  exact Graph.sameSlots_iff hra hrb (hapart _ (h.typeAt_mem hsource)).2 (hapart _ (h.typeAt_mem htarget)).1

/-! ## Types of nodes -/

/-- The ports of a flow are told apart by their names, if its slots can be counted in words. -/
theorem Compiled.listed (h : u.Compiled cfg units) {d : Descriptor} (hd : u.type = some d) {dir : Direction}
    (hslots : Port.slotsBefore (d.ports dir) (d.ports dir).length < wordBound) : Port.Listed (d.ports dir) := by
  obtain ⟨text, hparse⟩ := h.parsed
  constructor
  · have hnames : (d.ports dir).map (·.name) = (u.graph.exports dir).map (·.name) := by
      refine ext_getElem (by simp [h.length_ports hd]) fun j hj hj' => ?_
      rw [length_map] at hj hj'
      obtain ⟨q, -, hexports⟩ := h.exports hd (getElem?_eq_getElem hj') (getElem?_eq_getElem hj)
      rw [getElem_map, getElem_map, hexports.name]
    rw [hnames]
    exact ((Graph.consistent_of_parse hparse).exports dir).names
  · intro p hp
    obtain ⟨j, hj⟩ := getElem?_of_mem hp
    have hbase := h.base_eq hd (h.length_exportedSlots hd dir ▸ hslots) hj
    have hpos := p.width_pos
    have hle := Port.slotsBefore_add_width_le hj
    exact ⟨by omega, by omega, by omega⟩

theorem Binds.listed {b : Binding} (h : u.Binds cfg units b) (hdone : Done cfg 0 units)
    (hcommon : ∀ t ∈ cfg.common.types, t.PortsChecked) (hregistry : cfg.registry = Registry.builtin)
    (hslots : ∀ dir, Port.slotsBefore (b.type.ports dir) (b.type.ports dir).length < wordBound)
    (dir : Direction) : Port.Listed (b.type.ports dir) := by
  cases h with
  | external role found =>
    have hchecked := hcommon _ (mem_of_find?_eq_some found)
    cases dir with
    | input => exact hchecked.inputs.toListed
    | output => exact hchecked.outputs.toListed
  | subflow role written undeclared found stored later type =>
    exact (hdone.compiled (mem_of_getElem? stored)).listed type (hslots dir)
  | metatype role written found known ports options =>
    have hlen : ∀ dir, (b.type.ports dir).length < wordBound := fun dir =>
      Nat.lt_of_le_of_lt (Port.length_le_slotsBefore _) (hslots dir)
    obtain ⟨hin, hout⟩ := Registry.builtin_listed (hregistry ▸ known) ports (hlen .input) (hlen .output)
    cases dir with
    | input => exact hin
    | output => exact hout

end FlowUnit

/-! ## Compiled flows -/

namespace Session

/-- In a compiled unit no row of a connection occurs twice exactly if no two connections stand for the same
slots. They are never written in the same way. If the slots of the types of all nodes identify elements, rows are
distinct exactly if no two connections join the same elements. With a catalog from documents and types whose slots
can be counted in words, slots identify elements exactly if no two ports overlap, the output for errors
included. -/
theorem Compiles.connections_nodup_iff {cfg : Config} {s : Session} {root : FlowUnit} (h : s.Compiles cfg root) :
    ∀ u ∈ s.units,
      (u.connections.Nodup ↔ u.graph.connections.Pairwise fun a b => ¬ Graph.SameSlots u.types a b) ∧
      (u.graph.connections.Pairwise fun a b => a.sameEnds b = false) ∧
      ((∀ t ∈ u.types, t.Apart .input ∧ t.Apart .output) →
        (u.connections.Nodup ↔ u.graph.connections.Pairwise fun a b => ¬ a.SameElements b)) ∧
      ∀ documents, cfg.common = Catalog.ofDocuments documents → cfg.registry = Registry.builtin →
        ∀ t ∈ u.types, (∀ dir, Port.slotsBefore (t.ports dir) (t.ports dir).length < wordBound) →
          ∀ dir, t.Apart dir ↔ (t.offered dir).Pairwise Port.Disjoint := by
  intro u hu
  have hdone := h.done.2
  have hc := hdone.compiled hu
  obtain ⟨text, hparse⟩ := hc.parsed
  refine ⟨hc.nodup_iff, (Graph.consistent_of_parse hparse).connectionEnds, hc.nodup_iff_of_apart, ?_⟩
  intro documents hcommon hregistry t ht hslots dir
  obtain ⟨b, hb, rfl⟩ := mem_map.mp ht
  have hchecked : ∀ t ∈ cfg.common.types, t.PortsChecked :=
    hcommon ▸ Catalog.ofDocuments_forall_ofNode (fun _ _ _ => Descriptor.ofNode_portsChecked) documents
  have hlisted := (hc.binds b hb).listed hdone hchecked hregistry hslots dir
  exact Descriptor.apart_iff (Descriptor.listed_offered hlisted)

/-- Types with an array of outputs and with an input. -/
def wiredDocument : String × String :=
  ("types:\n- name: fan\n  symbol: lib.Fan\n  out_ports: [{name: OUT, array_size: 2}]\n- name: sink\n  symbol: lib.Sink\n  in_ports: [{name: IN}]\n",
    "c.yaml")

/-- A flow in a file that refers to the same input without an index and with index zero. -/
def wiredConfig : Config where
  storage := ⟨["w"], [(["w"], .directory), (["w", "twice.fbp"], .file
    "a(fan) OUT[0] -> IN b(sink)\na OUT[0] -> IN[0] b" 0)]⟩
  common := Catalog.ofDocuments [wiredDocument]

/-- The session of a flow with a connection from each element of the array, and of that flow. -/
def wiredSession : Session × Except CompileError FlowUnit :=
  compileText {} wiredConfig "main.fbp"
    "DECLARE=Twice:fbp:twice.fbp\na(fan) OUT[0] -> IN b(sink)\na OUT[1] -> IN b\nt(Twice)"

theorem wiredSession_facts : wiredSession.2.toOption.isSome = true ∧
    wiredSession.1.units.map (fun u => u.graph.rowsOf u.types u.graph.connections) =
      [.ok [⟨0, 0, 1, 0⟩, ⟨0, 1, 1, 0⟩], .ok [⟨0, 0, 1, 0⟩, ⟨0, 0, 1, 0⟩]] ∧
    ∀ u ∈ wiredSession.1.units, ∀ t ∈ u.types,
      (Port.slotsBefore t.inputs t.inputs.length < wordBound ∧ (t.offered .input).Pairwise Port.Disjoint) ∧
      Port.slotsBefore t.outputs t.outputs.length < wordBound ∧ (t.offered .output).Pairwise Port.Disjoint := by
  decide +kernel

/-- Two connections that end in one slot. -/
theorem Compiles.connections_nodup_iff_fan :
    ∃ u ∈ wiredSession.1.units, u.graph.connections.length = 2 ∧
      (∀ t ∈ u.types, t.Apart .input ∧ t.Apart .output) ∧ u.connections.Nodup := by
  obtain ⟨hok, hrows, htypes⟩ := wiredSession_facts
  obtain ⟨root, h⟩ : ∃ root, wiredSession.1.Compiles wiredConfig root := exists_compiles rfl hok
  obtain ⟨⟨more, hunits⟩, -⟩ := h.done
  have hmem := h.root_mem
  obtain ⟨hnodup, -, -, hapart⟩ := h.connections_nodup_iff root hmem
  have hroot : root.graph.rowsOf root.types root.graph.connections = .ok [⟨0, 0, 1, 0⟩, ⟨0, 1, 1, 0⟩] := by
    rw [hunits, map_cons] at hrows
    exact (List.cons.inj hrows).1
  refine ⟨root, hmem, (Graph.rowsOf_eq_ok hroot).length_eq, fun t ht => ?_, ?_⟩
  · obtain ⟨⟨hin, hinputs⟩, hout, houtputs⟩ := htypes root hmem t ht
    have hslots : ∀ dir, Port.slotsBefore (t.ports dir) (t.ports dir).length < wordBound
      | .input => hin
      | .output => hout
    have hapart := hapart [wiredDocument] (by rw [wiredConfig]) rfl t ht hslots
    exact ⟨(hapart .input).mpr hinputs, (hapart .output).mpr houtputs⟩
  · rw [hnodup, ← Graph.rowsOf_nodup_iff hroot]
    decide

/-- Connections that are written in two ways have the same row. -/
theorem connections_not_nodup :
    ∃ root, wiredSession.1.Compiles wiredConfig root ∧ ∃ u ∈ wiredSession.1.units,
      u.connections = [⟨0, 0, 1, 0⟩, ⟨0, 0, 1, 0⟩] := by
  obtain ⟨hok, hrows, -⟩ := wiredSession_facts
  obtain ⟨root, h⟩ : ∃ root, wiredSession.1.Compiles wiredConfig root := exists_compiles rfl hok
  obtain ⟨u, hu, hrow⟩ : ∃ u ∈ wiredSession.1.units,
      u.graph.rowsOf u.types u.graph.connections = .ok [⟨0, 0, 1, 0⟩, ⟨0, 0, 1, 0⟩] :=
    mem_map.mp (hrows ▸ mem_cons_of_mem _ (mem_singleton_self _))
  obtain ⟨unsorted, hunsorted, hsorted⟩ := Graph.connectionRows_eq_ok (h.done.2.compiled hu).connections
  obtain rfl := Except.ok.inj (hunsorted.symm.trans hrow)
  exact ⟨root, h, u, hu, hsorted.trans (mergeSort_of_pairwise (by decide))⟩

end Session

end FlowCompiler
