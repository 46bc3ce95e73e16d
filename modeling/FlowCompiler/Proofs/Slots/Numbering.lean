import FlowCompiler.Proofs.Compile.Units
import FlowCompiler.Proofs.Slots.Ends

/-!
# Numbers of exported slots

A flow exports ports of its nodes, whole ones or elements of arrays. Two computations number their slots:
`Graph.exportRows` lists the slots of the nodes one after the other, and `Graph.exportedPorts` gives each exported
port a first slot and a size. `Graph.ExportedPort.Exports` says what they agree on for one exported port. One
exported port takes as many rows as its port has slots (`exportRow_slots`), so that in a run over all of them the
first slot of each is the number of slots before it (`exportRowsOf_slots`).

Main statement: `Session.Compiles.exported_slots_numbered`. The ports of the type of a compiled flow divide the
numbers of its rows among themselves, in order and without a gap.
-/

namespace FlowCompiler

open List Number

/-- The slots of nodes that a unit exports in a direction. -/
def FlowUnit.exportedSlots (u : FlowUnit) : Direction → List SlotRow
  | .input => u.inputs
  | .output => u.outputs

/-! ## Slots in order -/

namespace Port

/-- The number of slots of the ports before place `j`. -/
def slotsBefore (ports : List Port) (j : Nat) : Nat := ((ports.take j).map (·.width.toNat)).sum

variable {ports : List Port} {p : Port}

@[simp]
theorem slotsBefore_zero (ports : List Port) : slotsBefore ports 0 = 0 := by
  simp [slotsBefore]

@[simp]
theorem slotsBefore_cons_succ (p : Port) (ports : List Port) (j : Nat) :
    slotsBefore (p :: ports) (j + 1) = p.width.toNat + slotsBefore ports j := by
  simp [slotsBefore]

theorem slotsBefore_succ {j : Nat} (h : ports[j]? = some p) :
    slotsBefore ports (j + 1) = slotsBefore ports j + p.width.toNat := by
  simp [slotsBefore, take_add_one, h]

theorem slotsBefore_le_succ (ports : List Port) (j : Nat) :
    slotsBefore ports j ≤ slotsBefore ports (j + 1) := by
  cases h : ports[j]? with
  | none => simp [slotsBefore, take_add_one, h]
  | some p => exact slotsBefore_succ h ▸ Nat.le_add_right ..

theorem slotsBefore_mono (ports : List Port) : Monotone (slotsBefore ports) :=
  monotone_nat_of_le_succ (slotsBefore_le_succ ports)

/-- The last slot of a port is one of the slots of all ports. -/
theorem slotsBefore_add_width_le {j : Nat} (h : ports[j]? = some p) :
    slotsBefore ports j + p.width.toNat ≤ slotsBefore ports ports.length :=
  slotsBefore_succ h ▸ slotsBefore_mono ports (List.getElem?_eq_some_iff.mp h).1

theorem length_le_slotsBefore (ports : List Port) : ports.length ≤ slotsBefore ports ports.length := by
  induction ports with
  | nil => exact Nat.zero_le _
  | cons p ports ih =>
    have hpos := p.width_pos
    rw [length_cons, slotsBefore_cons_succ]
    omega

/-- A number that is less than that of all slots belongs to a port. -/
theorem exists_slotsBefore_le {m n : Nat} (h : n < slotsBefore ports m) :
    ∃ j < m, slotsBefore ports j ≤ n ∧ n < slotsBefore ports (j + 1) := by
  induction m with
  | zero => simp at h
  | succ m ih =>
    by_cases hm : n < slotsBefore ports m
    · obtain ⟨j, hj, hslots⟩ := ih hm
      exact ⟨j, by omega, hslots⟩
    · exact ⟨m, by omega, by omega, h⟩

/-- Ports that begin one after the other divide the slots among themselves. -/
theorem existsUnique_slot (hbase : ∀ (j : Nat) (p : Port), ports[j]? = some p → p.base = slotsBefore ports j)
    (k : Int) :
    0 ≤ k ∧ k < slotsBefore ports ports.length ↔
      ∃! j : Nat, ∃ p : Port, ports[j]? = some p ∧ p.base ≤ k ∧ k < p.base + p.width := by
  have hinside : ∀ (j : Nat) (p : Port), ports[j]? = some p →
      (p.base ≤ k ∧ k < p.base + p.width ↔ (slotsBefore ports j : Int) ≤ k ∧ k < slotsBefore ports (j + 1)) := by
    intro j p hp
    have hpos := p.width_pos
    rw [hbase j p hp, slotsBefore_succ hp]
    omega
  constructor
  · rintro ⟨hk, hlt⟩
    lift k to Nat using hk
    obtain ⟨j, hj, hle, hlt⟩ := exists_slotsBefore_le (Nat.cast_lt.mp hlt)
    have hp : ports[j]? = some ports[j] := getElem?_eq_getElem hj
    refine ⟨j, ⟨_, hp, (hinside j _ hp).mpr ⟨Nat.cast_le.mpr hle, Nat.cast_lt.mpr hlt⟩⟩, ?_⟩
    rintro i ⟨q, hq, hslot⟩
    have hslot := (hinside i q hq).mp hslot
    -- A later port begins at the end of an earlier one or after it.
    rcases Nat.lt_trichotomy i j with hij | rfl | hij
    · have hle : slotsBefore ports (i + 1) ≤ slotsBefore ports j := slotsBefore_mono ports hij
      omega
    · rfl
    · have hle : slotsBefore ports (j + 1) ≤ slotsBefore ports i := slotsBefore_mono ports hij
      omega
  · rintro ⟨j, ⟨p, hp, hle, hlt⟩, -⟩
    have hlast := slotsBefore_add_width_le hp
    rw [hbase j p hp] at hle hlt
    omega

end Port

/-! ## Exported ports -/

/-- The port of a flow for an exported port, from slot `base` on. -/
def exportedPort (ds : List Descriptor) (dir : Direction) (base : Int) (e : Graph.ExportedPort) : Port :=
  let inner := ((Graph.typeAt ds e.node).port? dir e.port.name).getD { name := "", dataType := "" }
  { name := e.name, dataType := inner.dataType
    size := if e.port.index.isNone then inner.size else 0
    base := base }

/-- What is exported as the port `p` of a flow: the port `q` of a node or, if there is an index, an element of
it. The rows from `first` on are the slots that `p` stands for. -/
structure Graph.ExportedPort.Exports (e : Graph.ExportedPort) (q p : Port) (rows : List SlotRow) (first : Nat) :
    Prop where
  name : p.name = e.name
  dataType : p.dataType = q.dataType
  size : p.size = if e.port.index.isNone then q.size else 0
  base : p.base = wrap first
  within : ∀ i : Nat, i < p.width → ((e.port.index.getD i : Nat) : Int) < q.width
  rows : ∀ i : Nat, i < p.width → rows[first + i]? = some ⟨e.node, wrap (q.base + e.port.index.getD i)⟩

section Rows

variable {g : Graph} {ds : List Descriptor} {dir : Direction} {e : Graph.ExportedPort}
  {es : List Graph.ExportedPort} {rows : List SlotRow}

theorem portsFrom_cons (dir : Direction) (base : Int) (e : Graph.ExportedPort)
    (es : List Graph.ExportedPort) :
    Graph.portsFrom ds dir base (e :: es) =
      exportedPort ds dir base e ::
        Graph.portsFrom ds dir (wrap (base + (exportedPort ds dir base e).width)) es := rfl

/-- The rows of an exported port are slots of a port of the node's type: all of them for a port that is
exported as a whole, one for an element. -/
theorem exportRow_eq_ok (h : g.exportRow ds dir e = .ok rows) :
    ∃ p, (Graph.typeAt ds e.node).port? dir e.port.name = some p ∧
      (e.port.index = none ∧
          rows = (List.range p.width.toNat).map (fun (k : Nat) => ⟨e.node, wrap (p.base + k)⟩) ∨
        ∃ i : Nat, e.port.index = some i ∧ i < p.width ∧ rows = [⟨e.node, wrap (p.base + i)⟩]) := by
  unfold Graph.exportRow at h
  split at h
  · cases h
  · next p hp =>
    refine ⟨p, hp, ?_⟩
    split at h
    · next hindex =>
      cases h
      exact .inl ⟨hindex, rfl⟩
    · next i hindex =>
      split at h
      · cases h
      · next hlt =>
        cases h
        exact .inr ⟨i, hindex, Int.not_le.mp hlt, rfl⟩

/-- An exported port takes as many rows as its port has slots. -/
theorem exportRow_slots (h : g.exportRow ds dir e = .ok rows) (base : Int) :
    ∃ q, (Graph.typeAt ds e.node).port? dir e.port.name = some q ∧
      exportedPort ds dir base e =
        ⟨e.name, q.dataType, if e.port.index.isNone then q.size else 0, base⟩ ∧
      rows.length = (exportedPort ds dir base e).width.toNat ∧
      ∀ i < rows.length, ((e.port.index.getD i : Nat) : Int) < q.width ∧
        rows[i]? = some ⟨e.node, wrap (q.base + e.port.index.getD i)⟩ := by
  obtain ⟨q, hq, hrows⟩ := exportRow_eq_ok h
  have hport : exportedPort ds dir base e =
      ⟨e.name, q.dataType, if e.port.index.isNone then q.size else 0, base⟩ := by
    simp [exportedPort, hq]
  refine ⟨q, hq, hport, ?_⟩
  rw [hport]
  obtain ⟨hindex, rfl⟩ | ⟨i, hindex, hi, rfl⟩ := hrows
  · refine ⟨by simp [hindex, Port.width], fun i hi => ?_⟩
    have hlt : i < q.width.toNat := by simpa using hi
    rw [hindex, Option.getD_none, getElem?_map, getElem?_range hlt]
    exact ⟨Int.lt_toNat.mp hlt, rfl⟩
  · refine ⟨by simp [hindex, Port.width], fun k hk => ?_⟩
    obtain rfl : k = 0 := by simpa using hk
    rw [hindex, Option.getD_some]
    exact ⟨hi, rfl⟩

theorem exportRowsOf_cons_eq_ok (h : g.exportRowsOf ds dir (e :: es) = .ok rows) :
    ∃ first more, g.exportRow ds dir e = .ok first ∧ g.exportRowsOf ds dir es = .ok more ∧
      rows = first ++ more := by
  unfold Graph.exportRowsOf at h
  split at h
  · cases h
  · next first hfirst =>
    split at h
    · cases h
    · next more hmore =>
      cases h
      exact ⟨first, more, hfirst, hmore, rfl⟩

theorem length_portsFrom (base : Int) : (Graph.portsFrom ds dir base es).length = es.length := by
  induction es generalizing base with
  | nil => rfl
  | cons e es ih => rw [portsFrom_cons, length_cons, ih, length_cons]

/-- After `before` rows, the ports of a flow begin where the rows do. -/
theorem exportRowsOf_slots (h : g.exportRowsOf ds dir es = .ok rows) {base : Int} {before : List SlotRow}
    (hbase : base = wrap before.length) :
    rows.length = Port.slotsBefore (Graph.portsFrom ds dir base es) es.length ∧
      ∀ (j : Nat) (e : Graph.ExportedPort) (p : Port), es[j]? = some e →
        (Graph.portsFrom ds dir base es)[j]? = some p →
        ∃ q, (Graph.typeAt ds e.node).port? dir e.port.name = some q ∧
          e.Exports q p (before ++ rows) (before.length + Port.slotsBefore (Graph.portsFrom ds dir base es) j) := by
  induction es generalizing rows base before with
  | nil =>
    cases h
    exact ⟨rfl, fun j e p he => by simp at he⟩
  | cons e es ih =>
    obtain ⟨first, more, hfirst, hmore, rfl⟩ := exportRowsOf_cons_eq_ok h
    obtain ⟨q, hq, hport, hlen, hslots⟩ := exportRow_slots hfirst base
    have hpos := (exportedPort ds dir base e).width_pos
    have hnext : wrap (base + (exportedPort ds dir base e).width) = wrap (before ++ first).length := by
      rw [length_append, Nat.cast_add, hlen, Int.toNat_of_nonneg hpos.le, ← wrap_wrap_add before.length,
        ← hbase]
    obtain ⟨hmorelen, hmoreslots⟩ := ih hmore hnext
    rw [portsFrom_cons]
    refine ⟨by rw [length_append, length_cons, Port.slotsBefore_cons_succ, hlen, hmorelen], ?_⟩
    intro j e' p he hp
    cases j with
    | zero =>
      -- the slots of the first port are the first rows after those before
      obtain rfl : e = e' := by simpa using he
      obtain rfl : exportedPort ds dir base e = p := by simpa using hp
      refine ⟨q, hq, by rw [hport], by rw [hport], by rw [hport], ?_, fun i hi => ?_, fun i hi => ?_⟩
      · rw [hport, hbase, Port.slotsBefore_zero, Nat.add_zero]
      · exact (hslots i (by omega)).1
      · have hi : i < first.length := by omega
        rw [Port.slotsBefore_zero, Nat.add_zero, getElem?_append_right (by omega), Nat.add_sub_cancel_left,
          getElem?_append_left hi]
        exact (hslots i hi).2
    | succ j =>
      -- for the other ports, the rows of the first one count as rows before
      obtain ⟨q, hq, hexports⟩ := hmoreslots j e' p (by simpa using he) (by simpa using hp)
      refine ⟨q, hq, ?_⟩
      rw [Port.slotsBefore_cons_succ, ← hlen, ← Nat.add_assoc, ← length_append, ← append_assoc]
      exact hexports

@[simp]
theorem length_exportedPorts : (g.exportedPorts ds dir).length = (g.exports dir).length := by
  rw [Graph.exportedPorts, length_portsFrom]

/-- The ports of a flow begin where the rows do. -/
theorem exportRows_slots (h : g.exportRows ds dir = .ok rows) :
    rows.length = Port.slotsBefore (g.exportedPorts ds dir) (g.exports dir).length ∧
      ∀ (j : Nat) (e : Graph.ExportedPort) (p : Port), (g.exports dir)[j]? = some e →
        (g.exportedPorts ds dir)[j]? = some p →
        ∃ q, (Graph.typeAt ds e.node).port? dir e.port.name = some q ∧
          e.Exports q p rows (Port.slotsBefore (g.exportedPorts ds dir) j) := by
  have hfirst : (0 : Int) = wrap ([] : List SlotRow).length := rfl
  have hslots := exportRowsOf_slots h hfirst
  simpa only [Graph.exportedPorts, nil_append, length_nil, Nat.zero_add] using hslots

/-- If the number of rows is a word, a port begins where the slots before it end. -/
theorem exportRows_base (h : g.exportRows ds dir = .ok rows) (hlen : rows.length < wordBound) {j : Nat} {p : Port}
    (hp : (g.exportedPorts ds dir)[j]? = some p) : p.base = Port.slotsBefore (g.exportedPorts ds dir) j := by
  obtain ⟨hcount, hslots⟩ := exportRows_slots h
  have hj : j < (g.exportedPorts ds dir).length := (List.getElem?_eq_some_iff.mp hp).1
  have hle := Port.slotsBefore_add_width_le hp
  rw [length_exportedPorts] at hj hle
  obtain ⟨q, -, hexports⟩ := hslots j _ p (getElem?_eq_getElem hj) hp
  rw [hexports.base]
  refine wrap_of_isWord ?_
  simp only [isWord, Bool.and_eq_true, decide_eq_true_eq]
  omega

end Rows

/-! ## Compiled flows -/

namespace FlowUnit

variable {cfg : Config} {units : List FlowUnit} {u : FlowUnit} {d : Descriptor}

theorem Computed.exportRows (h : u.Computed) (dir : Direction) :
    u.graph.exportRows u.types dir = .ok (u.exportedSlots dir) := by
  cases dir with
  | input => exact h.inputs
  | output => exact h.outputs

theorem Compiled.ports_eq (h : u.Compiled cfg units) (hd : u.type = some d) (dir : Direction) :
    d.ports dir = u.graph.exportedPorts u.types dir := by
  obtain ⟨symbol, htype⟩ := h.type
  obtain rfl := Option.some.inj (htype.symm.trans hd)
  cases dir <;> rfl

theorem Compiled.length_ports (h : u.Compiled cfg units) (hd : u.type = some d) (dir : Direction) :
    (d.ports dir).length = (u.graph.exports dir).length := by
  rw [h.ports_eq hd, length_exportedPorts]

theorem Compiled.length_exportedSlots (h : u.Compiled cfg units) (hd : u.type = some d) (dir : Direction) :
    (u.exportedSlots dir).length = Port.slotsBefore (d.ports dir) (d.ports dir).length := by
  rw [h.length_ports hd, h.ports_eq hd]
  exact (exportRows_slots (h.exportRows dir)).1

theorem Compiled.exports (h : u.Compiled cfg units) (hd : u.type = some d) {dir : Direction} {j : Nat}
    {e : Graph.ExportedPort} {p : Port} (he : (u.graph.exports dir)[j]? = some e)
    (hp : (d.ports dir)[j]? = some p) :
    ∃ q, (Graph.typeAt u.types e.node).port? dir e.port.name = some q ∧
      e.Exports q p (u.exportedSlots dir) (Port.slotsBefore (d.ports dir) j) := by
  rw [h.ports_eq hd] at hp ⊢
  exact (exportRows_slots (h.exportRows dir)).2 j e p he hp

theorem Compiled.base_eq (h : u.Compiled cfg units) (hd : u.type = some d) {dir : Direction}
    (hlen : (u.exportedSlots dir).length < wordBound) {j : Nat} {p : Port} (hp : (d.ports dir)[j]? = some p) :
    p.base = Port.slotsBefore (d.ports dir) j := by
  rw [h.ports_eq hd] at hp ⊢
  exact exportRows_base (h.exportRows dir) hlen hp

end FlowUnit

namespace Session

/-- The slots that a compiled flow exports are numbered in the type of the flow as they are listed. There is a
port for each exported port, of the data type and size of what is exported, and the slots of the port are the
rows from those of the earlier ports on. If the number of rows is a word, the ports begin one
after the other at zero, and each number of a row belongs to one port. -/
theorem Compiles.exported_slots_numbered {cfg : Config} {s : Session} {root : FlowUnit} (h : s.Compiles cfg root) :
    ∀ u ∈ s.units, ∀ dir, ∃ d, u.type = some d ∧
      (d.ports dir).length = (u.graph.exports dir).length ∧
      (u.exportedSlots dir).length = Port.slotsBefore (d.ports dir) (d.ports dir).length ∧
      (∀ (j : Nat) e p, (u.graph.exports dir)[j]? = some e → (d.ports dir)[j]? = some p →
        ∃ q, (Graph.typeAt u.types e.node).port? dir e.port.name = some q ∧
          e.Exports q p (u.exportedSlots dir) (Port.slotsBefore (d.ports dir) j)) ∧
      ((u.exportedSlots dir).length < wordBound →
        (∀ (j : Nat) p, (d.ports dir)[j]? = some p → p.base = Port.slotsBefore (d.ports dir) j) ∧
        ∀ k : Int, 0 ≤ k ∧ k < (u.exportedSlots dir).length ↔
          ∃! j : Nat, ∃ p, (d.ports dir)[j]? = some p ∧ p.base ≤ k ∧ k < p.base + p.width) := by
  intro u hu dir
  have hc := h.done.2.compiled hu
  obtain ⟨symbol, hd⟩ := hc.type
  have hlen := hc.length_exportedSlots hd dir
  refine ⟨_, hd, hc.length_ports hd dir, hlen, fun j e p he hp => hc.exports hd he hp, fun hshort => ?_⟩
  rw [hlen]
  exact ⟨fun j p => hc.base_eq hd hshort, Port.existsUnique_slot fun j p => hc.base_eq hd hshort⟩

/-- A type with an array, an array of one element and a port without a size. -/
def mixedConfig : Config where
  storage := ⟨["w"], [(["w"], .directory)]⟩
  common := {
    types := [{ name := "src", symbol := "lib.Src"
                outputs := [⟨"OUT", "int", 3, 4⟩, ⟨"ONE", "string", 1, 0⟩, ⟨"S", "any", 0, 2⟩] }] }

/-- The session of a flow that exports these ports, the output for errors and an element of the array. -/
def mixedSession : Session × Except CompileError FlowUnit :=
  compileText {} mixedConfig "main.fbp"
    "OUTPORT=s.OUT:A, OUTPORT=s.ONE:B, OUTPORT=s.S[0]:C\nOUTPORT=s.ERROR:E, OUTPORT=t.OUT[1]:D\ns(src), t(src)"

theorem Compiles.exported_slots_numbered_mixed :
    ∃ u ∈ mixedSession.1.units, ∃ d, u.type = some d ∧
      u.outputs = [⟨0, 4⟩, ⟨0, 5⟩, ⟨0, 6⟩, ⟨0, 0⟩, ⟨0, 2⟩, ⟨0, 65534⟩, ⟨1, 5⟩] ∧
      d.outputs = [⟨"A", "int", 3, 0⟩, ⟨"B", "string", 1, 3⟩, ⟨"C", "any", 0, 4⟩, ⟨"E", "error", 0, 5⟩,
        ⟨"D", "int", 0, 6⟩] ∧
      ∀ k : Int, 0 ≤ k ∧ k < 7 ↔
        ∃! j : Nat, ∃ p, d.outputs[j]? = some p ∧ p.base ≤ k ∧ k < p.base + p.width := by
  obtain ⟨root, h, hslots, hports⟩ : ∃ root, mixedSession.1.Compiles mixedConfig root ∧
      root.outputs = [⟨0, 4⟩, ⟨0, 5⟩, ⟨0, 6⟩, ⟨0, 0⟩, ⟨0, 2⟩, ⟨0, 65534⟩, ⟨1, 5⟩] ∧
      root.type.map (·.outputs) = some [⟨"A", "int", 3, 0⟩, ⟨"B", "string", 1, 3⟩, ⟨"C", "any", 0, 4⟩,
        ⟨"E", "error", 0, 5⟩, ⟨"D", "int", 0, 6⟩] := exists_compiles_and rfl (by decide +kernel)
  obtain ⟨d, hd, -, -, -, hnumbers⟩ := h.exported_slots_numbered root h.root_mem .output
  rw [hd] at hports
  refine ⟨root, h.root_mem, d, hd, hslots, Option.some.inj hports, ?_⟩
  have hlen : (root.exportedSlots .output).length = 7 := congrArg List.length hslots
  rw [hlen] at hnumbers
  exact (hnumbers (by decide)).2

end Session

end FlowCompiler
