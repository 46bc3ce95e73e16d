import FlowCompiler.Proofs.Catalog.Ports
import FlowCompiler.Proofs.Slots.Numbering

/-!
# Slots that references stand for

A flow refers to a port by its name and, for an element of an array port, by an index. The reference stands for a
slot of the type. `Descriptor.Apart` says that different elements have different slots. For ports whose numbers
are words this means that the slots of the ports that can be referred to are disjoint (`Descriptor.apart_iff`);
among outputs, one of these is the output for errors, which a type need not declare.

Main statement: `Catalog.outputs_apart_iff`, for types of loaded documents. Two things are not checked when a
document is loaded: whether a declared output has the slot of the output for errors, and whether ports overlap
that reach beyond the words. The outputs of a type are apart exactly if neither is the case.
-/

namespace FlowCompiler

open List Number

variable {p : Port} {s : Int} {typeName : String} {r : PortRef}

/-- Whether two references name the same element of the same port. Without an index, it is the first one. -/
def PortRef.SameElement (a b : PortRef) : Prop := a.name = b.name ∧ a.index.getD 0 = b.index.getD 0

instance : DecidableRel PortRef.SameElement := fun a b =>
  inferInstanceAs (Decidable (a.name = b.name ∧ a.index.getD 0 = b.index.getD 0))

/-! ## Slots of a port -/

namespace Port

theorem Placed.isWord (h : p.Placed) : isWord p.base = true := by
  have hnonneg := h.nonneg
  have hlt := h.base_lt
  exact isWord_iff.mpr (by omega)

/-- An array needs an index. Then the slot is that of the element, if there is one. -/
theorem Placed.slot_eq_ok_iff (h : p.Placed) {index : Option Nat} :
    p.slot typeName index = .ok s ↔ (p.isArray = true → index.isSome = true) ∧
      (index.getD 0 : Int) < p.width ∧ s = wrap (p.base + index.getD 0) := by
  have hfirst : wrap (p.base + ((0 : Nat) : Int)) = p.base := by
    rw [Nat.cast_zero, add_zero, wrap_of_isWord h.isWord]
  unfold slot
  by_cases harray : p.isArray = true
  · have hwidth : p.width = p.size := if_pos (by simpa [isArray] using harray)
    rw [if_pos harray, hwidth]
    cases index with
    | none => simp [harray]
    | some i =>
      by_cases hi : p.size ≤ i
      · simp [hi]
      · simp [hi, Int.not_le.mp hi, @eq_comm _ s]
  · have hwidth : p.width = 1 := if_neg (by simpa [isArray] using harray)
    rw [if_neg harray, hwidth]
    -- Zero is the only index that such a port takes.
    cases index with
    | none =>
      simp only [Option.getD_none, hfirst, harray]
      simp [@eq_comm _ s]
    | some i =>
      by_cases hi : i = 0
      · subst hi
        simp only [Option.getD_some, hfirst]
        simp [@eq_comm _ s]
      · simp [hi]

theorem slot_congr {i j : Option Nat} {t : Int} (hs : p.slot typeName i = .ok s)
    (ht : p.slot typeName j = .ok t) (h : i.getD 0 = j.getD 0) : s = t := by
  unfold slot at hs ht
  grind

/-- Elements of placed ports have the same slot if they are at the same place, counted without bound. -/
theorem Placed.wrap_inj {q : Port} (hp : p.Placed) (hq : q.Placed) {i j : Nat} (hi : (i : Int) < p.width)
    (hj : (j : Int) < q.width) (h : wrap (p.base + i) = wrap (q.base + j)) : p.base + i = q.base + j := by
  have hpstop := hp.stop_le
  have hqstop := hq.stop_le
  have hpbase := hp.nonneg
  have hqbase := hq.nonneg
  unfold stop at hpstop hqstop
  exact Number.wrap_inj ⟨by omega, by omega⟩ ⟨by omega, by omega⟩ h

theorem placed_errorPort : errorPort.Placed := ⟨by decide, by decide, by decide⟩

theorem disjoint_errorPort_iff : p.Disjoint errorPort ↔ p.stop ≤ errorSlot ∨ errorSlot < p.base := by
  have hstop : errorPort.stop = errorSlot + 1 := by decide
  have hbase : errorPort.base = errorSlot := rfl
  rw [Disjoint, hstop, hbase, Int.add_one_le_iff]

/-- The port of a name among ports with distinct names. -/
theorem Listed.find?_eq_some_iff {ports : List Port} (h : Listed ports) {name : String} :
    ports.find? (·.name == name) = some p ↔ p ∈ ports ∧ p.name = name := by
  constructor
  · intro hfind
    exact ⟨mem_of_find?_eq_some hfind, by simpa using find?_some hfind⟩
  · rintro ⟨hp, rfl⟩
    have hsome : (ports.find? (·.name == p.name)).isSome := find?_isSome.mpr ⟨p, hp, by simp⟩
    obtain ⟨q, hq⟩ := Option.isSome_iff_exists.mp hsome
    have hname : q.name = p.name := by simpa using find?_some hq
    rw [hq, inj_on_of_nodup_map h.names (mem_of_find?_eq_some hq) hp hname]

end Port

/-! ## References -/

namespace Descriptor

variable {d : Descriptor} {dir : Direction}

/-- The ports that references can name: those that are declared and, among outputs, the one for errors, unless a
port of its name is declared. -/
def offered (d : Descriptor) : Direction → List Port
  | .input => d.inputs
  | .output => d.outputs ++ if errorPortName ∈ d.outputs.map (·.name) then [] else [errorPort]

/-- The slot that a reference stands for, if the type has the element. -/
def slot? (d : Descriptor) (dir : Direction) (r : PortRef) : Option Int :=
  (d.port? dir r.name).bind fun p => (p.slot d.name r.index).toOption

/-- References that stand for the same slot name the same element. -/
def Apart (d : Descriptor) (dir : Direction) : Prop :=
  ∀ a b s, d.slot? dir a = some s → d.slot? dir b = some s → a.SameElement b

theorem offered_output_of_mem (h : errorPortName ∈ d.outputs.map (·.name)) : d.offered .output = d.outputs := by
  simp only [offered, if_pos h, append_nil]

theorem offered_output_of_notMem (h : errorPortName ∉ d.outputs.map (·.name)) :
    d.offered .output = d.outputs ++ [errorPort] := by
  simp only [offered, if_neg h]

theorem port?_eq_find? (d : Descriptor) (dir : Direction) (name : String) :
    d.port? dir name = (d.offered dir).find? (·.name == name) := by
  cases dir with
  | input => rfl
  | output =>
    simp only [port?, output?, offered, find?_append]
    cases hfind : d.outputs.find? (·.name == name) with
    | some p => rfl
    | none =>
      rw [Option.none_or, Option.none_or]
      by_cases hname : name = errorPortName
      · have hnew : errorPortName ∉ d.outputs.map (·.name) := by
          simpa [← hname] using hfind
        rw [if_pos hname, if_neg hnew, find?_singleton]
        simp [errorPort, hname]
      · rw [if_neg hname]
        split
        · rfl
        · simp [errorPort, Ne.symm hname]

theorem listed_offered (h : Port.Listed (d.ports dir)) : Port.Listed (d.offered dir) := by
  cases dir with
  | input => exact h
  | output =>
    by_cases hdeclared : errorPortName ∈ d.outputs.map (·.name)
    · exact offered_output_of_mem hdeclared ▸ h
    · rw [offered_output_of_notMem hdeclared]
      refine ⟨Graph.nodup_map_concat h.names fun p hp hname => hdeclared ?_, ?_⟩
      · exact mem_map.mpr ⟨p, hp, hname⟩
      · exact forall_mem_append.mpr ⟨h.placed, forall_mem_singleton.mpr Port.placed_errorPort⟩

theorem slot?_eq_some_iff :
    d.slot? dir r = some s ↔ ∃ p, d.port? dir r.name = some p ∧ p.slot d.name r.index = .ok s := by
  have hok : ∀ e : Except Cause Int, e.toOption = some s ↔ e = .ok s := by
    intro e
    cases e <;> simp [Except.toOption]
  simp only [slot?, Option.bind_eq_some_iff, hok]

/-- The slots of ports that are told apart by their names. -/
theorem slot?_eq_some_iff_of_listed (h : Port.Listed (d.offered dir)) :
    d.slot? dir r = some s ↔ ∃ p ∈ d.offered dir, p.name = r.name ∧ (p.isArray = true → r.index.isSome = true) ∧
      (r.index.getD 0 : Int) < p.width ∧ s = wrap (p.base + r.index.getD 0) := by
  simp only [slot?_eq_some_iff, port?_eq_find?, h.find?_eq_some_iff]
  constructor
  · rintro ⟨p, ⟨hp, hname⟩, hslot⟩
    exact ⟨p, hp, hname, (h.placed p hp).slot_eq_ok_iff.mp hslot⟩
  · rintro ⟨p, hp, hname, hslot⟩
    exact ⟨p, ⟨hp, hname⟩, (h.placed p hp).slot_eq_ok_iff.mpr hslot⟩

/-- References to the same element stand for the same slot, if they are accepted. -/
theorem slot?_congr {a b : PortRef} {t : Int} (ha : d.slot? dir a = some s) (hb : d.slot? dir b = some t)
    (h : a.SameElement b) : s = t := by
  obtain ⟨p, hp, hs⟩ := slot?_eq_some_iff.mp ha
  obtain ⟨q, hq, ht⟩ := slot?_eq_some_iff.mp hb
  obtain rfl : p = q := Option.some.inj (hp.symm.trans (h.1 ▸ hq))
  exact p.slot_congr hs ht h.2

theorem Apart.slot?_eq_iff (h : d.Apart dir) {a b : PortRef} {t : Int} (ha : d.slot? dir a = some s)
    (hb : d.slot? dir b = some t) : d.slot? dir a = d.slot? dir b ↔ a.SameElement b := by
  constructor
  · intro heq
    exact h a b s ha (heq ▸ ha)
  · intro hsame
    rw [ha, hb, slot?_congr ha hb hsame]

/-- If references are apart, a port ends before any that does not begin before it. -/
theorem Apart.stop_le (hapart : d.Apart dir) (h : Port.Listed (d.offered dir)) {q : Port}
    (hp : p ∈ d.offered dir) (hq : q ∈ d.offered dir) (hne : p ≠ q) (hle : p.base ≤ q.base) :
    p.stop ≤ q.base := by
  by_contra hlt
  unfold Port.stop at hlt
  -- Otherwise the first element of `q` is an element of `p`.
  obtain ⟨i, hi⟩ := Int.eq_ofNat_of_zero_le (Int.sub_nonneg.mpr hle)
  have hfirst : d.slot? dir ⟨p.name, some i⟩ = some (wrap (p.base + i)) :=
    (slot?_eq_some_iff_of_listed h).mpr ⟨p, hp, rfl, fun _ => rfl, by simp only [Option.getD_some]; omega, rfl⟩
  have hsecond : d.slot? dir ⟨q.name, some 0⟩ = some (wrap (p.base + i)) := by
    refine (slot?_eq_some_iff_of_listed h).mpr ⟨q, hq, rfl, fun _ => rfl, q.width_pos, ?_⟩
    congr 1
    simp only [Option.getD_some, Nat.cast_zero]
    omega
  have hname : p.name = q.name := (hapart _ _ _ hfirst hsecond).1
  exact hne (inj_on_of_nodup_map h.names hp hq hname)

/-- References are apart exactly if the ports that they can name are disjoint. -/
theorem apart_iff (h : Port.Listed (d.offered dir)) :
    d.Apart dir ↔ (d.offered dir).Pairwise Port.Disjoint := by
  constructor
  · intro hapart
    refine h.names.of_map.pairwise_of_forall_ne fun p hp q hq hne => ?_
    rcases le_total p.base q.base with hle | hle
    · exact .inl (hapart.stop_le h hp hq hne hle)
    · exact .inr (hapart.stop_le h hq hp hne.symm hle)
  · intro hdisjoint a b s ha hb
    obtain ⟨p, hp, hpname, -, hi, hpslot⟩ := (slot?_eq_some_iff_of_listed h).mp ha
    obtain ⟨q, hq, hqname, -, hj, hqslot⟩ := (slot?_eq_some_iff_of_listed h).mp hb
    have hplace := (h.placed p hp).wrap_inj (h.placed q hq) hi hj (hpslot.symm.trans hqslot)
    by_cases hpq : p = q
    · subst hpq
      exact ⟨hpname.symm.trans hqname, by omega⟩
    · have hapart := hdisjoint.forall hp hq hpq
      unfold Port.Disjoint Port.stop at hapart
      omega

/-- Among outputs the one for errors counts, unless a port of its name is declared. -/
theorem pairwise_offered_output :
    (d.offered .output).Pairwise Port.Disjoint ↔ d.outputs.Pairwise Port.Disjoint ∧
      (errorPortName ∈ d.outputs.map (·.name) ∨ ∀ p ∈ d.outputs, p.stop ≤ errorSlot ∨ errorSlot < p.base) := by
  by_cases hdeclared : errorPortName ∈ d.outputs.map (·.name)
  · rw [offered_output_of_mem hdeclared]
    simp only [hdeclared, true_or, and_true]
  · rw [offered_output_of_notMem hdeclared]
    simp only [pairwise_append, pairwise_singleton, mem_singleton, forall_eq, hdeclared, false_or,
      true_and, Port.disjoint_errorPort_iff]

end Descriptor

/-! ## Loaded types -/

namespace Catalog

/-- In a type that a document gives, references to outputs, the one for errors included, that stand for the same
slot name the same element, exactly if no output but the last one reaches beyond the words and no output has the
slot of the one for errors, unless the type declares that one. -/
theorem outputs_apart_iff {c : Catalog} {text source : String} {d : Descriptor}
    (h : d ∈ (c.load text source).1.types) (hnew : d ∉ c.types) :
    d.Apart .output ↔
      (∀ p ∈ d.outputs, ∀ q ∈ d.outputs, p ≠ q → p.base ≤ q.base → p.stop < wordBound) ∧
      (errorPortName ∈ d.outputs.map (·.name) ∨
        ∀ p ∈ d.outputs, p.stop ≤ errorSlot ∨ errorSlot < p.base) := by
  have hchecked := (load_portsChecked h hnew).outputs
  have hlisted : Port.Listed (d.offered .output) := Descriptor.listed_offered hchecked.toListed
  rw [Descriptor.apart_iff hlisted, Descriptor.pairwise_offered_output, hchecked.pairwise_disjoint_iff]

/-- Types with an output up to the slot for errors, and in it. -/
def slotsDocument : String :=
  "types:\n- name: below\n  symbol: lib.Below\n  out_ports: [{name: OUT, array_size: 65534}]\n- name: tap\n  symbol: lib.Tap\n  out_ports: [{name: X, base_port_idx: 65534}]\n"

theorem types_slotsDocument : (({} : Catalog).load slotsDocument "c.yaml").1.types = [
    { name := "below", symbol := "lib.Below", outputs := [⟨"OUT", "", 65534, 0⟩] },
    { name := "tap", symbol := "lib.Tap", outputs := [⟨"X", "", 0, 65534⟩] }] := by
  decide +kernel

/-- The last element of an output and the output for errors have neighbouring slots. -/
theorem outputs_apart_iff_below :
    ∃ d ∈ (({} : Catalog).load slotsDocument "c.yaml").1.types, d.Apart .output ∧
      d.slot? .output ⟨"OUT", some 65533⟩ = some 65533 ∧ d.slot? .output ⟨"ERROR", none⟩ = some 65534 := by
  have hmem := types_slotsDocument ▸ mem_cons_self
  refine ⟨_, hmem, (outputs_apart_iff hmem not_mem_nil).mpr ⟨?_, .inr ?_⟩, ?_, ?_⟩ <;> decide

/-- The output of a type that is accepted has the slot of the one for errors. -/
theorem outputs_share_errorSlot :
    ∃ d ∈ (({} : Catalog).load slotsDocument "c.yaml").1.types, errorPortName ∉ d.outputs.map (·.name) ∧
      d.slot? .output ⟨"X", none⟩ = some errorSlot ∧ d.slot? .output ⟨"ERROR", none⟩ = some errorSlot ∧
      ¬ d.Apart .output := by
  rw [types_slotsDocument]
  refine ⟨_, mem_cons_of_mem _ mem_cons_self, by decide, by decide, by decide, fun hapart => ?_⟩
  exact absurd (hapart ⟨"X", none⟩ ⟨"ERROR", none⟩ errorSlot (by decide) (by decide)) (by decide)

end Catalog

end FlowCompiler
