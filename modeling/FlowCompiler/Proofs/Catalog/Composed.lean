import FlowCompiler.Proofs.Catalog.Ports
import FlowCompiler.Proofs.Graph.Assembly

/-!
# Ports of composed types

A composed declaration gives one port for the packets that are made of others, and a port for each field, with
distinct names and consecutive slots (`Composed.Numbered`). So the ports of a declaration that the compiler
understood are told apart by their names in both directions (`Registry.builtin_listed`).
-/

namespace FlowCompiler

open Number

namespace Composed

/-- Ports in the order of their slots, each of one slot. -/
def Numbered (ports : List Port) : Prop :=
  ∀ (i : Nat) (p : Port), ports[i]? = some p → p.base = i ∧ p.size = 0

theorem numbered_nil : Numbered [] := by
  intro i p hi
  simp at hi

theorem numbered_single (name dataType : String) : Numbered [{ name := name, dataType := dataType }] := by
  intro i p hi
  rw [List.getElem?_singleton] at hi
  split at hi
  · cases hi
    exact ⟨by simp_all, rfl⟩
  · cases hi

theorem Numbered.concat {ports : List Port} (h : Numbered ports) (name dataType : String) :
    Numbered (ports ++ [{ name := name, dataType := dataType, base := ports.length }]) := by
  intro i p hi
  rcases Nat.lt_or_ge i ports.length with hlt | hge
  · rw [List.getElem?_append_left hlt] at hi
    exact h i p hi
  · rw [List.getElem?_append_right hge, List.getElem?_singleton] at hi
    split at hi
    · cases hi
      exact ⟨by simp; omega, rfl⟩
    · cases hi

/-- Each field adds a port with a new name in the next slot. -/
theorem readFields_eq_ok {done ports : List Port} {fields : List (List Char)} (hnumbered : Numbered done)
    (hnames : (done.map (·.name)).Nodup) (h : readFields done fields = .ok ports) :
    Numbered ports ∧ (ports.map (·.name)).Nodup := by
  induction fields generalizing done with
  | nil =>
    cases h
    exact ⟨hnumbered, hnames⟩
  | cons field rest ih =>
    unfold readFields at h
    dsimp only at h
    split at h
    · cases h
    · next name type _ =>
      split at h
      · cases h
      · split at h
        · cases h
        · next hnew => exact ih (hnumbered.concat name type) (Graph.nodup_map_concat hnames (by simpa using hnew)) h

theorem simplePorts_eq_ok {contents : String} {ports : List Port} (h : simplePorts contents = .ok ports) :
    2 ≤ ports.length ∧ Numbered ports ∧ (ports.map (·.name)).Nodup := by
  unfold simplePorts at h
  split at h
  · cases h
  · next ps hps =>
    split at h
    · cases h
    · cases h
      exact ⟨by omega, readFields_eq_ok numbered_nil .nil hps⟩

/-- The ports that a composed declaration gives. -/
theorem metatype_ports_eq_ok {splitter : Bool} {contents : String} {inputs outputs : List Port}
    (h : (metatype splitter).ports contents = .ok (inputs, outputs)) :
    ∃ simple, simplePorts contents = .ok simple ∧
      ((splitter = true ∧ inputs = [{ name := "IN", dataType := dataType simple }] ∧ outputs = simple) ∨
        (splitter = false ∧ inputs = simple ∧
          outputs = [{ name := "OUT", dataType := dataType simple }])) := by
  simp only [metatype, ports] at h
  cases hs : simplePorts contents with
  | error f =>
    rw [hs] at h
    cases h
  | ok simple =>
    rw [hs] at h
    cases splitter with
    | true =>
      cases h
      exact ⟨_, rfl, .inl ⟨rfl, rfl, rfl⟩⟩
    | false =>
      cases h
      exact ⟨_, rfl, .inr ⟨rfl, rfl, rfl⟩⟩

theorem Numbered.listed {ports : List Port} (h : Numbered ports) (hnames : (ports.map (·.name)).Nodup)
    (hlen : ports.length < wordBound) : Port.Listed ports := by
  refine ⟨hnames, fun p hp => ?_⟩
  obtain ⟨i, hi⟩ := List.getElem?_of_mem hp
  obtain ⟨hbase, hsize⟩ := h i p hi
  have hlt := (List.getElem?_eq_some_iff.mp hi).1
  exact ⟨by omega, by omega, Port.width_lt_of_size (by rw [hsize]; decide)⟩

end Composed

/-- The metatypes that are always there are the two composed ones, told apart by kind. -/
theorem Registry.builtin_find?_eq_some {kind : String} {m : Metatype} (h : Registry.builtin.find? kind = some m) :
    m = Composed.metatype (kind == "composed-split") := by
  simp only [Registry.builtin, Registry.find?, List.lookup_cons, List.lookup_nil] at h
  split at h
  · next hk =>
    cases h
    rw [eq_of_beq hk]
    rfl
  · split at h
    · next hk =>
      cases h
      rw [eq_of_beq hk]
      rfl
    · cases h

/-- The ports of a declaration that a metatype understood. -/
theorem Registry.builtin_listed {kind : String} {m : Metatype} (hm : Registry.builtin.find? kind = some m)
    {contents : String} {inputs outputs : List Port} (hports : m.ports contents = .ok (inputs, outputs))
    (hin : inputs.length < wordBound) (hout : outputs.length < wordBound) :
    Port.Listed inputs ∧ Port.Listed outputs := by
  rw [builtin_find?_eq_some hm] at hports
  obtain ⟨simple, hsimple, hcases⟩ := Composed.metatype_ports_eq_ok hports
  obtain ⟨-, hnumbered, hnames⟩ := Composed.simplePorts_eq_ok hsimple
  obtain ⟨-, rfl, rfl⟩ | ⟨-, rfl, rfl⟩ := hcases
  · exact ⟨(Composed.numbered_single _ _).listed (List.nodup_singleton _) hin, hnumbered.listed hnames hout⟩
  · exact ⟨hnumbered.listed hnames hin, (Composed.numbered_single _ _).listed (List.nodup_singleton _) hout⟩

end FlowCompiler
