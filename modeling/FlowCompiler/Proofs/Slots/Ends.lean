import FlowCompiler.Compile.Slots
import Mathlib.Data.List.Forall2

/-!
# Ends of connections

A connection is accepted if both of its ends are elements of ports and their data types go together. This is said
here by relations:

* `Port.Element` and `Port.Lacks`: the slot of an element of a port, and why there is no such element;
* `Descriptor.End` and `Descriptor.Missing`: the same for a reference, which names a port of a type;
* `Graph.Connection.Joins` and `Graph.Connection.Refused`: the row of a connection, and why there is none.

Of each pair the compiler computes the one that holds (`Port.slot_eq_ok_iff`, `Graph.connectionRow_eq_ok_iff` and
their counterparts for errors), for a list of connections up to the first that is refused
(`Graph.rowsOf_eq_error_iff`).
-/

namespace FlowCompiler

open List Number

/-! ## Elements of ports -/

namespace Port

variable {p : Port} {typeName : String} {index : Option Nat} {s : Int} {e : Cause}

/-- The elements of a port, with their slots. An array has one for each index below its size; any other port has
one, to which no index or the index zero belongs. -/
inductive Element (p : Port) : Option Nat → Int → Prop where
  | item {i : Nat} (below : i < p.size) : p.Element (some i) (wrap (p.base + i))
  | unindexed (scalar : p.size ≤ 0) : p.Element none p.base
  | zero (scalar : p.size ≤ 0) : p.Element (some 0) p.base

/-- Why a port has no element: an array is named without an index or with one that is too large, another port with
an index that is not zero. -/
inductive Lacks (p : Port) (typeName : String) : Option Nat → Cause → Prop where
  | unindexed (array : 0 < p.size) : p.Lacks typeName none (.noIndex p.name typeName)
  | item {i : Nat} (array : 0 < p.size) (beyond : p.size ≤ i) :
      p.Lacks typeName (some i) (.badIndex p.name typeName p.size i)
  | nonzero {i : Nat} (scalar : p.size ≤ 0) (nonzero : i ≠ 0) :
      p.Lacks typeName (some i) (.badIndex p.name typeName 0 i)

theorem isArray_iff : p.isArray = true ↔ 0 < p.size := decide_eq_true_iff

theorem slot_eq_ok_iff : p.slot typeName index = .ok s ↔ p.Element index s := by
  constructor
  · intro h
    simp only [slot, isArray_iff] at h
    split at h
    · split at h
      · cases h
      · split at h
        · cases h
        · next hbelow =>
          cases h
          exact .item (Int.not_le.mp hbelow)
    · next hscalar =>
      split at h
      · cases h
        exact .unindexed (Int.not_lt.mp hscalar)
      · split at h
        · next hzero =>
          cases h
          exact hzero ▸ .zero (Int.not_lt.mp hscalar)
        · cases h
  · rintro (hbelow | hscalar | hscalar)
    · have harray : 0 < p.size := by omega
      rw [slot, if_pos (isArray_iff.mpr harray)]
      exact if_neg (Int.not_le.mpr hbelow)
    · rw [slot, if_neg (isArray_iff.not.mpr (Int.not_lt.mpr hscalar))]
    · rw [slot, if_neg (isArray_iff.not.mpr (Int.not_lt.mpr hscalar))]
      exact if_pos rfl

theorem slot_eq_error_iff : p.slot typeName index = .error e ↔ p.Lacks typeName index e := by
  constructor
  · intro h
    simp only [slot, isArray_iff] at h
    split at h
    · next harray =>
      split at h
      · cases h
        exact .unindexed harray
      · split at h
        · next hbeyond =>
          cases h
          exact .item harray hbeyond
        · cases h
    · next hscalar =>
      split at h
      · cases h
      · split at h
        · cases h
        · next hnonzero =>
          cases h
          exact .nonzero (Int.not_lt.mp hscalar) hnonzero
  · rintro (harray | ⟨harray, hbeyond⟩ | ⟨hscalar, hnonzero⟩)
    · rw [slot, if_pos (isArray_iff.mpr harray)]
    · rw [slot, if_pos (isArray_iff.mpr harray)]
      exact if_pos hbeyond
    · rw [slot, if_neg (isArray_iff.not.mpr (Int.not_lt.mpr hscalar))]
      exact if_neg hnonzero

end Port

namespace Descriptor

variable {d : Descriptor} {dir : Direction} {name : String} {r : PortRef} {p : Port} {s : Int} {e : Cause}

/-- The ports that a type declares in a direction. -/
def ports (d : Descriptor) : Direction → List Port
  | .input => d.inputs
  | .output => d.outputs

/-- The port that a name stands for in a direction: the first one of the name that is declared, or the output for
errors if none is. -/
inductive Offers (d : Descriptor) (name : String) : Direction → Port → Prop where
  | declared {dir : Direction} {p : Port} {before after : List Port} (ports : d.ports dir = before ++ p :: after)
      (named : p.name = name) (first : ∀ q ∈ before, q.name ≠ name) : d.Offers name dir p
  | errors (named : name = errorPortName) (undeclared : ∀ q ∈ d.outputs, q.name ≠ name) :
      d.Offers name .output errorPort

/-- The port and the slot of the element that a reference stands for. -/
structure End (d : Descriptor) (dir : Direction) (r : PortRef) (p : Port) (s : Int) : Prop where
  offers : d.Offers r.name dir p
  element : p.Element r.index s

/-- Why a reference stands for no element: there is no port of the name, or the port has no such element. -/
inductive Missing (d : Descriptor) (dir : Direction) (r : PortRef) : Cause → Prop where
  | port (unknown : ∀ p, ¬ d.Offers r.name dir p) : d.Missing dir r (.noPort r.name d.name)
  | element {p : Port} {e : Cause} (offers : d.Offers r.name dir p) (lacks : p.Lacks d.name r.index e) :
      d.Missing dir r e

theorem find?_ports_eq_some_iff : (d.ports dir).find? (·.name == name) = some p ↔
    ∃ before after, d.ports dir = before ++ p :: after ∧ p.name = name ∧ ∀ q ∈ before, q.name ≠ name := by
  rw [find?_eq_some_iff_append]
  simp only [beq_iff_eq, Bool.not_eq_true', beq_eq_false_iff_ne]
  constructor
  · rintro ⟨hname, before, after, hports, hfirst⟩
    exact ⟨before, after, hports, hname, hfirst⟩
  · rintro ⟨before, after, hports, hname, hfirst⟩
    exact ⟨hname, before, after, hports, hfirst⟩

theorem port?_eq_some_iff : d.port? dir name = some p ↔ d.Offers name dir p := by
  constructor
  · intro h
    cases dir with
    | input =>
      have hfind : (d.ports .input).find? (·.name == name) = some p := h
      obtain ⟨before, after, hports, hname, hfirst⟩ := find?_ports_eq_some_iff.mp hfind
      exact .declared hports hname hfirst
    | output =>
      rcases Option.or_eq_some_iff.mp h with hfind | ⟨hnone, herror⟩
      · have hfind : (d.ports .output).find? (·.name == name) = some p := hfind
        obtain ⟨before, after, hports, hname, hfirst⟩ := find?_ports_eq_some_iff.mp hfind
        exact .declared hports hname hfirst
      · split at herror
        · next hname =>
          cases herror
          exact .errors hname (by simpa [output?] using hnone)
        · cases herror
  · rintro (⟨hports, hname, hfirst⟩ | ⟨hname, hundeclared⟩)
    · have hfind : (d.ports dir).find? (·.name == name) = some p :=
        find?_ports_eq_some_iff.mpr ⟨_, _, hports, hname, hfirst⟩
      cases dir with
      | input => exact hfind
      | output => exact Option.or_eq_some_iff.mpr (.inl hfind)
    · have hnone : d.output? name = none := by simpa [output?] using hundeclared
      exact Option.or_eq_some_iff.mpr (.inr ⟨hnone, if_pos hname⟩)

theorem port?_eq_none_iff : d.port? dir name = none ↔ ∀ p, ¬ d.Offers name dir p := by
  simp only [Option.eq_none_iff_forall_ne_some, ne_eq, port?_eq_some_iff]

theorem end_iff : d.End dir r p s ↔ d.port? dir r.name = some p ∧ p.slot d.name r.index = .ok s := by
  rw [port?_eq_some_iff, Port.slot_eq_ok_iff]
  exact ⟨fun h => ⟨h.offers, h.element⟩, fun h => ⟨h.1, h.2⟩⟩

theorem missing_iff : d.Missing dir r e ↔
    (d.port? dir r.name = none ∧ e = .noPort r.name d.name) ∨
      ∃ p, d.port? dir r.name = some p ∧ p.slot d.name r.index = .error e := by
  simp only [port?_eq_none_iff, port?_eq_some_iff, Port.slot_eq_error_iff]
  constructor
  · rintro (hunknown | ⟨hoffers, hlacks⟩)
    · exact .inl ⟨hunknown, rfl⟩
    · exact .inr ⟨_, hoffers, hlacks⟩
  · rintro (⟨hunknown, rfl⟩ | ⟨p, hoffers, hlacks⟩)
    · exact .port hunknown
    · exact .element hoffers hlacks

end Descriptor

/-! ## Connections -/

theorem compatible_iff {a b : String} : compatible a b = true ↔ a = b ∨ a = anyType ∨ b = anyType := by
  simp [compatible, or_assoc]

namespace Graph

variable {g : Graph} {ds : List Descriptor} {c : Connection} {cs : List Connection} {row : ConnectionRow}
  {rows : List ConnectionRow} {source target : Descriptor} {pos : Position} {e : Cause}

/-- The row of a connection between nodes of two types: both ends are there, and their data types are the same or
one of them goes with every other one. -/
inductive Connection.Joins (c : Connection) (source target : Descriptor) : ConnectionRow → Prop where
  | mk {p q : Port} {s t : Int} (first : source.End .output c.sourcePort p s)
      (second : target.End .input c.targetPort q t)
      (types : p.dataType = q.dataType ∨ p.dataType = anyType ∨ q.dataType = anyType) :
      c.Joins source target ⟨c.source, s, c.target, t⟩

/-- Why there is no row for a connection between nodes of two types. The first end counts before the second, and
both before their data types. -/
inductive Connection.Refused (c : Connection) (g : Graph) (source target : Descriptor) : Cause → Prop where
  | first {e : Cause} (missing : source.Missing .output c.sourcePort e) : c.Refused g source target e
  | second {p : Port} {s : Int} {e : Cause} (first : source.End .output c.sourcePort p s)
      (missing : target.Missing .input c.targetPort e) : c.Refused g source target e
  | types {p q : Port} {s t : Int} (first : source.End .output c.sourcePort p s)
      (second : target.End .input c.targetPort q t)
      (different : ¬ (p.dataType = q.dataType ∨ p.dataType = anyType ∨ q.dataType = anyType)) :
      c.Refused g source target (.differentTypes (g.nodeName c.source) c.sourcePort.name c.targetPort.name
        (g.nodeName c.target) p.dataType q.dataType)

theorem connectionRow_eq_ok_iff :
    g.connectionRow ds c = .ok row ↔ c.Joins (typeAt ds c.source) (typeAt ds c.target) row := by
  constructor
  · intro h
    unfold connectionRow at h
    dsimp only at h
    split at h
    · cases h
    · next p hp =>
      split at h
      · cases h
      · next s hs =>
        split at h
        · cases h
        · next q hq =>
          split at h
          · cases h
          · next t ht =>
            split at h
            · next htypes =>
              cases h
              exact .mk (Descriptor.end_iff.mpr ⟨hp, hs⟩) (Descriptor.end_iff.mpr ⟨hq, ht⟩)
                (compatible_iff.mp htypes)
            · cases h
  · rintro ⟨hfirst, hsecond, htypes⟩
    obtain ⟨hp, hs⟩ := Descriptor.end_iff.mp hfirst
    obtain ⟨hq, ht⟩ := Descriptor.end_iff.mp hsecond
    simp only [connectionRow, hp, hs, hq, ht, compatible_iff.mpr htypes, if_true]

theorem connectionRow_eq_error_iff :
    g.connectionRow ds c = .error e ↔ c.Refused g (typeAt ds c.source) (typeAt ds c.target) e := by
  constructor
  · intro h
    unfold connectionRow at h
    dsimp only at h
    split at h
    · next hp =>
      cases h
      exact .first (Descriptor.missing_iff.mpr (.inl ⟨hp, rfl⟩))
    · next p hp =>
      split at h
      · next hs =>
        cases h
        exact .first (Descriptor.missing_iff.mpr (.inr ⟨p, hp, hs⟩))
      · next s hs =>
        have hfirst := Descriptor.end_iff.mpr ⟨hp, hs⟩
        split at h
        · next hq =>
          cases h
          exact .second hfirst (Descriptor.missing_iff.mpr (.inl ⟨hq, rfl⟩))
        · next q hq =>
          split at h
          · next ht =>
            cases h
            exact .second hfirst (Descriptor.missing_iff.mpr (.inr ⟨q, hq, ht⟩))
          · next t ht =>
            split at h
            · cases h
            · next htypes =>
              cases h
              exact .types hfirst (Descriptor.end_iff.mpr ⟨hq, ht⟩) (compatible_iff.not.mp htypes)
  · rintro (hmissing | ⟨hfirst, hmissing⟩ | ⟨hfirst, hsecond, htypes⟩)
    · rcases Descriptor.missing_iff.mp hmissing with ⟨hp, rfl⟩ | ⟨p, hp, hs⟩
      · simp only [connectionRow, hp]
      · simp only [connectionRow, hp, hs]
    · obtain ⟨hp, hs⟩ := Descriptor.end_iff.mp hfirst
      rcases Descriptor.missing_iff.mp hmissing with ⟨hq, rfl⟩ | ⟨q, hq, ht⟩
      · simp only [connectionRow, hp, hs, hq]
      · simp only [connectionRow, hp, hs, hq, ht]
    · obtain ⟨hp, hs⟩ := Descriptor.end_iff.mp hfirst
      obtain ⟨hq, ht⟩ := Descriptor.end_iff.mp hsecond
      simp only [connectionRow, hp, hs, hq, ht]
      exact if_neg (compatible_iff.not.mpr htypes)

theorem rowsOf_eq_ok (h : g.rowsOf ds cs = .ok rows) :
    List.Forall₂ (fun c row => g.connectionRow ds c = .ok row) cs rows := by
  induction cs generalizing rows with
  | nil =>
    cases h
    exact .nil
  | cons c cs ih =>
    unfold rowsOf at h
    split at h
    · cases h
    · next first hfirst =>
      split at h
      · cases h
      · next rest hrest =>
        cases h
        exact .cons hfirst (ih hrest)

theorem rowsOf_eq_ok_iff : g.rowsOf ds cs = .ok rows ↔
    List.Forall₂ (fun c row => g.connectionRow ds c = .ok row) cs rows := by
  refine ⟨rowsOf_eq_ok, fun h => ?_⟩
  induction h with
  | nil => rfl
  | cons hfirst _ ih => rw [rowsOf, hfirst, ih]

/-- The first connection without a row ends the run. -/
theorem rowsOf_eq_error_iff : g.rowsOf ds cs = .error (pos, e) ↔
    ∃ before c after, cs = before ++ c :: after ∧ (∀ b ∈ before, ∃ row, g.connectionRow ds b = .ok row) ∧
      g.connectionRow ds c = .error e ∧ pos = c.pos := by
  constructor
  · intro h
    induction cs with
    | nil => cases h
    | cons c cs ih =>
      unfold rowsOf at h
      split at h
      · next hc =>
        cases h
        exact ⟨[], c, cs, rfl, forall_mem_nil _, hc, rfl⟩
      · next row hrow =>
        split at h
        · next hrest =>
          cases h
          obtain ⟨before, b, after, rfl, hbefore, hb, hpos⟩ := ih hrest
          exact ⟨c :: before, b, after, rfl, forall_mem_cons.mpr ⟨⟨row, hrow⟩, hbefore⟩, hb, hpos⟩
        · cases h
  · rintro ⟨before, c, after, rfl, hbefore, hc, rfl⟩
    induction before with
    | nil => rw [nil_append, rowsOf, hc]
    | cons b before ih =>
      obtain ⟨⟨row, hrow⟩, hbefore⟩ := forall_mem_cons.mp hbefore
      rw [cons_append, rowsOf, hrow, ih hbefore]

end Graph

end FlowCompiler
