import FlowCompiler.Live.Type
import FlowCompiler.Proofs.Slots.Numbering

/-!
# Slots of ports in tables

A node type of a running program has a table of slots in each direction; the compiler knows the ports of the
type, each with a first slot and a width. `NodeType.Covers R t d` says that every slot of every port of the
descriptor `d` has an entry in the table of `t`, whose data type stands in relation `R` to that of the
port. Then every slot that the compiler computes for a port is found (`Fits.slot_found`), and the rows of
exported ports give a table that covers the ports of the flow (`exportedPorts_covered`).
-/

namespace FlowCompiler

open List Live Number

variable {dir : Direction} {table : List PortType} {rows : List SlotRow} {α : Type} {p : Port} {k : Nat}
  {xs : List α}

/-! ## Places in lists -/

theorem Live.at?_eq_some {i : Int} {x : α} (h : at? xs i = some x) :
    0 ≤ i ∧ i < xs.length ∧ xs[i.toNat]? = some x := by
  unfold at? at h
  split at h
  · cases h
  · have := (List.getElem?_eq_some_iff.mp h).1
    exact ⟨by omega, by omega, h⟩

theorem Live.at?_natCast (xs : List α) (n : Nat) : at? xs (n : Int) = xs[n]? := by
  simp [at?]

/-- The place of an entry is not wrapped in a table that has a length in words. -/
theorem Live.wrap_of_at? {i : Int} {x : α} (h : at? xs i = some x) (hlen : xs.length < wordBound) :
    wrap i = i := by
  obtain ⟨h0, hi, -⟩ := at?_eq_some h
  refine wrap_of_isWord ?_
  simp only [isWord, Bool.and_eq_true, decide_eq_true_eq]
  omega

/-! ## Coverage -/

/-- Every slot of every port has an entry, whose data type stands in relation `R` to that of the port. -/
def TableCovers (R : String → String → Prop) (table : List PortType) (ports : List Port) : Prop :=
  ∀ p ∈ ports, ∀ k : Nat, (k : Int) < p.width →
    ∃ e, at? table (p.base + k) = some e ∧ R e.dataType p.dataType

theorem tableCovers_iff {R : String → String → Prop} {ports : List Port} :
    TableCovers R table ports ↔ ∀ p ∈ ports, ∀ k ∈ List.range p.width.toNat,
      ∃ e ∈ at? table (p.base + k), R e.dataType p.dataType := by
  refine forall₂_congr fun p _ => forall_congr' fun k => ?_
  rw [mem_range, Int.lt_toNat]
  rfl

instance {R : String → String → Prop} [DecidableRel R] {table : List PortType} {ports : List Port} :
    Decidable (TableCovers R table ports) :=
  decidable_of_iff' _ tableCovers_iff

namespace Live.NodeType

variable {ω : Type}

/-- The tables of a type cover the ports of a descriptor. -/
structure Covers (R : String → String → Prop) (t : NodeType ω) (d : Descriptor) : Prop where
  inputs : TableCovers R t.inputs d.inputs
  outputs : TableCovers R t.outputs d.outputs

instance {R : String → String → Prop} [DecidableRel R] {t : NodeType ω} {d : Descriptor} :
    Decidable (t.Covers R d) :=
  decidable_of_iff (TableCovers R t.inputs d.inputs ∧ TableCovers R t.outputs d.outputs)
    ⟨fun h => ⟨h.1, h.2⟩, fun h => ⟨h.inputs, h.outputs⟩⟩

/-- The slot at a place, in a direction. -/
def slotAt? (t : NodeType ω) : Direction → Int → Option PortType
  | .input => t.inputAt?
  | .output => t.outputAt?

/-- A type that covers a descriptor and whose tables have lengths in words. If `R` tells data types apart,
no output is where the one for errors is. -/
structure Fits (R : String → String → Prop) (t : NodeType ω) (d : Descriptor) : Prop
    extends t.Covers R d where
  inputsShort : t.inputs.length < wordBound
  outputsShort : t.outputs.length < wordBound
  errors : t.outputs.length ≤ errorSlot ∨ ∀ a b, R a b

variable {R : String → String → Prop} {t : NodeType ω} {d : Descriptor}

theorem Fits.output_found (h : t.Fits R d) (hp : p ∈ d.outputs) (hk : (k : Int) < p.width) :
    ∃ e, t.outputAt? (p.base + k) = some e ∧ R e.dataType p.dataType ∧
      wrap (p.base + k) = p.base + k := by
  obtain ⟨e, he, hR⟩ := h.outputs p hp k hk
  have hw := wrap_of_at? he h.outputsShort
  by_cases hs : p.base + k = errorSlot
  · obtain ⟨-, hlt, -⟩ := at?_eq_some he
    refine ⟨_, if_pos hs, ?_, hw⟩
    exact h.errors.elim (fun hshort => absurd hs (by omega)) fun hall => hall _ _
  · exact ⟨e, (if_neg hs).trans he, hR, hw⟩

/-- Every slot of a port that the compiler finds is there, under its own number. -/
theorem Fits.slot_found (hrefl : ∀ a, R a a) (h : t.Fits R d) {name : String}
    (hp : d.port? dir name = some p) (hk : (k : Int) < p.width) :
    ∃ e, t.slotAt? dir (p.base + k) = some e ∧ R e.dataType p.dataType ∧
      wrap (p.base + k) = p.base + k := by
  cases dir with
  | input =>
    obtain ⟨e, he, hR⟩ := h.inputs p (mem_of_find?_eq_some hp) k hk
    exact ⟨e, he, hR, wrap_of_at? he h.inputsShort⟩
  | output =>
    rcases Option.or_eq_some_iff.mp hp with hp | ⟨-, hp⟩
    · exact h.output_found (mem_of_find?_eq_some hp) hk
    · -- the output for errors, which every type has
      split at hp
      · cases hp
        obtain rfl : k = 0 := by
          simp [errorPort, Port.width] at hk
          omega
        refine ⟨⟨errorPortName, "error"⟩, ?_, hrefl "error", by decide⟩
        simp [slotAt?, outputAt?, errorPort]
      · cases hp

end Live.NodeType

/-! ## Slots of ports -/

/-- A slot that is given out belongs to the port. -/
theorem Port.slot_eq_ok {typeName : String} {index : Option Nat} {s : Int}
    (h : p.slot typeName index = .ok s) :
    ∃ k : Nat, (k : Int) < p.width ∧ (s = p.base + k ∨ s = wrap (p.base + k)) := by
  have hzero : p.base = p.base + ((0 : Nat) : Int) := by simp
  obtain hbelow | _ | _ := slot_eq_ok_iff.mp h
  · have hwidth : p.width = p.size := if_pos (by omega)
    exact ⟨_, by omega, .inr rfl⟩
  · exact ⟨0, p.width_pos, .inl hzero⟩
  · exact ⟨0, p.width_pos, .inl hzero⟩

/-! ## Rows of slots -/

section Rows

variable {ω : Type} {R : String → String → Prop} {g : Graph} {ts : List (NodeType ω)}
  {ds : List Descriptor}

/-- The entry that a row of slots leads to among the types of the nodes. -/
def entryAt? (ts : List (NodeType ω)) (dir : Direction) (row : SlotRow) : Option PortType :=
  (at? ts row.node).bind (·.slotAt? dir row.slot)

/-- The types of a node, at compile time and at run time. -/
theorem exists_typeAt (hfits : List.Forall₂ (fun t d => t.Fits R d) ts ds) {i : Nat} (hi : i < ds.length) :
    ∃ t, ts[i]? = some t ∧ t.Fits R (Graph.typeAt ds i) := by
  have hlen := hfits.length_eq
  have ht : i < ts.length := by omega
  refine ⟨ts[i], getElem?_eq_getElem ht, ?_⟩
  have hfit := hfits.get ht hi
  simpa [Graph.typeAt, getElem?_eq_getElem hi] using hfit

/-- The slots of a port of a node's type lead to entries of its data type. -/
theorem exists_entryAt (hrefl : ∀ a, R a a) (hfits : List.Forall₂ (fun t d => t.Fits R d) ts ds)
    {e : Graph.ExportedPort} (hnode : e.node < ds.length) {q : Port}
    (hq : (Graph.typeAt ds e.node).port? dir e.port.name = some q) (hk : (k : Int) < q.width) :
    ∃ entry, entryAt? ts dir ⟨e.node, wrap (q.base + k)⟩ = some entry ∧ R entry.dataType q.dataType := by
  obtain ⟨t, ht, hfit⟩ := exists_typeAt hfits hnode
  obtain ⟨entry, hentry, hR, hw⟩ := hfit.slot_found hrefl hq hk
  refine ⟨entry, ?_, hR⟩
  simp only [entryAt?, at?_natCast, ht, Option.bind_some, hw, hentry]

/-- Every row of exported ports leads to an entry. -/
theorem exportRowsOf_found (hrefl : ∀ a, R a a) (hfits : List.Forall₂ (fun t d => t.Fits R d) ts ds)
    {es : List Graph.ExportedPort} (hnodes : ∀ e ∈ es, e.node < ds.length)
    (h : g.exportRowsOf ds dir es = .ok rows) : ∀ row ∈ rows, (entryAt? ts dir row).isSome := by
  induction es generalizing rows with
  | nil =>
    cases h
    simp
  | cons e es ih =>
    obtain ⟨first, more, hfirst, hmore, rfl⟩ := exportRowsOf_cons_eq_ok h
    intro row hrow
    rcases mem_append.mp hrow with hrow | hrow
    · obtain ⟨q, hq, -, -, hslots⟩ := exportRow_slots hfirst 0
      obtain ⟨i, hi⟩ := getElem?_of_mem hrow
      obtain ⟨hwithin, hat⟩ := hslots i (List.getElem?_eq_some_iff.mp hi).1
      obtain ⟨entry, hentry, -⟩ := exists_entryAt hrefl hfits (hnodes e mem_cons_self) hq hwithin
      obtain rfl := Option.some.inj (hat.symm.trans hi)
      rw [hentry]
      rfl
    · exact ih (fun e he => hnodes e (mem_cons_of_mem _ he)) hmore row hrow

/-- The table that the rows of exported ports lead to covers the ports of the flow. -/
theorem exportedPorts_covered (hrefl : ∀ a, R a a) (hfits : List.Forall₂ (fun t d => t.Fits R d) ts ds)
    (hnodes : ∀ e ∈ g.exports dir, e.node < ds.length) (h : g.exportRows ds dir = .ok rows)
    (htable : List.Forall₂ (fun row entry => entryAt? ts dir row = some entry) rows table)
    (hshort : rows.length < wordBound) : TableCovers R table (g.exportedPorts ds dir) := by
  intro p hp k hk
  obtain ⟨j, hj⟩ := getElem?_of_mem hp
  have hlt : j < (g.exports dir).length := length_exportedPorts (g := g) ▸ (List.getElem?_eq_some_iff.mp hj).1
  obtain ⟨q, hq, hexports⟩ := (exportRows_slots h).2 j _ p (getElem?_eq_getElem hlt) hj
  obtain ⟨entry, hentry, hR⟩ := exists_entryAt hrefl hfits (hnodes _ (getElem_mem hlt)) hq (hexports.within k hk)
  -- the entry stands in the table where its row does
  obtain ⟨hi, hrow⟩ := List.getElem?_eq_some_iff.mp (hexports.rows k hk)
  have hat := htable.get hi (htable.length_eq ▸ hi)
  rw [get_eq_getElem, hrow, hentry] at hat
  refine ⟨entry, ?_, hexports.dataType ▸ hR⟩
  rw [exportRows_base h hshort hj, ← Nat.cast_add, at?_natCast, Option.some.inj hat]
  exact getElem?_eq_getElem _

end Rows

end FlowCompiler
