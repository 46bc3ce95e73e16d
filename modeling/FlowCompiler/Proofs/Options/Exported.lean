import FlowCompiler.Proofs.Compile.Units
import FlowCompiler.Proofs.Options.Values
import FlowCompiler.Program.Constructor

/-!
# Exported options

A flow exports options of its nodes under names of its own. Each of them becomes a row, by which values are
handed on to the node, and an option of the type that the flow is. In a compiled unit none of them is left
out: the rows are those of the exported options (`FlowUnit.Compiled.forwarding_eq`), and so are the options of
its type (`FlowUnit.Compiled.exported`), in the order in which they were written.
-/

namespace FlowCompiler

/-- The row of an exported option. -/
def Graph.ExportedOption.row (o : Graph.ExportedOption) : ForwardingRow :=
  ⟨o.node, o.option, Naming.forwarded o.name⟩

theorem Graph.forwardingRows_eq {g : Graph} {types : List Descriptor} {os : List ExportedOption}
    {rows : List ForwardingRow} (h : g.forwardingRows types os = (rows, none)) :
    rows = os.map (·.row) ∧ ∀ o ∈ os, ∃ i, (typeAt types o.node).optionIndex? o.option = some i := by
  induction os generalizing rows with
  | nil =>
    cases h
    exact ⟨rfl, nofun⟩
  | cons o os ih =>
    unfold forwardingRows at h
    dsimp only at h
    split at h
    · cases h
    · next hfound =>
      rcases hrest : g.forwardingRows types os with ⟨more, fault⟩
      simp only [hrest, Prod.mk.injEq] at h
      obtain ⟨rfl, rfl⟩ := h
      obtain ⟨rfl, hos⟩ := ih hrest
      refine ⟨rfl, List.forall_mem_cons.mpr ⟨?_, hos⟩⟩
      rw [Option.isNone_iff_eq_none] at hfound
      exact Option.ne_none_iff_exists'.mp hfound

theorem Descriptor.optionIndex?_eq_some {d : Descriptor} {name : String} {i : Nat}
    (h : d.optionIndex? name = some i) : ∃ spec, d.options[i]? = some spec ∧ spec.name = name := by
  obtain ⟨hlt, hname, -⟩ := List.findIdx?_eq_some_iff_getElem.mp h
  exact ⟨_, List.getElem?_eq_getElem hlt, by simpa using hname⟩

namespace FlowUnit

variable {cfg : Config} {units : List FlowUnit} {u : FlowUnit} {o : Graph.ExportedOption}

/-- The option of a node that is exported: the `i`-th one of the node's type. -/
structure Inner (u : FlowUnit) (o : Graph.ExportedOption) (b : Binding) (i : Nat) (spec : OptionSpec) :
    Prop where
  node : u.bindings[o.node]? = some b
  index : b.type.optionIndex? o.option = some i
  found : b.type.options[i]? = some spec
  name : spec.name = o.option

theorem Inner.exportedOption? {b : Binding} {i : Nat} {spec : OptionSpec} (h : u.Inner o b i spec) :
    u.exportedOption? o = some ⟨o.name, spec.dataType, u.optionValue o.node i spec.fallback⟩ := by
  have htype : Graph.typeAt u.types o.node = b.type := by simp [Graph.typeAt, types, h.node]
  unfold FlowUnit.exportedOption?
  dsimp only
  rw [htype, h.index]
  dsimp only
  rw [h.found]

namespace Compiled

theorem forwarding_eq (h : u.Compiled cfg units) : u.forwarding = u.graph.options.map (·.row) :=
  (Graph.forwardingRows_eq h.forwarding).1

/-- Every exported option is one of the type of its node. -/
theorem inner (h : u.Compiled cfg units) (ho : o ∈ u.graph.options) :
    ∃ b i spec, u.Inner o b i spec := by
  obtain ⟨i, hi⟩ := (Graph.forwardingRows_eq h.forwarding).2 o ho
  obtain ⟨text, hparse⟩ := h.parsed
  have hlt : o.node < u.bindings.length := by
    rw [← h.bindings.length_eq]
    exact (Graph.consistent_of_parse hparse).optionNodes o ho
  have hb := List.getElem?_eq_getElem hlt
  have htype : Graph.typeAt u.types o.node = u.bindings[o.node].type := by
    simp [Graph.typeAt, types, hb]
  rw [htype] at hi
  obtain ⟨spec, hspec, hname⟩ := Descriptor.optionIndex?_eq_some hi
  exact ⟨_, i, spec, hb, hi, hspec, hname⟩

/-- The type of a unit has an option for each exported one. -/
theorem exported (h : u.Compiled cfg units) :
    List.Forall₂ (fun spec o => u.exportedOption? o = some spec) u.describe.options u.graph.options := by
  refine forall₂_filterMap_left fun o ho => ?_
  obtain ⟨b, i, spec, hinner⟩ := h.inner ho
  exact ⟨_, hinner.exportedOption?, hinner.exportedOption?⟩

theorem names_describe (h : u.Compiled cfg units) :
    u.describe.options.map (·.name) = u.graph.options.map (·.name) := by
  rw [← List.forall₂_eq_eq_eq, List.forall₂_map_left_iff, List.forall₂_map_right_iff]
  refine forall₂_filterMap_left fun o ho => ?_
  obtain ⟨b, i, spec, hinner⟩ := h.inner ho
  exact ⟨_, hinner.exportedOption?, rfl⟩

theorem descriptor_eq (h : u.Compiled cfg units) : ∃ symbol, u.descriptor = { u.describe with symbol } := by
  obtain ⟨symbol, htype⟩ := h.type
  exact ⟨symbol, by rw [descriptor, htype]; rfl⟩

theorem names_descriptor (h : u.Compiled cfg units) :
    u.descriptor.options.map (·.name) = u.graph.options.map (·.name) := by
  obtain ⟨symbol, hdescriptor⟩ := h.descriptor_eq
  rw [hdescriptor]
  exact h.names_describe

/-- A unit that exports options, and no other, has a type for them. -/
theorem optionsSymbol_eq_empty_iff (h : u.Compiled cfg units) :
    u.optionsSymbol = "" ↔ u.graph.options = [] := by
  obtain ⟨symbol, htype⟩ := h.type
  have hsymbol : u.optionsSymbol = if u.describe.options.isEmpty then "" else u.stem ++ "Options" := by
    rw [optionsSymbol, htype]
    rfl
  have hempty : u.describe.options = [] ↔ u.graph.options = [] := by
    rw [← List.length_eq_zero_iff, ← List.length_eq_zero_iff, h.exported.length_eq]
  rw [hsymbol, ← hempty, ← List.isEmpty_iff]
  by_cases hoptions : u.describe.options.isEmpty = true
  · simp [hoptions]
  · simp only [hoptions, Bool.false_eq_true, if_false, iff_false]
    intro heq
    have hlength := congrArg (fun s => s.toList.length) heq
    simp [String.toList_append] at hlength

end Compiled

end FlowUnit

end FlowCompiler
