import FlowCompiler.Proofs.Compile.Units
import FlowCompiler.Proofs.Options.Values

/-!
# Option values of compiled units

A catalog is loaded from documents, and a flow is compiled with it. Then every value of an option in every
unit, and every default of the type of a unit, fits its data type, and so becomes a proper literal
(`Session.Compiles.options_written`). The invariant goes from the catalog to the types of nodes, from there
to the values of the nodes, to the type of the unit, and through it to the unit that declares it.
-/

namespace FlowCompiler

variable {cfg : Config} {units : List FlowUnit} {u : FlowUnit}

/-- A unit whose option values and whose type's defaults fit. -/
structure FlowUnit.OptionsFit (u : FlowUnit) : Prop where
  values : List.Forall₂ RowFits u.bindings u.options
  type : ∀ d ∈ u.type, d.OptionsFit

/-- The type of a node has defaults that fit if those of the catalog and of the children do. -/
theorem FlowUnit.Binds.optionsFit {b : Binding} (h : u.Binds cfg units b)
    (hcommon : cfg.common.OptionsFit)
    (hchildren : ∀ c : FlowUnit, units[c.id]? = some c → u.id < c.id → c.OptionsFit) :
    b.type.OptionsFit := by
  cases h with
  | external _ found => exact hcommon _ (List.mem_of_find?_eq_some found)
  | subflow _ _ _ _ stored later type => exact (hchildren _ stored later).type _ type
  | metatype _ _ _ _ _ options =>
    intro o ho
    rw [options] at ho
    cases ho

theorem FlowUnit.Compiled.optionsFit (h : u.Compiled cfg units) (hcommon : cfg.common.OptionsFit)
    (hchildren : ∀ c : FlowUnit, units[c.id]? = some c → u.id < c.id → c.OptionsFit) :
    u.OptionsFit := by
  have htypes : ∀ b ∈ u.bindings, b.type.OptionsFit :=
    fun b hb => (h.binds b hb).optionsFit hcommon hchildren
  have hrows : List.Forall₂ RowFits u.bindings u.options := by
    rw [h.options]
    exact encodeFrom_fits htypes h.encoded
  refine ⟨hrows, fun d hd => ?_⟩
  obtain ⟨symbol, htype⟩ := h.type
  cases htype.symm.trans hd
  exact describe_fits htypes hrows

namespace Session

/-- In a compilation with a catalog loaded from documents, every option of a node whose options are set has
the name and the data type that the node's type gives it. Its value fits the data type and is written with
proper literals, as is every default of the type of a unit. -/
theorem Compiles.options_written {documents : List (String × String)} {s : Session} {root : FlowUnit}
    (h : s.Compiles { cfg with common := Catalog.ofDocuments documents } root) :
    ∀ u ∈ s.units,
      List.Forall₂ (fun b row => ∀ values ∈ row,
          List.Forall₂ (fun spec o => o.name = spec.name ∧ o.dataType = spec.dataType ∧
            ∀ v ∈ o.value, v.Fits o.dataType ∧ v.WellWritten o.dataType) b.type.options values)
        u.bindings u.options ∧
      ∀ d ∈ u.type, ∀ o ∈ d.options, ∀ v ∈ o.fallback,
        v.Fits o.dataType ∧ v.WellWritten o.dataType := by
  have hunits : ∀ u ∈ s.units, u.OptionsFit := h.done.2.induction fun u _ hc hchildren =>
    hc.optionsFit (Catalog.ofDocuments_fits documents) hchildren
  intro u hu
  refine ⟨(hunits u hu).values.imp fun b row hrow values hvalues => ?_, fun d hd o ho v hv => ?_⟩
  · refine (hrow values hvalues).imp fun spec o hres => ⟨hres.name, hres.dataType, fun v hv => ?_⟩
    have hv : v.Fits o.dataType := hres.dataType ▸ hres.fits v hv
    exact ⟨hv, hv.wellWritten⟩
  · have hv : v.Fits o.dataType := (hunits u hu).type d hd o ho v hv
    exact ⟨hv, hv.wellWritten⟩

/-- A type with an option that has a default, under an alias of its data type. -/
def rangedDocument : String × String :=
  ("types:\n- name: osc\n  symbol: lib.Osc\n  options_symbol: lib.OscOptions\n  options:\n    members:\n    - name: level\n      data_type: drange\n      default: -INF\n",
    "c.yaml")

/-- A flow in a file that lays two tokens over the default, one of which is refused, and exports the
option. -/
def rangedConfig : Config where
  storage := ⟨["w"], [(["w"], .directory), (["w", "inner.fbp"], .file
    "OPTION=a.level:gain\na(osc:level=|x|+Infinity)" 0)]⟩

/-- The session of a flow that sets one field of the exported option. -/
def rangedSession : Session × Except CompileError FlowUnit :=
  compileText {} { rangedConfig with common := Catalog.ofDocuments [rangedDocument] } "main.fbp"
    "DECLARE=Inner:fbp:inner.fbp\ni(Inner:gain=step:0x1p-2)"

/-- A value made of a default and of the settings of two units, without the token that was refused. -/
theorem Compiles.options_written_nested :
    ∃ u ∈ rangedSession.1.units, ∃ c : Composite, c.texts = ["-inf", "", "+inf", "0x1p-2"] ∧
      u.options = [some [⟨"gain", "drange", some (.composite c)⟩]] ∧
      c.Fits "drange" ∧ ∀ f ∈ c.literals "float", f.2.isProper := by
  obtain ⟨root, h, hoptions⟩ : ∃ root, rangedSession.1.Compiles
      { rangedConfig with common := Catalog.ofDocuments [rangedDocument] } root ∧
      root.options = [some [⟨"gain", "drange",
        some (.composite ⟨.range, ["-inf", "", "+inf", "0x1p-2"], rfl⟩)⟩]] :=
    exists_compiles_and rfl (by decide +kernel)
  obtain ⟨b, hrow⟩ := mem_right_of_forall₂ (h.options_written root h.root_mem).1
    (hoptions ▸ List.mem_singleton_self _)
  obtain ⟨spec, -, -, hvalue⟩ := mem_right_of_forall₂ (hrow _ rfl) (List.mem_singleton_self _)
  obtain ⟨hfits, hwritten⟩ := hvalue _ rfl
  exact ⟨root, h.root_mem, _, rfl, hoptions, hfits, hwritten⟩

end Session

end FlowCompiler
