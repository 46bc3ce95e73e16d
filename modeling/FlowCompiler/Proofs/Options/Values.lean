import FlowCompiler.Catalog.Load
import FlowCompiler.Proofs.Compile.Steps
import FlowCompiler.Proofs.Options.Literals

/-!
# Option values that fit their data types

All ways to make a value of an option keep it fitting: reading the default of a catalog entry, laying
settings over a default, and taking the value of an inner option as the default of an exported one.

* `Catalog.ofDocuments_fits`: the defaults in a catalog that was loaded fit.
* `Descriptor.encode_fits`: if the defaults of a type fit, so do the values of a node of the type,
  whatever its settings are.
* `FlowUnit.describe_fits`: if the values of the nodes of a unit fit, so do the defaults of its type.
-/

namespace FlowCompiler

open List

variable {n : Document.Node} {settings : List Meta} {o : OptionSpec} {t : TypeEntry}

/-! ## Composites -/

namespace Composite

variable {dataType key : String} {shape : Shape} {c : Composite}

theorem fits_empty (h : Shape.ofType? dataType = some shape) : (empty shape).Fits dataType where
  shape := h
  tokens _ ht hne := absurd (eq_of_mem_replicate ht) hne

/-- A field is set to the normal form of a token. -/
theorem Fits.set (h : c.Fits dataType) {tok normal : String}
    (htok : Numeral.token? dataType tok = some normal) (field : String) :
    ((c.set? field normal).getD c).Fits dataType := by
  unfold set?
  split
  · exact h
  · refine ⟨h.shape, fun t ht hne => ?_⟩
    rcases mem_or_eq_of_mem_set ht with ht | rfl
    · exact h.tokens t ht hne
    · rw [Numeral.token?_normal htok]
      rfl

theorem applySegment_fits (h : c.Fits dataType) (explicit : Bool) (index : Nat) (segment : List Char) :
    (applySegment dataType key explicit index c segment).1.Fits dataType := by
  unfold applySegment
  split
  · exact h
  · next field token _ =>
    split
    · exact h
    · split
      · exact h
      · split
        · exact h
        · next normal htok => exact h.set htok field

theorem applySegments_fits (explicit : Bool) (segments : List (List Char)) :
    ∀ {c : Composite} (_ : c.Fits dataType) (index : Nat),
      (applySegments dataType key explicit index c segments).1.Fits dataType := by
  induction segments with
  | nil => exact fun h _ => h
  | cons segment rest ih => exact fun h index => ih (applySegment_fits h explicit index segment) _

theorem overlay_fits (h : c.Fits dataType) (text : String) :
    (c.overlay dataType key text).1.Fits dataType := applySegments_fits _ _ h 0

theorem fits_canonical : c.Fits (DataType.canonical dataType) ↔ c.Fits dataType := by
  constructor
  · exact fun h => ⟨by simpa using h.shape, by simpa using h.tokens⟩
  · exact fun h => ⟨by simpa using h.shape, by simpa using h.tokens⟩

end Composite

/-! ## Defaults of a catalog -/

/-- An option whose default fits its data type. -/
def OptionSpec.Fits (o : OptionSpec) : Prop := ∀ v ∈ o.fallback, v.Fits o.dataType

/-- A type whose defaults fit. -/
def Descriptor.OptionsFit (d : Descriptor) : Prop := ∀ o ∈ d.options, o.Fits

/-- A catalog of types whose defaults fit. -/
def Catalog.OptionsFit (c : Catalog) : Prop := ∀ t ∈ c.types, t.OptionsFit

namespace Value

variable {dataType : String}

theorem setFields_fits {entries : List (Document.Node × Document.Node)} :
    ∀ {c c' : Composite} (_ : c.Fits dataType) (_ : setFields dataType c entries = .ok c'),
      c'.Fits dataType := by
  induction entries with
  | nil =>
    intro c c' hc h
    cases h
    exact hc
  | cons e rest ih =>
    intro c c' hc h
    obtain ⟨k, v⟩ := e
    unfold setFields at h
    split at h
    · cases h
    · split at h
      · cases h
      · split at h
        · exact ih hc h
        · split at h
          · cases h
          · next tok htok => exact ih (hc.set htok k.text) h

theorem compositeOf_fits {shape : Shape} {c : Composite} (hshape : Shape.ofType? dataType = some shape)
    (h : compositeOf dataType shape n = .ok c) : c.Fits dataType := by
  have hempty := Composite.fits_empty hshape
  unfold compositeOf at h
  split at h
  · split at h
    · split at h
      · next tok htok =>
        cases h
        exact hempty.set htok "val"
      · cases h
    · cases h
  · exact setFields_fits hempty h
  · cases h

theorem ofNode?_fits {v : Option Value} (h : ofNode? dataType n = .ok v) : ∀ w ∈ v, w.Fits dataType := by
  intro w hw
  cases hw
  unfold ofNode? at h
  split at h
  · cases h
  · split at h
    · next shape hshape =>
      cases hc : compositeOf dataType shape n with
      | error e =>
        rw [hc] at h
        cases h
      | ok c =>
        rw [hc] at h
        cases h
        exact compositeOf_fits hshape hc
    · next hshape =>
      split at h
      · split at h
        · next hscalar =>
          cases h
          exact ⟨hshape, hscalar⟩
        · cases h
      · cases h
        trivial

end Value

namespace Descriptor

variable {d : Descriptor}

theorem optionsOf_fits {entries : List OptionEntry} :
    ∀ {seen : List String} {options : List OptionSpec} (_ : optionsOf seen entries = .ok options),
      ∀ o ∈ options, o.Fits := by
  induction entries with
  | nil =>
    intro seen options h
    cases h
    simp
  | cons e rest ih =>
    intro seen options h
    unfold optionsOf at h
    split at h
    · cases h
    · split at h
      · cases h
      · split at h
        · cases h
        · next fallback hfallback =>
          split at h
          · cases h
          · next os hrest =>
            cases h
            refine forall_mem_cons.mpr ⟨?_, ih hrest⟩
            intro v hv
            unfold fallbackOf at hfallback
            split at hfallback
            · cases hfallback
              cases hv
            · exact Value.ofNode?_fits hfallback v hv

/-- A type from an entry has the options that the entry describes, a type for them if there are any, and ports
that passed their check. -/
theorem ofEntry_eq_ok (h : ofEntry t = .ok d) :
    optionsOf [] t.options = .ok d.options ∧ (t.options ≠ [] → d.optionsSymbol ≠ "") ∧
      Port.check t.inputs = .ok d.inputs ∧ Port.check t.outputs = .ok d.outputs ∧
      d.name ≠ "" ∧ d.symbol ≠ "" := by
  unfold ofEntry at h
  split at h
  · cases h
  · next hname =>
    split at h
    · cases h
    · next hsymbol =>
      split at h
      · cases h
      · next hoptionsSymbol =>
        split at h
        · cases h
        · next hinputs =>
          split at h
          · cases h
          · next houtputs =>
            split at h
            · cases h
            · next options hoptions =>
              cases h
              refine ⟨hoptions, fun hne hempty => hoptionsSymbol ?_, hinputs, houtputs, hname, hsymbol⟩
              have hempty : t.optionsSymbol = "" := hempty
              simp [hne, hempty]

theorem ofEntry_fits (h : ofEntry t = .ok d) : d.OptionsFit :=
  optionsOf_fits (ofEntry_eq_ok h).1

theorem ofNode_eq_ok {anchored : List (Nat × Document.Node)} (h : ofNode anchored n = .ok d) :
    ∃ t, TypeEntry.ofNode anchored n = .ok t ∧ ofEntry t = .ok d := by
  unfold ofNode at h
  split at h
  · split at h
    · cases h
    · next t ht => exact ⟨t, ht, h⟩
  · cases h

end Descriptor

namespace Catalog

/-- The catalog that some documents give, one after the other; each comes with its source. What was added
before a document failed stays. -/
def ofDocuments (documents : List (String × String)) : Catalog :=
  documents.foldl (fun c d => (c.load d.1 d.2).1) {}

section Loaded

-- What holds of each type that a node gives holds of all types of a catalog that was loaded.
variable {P : Descriptor → Prop} (hP : ∀ anchored n d, Descriptor.ofNode anchored n = .ok d → P d) {c : Catalog}
include hP

theorem loadEntry_forall (hc : ∀ t ∈ c.types, P t) (source : String)
    (anchored : List (Nat × Document.Node)) (n : Document.Node) :
    ∀ t ∈ (c.loadEntry source anchored n).types, P t := by
  unfold loadEntry
  dsimp only
  split
  · exact hc
  · next d hd =>
    split
    · exact hc
    · next c' hadd =>
      obtain ⟨-, rfl⟩ := add_ok hadd
      exact forall_mem_append.mpr ⟨hc, by simpa using hP anchored n d hd⟩

theorem loadArrays_forall (hc : ∀ t ∈ c.types, P t) (source : String)
    (anchored : List (Nat × Document.Node)) (entries : List (Document.Node × Document.Node)) :
    ∀ t ∈ (c.loadArrays source anchored entries).1.types, P t := by
  fun_induction loadArrays c source anchored entries with
  | case1 c => exact hc
  | case2 c _ _ _ items rest ih =>
    refine ih (List.foldlRecOn (motive := fun c : Catalog => ∀ t ∈ c.types, P t) items _ hc fun c hc n _ => ?_)
    exact loadEntry_forall hP hc source anchored n
  | case3 c => exact hc

theorem load_forall (hc : ∀ t ∈ c.types, P t) (text source : String) :
    ∀ t ∈ (c.load text source).1.types, P t := by
  unfold load
  split
  · exact hc
  · exact hc
  · exact loadArrays_forall hP hc source _ _
  · exact hc

theorem ofDocuments_forall_ofNode (documents : List (String × String)) :
    ∀ t ∈ (ofDocuments documents).types, P t :=
  List.foldlRecOn (motive := fun c : Catalog => ∀ t ∈ c.types, P t) documents _ (fun _ ht => nomatch ht)
    fun _ hc d _ => load_forall hP hc d.1 d.2

end Loaded

theorem ofDocuments_forall {P : Descriptor → Prop} (hP : ∀ t d, Descriptor.ofEntry t = .ok d → P d)
    (documents : List (String × String)) : ∀ t ∈ (ofDocuments documents).types, P t := by
  refine ofDocuments_forall_ofNode (fun anchored n d hd => ?_) documents
  obtain ⟨t, -, ht⟩ := Descriptor.ofNode_eq_ok hd
  exact hP t d ht

/-- The defaults in a catalog that was loaded fit their data types. -/
theorem ofDocuments_fits (documents : List (String × String)) : (ofDocuments documents).OptionsFit :=
  ofDocuments_forall (fun _ _ => Descriptor.ofEntry_fits) documents

end Catalog

/-! ## Values of nodes -/

/-- The value of a node for an option of its type: it has the option's name and data type, and fits. -/
structure OptionSpec.Resolved (spec : OptionSpec) (o : ResolvedOption) : Prop where
  name : o.name = spec.name
  dataType : o.dataType = spec.dataType
  fits : ∀ v ∈ o.value, v.Fits spec.dataType

/-- A setting gives a value that fits. A token that is refused leaves its field alone, a text that is
refused leaves the default. -/
theorem OptionSpec.encode_fits (h : o.Fits) (key raw : String) :
    ∀ v ∈ (o.encode key raw).1, v.Fits o.dataType := by
  intro v hv
  unfold encode at hv
  simp only [Shape.ofType?_canonical, Numeral.isScalar_canonical] at hv
  split at hv
  · next shape hshape =>
    cases hv
    have hbase : (o.baseComposite shape).Fits o.dataType := by
      unfold baseComposite
      split
      · next c hfallback => exact h _ hfallback
      · exact Composite.fits_empty hshape
    exact Composite.fits_canonical.mp
      (Composite.overlay_fits (Composite.fits_canonical.mpr hbase) _)
  · next hshape =>
    split at hv
    · next hscalar =>
      cases hv
      exact ⟨hshape, hscalar⟩
    · exact h v hv

theorem forall₂_set {α β : Type} {R : α → β → Prop} {xs : List α} {ys : List β}
    (h : List.Forall₂ R xs ys) {x : α} {y : β} (hR : R x y) :
    ∀ {i : Nat} (_ : xs[i]? = some x), List.Forall₂ R xs (ys.set i y) := by
  induction h with
  | nil => exact fun hx => nomatch hx
  | cons hab hrest ih =>
    intro i hx
    cases i with
    | zero =>
      cases hx
      exact .cons hR hrest
    | succ i => exact .cons hab (ih hx)

theorem getElem?_of_forall₂ {α β : Type} {R : α → β → Prop} {xs : List α} {ys : List β}
    (h : List.Forall₂ R xs ys) {i : Nat} {x : α} (hx : xs[i]? = some x) :
    ∃ y, ys[i]? = some y ∧ R x y := by
  obtain ⟨hi, rfl⟩ := List.getElem?_eq_some_iff.mp hx
  have hj : i < ys.length := h.length_eq ▸ hi
  exact ⟨ys[i], getElem?_eq_getElem hj, h.get hi hj⟩

namespace Descriptor

variable {d : Descriptor} {file : String}

theorem overlay_fits (hd : d.OptionsFit) :
    ∀ {values values' : List ResolvedOption} {warnings warnings' : List Diagnostic}
      (_ : List.Forall₂ OptionSpec.Resolved d.options values)
      (_ : d.overlay file values warnings settings = (warnings', .ok values')),
      List.Forall₂ OptionSpec.Resolved d.options values' := by
  induction settings with
  | nil =>
    intro values values' warnings warnings' hvalues h
    cases h
    exact hvalues
  | cons m rest ih =>
    intro values values' warnings warnings' hvalues h
    unfold overlay at h
    split at h
    · cases h
    · split at h
      · cases h
      · next o ho =>
        have hfits := OptionSpec.encode_fits (hd o (mem_of_getElem? ho)) m.key m.value
        exact ih (forall₂_set hvalues ⟨rfl, rfl, hfits⟩ ho) h

/-- The values of a node are those of the options of its type, in order, and fit. -/
theorem encode_fits (hd : d.OptionsFit) {values : List ResolvedOption} {warnings : List Diagnostic}
    (h : d.encode file settings = (warnings, .ok values)) :
    List.Forall₂ OptionSpec.Resolved d.options values := by
  refine overlay_fits hd ?_ h
  unfold defaults
  rw [forall₂_map_right_iff, forall₂_same]
  exact fun o ho => ⟨rfl, rfl, hd o ho⟩

end Descriptor

/-! ## Units -/

namespace FlowUnit

variable {u : FlowUnit}

/-- The values of a node, if there are any, are those of the options of its type. -/
def RowFits (b : Binding) (row : Option (List ResolvedOption)) : Prop :=
  ∀ values ∈ row, List.Forall₂ OptionSpec.Resolved b.type.options values

theorem encodeFrom_fits {bs : List Binding} (hbs : ∀ b ∈ bs, b.type.OptionsFit) :
    ∀ {i : Nat} (_ : (u.encodeFrom i bs).fault = none),
      List.Forall₂ RowFits bs (u.encodeFrom i bs).options := by
  induction bs with
  | nil => exact fun _ => .nil
  | cons b rest ih =>
    intro i h
    obtain ⟨hb, hrest⟩ := forall_mem_cons.mp hbs
    unfold encodeFrom at h ⊢
    split at h
    · rw [if_pos ‹_›]
      refine .cons (fun values hvalues => ?_) (ih hrest h)
      cases hvalues
    · rw [if_neg ‹_›]
      split at h
      · cases h
      · next warnings values henc =>
        refine .cons (fun vs hvs => ?_) (ih hrest h)
        cases hvs
        exact Descriptor.encode_fits hb henc

/-- The value of an option of a node fits, whether it comes from the node or from the type. -/
theorem optionValue_fits {b : Binding} {node i : Nat} {spec : OptionSpec}
    (hrows : List.Forall₂ RowFits u.bindings u.options) (hb : u.bindings[node]? = some b)
    (hspec : b.type.options[i]? = some spec) (hfits : spec.Fits) :
    ∀ v ∈ u.optionValue node i spec.fallback, v.Fits spec.dataType := by
  obtain ⟨row, hrow, hrowFits⟩ := getElem?_of_forall₂ hrows hb
  unfold optionValue
  split
  · next o ho =>
    obtain ⟨values, hvalues, hat⟩ := Option.bind_eq_some_iff.mp ho
    have hjoin : row = some values := by simpa [valuesAt, hrow] using hvalues
    obtain ⟨o', ho', hres⟩ := getElem?_of_forall₂ (hrowFits values hjoin) hspec
    obtain rfl : o = o' := Option.some.inj (hat.symm.trans ho')
    exact hres.fits
  · exact hfits

/-- The default of an exported option is the value that the inner option has. -/
theorem exportedOption?_fits (htypes : ∀ b ∈ u.bindings, b.type.OptionsFit)
    (hrows : List.Forall₂ RowFits u.bindings u.options) {e : Graph.ExportedOption}
    (h : u.exportedOption? e = some o) : o.Fits := by
  unfold exportedOption? at h
  dsimp only at h
  split at h
  · cases h
  · next i _ =>
    split at h
    · cases h
    · next spec hspec =>
      cases h
      cases hb : u.bindings[e.node]? with
      | none => simp [Graph.typeAt, types, hb, Descriptor.unknown] at hspec
      | some b =>
        have hspec : b.type.options[i]? = some spec := by
          simpa [Graph.typeAt, types, hb] using hspec
        have hfits := htypes b (mem_of_getElem? hb) spec (mem_of_getElem? hspec)
        exact optionValue_fits hrows hb hspec hfits

theorem describe_fits (htypes : ∀ b ∈ u.bindings, b.type.OptionsFit)
    (hrows : List.Forall₂ RowFits u.bindings u.options) : u.describe.OptionsFit := by
  intro o ho
  obtain ⟨e, -, he⟩ := mem_filterMap.mp ho
  exact exportedOption?_fits htypes hrows he

end FlowUnit

end FlowCompiler
