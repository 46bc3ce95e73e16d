import FlowCompiler.Compile.Flow
import FlowCompiler.Proofs.Slots.Ends

/-!
# What is wrong in one unit

Rows of slots, types of nodes and values of options are computed for a unit on its own. What is wrong with them is at the
place of the connection, export, option, node or setting that it is wrong with. These places have a property `P` if all
places that are given have it, and the cause is one that the unit has by itself (`Cause.Local`).
-/

namespace FlowCompiler

open List

/-- Whether a diagnostic is at a place of a file that has a property. -/
structure Diagnostic.At (file : String) (P : Position → Prop) (d : Diagnostic) : Prop where
  same : d.file = file
  place : P d.pos

/-- Whether a cause ends a compilation. That a declared type cannot be registered is none of these causes. -/
structure Cause.Final (c : Cause) : Prop where
  fatal : c.kind.recoverable = false
  registered : ∀ name e, c ≠ .notRegistered name e

/-- Whether a cause ends a compilation and has nothing to do with other files. -/
structure Cause.Local (c : Cause) : Prop extends c.Final where
  acyclic : c.kind ≠ .declarationCycle

/-! ## Rows -/

theorem Port.Lacks.isLocal {p : Port} {typeName : String} {index : Option Nat} {e : Cause}
    (h : p.Lacks typeName index e) : e.Local := by
  cases h <;> exact ⟨⟨rfl, nofun⟩, nofun⟩

theorem Descriptor.Missing.isLocal {d : Descriptor} {dir : Direction} {r : PortRef} {e : Cause}
    (h : d.Missing dir r e) : e.Local := by
  cases h with
  | port => exact ⟨⟨rfl, nofun⟩, nofun⟩
  | element _ hlacks => exact hlacks.isLocal

namespace Graph

variable {g : Graph} {types : List Descriptor} {pos : Position} {e : Cause}

theorem rowsOf_fault {cs : List Connection} (h : g.rowsOf types cs = .error (pos, e)) :
    (∃ c ∈ cs, c.pos = pos) ∧ e.Local := by
  obtain ⟨before, c, after, rfl, -, hc, rfl⟩ := rowsOf_eq_error_iff.mp h
  refine ⟨⟨c, mem_append_right _ mem_cons_self, rfl⟩, ?_⟩
  rcases connectionRow_eq_error_iff.mp hc with hmissing | ⟨-, hmissing⟩ | _
  · exact hmissing.isLocal
  · exact hmissing.isLocal
  · exact ⟨⟨rfl, nofun⟩, nofun⟩

theorem connectionRows_fault (h : g.connectionRows types = .error (pos, e)) :
    (∃ c ∈ g.connections, c.pos = pos) ∧ e.Local := by
  unfold connectionRows at h
  split at h
  · next hrows =>
    cases h
    exact rowsOf_fault hrows
  · cases h

theorem exportRow_local {dir : Direction} {x : ExportedPort} (h : g.exportRow types dir x = .error e) : e.Local := by
  unfold exportRow at h
  split at h
  · cases h
    exact ⟨⟨rfl, nofun⟩, nofun⟩
  · split at h
    · cases h
    · split at h
      · cases h
        exact ⟨⟨rfl, nofun⟩, nofun⟩
      · cases h

theorem exportRows_fault {dir : Direction} (h : g.exportRows types dir = .error (pos, e)) :
    (∃ x ∈ g.exports dir, x.pos = pos) ∧ e.Local := by
  unfold exportRows at h
  generalize g.exports dir = xs at h ⊢
  induction xs with
  | nil => cases h
  | cons x xs ih =>
    unfold exportRowsOf at h
    split at h
    · next hrow =>
      cases h
      exact ⟨⟨x, mem_cons_self, rfl⟩, exportRow_local hrow⟩
    · split at h
      · next hrest =>
        cases h
        obtain ⟨⟨x', hx', hpos⟩, hlocal⟩ := ih hrest
        exact ⟨⟨x', mem_cons_of_mem _ hx', hpos⟩, hlocal⟩
      · cases h

theorem forwardingRows_fault {os : List ExportedOption} (h : (g.forwardingRows types os).2 = some (pos, e)) :
    (∃ o ∈ os, o.pos = pos) ∧ e.Local := by
  induction os with
  | nil => cases h
  | cons o os ih =>
    unfold forwardingRows at h
    dsimp only at h
    split at h
    · cases h
      exact ⟨⟨o, mem_cons_self, rfl⟩, ⟨rfl, nofun⟩, nofun⟩
    · obtain ⟨⟨o', ho', hpos⟩, hlocal⟩ := ih h
      exact ⟨⟨o', mem_cons_of_mem _ ho', hpos⟩, hlocal⟩

end Graph

/-! ## Settings -/

section Settings

variable {file : String} {P : Position → Prop}

theorem mergeDefaults_spots {pos : Position} {settings : List Meta} (texts : List String) (hpos : P pos)
    (hs : ∀ m ∈ settings, P m.pos) :
    (∀ w ∈ (mergeDefaults file pos settings texts).1, w.At file P ∧ w.kind = .malformedSuboption) ∧
      ∀ m ∈ (mergeDefaults file pos settings texts).2, P m.pos := by
  induction texts generalizing settings with
  | nil => exact ⟨forall_mem_nil _, hs⟩
  | cons text texts ih =>
    unfold mergeDefaults
    split
    · obtain ⟨hwarnings, hmerged⟩ := ih hs
      exact ⟨forall_mem_cons.mpr ⟨⟨⟨rfl, hpos⟩, rfl⟩, hwarnings⟩, hmerged⟩
    · split
      · exact ih hs
      · exact ih (forall_mem_append.mpr ⟨hs, forall_mem_singleton.mpr hpos⟩)

/-- What resolving a node warns of and fails with is at the places of the node, and so are the settings that it
gives. -/
theorem Config.resolve_spots (cfg : Config) (u : FlowUnit) {n : Graph.Node} (hpos : P n.pos)
    (hsettings : ∀ m ∈ n.settings, P m.pos) :
    (∀ w ∈ (cfg.resolve u n).1, w.At u.path P ∧ w.kind = .malformedSuboption) ∧
      (∀ d, (cfg.resolve u n).2 = .error d → d.At u.path P ∧ d.cause.Local) ∧
      ∀ b, (cfg.resolve u n).2 = .ok b → ∀ m ∈ b.settings, P m.pos := by
  unfold resolve
  split
  · refine ⟨forall_mem_nil _, ?_, ?_⟩
    · rintro d ⟨⟩
    · rintro b ⟨⟩
      exact hsettings
  · split
    · refine ⟨forall_mem_nil _, ?_, ?_⟩
      · rintro d ⟨⟩
        exact ⟨⟨rfl, hpos⟩, ⟨rfl, nofun⟩, nofun⟩
      · rintro b ⟨⟩
    · split
      · refine ⟨forall_mem_nil _, ?_, ?_⟩
        · rintro d ⟨⟩
          exact ⟨⟨rfl, hpos⟩, ⟨rfl, nofun⟩, nofun⟩
        · rintro b ⟨⟩
      · refine ⟨forall_mem_nil _, ?_, ?_⟩
        · rintro d ⟨⟩
          exact ⟨⟨rfl, hpos⟩, ⟨rfl, nofun⟩, nofun⟩
        · rintro b ⟨⟩
      · next preset _ =>
        obtain ⟨hwarnings, hmerged⟩ := mergeDefaults_spots preset.options hpos hsettings
        dsimp only
        split
        · refine ⟨hwarnings, ?_, ?_⟩
          · rintro d ⟨⟩
            exact ⟨⟨rfl, hpos⟩, ⟨rfl, nofun⟩, nofun⟩
          · rintro b ⟨⟩
        · refine ⟨hwarnings, ?_, ?_⟩
          · rintro d ⟨⟩
          · rintro b ⟨⟩
            exact hmerged

theorem Composite.applySegment_warning {dataType key : String} {explicit : Bool} {index : Nat} {c : Composite}
    {segment : List Char} {w : Cause} (h : (applySegment dataType key explicit index c segment).2 = some w) :
    w.kind = .malformedSuboption := by
  unfold applySegment at h
  split at h
  · next hsegment =>
    cases h
    unfold segmentTarget at hsegment
    grind [Cause.kind]
  · split at h
    · cases h
      rfl
    · split at h
      · cases h
      · split at h
        · cases h
          rfl
        · cases h

theorem OptionSpec.encode_warnings (o : OptionSpec) (key raw : String) :
    ∀ w ∈ (o.encode key raw).2, w.kind = .malformedSuboption := by
  have hsegments : ∀ (dataType : String) (explicit : Bool) (segments : List (List Char)) (index : Nat) (c : Composite),
      ∀ w ∈ (Composite.applySegments dataType key explicit index c segments).2, w.kind = .malformedSuboption := by
    intro dataType explicit segments
    induction segments with
    | nil => exact fun _ _ => forall_mem_nil _
    | cons segment rest ih =>
      intro index c
      refine forall_mem_append.mpr ⟨fun w hw => ?_, ih _ _⟩
      exact Composite.applySegment_warning (Option.mem_toList.mp hw)
  unfold encode
  dsimp only
  split
  · exact hsegments _ _ _ _ _
  · split
    · exact forall_mem_nil _
    · exact forall_mem_singleton.mpr rfl

theorem Descriptor.overlay_spots (t : Descriptor) (values : List ResolvedOption) {warnings : List Diagnostic}
    {ms : List Meta} (hms : ∀ m ∈ ms, P m.pos) (hw : ∀ w ∈ warnings, w.At file P ∧ w.kind = .malformedSuboption) :
    (∀ w ∈ (t.overlay file values warnings ms).1, w.At file P ∧ w.kind = .malformedSuboption) ∧
      ∀ d, (t.overlay file values warnings ms).2 = .error d → d.At file P ∧ d.cause.Local := by
  induction ms generalizing values warnings with
  | nil =>
    refine ⟨hw, ?_⟩
    rintro d ⟨⟩
  | cons m ms ih =>
    obtain ⟨hm, hms⟩ := forall_mem_cons.mp hms
    unfold overlay
    split
    · refine ⟨hw, ?_⟩
      rintro d ⟨⟩
      exact ⟨⟨rfl, hm⟩, ⟨rfl, nofun⟩, nofun⟩
    · split
      · refine ⟨hw, ?_⟩
        rintro d ⟨⟩
        exact ⟨⟨rfl, hm⟩, ⟨rfl, nofun⟩, nofun⟩
      · next o _ =>
        refine ih _ hms (forall_mem_append.mpr ⟨hw, fun w hmem => ?_⟩)
        obtain ⟨c, hc, rfl⟩ := mem_map.mp hmem
        exact ⟨⟨rfl, hm⟩, o.encode_warnings m.key m.value c hc⟩

theorem FlowUnit.encodeFrom_spots {u : FlowUnit} {i : Nat} {bs : List Binding}
    (hbs : ∀ b ∈ bs, ∀ m ∈ b.settings, P m.pos) :
    (∀ w ∈ (u.encodeFrom i bs).warnings, w.At u.path P ∧ w.kind = .malformedSuboption) ∧
      ∀ d, (u.encodeFrom i bs).fault = some d → d.At u.path P ∧ d.cause.Local := by
  induction bs generalizing i with
  | nil =>
    refine ⟨forall_mem_nil _, ?_⟩
    rintro d ⟨⟩
  | cons b bs ih =>
    obtain ⟨hb, hbs⟩ := forall_mem_cons.mp hbs
    have hnone : ∀ w ∈ ([] : List Diagnostic), w.At u.path P ∧ w.kind = .malformedSuboption := forall_mem_nil _
    have hencode := b.type.overlay_spots b.type.defaults hb hnone
    unfold encodeFrom
    split
    · exact ih hbs
    · split
      · next warnings d h =>
        rw [show b.type.overlay _ _ _ _ = _ from h] at hencode
        refine ⟨hencode.1, ?_⟩
        rintro e ⟨⟩
        exact hencode.2 d rfl
      · next warnings values h =>
        rw [show b.type.overlay _ _ _ _ = _ from h] at hencode
        obtain ⟨hwarnings, hfault⟩ := ih (i := i + 1) hbs
        exact ⟨forall_mem_append.mpr ⟨hencode.1, hwarnings⟩, hfault⟩

end Settings

end FlowCompiler
