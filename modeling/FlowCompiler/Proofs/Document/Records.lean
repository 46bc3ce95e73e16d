import FlowCompiler.Document.Decode

/-!
# What holds of records that are read

`Decode.Yields d P` says that whatever reading gives has the property `P`; a reading that stops gives nothing. A
property of a record that every field keeps (`RecordField.Keeps`) holds of the record that a node gives, whatever
its entries, merge keys and aliases are (`Node.asRecord_yields`). Whole numbers that are read are below the bound
of words (`Node.asInt_yields`).
-/

namespace FlowCompiler.Document

namespace Decode

variable {α β : Type} {P : α → Prop} {Q : β → Prop}

/-- Whatever is read has the property `P`. -/
def Yields (d : Decode α) (P : α → Prop) : Prop :=
  ∀ scope progress a progress', d scope progress = .ok (a, progress') → P a

theorem yields_pure {a : α} (h : P a) : Yields (pure a) P := by
  intro scope progress b progress' hb
  cases hb
  exact h

theorem yields_stop (f : Failure) : Yields (stop f) P := by
  intro scope progress a progress' ha
  cases ha

theorem Yields.bind {x : Decode α} {f : α → Decode β} (hx : Yields x P) (hf : ∀ a, P a → Yields (f a) Q) :
    Yields (x >>= f) Q := by
  intro scope progress b progress' hb
  simp only [Bind.bind, ReaderT.bind, StateT.bind, Except.bind] at hb
  rcases hrun : x scope progress with e | ⟨a, progress₁⟩
  · rw [hrun] at hb
    cases hb
  · rw [hrun] at hb
    exact hf a (hx scope progress a progress₁ hrun) scope progress₁ b progress' hb

/-- A step whose result does not matter. -/
theorem yields_bind {x : Decode α} {f : α → Decode β} (hf : ∀ a, Yields (f a) Q) : Yields (x >>= f) Q :=
  Yields.bind (P := fun _ => True) (fun _ _ _ _ _ => trivial) fun a _ => hf a

theorem Yields.withReader {d : Decode α} (h : Yields d P) (f : Scope → Scope) : Yields (withReader f d) P :=
  fun scope progress a progress' ha => h (f scope) progress a progress' ha

theorem yields_mapM {γ : Type} {item : γ → Decode α} (hitem : ∀ c, Yields (item c) P) (cs : List γ) :
    Yields (cs.mapM item) fun as => ∀ a ∈ as, P a := by
  induction cs with
  | nil => exact yields_pure (List.forall_mem_nil P)
  | cons c cs ih =>
    rw [List.mapM_cons]
    refine (hitem c).bind fun a ha => ih.bind fun as has => yields_pure ?_
    exact List.forall_mem_cons.mpr ⟨ha, has⟩

theorem run_ok {d : Decode α} {anchored : List (Nat × Node)} {a : α} (hd : Yields d P)
    (h : d.run anchored = .ok a) : P a := by
  unfold run at h
  split at h
  · cases h
  · next b progress hrun =>
    split at h
    · cases h
      exact hd _ _ _ _ hrun
    · cases h

end Decode

open Decode

/-! ## Nodes -/

namespace Node

variable {α : Type} {P : α → Prop}

theorem follow_yields {read : Node → Decode α} (hread : ∀ n, (read n).Yields P) (n : Node) :
    (n.follow read).Yields P := by
  refine yields_bind fun _ => ?_
  split
  · refine yields_bind fun scope => ?_
    split
    · exact yields_stop _
    · split
      · exact yields_stop _
      · exact (yields_bind fun _ => hread _).withReader _
  · exact hread n

theorem neg_wordBound_lt : -(Number.wordBound : Int) < Number.wordBound := by decide

theorem wholeNumber?_lt {r : Reading} {i : Int} (h : wholeNumber? r = some i) : i < Number.wordBound := by
  unfold wholeNumber? at h
  split at h
  · split at h
    · cases h
      assumption
    · cases h
  · dsimp only at h
    split at h
    · cases h
      exact neg_wordBound_lt
    · split at h
      · cases h
        assumption
      · split at h
        · cases h
          exact neg_wordBound_lt
        · cases h
  · cases h
    exact neg_wordBound_lt
  · cases h

theorem asInt_yields (into : String) (n : Node) :
    (n.asInt into).Yields fun o => ∀ i ∈ o, i < (Number.wordBound : Int) := by
  have hnone : ∀ i ∈ (none : Option Int), i < (Number.wordBound : Int) := by simp
  refine follow_yields (fun n => ?_) n
  split
  · refine yields_bind fun r => ?_
    split
    · exact yields_pure hnone
    · split
      · next i hi =>
        refine yields_pure fun j hj => ?_
        cases hj
        exact wholeNumber?_lt hi
      · exact yields_bind fun _ => yields_pure hnone
  · exact yields_bind fun _ => yields_pure hnone

/-- Items that have a property give a list of such items. -/
theorem asList_yields {into : String} {item : Node → Decode (Option α)}
    (hitem : ∀ n, (item n).Yields fun o => ∀ a ∈ o, P a) (n : Node) :
    (n.asList into item).Yields fun o => ∀ as ∈ o, ∀ a ∈ as, P a := by
  have hnone : ∀ as ∈ (none : Option (List α)), ∀ a ∈ as, P a := by simp
  refine follow_yields (fun n => ?_) n
  split
  · refine (yields_mapM hitem _).bind fun os hos => yields_pure fun as has a ha => ?_
    cases has
    obtain ⟨o, ho, hoa⟩ := List.mem_filterMap.mp ha
    exact hos o ho a hoa
  · refine yields_bind fun r => ?_
    split
    · exact yields_pure (by simp)
    · exact yields_bind fun _ => yields_pure hnone
  · exact yields_bind fun _ => yields_pure hnone

end Node

/-! ## Records -/

section Records

variable {σ : Type} {I : σ → Prop}

/-- Reading a field keeps a property of the record. -/
def RecordField.Keeps (I : σ → Prop) (f : RecordField σ) : Prop := ∀ n r, I r → (f.read n r).Yields I

namespace RecordField

theorem text_keeps {key : String} {set : String → σ → σ} (hset : ∀ s r, I r → I (set s r)) :
    (text key set).Keeps I := by
  intro n r hr
  refine yields_bind fun o => ?_
  split
  · exact yields_pure (hset _ _ hr)
  · exact yields_pure hr

theorem int_keeps {key : String} {set : Int → σ → σ}
    (hset : ∀ i r, i < (Number.wordBound : Int) → I r → I (set i r)) : (int key set).Keeps I := by
  intro n r hr
  refine (n.asInt_yields "int").bind fun o ho => ?_
  split
  · next i => exact yields_pure (hset i r (ho i rfl) hr)
  · exact yields_pure hr

theorem list_keeps {α : Type} {P : α → Prop} {key into : String} {item : Node → Decode (Option α)}
    {set : List α → σ → σ} (hitem : ∀ n, (item n).Yields fun o => ∀ a ∈ o, P a)
    (hset : ∀ as r, (∀ a ∈ as, P a) → I r → I (set as r)) : (list key into item set).Keeps I := by
  intro n r hr
  refine (n.asList_yields hitem).bind fun o ho => ?_
  split
  · next as => exact yields_pure (hset as r (ho as rfl) hr)
  · exact yields_pure hr

end RecordField

variable {record : String} {fields : List (RecordField σ)} (hfields : ∀ f ∈ fields, f.Keeps I)
include hfields

theorem readEntries_yields {done : List String} {entries : List (Node × Node)} {p : Partial σ}
    (hp : I p.record) : (readEntries record fields done entries p).Yields fun q => I q.record := by
  induction entries generalizing done p with
  | nil => exact yields_pure hp
  | cons e rest ih =>
    unfold readEntries
    split
    · exact ih hp
    · refine yields_bind fun o => ?_
      split
      · exact ih hp
      · split
        · exact ih hp
        · dsimp only
          split
          · exact ih hp
          · next field hfield =>
            split
            · exact yields_bind fun _ => ih hp
            · refine Decode.Yields.bind (hfields field (List.mem_of_find?_eq_some hfield) _ _ hp) fun r hr => ?_
              exact ih hr

/-- The induction is on how deep merge keys are followed, for a mapping and for the mappings it takes over. -/
theorem readMapping_yields (fuel : Nat) :
    (∀ entries (p : Partial σ), I p.record →
      (readMapping record fields fuel entries p).Yields fun q => I q.record) ∧
    ∀ nodes (p : Partial σ), I p.record → (readMerged record fields fuel nodes p).Yields fun q => I q.record := by
  induction fuel with
  | zero =>
    refine ⟨fun entries p hp => ?_, fun nodes p hp => ?_⟩
    · unfold readMapping
      exact yields_pure hp
    · unfold readMerged
      exact yields_pure hp
  | succ fuel ih =>
    obtain ⟨ihMapping, ihMerged⟩ := ih
    constructor
    · intro entries p hp
      unfold readMapping
      split
      · refine (readEntries_yields hfields hp).bind fun q hq => ?_
        split
        · exact yields_pure hq
        · split
          · exact ihMerged _ q hq
          · refine yields_bind fun given => ?_
            exact Decode.Yields.bind (ihMerged _ { q with given := some given } hq) fun m hm => yields_pure hm
      · exact yields_bind fun _ => yields_pure hp
    · intro nodes p hp
      cases nodes with
      | nil =>
        unfold readMerged
        exact yields_pure hp
      | cons n nodes =>
        unfold readMerged
        refine yields_bind fun scope => ?_
        dsimp only
        split
        · refine (Node.follow_yields (fun _ => ihMapping _ p hp) n).bind fun q hq => ?_
          exact ihMerged nodes q hq
        · exact yields_stop _

theorem Node.asRecord_yields {initial : σ} (hinitial : I initial) (n : Node) :
    (n.asRecord record fields initial).Yields fun o => ∀ r ∈ o, I r := by
  have hnone : ∀ r ∈ (none : Option σ), I r := by simp
  refine follow_yields (fun n => ?_) n
  split
  · split
    · refine Decode.Yields.bind ((readMapping_yields hfields mergeDepth).1 _ _ hinitial) fun p hp => ?_
      refine yields_pure fun r hr => ?_
      cases hr
      exact hp
    · exact yields_bind fun _ => yields_pure hnone
  · refine yields_bind fun r => ?_
    split
    · exact yields_pure hnone
    · exact yields_bind fun _ => yields_pure hnone
  · exact yields_bind fun _ => yields_pure hnone

end Records

end FlowCompiler.Document
