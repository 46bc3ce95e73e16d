import FlowCompiler.Proofs.Document.Records
import FlowCompiler.Proofs.Options.Values

/-!
# Ports of loaded types

The ports of a type that a catalog document gives have distinct names and numbers that are words and not
negative (`Port.Checked`). Sorted by their first slots, each ends before the next one begins, unless its end is
beyond all words: then the sum wraps around, and the comparison says nothing. So the slots of two ports are
apart, counted without bound, exactly if no port but the last one reaches beyond the words
(`Port.Checked.pairwise_disjoint_iff`).
-/

namespace FlowCompiler

open List Document Number

variable {checked ports : List Port} {p : Port} {anchored : List (Nat × Node)} {seen : List String}
  {d : Descriptor}

theorem Number.isWord_iff {n : Int} : isWord n = true ↔ -(wordBound : Int) ≤ n ∧ n < wordBound := by
  simp [isWord]

/-- A number beyond the words, but by less than their count, wraps to a negative one. -/
theorem Number.wrap_neg {n : Int} (hle : (wordBound : Int) ≤ n) (hlt : n < wordCount) : wrap n < 0 := by
  unfold wordBound at hle
  unfold wordCount at hlt
  rw [wrap, wordCount, Int.bmod_def]
  split <;> omega

namespace Port

/-- The first slot after those of a port, counted without bound. -/
def stop (p : Port) : Int := p.base + p.width

/-- Whether two ports have no slot in common, counted without bound. -/
def Disjoint (p q : Port) : Prop := p.stop ≤ q.base ∨ q.stop ≤ p.base

instance : DecidableRel Disjoint := fun p q =>
  inferInstanceAs (Decidable (p.stop ≤ q.base ∨ q.stop ≤ p.base))

/-- Whether the numbers of a port are words, and its slots are not negative. -/
structure Placed (p : Port) : Prop where
  nonneg : 0 ≤ p.base
  base_lt : p.base < wordBound
  width_lt : p.width < wordBound

/-- Ports that are told apart by their names. -/
structure Listed (ports : List Port) : Prop where
  names : (ports.map (·.name)).Nodup
  placed : ∀ p ∈ ports, p.Placed

instance : Std.Symm Disjoint := ⟨fun _ _ => Or.symm⟩

theorem base_lt_stop (p : Port) : p.base < p.stop := by
  have := p.width_pos
  unfold stop
  omega

theorem width_lt_of_size (h : p.size < wordBound) : p.width < wordBound := by
  unfold width
  split
  · exact h
  · decide

theorem Placed.stop_le (h : p.Placed) : p.stop ≤ wordCount := by
  have hbase := h.base_lt
  have hwidth := h.width_lt
  unfold stop
  simp only [wordBound, wordCount] at *
  omega

/-! ## The check -/

/-- Ports with names of their own. -/
structure Named (ports : List Port) : Prop where
  named : ∀ p ∈ ports, p.name ≠ ""
  distinct : (ports.map (·.name)).Nodup

/-- Ports with names of their own and without negative numbers. -/
structure Proper (ports : List Port) : Prop extends Named ports where
  nonneg : ∀ p ∈ ports, 0 ≤ p.size ∧ 0 ≤ p.base

theorem proper_cons_iff :
    Proper (p :: ports) ↔
      p.name ≠ "" ∧ (∀ q ∈ ports, q.name ≠ p.name) ∧ (0 ≤ p.size ∧ 0 ≤ p.base) ∧ Proper ports := by
  have hfresh : p.name ∉ ports.map (·.name) ↔ ∀ q ∈ ports, q.name ≠ p.name := by simp
  constructor
  · rintro ⟨⟨hnamed, hdistinct⟩, hnonneg⟩
    obtain ⟨hp, hnamed⟩ := forall_mem_cons.mp hnamed
    obtain ⟨hnew, hdistinct⟩ := nodup_cons.mp hdistinct
    obtain ⟨hpos, hnonneg⟩ := forall_mem_cons.mp hnonneg
    exact ⟨hp, hfresh.mp hnew, hpos, ⟨hnamed, hdistinct⟩, hnonneg⟩
  · rintro ⟨hp, hnew, hpos, ⟨hnamed, hdistinct⟩, hnonneg⟩
    exact ⟨⟨forall_mem_cons.mpr ⟨hp, hnamed⟩, nodup_cons.mpr ⟨hfresh.mpr hnew, hdistinct⟩⟩,
      forall_mem_cons.mpr ⟨hpos, hnonneg⟩⟩

theorem checkEach_cons_eq_ok_iff :
    checkEach seen (p :: ports) = .ok () ↔
      p.name ≠ "" ∧ p.name ∉ seen ∧ (0 ≤ p.size ∧ 0 ≤ p.base) ∧ checkEach (p.name :: seen) ports = .ok () := by
  simp only [checkEach, contains_iff_mem]
  split
  · next hempty => simp [hempty]
  · next hnamed =>
    split
    · next hseen => simp [hseen]
    · next hnew =>
      split
      · next hneg => exact iff_of_false (by simp) fun h => by omega
      · next hpos =>
        have hpos : 0 ≤ p.size ∧ 0 ≤ p.base := by omega
        simp only [hnamed, hnew, hpos, ne_eq, not_false_eq_true, and_self, true_and]

/-- Names are compared with those before them, and with `seen`. -/
theorem checkEach_eq_ok_iff : checkEach seen ports = .ok () ↔ Proper ports ∧ ∀ p ∈ ports, p.name ∉ seen := by
  induction ports generalizing seen with
  | nil => exact iff_of_true rfl ⟨⟨⟨forall_mem_nil _, nodup_nil⟩, forall_mem_nil _⟩, forall_mem_nil _⟩
  | cons p ports ih =>
    rw [checkEach_cons_eq_ok_iff, ih, proper_cons_iff, forall_mem_cons]
    simp only [mem_cons, not_or, forall_and]
    grind

theorem overlap?_eq_none_iff : overlap? ports = none ↔ ports.IsChain fun p q => wrap p.stop ≤ q.base := by
  fun_induction overlap? ports with
  | case1 p q rest hlt =>
    rw [isChain_cons_cons]
    exact iff_of_false (by simp) fun h => Int.not_le.mpr hlt h.1
  | case2 p q rest hle ih =>
    rw [ih, isChain_cons_cons]
    exact (and_iff_right (Int.not_lt.mp hle)).symm
  | case3 ports hshort =>
    rcases ports with _ | ⟨p, _ | ⟨q, rest⟩⟩
    · exact iff_of_true rfl .nil
    · exact iff_of_true rfl (.singleton p)
    · exact (hshort p q rest rfl).elim

theorem check_eq_ok_iff :
    check ports = .ok checked ↔
      checked = ports ∧ Proper ports ∧ (byBase ports).IsChain fun p q => wrap p.stop ≤ q.base := by
  have heach : checkEach [] ports = .ok () ↔ Proper ports := by simp [checkEach_eq_ok_iff]
  rw [← heach, ← overlap?_eq_none_iff]
  unfold check
  cases checkEach [] ports with
  | error f => simp
  | ok u =>
    cases overlap? (byBase ports) with
    | some pair => simp
    | none => simp [eq_comm]

theorem mem_byBase : p ∈ byBase ports ↔ p ∈ ports := mem_mergeSort

theorem pairwise_byBase (ports : List Port) : (byBase ports).Pairwise fun p q => p.base ≤ q.base := by
  have hsorted : (byBase ports).Pairwise fun p q => decide (p.base ≤ q.base) = true := by
    refine pairwise_mergeSort ?_ ?_ ports
    · intro p q r hpq hqr
      rw [decide_eq_true_eq] at hpq hqr ⊢
      omega
    · intro p q
      rw [Bool.or_eq_true, decide_eq_true_eq, decide_eq_true_eq]
      omega
  simpa only [decide_eq_true_eq] using hsorted

/-- Whether a port does not begin after another one, and ends before it if its end is a word. -/
def Before (p q : Port) : Prop := p.base ≤ q.base ∧ (p.stop < wordBound → p.stop ≤ q.base)

/-- An end that is no word wraps to a negative one, which is below all first slots. -/
theorem Placed.wrap_stop_le_iff {q : Port} (hp : p.Placed) (hq : q.Placed) :
    wrap p.stop ≤ q.base ↔ (p.stop < wordBound → p.stop ≤ q.base) := by
  have hbase := hp.nonneg
  have hlt := p.base_lt_stop
  by_cases hword : p.stop < wordBound
  · have hwrap : wrap p.stop = p.stop := wrap_of_isWord (isWord_iff.mpr (by omega))
    rw [hwrap]
    exact ⟨fun h _ => h, fun h => h hword⟩
  · have hneg : wrap p.stop < 0 := by
      refine wrap_neg (Int.not_lt.mp hword) ?_
      have hbase := hp.base_lt
      have hwidth := hp.width_lt
      unfold stop
      simp only [wordBound, wordCount] at *
      omega
    have hnonneg := hq.nonneg
    exact iff_of_true (by omega) fun h => absurd h hword

/-- What neighbours in the order of first slots are checked for holds of all pairs. -/
theorem isChain_iff_pairwise_before (hplaced : ∀ p ∈ ports, p.Placed)
    (hsorted : ports.Pairwise fun p q => p.base ≤ q.base) :
    (ports.IsChain fun p q => wrap p.stop ≤ q.base) ↔ ports.Pairwise Before := by
  constructor
  · intro hchain
    induction ports with
    | nil => exact .nil
    | cons p ports ih =>
      obtain ⟨hfirst, hsorted⟩ := pairwise_cons.mp hsorted
      obtain ⟨hp, hplaced⟩ := forall_mem_cons.mp hplaced
      refine pairwise_cons.mpr ⟨fun q hq => ⟨hfirst q hq, fun hstop => ?_⟩, ih hplaced hsorted hchain.tail⟩
      -- The next port begins where `p` has ended, and `q` does not begin before that one.
      cases ports with
      | nil => cases hq
      | cons next ports =>
        have hnext : p.stop ≤ next.base :=
          (hp.wrap_stop_le_iff (hplaced next mem_cons_self)).mp (isChain_cons_cons.mp hchain).1 hstop
        rcases mem_cons.mp hq with rfl | hq
        · exact hnext
        · exact hnext.trans ((pairwise_cons.mp hsorted).1 q hq)
  · intro hbefore
    refine List.Pairwise.isChain (hbefore.imp_of_mem fun {p q} hp hq hpq => ?_)
    exact ((hplaced p hp).wrap_stop_le_iff (hplaced q hq)).mpr hpq.2

theorem Proper.placed (h : Proper ports) (hwords : ∀ p ∈ ports, p.size < wordBound ∧ p.base < wordBound) :
    ∀ p ∈ ports, p.Placed := fun p hp =>
  ⟨(h.nonneg p hp).2, (hwords p hp).2, width_lt_of_size (hwords p hp).1⟩

/-- Ports of words are accepted if they are proper and, in the order of their first slots, each ends before those
after it begin, unless its end is no word. They are left as they are. -/
theorem check_eq_ok_iff_of_words (hwords : ∀ p ∈ ports, p.size < wordBound ∧ p.base < wordBound) :
    check ports = .ok checked ↔ checked = ports ∧ Proper ports ∧ (byBase ports).Pairwise Before := by
  rw [check_eq_ok_iff]
  refine and_congr_right fun _ => and_congr_right fun hproper => ?_
  exact isChain_iff_pairwise_before (fun p hp => hproper.placed hwords p (mem_byBase.mp hp)) (pairwise_byBase ports)

/-- What is known of ports that passed the check, if their numbers are words. -/
structure Checked (ports : List Port) : Prop extends Listed ports where
  ordered : ∀ p ∈ ports, ∀ q ∈ ports, p ≠ q → p.Before q ∨ q.Before p

theorem checked_of_check (h : check ports = .ok checked)
    (hwords : ∀ p ∈ ports, p.size < wordBound ∧ p.base < wordBound) : Checked checked := by
  obtain ⟨rfl, hproper, hbefore⟩ := (check_eq_ok_iff_of_words hwords).mp h
  have heither : (byBase checked).Pairwise fun p q => p.Before q ∨ q.Before p :=
    hbefore.imp fun hpq => .inl hpq
  have : Std.Symm fun p q : Port => p.Before q ∨ q.Before p := ⟨fun _ _ => Or.symm⟩
  refine ⟨⟨hproper.distinct, hproper.placed hwords⟩, fun p hp q hq hne => ?_⟩
  exact heither.forall (mem_byBase.mpr hp) (mem_byBase.mpr hq) hne

/-- Checked ports are disjoint exactly if none that begins before another one, or where it does, reaches beyond
the words. -/
theorem Checked.pairwise_disjoint_iff (h : Checked ports) :
    ports.Pairwise Disjoint ↔
      ∀ p ∈ ports, ∀ q ∈ ports, p ≠ q → p.base ≤ q.base → p.stop < wordBound := by
  constructor
  · intro hdisjoint p hp q hq hne hle
    have hpq := hdisjoint.forall hp hq hne
    have hword := (h.placed q hq).base_lt
    have hpos := q.base_lt_stop
    rcases hpq with hpq | hqp <;> omega
  · intro hwords
    refine h.names.of_map.pairwise_of_forall_ne fun p hp q hq hne => ?_
    rcases h.ordered p hp q hq hne with hpq | hqp
    · exact .inl (hpq.2 (hwords p hp q hq hne hpq.1))
    · exact .inr (hqp.2 (hwords q hq p hp hne.symm hqp.1))

end Port

/-! ## Types of documents -/

namespace TypeEntry

theorem port_yields (n : Node) :
    (port n).Yields fun o => ∀ p ∈ o, p.size < (wordBound : Int) ∧ p.base < (wordBound : Int) := by
  have hfields : ∀ f ∈ portFields,
      f.Keeps fun p : Port => p.size < (wordBound : Int) ∧ p.base < (wordBound : Int) := by
    simp only [portFields, forall_mem_cons]
    refine ⟨?_, ?_, ?_, ?_, forall_mem_nil _⟩
    · exact RecordField.text_keeps fun s p hp => hp
    · exact RecordField.text_keeps fun s p hp => hp
    · exact RecordField.int_keeps fun i p hi hp => ⟨hi, hp.2⟩
    · exact RecordField.int_keeps fun i p hi hp => ⟨hp.1, hi⟩
  exact Node.asRecord_yields hfields (by decide) n

/-- The numbers of the ports of an entry are below the bound of words. -/
theorem ofNode_words {n : Node} {t : TypeEntry} (h : ofNode anchored n = .ok t) :
    (∀ p ∈ t.inputs, p.size < wordBound ∧ p.base < wordBound) ∧
      ∀ p ∈ t.outputs, p.size < wordBound ∧ p.base < wordBound := by
  have hfields : ∀ f ∈ fields, f.Keeps fun t : TypeEntry =>
      (∀ p ∈ t.inputs, p.size < wordBound ∧ p.base < wordBound) ∧
        ∀ p ∈ t.outputs, p.size < wordBound ∧ p.base < wordBound := by
    simp only [fields, forall_mem_cons]
    refine ⟨?_, ?_, ?_, ?_, ?_, ?_, forall_mem_nil _⟩
    · exact RecordField.text_keeps fun s t ht => ht
    · exact RecordField.text_keeps fun s t ht => ht
    · exact RecordField.text_keeps fun s t ht => ht
    · exact RecordField.list_keeps port_yields fun ps t hps ht => ⟨hps, ht.2⟩
    · exact RecordField.list_keeps port_yields fun ps t hps ht => ⟨ht.1, hps⟩
    · intro n t ht
      refine Decode.yields_bind fun o => ?_
      split
      · exact Decode.yields_pure ht
      · exact Decode.yields_pure ht
  unfold ofNode at h
  split at h
  · next o hrun =>
    cases h
    have hread := Decode.run_ok (Node.asRecord_yields hfields (by simp) n) hrun
    cases o with
    | none => simp
    | some t => exact hread t rfl
  · cases h

end TypeEntry

/-- A type whose ports are as a document's are. -/
structure Descriptor.PortsChecked (d : Descriptor) : Prop where
  inputs : Port.Checked d.inputs
  outputs : Port.Checked d.outputs

theorem Descriptor.ofNode_portsChecked {n : Node} (h : ofNode anchored n = .ok d) : d.PortsChecked := by
  obtain ⟨t, ht, hd⟩ := ofNode_eq_ok h
  obtain ⟨hinputs, houtputs⟩ := TypeEntry.ofNode_words ht
  obtain ⟨-, -, hcheckIn, hcheckOut, -⟩ := ofEntry_eq_ok hd
  exact ⟨Port.checked_of_check hcheckIn hinputs, Port.checked_of_check hcheckOut houtputs⟩

/-- A type that a document adds to a catalog. -/
theorem Catalog.load_portsChecked {c : Catalog} {text source : String}
    (h : d ∈ (c.load text source).1.types) (hnew : d ∉ c.types) : d.PortsChecked := by
  have hall : ∀ t ∈ (c.load text source).1.types, t ∈ c.types ∨ t.PortsChecked :=
    load_forall (fun _ _ _ ht => .inr (Descriptor.ofNode_portsChecked ht)) (fun t ht => .inl ht) text source
  exact (hall d h).resolve_left hnew

end FlowCompiler
