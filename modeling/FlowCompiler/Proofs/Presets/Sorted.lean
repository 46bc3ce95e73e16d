import FlowCompiler.Presets.Load
import FlowCompiler.Proofs.Text.Cuts
import FlowCompiler.Proofs.Text.Bytes

/-!
# The order of options

The options of an entry are sorted as whole texts `key=value`, not by their keys. The two orders differ exactly
where a key goes on behind another one with a byte below the mark `=`: then the longer key comes first
(`append_mark_lt_iff`). So the keys are in order exactly when no key does that to another
(`Preset.optionsOf_sorted`). The order in which the options are written never matters.
-/

namespace FlowCompiler.Text

open List

variable {as bs : List Nat} {key s : String}

/-! ## Bytes before a mark -/

/-- Bytes go on behind others with one below a mark. -/
def ExtendsBelow (mark : Nat) (as bs : List Nat) : Prop := ∃ x rest, bs = as ++ x :: rest ∧ x < mark

section

variable {mark : Nat}

theorem extendsBelow_nil_cons {y : Nat} : ExtendsBelow mark [] (y :: bs) ↔ y < mark := by
  constructor
  · rintro ⟨x, rest, hbs, hx⟩
    cases hbs
    exact hx
  · intro hy
    exact ⟨y, bs, rfl, hy⟩

theorem not_extendsBelow_nil (as : List Nat) : ¬ExtendsBelow mark as [] := by
  rintro ⟨x, rest, h, -⟩
  simp at h

theorem extendsBelow_cons_cons {x y : Nat} :
    ExtendsBelow mark (x :: as) (y :: bs) ↔ x = y ∧ ExtendsBelow mark as bs := by
  constructor
  · rintro ⟨z, rest, hbs, hz⟩
    cases hbs
    exact ⟨rfl, z, rest, rfl, hz⟩
  · rintro ⟨rfl, z, rest, rfl, hz⟩
    exact ⟨z, rest, rfl, hz⟩

theorem ExtendsBelow.lt (h : ExtendsBelow mark as bs) : as < bs := by
  obtain ⟨x, rest, rfl, -⟩ := h
  have h : as ++ [] < as ++ x :: rest := append_left_lt (nil_lt_cons x rest)
  rwa [append_nil] at h

/-- Bytes that are cut by a mark are in the order of what stands before the mark, unless one goes on behind the
other below the mark: then the longer one comes first. -/
theorem append_mark_lt_iff (has : mark ∉ as) (hbs : mark ∉ bs) (hne : as ≠ bs) (cs ds : List Nat) :
    as ++ mark :: cs < bs ++ mark :: ds ↔
      as < bs ∧ ¬ExtendsBelow mark as bs ∨ ExtendsBelow mark bs as := by
  induction as generalizing bs with
  | nil =>
    cases bs with
    | nil => exact absurd rfl hne
    | cons y bs =>
      have hy : mark ≠ y := by
        rintro rfl
        exact hbs mem_cons_self
      have hnot : ¬ExtendsBelow mark (y :: bs) [] := not_extendsBelow_nil _
      simp only [nil_append, cons_append, cons_lt_cons_iff, extendsBelow_nil_cons, hnot, hy,
        nil_lt_cons, true_and, false_and, or_false]
      omega
  | cons x as ih =>
    have hx : x ≠ mark := by
      rintro rfl
      exact has mem_cons_self
    cases bs with
    | nil =>
      have hnot : ¬x :: as < [] := not_lt_nil _
      simp only [nil_append, cons_append, cons_lt_cons_iff, extendsBelow_nil_cons, hnot, hx,
        false_and, or_false, false_or]
    | cons y bs =>
      by_cases hxy : x = y
      · subst hxy
        have htail := ih (not_mem_of_not_mem_cons has) (not_mem_of_not_mem_cons hbs)
          fun heq => hne (by rw [heq])
        simpa [cons_lt_cons_iff, extendsBelow_cons_cons] using htail
      · simp [cons_lt_cons_iff, extendsBelow_cons_cons, hxy, Ne.symm hxy]

theorem eq_of_append_mark {cs ds : List Nat} (has : mark ∉ as) (hbs : mark ∉ bs)
    (h : as ++ mark :: cs = bs ++ mark :: ds) : as = bs := by
  by_contra hne
  have hnotlt : ¬as ++ mark :: cs < bs ++ mark :: ds := by
    rw [h]
    exact lt_irrefl _
  have hnotgt : ¬bs ++ mark :: ds < as ++ mark :: cs := by
    rw [h]
    exact lt_irrefl _
  rw [append_mark_lt_iff has hbs hne, not_or, not_and_not_right] at hnotlt
  rw [append_mark_lt_iff hbs has (Ne.symm hne), not_or, not_and_not_right] at hnotgt
  rcases lt_or_gt_of_ne hne with hlt | hgt
  · exact hnotgt.2 (hnotlt.1 hlt)
  · exact hnotlt.2 (hnotgt.1 hgt)

end

/-! ## Sorted texts -/

theorem notAfter_iff {t : String} : notAfter s t = true ↔ ¬bytesOf t.toList < bytesOf s.toList := by
  simp [notAfter]

theorem sorted_perm (texts : List String) : (sorted texts).Perm texts := mergeSort_perm texts notAfter

theorem sorted_pairwise (texts : List String) : (sorted texts).Pairwise fun s t => notAfter s t = true := by
  apply pairwise_mergeSort
  · intro s t u hst htu
    rw [notAfter_iff, not_lt] at hst htu ⊢
    exact hst.trans htu
  · intro s t
    rw [Bool.or_eq_true, notAfter_iff, notAfter_iff, not_lt, not_lt]
    exact le_total _ _

theorem sorted_of_pairwise {texts : List String} (h : texts.Pairwise fun s t => notAfter s t = true) :
    sorted texts = texts := mergeSort_of_pairwise h

/-! ## Texts with a key -/

/-- What stands before the first mark `=` of a text. -/
def keyOf (s : String) : String := String.ofList (s.toList.takeWhile (· != '='))

/-- The bytes of the key of a text. -/
def keyBytes (s : String) : List Nat := bytesOf (keyOf s).toList

/-- A text has a mark, and no byte of its key is the mark. -/
def Keyed (s : String) : Prop := '=' ∈ s.toList ∧ '='.toNat ∉ keyBytes s

instance (s : String) : Decidable (Keyed s) := inferInstanceAs (Decidable (_ ∧ _))

/-- A key goes on behind another with a byte below the mark. -/
def KeyExtends (s t : String) : Prop := ExtendsBelow '='.toNat (keyBytes s) (keyBytes t)

theorem notMem_of_notMem_bytesOf {cs : List Char} (h : '='.toNat ∉ bytesOf cs) : '=' ∉ cs := by
  intro hmem
  exact h (mem_flatMap.mpr ⟨'=', hmem, by decide⟩)

theorem keyOf_setting (h : '='.toNat ∉ bytesOf key.toList) (value : String) :
    keyOf (key ++ "=" ++ value) = key := by
  have hne : ∀ x ∈ key.toList, (x != '=') = true := fun x hx =>
    bne_iff_ne.mpr (ne_of_mem_of_not_mem hx (notMem_of_notMem_bytesOf h))
  rw [← String.toList_inj, keyOf, String.toList_ofList]
  simp [takeWhile_append_of_pos hne]

theorem keyed_setting (h : '='.toNat ∉ bytesOf key.toList) (value : String) :
    Keyed (key ++ "=" ++ value) := by
  refine ⟨by simp, ?_⟩
  rw [keyBytes, keyOf_setting h]
  exact h

theorem Keyed.bytes_eq (h : Keyed s) : ∃ value, bytesOf s.toList = keyBytes s ++ '='.toNat :: value := by
  obtain ⟨before, after, hs, hnot⟩ := eq_append_cons_of_mem h.1
  have hne : ∀ x ∈ before, (x != '=') = true := fun x hx => bne_iff_ne.mpr (ne_of_mem_of_not_mem hx hnot)
  have hkey : (keyOf s).toList = before := by
    rw [keyOf, String.toList_ofList, hs, takeWhile_append_of_pos hne]
    simp
  refine ⟨bytesOf after, ?_⟩
  rw [keyBytes, hkey, hs, bytesOf_append]
  rfl

/-- Texts with different keys are in the order of their keys, unless one key goes on behind the other. -/
theorem Keyed.lt_iff {t : String} (hs : Keyed s) (ht : Keyed t) (hne : keyBytes s ≠ keyBytes t) :
    bytesOf s.toList < bytesOf t.toList ↔ keyBytes s < keyBytes t ∧ ¬KeyExtends s t ∨ KeyExtends t s := by
  obtain ⟨value, hvalue⟩ := hs.bytes_eq
  obtain ⟨value', hvalue'⟩ := ht.bytes_eq
  rw [hvalue, hvalue', append_mark_lt_iff hs.2 ht.2 hne]
  rfl

theorem Keyed.keyBytes_eq {t : String} (hs : Keyed s) (ht : Keyed t)
    (h : bytesOf s.toList = bytesOf t.toList) : keyBytes s = keyBytes t := by
  obtain ⟨value, hvalue⟩ := hs.bytes_eq
  obtain ⟨value', hvalue'⟩ := ht.bytes_eq
  rw [hvalue, hvalue'] at h
  exact eq_of_append_mark hs.2 ht.2 h

section

variable {texts : List String}

/-- Texts with different keys have one order, however they are given. -/
theorem sorted_eq_of_perm {texts' : List String} (hkeyed : ∀ s ∈ texts, Keyed s) (hnodup : (texts.map keyBytes).Nodup)
    (hperm : texts'.Perm texts) : sorted texts' = sorted texts := by
  have hsorted : (sorted texts').Perm (sorted texts) :=
    ((sorted_perm texts').trans hperm).trans (sorted_perm texts).symm
  apply hsorted.eq_of_pairwise _ (sorted_pairwise texts') (sorted_pairwise texts)
  intro s t hs ht hst hts
  have hs' : s ∈ texts := hperm.mem_iff.mp ((sorted_perm texts').mem_iff.mp hs)
  have ht' : t ∈ texts := (sorted_perm texts).mem_iff.mp ht
  rw [notAfter_iff, not_lt] at hst hts
  exact inj_on_of_nodup_map hnodup hs' ht' ((hkeyed s hs').keyBytes_eq (hkeyed t ht') (le_antisymm hst hts))

/-- Sorted texts have their keys in order exactly when no key goes on behind another below the mark. -/
theorem sorted_keys_iff (hkeyed : ∀ s ∈ texts, Keyed s) (hnodup : (texts.map keyBytes).Nodup) :
    ((sorted texts).map keyBytes).Pairwise (· < ·) ↔ ∀ s ∈ texts, ∀ t ∈ texts, ¬KeyExtends s t := by
  have hmem : ∀ {s}, s ∈ sorted texts ↔ s ∈ texts := (sorted_perm texts).mem_iff
  rw [pairwise_map]
  constructor
  · intro hkeys
    -- Neither key of two texts goes on behind the other: the one in front would be behind as a whole text.
    have hapart : (sorted texts).Pairwise fun s t => ¬KeyExtends s t ∧ ¬KeyExtends t s := by
      refine (hkeys.and (sorted_pairwise texts)).imp_of_mem ?_
      intro s t hs ht hst
      obtain ⟨hlt, hafter⟩ := hst
      rw [notAfter_iff, (hkeyed t (hmem.mp ht)).lt_iff (hkeyed s (hmem.mp hs)) hlt.ne', not_or] at hafter
      refine ⟨hafter.2, fun hext => ?_⟩
      exact lt_asymm hlt hext.lt
    intro s hs t ht hext
    have hne : s ≠ t := by
      rintro rfl
      exact lt_irrefl _ hext.lt
    have hsymm : Std.Symm fun s t => ¬KeyExtends s t ∧ ¬KeyExtends t s := ⟨fun _ _ h => h.symm⟩
    exact (hapart.forall (hmem.mpr hs) (hmem.mpr ht) hne).1 hext
  · intro hnone
    have hdiff : (sorted texts).Pairwise fun s t => keyBytes s ≠ keyBytes t :=
      pairwise_map.mp (((sorted_perm texts).map keyBytes).nodup_iff.mpr hnodup)
    refine (hdiff.and (sorted_pairwise texts)).imp_of_mem ?_
    intro s t hs ht hst
    obtain ⟨hne, hafter⟩ := hst
    rw [notAfter_iff, (hkeyed t (hmem.mp ht)).lt_iff (hkeyed s (hmem.mp hs)) hne.symm, not_or,
      not_and_not_right] at hafter
    apply lt_of_le_of_ne _ hne
    rw [← not_lt]
    intro hgt
    exact hnone t (hmem.mp ht) s (hmem.mp hs) (hafter.1 hgt)

end

end FlowCompiler.Text

namespace FlowCompiler.Preset

open Document List

variable {e : Node × Node}

/-! ## Options of an object -/

/-- The text of the value of an option, empty where there is none. -/
def valueOf (e : Node × Node) : String := (optionText e.1.text e.2).toOption.getD ""

/-- An option as it is written for a unit. -/
def setting (e : Node × Node) : String := e.1.text ++ "=" ++ valueOf e

theorem optionTexts_eq_ok_iff {entries : List (Node × Node)} {texts : List String} :
    optionTexts entries = .ok texts ↔
      (∀ e ∈ entries, optionText e.1.text e.2 = .ok (valueOf e)) ∧ texts = entries.map setting := by
  induction entries generalizing texts with
  | nil => simp [optionTexts, eq_comm]
  | cons e entries ih =>
    obtain ⟨k, v⟩ := e
    rw [optionTexts]
    cases htext : optionText k.text v with
    | error f => simp [htext]
    | ok t =>
      have hvalue : valueOf (k, v) = t := by simp [valueOf, htext, Except.toOption]
      cases hrest : optionTexts entries with
      | error f =>
        have hnot : ¬∀ e ∈ entries, optionText e.1.text e.2 = .ok (valueOf e) := by
          intro hall
          rw [ih.mpr ⟨hall, rfl⟩] at hrest
          cases hrest
        simp only [reduceCtorEq, false_iff, forall_mem_cons]
        rintro ⟨⟨-, hall⟩, -⟩
        exact hnot hall
      | ok ts =>
        obtain ⟨hall, rfl⟩ := ih.mp hrest
        simp only [Except.ok.injEq, forall_mem_cons, map_cons, setting, hvalue, htext, true_and]
        constructor
        · rintro rfl
          exact ⟨hall, rfl⟩
        · rintro ⟨-, rfl⟩
          rfl

theorem optionsOf_mapping {h : Head} (htag : h.tag ≠ .null) (flow : Bool) (entries : List (Node × Node)) :
    optionsOf (some (.mapping h flow entries)) = (optionTexts entries).map Text.sorted := if_neg htag

theorem optionsOf_eq_ok_iff {h : Head} (htag : h.tag ≠ .null) {flow : Bool} {entries : List (Node × Node)}
    {result : List String} :
    optionsOf (some (.mapping h flow entries)) = .ok result ↔
      (∀ e ∈ entries, optionText e.1.text e.2 = .ok (valueOf e)) ∧ result = Text.sorted (entries.map setting) := by
  rw [optionsOf_mapping htag]
  constructor
  · intro hok
    cases htexts : optionTexts entries with
    | error f =>
      rw [htexts] at hok
      cases hok
    | ok texts =>
      rw [htexts] at hok
      cases hok
      obtain ⟨hall, rfl⟩ := optionTexts_eq_ok_iff.mp htexts
      exact ⟨hall, rfl⟩
  · rintro ⟨hall, rfl⟩
    rw [optionTexts_eq_ok_iff.mpr ⟨hall, rfl⟩]
    rfl

/-- The bytes of the key of an option. -/
def keyBytes (e : Node × Node) : List Nat := Text.bytesOf e.1.text.toList

section

variable {entries : List (Node × Node)} (hmark : ∀ e ∈ entries, '='.toNat ∉ keyBytes e)

include hmark

theorem keyOf_setting (he : e ∈ entries) : Text.keyOf (setting e) = e.1.text := by
  rw [setting, Text.keyOf_setting (hmark e he)]

theorem keyBytes_setting (he : e ∈ entries) : Text.keyBytes (setting e) = keyBytes e := by
  rw [Text.keyBytes, keyOf_setting hmark he, keyBytes]

theorem map_keyOf_setting : (entries.map setting).map Text.keyOf = entries.map fun e => e.1.text := by
  rw [map_map]
  apply map_congr_left
  intro e he
  rw [Function.comp_apply, keyOf_setting hmark he]

theorem map_keyBytes_setting : (entries.map setting).map Text.keyBytes = entries.map keyBytes := by
  rw [map_map]
  apply map_congr_left
  intro e he
  rw [Function.comp_apply, keyBytes_setting hmark he]

theorem keyed_map_setting : ∀ s ∈ entries.map setting, Text.Keyed s := by
  intro s hs
  obtain ⟨e, he, rfl⟩ := mem_map.mp hs
  exact Text.keyed_setting (hmark e he) (valueOf e)

theorem keyExtends_setting {a b : Node × Node} (ha : a ∈ entries) (hb : b ∈ entries) :
    Text.KeyExtends (setting a) (setting b) ↔ Text.ExtendsBelow '='.toNat (keyBytes a) (keyBytes b) := by
  rw [Text.KeyExtends, keyBytes_setting hmark ha, keyBytes_setting hmark hb]

end

/-- The options of an object with different keys, none with a mark: there is one text for each, whatever their
order in the object. The texts have their keys in order exactly when no key goes on behind another with a byte
below the mark. An object that is tagged as null has no options. -/
theorem optionsOf_sorted {h : Head} {flow : Bool} {entries : List (Node × Node)} {result : List String}
    (hok : optionsOf (some (.mapping h flow entries)) = .ok result) (hkeys : (entries.map keyBytes).Nodup)
    (hmark : ∀ e ∈ entries, '='.toNat ∉ keyBytes e) :
    (h.tag = .null → result = []) ∧
    (h.tag ≠ .null →
      (∀ e ∈ entries, optionText e.1.text e.2 = .ok (valueOf e)) ∧
      result.Perm (entries.map fun e => e.1.text ++ "=" ++ valueOf e) ∧
      (result.map Text.keyOf).Perm (entries.map fun e => e.1.text) ∧
      (∀ h' flow' entries', Head.tag h' ≠ .null → entries'.Perm entries →
        optionsOf (some (.mapping h' flow' entries')) = .ok result) ∧
      ((result.map Text.keyBytes).Pairwise (· < ·) ↔
        ∀ a ∈ entries, ∀ b ∈ entries, ¬Text.ExtendsBelow '='.toNat (keyBytes a) (keyBytes b))) := by
  refine ⟨fun htag => ?_, fun htag => ?_⟩
  · rw [optionsOf, if_pos htag] at hok
    cases hok
    rfl
  obtain ⟨hall, rfl⟩ := (optionsOf_eq_ok_iff htag).mp hok
  have hkeyed := keyed_map_setting hmark
  have hnodup : ((entries.map setting).map Text.keyBytes).Nodup := by
    rw [map_keyBytes_setting hmark]
    exact hkeys
  have hperm := Text.sorted_perm (entries.map setting)
  refine ⟨hall, hperm, ?_, ?_, ?_⟩
  · rw [← map_keyOf_setting hmark]
    exact hperm.map Text.keyOf
  · intro h' flow' entries' htag' hentries
    refine (optionsOf_eq_ok_iff htag').mpr ⟨fun e he => hall e (hentries.mem_iff.mp he), ?_⟩
    exact (Text.sorted_eq_of_perm hkeyed hnodup (hentries.map setting)).symm
  · rw [Text.sorted_keys_iff hkeyed hnodup]
    simp only [forall_mem_map]
    constructor
    · intro hnone a ha b hb
      rw [← keyExtends_setting hmark ha hb]
      exact hnone a ha b hb
    · intro hnone a ha b hb
      rw [keyExtends_setting hmark ha hb]
      exact hnone a ha b hb

/-- A scalar that is written without quotes. -/
def plain (text : String) : Node := .scalar ⟨⟨1, 1⟩, .str, false, "", {}⟩ text .plain

/-- An object of options. -/
def object (entries : List (Node × Node)) : Node := .mapping ⟨⟨1, 1⟩, .map, false, "", {}⟩ true entries

/-- Options in the order of their keys: the letters and `_` stand above the mark. -/
def tuningEntries : List (Node × Node) :=
  [(plain "rate", plain "1"), (plain "rate_max", object [(plain "val", plain "2")]), (plain "zoom", plain "3")]

theorem optionsOf_sorted_tuning :
    optionsOf (some (object tuningEntries)) = .ok ["rate=1", "rate_max=val:2", "zoom=3"] ∧
    (tuningEntries.map keyBytes).Nodup ∧ (∀ e ∈ tuningEntries, '='.toNat ∉ keyBytes e) ∧
    optionsOf (some (object tuningEntries.reverse)) = .ok ["rate=1", "rate_max=val:2", "zoom=3"] ∧
    ∀ a ∈ tuningEntries, ∀ b ∈ tuningEntries, ¬Text.ExtendsBelow '='.toNat (keyBytes a) (keyBytes b) := by
  have hok : optionsOf (some (object tuningEntries)) = .ok ["rate=1", "rate_max=val:2", "zoom=3"] := by
    refine (optionsOf_eq_ok_iff (by decide)).mpr ⟨by decide +kernel, ?_⟩
    exact (Text.sorted_of_pairwise (by decide +kernel)).symm
  have hkeys : (tuningEntries.map keyBytes).Nodup := by decide +kernel
  have hmark : ∀ e ∈ tuningEntries, '='.toNat ∉ keyBytes e := by decide +kernel
  obtain ⟨-, h⟩ := optionsOf_sorted hok hkeys hmark
  obtain ⟨-, -, -, horder, hsorted⟩ := h (by decide)
  refine ⟨hok, hkeys, hmark, ?_, ?_⟩
  · exact horder _ _ _ (by decide) (reverse_perm _)
  · exact hsorted.mp (by decide +kernel)

/-- Options of which one key goes on behind the other with `-`, which stands below the mark. -/
def limitEntries : List (Node × Node) := [(plain "rate", plain "1"), (plain "rate-limit", plain "2")]

/-- The longer key comes first, though it is the greater one. -/
theorem optionsOf_keys_not_in_order :
    optionsOf (some (object limitEntries)) = .ok ["rate-limit=2", "rate=1"] ∧
    (limitEntries.map keyBytes).Nodup ∧ (∀ e ∈ limitEntries, '='.toNat ∉ keyBytes e) ∧
    ["rate-limit=2", "rate=1"].map Text.keyOf = ["rate-limit", "rate"] ∧
    ¬(["rate-limit=2", "rate=1"].map Text.keyBytes).Pairwise (· < ·) := by
  have hkeys : (limitEntries.map keyBytes).Nodup := by decide +kernel
  have hmark : ∀ e ∈ limitEntries, '='.toNat ∉ keyBytes e := by decide +kernel
  have hsorted : Text.sorted ["rate=1", "rate-limit=2"] = ["rate-limit=2", "rate=1"] := by
    rw [← Text.sorted_eq_of_perm (by decide +kernel) (by decide +kernel) (List.Perm.swap "rate=1" "rate-limit=2" [])]
    exact Text.sorted_of_pairwise (by decide +kernel)
  refine ⟨?_, hkeys, hmark, by decide +kernel, by decide +kernel⟩
  exact (optionsOf_eq_ok_iff (by decide)).mpr ⟨by decide +kernel, hsorted.symm⟩

end FlowCompiler.Preset
