import FlowCompiler.Proofs.Options.Forwarding
import FlowCompiler.Proofs.Options.RoundTrip

/-!
# Settings in any order

The settings of a node are laid over the defaults of its type one after the other, each in the place of its
option. A setting that the type does not know ends this with an error. Without one, each option has a value of
its own in the end, from its own setting or its default (`OptionSpec.SetBy`), so the order of the settings shows
only in the order of the warnings.

Main statement: `Descriptor.encode_independent_of_order`, for options with distinct names and settings with
distinct keys.
-/

namespace FlowCompiler

open List

/-! ## Values of one option -/

namespace OptionSpec

/-- Whether settings give a value to an option: the default if none of them has its name, and else what the
option makes of the text of that setting. -/
structure SetBy (o : OptionSpec) (settings : List Meta) (v : ResolvedOption) : Prop where
  name : v.name = o.name
  dataType : v.dataType = o.dataType
  absent : (∀ m ∈ settings, m.key ≠ o.name) → v.value = o.fallback
  present : ∀ m ∈ settings, m.key = o.name → v.value = (o.encode o.name m.value).1

variable {o : OptionSpec} {settings settings' : List Meta} {v v' : ResolvedOption}

theorem SetBy.unique (h : o.SetBy settings v) (h' : o.SetBy settings v') : v = v' := by
  have hvalue : v.value = v'.value := by
    by_cases hset : ∃ m ∈ settings, m.key = o.name
    · obtain ⟨m, hm, hkey⟩ := hset
      rw [h.present m hm hkey, h'.present m hm hkey]
    · have habsent : ∀ m ∈ settings, m.key ≠ o.name := fun m hm hkey => hset ⟨m, hm, hkey⟩
      rw [h.absent habsent, h'.absent habsent]
  calc
    v = ⟨o.name, o.dataType, v.value⟩ := by rw [← h.name, ← h.dataType]
    _ = v' := by rw [hvalue, ← h'.name, ← h'.dataType]

theorem SetBy.perm (h : o.SetBy settings v) (hperm : settings'.Perm settings) : o.SetBy settings' v where
  name := h.name
  dataType := h.dataType
  absent habsent := h.absent fun m hm => habsent m (hperm.mem_iff.mpr hm)
  present m hm := h.present m (hperm.mem_iff.mp hm)

theorem setBy_rightUnique : Relator.RightUnique fun (o : OptionSpec) v => o.SetBy settings v :=
  fun _ _ _ h h' => h.unique h'

end OptionSpec

namespace Descriptor

variable {d : Descriptor} {m : Meta} {before after settings settings' : List Meta} {o : OptionSpec}

/-! ## Settings that a type knows -/

/-- Whether a type has the option of a setting. -/
def Knows (d : Descriptor) (m : Meta) : Prop := ∃ o ∈ d.options, o.name = m.key

instance (d : Descriptor) : DecidablePred d.Knows :=
  fun m => inferInstanceAs (Decidable (∃ o ∈ d.options, o.name = m.key))

theorem optionIndex?_eq_none_iff : d.optionIndex? m.key = none ↔ ¬d.Knows m := by
  simp [optionIndex?, Knows]

theorem Knows.exists_option (h : d.Knows m) :
    ∃ i o, d.optionIndex? m.key = some i ∧ d.options[i]? = some o := by
  obtain ⟨i, hi⟩ := Option.ne_none_iff_exists'.mp fun hnone => optionIndex?_eq_none_iff.mp hnone h
  obtain ⟨o, ho, -⟩ := optionIndex?_eq_some hi
  exact ⟨i, o, hi, ho⟩

/-- Settings that are known leave the rest to other values. -/
theorem overlay_append (hbefore : ∀ b ∈ before, d.Knows b) (file : String) (values : List ResolvedOption)
    (warnings : List Diagnostic) (rest : List Meta) :
    ∃ vs, d.overlay file values warnings (before ++ rest) =
      d.overlay file vs (warnings ++ before.flatMap (d.warningsOf file)) rest := by
  induction before generalizing values warnings with
  | nil => exact ⟨values, by simp⟩
  | cons b before ih =>
    rw [forall_mem_cons] at hbefore
    obtain ⟨i, o, hi, ho⟩ := hbefore.1.exists_option
    rw [cons_append, overlay_cons hi ho, flatMap_cons, ← append_assoc]
    exact ih hbefore.2 _ _

theorem encode_of_knows (h : ∀ m ∈ settings, d.Knows m) (file : String) :
    ∃ vs, d.encode file settings = (settings.flatMap (d.warningsOf file), .ok vs) := by
  obtain ⟨vs, hvs⟩ := overlay_append h file d.defaults [] []
  rw [append_nil] at hvs
  exact ⟨vs, hvs⟩

theorem encode_of_not_knows (hbefore : ∀ b ∈ before, d.Knows b) (hm : ¬d.Knows m) (file : String)
    (after : List Meta) : d.encode file (before ++ m :: after) =
      (before.flatMap (d.warningsOf file), .error ⟨file, m.pos, .noOption m.key d.name⟩) := by
  obtain ⟨vs, hvs⟩ := overlay_append hbefore file d.defaults [] (m :: after)
  rw [encode, hvs, overlay, optionIndex?_eq_none_iff.mpr hm]
  rfl

/-- Settings that are not all known have a first one that is not. -/
theorem exists_first_not_knows (h : ¬∀ m ∈ settings, d.Knows m) :
    ∃ before m after, settings = before ++ m :: after ∧ (∀ b ∈ before, d.Knows b) ∧ ¬d.Knows m := by
  have hsome : (settings.find? fun m => ¬d.Knows m).isSome := by simpa using h
  obtain ⟨m, hm⟩ := Option.isSome_iff_exists.mp hsome
  obtain ⟨hnot, before, after, rfl, hbefore⟩ := find?_eq_some_iff_append.mp hm
  exact ⟨before, m, after, rfl, by simpa using hbefore, by simpa using hnot⟩

theorem encode_eq_error_iff {file : String} {w : List Diagnostic} {e : Diagnostic} :
    d.encode file settings = (w, .error e) ↔ ∃ before m after, settings = before ++ m :: after ∧
      (∀ b ∈ before, d.Knows b) ∧ ¬d.Knows m ∧ w = before.flatMap (d.warningsOf file) ∧
      e = ⟨file, m.pos, .noOption m.key d.name⟩ ∧ e.kind = .invalidOptionKey := by
  constructor
  · intro h
    by_cases hall : ∀ m ∈ settings, d.Knows m
    · obtain ⟨vs, hvs⟩ := encode_of_knows hall file
      cases hvs.symm.trans h
    · obtain ⟨before, m, after, rfl, hbefore, hm⟩ := exists_first_not_knows hall
      cases (encode_of_not_knows hbefore hm file after).symm.trans h
      exact ⟨before, m, after, rfl, hbefore, hm, rfl, rfl, rfl⟩
  · rintro ⟨before, m, after, rfl, hbefore, hm, rfl, rfl, -⟩
    exact encode_of_not_knows hbefore hm file after

theorem exists_encode_eq_error_iff (file : String) :
    (∃ e, (d.encode file settings).2 = .error e) ↔ ∃ m ∈ settings, ¬d.Knows m := by
  constructor
  · rintro ⟨e, he⟩
    obtain ⟨before, m, after, rfl, -, hm, -⟩ := encode_eq_error_iff.mp (Prod.ext rfl he)
    exact ⟨m, by simp, hm⟩
  · rintro ⟨m, hmem, hm⟩
    obtain ⟨before, m, after, rfl, hbefore, hm⟩ := exists_first_not_knows fun hall => hm (hall m hmem)
    exact ⟨_, congrArg Prod.snd (encode_of_not_knows hbefore hm file after)⟩

/-! ## Options with distinct names -/

theorem optionIndex?_name (hoptions : (d.options.map (·.name)).Nodup) {i : Nat} (hi : d.options[i]? = some o) :
    d.optionIndex? o.name = some i := by
  obtain ⟨hlt, rfl⟩ := List.getElem?_eq_some_iff.mp hi
  refine findIdx?_eq_some_iff_getElem.mpr ⟨hlt, beq_self_eq_true _, fun j hji hname => ?_⟩
  have hne := pairwise_iff_getElem.mp (pairwise_map.mp hoptions) j i (hji.trans hlt) hlt hji
  exact hne (beq_iff_eq.mp hname)

theorem warningsOf_eq (hoptions : (d.options.map (·.name)).Nodup) (ho : o ∈ d.options) (hname : o.name = m.key)
    (file : String) : d.warningsOf file m = (o.encode o.name m.value).2.map fun c => ⟨file, m.pos, c⟩ := by
  obtain ⟨i, hi⟩ := mem_iff_getElem?.mp ho
  have hspec : d.spec? m.key = some o := by rw [spec?, ← hname, optionIndex?_name hoptions hi, Option.bind_some, hi]
  rw [warningsOf, hspec, hname]

/-- Each option has the value that the settings give to it alone. -/
theorem encode_setBy (hoptions : (d.options.map (·.name)).Nodup) (hkeys : (settings.map (·.key)).Nodup)
    {file : String} {w : List Diagnostic} {vs : List ResolvedOption}
    (h : d.encode file settings = (w, .ok vs)) :
    List.Forall₂ (fun o v => o.SetBy settings v) d.options vs := by
  have haligned : d.Aligned vs := encode_aligned (congrArg Prod.snd h)
  refine forall₂_iff_get.mpr ⟨haligned.length_eq, fun i hi hi' => ?_⟩
  have hspec := (forall₂_iff_get.mp haligned).2 i hi hi'
  have hindex := optionIndex?_name hoptions (getElem?_eq_getElem hi)
  have hvalue := getElem?_eq_getElem hi'
  refine ⟨hspec.1, hspec.2, fun habsent => ?_, fun m hm hkey => ?_⟩
  · have hframe := overlay_frame h fun m hm hmi => habsent m hm (key_of_optionIndex? hmi hindex)
    rw [hvalue, defaults, getElem?_map, getElem?_eq_getElem hi, Option.map_some,
      Option.some.injEq] at hframe
    exact congrArg ResolvedOption.value hframe
  · have hset := overlay_value h hkeys hm (hkey ▸ hindex) (getElem?_eq_getElem hi)
      (by simpa [defaults] using hi)
    rw [hvalue, Option.some.injEq, hkey] at hset
    exact congrArg ResolvedOption.value hset

/-- The order of settings shows in the warnings only. An unknown setting is an error, reported where the first
of them stands, after the warnings of the settings before it. Else each option has, in the order of the type,
its default or what its own setting gives; this holds for the settings in all orders, and each setting adds the
warnings that its option gives for it. -/
theorem encode_independent_of_order (hoptions : (d.options.map (·.name)).Nodup)
    (hkeys : (settings.map (·.key)).Nodup) :
    (∀ file, (∃ e, (d.encode file settings).2 = .error e) ↔ ∃ m ∈ settings, ¬d.Knows m) ∧
    (∀ file w e, d.encode file settings = (w, .error e) ↔ ∃ before m after,
      settings = before ++ m :: after ∧ (∀ b ∈ before, d.Knows b) ∧ ¬d.Knows m ∧
      w = before.flatMap (d.warningsOf file) ∧ e = ⟨file, m.pos, .noOption m.key d.name⟩ ∧
      e.kind = .invalidOptionKey) ∧
    ((∀ m ∈ settings, d.Knows m) →
      (∀ m ∈ settings, ∀ o ∈ d.options, o.name = m.key → ∀ file,
        d.warningsOf file m = (o.encode o.name m.value).2.map fun c => ⟨file, m.pos, c⟩) ∧
      ∃ vs, List.Forall₂ (fun o v => o.SetBy settings v) d.options vs ∧
        ∀ file settings', settings'.Perm settings →
          d.encode file settings' = (settings'.flatMap (d.warningsOf file), .ok vs)) := by
  refine ⟨exists_encode_eq_error_iff, fun file w e => encode_eq_error_iff, fun hknown => ⟨?_, ?_⟩⟩
  · intro m _ o ho hname file
    exact warningsOf_eq hoptions ho hname file
  · obtain ⟨vs, hvs⟩ := encode_of_knows hknown ""
    have hset := encode_setBy hoptions hkeys hvs
    refine ⟨vs, hset, fun file settings' hperm => ?_⟩
    obtain ⟨vs', hvs'⟩ := encode_of_knows (fun m hm => hknown m (hperm.mem_iff.mp hm)) file
    -- In another order the values are set by the same settings, and such values are unique.
    have hset' := encode_setBy hoptions ((hperm.map _).nodup_iff.mpr hkeys) hvs'
    rw [hvs', right_unique_forall₂' OptionSpec.setBy_rightUnique hset
      (hset'.imp fun o v h => h.perm hperm.symm)]

/-- A type with composite options, one of them with a default, a truth value and a text. -/
def lampType : Descriptor where
  name := "lamp"
  symbol := "LAMP"
  options := [⟨"level", "int", some (.composite ⟨.range, ["7", "", "", ""], rfl⟩)⟩,
    ⟨"tint", "rgb", none⟩, ⟨"on", "boolean", some (.text "true")⟩, ⟨"label", "string", some (.text "lamp")⟩]

/-- Settings of three of its options, each with something in it that cannot be read. -/
def lampSettings : List Meta :=
  [⟨"on", "maybe", ⟨1, 9⟩⟩, ⟨"level", "min:1|2|max:x", ⟨1, 18⟩⟩, ⟨"tint", "red:9|blue:z", ⟨1, 38⟩⟩]

/-- The values of the options with these settings. -/
def lampValues : List ResolvedOption :=
  [⟨"level", "int", some (.composite ⟨.range, ["7", "1", "", ""], rfl⟩)⟩,
    ⟨"tint", "rgb", some (.composite ⟨.rgb, ["9", "", "", "", "", ""], rfl⟩)⟩,
    ⟨"on", "boolean", some (.text "true")⟩, ⟨"label", "string", some (.text "lamp")⟩]

theorem encode_independent_of_order_lamp :
    (lampSettings.map fun m => (lampType.warningsOf "f" m).length) = [1, 2, 1] ∧
    (∀ settings, settings.Perm lampSettings →
      lampType.encode "f" settings = (settings.flatMap (lampType.warningsOf "f"), .ok lampValues)) ∧
    lampType.encode "f" (lampSettings ++ [⟨"size", "3", ⟨1, 57⟩⟩]) =
      (lampSettings.flatMap (lampType.warningsOf "f"), .error ⟨"f", ⟨1, 57⟩, .noOption "size" "lamp"⟩) := by
  have hoptions : (lampType.options.map (·.name)).Nodup := by decide
  refine ⟨by decide +kernel, ?_, ?_⟩
  · obtain ⟨-, vs, -, hall⟩ := (encode_independent_of_order hoptions (by decide)).2.2
      (show ∀ m ∈ lampSettings, lampType.Knows m by decide)
    have hvs := congrArg Prod.snd (hall "f" lampSettings (.refl _))
    rw [show (lampType.encode "f" lampSettings).2 = .ok lampValues by decide +kernel] at hvs
    cases hvs
    exact hall "f"
  · exact ((encode_independent_of_order hoptions (by decide)).2.1 _ _ _).mpr
      ⟨lampSettings, _, [], rfl, by decide, by decide, rfl, rfl, rfl⟩

end Descriptor

end FlowCompiler
