import FlowCompiler.Compile.Resolve
import FlowCompiler.Proofs.Text.Cuts

/-!
# Types and settings of nodes

The type of a node is the first that is found: under its component in the common catalog, then among the types of
the unit, and in the same order under the name that the resolver has for the component (`Config.candidates`). A
preset adds settings that the node does not have (`freshDefaults`). The merge goes through the defaults one by one
and compares each with all settings so far; what it gives in the end is said here without it.

Main statements:
* `mergeDefaults_eq`: which settings and which warnings a merge gives.
* `Config.resolve_precedence`: the type, the settings, the warnings and the errors of a node.
-/

namespace FlowCompiler

open List

/-! ## Defaults of a preset -/

/-- Whether a default gives a value to a key. The key stands before the first `=`, blanks around it aside. -/
def GivesSetting (text key value : String) : Prop :=
  ∃ before : String, '=' ∉ before.toList ∧ text = before ++ "=" ++ value ∧ Text.trim before = key ∧ key ≠ ""

/-- Whether a default has no key: it has no `=`, or nothing but blanks before the first. -/
def Keyless (text : String) : Prop :=
  '=' ∉ text.toList ∨
    ∃ before value : String, '=' ∉ before.toList ∧ text = before ++ "=" ++ value ∧ Text.trim before = ""

theorem toList_setting (before value : String) :
    (before ++ "=" ++ value).toList = before.toList ++ '=' :: value.toList := by
  simp

theorem presetSetting?_setting {before : String} (h : '=' ∉ before.toList) (value : String) :
    presetSetting? (before ++ "=" ++ value) =
      if Text.trim before = "" then none else some (Text.trim before, value) := by
  rw [presetSetting?, toList_setting, Text.cut?_append h, Text.trim]
  dsimp only
  generalize Text.trimChars before.toList = key
  cases key with
  | nil => simp
  | cons c cs =>
    have hne : String.ofList (c :: cs) ≠ "" := by
      intro hempty
      have := congrArg String.toList hempty
      simp at this
    rw [if_neg hne, String.ofList_toList]

/-- A text without `=`, or the parts around the first one. -/
theorem setting_cases (text : String) :
    '=' ∉ text.toList ∨ ∃ before value : String, '=' ∉ before.toList ∧ text = before ++ "=" ++ value := by
  by_cases h : '=' ∈ text.toList
  · obtain ⟨before, value, htext, hnot⟩ := eq_append_cons_of_mem h
    refine .inr ⟨String.ofList before, String.ofList value, by simpa using hnot, ?_⟩
    apply String.toList_inj.mp
    rw [toList_setting, htext]
    simp
  · exact .inl h

theorem presetSetting?_of_notMem {text : String} (h : '=' ∉ text.toList) : presetSetting? text = none := by
  rw [presetSetting?, Text.cut?_eq_none_iff.mpr h]

theorem presetSetting?_eq_some_iff {text key value : String} :
    presetSetting? text = some (key, value) ↔ GivesSetting text key value := by
  constructor
  · intro h
    obtain hnone | ⟨before, value', hbefore, rfl⟩ := setting_cases text
    · rw [presetSetting?_of_notMem hnone] at h
      cases h
    · rw [presetSetting?_setting hbefore] at h
      split at h
      · cases h
      · next hkey =>
        cases h
        exact ⟨before, hbefore, rfl, rfl, hkey⟩
  · rintro ⟨before, hbefore, rfl, rfl, hkey⟩
    rw [presetSetting?_setting hbefore, if_neg hkey]

theorem presetSetting?_eq_none_iff {text : String} : presetSetting? text = none ↔ Keyless text := by
  constructor
  · intro h
    obtain hnone | ⟨before, value, hbefore, rfl⟩ := setting_cases text
    · exact .inl hnone
    · refine .inr ⟨before, value, hbefore, rfl, ?_⟩
      by_contra hkey
      rw [presetSetting?_setting hbefore, if_neg hkey] at h
      cases h
  · rintro (hnone | ⟨before, value, hbefore, rfl, hkey⟩)
    · exact presetSetting?_of_notMem hnone
    · rw [presetSetting?_setting hbefore, if_pos hkey]

/-! ## Merging -/

/-- The keys of defaults that have one. -/
def defaultKeys (defaults : List String) : List String := (defaults.filterMap presetSetting?).map Prod.fst

/-- The defaults that are added to settings, in their order: those with a key that neither the settings have nor
an earlier default. -/
def freshDefaults (settings : List Meta) (defaults : List String) : List (String × String) :=
  defaults.zipIdx.filterMap fun p => (presetSetting? p.1).filter fun s =>
    s.1 ∉ settings.map (·.key) ∧ s.1 ∉ defaultKeys (defaults.take p.2)

/-- Settings at one place. -/
def settingsAt (pos : Position) (ps : List (String × String)) : List Meta := ps.map fun p => ⟨p.1, p.2, pos⟩

/-- The warnings for defaults without a key, one each. -/
def keylessWarnings (file : String) (pos : Position) (defaults : List String) : List Diagnostic :=
  (defaults.filter fun text => (presetSetting? text).isNone).map fun text => ⟨file, pos, .badPresetOption text⟩

section Merging

variable {settings : List Meta} {defaults : List String} {text : String} {s : String × String}

theorem defaultKeys_concat (defaults : List String) (text : String) :
    defaultKeys (defaults ++ [text]) = defaultKeys defaults ++ ((presetSetting? text).map Prod.fst).toList := by
  cases h : presetSetting? text <;> simp [defaultKeys, h]

/-- One more default has no say on those before it. -/
theorem freshDefaults_concat (settings : List Meta) (defaults : List String) (text : String) :
    freshDefaults settings (defaults ++ [text]) = freshDefaults settings defaults ++
      ((presetSetting? text).filter fun s =>
        s.1 ∉ settings.map (·.key) ∧ s.1 ∉ defaultKeys defaults).toList := by
  rw [freshDefaults, zipIdx_append, filterMap_append]
  congr 1
  · apply filterMap_congr
    intro p hp
    rw [take_append_of_le_length (Nat.le_of_lt (mem_zipIdx' hp).1)]
  · rw [zipIdx_singleton, Nat.zero_add, filterMap_cons, filterMap_nil, take_left]
    cases (presetSetting? text).filter _ <;> rfl

theorem freshDefaults_concat_of_fresh (hs : presetSetting? text = some s)
    (hfresh : s.1 ∉ settings.map (·.key) ∧ s.1 ∉ defaultKeys defaults) :
    freshDefaults settings (defaults ++ [text]) = freshDefaults settings defaults ++ [s] := by
  rw [freshDefaults_concat, hs, Option.filter_some, if_pos (decide_eq_true hfresh)]
  rfl

theorem freshDefaults_concat_of_known
    (h : ∀ s, presetSetting? text = some s → s.1 ∈ settings.map (·.key) ∨ s.1 ∈ defaultKeys defaults) :
    freshDefaults settings (defaults ++ [text]) = freshDefaults settings defaults := by
  have hnone : ((presetSetting? text).filter fun s =>
      s.1 ∉ settings.map (·.key) ∧ s.1 ∉ defaultKeys defaults) = none := by
    rw [Option.filter_eq_none_iff]
    intro s hs
    rw [decide_eq_true_eq, not_and_or, not_not, not_not]
    exact h s hs
  rw [freshDefaults_concat, hnone, Option.toList_none, append_nil]

/-- A default has a key that is not there yet, or no key, or one that is there. -/
theorem fresh_or_known (settings : List Meta) (defaults : List String) (text : String) :
    (∃ s, presetSetting? text = some s ∧ s.1 ∉ settings.map (·.key) ∧ s.1 ∉ defaultKeys defaults) ∨
      ∀ s, presetSetting? text = some s → s.1 ∈ settings.map (·.key) ∨ s.1 ∈ defaultKeys defaults := by
  by_cases h : ∃ s, presetSetting? text = some s ∧ s.1 ∉ settings.map (·.key) ∧ s.1 ∉ defaultKeys defaults
  · exact .inl h
  · right
    intro s hs
    by_contra hnot
    exact h ⟨s, hs, not_or.mp hnot⟩

theorem settingsAt_concat (pos : Position) (ps : List (String × String)) (p : String × String) :
    settingsAt pos (ps ++ [p]) = settingsAt pos ps ++ [⟨p.1, p.2, pos⟩] := map_append

/-- After a merge there is every key of a default, and no key but these and those of the settings. -/
theorem mem_keys_merged (pos : Position) {key : String} :
    key ∈ (settings ++ settingsAt pos (freshDefaults settings defaults)).map (·.key) ↔
      key ∈ settings.map (·.key) ∨ key ∈ defaultKeys defaults := by
  induction defaults using List.reverseRecOn with
  | nil => simp [freshDefaults, settingsAt, defaultKeys]
  | append_singleton defaults text ih =>
    rw [defaultKeys_concat, mem_append, ← or_assoc, ← ih]
    obtain ⟨s, hs, hfresh⟩ | hknown := fresh_or_known settings defaults text
    · rw [freshDefaults_concat_of_fresh hs hfresh, settingsAt_concat, ← append_assoc, map_append,
        mem_append, hs]
      simp
    · rw [freshDefaults_concat_of_known hknown, iff_self_or]
      intro hkey
      obtain ⟨s, hs, rfl⟩ := Option.map_eq_some_iff.mp (Option.mem_toList.mp hkey)
      exact ih.mpr (hknown s hs)

theorem keys_merged_nodup (h : (settings.map (·.key)).Nodup) (pos : Position) (defaults : List String) :
    ((settings ++ settingsAt pos (freshDefaults settings defaults)).map (·.key)).Nodup := by
  induction defaults using List.reverseRecOn with
  | nil => simpa [freshDefaults, settingsAt] using h
  | append_singleton defaults text ih =>
    obtain ⟨s, hs, hfresh⟩ | hknown := fresh_or_known settings defaults text
    · have hnew := mt (mem_keys_merged pos).mp (not_or.mpr hfresh)
      rw [freshDefaults_concat_of_fresh hs hfresh, settingsAt_concat, ← append_assoc, map_append]
      exact nodup_append_comm.mp (nodup_cons.mpr ⟨hnew, ih⟩)
    · rw [freshDefaults_concat_of_known hknown]
      exact ih

theorem mergeDefaults_append (file : String) (pos : Position) (settings : List Meta) (before after : List String) :
    mergeDefaults file pos settings (before ++ after) =
      ((mergeDefaults file pos settings before).1 ++
        (mergeDefaults file pos (mergeDefaults file pos settings before).2 after).1,
      (mergeDefaults file pos (mergeDefaults file pos settings before).2 after).2) := by
  induction before generalizing settings with
  | nil => rfl
  | cons text before ih =>
    rw [cons_append, mergeDefaults, mergeDefaults]
    split
    · simp [ih]
    · split
      · exact ih settings
      · exact ih _

theorem keylessWarnings_concat (file : String) (pos : Position) (defaults : List String) (text : String) :
    keylessWarnings file pos (defaults ++ [text]) = keylessWarnings file pos defaults ++
      if (presetSetting? text).isNone then [⟨file, pos, .badPresetOption text⟩] else [] := by
  cases h : presetSetting? text <;> simp [keylessWarnings, h]

/-- What a merge gives. The settings stay as they are, and behind them come the defaults with a key of their own;
a default without a key gives one warning. -/
theorem mergeDefaults_eq (file : String) (pos : Position) (settings : List Meta) (defaults : List String) :
    mergeDefaults file pos settings defaults =
      (keylessWarnings file pos defaults, settings ++ settingsAt pos (freshDefaults settings defaults)) := by
  -- The merge works from the first default on, with growing settings; so the last default is split off.
  induction defaults using List.reverseRecOn with
  | nil => simp [mergeDefaults, keylessWarnings, freshDefaults, settingsAt]
  | append_singleton defaults text ih =>
    rw [mergeDefaults_append, ih, keylessWarnings_concat]
    obtain ⟨s, hs, hfresh⟩ | hknown := fresh_or_known settings defaults text
    · have hnew := mt (mem_keys_merged pos).mp (not_or.mpr hfresh)
      rw [freshDefaults_concat_of_fresh hs hfresh, settingsAt_concat, ← append_assoc]
      generalize settings ++ settingsAt pos (freshDefaults settings defaults) = merged at hnew ⊢
      have hany : merged.any (·.key == s.1) = false := by simpa using hnew
      simp [mergeDefaults, hs, hany]
    · rw [freshDefaults_concat_of_known hknown]
      cases hs : presetSetting? text with
      | none => simp [mergeDefaults, hs]
      | some s =>
        have hold := (mem_keys_merged pos).mpr (hknown s hs)
        generalize settings ++ settingsAt pos (freshDefaults settings defaults) = merged at hold ⊢
        have hany : merged.any (·.key == s.1) = true := by simpa using hold
        simp [mergeDefaults, hs, hany]

end Merging

/-! ## Resolving -/

namespace Config

/-- The same configuration with another resolver, or with none. -/
def withResolver (cfg : Config) (resolver : Option Resolver) : Config := { cfg with resolver }

/-- Where a name is looked for, first to last. -/
def typesOf (cfg : Config) (u : FlowUnit) (name : String) : List (Option Descriptor) :=
  [cfg.common.find? name, u.locals.find? name]

/-- What the resolver says to the component of a node. It is not asked if there is a type of that name. -/
def answer? (cfg : Config) (u : FlowUnit) (n : Graph.Node) : Option (Except ResolveError Preset) :=
  if (cfg.typesOf u n.component).any Option.isSome then none else cfg.resolver.map (· n.component)

/-- The preset of a node. -/
def preset? (cfg : Config) (u : FlowUnit) (n : Graph.Node) : Option Preset :=
  (cfg.answer? u n).bind Except.toOption

/-- The places where the type of a node is looked for, first to last. -/
def candidates (cfg : Config) (u : FlowUnit) (n : Graph.Node) : List (Option Descriptor) :=
  cfg.typesOf u n.component ++ (cfg.preset? u n).toList.flatMap fun p => cfg.typesOf u p.typeName

/-- The defaults for the settings of a node. -/
def defaultsOf (cfg : Config) (u : FlowUnit) (n : Graph.Node) : List String :=
  (cfg.preset? u n).toList.flatMap (·.options)

/-- The type that a node gets, and where it comes from. -/
def found? (cfg : Config) (u : FlowUnit) (n : Graph.Node) : Option (Descriptor × Role) :=
  (cfg.lookup u n.component).or ((cfg.preset? u n).bind fun p => cfg.lookup u p.typeName)

/-- Why a node gets no type. -/
def missing (cfg : Config) (u : FlowUnit) (n : Graph.Node) : Cause :=
  match cfg.answer? u n with
  | some (.error (.failed text)) => .notResolved n.component text
  | some (.ok p) => .noResolvedType n.component p.typeName
  | _ => .noType n.component n.name

variable {cfg : Config} {u : FlowUnit} {n : Graph.Node}

/-- What a lookup finds is the first type of the name. -/
theorem lookup_map_fst (cfg : Config) (u : FlowUnit) (name : String) :
    (cfg.lookup u name).map Prod.fst = (cfg.typesOf u name).findSome? id := by
  unfold lookup typesOf
  cases cfg.common.find? name with
  | some t => rfl
  | none => cases u.locals.find? name <;> rfl

theorem any_typesOf (cfg : Config) (u : FlowUnit) (name : String) :
    (cfg.typesOf u name).any Option.isSome = (cfg.lookup u name).isSome := by
  unfold lookup typesOf
  cases cfg.common.find? name with
  | some t => rfl
  | none => cases u.locals.find? name <;> rfl

/-- What a node is resolved to, in terms of the preset. -/
theorem resolve_eq (cfg : Config) (u : FlowUnit) (n : Graph.Node) :
    cfg.resolve u n = (keylessWarnings u.path n.pos (cfg.defaultsOf u n),
      match cfg.found? u n with
      | some (t, role) =>
        .ok ⟨t, role, n.settings ++ settingsAt n.pos (freshDefaults n.settings (cfg.defaultsOf u n))⟩
      | none => .error ⟨u.path, n.pos, cfg.missing u n⟩) := by
  unfold resolve found? missing defaultsOf preset? answer?
  rw [any_typesOf]
  cases cfg.lookup u n.component with
  | some found => simp [keylessWarnings, freshDefaults, settingsAt]
  | none =>
    cases cfg.resolver with
    | none => rfl
    | some resolver =>
      cases hanswer : resolver n.component with
      | error e => cases e <;> simp [hanswer, keylessWarnings, Except.toOption]
      | ok p =>
        cases hpreset : cfg.lookup u p.typeName <;>
          simp [hanswer, hpreset, mergeDefaults_eq, Except.toOption]

theorem found?_map_fst (cfg : Config) (u : FlowUnit) (n : Graph.Node) :
    (cfg.found? u n).map Prod.fst = (cfg.candidates u n).findSome? id := by
  rw [found?, candidates, findSome?_append, ← lookup_map_fst]
  cases cfg.preset? u n with
  | none => cases cfg.lookup u n.component <;> rfl
  | some p =>
    rw [Option.toList_some, flatMap_singleton, ← lookup_map_fst]
    cases cfg.lookup u n.component <;> rfl

theorem resolve_type (cfg : Config) (u : FlowUnit) (n : Graph.Node) :
    (cfg.resolve u n).2.toOption.map (·.type) = (cfg.candidates u n).findSome? id := by
  rw [resolve_eq, ← found?_map_fst]
  cases cfg.found? u n <;> rfl

theorem resolve_settings {b : Binding} (h : (cfg.resolve u n).2 = .ok b) :
    b.settings = n.settings ++ settingsAt n.pos (freshDefaults n.settings (cfg.defaultsOf u n)) := by
  rw [resolve_eq] at h
  cases hfound : cfg.found? u n <;> rw [hfound] at h <;> cases h
  rfl

/-- An error is at the place of the node. It is about the resolver only if that failed by itself. -/
theorem resolve_error {e : Diagnostic} (h : (cfg.resolve u n).2 = .error e) :
    e.file = u.path ∧ e.pos = n.pos ∧
      ((∃ text, cfg.answer? u n = some (.error (.failed text))) ∧ e.kind = .indirectionFailure ∨
        (¬∃ text, cfg.answer? u n = some (.error (.failed text))) ∧ e.kind = .typeNotFound) := by
  rw [resolve_eq] at h
  cases hfound : cfg.found? u n <;> rw [hfound] at h <;> cases h
  refine ⟨rfl, rfl, ?_⟩
  unfold Diagnostic.kind missing
  split
  · next text hfailed => exact .inl ⟨⟨text, hfailed⟩, rfl⟩
  · next p hpreset => exact .inr ⟨by simp [hpreset], rfl⟩
  · next hfailed _ => exact .inr ⟨not_exists.mpr hfailed, rfl⟩

/-- A component that is a type is resolved without the resolver. -/
theorem resolve_withResolver (h : (cfg.typesOf u n.component).any Option.isSome = true)
    (resolver : Option Resolver) : (cfg.withResolver resolver).resolve u n = cfg.resolve u n := by
  rw [any_typesOf] at h
  obtain ⟨found, hfound⟩ := Option.isSome_iff_exists.mp h
  have hother : (cfg.withResolver resolver).lookup u n.component = some found := hfound
  rw [resolve, resolve, hother, hfound]

theorem answer?_ne_failed {p : Presets} (h : cfg.resolver = some p.resolver) (text : String) :
    cfg.answer? u n ≠ some (.error (.failed text)) := by
  intro hanswer
  unfold answer? at hanswer
  split at hanswer
  · cases hanswer
  · rw [h, Option.map_some, Presets.resolver] at hanswer
    split at hanswer <;> cases hanswer

/-- What a node with distinct settings is resolved to, for all catalogs, units and resolvers. The type is the first
of the candidates, and the resolver has no say if the component is a type. Without one there is an error at the
place of the node: the resolver's own if it failed, and else, as always with a list of presets, a type that is not
found. The settings are those of the node and then the defaults with a key of their own, in the order of the
preset, all with distinct keys; a default without a key gives one warning and no setting. -/
theorem resolve_precedence (cfg : Config) (u : FlowUnit) (n : Graph.Node)
    (hkeys : (n.settings.map (·.key)).Nodup) :
    (cfg.resolve u n).2.toOption.map (·.type) = (cfg.candidates u n).findSome? id ∧
    ((cfg.typesOf u n.component).any Option.isSome = true →
      ∀ resolver, (cfg.withResolver resolver).resolve u n = cfg.resolve u n) ∧
    (∀ e, (cfg.resolve u n).2 = .error e → e.file = u.path ∧ e.pos = n.pos ∧
      ((∃ text, cfg.answer? u n = some (.error (.failed text))) ∧ e.kind = .indirectionFailure ∨
        (¬∃ text, cfg.answer? u n = some (.error (.failed text))) ∧ e.kind = .typeNotFound) ∧
      ∀ p : Presets, cfg.resolver = some p.resolver → e.kind = .typeNotFound) ∧
    (∀ b, (cfg.resolve u n).2 = .ok b →
      b.settings = n.settings ++ settingsAt n.pos (freshDefaults n.settings (cfg.defaultsOf u n)) ∧
      (b.settings.map (·.key)).Nodup) ∧
    (cfg.resolve u n).1 = keylessWarnings u.path n.pos (cfg.defaultsOf u n) ∧
    (∀ text, presetSetting? text = none ↔ Keyless text) ∧
    ∀ text key value, presetSetting? text = some (key, value) ↔ GivesSetting text key value := by
  refine ⟨resolve_type cfg u n, resolve_withResolver, fun e he => ?_, fun b hb => ?_, by rw [resolve_eq],
    fun _ => presetSetting?_eq_none_iff, fun _ _ _ => presetSetting?_eq_some_iff⟩
  · obtain ⟨hfile, hpos, hkind⟩ := resolve_error he
    refine ⟨hfile, hpos, hkind, fun p hp => ?_⟩
    obtain ⟨⟨text, hfailed⟩, -⟩ | ⟨-, hkind⟩ := hkind
    · exact absurd hfailed (answer?_ne_failed hp text)
    · exact hkind
  · have hsettings := resolve_settings hb
    refine ⟨hsettings, ?_⟩
    rw [hsettings]
    exact keys_merged_nodup hkeys n.pos _

/-- A type with two options. -/
def beatType : Descriptor where
  name := "timer"
  symbol := "lib.Timer"
  options := [⟨"interval", "int", none⟩, ⟨"label", "string", none⟩]

/-- A catalog with that type, and a resolver with a preset for it and an id that it fails on. -/
def beatConfig : Config where
  storage := ⟨[], []⟩
  common := ⟨[beatType], []⟩
  resolver := some fun id =>
    if id = "Beat" then .ok ⟨"timer", ["interval=250", "broken", " label = x", "label=y", " =z"]⟩
    else if id = "Broken" then .error (.failed "backend unavailable")
    else .error (.undeclared id)

/-- A unit that declares a type of the same name. -/
def beatUnit : FlowUnit where
  id := 0
  name := "main"
  path := "main.fbp"
  graph := {}
  parent := none
  stem := "Main"
  locals := ⟨[{ beatType with symbol := "Main.Timer" }], []⟩

/-- A node that is resolved through the preset. -/
def beatNode : Graph.Node := ⟨"b", "Beat", [⟨"interval", "10", ⟨1, 8⟩⟩], ⟨1, 1⟩⟩

/-- Of the five defaults two have no key, one is set by the node and one is given before. -/
theorem resolve_precedence_beat :
    (∃ b, (beatConfig.resolve beatUnit beatNode).2 = .ok b ∧ b.type = beatType ∧
      b.settings = [⟨"interval", "10", ⟨1, 8⟩⟩, ⟨"label", " x", ⟨1, 1⟩⟩]) ∧
    (beatConfig.resolve beatUnit beatNode).1 =
      [⟨"main.fbp", ⟨1, 1⟩, .badPresetOption "broken"⟩, ⟨"main.fbp", ⟨1, 1⟩, .badPresetOption " =z"⟩] ∧
    ∃ e, (beatConfig.resolve beatUnit ⟨"c", "Broken", [], ⟨2, 1⟩⟩).2 = .error e ∧ e.pos = ⟨2, 1⟩ ∧
      e.kind = .indirectionFailure := by
  obtain ⟨htype, -, -, hok, hwarnings, -⟩ := resolve_precedence beatConfig beatUnit beatNode (by decide)
  obtain ⟨hnone, -, herror, -⟩ :=
    resolve_precedence beatConfig beatUnit ⟨"c", "Broken", [], ⟨2, 1⟩⟩ (by decide)
  have hfound : (beatConfig.candidates beatUnit beatNode).findSome? id = some beatType := by decide +kernel
  have hmissed : (beatConfig.candidates beatUnit ⟨"c", "Broken", [], ⟨2, 1⟩⟩).findSome? id = none := by
    decide +kernel
  refine ⟨?_, hwarnings.trans (by decide +kernel), ?_⟩
  · rw [hfound] at htype
    cases hb : (beatConfig.resolve beatUnit beatNode).2 with
    | error e =>
      rw [hb] at htype
      cases htype
    | ok b =>
      rw [hb] at htype
      exact ⟨b, rfl, Option.some.inj htype, (hok b hb).1.trans (by decide +kernel)⟩
  · rw [hmissed] at hnone
    cases he : (beatConfig.resolve beatUnit ⟨"c", "Broken", [], ⟨2, 1⟩⟩).2 with
    | ok b =>
      rw [he] at hnone
      cases hnone
    | error e =>
      obtain ⟨-, hpos, ⟨-, hkind⟩ | ⟨hnot, -⟩, -⟩ := herror e he
      · exact ⟨e, rfl, hpos, hkind⟩
      · exact absurd ⟨"backend unavailable", rfl⟩ hnot

end Config

end FlowCompiler
