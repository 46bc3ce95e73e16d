import FlowCompiler.Proofs.Compile.Resolution
import FlowCompiler.Proofs.Options.Overlay
import FlowCompiler.Proofs.Options.Suboptions
import FlowCompiler.Proofs.Presets.Sorted
import FlowCompiler.Proofs.Text.Literals

/-!
# Objects as values of options

An object can be the default of an option in a catalog, where its fields are set one by one, and the value of an
option in a preset, where it is written as one text: `key=field:token|...`. That text is merged into the settings
of a node, cut at its marks and read again. Tokens that a catalog takes have no mark and no blank in them
(`Numeral.token?_plain`), so both ways set the same fields.

Main statement: `Preset.object_means_default`.
-/

namespace FlowCompiler

open List

variable {settings : List Meta} {defaults : List String}

/-! ## Characters of raw tokens -/

namespace Text

variable {c : Char}

/-- A character that is no single byte is among the runes of its text, whatever bytes stand around it. -/
theorem char_mem_runesOf {cs : List Char} (hc : c ∈ cs) (hstray : isStray c = false) :
    Rune.char c ∈ runesOf cs := by
  unfold runesOf
  split
  · obtain ⟨before, after, rfl⟩ := append_of_mem hc
    have hbytes : bytesOf (before ++ c :: after) = bytesOf before ++ (encodePoint c.toNat ++ bytesOf after) := by
      rw [bytesOf_append]
      simp [bytesOf, charBytes, hstray]
    dsimp only
    rw [hbytes, runesOfBytes_append (head?_encodePoint _ _) le_rfl]
    apply mem_append_right
    have hlead := leadingChar?_encodePoint c (bytesOf after)
    cases hpoint : encodePoint c.toNat with
    | nil => exact absurd hpoint (encodePoint_ne_nil _)
    | cons b bs =>
      rw [hpoint, cons_append] at hlead
      rw [cons_append, length_append, length_cons, Nat.add_succ, runesOfBytes, hlead]
      exact mem_cons_self
  · exact mem_map_of_mem hc

/-- A character without an upper case stays in a text that is put into lower case. -/
theorem mem_lowercase {s : String} (hc : c ∈ s.toList) (hstray : isStray c = false) (hlower : toLower c = c) :
    c ∈ (lowercase s).toList := by
  have hshown : c ∈ shownChars s.toList := mem_map.mpr ⟨.char c, char_mem_runesOf hc hstray, rfl⟩
  rw [lowercase, toList_received, String.toList_ofList]
  refine mem_flatMap.mpr ⟨c, mem_map.mpr ⟨c, hshown, hlower⟩, ?_⟩
  rw [kept_of_not_isStray hstray]
  exact mem_singleton_self c

theorem blank_lowercase (h : isBlank c = true) : isStray c = false ∧ toLower c = c := by
  have hall : ∀ n ∈ blankPoints, isStray (Char.ofNat n) = false ∧ toLower (Char.ofNat n) = Char.ofNat n := by
    decide +kernel
  have hc := hall c.toNat (mem_blankPoints h)
  rwa [Char.ofNat_toNat] at hc

end Text

namespace Numeral

variable {dataType tok normal : String}

/-- Characters that can stand inside a token: they neither end a segment nor are dropped at its ends. -/
def isInner (c : Char) : Bool := !Text.isBlank c && c != '|'

theorem isInner_of_isNumeralChar {c : Char} (h : isNumeralChar c = true) : isInner c = true := by
  have hbar : c ≠ '|' := by
    rintro rfl
    exact absurd h (by decide)
  simp [isInner, isBlank_of_isNumeralChar h, hbar]

/-- A word has characters inside a token only, however its letters are written. -/
theorem isInner_of_lowercase {body word : String} (hword : Text.lowercase body = word)
    (h : ∀ c ∈ word.toList, isInner c = true) : ∀ c ∈ body.toList, isInner c = true := by
  intro c hc
  by_contra hnot
  -- Such a character has no upper case, so the word has it too.
  have hsame : Text.isStray c = false ∧ Text.toLower c = c := by
    by_cases hblank : Text.isBlank c = true
    · exact Text.blank_lowercase hblank
    · have hbar : c = '|' := by simpa [isInner, hblank] using hnot
      rw [hbar]
      decide
  have hmem := Text.mem_lowercase hc hsame.1 hsame.2
  rw [hword] at hmem
  exact hnot (h c hmem)

theorem float?_inner (h : float? tok = some normal) : ∀ c ∈ tok.toList, isInner c = true := by
  have hword : ∀ word ∈ ["nan", "inf", "infinity"], Text.lowercase (unsignedPart tok) = word →
      ∀ c ∈ tok.toList, isInner c = true := by
    intro word hmem hlower
    have hletters : ∀ c ∈ word.toList, isInner c = true := by
      have hall : ∀ w ∈ ["nan", "inf", "infinity"], w.toList.all isInner = true := by decide
      exact all_eq_true.mp (hall word hmem)
    rw [← signs_append_unsignedPart tok, String.toList_append]
    refine forall_mem_append.mpr ⟨fun c hc => ?_, isInner_of_lowercase hlower hletters⟩
    exact isInner_of_isNumeralChar (signs_chars tok c hc)
  obtain ⟨-, ⟨hnan, -⟩ | ⟨hinf | hinf, -⟩ | ⟨-, rfl⟩⟩ := float?_eq_some h
  · exact hword "nan" (by simp) hnan
  · exact hword "inf" (by simp) hinf
  · exact hword "infinity" (by simp) hinf
  · exact fun c hc => isInner_of_isNumeralChar (float?_chars h c hc)

/-- What is a token of a data type can stand in a segment and is read there as it is. -/
theorem token?_plain (h : token? dataType tok = some normal) : tok ≠ "" ∧ ∀ c ∈ tok.toList, isInner c = true := by
  constructor
  · rintro rfl
    rw [token?_empty] at h
    cases h
  · simp only [token?] at h
    split at h
    · obtain rfl := int?_eq_some h
      exact fun c hc => isInner_of_isNumeralChar (int?_chars h c hc)
    · split at h
      · obtain ⟨n, hn, -⟩ := Option.map_eq_some_iff.mp h
        exact fun c hc => isInner_of_isNumeralChar (Number.unsigned?_chars hn c hc)
      · exact float?_inner h

/-- The normal form of a token, and nothing for what is none. -/
def normalOf (dataType tok : String) : String := (token? dataType tok).getD ""

theorem token?_normalOf (h : token? dataType tok = some normal) :
    token? dataType tok = some (normalOf dataType tok) := by
  rw [normalOf, h, Option.getD_some]

end Numeral

/-! ## Fields of an object -/

open Document

/-- The fields of an object with their texts. -/
def fieldsOf (entries : List (Node × Node)) : List (String × String) := entries.map fun e => (e.1.text, e.2.text)

/-- Whether every field of an object can be set in a composite. -/
structure FieldsFit (dataType : String) (shape : Shape) (entries : List (Node × Node)) : Prop where
  scalar : ∀ e ∈ entries, e.2.isScalar = true
  field : ∀ p ∈ fieldsOf entries, p.1 ∈ shape.fields
  token : ∀ p ∈ fieldsOf entries, Numeral.token? dataType p.2 = some (Numeral.normalOf dataType p.2)

section

variable {dataType : String} {c c' : Composite} {entries : List (Node × Node)}

/-- A default of a catalog: all its fields fit, and they are set one after the other. -/
theorem Value.setFields_eq_ok (hnull : ∀ e ∈ entries, e.2.isNull = false)
    (h : setFields dataType c entries = .ok c') :
    FieldsFit dataType c.shape entries ∧
      c' = c.putAll ((fieldsOf entries).map fun p => (p.1, Numeral.normalOf dataType p.2)) := by
  induction entries generalizing c with
  | nil =>
    cases h
    exact ⟨⟨by simp, by simp [fieldsOf], by simp [fieldsOf]⟩, rfl⟩
  | cons e entries ih =>
    obtain ⟨k, v⟩ := e
    rw [forall_mem_cons] at hnull
    rw [setFields] at h
    split at h
    · cases h
    · next hscalar =>
      split at h
      · cases h
      · next hfield =>
        rw [if_neg (by rw [hnull.1]; exact Bool.false_ne_true)] at h
        split at h
        · cases h
        · next tok htok =>
          obtain ⟨hfits, rfl⟩ := ih hnull.2 h
          have hput : (c.set? k.text tok).getD c = c.put (k.text, Numeral.normalOf dataType v.text) := by
            rw [Numeral.normalOf, htok, Option.getD_some, Composite.put]
          rw [hput] at hfits ⊢
          rw [Composite.shape_put] at hfits
          refine ⟨⟨?_, ?_, ?_⟩, rfl⟩
          · exact forall_mem_cons.mpr ⟨by simpa using hscalar, hfits.scalar⟩
          · exact forall_mem_cons.mpr ⟨by simpa using hfield, hfits.field⟩
          · exact forall_mem_cons.mpr ⟨Numeral.token?_normalOf htok, hfits.token⟩

theorem Preset.fieldParts_of_scalar (option : String) (h : ∀ e ∈ entries, e.2.isScalar = true) :
    fieldParts option entries = .ok ((fieldsOf entries).map fun p => p.1 ++ ":" ++ p.2) := by
  induction entries with
  | nil => rfl
  | cons e entries ih =>
    obtain ⟨k, v⟩ := e
    rw [forall_mem_cons] at h
    simp [fieldParts, h.1, ih h.2, fieldsOf]

/-- The text of an object in a preset. -/
def objectText (entries : List (Node × Node)) : String :=
  "|".intercalate ((fieldsOf entries).map fun p => p.1 ++ ":" ++ p.2)

theorem toList_objectText (entries : List (Node × Node)) :
    (objectText entries).toList = ['|'].intercalate ((fieldsOf entries).map Composite.segment) :=
  Composite.toList_segments (fieldsOf entries)

/-! ## The text of an object, read again -/

theorem Composite.overlay_empty (dataType key : String) (c : Composite) : c.overlay dataType key "" = (c, []) := by
  obtain ⟨first, hfirst⟩ : ∃ first, c.shape.fields[0]? = some first := by
    cases c.shape <;> exact ⟨_, rfl⟩
  have htarget : segmentTarget c.shape key false 0 (Text.trimChars []) = .ok (first, "") := by
    have htrim : Text.trimChars [] = [] := rfl
    simp [segmentTarget, htrim, hfirst]
  have hmem : first ∈ c.shape.fields := mem_of_getElem? hfirst
  simp [overlay, applySegments, applySegment, htarget, hmem]

theorem FieldsFit.overlay_text (h : FieldsFit dataType c.shape entries) (key : String) :
    c.overlay dataType key (objectText entries) =
      (c.putAll ((fieldsOf entries).map fun p => (p.1, Numeral.normalOf dataType p.2)), []) := by
  by_cases hempty : fieldsOf entries = []
  · -- An empty text has one segment, which is empty.
    have htext : objectText entries = "" := by rw [objectText, hempty]; rfl
    rw [htext, hempty, Composite.overlay_empty]
    rfl
  have hinner : ∀ p ∈ fieldsOf entries, p.2 ≠ "" ∧ ∀ x ∈ p.2.toList, Numeral.isInner x = true := fun p hp =>
    Numeral.token?_plain (h.token p hp)
  refine Composite.overlay_segments (toList_objectText entries) hempty ?_ h.field ?_ ?_ h.token key
  · intro p hp hbar
    exact absurd ((hinner p hp).2 _ hbar) (by decide)
  · intro p hp x hx
    have hx' := (hinner p hp).2 x hx
    simp only [Numeral.isInner, Bool.and_eq_true, Bool.not_eq_true'] at hx'
    exact hx'.1
  · exact fun p hp => (hinner p hp).1

theorem FieldsFit.canonical {shape : Shape} (h : FieldsFit dataType shape entries) :
    FieldsFit (DataType.canonical dataType) shape entries where
  scalar := h.scalar
  field := h.field
  token := by simpa [Numeral.normalOf] using h.token

/-- An object means the same as the default of an option and as the text of a setting for it. -/
theorem encode_objectText {head : Head} {flow : Bool} {v : Value} (hshape : (Shape.ofType? dataType).isSome)
    (hnull : ∀ e ∈ entries, e.2.isNull = false)
    (h : Value.ofNode? dataType (.mapping head flow entries) = .ok (some v)) :
    (∀ e ∈ entries, e.2.isScalar = true) ∧
      ∀ name key, (OptionSpec.mk name dataType none).encode key (objectText entries) = (some v, []) := by
  obtain ⟨shape, hshape⟩ := Option.isSome_iff_exists.mp hshape
  have hnode : (Node.mapping head flow entries).isNull = false := rfl
  simp only [Value.ofNode?, hnode, hshape, Value.compositeOf, Bool.false_eq_true, if_false] at h
  cases hset : Value.setFields dataType (Composite.empty shape) entries with
  | error f =>
    rw [hset] at h
    cases h
  | ok c =>
    rw [hset] at h
    cases h
    obtain ⟨hfits, rfl⟩ := Value.setFields_eq_ok hnull hset
    refine ⟨hfits.scalar, fun name key => ?_⟩
    have hplain := Composite.plainText_segments (toList_objectText entries) hfits.field
    have hread := hfits.canonical.overlay_text key
    have hbase : (OptionSpec.mk name dataType none).baseComposite shape = Composite.empty shape := rfl
    simp only [OptionSpec.encode, Shape.ofType?_canonical, hshape, hplain, hbase, hread]
    simp [Numeral.normalOf]

end

/-! ## Merged settings -/

/-- Defaults that agree on the value of a key add it once, if at all. -/
theorem freshDefaults_filter {key value : String} (hkey : key ∉ settings.map (·.key))
    (hagree : ∀ text ∈ defaults, ∀ value', presetSetting? text = some (key, value') → value' = value) :
    (freshDefaults settings defaults).filter (·.1 == key) =
      if key ∈ defaultKeys defaults then [(key, value)] else [] := by
  induction defaults using List.reverseRecOn with
  | nil => simp [freshDefaults, defaultKeys]
  | append_singleton defaults text ih =>
    rw [forall_mem_append] at hagree
    have hbefore := ih hagree.1
    rw [defaultKeys_concat]
    obtain ⟨s, hs, hfresh⟩ | hknown := fresh_or_known settings defaults text
    · rw [freshDefaults_concat_of_fresh hs hfresh, filter_append, hbefore, hs]
      by_cases hsame : s.1 = key
      · have hvalue : s = (key, value) := by
          have hgiven := hagree.2 text (mem_singleton_self text) s.2 (hsame ▸ hs)
          exact Prod.ext hsame hgiven
        rw [hsame] at hfresh
        simp [hvalue, hfresh.2]
      · simp [hsame, Ne.symm hsame]
    · rw [freshDefaults_concat_of_known hknown, hbefore]
      -- A key that the last default has is there already.
      have hold : key ∈ ((presetSetting? text).map Prod.fst).toList → key ∈ defaultKeys defaults := by
        intro hmem
        obtain ⟨s, hs, rfl⟩ := Option.map_eq_some_iff.mp (Option.mem_toList.mp hmem)
        exact (hknown s hs).resolve_left hkey
      have hiff : key ∈ defaultKeys defaults ++ ((presetSetting? text).map Prod.fst).toList ↔
          key ∈ defaultKeys defaults := by
        rw [mem_append]
        exact or_iff_left_of_imp hold
      simp only [hiff]

/-- A default whose key the settings do not have is merged in, if no other one gives the key another value. -/
theorem mergeDefaults_filter {text key value : String} (hkey : key ∉ settings.map (·.key))
    (htext : text ∈ defaults) (hgives : GivesSetting text key value)
    (hagree : ∀ s ∈ defaults, ∀ value', GivesSetting s key value' → value' = value) (file : String)
    (pos : Position) :
    (mergeDefaults file pos settings defaults).2.filter (·.key == key) = [⟨key, value, pos⟩] := by
  have hmem : key ∈ defaultKeys defaults := by
    refine mem_map.mpr ⟨(key, value), mem_filterMap.mpr ⟨text, htext, ?_⟩, rfl⟩
    exact presetSetting?_eq_some_iff.mpr hgives
  have hfresh : (freshDefaults settings defaults).filter (·.1 == key) = [(key, value)] := by
    rw [freshDefaults_filter hkey, if_pos hmem]
    intro s hs value' hs'
    exact hagree s hs value' (presetSetting?_eq_some_iff.mp hs')
  have hold : settings.filter (·.key == key) = [] := by
    rw [filter_eq_nil_iff]
    intro m hm hmkey
    exact hkey (mem_map.mpr ⟨m, hm, by simpa using hmkey⟩)
  rw [mergeDefaults_eq, filter_append, hold, settingsAt, filter_map]
  simp only [Function.comp_def, hfresh]
  rfl

/-- A setting that is the only one of its key gives its option the value of its text. -/
theorem Descriptor.encode_of_filter {d : Descriptor} {m : Meta} {i : Nat} {o : OptionSpec}
    (hknows : ∀ x ∈ settings, d.Knows x) (hone : settings.filter (·.key == m.key) = [m])
    (hi : d.optionIndex? m.key = some i) (ho : d.options[i]? = some o) (file : String) :
    ∃ vs, d.encode file settings = (settings.flatMap (d.warningsOf file), .ok vs) ∧
      vs[i]? = some ⟨o.name, o.dataType, (o.encode m.key m.value).1⟩ := by
  obtain ⟨vs, hvs⟩ := encode_of_knows hknows file
  have hmem : ∀ x, x ∈ settings ∧ x.key = m.key ↔ x = m := by
    intro x
    have hx : x ∈ settings.filter (·.key == m.key) ↔ x ∈ settings ∧ x.key = m.key := by simp
    rw [hone, mem_singleton] at hx
    exact hx.symm
  have hlen : i < d.defaults.length := by
    rw [defaults, length_map]
    exact (List.getElem?_eq_some_iff.mp ho).1
  refine ⟨vs, hvs, overlay_agreed hvs ⟨m, (hmem m).mpr rfl⟩ (fun x hx hkey => ?_) hi ho hlen⟩
  rw [(hmem x).mp ⟨hx, hkey⟩]

namespace Preset

theorem setting_object {entries : List (Node × Node)} (hscalar : ∀ e ∈ entries, e.2.isScalar = true) (k : Node)
    (head : Head) (flow : Bool) :
    optionText k.text (.mapping head flow entries) = .ok (objectText entries) ∧
      setting (k, .mapping head flow entries) = k.text ++ "=" ++ objectText entries := by
  have htext : optionText k.text (.mapping head flow entries) = .ok (objectText entries) := by
    rw [optionText, fieldParts_of_scalar k.text hscalar]
    rfl
  refine ⟨htext, ?_⟩
  simp [setting, valueOf, htext, Except.toOption]

/-- An object that is a default of a data type with fields, as the value of an option in a preset. It is written as
one text behind its key, alone or among other options. Where a node does not set the key and no other default gives
the key another value, the text is merged into the settings of the node once; and an option of that key and data
type gets from it the value that is the default, without a warning. -/
theorem object_means_default {dataType : String} (hshape : (Shape.ofType? dataType).isSome) {head : Head}
    {flow : Bool} {entries : List (Node × Node)} {v : Value} (hnull : ∀ e ∈ entries, e.2.isNull = false)
    (hdefault : Value.ofNode? dataType (.mapping head flow entries) = .ok (some v)) {k : Node}
    (hkey : k.text ≠ "") (htrim : Text.trim k.text = k.text) (hmark : '=' ∉ k.text.toList) :
    ∃ text, optionText k.text (.mapping head flow entries) = .ok text ∧
      (OptionSpec.mk k.text dataType none).encode k.text text = (some v, []) ∧
      (∀ h' flow', Head.tag h' ≠ .null →
        optionsOf (some (.mapping h' flow' [(k, .mapping head flow entries)])) = .ok [k.text ++ "=" ++ text]) ∧
      (∀ h' flow' options defaults, Head.tag h' ≠ .null → (k, .mapping head flow entries) ∈ options →
        optionsOf (some (.mapping h' flow' options)) = .ok defaults → k.text ++ "=" ++ text ∈ defaults) ∧
      ∀ file pos settings defaults w merged, k.text ++ "=" ++ text ∈ defaults →
        (∀ s ∈ defaults, ∀ value, GivesSetting s k.text value → value = text) →
        k.text ∉ settings.map (·.key) → mergeDefaults file pos settings defaults = (w, merged) →
        merged.filter (·.key == k.text) = [⟨k.text, text, pos⟩] ∧
        ∀ d i, Descriptor.optionIndex? d k.text = some i → d.options[i]? = some ⟨k.text, dataType, none⟩ →
          d.warningsOf file ⟨k.text, text, pos⟩ = [] ∧
          ((∀ m ∈ merged, d.Knows m) → ∃ vs, d.encode file merged = (merged.flatMap (d.warningsOf file), .ok vs) ∧
            vs[i]? = some ⟨k.text, dataType, some v⟩) := by
  obtain ⟨hscalar, hencode⟩ := encode_objectText hshape hnull hdefault
  obtain ⟨htext, hsetting⟩ := setting_object hscalar k head flow
  have hgives : GivesSetting (k.text ++ "=" ++ objectText entries) k.text (objectText entries) :=
    ⟨k.text, hmark, rfl, htrim, hkey⟩
  refine ⟨objectText entries, htext, hencode _ _, ?_, ?_, ?_⟩
  · intro h' flow' htag
    rw [optionsOf_mapping htag, optionTexts, htext]
    exact congrArg Except.ok (Text.sorted_of_pairwise (pairwise_singleton _ _))
  · intro h' flow' options defaults htag hmem hok
    obtain ⟨-, rfl⟩ := (optionsOf_eq_ok_iff htag).mp hok
    rw [← hsetting, (Text.sorted_perm _).mem_iff]
    exact mem_map_of_mem hmem
  · intro file pos settings defaults w merged hmem hagree hnew hmerge
    have hone := mergeDefaults_filter hnew hmem hgives hagree file pos
    rw [hmerge] at hone
    refine ⟨hone, fun d i hi ho => ⟨?_, fun hknows => ?_⟩⟩
    · have hspec : d.spec? k.text = some ⟨k.text, dataType, none⟩ := by rw [Descriptor.spec?, hi]; exact ho
      simp [Descriptor.warningsOf, hspec, hencode]
    · obtain ⟨vs, hvs, hvalue⟩ :=
        Descriptor.encode_of_filter (m := ⟨k.text, objectText entries, pos⟩) hknows hone hi ho file
      rw [hencode] at hvalue
      exact ⟨vs, hvs, hvalue⟩

/-- A range of floats that sets one field twice and has words for numbers that are not finite. -/
def spanEntries : List (Node × Node) :=
  [(plain "max", plain "-Infinity"), (plain "val", plain "0x1p-2"), (plain "max", plain "NaN")]

def spanText : String := "max:-Infinity|val:0x1p-2|max:NaN"

def spanValue : Value := .composite ⟨.range, ["0x1p-2", "", "nan", ""], rfl⟩

def spanOptions : List (Node × Node) := [(plain "rate", plain "2"), (plain "span", object spanEntries)]

def spanDefaults : List String := ["rate=2", "span=" ++ spanText]

def spanSettings : List Meta := [⟨"rate", "5", ⟨1, 3⟩⟩]

def spanMerged : List Meta := spanSettings ++ [⟨"span", spanText, ⟨1, 1⟩⟩]

def spanType : Descriptor where
  name := "meter"
  symbol := "lib.Meter"
  options := [⟨"rate", "byte", none⟩, ⟨"span", "drange", none⟩]

/-- A node that sets another option of the preset itself. -/
theorem object_means_default_span :
    (∀ e ∈ spanEntries, e.2.isNull = false) ∧
    Value.ofNode? "drange" (object spanEntries) = .ok (some spanValue) ∧
    optionsOf (some (object spanOptions)) = .ok spanDefaults ∧
    mergeDefaults "main.fbp" ⟨1, 1⟩ spanSettings spanDefaults = ([], spanMerged) ∧
    ∃ vs, spanType.encode "main.fbp" spanMerged = ([], .ok vs) ∧
      vs[1]? = some ⟨"span", "drange", some spanValue⟩ := by
  have hnull : ∀ e ∈ spanEntries, e.2.isNull = false := by decide
  have hdefault : Value.ofNode? "drange" (object spanEntries) = .ok (some spanValue) := by decide +kernel
  have hoptions : optionsOf (some (object spanOptions)) = .ok spanDefaults := by
    refine (optionsOf_eq_ok_iff (by decide)).mpr ⟨by decide +kernel, ?_⟩
    exact (Text.sorted_of_pairwise (by decide +kernel)).symm
  have hmerge : mergeDefaults "main.fbp" ⟨1, 1⟩ spanSettings spanDefaults = ([], spanMerged) := by decide +kernel
  obtain ⟨text, htext, -, -, hmem, hread⟩ :=
    object_means_default (k := plain "span") (by decide) hnull hdefault (by decide) (by decide) (by decide)
  have htext' : optionText "span" (object spanEntries) = .ok spanText := by decide +kernel
  obtain rfl : text = spanText := Except.ok.inj (htext.symm.trans htext')
  have hin := hmem _ _ spanOptions spanDefaults (by decide) (by simp [spanOptions, object]) hoptions
  have hagree : ∀ s ∈ spanDefaults, ∀ value, GivesSetting s "span" value → value = spanText := by
    have hall : ∀ s ∈ spanDefaults, ∀ p ∈ presetSetting? s, p.1 = "span" → p.2 = spanText := by decide +kernel
    intro s hs value hgives
    exact hall s hs _ (presetSetting?_eq_some_iff.mpr hgives) rfl
  obtain ⟨-, hvalue⟩ := hread "main.fbp" ⟨1, 1⟩ spanSettings spanDefaults _ _ hin hagree (by decide) hmerge
  obtain ⟨-, hencode⟩ := hvalue spanType 1 (by decide) rfl
  obtain ⟨vs, hvs, hat⟩ := hencode (by decide)
  have hwarnings : spanMerged.flatMap (spanType.warningsOf "main.fbp") = [] := by decide +kernel
  rw [hwarnings] at hvs
  exact ⟨hnull, hdefault, hoptions, hmerge, vs, hvs, hat⟩

end Preset

end FlowCompiler
