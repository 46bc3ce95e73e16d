import FlowCompiler.Proofs.Naming.Words
import FlowCompiler.Proofs.Options.Numerals
import FlowCompiler.Proofs.Options.RoundTrip
import FlowCompiler.Proofs.Text.Cuts

/-!
# Composite values written with field names

A composite value is printed as its set fields, `name:token` between bars. In a flow that text stands as the
value of a setting without quotes; it is cut at the bars, each part at its colon, and each token is checked
and laid over the default.

Main statements:
* `Numeral.token?_stable`: a token in its normal form is read as it is, wherever it stands.
* `Composite.text_read_back`: all of these steps give the fields back. The value of the option has the fields that
  were printed, and those of the default for the rest.
-/

namespace FlowCompiler

open List

variable {ps : List (String × String)} {p : String × String} {normal : String → String} {k : String}

/-! ## Characters of fields and tokens -/

theorem isSettingChar_of_isNumeralChar {c : Char} (h : isNumeralChar c = true) :
    isSettingChar c = true := by
  simp only [isNumeralChar, Bool.or_eq_true, beq_iff_eq] at h
  simp only [isSettingChar, isComponentChar, isNameChar, Bool.or_eq_true, beq_iff_eq]
  tauto

theorem toNat_lt_of_isNumeralChar {c : Char} (h : isNumeralChar c = true) : c.toNat < 128 := by
  simp only [isNumeralChar, Bool.or_eq_true, beq_iff_eq] at h
  rcases h with (((h | rfl) | rfl) | rfl) | rfl
  · exact Naming.toNat_lt_of_isNameChar (by simp [isNameChar, h])
  · decide
  · decide
  · decide
  · decide

theorem isBlank_of_isNumeralChar {c : Char} (h : isNumeralChar c = true) : Text.isBlank c = false :=
  Text.forall_ascii (P := fun c => isNumeralChar c = true → Text.isBlank c = false) (by decide)
    (toNat_lt_of_isNumeralChar h) h

theorem Shape.fields_chars {shape : Shape} {field : String} (h : field ∈ shape.fields) :
    ∀ c ∈ field.toList, isNumeralChar c = true := by
  have hall : ∀ f ∈ shape.fields, f.toList.all isNumeralChar = true := by cases shape <;> decide
  exact all_eq_true.mp (hall field h)

/-! ## Normal forms of tokens -/

namespace Numeral

theorem token?_empty (dataType : String) : token? dataType "" = none := by
  simp only [token?]
  split_ifs <;> decide

/-- The normal form of a token is its own normal form. It is not empty, can stand as a value without quotes, and has
no character that ends a segment, parts one or is dropped at its ends. It is the same under every name of the data
type. -/
theorem token?_stable {dataType tok normal : String} (h : token? dataType tok = some normal) :
    token? dataType normal = some normal ∧ normal ≠ "" ∧
      (∀ c ∈ normal.toList, isSettingChar c = true ∧ Text.isBlank c = false ∧ c ≠ ':' ∧ c ≠ '|') ∧
      ∀ other, DataType.canonical other = DataType.canonical dataType →
        token? other tok = some normal ∧ token? other normal = some normal := by
  have hnormal := token?_normal h
  refine ⟨hnormal, ?_, fun c hc => ?_, fun other hother => ?_⟩
  · rintro rfl
    rw [token?_empty] at hnormal
    cases hnormal
  · have hchar := token?_chars h c hc
    refine ⟨isSettingChar_of_isNumeralChar hchar, isBlank_of_isNumeralChar hchar, ?_, ?_⟩
    · rintro rfl
      cases hchar
    · rintro rfl
      cases hchar
  · -- only the canonical name of a data type counts
    have hsame : ∀ text, token? other text = token? dataType text := fun text => by
      rw [← token?_canonical, hother, token?_canonical]
    rw [hsame, hsame]
    exact ⟨h, hnormal⟩

/-- An infinity is written anew, a number and the name of a limit stay as they are; each of the data types has a second
name. -/
theorem token?_stable_aliases :
    (token? "drange" "-Infinity" = some "-inf" ∧ token? "float" "-inf" = some "-inf") ∧
    token? "irange" "0x_1F" = some "0x_1F" ∧ token? "direction_vector" "+DBL_MAX" = some "+DBL_MAX" ∧
    token? "drange_spec" "NaN" = some "nan" := by
  have hfloat := token?_stable (show token? "float" "-Infinity" = some "-inf" by decide +kernel)
  have hint := token?_stable (show token? "int" "0x_1F" = some "0x_1F" by decide +kernel)
  have hvector := token?_stable (show token? "direction-vector" "+DBL_MAX" = some "+DBL_MAX" by decide +kernel)
  have hspec := token?_stable (show token? "drange-spec" "NaN" = some "nan" by decide +kernel)
  exact ⟨⟨(hfloat.2.2.2 "drange" rfl).1, hfloat.1⟩, (hint.2.2.2 "irange" rfl).1,
    (hvector.2.2.2 "direction_vector" rfl).1, (hspec.2.2.2 "drange_spec" rfl).1⟩

end Numeral

namespace Composite

/-! ## Fields of a composite -/

variable {c v : Composite} {field tok dataType : String}

theorem lookup_zip {ks vs : List String} (hnodup : ks.Nodup) (hlength : vs.length = ks.length) {i : Nat}
    (hk : ks[i]? = some k) : (ks.zip vs).lookup k = vs[i]? := by
  induction ks generalizing vs i with
  | nil => cases hk
  | cons a ks ih =>
    cases vs with
    | nil => cases hlength
    | cons b vs =>
      obtain ⟨hnew, hnodup⟩ := nodup_cons.mp hnodup
      rw [zip_cons_cons, lookup_cons]
      cases i with
      | zero =>
        cases hk
        simp
      | succ i =>
        rw [getElem?_cons_succ] at hk
        have hne : k ≠ a := ne_of_mem_of_not_mem (mem_of_getElem? hk) hnew
        simpa [beq_eq_false_iff_ne.mpr hne] using ih hnodup (by simpa using hlength) hk

theorem lookup_of_notMem (h : k ∉ ps.map Prod.fst) : ps.lookup k = none := by
  rw [lookup_eq_none_iff]
  intro p hp
  exact bne_iff_ne.mpr (ne_of_mem_of_not_mem (mem_map_of_mem hp) h).symm

/-- The text of a field stands where the name of the field stands among the fields of the shape. -/
theorem getElem?_texts {i : Nat} (h : c.shape.fields[i]? = some field) :
    c.texts[i]? = some (c.field field) := by
  have hi : i < c.texts.length := by
    rw [c.sized]
    exact (List.getElem?_eq_some_iff.mp h).1
  rw [Composite.field, lookup_zip c.shape.fields_nodup c.sized h, getElem?_eq_getElem hi,
    Option.getD_some]

theorem field_of_notMem (h : field ∉ c.shape.fields) : c.field field = "" := by
  have hnone : field ∉ (c.shape.fields.zip c.texts).map Prod.fst := by
    rwa [map_fst_zip (Nat.le_of_eq c.sized.symm)]
  rw [Composite.field, lookup_of_notMem hnone, Option.getD_none]

/-- Sets a field; a name that is no field changes nothing. -/
def put (c : Composite) (p : String × String) : Composite := (c.set? p.1 p.2).getD c

theorem shape_put (c : Composite) (p : String × String) : (c.put p).shape = c.shape := by
  unfold put set?
  split <;> rfl

theorem field_put (h : field ∈ c.shape.fields) (tok other : String) :
    (c.put (field, tok)).field other = if other = field then tok else c.field other := by
  obtain ⟨i, hi⟩ : ∃ i, c.shape.fields.idxOf? field = some i := by
    rwa [← Option.isSome_iff_exists, isSome_idxOf?]
  obtain ⟨hlt, hat, -⟩ := idxOf?_eq_some_iff.mp hi
  have htexts : (c.put (field, tok)).texts = c.texts.set i tok := by simp [put, set?, hi]
  by_cases hother : other ∈ c.shape.fields
  · obtain ⟨j, hj⟩ := getElem?_of_mem hother
    have hold := getElem?_texts hj
    have hnew := getElem?_texts (c := c.put (field, tok)) (by rw [shape_put]; exact hj)
    have hjlt := (List.getElem?_eq_some_iff.mp hold).1
    rw [htexts] at hnew
    by_cases heq : other = field
    · -- names are distinct, so the two places are one
      subst heq
      have hij : j = i := by
        have hi' : c.shape.fields[i]? = some other := List.getElem?_eq_some_iff.mpr ⟨hlt, hat⟩
        exact (getElem?_inj (List.getElem?_eq_some_iff.mp hj).1 c.shape.fields_nodup).mp
          (hj.trans hi'.symm)
      rw [hij, getElem?_set_self (hij ▸ hjlt)] at hnew
      rw [if_pos rfl, ← Option.some.inj hnew]
    · have hij : i ≠ j := by
        rintro rfl
        exact heq ((Option.some.inj ((List.getElem?_eq_some_iff.mpr ⟨hlt, hat⟩).symm.trans hj)).symm)
      rw [getElem?_set_ne hij, hold] at hnew
      rw [if_neg heq, ← Option.some.inj hnew]
  · have hne : other ≠ field := fun heq => hother (heq ▸ h)
    rw [if_neg hne, field_of_notMem hother, field_of_notMem (by rwa [shape_put])]

/-- Sets fields one after the other. -/
def putAll (c : Composite) (ps : List (String × String)) : Composite := ps.foldl put c

theorem shape_putAll (c : Composite) (ps : List (String × String)) : (c.putAll ps).shape = c.shape := by
  induction ps generalizing c with
  | nil => rfl
  | cons p ps ih => exact (ih (c.put p)).trans (shape_put c p)

/-- A field has the text that it is set to last, or the one that it had. -/
theorem field_putAll (hfields : ∀ p ∈ ps, p.1 ∈ c.shape.fields) (other : String) :
    (c.putAll ps).field other = (ps.reverse.lookup other).getD (c.field other) := by
  induction ps using List.reverseRecOn with
  | nil => rfl
  | append_singleton ps p ih =>
    obtain ⟨field, tok⟩ := p
    rw [forall_mem_append, forall_mem_singleton] at hfields
    have hlast : c.putAll (ps ++ [(field, tok)]) = (c.putAll ps).put (field, tok) := foldl_concat ..
    have hput := field_put (c := c.putAll ps) (by rw [shape_putAll]; exact hfields.2) tok other
    rw [hlast, hput, ih hfields.1, reverse_concat, lookup_cons]
    by_cases heq : other = field
    · simp [heq]
    · simp [heq, beq_false_of_ne heq]

/-- Where no key comes twice, the last entry of a key is the first. -/
theorem lookup_reverse (hnodup : (ps.map Prod.fst).Nodup) (k : String) :
    ps.reverse.lookup k = ps.lookup k := by
  induction ps with
  | nil => rfl
  | cons p ps ih =>
    obtain ⟨name, t⟩ := p
    obtain ⟨hnew, hnodup⟩ := nodup_cons.mp hnodup
    rw [reverse_cons, lookup_append, ih hnodup, lookup_cons, lookup_cons]
    by_cases heq : k = name
    · simp [heq, lookup_of_notMem hnew]
    · simp [beq_false_of_ne heq]

/-! ## The printed form -/

/-- The fields that are set, with their texts. -/
def given (c : Composite) : List (String × String) := (c.shape.fields.zip c.texts).filter (·.2 != "")

/-- A field and its text as they are printed. -/
def segment (p : String × String) : List Char := p.1.toList ++ ':' :: p.2.toList

/-- A text of fields between bars is a text of segments. -/
theorem toList_segments (ps : List (String × String)) :
    ("|".intercalate (ps.map fun p => p.1 ++ ":" ++ p.2)).toList = ['|'].intercalate (ps.map segment) := by
  rw [String.toList_intercalate, map_map]
  refine congrArg _ (map_congr_left fun p _ => ?_)
  simp [segment]

theorem toList_text (c : Composite) : c.text.toList = ['|'].intercalate (c.given.map segment) :=
  toList_segments c.given

theorem bar_notMem_segment {shape : Shape} (hfield : p.1 ∈ shape.fields) (htoken : '|' ∉ p.2.toList) :
    '|' ∉ segment p := by
  intro hbar
  rcases mem_append.mp hbar with hbar | hbar
  · exact absurd (Shape.fields_chars hfield _ hbar) (by decide)
  · rcases mem_cons.mp hbar with hbar | hbar
    · exact absurd hbar (by decide)
    · exact htoken hbar

/-- A text of segments starts with the name of a field, so it is not taken for a quoted one. -/
theorem plainText_segments {shape : Shape} {text : String}
    (htext : text.toList = ['|'].intercalate (ps.map segment)) (hfields : ∀ p ∈ ps, p.1 ∈ shape.fields) :
    Setting.plainText text = text := by
  have hquoted : Setting.isQuoted text = false := by
    rw [← Bool.not_eq_true]
    intro hquoted
    simp only [Setting.isQuoted, Bool.and_eq_true, beq_iff_eq] at hquoted
    have hhead := hquoted.1.2
    rw [htext] at hhead
    cases ps with
    | nil => cases hhead
    | cons p ps =>
      obtain ⟨rest, hrest⟩ : ∃ rest, ['|'].intercalate ((p :: ps).map segment) = p.1.toList ++ ':' :: rest := by
        cases ps <;> simp [segment]
      rw [hrest] at hhead
      cases hname : p.1.toList with
      | nil => simp [hname] at hhead
      | cons x xs =>
        have hx := Shape.fields_chars (hfields p mem_cons_self) x (hname ▸ mem_cons_self)
        rw [hname] at hhead
        cases hhead
        exact absurd hx (by decide)
  rw [Setting.plainText, hquoted]
  rfl

theorem fst_given_nodup (c : Composite) : (c.given.map Prod.fst).Nodup := by
  have hsub : (c.given.map Prod.fst).Sublist ((c.shape.fields.zip c.texts).map Prod.fst) :=
    filter_sublist.map Prod.fst
  rw [map_fst_zip (Nat.le_of_eq c.sized.symm)] at hsub
  exact c.shape.fields_nodup.sublist hsub

theorem mem_given (h : p ∈ c.given) : p.1 ∈ c.shape.fields ∧ p.2 ∈ c.texts ∧ p.2 ≠ "" := by
  obtain ⟨hzip, hset⟩ := mem_filter.mp h
  exact ⟨(of_mem_zip hzip).1, (of_mem_zip hzip).2, by simpa using hset⟩

theorem plainText_text (c : Composite) : Setting.plainText c.text = c.text :=
  plainText_segments c.toList_text fun _ hp => (mem_given hp).1

theorem lookup_filter (hnodup : (ps.map Prod.fst).Nodup) (field : String) :
    (ps.filter (·.2 != "")).lookup field = (ps.lookup field).filter (· != "") := by
  induction ps with
  | nil => rfl
  | cons p ps ih =>
    obtain ⟨name, t⟩ := p
    obtain ⟨hnew, hnodup⟩ := nodup_cons.mp hnodup
    have hrest := ih hnodup
    by_cases heq : field = name
    · subst heq
      rw [lookup_of_notMem hnew] at hrest
      by_cases hset : t = "" <;> simp [hset, hrest, Option.filter_some]
    · by_cases hset : t = "" <;> simp [hset, hrest, lookup_cons, beq_false_of_ne heq]

/-- A field is among those that are set unless its text is empty. -/
theorem lookup_given (c : Composite) (field : String) :
    c.given.lookup field = if c.field field = "" then none else some (c.field field) := by
  have hnodup : ((c.shape.fields.zip c.texts).map Prod.fst).Nodup := by
    rw [map_fst_zip (Nat.le_of_eq c.sized.symm)]
    exact c.shape.fields_nodup
  rw [given, lookup_filter hnodup, Composite.field]
  cases h : (c.shape.fields.zip c.texts).lookup field with
  | none => simp
  | some t => by_cases ht : t = "" <;> simp [ht, Option.filter_some]

/-- A composite of a data type with something to print: tokens that are their own normal forms, in one field
or more. -/
structure Printable (dataType : String) (c : Composite) : Prop where
  shape : Shape.ofType? dataType = some c.shape
  tokens : ∀ t ∈ c.texts, t ≠ "" → Numeral.token? dataType t = some t
  some_set : ∃ t ∈ c.texts, t ≠ ""

namespace Printable

theorem given_ne_nil (h : v.Printable dataType) : v.given ≠ [] := by
  obtain ⟨t, ht, hne⟩ := h.some_set
  obtain ⟨i, hi⟩ := getElem?_of_mem ht
  have hlt : i < v.shape.fields.length := v.sized ▸ (List.getElem?_eq_some_iff.mp hi).1
  have hzip : (v.shape.fields[i], t) ∈ v.shape.fields.zip v.texts := by
    refine mem_of_getElem? (i := i) ?_
    rw [getElem?_zip_eq_some]
    exact ⟨getElem?_eq_getElem hlt, hi⟩
  exact ne_nil_of_mem (mem_filter.mpr ⟨hzip, by simpa using hne⟩)

theorem token (h : v.Printable dataType) (hp : p ∈ v.given) : Numeral.token? dataType p.2 = some p.2 :=
  h.tokens p.2 (mem_given hp).2.1 (mem_given hp).2.2

/-- Fields and tokens have neither blanks nor the characters that separate them. -/
theorem chars (h : v.Printable dataType) (hp : p ∈ v.given) :
    (∀ x ∈ p.1.toList, isNumeralChar x = true) ∧ ∀ x ∈ p.2.toList, isNumeralChar x = true :=
  ⟨Shape.fields_chars (mem_given hp).1, Numeral.token?_chars (h.token hp)⟩

theorem isSettingChar_segment (h : v.Printable dataType) (hp : p ∈ v.given) :
    ∀ x ∈ segment p, isSettingChar x = true := by
  obtain ⟨hfield, htoken⟩ := h.chars hp
  refine forall_mem_append.mpr ⟨fun x hx => ?_, forall_mem_cons.mpr ⟨by decide, fun x hx => ?_⟩⟩
  · exact isSettingChar_of_isNumeralChar (hfield x hx)
  · exact isSettingChar_of_isNumeralChar (htoken x hx)

/-- The printed form can stand in a flow without quotes. -/
theorem isSettingChar_text (h : v.Printable dataType) : ∀ x ∈ v.text.toList, isSettingChar x = true := by
  have hjoined : ∀ ls : List (List Char), (∀ l ∈ ls, ∀ x ∈ l, isSettingChar x = true) →
      ∀ x ∈ ['|'].intercalate ls, isSettingChar x = true := by
    intro ls
    induction ls with
    | nil => simp
    | cons l ls ih =>
      cases ls with
      | nil => simp
      | cons l' ls =>
        intro hls
        obtain ⟨hl, hls⟩ := forall_mem_cons.mp hls
        rw [intercalate_cons_cons]
        refine forall_mem_append.mpr ⟨forall_mem_append.mpr ⟨hl, ?_⟩, ih hls⟩
        exact forall_mem_singleton.mpr (by decide)
  rw [toList_text]
  refine hjoined _ fun s hs => ?_
  obtain ⟨p, hp, rfl⟩ := mem_map.mp hs
  exact h.isSettingChar_segment hp

theorem text_ne_empty (h : v.Printable dataType) : v.text ≠ "" := by
  intro hempty
  have htext := v.toList_text
  obtain ⟨p, ps, hp⟩ := exists_cons_of_ne_nil h.given_ne_nil
  rw [hempty, hp] at htext
  cases ps <;> simp [segment] at htext

end Printable

/-! ## Laying the printed form over a composite -/

/-- A segment with a name sets its field to the normal form of its token. -/
theorem applySegment_segment {normal : String} (hfield : p.1 ∈ c.shape.fields)
    (hblank : ∀ x ∈ p.2.toList, Text.isBlank x = false) (hne : p.2 ≠ "")
    (htok : Numeral.token? dataType p.2 = some normal) (key : String) (index : Nat) :
    applySegment dataType key true index c (segment p) = (c.put (p.1, normal), none) := by
  have hname := Shape.fields_chars hfield
  have hcut : Text.cut? ':' (segment p) = some (p.1.toList, p.2.toList) := by
    refine Text.cut?_append (fun hcolon => ?_) _
    exact absurd (hname _ hcolon) (by decide)
  have htrim : Text.trimChars (segment p) = segment p := by
    refine Text.trimChars_of_forall (forall_mem_append.mpr ⟨fun x hx => ?_, ?_⟩)
    · exact isBlank_of_isNumeralChar (hname x hx)
    · exact forall_mem_cons.mpr ⟨by decide, hblank⟩
  have htarget : segmentTarget c.shape key true index (Text.trimChars (segment p)) = .ok p := by
    rw [htrim, segmentTarget, if_pos rfl, hcut]
    simp only [Text.trimChars_of_forall fun x hx => isBlank_of_isNumeralChar (hname x hx),
      Text.trimChars_of_forall hblank, String.ofList_toList]
  simp [applySegment, htarget, hfield, hne, htok, put]

/-- Segments with names set their fields, one after the other, and give no warning. -/
theorem applySegments_map_segment (hfields : ∀ p ∈ ps, p.1 ∈ c.shape.fields)
    (hblank : ∀ p ∈ ps, ∀ x ∈ p.2.toList, Text.isBlank x = false) (hne : ∀ p ∈ ps, p.2 ≠ "")
    (htok : ∀ p ∈ ps, Numeral.token? dataType p.2 = some (normal p.2)) (key : String) (index : Nat) :
    applySegments dataType key true index c (ps.map segment) =
      (c.putAll (ps.map fun p => (p.1, normal p.2)), []) := by
  induction ps generalizing c index with
  | nil => rfl
  | cons p ps ih =>
    rw [forall_mem_cons] at hfields hblank hne htok
    have hstep := applySegment_segment hfields.1 hblank.1 hne.1 htok.1 key index
    have hrest := ih (c := c.put (p.1, normal p.2)) (by simpa only [shape_put] using hfields.2) hblank.2
      hne.2 htok.2 (index + 1)
    simp [applySegments, hstep, hrest, putAll]

/-- A text of segments with names is cut into them again. -/
theorem overlay_named {text : String} (htext : text.toList = ['|'].intercalate (ps.map segment))
    (hps : ps ≠ []) (hbar : ∀ p ∈ ps, '|' ∉ segment p) (dataType key : String) (c : Composite) :
    c.overlay dataType key text = applySegments dataType key true 0 c (ps.map segment) := by
  have hsplit : text.toList.splitOn '|' = ps.map segment := by
    rw [htext]
    exact splitOn_intercalate '|' (forall_mem_map.mpr hbar) (by simpa using hps)
  -- the first part decides that fields are named
  have hexplicit : ((ps.map segment).headD []).contains ':' = true := by
    obtain ⟨p, ps, rfl⟩ := exists_cons_of_ne_nil hps
    simp [segment]
  rw [overlay, hsplit, hexplicit]

/-- A text of segments with names sets their fields, whatever the characters of the tokens; only bars and blanks
part them. -/
theorem overlay_segments {text : String} (htext : text.toList = ['|'].intercalate (ps.map segment))
    (hps : ps ≠ []) (hbar : ∀ p ∈ ps, '|' ∉ p.2.toList) (hfields : ∀ p ∈ ps, p.1 ∈ c.shape.fields)
    (hblank : ∀ p ∈ ps, ∀ x ∈ p.2.toList, Text.isBlank x = false) (hne : ∀ p ∈ ps, p.2 ≠ "")
    (htok : ∀ p ∈ ps, Numeral.token? dataType p.2 = some (normal p.2)) (key : String) :
    c.overlay dataType key text = (c.putAll (ps.map fun p => (p.1, normal p.2)), []) := by
  rw [overlay_named htext hps fun p hp => bar_notMem_segment (hfields p hp) (hbar p hp)]
  exact applySegments_map_segment hfields hblank hne htok key 0

theorem Printable.overlay_text (h : v.Printable dataType) (hshape : c.shape = v.shape) (key : String) :
    c.overlay dataType key v.text = (c.putAll v.given, []) := by
  have hset : c.overlay dataType key v.text = (c.putAll (v.given.map fun p => (p.1, id p.2)), []) := by
    refine overlay_segments v.toList_text h.given_ne_nil ?_ ?_ ?_ ?_ ?_ key
    · exact fun p hp hbar => absurd ((h.chars hp).2 _ hbar) (by decide)
    · exact fun p hp => hshape ▸ (mem_given hp).1
    · exact fun p hp x hx => isBlank_of_isNumeralChar ((h.chars hp).2 x hx)
    · exact fun p hp => (mem_given hp).2.2
    · exact fun p hp => h.token hp
  simpa using hset

theorem Printable.canonical (h : v.Printable dataType) : v.Printable (DataType.canonical dataType) where
  shape := by simpa using h.shape
  tokens := by simpa using h.tokens
  some_set := h.some_set

theorem field_empty (shape : Shape) (field : String) : (empty shape).field field = "" := by
  by_cases h : field ∈ shape.fields
  · obtain ⟨i, hi⟩ := getElem?_of_mem h
    have htext := mem_of_getElem? (getElem?_texts (c := empty shape) hi)
    exact eq_of_mem_replicate htext
  · exact field_of_notMem h

/-- The value of an option that is set to the printed form of a composite: what is printed, and the default
for the rest. -/
theorem Printable.encode_text (h : v.Printable dataType) {o : OptionSpec} (ho : o.dataType = dataType)
    {fallback : Option Composite} (hfallback : o.fallback = fallback.map .composite)
    (hshape : ∀ d ∈ fallback, d.shape = v.shape) (key : String) :
    ∃ c : Composite, o.encode key v.text = (some (.composite c), []) ∧ c.shape = v.shape ∧
      ∀ field, c.field field =
        if v.field field = "" then fallback.elim "" (·.field field) else v.field field := by
  subst ho
  have hbase : (o.baseComposite v.shape).shape = v.shape ∧
      ∀ field, (o.baseComposite v.shape).field field = fallback.elim "" (·.field field) := by
    cases fallback with
    | none =>
      simp only [OptionSpec.baseComposite, hfallback, Option.map_none, Option.elim_none]
      exact ⟨rfl, field_empty v.shape⟩
    | some d =>
      have hd : o.baseComposite v.shape = d := by simp [OptionSpec.baseComposite, hfallback]
      rw [hd]
      exact ⟨hshape d rfl, fun _ => rfl⟩
  refine ⟨(o.baseComposite v.shape).putAll v.given, ?_, ?_, fun field => ?_⟩
  · simp [OptionSpec.encode, h.canonical.shape, plainText_text, h.canonical.overlay_text hbase.1]
  · rw [shape_putAll, hbase.1]
  · have hgiven : ∀ p ∈ v.given, p.1 ∈ (o.baseComposite v.shape).shape.fields := by
      intro p hp
      rw [hbase.1]
      exact (mem_given hp).1
    rw [field_putAll hgiven, lookup_reverse v.fst_given_nodup, lookup_given, hbase.2]
    split <;> rfl

/-- A flow of one node that sets an option to the printed form of a composite. The setting is read as it is
written; without a warning it gives the option the fields that were printed, and those of the default, if there
is one, for the fields that were not set. -/
theorem text_read_back (h : v.Printable dataType) {o : OptionSpec} (ho : o.dataType = dataType)
    {fallback : Option Composite} (hfallback : o.fallback = fallback.map .composite)
    (hshape : ∀ d ∈ fallback, d.shape = v.shape) {d : Descriptor} {key : String} {i : Nat}
    (hindex : d.optionIndex? key = some i) (hoption : d.options[i]? = some o) {name component : String}
    (file : String) (hname : IsName name) (hcomponent : ∀ c ∈ component.toList, isComponentChar c = true)
    (hne : component ≠ "") (hkey : key ≠ "") (hchars : ∀ c ∈ key.toList, isSettingChar c = true) :
    ∃ g n m c, Graph.parse (singleText name component key v.text) = .ok g ∧ g.nodes = [n] ∧
      n.component = component ∧ n.settings = [m] ∧ m.key = key ∧ m.value = v.text ∧
      d.encode file n.settings = ([], .ok (d.defaults.set i ⟨o.name, o.dataType, some (.composite c)⟩)) ∧
      c.shape = v.shape ∧
      ∀ field, c.field field =
        if v.field field = "" then fallback.elim "" (·.field field) else v.field field := by
  obtain ⟨x, xs, hx⟩ := Cursor.exists_cons_of_ne_empty h.text_ne_empty
  have hset : isSettingChar x = true := h.isSettingChar_text x (hx ▸ mem_cons_self)
  have htext : v.text.toList ++ [')'] = x :: (xs ++ [')']) := by rw [hx, cons_append]
  have hvalue : ∀ p, ∃ p', Cursor.settingValue ⟨x :: (xs ++ [')']), p⟩ = .ok (v.text, ⟨[')'], p'⟩) := by
    intro p
    have hquote : x ≠ '"' := by
      rintro rfl
      exact absurd hset (by decide)
    have hword := Cursor.word_append h.isSettingChar_text (show isSettingChar ')' = false by decide) [] p
    rw [htext] at hword
    exact ⟨_, by rw [Cursor.settingValue, if_neg (by simpa [Cursor.peek] using hquote), hword]⟩
  obtain ⟨g, n, pos, hparse, hnodes, hn, hsettings⟩ :=
    Graph.parse_single hname hcomponent hne hkey hchars (isSolid_of_isSettingChar hset) htext hvalue
  obtain ⟨c, hencode, hc, hfields⟩ := h.encode_text ho hfallback hshape key
  refine ⟨g, n, ⟨key, v.text, pos⟩, c, hparse, hnodes, hn, hsettings, rfl, rfl, ?_, hc, hfields⟩
  rw [hsettings, Descriptor.encode, Descriptor.overlay_cons hindex hoption, hencode]
  simp [Descriptor.overlay, Descriptor.warningsOf, Descriptor.spec?, hindex, hoption, hencode]

/-- A type with one option, a range of floats that has a default. -/
def ranged : Descriptor where
  name := "timer"
  symbol := "lib.Timer"
  options := [⟨"interval", "drange", some (.composite ⟨.range, ["1", "0", "", "0.5"], rfl⟩)⟩]

/-- A hexadecimal number and the name of a limit over a default that has no greatest value. -/
theorem text_read_back_limits :
    ∃ g n m c, Graph.parse "t(timer:interval=val:-0x1p-2|max:+DBL_MAX)" = .ok g ∧ g.nodes = [n] ∧
      n.settings = [m] ∧ m.value = "val:-0x1p-2|max:+DBL_MAX" ∧
      ranged.encode "main.fbp" n.settings = ([], .ok [⟨"interval", "drange", some (.composite c)⟩]) ∧
      c.field "val" = "-0x1p-2" ∧ c.field "min" = "0" ∧ c.field "max" = "+DBL_MAX" ∧
      c.field "step" = "0.5" := by
  have hv : Printable "drange" ⟨.range, ["-0x1p-2", "", "+DBL_MAX", ""], rfl⟩ := by
    refine ⟨by decide, ?_, by decide⟩
    decide +kernel
  let default : Composite := ⟨.range, ["1", "0", "", "0.5"], rfl⟩
  have hfallback : (OptionSpec.mk "interval" "drange" (some (.composite default))).fallback =
      (some default).map .composite := rfl
  have hshape : ∀ d ∈ some default, d.shape = .range := by
    rintro d ⟨⟩
    rfl
  have hindex : ranged.optionIndex? "interval" = some 0 := by decide
  have hname : IsName "t" := ⟨by decide, all_eq_true.mp rfl⟩
  have hcomponent : ∀ c ∈ "timer".toList, isComponentChar c = true := all_eq_true.mp rfl
  obtain ⟨g, n, m, c, hparse, hnodes, -, hsettings, -, hvalue, hencode, -, hfields⟩ :=
    text_read_back hv rfl hfallback hshape hindex rfl "main.fbp" hname hcomponent (by decide) (by decide)
      (all_eq_true.mp rfl)
  refine ⟨g, n, m, c, hparse, hnodes, hsettings, hvalue, hencode, ?_, ?_, ?_, ?_⟩
  · rw [hfields]; rfl
  · rw [hfields]; rfl
  · rw [hfields]; rfl
  · rw [hfields]; rfl

end Composite

end FlowCompiler
