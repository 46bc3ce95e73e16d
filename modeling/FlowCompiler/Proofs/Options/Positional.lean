import FlowCompiler.Proofs.Options.Suboptions

/-!
# Segments with names and by position

A text of segments between bars is laid over a composite segment by segment. The first one says whether fields are
named in all of them. Each segment has one effect (`Composite.Effect`): it sets a field, or leaves a known one
alone, or is refused with a warning. `Composite.Means` says which, without going through the code.

Main statement: `Composite.forms_agree`. Tokens by position give what they give with the names of their fields, each
token too many gives a warning, and the effects of all segments make up the result.
-/

namespace FlowCompiler.Composite

open List

/-! ## What a segment is about -/

/-- Characters without the blanks around them. -/
def trimmed (cs : List Char) : String := String.ofList (Text.trimChars cs)

/-- The field and the token of a segment: what stands around the first colon, or the field at a position and the
whole segment. -/
inductive Reads (shape : Shape) : Bool → Nat → List Char → String → String → Prop
  | named {index : Nat} {before after : List Char} (hbefore : ':' ∉ before) :
      Reads shape true index (before ++ ':' :: after) (trimmed before) (trimmed after)
  | positional {index : Nat} {seg : List Char} {field : String} (hcolon : ':' ∉ seg)
      (hfield : shape.fields[index]? = some field) : Reads shape false index seg field (trimmed seg)

/-- What a segment does. -/
inductive Effect where
  | set (field token : String)
  | blank (field : String)
  | refused (cause : Cause)
deriving DecidableEq, Repr

namespace Effect

/-- The field that is set, with its token. -/
def set? : Effect → Option (String × String)
  | set field token => some (field, token)
  | _ => none

/-- The warning that is given. -/
def warning? : Effect → Option Cause
  | refused cause => some cause
  | _ => none

end Effect

/-- The effect of a segment. A known field is set to the normal form of its token, or left alone by an empty one. A
segment is refused for a field that is not known, for a token that is none, for a form that is not that of the first
segment, or for a position behind the last field. -/
inductive Means (dataType key : String) (shape : Shape) (named : Bool) (index : Nat) (seg : List Char) :
    Effect → Prop
  | set {field token normal : String} (hreads : Reads shape named index seg field token)
      (hfield : field ∈ shape.fields) (hne : token ≠ "") (htok : Numeral.token? dataType token = some normal) :
      Means dataType key shape named index seg (.set field normal)
  | blank {field : String} (hreads : Reads shape named index seg field "") (hfield : field ∈ shape.fields) :
      Means dataType key shape named index seg (.blank field)
  | unknown {field token : String} (hreads : Reads shape named index seg field token)
      (hfield : field ∉ shape.fields) :
      Means dataType key shape named index seg (.refused (.noField field key dataType))
  | invalid {field token : String} (hreads : Reads shape named index seg field token)
      (hfield : field ∈ shape.fields) (hne : token ≠ "") (htok : Numeral.token? dataType token = none) :
      Means dataType key shape named index seg (.refused (.badField token field key))
  | mixed (hform : named = true ↔ ':' ∉ seg) :
      Means dataType key shape named index seg (.refused (.mixedForms (trimmed seg)))
  | tooMany (hnamed : named = false) (hcolon : ':' ∉ seg) (hindex : shape.fields.length ≤ index) :
      Means dataType key shape named index seg (.refused (.tooManyValues key (trimmed seg)))

variable {dataType key : String} {shape : Shape} {named : Bool} {index : Nat} {seg : List Char} {c : Composite}

theorem colon_mem_trimChars : ':' ∈ Text.trimChars seg ↔ ':' ∈ seg := Text.mem_trimChars (by decide)

/-- Blanks at the ends of a segment are dropped before it is cut, and those at the ends of its parts after it. -/
theorem segmentTarget_of_reads {field token : String} (h : Reads shape named index seg field token)
    (key : String) : segmentTarget shape key named index (Text.trimChars seg) = .ok (field, token) := by
  cases h with
  | named hbefore =>
    rename_i before after
    have hkept : ':' ∉ before.dropWhile Text.isBlank := fun hmem => hbefore ((dropWhile_sublist _).mem hmem)
    rw [Text.trimChars_append_mark (by decide), segmentTarget, if_pos rfl, Text.cut?_append hkept]
    dsimp only
    rw [Text.trimChars_dropWhile, Text.trimChars_rdropWhile]
    rfl
  | positional hcolon hfield =>
    have hcontains : (Text.trimChars seg).contains ':' = false := by simpa [colon_mem_trimChars] using hcolon
    simp only [segmentTarget, Bool.false_eq_true, if_false, hcontains, hfield]
    rfl

theorem segmentTarget_of_mixed (h : named = true ↔ ':' ∉ seg) (shape : Shape) (key : String) (index : Nat) :
    segmentTarget shape key named index (Text.trimChars seg) = .error (.mixedForms (trimmed seg)) := by
  cases named with
  | true =>
    have hnone : Text.cut? ':' (Text.trimChars seg) = none :=
      Text.cut?_eq_none_iff.mpr fun hcolon => h.mp rfl (colon_mem_trimChars.mp hcolon)
    simp only [segmentTarget, if_true, hnone]
    rfl
  | false =>
    have hcontains : (Text.trimChars seg).contains ':' = true := by simpa [colon_mem_trimChars] using h
    simp only [segmentTarget, Bool.false_eq_true, if_false, hcontains, if_true]
    rfl

theorem segmentTarget_of_tooMany (hcolon : ':' ∉ seg) (hindex : shape.fields.length ≤ index) (key : String) :
    segmentTarget shape key false index (Text.trimChars seg) =
      .error (.tooManyValues key (trimmed seg)) := by
  have hcontains : (Text.trimChars seg).contains ':' = false := by simpa [colon_mem_trimChars] using hcolon
  simp only [segmentTarget, Bool.false_eq_true, if_false, hcontains, getElem?_eq_none hindex]
  rfl

/-- A segment has a field and a token, or the wrong form, or a position behind the last field. -/
theorem reads_or (shape : Shape) (named : Bool) (index : Nat) (seg : List Char) :
    (∃ field token, Reads shape named index seg field token) ∨ (named = true ↔ ':' ∉ seg) ∨
      named = false ∧ ':' ∉ seg ∧ shape.fields.length ≤ index := by
  by_cases hcolon : ':' ∈ seg
  · cases named with
    | true =>
      obtain ⟨before, after, rfl, hbefore⟩ := eq_append_cons_of_mem hcolon
      exact .inl ⟨_, _, .named hbefore⟩
    | false => exact .inr (.inl (by simpa using hcolon))
  · cases named with
    | true => exact .inr (.inl (by simpa using hcolon))
    | false =>
      by_cases hindex : index < shape.fields.length
      · exact .inl ⟨_, _, .positional hcolon (getElem?_eq_getElem hindex)⟩
      · exact .inr (.inr ⟨rfl, hcolon, Nat.le_of_not_lt hindex⟩)

/-! ## Effects of segments -/

/-- A segment has its effect, and no other: what it does not set stays, and there is no other warning. -/
theorem applySegment_effect (dataType key : String) (named : Bool) (index : Nat) (c : Composite)
    (seg : List Char) :
    ∃ e, Means dataType key c.shape named index seg e ∧
      applySegment dataType key named index c seg = (c.putAll e.set?.toList, e.warning?) := by
  obtain ⟨field, token, hreads⟩ | hform | ⟨rfl, hcolon, hindex⟩ := reads_or c.shape named index seg
  · have htarget := segmentTarget_of_reads hreads key
    by_cases hfield : field ∈ c.shape.fields
    · by_cases hne : token = ""
      · subst hne
        exact ⟨_, .blank hreads hfield, by simp [applySegment, htarget, hfield, Effect.set?, Effect.warning?, putAll]⟩
      · cases htok : Numeral.token? dataType token with
        | none =>
          refine ⟨_, .invalid hreads hfield hne htok, ?_⟩
          simp [applySegment, htarget, hfield, hne, htok, Effect.set?, Effect.warning?, putAll]
        | some normal =>
          refine ⟨_, .set hreads hfield hne htok, ?_⟩
          simp [applySegment, htarget, hfield, hne, htok, Effect.set?, Effect.warning?, putAll, put]
    · exact ⟨_, .unknown hreads hfield,
        by simp [applySegment, htarget, hfield, Effect.set?, Effect.warning?, putAll]⟩
  · exact ⟨_, .mixed hform, by rw [applySegment, segmentTarget_of_mixed hform]; rfl⟩
  · exact ⟨_, .tooMany rfl hcolon hindex, by rw [applySegment, segmentTarget_of_tooMany hcolon hindex]; rfl⟩

theorem Means.mem_fields {e : Effect} (h : Means dataType key shape named index seg e) :
    ∀ p ∈ e.set?, p.1 ∈ shape.fields := by
  intro p hp
  cases h with
  | set hreads hfield hne htok =>
    cases hp
    exact hfield
  | blank | unknown | invalid | mixed | tooMany => cases hp

/-- One effect for each segment, in their order, with the first segment at a position. -/
inductive AllMean (dataType key : String) (shape : Shape) (named : Bool) : Nat → List (List Char) → List Effect → Prop
  | nil {index : Nat} : AllMean dataType key shape named index [] []
  | cons {index : Nat} {seg : List Char} {e : Effect} {segments : List (List Char)} {effects : List Effect}
      (first : Means dataType key shape named index seg e)
      (rest : AllMean dataType key shape named (index + 1) segments effects) :
      AllMean dataType key shape named index (seg :: segments) (e :: effects)

theorem applySegments_cons (dataType key : String) (named : Bool) (index : Nat) (c : Composite) (seg : List Char)
    (rest : List (List Char)) :
    applySegments dataType key named index c (seg :: rest) =
      ((applySegments dataType key named (index + 1) (applySegment dataType key named index c seg).1 rest).1,
      (applySegment dataType key named index c seg).2.toList ++
        (applySegments dataType key named (index + 1) (applySegment dataType key named index c seg).1 rest).2) :=
  rfl

theorem applySegments_effects (dataType key : String) (named : Bool) (segments : List (List Char)) (index : Nat)
    (c : Composite) :
    ∃ effects, AllMean dataType key c.shape named index segments effects ∧
      applySegments dataType key named index c segments =
        (c.putAll (effects.filterMap Effect.set?), effects.filterMap Effect.warning?) := by
  induction segments generalizing index c with
  | nil => exact ⟨[], .nil, rfl⟩
  | cons seg rest ih =>
    obtain ⟨e, he, hstep⟩ := applySegment_effect dataType key named index c seg
    obtain ⟨effects, heffects, hrest⟩ := ih (index + 1) (c.putAll e.set?.toList)
    rw [shape_putAll] at heffects
    refine ⟨e :: effects, .cons he heffects, ?_⟩
    rw [applySegments_cons, hstep, hrest]
    have hputs : c.putAll ((e :: effects).filterMap Effect.set?) =
        (c.putAll e.set?.toList).putAll (effects.filterMap Effect.set?) := by
      rw [putAll, putAll, putAll, ← foldl_append]
      cases hset : e.set? <;> simp [hset]
    have hwarnings : (e :: effects).filterMap Effect.warning? =
        e.warning?.toList ++ effects.filterMap Effect.warning? := by
      cases hwarning : e.warning? <;> simp [hwarning]
    rw [hputs, hwarnings]

theorem AllMean.mem_fields {segments : List (List Char)} {effects : List Effect}
    (h : AllMean dataType key shape named index segments effects) :
    ∀ p ∈ effects.filterMap Effect.set?, p.1 ∈ shape.fields := by
  intro p hp
  obtain ⟨e, he, hset⟩ := mem_filterMap.mp hp
  induction h with
  | nil => cases he
  | cons first rest ih =>
    rcases mem_cons.mp he with rfl | he
    · exact first.mem_fields p hset
    · exact ih (mem_filterMap.mpr ⟨e, he, hset⟩) he

/-- Whether the first segment of a text names its field, and with it all others should. -/
def namesFields (text : String) : Bool := ((text.toList.splitOn '|').headD []).contains ':'

/-- Every text has effects for its segments that make up its result. A field has the last token that it is set to,
or else the one of the base, and each refused segment gives one warning. -/
theorem overlay_effects (dataType key : String) (c : Composite) (text : String) :
    ∃ effects, AllMean dataType key c.shape (namesFields text) 0 (text.toList.splitOn '|') effects ∧
      (c.overlay dataType key text).1.shape = c.shape ∧
      (∀ field, (c.overlay dataType key text).1.field field =
        ((effects.filterMap Effect.set?).reverse.lookup field).getD (c.field field)) ∧
      (c.overlay dataType key text).2 = effects.filterMap Effect.warning? := by
  obtain ⟨effects, heffects, hresult⟩ :=
    applySegments_effects dataType key (namesFields text) (text.toList.splitOn '|') 0 c
  have hoverlay : c.overlay dataType key text =
      (c.putAll (effects.filterMap Effect.set?), effects.filterMap Effect.warning?) := hresult
  rw [hoverlay]
  exact ⟨effects, heffects, shape_putAll c _, field_putAll heffects.mem_fields, rfl⟩

/-! ## The two forms -/

/-- Tokens by position. -/
def byPosition (tokens : List String) : String := "|".intercalate tokens

/-- Tokens behind the names of their fields. Tokens without a field are left out. -/
def byName (shape : Shape) (tokens : List String) : String :=
  "|".intercalate ((shape.fields.zip tokens).map fun p => p.1 ++ ":" ++ p.2)

section

variable {tokens : List String}

theorem overlay_byPosition (hne : tokens ≠ []) (htokens : ∀ t ∈ tokens, ':' ∉ t.toList ∧ '|' ∉ t.toList)
    (dataType key : String) (c : Composite) :
    c.overlay dataType key (byPosition tokens) =
      applySegments dataType key false 0 c (tokens.map String.toList) := by
  have hsplit : (byPosition tokens).toList.splitOn '|' = tokens.map String.toList := by
    rw [byPosition, String.toList_intercalate]
    exact splitOn_intercalate '|' (forall_mem_map.mpr fun t ht => (htokens t ht).2) (by simpa using hne)
  have hnamed : ((tokens.map String.toList).headD []).contains ':' = false := by
    obtain ⟨t, tokens, rfl⟩ := exists_cons_of_ne_nil hne
    simpa using (htokens t mem_cons_self).1
  rw [overlay, hsplit, hnamed]

theorem overlay_byName (hne : tokens ≠ []) (htokens : ∀ t ∈ tokens, ':' ∉ t.toList ∧ '|' ∉ t.toList)
    (dataType key : String) (c : Composite) :
    c.overlay dataType key (byName c.shape tokens) =
      applySegments dataType key true 0 c ((c.shape.fields.zip tokens).map segment) := by
  apply overlay_named (toList_segments _)
  · have hfields : c.shape.fields ≠ [] := by cases c.shape <;> decide
    rw [Ne, zip_eq_nil_iff, not_or]
    exact ⟨hfields, hne⟩
  · intro p hp
    obtain ⟨hfield, htoken⟩ := of_mem_zip hp
    exact bar_notMem_segment hfield (htokens _ htoken).2

theorem shape_applySegment (dataType key : String) (named : Bool) (index : Nat) (c : Composite)
    (seg : List Char) : (applySegment dataType key named index c seg).1.shape = c.shape := by
  obtain ⟨e, -, hstep⟩ := applySegment_effect dataType key named index c seg
  rw [hstep]
  exact shape_putAll c _

/-- At the position of a field, its name makes no difference. -/
theorem applySegment_name {field token : String} (hfield : c.shape.fields[index]? = some field)
    (htoken : ':' ∉ token.toList) (dataType key : String) :
    applySegment dataType key true index c (segment (field, token)) =
      applySegment dataType key false index c token.toList := by
  have hchars := Shape.fields_chars (mem_of_getElem? hfield)
  have hname : trimmed field.toList = field := by
    rw [trimmed, Text.trimChars_of_forall fun x hx => isBlank_of_isNumeralChar (hchars x hx), String.ofList_toList]
  have hcolon : ':' ∉ field.toList := fun hmem => absurd (hchars _ hmem) (by decide)
  have hnamed : Reads c.shape true index (segment (field, token)) (trimmed field.toList) (trimmed token.toList) :=
    .named hcolon
  rw [hname] at hnamed
  rw [applySegment, applySegment, segmentTarget_of_reads hnamed, segmentTarget_of_reads (.positional htoken hfield)]

theorem applySegments_names (htokens : ∀ t ∈ tokens, ':' ∉ t.toList)
    (hlength : index + tokens.length ≤ c.shape.fields.length) (dataType key : String) :
    applySegments dataType key true index c (((c.shape.fields.drop index).zip tokens).map segment) =
      applySegments dataType key false index c (tokens.map String.toList) := by
  induction tokens generalizing index c with
  | nil => rw [zip_nil_right]; rfl
  | cons t tokens ih =>
    rw [forall_mem_cons] at htokens
    rw [length_cons] at hlength
    have hindex : index < c.shape.fields.length := by omega
    have hstep := applySegment_name (getElem?_eq_getElem hindex) htokens.1 dataType key
    have hshape := shape_applySegment dataType key false index c t.toList
    have hfits : index + 1 + tokens.length ≤
        (applySegment dataType key false index c t.toList).1.shape.fields.length := by
      rw [hshape]
      omega
    have hrest := ih htokens.2 hfits
    rw [hshape] at hrest
    rw [drop_eq_getElem_cons hindex, zip_cons_cons, map_cons, map_cons, applySegments_cons,
      applySegments_cons, hstep, hrest]

theorem applySegments_append (dataType key : String) (named : Bool) (index : Nat) (c : Composite)
    (before after : List (List Char)) :
    applySegments dataType key named index c (before ++ after) =
      ((applySegments dataType key named (index + before.length)
        (applySegments dataType key named index c before).1 after).1,
      (applySegments dataType key named index c before).2 ++
        (applySegments dataType key named (index + before.length)
          (applySegments dataType key named index c before).1 after).2) := by
  induction before generalizing index c with
  | nil => rfl
  | cons seg before ih =>
    have hindex : index + (before.length + 1) = index + 1 + before.length := by omega
    rw [cons_append, length_cons, hindex, applySegments_cons, applySegments_cons, ih, append_assoc]

/-- Tokens behind the last field change nothing and give one warning each. -/
theorem applySegments_tooMany (htokens : ∀ t ∈ tokens, ':' ∉ t.toList) (hindex : c.shape.fields.length ≤ index)
    (dataType key : String) :
    applySegments dataType key false index c (tokens.map String.toList) =
      (c, tokens.map fun t => .tooManyValues key (Text.trim t)) := by
  induction tokens generalizing index with
  | nil => rfl
  | cons t tokens ih =>
    rw [forall_mem_cons] at htokens
    have hstep : applySegment dataType key false index c t.toList = (c, some (.tooManyValues key (Text.trim t))) := by
      rw [applySegment, segmentTarget_of_tooMany htokens.1 hindex]
      rfl
    rw [map_cons, applySegments_cons, hstep, ih htokens.2 (Nat.le_succ_of_le hindex)]
    rfl

end

/-- Tokens without marks, by position and behind the names of their fields, give the same result; tokens behind the
last field give one more warning each and nothing else. And for every text, each segment sets one field to the
normal form of its token, or has an empty token for a field, or gives one warning. These effects make up the
result: a field that is never set has the text of the base. -/
theorem forms_agree (dataType key : String) (c : Composite) :
    (∀ tokens, tokens ≠ [] → (∀ t ∈ tokens, ':' ∉ t.toList ∧ '|' ∉ t.toList) →
      (tokens.length ≤ c.shape.fields.length →
        c.overlay dataType key (byPosition tokens) = c.overlay dataType key (byName c.shape tokens)) ∧
      (c.shape.fields.length < tokens.length →
        c.overlay dataType key (byPosition tokens) =
          ((c.overlay dataType key (byPosition (tokens.take c.shape.fields.length))).1,
          (c.overlay dataType key (byPosition (tokens.take c.shape.fields.length))).2 ++
            (tokens.drop c.shape.fields.length).map fun t => .tooManyValues key (Text.trim t)))) ∧
    ∀ text, ∃ effects, AllMean dataType key c.shape (namesFields text) 0 (text.toList.splitOn '|') effects ∧
      (c.overlay dataType key text).1.shape = c.shape ∧
      (∀ field, (c.overlay dataType key text).1.field field =
        ((effects.filterMap Effect.set?).reverse.lookup field).getD (c.field field)) ∧
      (c.overlay dataType key text).2 = effects.filterMap Effect.warning? := by
  refine ⟨fun tokens hne htokens => ⟨fun hlength => ?_, fun hlength => ?_⟩, overlay_effects dataType key c⟩
  · rw [overlay_byPosition hne htokens, overlay_byName hne htokens]
    have hcolon : ∀ t ∈ tokens, ':' ∉ t.toList := fun t ht => (htokens t ht).1
    have hfits : 0 + tokens.length ≤ c.shape.fields.length := by omega
    exact (applySegments_names hcolon hfits dataType key).symm
  · have hfew : tokens.take c.shape.fields.length ≠ [] := by
      have hfields : 0 < c.shape.fields.length := by cases c.shape <;> decide
      rw [← length_pos_iff, length_take]
      omega
    have hfewTokens : ∀ t ∈ tokens.take c.shape.fields.length, ':' ∉ t.toList ∧ '|' ∉ t.toList :=
      fun t ht => htokens t (mem_of_mem_take ht)
    have hparts : tokens.map String.toList = (tokens.take c.shape.fields.length).map String.toList ++
        (tokens.drop c.shape.fields.length).map String.toList := by
      rw [← map_append, take_append_drop]
    obtain ⟨-, -, hshape, -⟩ := overlay_effects dataType key c (byPosition (tokens.take c.shape.fields.length))
    rw [overlay_byPosition hne htokens, hparts, applySegments_append, ← overlay_byPosition hfew hfewTokens]
    have hindex : 0 + ((tokens.take c.shape.fields.length).map String.toList).length = c.shape.fields.length := by
      rw [length_map, length_take]
      omega
    rw [hindex, applySegments_tooMany (fun t ht => (htokens t (mem_of_mem_drop ht)).1) (by rw [hshape])]

/-- A range that has all its fields. -/
def fullRange : Composite := ⟨.range, ["1", "0", "10", "2"], rfl⟩

/-- The same range with another value and another step. -/
def movedRange : Composite := ⟨.range, ["5", "0", "10", "0x1p-2"], rfl⟩

/-- A token with blanks, an empty one and one that is none, then a good one and one too many; and a text in which
the first segment has a name, the second none and the third one that is no field. -/
theorem forms_agree_range :
    fullRange.overlay "float" "span" " 5 ||x" = fullRange.overlay "float" "span" "val: 5 |min:|max:x" ∧
    fullRange.overlay "float" "span" " 5 ||x|0x1p-2| 9" =
      (movedRange, [.badField "x" "max" "span", .tooManyValues "span" "9"]) ∧
    ∃ effects, AllMean "float" "span" .range true 0 ["val:7".toList, "8".toList, "size:1".toList] effects ∧
      effects.filterMap Effect.warning? = [.mixedForms "8", .noField "size" "span" "float"] := by
  obtain ⟨hforms, heffects⟩ := forms_agree "float" "span" fullRange
  refine ⟨?_, ?_, ?_⟩
  · have hfew := hforms [" 5 ", "", "x"] (by decide) (by decide)
    exact hfew.1 (by decide)
  · have hmany := hforms [" 5 ", "", "x", "0x1p-2", " 9"] (by decide) (by decide)
    refine (hmany.2 (by decide)).trans ?_
    decide +kernel
  · obtain ⟨effects, hall, -, -, hwarnings⟩ := heffects "val:7|8|size:1"
    refine ⟨effects, hall, hwarnings.symm.trans ?_⟩
    decide +kernel

end FlowCompiler.Composite
