import FlowCompiler.Proofs.Options.Literals

/-!
# Characters of numerals

Whatever notation a token is in, it is made of letters, digits, underscores, signs and points: a reader of
literals passes over nothing else, and the names of limits and the words for floats that are no numbers have
only letters, digits and underscores.

Main statement: `Numeral.token?_chars`.
-/

namespace FlowCompiler

open List

variable {cs : List Char} {c : Char} {x : Binary64}

/-- Characters of tokens. -/
def isNumeralChar (c : Char) : Bool := c.isAlphanum || c == '_' || c == '+' || c == '-' || c == '.'

theorem isNumeralChar_of_isAlphanum (h : c.isAlphanum = true) : isNumeralChar c = true := by
  simp [isNumeralChar, h]

theorem isAlphanum_of_isAlphanum_toLower (h : c.toLower.isAlphanum = true) : c.isAlphanum = true := by
  by_cases hupper : c.isUpper = true
  · simp [Char.isAlphanum, Char.isAlpha, hupper]
  · have hself : c.toLower = c := by
      unfold Char.toLower
      simp only [Char.isUpper, decide_eq_true_eq] at hupper
      rw [dif_neg hupper]
    rwa [hself] at h

/-- A letter that marks a base or an exponent, in either case. -/
theorem isNumeralChar_of_toLower_eq {m : Char} (h : c.toLower = m) (hm : m.isAlphanum = true) :
    isNumeralChar c = true :=
  isNumeralChar_of_isAlphanum (isAlphanum_of_isAlphanum_toLower (h ▸ hm))

namespace Number

/-! ## Whole numbers -/

theorem isNumeralChar_of_digitValue? {v : Nat} (h : digitValue? c = some v) : isNumeralChar c = true := by
  unfold digitValue? at h
  split at h
  · next hdigit => simp [isNumeralChar, Char.isAlphanum, hdigit]
  · split at h
    · next hletter =>
      refine isNumeralChar_of_isAlphanum (isAlphanum_of_isAlphanum_toLower ?_)
      have hlower : c.toLower.isLower = true := by
        simpa [Char.isLower, Char.le_def] using hletter
      simp [Char.isAlphanum, Char.isAlpha, hlower]
    · cases h

theorem digitsValue?_chars {base value n : Nat} (h : digitsValue? base value cs = some n) :
    ∀ c ∈ cs, isNumeralChar c = true := by
  induction cs generalizing value with
  | nil => simp
  | cons c cs ih =>
    unfold digitsValue? at h
    split at h
    · next hc =>
      subst hc
      exact forall_mem_cons.mpr ⟨by decide, ih h⟩
    · split at h
      · next d hd =>
        split at h
        · exact forall_mem_cons.mpr ⟨isNumeralChar_of_digitValue? hd, ih h⟩
        · cases h
      · cases h

/-- What a base mark takes away are characters of numerals too. -/
theorem splitBase_chars (h : ∀ c ∈ (splitBase cs).2, isNumeralChar c = true) :
    ∀ c ∈ cs, isNumeralChar c = true := by
  unfold splitBase at h
  split at h
  · next m d r =>
    have hzero : isNumeralChar '0' = true := by decide
    refine forall_mem_cons.mpr ⟨hzero, ?_⟩
    split at h
    · next hm => exact forall_mem_cons.mpr ⟨isNumeralChar_of_toLower_eq hm (by decide), h⟩
    · split at h
      · next hm => exact forall_mem_cons.mpr ⟨isNumeralChar_of_toLower_eq hm (by decide), h⟩
      · split at h
        · next hm => exact forall_mem_cons.mpr ⟨isNumeralChar_of_toLower_eq hm (by decide), h⟩
        · exact h
  · exact forall_mem_cons.mpr ⟨by decide, h⟩
  · exact h

theorem natural?_chars {n : Nat} (h : natural? cs = some n) : ∀ c ∈ cs, isNumeralChar c = true := by
  unfold natural? at h
  split at h
  · cases h
  · split at h
    · cases h
    · exact splitBase_chars (digitsValue?_chars h)

theorem splitSign_chars (h : ∀ c ∈ (splitSign cs).2, isNumeralChar c = true) :
    ∀ c ∈ cs, isNumeralChar c = true := by
  unfold splitSign at h
  split at h
  · exact forall_mem_cons.mpr ⟨by decide, h⟩
  · exact forall_mem_cons.mpr ⟨by decide, h⟩
  · exact h

theorem unsigned?_chars {bits n : Nat} (h : unsigned? bits cs = some n) : ∀ c ∈ cs, isNumeralChar c = true :=
  natural?_chars (Option.filter_eq_some_iff.mp h).1

theorem signed?_chars {bits : Nat} {n : Int} (h : signed? bits cs = some n) :
    ∀ c ∈ cs, isNumeralChar c = true := by
  refine splitSign_chars ?_
  unfold signed? at h
  split at h <;> next r hsign =>
    rw [hsign]
    obtain ⟨i, hi, -⟩ := Option.map_eq_some_iff.mp h
    obtain ⟨m, hm, -⟩ := Option.bind_eq_some_iff.mp hi
    exact natural?_chars (Option.filter_eq_some_iff.mp hm).1

/-! ## Floats -/

namespace Binary64

/-- The digits before an exponent, with their underscores and the point. -/
theorem takeDigits_chars {base : Nat} {r : List Char} {d d' : Digits} (h : takeDigits base d cs = (d', r))
    (hr : ∀ c ∈ r, isNumeralChar c = true) : ∀ c ∈ cs, isNumeralChar c = true := by
  induction cs generalizing d with
  | nil => simp
  | cons c cs ih =>
    unfold takeDigits at h
    split at h
    · next hc =>
      subst hc
      exact forall_mem_cons.mpr ⟨by decide, ih h⟩
    · split at h
      · next hc =>
        subst hc
        split at h
        · cases h
          exact hr
        · exact forall_mem_cons.mpr ⟨by decide, ih h⟩
      · split at h
        · next v hv =>
          split at h
          · exact forall_mem_cons.mpr ⟨isNumeralChar_of_digitValue? hv, ih h⟩
          · cases h
            exact hr
        · cases h
          exact hr

theorem takeExponent_chars {value e : Nat} (h : takeExponent value cs = (e, [])) :
    ∀ c ∈ cs, isNumeralChar c = true := by
  induction cs generalizing value with
  | nil => simp
  | cons c cs ih =>
    unfold takeExponent at h
    split at h
    · next hc =>
      subst hc
      exact forall_mem_cons.mpr ⟨by decide, ih h⟩
    · split at h
      · next hc =>
        refine forall_mem_cons.mpr ⟨?_, ih h⟩
        simp [isNumeralChar, Char.isAlphanum, hc]
      · cases h

theorem exponent?_chars {e : Int} (h : exponent? cs = some e) : ∀ c ∈ cs, isNumeralChar c = true := by
  refine splitSign_chars ?_
  unfold exponent? at h
  rcases hsign : splitSign cs with ⟨negative, r⟩
  simp only [hsign] at h
  cases r with
  | nil => cases h
  | cons c r =>
    dsimp only at h
    split at h
    · split at h
      · next hexponent => exact takeExponent_chars hexponent
      · cases h
    · cases h

theorem decimal?_chars {negative : Bool} (h : ofLiteral?.decimal? negative cs = some x) :
    ∀ c ∈ cs, isNumeralChar c = true := by
  unfold ofLiteral?.decimal? at h
  split at h
  · next d hd => exact takeDigits_chars hd (forall_mem_nil _)
  · next d p r hd =>
    split at h
    · next hmark =>
      simp only [Bool.and_eq_true, beq_iff_eq] at hmark
      obtain ⟨e, he, -⟩ := Option.bind_eq_some_iff.mp h
      have hp := isNumeralChar_of_toLower_eq hmark.2 (by decide)
      exact takeDigits_chars hd (forall_mem_cons.mpr ⟨hp, exponent?_chars he⟩)
    · cases h

theorem ofLiteral?_chars (h : ofLiteral? cs = some x) : ∀ c ∈ cs, isNumeralChar c = true := by
  refine splitSign_chars ?_
  unfold ofLiteral? at h
  rcases hsign : splitSign cs with ⟨negative, body⟩
  simp only [hsign] at h
  split at h
  · cases h
  · split at h
    · next m c r =>
      split at h
      · next hmark =>
        have hm := isNumeralChar_of_toLower_eq hmark (by decide)
        refine forall_mem_cons.mpr ⟨by decide, forall_mem_cons.mpr ⟨hm, ?_⟩⟩
        split at h
        · next d p r' hd =>
          split at h
          · next hexponent =>
            simp only [Bool.and_eq_true, beq_iff_eq] at hexponent
            obtain ⟨e, he, -⟩ := Option.bind_eq_some_iff.mp h
            have hp := isNumeralChar_of_toLower_eq hexponent.2 (by decide)
            exact takeDigits_chars hd (forall_mem_cons.mpr ⟨hp, exponent?_chars he⟩)
          · cases h
        · cases h
      · exact decimal?_chars h
    · exact decimal?_chars h

end Binary64

end Number

/-! ## Tokens -/

namespace Numeral

variable {tok normal : String}

theorem signs_chars (tok : String) : ∀ c ∈ (signs tok).toList, isNumeralChar c = true := by
  intro c hc
  rw [signs, String.toList_ofList] at hc
  obtain rfl | rfl : c = '+' ∨ c = '-' := by simpa [isSign] using mem_takeWhile_imp hc
  · decide
  · decide

/-- A token is its signs and what follows them. -/
theorem signs_append_unsignedPart (tok : String) : signs tok ++ unsignedPart tok = tok := by
  rw [signs, unsignedPart, ← String.ofList_append, takeWhile_append_dropWhile, String.ofList_toList]

theorem chars_of_unsignedPart (h : ∀ c ∈ (unsignedPart tok).toList, isNumeralChar c = true) :
    ∀ c ∈ tok.toList, isNumeralChar c = true := by
  rw [← signs_append_unsignedPart tok, String.toList_append]
  exact forall_mem_append.mpr ⟨signs_chars tok, h⟩

theorem floatLimits_chars {w : String} (h : w ∈ floatLimits) :
    ∀ c ∈ w.toList, isNumeralChar c = true := by
  simp only [floatLimits, mem_cons, not_mem_nil, or_false] at h
  rcases h with rfl | rfl | rfl | rfl <;> exact all_eq_true.mp (by decide)

theorem intLimits_subset : intLimits ⊆ floatLimits := by decide

theorem int?_chars (h : int? tok = some normal) : ∀ c ∈ normal.toList, isNumeralChar c = true := by
  obtain rfl := int?_eq_some h
  unfold int? at h
  split at h
  · next hlimit =>
    -- the name of a limit, which a sign may precede
    exact chars_of_unsignedPart (floatLimits_chars (intLimits_subset (contains_iff_mem.mp hlimit.1)))
  · obtain ⟨n, hn, -⟩ := Option.map_eq_some_iff.mp h
    exact Number.signed?_chars hn

theorem float?_chars (h : float? tok = some normal) : ∀ c ∈ normal.toList, isNumeralChar c = true := by
  obtain ⟨-, ⟨-, rfl⟩ | ⟨-, rfl⟩ | ⟨hlimit | ⟨x, hx⟩, rfl⟩⟩ := float?_eq_some h
  · exact all_eq_true.mp (by decide)
  · -- an infinity is written anew behind its signs
    rw [String.toList_append]
    exact forall_mem_append.mpr ⟨signs_chars tok, all_eq_true.mp (by decide)⟩
  · exact chars_of_unsignedPart (floatLimits_chars hlimit)
  · exact Number.Binary64.ofLiteral?_chars hx

/-- The normal form of a token of any data type is made of characters of numerals. -/
theorem token?_chars {dataType : String} (h : token? dataType tok = some normal) :
    ∀ c ∈ normal.toList, isNumeralChar c = true := by
  simp only [token?] at h
  split at h
  · exact int?_chars h
  · split at h
    · obtain rfl := unsigned?_eq_some h
      obtain ⟨n, hn, -⟩ := Option.map_eq_some_iff.mp h
      exact Number.unsigned?_chars hn
    · exact float?_chars h

end Numeral

end FlowCompiler
