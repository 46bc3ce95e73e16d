import FlowCompiler.Program.Literal
import Mathlib

/-!
# Values that fit a data type

A value fits a data type if it is a composite of the type's shape whose fields are unset or hold tokens of
the type, or a text that is a scalar of a type without fields (`Value.Fits`). Whether a token is one is
decided by `Numeral.token?`; which literal it becomes is decided again, from the token alone, by
`Literal.ofInt`, `Literal.ofUnsigned` and `Literal.ofFloat`, which fall back on the text as it stands.

* `Numeral.token?_normal`: the normal form of a token is a token of the same data type, with itself as its normal
  form.
* `Value.Fits.wellWritten`: a value that fits is written with proper literals, never with the text of a
  number, a truth value or a byte as it stands.
-/

namespace FlowCompiler

open List

/-! ## Canonical names -/

@[simp] theorem DataType.canonical_canonical (dataType : String) :
    canonical (canonical dataType) = canonical dataType := by
  by_cases h : dataType ∈ ["drange", "irange", "direction_vector", "drange_spec", "bool"]
  · simp only [mem_cons, not_mem_nil, or_false] at h
    rcases h with rfl | rfl | rfl | rfl | rfl <;> decide
  · have hself : canonical dataType = dataType := by
      unfold canonical
      split <;> simp_all
    rw [hself, hself]

@[simp] theorem Shape.ofType?_canonical (dataType : String) :
    ofType? (DataType.canonical dataType) = ofType? dataType := by
  simp only [ofType?, DataType.canonical_canonical]

@[simp] theorem Numeral.token?_canonical (dataType tok : String) :
    token? (DataType.canonical dataType) tok = token? dataType tok := by
  simp only [token?, DataType.canonical_canonical]

@[simp] theorem Numeral.isScalar_canonical (dataType text : String) :
    isScalar (DataType.canonical dataType) text = isScalar dataType text := by
  simp only [isScalar, DataType.canonical_canonical]

/-! ## Normal forms of tokens -/

namespace Numeral

variable {tok normal : String}

theorem int?_eq_some (h : int? tok = some normal) : normal = tok := by
  unfold int? at h
  split at h
  · exact (Option.some.inj h).symm
  · obtain ⟨_, _, rfl⟩ := Option.map_eq_some_iff.mp h
    rfl

theorem unsigned?_eq_some (h : unsigned? tok = some normal) : normal = tok := by
  obtain ⟨_, _, rfl⟩ := Option.map_eq_some_iff.mp h
  rfl

theorem signs_append_inf (tok : String) : signs (signs tok ++ "inf") = signs tok := by
  have hsigns : ∀ c ∈ tok.toList.takeWhile isSign, isSign c = true := fun _ => mem_takeWhile_imp
  unfold signs
  rw [String.toList_append, String.toList_ofList, takeWhile_append_of_pos hsigns]
  simp [isSign]

theorem unsignedPart_append_inf (tok : String) : unsignedPart (signs tok ++ "inf") = "inf" := by
  have hsigns : ∀ c ∈ tok.toList.takeWhile isSign, isSign c = true := fun _ => mem_takeWhile_imp
  unfold unsignedPart signs
  rw [String.toList_append, String.toList_ofList, dropWhile_append_of_pos hsigns]
  rfl

/-- What a token of a float is: a word for not-a-number or for infinity, the name of a limit, or a literal.
Only the first two have another normal form than themselves. -/
theorem float?_eq_some (h : float? tok = some normal) :
    (signs tok).length ≤ 1 ∧
      (Text.lowercase (unsignedPart tok) = "nan" ∧ normal = "nan" ∨
        (Text.lowercase (unsignedPart tok) = "inf" ∨ Text.lowercase (unsignedPart tok) = "infinity") ∧
          normal = signs tok ++ "inf" ∨
        (unsignedPart tok ∈ floatLimits ∨ ∃ x, Number.Binary64.ofLiteral? tok.toList = some x) ∧
          normal = tok) := by
  simp only [float?] at h
  split at h
  · cases h
  · next hsigns =>
    refine ⟨Nat.le_of_not_lt hsigns, ?_⟩
    split at h
    · next hnan => exact .inl ⟨hnan, (Option.some.inj h).symm⟩
    · split at h
      · next hinf => exact .inr (.inl ⟨hinf, (Option.some.inj h).symm⟩)
      · split at h
        · next hlimit =>
          exact .inr (.inr ⟨.inl (contains_iff_mem.mp hlimit), (Option.some.inj h).symm⟩)
        · obtain ⟨x, hx, rfl⟩ := Option.map_eq_some_iff.mp h
          exact .inr (.inr ⟨.inr ⟨x, hx⟩, rfl⟩)

theorem float?_normal (h : float? tok = some normal) : float? normal = some normal := by
  obtain ⟨hsigns, ⟨-, rfl⟩ | ⟨-, rfl⟩ | ⟨-, rfl⟩⟩ := float?_eq_some h
  · decide
  · have hword : Text.lowercase "inf" = "inf" := by decide
    simp only [float?, signs_append_inf, unsignedPart_append_inf, if_neg (Nat.not_lt.mpr hsigns), hword]
    simp
  · exact h

/-- The normal form of a token is a token that is its own normal form. -/
theorem token?_normal {dataType : String} (h : token? dataType tok = some normal) :
    token? dataType normal = some normal := by
  simp only [token?] at h ⊢
  split at h
  · obtain rfl := int?_eq_some h
    rw [if_pos ‹_›, h]
  · rw [if_neg ‹_›]
    split at h
    · obtain rfl := unsigned?_eq_some h
      rw [if_pos ‹_›, h]
    · rw [if_neg ‹_›]
      exact float?_normal h

end Numeral

/-! ## Literals of tokens -/

/-- Whether a literal is more than a text taken over as it stands. -/
def Literal.isProper : Literal → Bool
  | verbatim _ => false
  | _ => true

namespace Literal

open Numeral

variable {tok : String}

/-- Where a token has at most one sign, taking one sign away and taking all of them away is the same. -/
theorem splitSign_snd (h : (signs tok).length ≤ 1) : (splitSign tok).2 = unsignedPart tok := by
  have hbody : (Number.splitSign tok.toList).2 = tok.toList.dropWhile isSign := by
    have hlen : (tok.toList.takeWhile isSign).length ≤ 1 := by
      rwa [signs, String.length_ofList] at h
    revert hlen
    generalize tok.toList = cs
    intro hlen
    cases cs with
    | nil => rfl
    | cons c rest =>
      by_cases hc : isSign c = true
      · -- the one sign is the first character, so none follows it
        rw [takeWhile_cons_of_pos hc, length_cons] at hlen
        have hnone : rest.takeWhile isSign = [] := eq_nil_of_length_eq_zero (by omega)
        have hrest : rest.dropWhile isSign = rest := by
          simpa [hnone] using takeWhile_append_dropWhile (p := isSign) (l := rest)
        rw [dropWhile_cons_of_pos hc, hrest]
        obtain rfl | rfl : c = '+' ∨ c = '-' := by simpa [isSign] using hc
        · rfl
        · rfl
      · rw [dropWhile_cons_of_neg hc]
        unfold Number.splitSign
        split
        · next heq =>
          cases heq
          exact absurd rfl hc
        · next heq =>
          cases heq
          exact absurd rfl hc
        · rfl
  exact congrArg String.ofList hbody

theorem ofInt_isProper (h : (int? tok).isSome) : (ofInt tok).isProper := by
  simp only [int?] at h
  simp only [ofInt]
  split at h
  · next hlimit =>
    have hbody := hlimit.1
    rw [← splitSign_snd hlimit.2] at hbody
    obtain hb | hb : (splitSign tok).2 = "INT32_MIN" ∨ (splitSign tok).2 = "INT32_MAX" := by
      simpa [intLimits] using hbody
    · rw [if_neg (by rw [hb]; decide), if_pos hb]
      rfl
    · rw [if_pos hb]
      rfl
  · obtain ⟨n, hn⟩ := Option.isSome_iff_exists.mp (Option.isSome_map ▸ h)
    rw [hn]
    split
    · rfl
    · split <;> rfl

theorem ofUnsigned_isProper (h : (Numeral.unsigned? tok).isSome) : (ofUnsigned tok).isProper := by
  obtain ⟨n, hn⟩ := Option.isSome_iff_exists.mp (Option.isSome_map ▸ h)
  unfold ofUnsigned
  rw [hn]
  rfl

theorem ofFloat_isProper (h : (float? tok).isSome) : (ofFloat tok).isProper := by
  obtain ⟨normal, hnormal⟩ := Option.isSome_iff_exists.mp h
  obtain ⟨hsigns, hform⟩ := float?_eq_some hnormal
  simp only [ofFloat, splitSign_snd hsigns]
  obtain ⟨hnan, -⟩ | ⟨hinf, -⟩ | ⟨hlimit | ⟨x, hx⟩, -⟩ := hform
  · rw [if_pos hnan]
    rfl
  · rw [if_pos hinf]
    split <;> rfl
  · simp only [floatLimits, mem_cons, not_mem_nil, or_false] at hlimit
    split_ifs <;> simp_all [isProper]
  · rw [hx]
    split_ifs <;> rfl

end Literal

/-! ## Values -/

/-- A composite of the shape of a data type whose fields are not set or hold tokens of the data type. -/
structure Composite.Fits (dataType : String) (c : Composite) : Prop where
  shape : Shape.ofType? dataType = some c.shape
  tokens : ∀ t ∈ c.texts, t ≠ "" → (Numeral.token? dataType t).isSome

/-- A value of the right form for a data type. Anything may stand as raw text. -/
def Value.Fits (dataType : String) : Value → Prop
  | text t => Shape.ofType? dataType = none ∧ Numeral.isScalar dataType t
  | composite c => c.Fits dataType
  | raw _ => True

/-- A value of which every number, truth value and byte becomes a proper literal. A text of another data
type stands for itself, and raw text is not written at all. -/
def Value.WellWritten (dataType : String) : Value → Prop
  | text t =>
    DataType.canonical dataType = DataType.boolean ∨ DataType.canonical dataType = DataType.byte →
      (Literal.ofScalar (DataType.canonical dataType) t).isProper
  | composite c => ∀ f ∈ c.literals (DataType.canonical dataType), f.2.isProper
  | raw _ => True

/-- The rules for the fields of a shape and for the tokens of a data type agree on which kind of number a
token is. -/
theorem Composite.literal_isProper {dataType tok : String} {c : Composite}
    (hshape : Shape.ofType? dataType = some c.shape) (htok : (Numeral.token? dataType tok).isSome) :
    (c.literal (DataType.canonical dataType) tok).isProper := by
  simp only [Shape.ofType?] at hshape
  simp only [Numeral.token?] at htok
  unfold literal
  split at hshape
  · rw [← Option.some.inj hshape]
    by_cases hint : DataType.canonical dataType = DataType.int
    · rw [if_pos hint] at htok
      simpa only [if_pos hint] using Literal.ofInt_isProper htok
    · have hfloat : DataType.canonical dataType = DataType.float := by
        simpa [hint] using ‹DataType.canonical dataType = DataType.int ∨ _›
      rw [if_neg hint, if_neg (by rw [hfloat]; decide)] at htok
      simpa only [if_neg hint] using Literal.ofFloat_isProper htok
  · next hrange =>
    rw [if_neg (fun h => hrange (.inl h))] at htok
    split at hshape
    · next hspec =>
      rw [← Option.some.inj hshape]
      rw [if_neg (by rw [hspec]; decide)] at htok
      exact Literal.ofFloat_isProper htok
    · split at hshape
      · next hrgb =>
        rw [← Option.some.inj hshape]
        rw [if_pos hrgb] at htok
        exact Literal.ofUnsigned_isProper htok
      · next hrgb =>
        rw [if_neg hrgb] at htok
        split at hshape
        · rw [← Option.some.inj hshape]
          exact Literal.ofFloat_isProper htok
        · cases hshape

theorem Literal.ofScalar_isProper {dataType t : String} (h : Numeral.isScalar dataType t)
    (htype : DataType.canonical dataType = DataType.boolean ∨
      DataType.canonical dataType = DataType.byte) :
    (ofScalar (DataType.canonical dataType) t).isProper := by
  simp only [Numeral.isScalar] at h
  unfold ofScalar
  rcases htype with hbool | hbyte
  · rw [if_pos hbool] at h
    obtain ⟨b, hb⟩ := Option.isSome_iff_exists.mp h
    rw [hbool, hb]
    rfl
  · rw [if_neg (by rw [hbyte]; decide), if_pos hbyte] at h
    obtain ⟨n, hn⟩ := Option.isSome_iff_exists.mp h
    rw [hbyte, hn]
    rfl

/-- A value that fits is written with proper literals. -/
theorem Value.Fits.wellWritten {dataType : String} {v : Value} (h : v.Fits dataType) :
    v.WellWritten dataType := by
  cases v with
  | raw t => trivial
  | text t => exact Literal.ofScalar_isProper h.2
  | composite c =>
    intro f hf
    simp only [Composite.literals, mem_map, mem_filter] at hf
    obtain ⟨⟨field, tok⟩, ⟨hmem, hset⟩, rfl⟩ := hf
    have htok := h.tokens tok (of_mem_zip hmem).2 (by simpa using hset)
    exact Composite.literal_isProper h.shape htok

end FlowCompiler
