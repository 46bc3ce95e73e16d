import FlowCompiler.Proofs.Options.Suboptions

/-!
# Values of integer literals

The grammar of whole numbers, with their values: `Number.Continues` reads digits to a base, each alone or behind one
underscore, `Number.Natural` is a number without a sign, in any of its four notations, and `Number.Signed` one that
may have a sign. The readers accept exactly this grammar and give the values, within their bounds
(`natural?_eq_some_iff`, `signed?_eq_some_iff`).

Main statement: `Literal.integers_keep_values`. A token that is accepted denotes one value (`Numeral.Denotes`), and the
expression that is written for it has the same (`Source.Expr.Evaluates`), which fits into the field that it is for. The
one exception is the negation of the least number, which does not fit.
-/

namespace FlowCompiler

open List

variable {normal tok : String} {v w : Int} {d : Nat}

namespace Number

/-! ## The grammar of whole numbers -/

/-- `c` is the digit of the value `d`; a letter may be a capital. -/
def IsDigit (c : Char) (d : Nat) : Prop :=
  "0123456789abcdef".toList[d]? = some c ∨ "0123456789ABCDEF".toList[d]? = some c

instance (c : Char) (d : Nat) : Decidable (IsDigit c d) := inferInstanceAs (Decidable (_ ∨ _))

/-- The digits of `cs`, each alone or behind one underscore, continue the number `n` to `m`. -/
inductive Continues (base : Nat) : Nat → List Char → Nat → Prop
  | done {n : Nat} : Continues base n [] n
  | digit {n m d : Nat} {c : Char} {cs : List Char} (hc : IsDigit c d) (hd : d < base)
      (h : Continues base (n * base + d) cs m) : Continues base n (c :: cs) m
  | underscore {n m d : Nat} {c : Char} {cs : List Char} (hc : IsDigit c d) (hd : d < base)
      (h : Continues base (n * base + d) cs m) : Continues base n ('_' :: c :: cs) m

/-- The letters that mark a base behind a zero. -/
def baseMarks : List (Char × Nat) := [('b', 2), ('B', 2), ('o', 8), ('O', 8), ('x', 16), ('X', 16)]

/-- `cs` is a number without a sign, of the value `n`: in decimal, which starts with no zero, or behind a zero and
to the base that a mark gives, which is 8 if there is none. -/
inductive Natural : List Char → Nat → Prop
  | decimal {n d : Nat} {c : Char} {cs : List Char} (hc : IsDigit c d) (hpos : 0 < d) (hd : d < 10)
      (h : Continues 10 d cs n) : Natural (c :: cs) n
  | octal {n : Nat} {cs : List Char} (h : Continues 8 0 cs n) : Natural ('0' :: cs) n
  | marked {n base : Nat} {mark : Char} {cs : List Char} (hmark : (mark, base) ∈ baseMarks) (hne : cs ≠ [])
      (h : Continues base 0 cs n) : Natural ('0' :: mark :: cs) n

/-- `cs` is a number of the value `v`, which may have a sign. -/
inductive Signed : List Char → Int → Prop
  | bare {cs : List Char} {n : Nat} (h : Natural cs n) : Signed cs n
  | plus {cs : List Char} {n : Nat} (h : Natural cs n) : Signed ('+' :: cs) n
  | minus {cs : List Char} {n : Nat} (h : Natural cs n) : Signed ('-' :: cs) (-n)

/-! ## Digits -/

theorem IsDigit.lt {c : Char} (h : IsDigit c d) : d < 16 := by
  rcases h with h | h <;> exact (List.getElem?_eq_some_iff.mp h).1

theorem digitValue?_of_isDigit {c : Char} (h : IsDigit c d) : digitValue? c = some d := by
  have hd := h.lt
  unfold IsDigit at h
  interval_cases d <;> rcases h with h | h <;> cases h <;> decide

theorem isDigit_of_digitValue? {c : Char} (h : digitValue? c = some d) (hd : d < 16) : IsDigit c d := by
  have htable : ∀ n < 128, ∀ d ∈ digitValue? (Char.ofNat n), d < 16 → IsDigit (Char.ofNat n) d := by
    decide +kernel
  have hascii := toNat_lt_of_isNumeralChar (isNumeralChar_of_digitValue? h)
  exact Text.forall_ascii (P := fun c => ∀ d ∈ digitValue? c, d < 16 → IsDigit c d) htable hascii d h hd

/-- The digits below a base that the rule on underscores knows as digits. -/
theorem isDigit_or_hex {c : Char} {base : Nat} {hex : Bool} (hbase : base ≤ if hex then 16 else 10)
    (hc : IsDigit c d) (hd : d < base) :
    (c.isDigit || (hex && 'a' ≤ c.toLower && c.toLower ≤ 'f')) = true := by
  have hlt := hc.lt
  unfold IsDigit at hc
  cases hex with
  | false =>
    have hten : d < 10 := Nat.lt_of_lt_of_le hd hbase
    interval_cases d <;> rcases hc with hc | hc <;> cases hc <;> decide
  | true => interval_cases d <;> rcases hc with hc | hc <;> cases hc <;> decide

theorem not_isDigit_underscore : ¬ IsDigit '_' d := fun h => nomatch digitValue?_of_isDigit h

/-! ## Digits with underscores -/

section Follow

variable {base n m : Nat} {hex : Bool} {before : Before} {c : Char} {cs : List Char}

/-- `cs` starts with a digit, and its digits continue the number `n` to `m`. -/
def Opens (base n : Nat) (cs : List Char) (m : Nat) : Prop :=
  ∃ c d ds, cs = c :: ds ∧ IsDigit c d ∧ d < base ∧ Continues base (n * base + d) ds m

theorem not_opens_nil : ¬ Opens base n [] m := by
  rintro ⟨c, d, ds, h, -⟩
  cases h

theorem opens_cons_iff :
    Opens base n (c :: cs) m ↔ ∃ d, IsDigit c d ∧ d < base ∧ Continues base (n * base + d) cs m := by
  constructor
  · rintro ⟨_, d, _, hcons, h⟩
    cases hcons
    exact ⟨d, h⟩
  · rintro ⟨d, h⟩
    exact ⟨c, d, cs, rfl, h⟩

theorem not_opens_underscore : ¬ Opens base n ('_' :: cs) m := by
  rw [opens_cons_iff]
  rintro ⟨d, hc, -⟩
  exact not_isDigit_underscore hc

theorem continues_nil_iff : Continues base n [] m ↔ n = m := by
  constructor
  · rintro ⟨⟩
    rfl
  · rintro rfl
    exact .done

theorem continues_underscore_iff : Continues base n ('_' :: cs) m ↔ Opens base n cs m := by
  constructor
  · intro h
    cases h with
    | digit hc => exact absurd hc not_isDigit_underscore
    | underscore hc hd h => exact ⟨_, _, _, rfl, hc, hd, h⟩
  · rintro ⟨c, d, ds, rfl, hc, hd, h⟩
    exact .underscore hc hd h

theorem continues_cons_iff (hc : c ≠ '_') : Continues base n (c :: cs) m ↔ Opens base n (c :: cs) m := by
  rw [opens_cons_iff]
  constructor
  · intro h
    cases h with
    | digit hdigit hd h => exact ⟨_, hdigit, hd, h⟩
    | underscore => exact absurd rfl hc
  · rintro ⟨d, hdigit, hd, h⟩
    exact .digit hdigit hd h

theorem digitsValue?_cons_eq_some_iff (hc : c ≠ '_') :
    digitsValue? base n (c :: cs) = some m ↔
      ∃ d, digitValue? c = some d ∧ d < base ∧ digitsValue? base (n * base + d) cs = some m := by
  rw [digitsValue?, if_neg hc]
  cases digitValue? c with
  | none => simp
  | some d => by_cases hd : d < base <;> simp [hd]

theorem underscoresFollow_underscore :
    underscoresFollow hex before ('_' :: cs) = (before == .digit && underscoresFollow hex .underscore cs) := by
  have hdigit : ('_'.isDigit || (hex && decide ('a' ≤ '_'.toLower) && decide ('_'.toLower ≤ 'f'))) = false := by
    cases hex <;> decide
  rw [underscoresFollow, hdigit]
  rfl

/-- Behind a digit the rules on digits and on underscores together are those of the grammar. Elsewhere no underscore may
come first. -/
theorem digitsValue?_follow_iff (hbase : base ≤ if hex then 16 else 10) (cs : List Char) (n : Nat) :
    (digitsValue? base n cs = some m ∧ underscoresFollow hex .digit cs = true ↔ Continues base n cs m) ∧
    ∀ before ≠ .digit, (cs ≠ [] ∧ digitsValue? base n cs = some m ∧ underscoresFollow hex before cs = true ↔
      Opens base n cs m) := by
  induction cs generalizing n with
  | nil => simp [digitsValue?, underscoresFollow, continues_nil_iff, not_opens_nil]
  | cons c cs ih =>
    by_cases hunderscore : c = '_'
    · subst hunderscore
      have hend : underscoresFollow hex .underscore [] = false := rfl
      refine ⟨?_, fun before hbefore => ?_⟩
      · rw [digitsValue?, if_pos rfl, underscoresFollow_underscore, continues_underscore_iff,
          ← (ih n).2 .underscore (by decide)]
        cases cs <;> simp [hend]
      · simp [underscoresFollow_underscore, not_opens_underscore, hbefore]
    · have hstep : ∀ before, digitsValue? base n (c :: cs) = some m ∧ underscoresFollow hex before (c :: cs) = true ↔
          Opens base n (c :: cs) m := by
        intro before
        rw [digitsValue?_cons_eq_some_iff hunderscore, opens_cons_iff]
        constructor
        · rintro ⟨⟨d, hc, hd, h⟩, hfollow⟩
          have hdigit := isDigit_of_digitValue? hc (by split at hbase <;> omega)
          rw [underscoresFollow, if_pos (isDigit_or_hex hbase hdigit hd)] at hfollow
          exact ⟨d, hdigit, hd, (ih _).1.mp ⟨h, hfollow⟩⟩
        · rintro ⟨d, hc, hd, h⟩
          obtain ⟨hvalue, hfollow⟩ := (ih _).1.mpr h
          rw [underscoresFollow, if_pos (isDigit_or_hex hbase hc hd)]
          exact ⟨⟨d, digitValue?_of_isDigit hc, hd, hvalue⟩, hfollow⟩
      rw [continues_cons_iff hunderscore]
      exact ⟨hstep .digit, fun before _ => by simpa using hstep before⟩

/-- Without underscores there is nothing that the rule on them could refuse. -/
theorem underscoresFollow_of_notMem (h : '_' ∉ cs) (hbefore : before ≠ .underscore) :
    underscoresFollow hex before cs = true := by
  induction cs generalizing before with
  | nil => simpa [underscoresFollow] using hbefore
  | cons c cs ih =>
    obtain ⟨hc, hcs⟩ := not_or.mp (mem_cons.not.mp h)
    rw [underscoresFollow]
    split
    · exact ih hcs (by decide)
    · rw [if_neg (by simpa using Ne.symm hc), ih hcs (by decide)]
      simpa using hbefore

theorem underscoresOk_of_notMem (h : '_' ∉ cs) : underscoresOk cs = true := by
  unfold underscoresOk
  split
  · dsimp only
    split
    · exact underscoresFollow_of_notMem (fun hmem => h (by simp [hmem])) (by decide)
    · exact underscoresFollow_of_notMem h (by decide)
  · exact underscoresFollow_of_notMem h (by decide)

end Follow

/-! ## Numbers without a sign -/

section Natural

variable {n base : Nat} {c mark : Char} {cs : List Char}

theorem natural?_eq_some :
    natural? cs = some n ↔
      cs ≠ [] ∧ underscoresOk cs = true ∧ digitsValue? (splitBase cs).1 0 (splitBase cs).2 = some n := by
  unfold natural?
  by_cases hnil : cs = []
  · simp [hnil]
  · by_cases hmem : '_' ∈ cs
    · simp [hnil, hmem]
    · simp [hnil, hmem, underscoresOk_of_notMem hmem]

theorem natural?_decimal_iff (hc : c ≠ '0') : natural? (c :: cs) = some n ↔ Natural (c :: cs) n := by
  have hbase : splitBase (c :: cs) = (10, c :: cs) := by
    unfold splitBase
    split <;> simp_all
  have hunderscores : underscoresOk (c :: cs) = underscoresFollow false .start (c :: cs) := by
    unfold underscoresOk
    split <;> simp_all
  rw [natural?_eq_some, hbase, hunderscores, and_comm (b := digitsValue? _ _ _ = _)]
  dsimp only
  rw [(digitsValue?_follow_iff (by decide) _ _).2 .start (by decide), opens_cons_iff]
  constructor
  · rintro ⟨d, hdigit, hd, h⟩
    have hpos : d ≠ 0 := by
      rintro rfl
      rcases hdigit with h | h <;> cases h <;> exact hc rfl
    rw [Nat.zero_mul, Nat.zero_add] at h
    exact .decimal hdigit (Nat.pos_of_ne_zero hpos) hd h
  · intro h
    cases h with
    | decimal hdigit _ hd h => exact ⟨_, hdigit, hd, by simpa using h⟩
    | octal | marked => exact absurd rfl hc

/-- The rest of a number that starts with a zero. -/
theorem natural_zero_iff : Natural ('0' :: cs) n ↔
    Continues 8 0 cs n ∨
      ∃ mark base ds, cs = mark :: ds ∧ (mark, base) ∈ baseMarks ∧ ds ≠ [] ∧ Continues base 0 ds n := by
  constructor
  · intro h
    cases h with
    | decimal hdigit hpos =>
      have hzero : digitValue? '0' = some 0 := rfl
      rw [digitValue?_of_isDigit hdigit, Option.some.injEq] at hzero
      omega
    | octal h => exact .inl h
    | marked hmark hne h => exact .inr ⟨_, _, _, rfl, hmark, hne, h⟩
  · rintro (h | ⟨mark, base, ds, rfl, hmark, hne, h⟩)
    · exact .octal h
    · exact .marked hmark hne h

theorem exists_baseMark (h : mark.toLower = 'b' ∨ mark.toLower = 'o' ∨ mark.toLower = 'x') :
    ∃ base, (mark, base) ∈ baseMarks := by
  have htable : ∀ n < 128, (Char.ofNat n).toLower ∈ ['b', 'o', 'x'] → Char.ofNat n ∈ baseMarks.map (·.1) := by decide
  have hascii : mark.toNat < 128 := by
    refine toNat_lt_of_isNumeralChar ?_
    rcases h with h | h | h <;> exact isNumeralChar_of_toLower_eq h (by decide)
  have hmem := Text.forall_ascii (P := fun c => c.toLower ∈ ['b', 'o', 'x'] → c ∈ baseMarks.map (·.1)) htable hascii
    (by simpa using h)
  obtain ⟨⟨_, base⟩, hp, rfl⟩ := mem_map.mp hmem
  exact ⟨base, hp⟩

theorem baseMarks_unique {base' : Nat} (h : (mark, base) ∈ baseMarks) (h' : (mark, base') ∈ baseMarks) :
    base = base' := by
  have htable : ∀ p ∈ baseMarks, ∀ q ∈ baseMarks, p.1 = q.1 → p.2 = q.2 := by decide
  exact htable _ h _ h' rfl

/-- A mark is no octal digit. -/
theorem not_continues_mark (hmark : (mark, base) ∈ baseMarks) : ¬ Continues 8 0 (mark :: cs) n := by
  have hmarks : ∀ p ∈ baseMarks, p.1 ≠ '_' ∧ ∀ d ∈ digitValue? p.1, 8 ≤ d := by decide
  obtain ⟨hunderscore, hvalue⟩ := hmarks _ hmark
  rw [continues_cons_iff hunderscore, opens_cons_iff]
  rintro ⟨d, hdigit, hd, -⟩
  exact absurd (hvalue d (digitValue?_of_isDigit hdigit)) (Nat.not_le.mpr hd)

theorem natural?_marked_iff (hmark : (mark, base) ∈ baseMarks) :
    natural? ('0' :: mark :: cs) = some n ↔ cs ≠ [] ∧ Continues base 0 cs n := by
  cases cs with
  | nil =>
    have hmarks : ∀ p ∈ baseMarks, natural? ['0', p.1] = none := by decide
    simp [hmarks _ hmark]
  | cons d ds =>
    -- each mark gives its base, and counts as a digit for the underscore behind it
    have hmarks : ∀ p ∈ baseMarks, splitBase ('0' :: p.1 :: d :: ds) = (p.2, d :: ds) ∧
        underscoresOk ('0' :: p.1 :: d :: ds) = underscoresFollow (p.2 == 16) .digit (d :: ds) ∧
        p.2 ≤ if (p.2 == 16) = true then 16 else 10 := by
      simp only [baseMarks, mem_cons, not_mem_nil, or_false]
      rintro p (rfl | rfl | rfl | rfl | rfl | rfl) <;> exact ⟨rfl, rfl, by decide⟩
    obtain ⟨hbase, hunderscores, hle⟩ := hmarks _ hmark
    rw [natural?_eq_some, hbase, hunderscores, ← (digitsValue?_follow_iff hle _ _).1,
      and_comm (a := digitsValue? _ _ _ = _)]
    simp

theorem natural?_octal_iff (hmark : ∀ mark ∈ cs.head?, ∀ base, (mark, base) ∉ baseMarks) :
    natural? ('0' :: cs) = some n ↔ Continues 8 0 cs n := by
  have hnone : ∀ mark ∈ cs.head?, mark.toLower ≠ 'b' ∧ mark.toLower ≠ 'o' ∧ mark.toLower ≠ 'x' := by
    intro mark hhead
    have hlower := fun h => (exists_baseMark h).elim (hmark mark hhead)
    tauto
  have hbase : splitBase ('0' :: cs) = (8, cs) := by
    unfold splitBase
    split <;> simp_all
  have hunderscores : underscoresOk ('0' :: cs) = underscoresFollow false .digit cs := by
    unfold underscoresOk
    split
    · next heq =>
      cases heq
      obtain ⟨hb, ho, hx⟩ := hnone _ rfl
      simp [hb, ho, hx, underscoresFollow]
    · rfl
  have hle : 8 ≤ if false = true then 16 else 10 := by decide
  rw [natural?_eq_some, hbase, hunderscores, ← (digitsValue?_follow_iff hle _ _).1,
    and_comm (a := digitsValue? _ _ _ = _)]
  simp

/-- The reader of numbers without a sign accepts exactly their grammar. -/
theorem natural?_eq_some_iff : natural? cs = some n ↔ Natural cs n := by
  cases cs with
  | nil =>
    constructor
    · rintro ⟨⟩
    · rintro ⟨⟩
  | cons c cs =>
    by_cases hc : c = '0'
    · subst hc
      rw [natural_zero_iff]
      by_cases hmark : ∃ mark base ds, cs = mark :: ds ∧ (mark, base) ∈ baseMarks
      · obtain ⟨mark, base, ds, rfl, hmark⟩ := hmark
        rw [natural?_marked_iff hmark]
        constructor
        · exact fun h => .inr ⟨mark, base, ds, rfl, hmark, h⟩
        · rintro (h | ⟨mark', base', ds', hcons, hmark', h⟩)
          · exact absurd h (not_continues_mark hmark)
          · cases hcons
            rwa [baseMarks_unique hmark hmark']
      · rw [natural?_octal_iff]
        · constructor
          · exact .inl
          · rintro (h | ⟨mark, base, ds, hcons, hmark', -⟩)
            · exact h
            · exact absurd ⟨mark, base, ds, hcons, hmark'⟩ hmark
        · intro mark hhead base hmem
          obtain ⟨ds, rfl⟩ := head?_eq_some_iff.mp hhead
          exact hmark ⟨mark, base, ds, rfl, hmem⟩
    · exact natural?_decimal_iff hc

end Natural

/-! ## Bounds and signs -/

theorem Natural.unique {cs : List Char} {n m : Nat} (h : Natural cs n) (h' : Natural cs m) : n = m := by
  rw [← natural?_eq_some_iff] at h h'
  exact Option.some.inj (h.symm.trans h')

theorem unsigned?_eq_some_iff {bits n : Nat} {cs : List Char} :
    unsigned? bits cs = some n ↔ Natural cs n ∧ n < 2 ^ bits := by
  rw [unsigned?, Option.filter_eq_some_iff, natural?_eq_some_iff, decide_eq_true_eq]
  rfl

/-- A number without a sign starts with a digit. -/
theorem Natural.isDigit_head {c : Char} {cs : List Char} {n : Nat} (h : Natural (c :: cs) n) : ∃ d, IsDigit c d := by
  cases h with
  | decimal hc => exact ⟨_, hc⟩
  | octal | marked => exact ⟨0, by decide⟩

theorem signed_iff {cs : List Char} :
    Signed cs v ↔ ∃ n : Nat, Natural (splitSign cs).2 n ∧ v = if (splitSign cs).1 then -(n : Int) else n := by
  constructor
  · intro h
    cases h with
    | bare h =>
      have hsign : splitSign cs = (false, cs) := by
        unfold splitSign
        split
        · obtain ⟨d, hd⟩ := h.isDigit_head
          cases digitValue?_of_isDigit hd
        · obtain ⟨d, hd⟩ := h.isDigit_head
          cases digitValue?_of_isDigit hd
        · rfl
      rw [hsign]
      exact ⟨_, h, rfl⟩
    | plus h => exact ⟨_, h, rfl⟩
    | minus h => exact ⟨_, h, rfl⟩
  · rintro ⟨n, h, rfl⟩
    unfold splitSign at h ⊢
    split at h
    · exact .minus h
    · exact .plus h
    · exact .bare h

theorem Signed.unique {cs : List Char} (h : Signed cs v) (h' : Signed cs w) : v = w := by
  obtain ⟨n, hn, rfl⟩ := signed_iff.mp h
  obtain ⟨m, hm, rfl⟩ := signed_iff.mp h'
  rw [hn.unique hm]

/-- The reader of numbers with a sign accepts those that fit into the bits. -/
theorem signed?_eq_some_iff {bits : Nat} {cs : List Char} :
    signed? bits cs = some v ↔ Signed cs v ∧ -2 ^ (bits - 1) ≤ v ∧ v < 2 ^ (bits - 1) := by
  have hpow : ((Nat.pow 2 (bits - 1) : Nat) : Int) = 2 ^ (bits - 1) := by
    rw [Nat.pow_eq]
    push_cast
    rfl
  have hpos : (0 : Int) < 2 ^ (bits - 1) := by positivity
  rw [signed_iff, signed?]
  rcases splitSign cs with ⟨negative, r⟩
  -- the bound is checked of the number without its sign, which a minus may take one further
  have hread : ∀ (p : Nat → Bool) (f : Int → Int),
      (((natural? r).filter p).bind fun n => some (n : Int)).map f = some v ↔
        ∃ n : Nat, Natural r n ∧ p n = true ∧ f n = v := by
    intro p f
    simp only [Option.map_eq_some_iff, Option.bind_eq_some_iff, Option.filter_eq_some_iff, natural?_eq_some_iff]
    constructor
    · rintro ⟨_, ⟨n, ⟨hn, hp⟩, ⟨⟩⟩, rfl⟩
      exact ⟨n, hn, hp, rfl⟩
    · rintro ⟨n, hn, hp, rfl⟩
      exact ⟨n, ⟨n, ⟨hn, hp⟩, rfl⟩, rfl⟩
  cases negative with
  | true =>
    refine (hread _ _).trans ⟨?_, ?_⟩
    · rintro ⟨n, hn, hle, rfl⟩
      have := of_decide_eq_true hle
      exact ⟨⟨n, hn, rfl⟩, by omega, by omega⟩
    · rintro ⟨⟨n, hn, rfl⟩, hle, -⟩
      exact ⟨n, hn, decide_eq_true (by simp only [if_true] at hle; omega), rfl⟩
  | false =>
    refine (hread _ _).trans ⟨?_, ?_⟩
    · rintro ⟨n, hn, hlt, rfl⟩
      have := of_decide_eq_true hlt
      exact ⟨⟨n, hn, rfl⟩, by omega, by omega⟩
    · rintro ⟨⟨n, hn, rfl⟩, -, hlt⟩
      exact ⟨n, hn, decide_eq_true (by simp only [Bool.false_eq_true, if_false] at hlt; omega), rfl⟩

/-! ## Written numbers -/

theorem Continues.concat {base n m : Nat} {c : Char} {cs : List Char} (h : Continues base n cs m)
    (hc : IsDigit c d) (hd : d < base) : Continues base n (cs ++ [c]) (m * base + d) := by
  induction h with
  | done => exact .digit hc hd .done
  | digit hc' hd' _ ih => exact .digit hc' hd' ih
  | underscore hc' hd' _ ih => exact .underscore hc' hd' ih

theorem isDigit_digitChar : ∀ d < 16, IsDigit (Nat.digitChar d) d := by decide

/-- A natural number is written in decimal. -/
theorem natural_repr (n : Nat) : Natural n.repr.toList n := by
  rcases Nat.eq_zero_or_pos n with rfl | hpos
  · exact .octal .done
  · have hdigits : ∃ c d cs, Nat.toDigits 10 n = c :: cs ∧ IsDigit c d ∧ 0 < d ∧ d < 10 ∧ Continues 10 d cs n := by
      induction n using Nat.strongRecOn with
      | ind n ih =>
        rcases Nat.lt_or_ge n 10 with hlt | hge
        · exact ⟨_, n, [], Nat.toDigits_of_lt_base hlt, isDigit_digitChar n (by omega), hpos, hlt, .done⟩
        · obtain ⟨c, d, cs, hcs, hc, hd, hlt, h⟩ := ih (n / 10) (by omega) (by omega)
          have hlast := h.concat (isDigit_digitChar (n % 10) (by omega)) (Nat.mod_lt n (by decide))
          rw [show n / 10 * 10 + n % 10 = n by omega] at hlast
          refine ⟨c, d, _, ?_, hc, hd, hlt, hlast⟩
          rw [Nat.toDigits_of_base_le (by decide) hge, hcs, cons_append]
    obtain ⟨c, d, cs, hcs, hc, hd, hlt, h⟩ := hdigits
    rw [Nat.toList_repr, hcs]
    exact .decimal hc hd hlt h

theorem signed_toString (v : Int) : Signed (toString v).toList v := by
  cases v with
  | ofNat n => exact .bare (natural_repr n)
  | negSucc n =>
    have hminus : toString (Int.negSucc n) = "-" ++ (n + 1).repr := rfl
    rw [hminus, String.toList_append]
    exact .minus (natural_repr (n + 1))

end Number

/-! ## Tokens and expressions of whole numbers -/

namespace Numeral

open Number

/-- The values of the names of limits. -/
def limitValues : List (String × Int) := [("INT32_MIN", -2147483648), ("INT32_MAX", 2147483647)]

/-- A token of a whole number denotes `v`: it is a number, or the name of a limit, and may have a sign. -/
inductive Denotes : String → Int → Prop
  | number {tok : String} {v : Int} (h : Signed tok.toList v) : Denotes tok v
  | limit {name : String} {v : Int} (h : (name, v) ∈ limitValues) : Denotes name v
  | plus {name : String} {v : Int} (h : (name, v) ∈ limitValues) : Denotes ("+" ++ name) v
  | minus {name : String} {v : Int} (h : (name, v) ∈ limitValues) : Denotes ("-" ++ name) (-v)

/-- The names of limits with their signs. -/
def limitTokens : List (String × Int) :=
  limitValues.flatMap fun p => [p, ("+" ++ p.1, p.2), ("-" ++ p.1, -p.2)]

theorem denotes_iff : Denotes tok v ↔ Signed tok.toList v ∨ (tok, v) ∈ limitTokens := by
  constructor
  · intro h
    cases h with
    | number h => exact .inl h
    | limit h => exact .inr (mem_flatMap.mpr ⟨_, h, by simp⟩)
    | plus h => exact .inr (mem_flatMap.mpr ⟨_, h, by simp⟩)
    | minus h => exact .inr (mem_flatMap.mpr ⟨_, h, by simp⟩)
  · rintro (h | h)
    · exact .number h
    · obtain ⟨p, hp, h⟩ := mem_flatMap.mp h
      simp only [mem_cons, Prod.mk.injEq, not_mem_nil, or_false] at h
      rcases h with rfl | ⟨rfl, rfl⟩ | ⟨rfl, rfl⟩
      · exact .limit hp
      · exact .plus hp
      · exact .minus hp

/-- The name of a limit is no number. -/
theorem not_signed_of_mem_limitTokens (h : (tok, v) ∈ limitTokens) : ¬ Signed tok.toList w := by
  have htable : ∀ p ∈ limitTokens, natural? (splitSign p.1.toList).2 = none := by decide
  rw [signed_iff]
  rintro ⟨n, hn, -⟩
  have hnone := htable _ h
  rw [natural?_eq_some_iff.mpr hn] at hnone
  cases hnone

theorem Denotes.unique (h : Denotes tok v) (h' : Denotes tok w) : v = w := by
  have htable : ∀ p ∈ limitTokens, ∀ q ∈ limitTokens, p.1 = q.1 → p.2 = q.2 := by decide
  rcases denotes_iff.mp h with h | h <;> rcases denotes_iff.mp h' with h' | h'
  · exact h.unique h'
  · exact absurd h (not_signed_of_mem_limitTokens h')
  · exact absurd h' (not_signed_of_mem_limitTokens h)
  · exact htable _ h _ h' rfl

theorem signs_of_length_le (h : (signs tok).length ≤ 1) : signs tok ∈ ["", "+", "-"] := by
  have hsigns : ∀ c ∈ tok.toList.takeWhile isSign, isSign c = true := fun _ => mem_takeWhile_imp
  unfold signs at h ⊢
  rw [String.length_ofList] at h
  rcases Nat.le_one_iff_eq_zero_or_eq_one.mp h with hnil | hone
  · rw [eq_nil_of_length_eq_zero hnil]
    decide
  · obtain ⟨c, hc⟩ := length_eq_one_iff.mp hone
    rw [hc] at hsigns ⊢
    obtain rfl | rfl : c = '+' ∨ c = '-' := by simpa [isSign] using hsigns c (mem_singleton_self c)
    · decide
    · decide

/-- A token that is accepted is a number of 32 bits, or the name of a limit with at most one sign. -/
theorem int?_cases (h : int? tok = some normal) :
    (∃ v, signed? 32 tok.toList = some v) ∨ ∃ v, (tok, v) ∈ limitTokens := by
  unfold int? at h
  split at h
  · next hlimit =>
    obtain ⟨hname, hle⟩ := hlimit
    have htable : ∀ name ∈ intLimits, ∀ sign ∈ ["", "+", "-"], ∃ p ∈ limitTokens, p.1 = sign ++ name := by decide
    obtain ⟨⟨_, v⟩, hp, rfl⟩ := htable _ (contains_iff_mem.mp hname) _ (signs_of_length_le hle)
    exact .inr ⟨v, signs_append_unsignedPart tok ▸ hp⟩
  · obtain ⟨v, hv, -⟩ := Option.map_eq_some_iff.mp h
    exact .inl ⟨v, hv⟩

end Numeral

namespace Source.Expr

open Number

/-- The limits that are constants of the package of mathematical functions. -/
def limitConstants : List (String × Int) := [("MinInt32", -2147483648), ("MaxInt32", 2147483647)]

/-- An expression for a whole number has the value `v`. -/
inductive Evaluates : Expr → Int → Prop
  | literal {s : String} {v : Int} (h : Signed s.toList v) : Evaluates (.literal s) v
  | limit {name : String} {v : Int} (h : (name, v) ∈ limitConstants) : Evaluates (math name) v
  | negate {e : Expr} {v : Int} (h : Evaluates e v) : Evaluates (.unary "-" e) (-v)

theorem Evaluates.unique {e : Expr} (h : e.Evaluates v) (h' : e.Evaluates w) : v = w := by
  induction h generalizing w with
  | literal h =>
    cases h' with
    | literal h' => exact h.unique h'
  | limit h =>
    have htable : ∀ p ∈ limitConstants, ∀ q ∈ limitConstants, p.1 = q.1 → p.2 = q.2 := by decide
    cases h' with
    | limit h' => exact htable _ h _ h' rfl
  | negate _ ih =>
    cases h' with
    | negate h' => rw [ih h']

theorem evaluates_int (v : Int) : (Expr.int v).Evaluates v := .literal (signed_toString v)

end Source.Expr

namespace Literal

open Number Numeral Source

theorem evaluates_ofInt_number (h : signed? 32 tok.toList = some v) : (ofInt tok).expr.Evaluates v := by
  -- the part after the sign starts with a digit, so it is not the name of a limit
  obtain ⟨n, hn, -⟩ := signed_iff.mp (signed?_eq_some_iff.mp h).1
  have hname : ∀ name ∈ intLimits, (splitSign tok).2 ≠ name := by
    have htable : ∀ name ∈ intLimits, natural? name.toList = none := by decide
    rintro name hmem rfl
    have hnone := htable _ hmem
    rw [splitSign, String.toList_ofList, natural?_eq_some_iff.mpr hn] at hnone
    cases hnone
  simp only [ofInt]
  rw [if_neg (hname _ (by decide)), if_neg (hname _ (by decide)), h]
  exact Expr.evaluates_int v

/-- The value that is written for the name of a limit with a sign: the negation of the least number does not fit. -/
theorem evaluates_ofInt_limit (h : (tok, v) ∈ limitTokens) :
    (ofInt tok).expr.Evaluates (if tok = "-INT32_MIN" then 2147483647 else v) := by
  have hmin : (math "MinInt32").Evaluates (-2147483648) := .limit (by decide)
  have hmax : (math "MaxInt32").Evaluates 2147483647 := .limit (by decide)
  simp only [limitTokens, limitValues, flatMap_cons, flatMap_nil, append_nil, cons_append,
    nil_append, mem_cons, Prod.mk.injEq, not_mem_nil, or_false] at h
  rcases h with ⟨rfl, rfl⟩ | ⟨rfl, rfl⟩ | ⟨rfl, rfl⟩ | ⟨rfl, rfl⟩ | ⟨rfl, rfl⟩ | ⟨rfl, rfl⟩
  · exact hmin
  · exact hmin
  · exact hmax
  · exact hmax
  · exact hmax
  · exact .negate hmax

/-- A token that is accepted as a whole number denotes one value, and so does what is written for it. -/
theorem evaluates_ofInt (h : int? tok = some normal) :
    ∃ v w : Int, Denotes tok v ∧ (ofInt normal).expr.Evaluates w ∧
      w = (if tok = "-INT32_MIN" then 2 ^ 31 - 1 else v) ∧ -2 ^ 31 ≤ w ∧ w < 2 ^ 31 := by
  obtain rfl := int?_eq_some h
  rcases int?_cases h with ⟨v, hv⟩ | ⟨v, hv⟩
  · obtain ⟨hsigned, hbounds⟩ := signed?_eq_some_iff.mp hv
    have hne : normal ≠ "-INT32_MIN" := by
      rintro rfl
      exact not_signed_of_mem_limitTokens (v := 2147483648) (by decide) hsigned
    exact ⟨v, v, .number hsigned, evaluates_ofInt_number hv, (if_neg hne).symm, hbounds⟩
  · have htable : ∀ p ∈ limitTokens, -2 ^ 31 ≤ (if p.1 = "-INT32_MIN" then 2147483647 else p.2) ∧
        (if p.1 = "-INT32_MIN" then 2147483647 else p.2) < 2 ^ 31 := by decide
    exact ⟨v, _, denotes_iff.mpr (.inr hv), evaluates_ofInt_limit hv, rfl, htable _ hv⟩

/-- A token that is accepted as a natural number is written as a number of its value. -/
theorem ofUnsigned_expr (h : Numeral.unsigned? tok = some normal) :
    ∃ n : Nat, Natural tok.toList n ∧ (ofUnsigned normal).expr = .int n ∧ n < 2 ^ 32 := by
  obtain rfl := Numeral.unsigned?_eq_some h
  obtain ⟨n, hn, -⟩ := Option.map_eq_some_iff.mp h
  obtain ⟨hnatural, hlt⟩ := unsigned?_eq_some_iff.mp hn
  refine ⟨n, hnatural, ?_, hlt⟩
  rw [ofUnsigned, hn]
  rfl

/-- A text that is accepted as a byte is written as a number of its value. -/
theorem ofScalar_byte_expr {t : String} (h : isScalar DataType.byte t = true) :
    ∃ n : Nat, Natural t.toList n ∧ (ofScalar DataType.byte t).expr = .int n ∧ n < 2 ^ 8 := by
  obtain ⟨n, hn⟩ := Option.isSome_iff_exists.mp (show (Number.unsigned? 8 t.toList).isSome = true from h)
  obtain ⟨hnatural, hlt⟩ := unsigned?_eq_some_iff.mp hn
  refine ⟨n, hnatural, ?_, hlt⟩
  have hread : ofScalar DataType.byte t = .int n := by
    rw [ofScalar, if_neg (by decide), if_neg (by decide), if_pos rfl, hn]
  rw [hread]
  rfl

/-- Whole numbers are written with their values. A token of a whole number denotes one value; what is written for it has
that value, which fits into 32 bits with a sign. Only the negation of the least number is written as the greatest one.
Tokens of colours and bytes are written as natural numbers of their values, which fit into 32 and 8 bits. -/
theorem integers_keep_values :
    (∀ dataType ∈ ["int", "irange"], ∀ tok normal : String, token? dataType tok = some normal →
      ∃ v w : Int, (∀ x, Denotes tok x ↔ x = v) ∧ (∀ x, (ofInt normal).expr.Evaluates x ↔ x = w) ∧
        w = (if tok = "-INT32_MIN" then 2 ^ 31 - 1 else v) ∧ -2 ^ 31 ≤ w ∧ w ≤ 2 ^ 31 - 1) ∧
    (∀ tok normal : String, token? "rgb" tok = some normal →
      ∃ n : Nat, (∀ x, Natural tok.toList x ↔ x = n) ∧ (ofUnsigned normal).expr = .int n ∧
        (∀ x, (ofUnsigned normal).expr.Evaluates x ↔ x = n) ∧ n ≤ 2 ^ 32 - 1) ∧
    (∀ t : String, isScalar "byte" t = true →
      ∃ n : Nat, (∀ x, Natural t.toList x ↔ x = n) ∧ (ofScalar "byte" t).expr = .int n ∧
        (∀ x, (ofScalar "byte" t).expr.Evaluates x ↔ x = n) ∧ n ≤ 255) := by
  have heval : ∀ {e : Expr} {v : Int}, e.Evaluates v → ∀ x, e.Evaluates x ↔ x = v :=
    fun h _ => ⟨fun hx => hx.unique h, fun hx => hx ▸ h⟩
  have hnat : ∀ {cs : List Char} {n : Nat}, Natural cs n → ∀ x, Natural cs x ↔ x = n :=
    fun h _ => ⟨fun hx => hx.unique h, fun hx => hx ▸ h⟩
  refine ⟨fun dataType htype tok normal h => ?_, fun tok normal h => ?_, fun t h => ?_⟩
  · have hint : token? dataType tok = int? tok := by
      simp only [mem_cons, not_mem_nil, or_false] at htype
      rcases htype with rfl | rfl <;> rfl
    obtain ⟨v, w, hv, hw, heq, hle, hlt⟩ := evaluates_ofInt (hint ▸ h)
    exact ⟨v, w, fun _ => ⟨fun hx => hx.unique hv, fun hx => hx ▸ hv⟩, heval hw, heq, hle, Int.le_sub_one_of_lt hlt⟩
  · obtain ⟨n, hn, hexpr, hlt⟩ := ofUnsigned_expr h
    exact ⟨n, hnat hn, hexpr, hexpr ▸ heval (Expr.evaluates_int n), Nat.le_sub_one_of_lt hlt⟩
  · obtain ⟨n, hn, hexpr, hlt⟩ := ofScalar_byte_expr h
    exact ⟨n, hnat hn, hexpr, hexpr ▸ heval (Expr.evaluates_int n), Nat.le_of_lt_succ hlt⟩

/-- Numbers at the edges: the least one in hexadecimal, the negation of its name, and a byte of ones in binary. -/
theorem integers_keep_values_edges :
    (ofInt "-0x8000_0000").expr.Evaluates (-2147483648) ∧
      Denotes "-INT32_MIN" 2147483648 ∧ (ofInt "-INT32_MIN").expr.Evaluates 2147483647 ∧
      (ofUnsigned "0xFFFF_FFFF").expr = .int 4294967295 ∧ (ofScalar "byte" "0b1111_1111").expr = .int 255 := by
  have hleast : Signed "-0x8000_0000".toList (-2147483648) :=
    .minus (natural?_eq_some_iff.mp (by decide))
  have hgreatest : Natural "0xFFFF_FFFF".toList 4294967295 := natural?_eq_some_iff.mp (by decide)
  have hones : Natural "0b1111_1111".toList 255 := natural?_eq_some_iff.mp (by decide)
  obtain ⟨hint, hrgb, hbyte⟩ := integers_keep_values
  obtain ⟨_, _, hv, hw, rfl, -⟩ := hint "int" (by decide) "-0x8000_0000" "-0x8000_0000" (by decide)
  obtain ⟨_, _, hv', hw', rfl, -⟩ := hint "irange" (by decide) "-INT32_MIN" "-INT32_MIN" (by decide)
  obtain ⟨n, hn, hexpr, -⟩ := hrgb "0xFFFF_FFFF" "0xFFFF_FFFF" (by decide)
  obtain ⟨m, hm, hexpr', -⟩ := hbyte "0b1111_1111" (by decide)
  have hmin : Denotes "-INT32_MIN" 2147483648 := denotes_iff.mpr (.inr (by decide))
  obtain rfl := (hn _).mp hgreatest
  obtain rfl := (hm _).mp hones
  exact ⟨(hw _).mpr ((hv _).mp (.number hleast)), hmin, (hw' _).mpr rfl, hexpr, hexpr'⟩

end Literal

end FlowCompiler
