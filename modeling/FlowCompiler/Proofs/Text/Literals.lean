import FlowCompiler.Proofs.Options.Quoting
import FlowCompiler.Proofs.Text.Bytes

/-!
# Literals

The bytes of a text form its characters part by part: where a character starts, the bytes before it have no
influence on those after it (`ofBytes_append`). So a part of a text of bytes, cut at a character, is a text of
bytes again (`IsText.cut`).

Main statement: `unquote?_quote`. A text that is written as a literal is read as the text of its bytes. In
particular the text of any bytes is read as it was (`IsText.unquote?_quote`), also where bytes form no character.
-/

namespace FlowCompiler.Text

open List

variable {bs : List Nat} {cs : List Char} {c : Char} {r : Rune} {fuel n : Nat}

/-! ## Bytes that are cut before a character -/

theorem le_length_of_leadingChar? (h : leadingChar? bs = some (c, n)) : n ≤ bs.length := by
  obtain ⟨-, hbytes⟩ := leads_leadingChar? bs c n h
  have hlead := leadingChar?_encodePoint c (bs.drop n)
  rw [hbytes, take_append_drop, h, length_take] at hlead
  simpa using hlead

theorem runesOfBytes_of_le (fuel fuel' : Nat) (h : bs.length ≤ fuel) (h' : bs.length ≤ fuel') :
    runesOfBytes fuel bs = runesOfBytes fuel' bs := by
  induction fuel generalizing fuel' bs with
  | zero =>
    obtain rfl : bs = [] := eq_nil_of_length_eq_zero (by omega)
    cases fuel' <;> rfl
  | succ fuel ih =>
    cases bs with
    | nil => cases fuel' <;> rfl
    | cons b bs =>
      rw [length_cons] at h h'
      obtain ⟨fuel', rfl⟩ := Nat.exists_eq_succ_of_ne_zero (show fuel' ≠ 0 by omega)
      rw [runesOfBytes, runesOfBytes]
      cases hlead : leadingChar? (b :: bs) with
      | some r =>
        have hn := (leads_leadingChar? (b :: bs) r.1 r.2 hlead).1
        have hlength : ((b :: bs).drop r.2).length ≤ bs.length := by
          rw [length_drop, length_cons]
          omega
        exact congrArg (Rune.char r.1 :: ·) (ih fuel' (by omega) (by omega))
      | none => exact congrArg (Rune.byte b :: ·) (ih fuel' (by omega) (by omega))

/-- A character does not reach over a byte that starts one. -/
theorem leadingChar?_append (a : Nat) (as : List Nat) (h : ∀ b ∈ bs.head?, isTail b = false) :
    leadingChar? (a :: as ++ bs) = leadingChar? (a :: as) := by
  cases bs with
  | nil => rw [append_nil]
  | cons b bs =>
    have hb : isTail b = false := h b rfl
    rcases as with _ | ⟨a₁, _ | ⟨a₂, _ | ⟨a₃, as⟩⟩⟩
    · rcases bs with _ | ⟨b₁, _ | ⟨b₂, bs⟩⟩ <;> simp [leadingChar?, leadingChar?.two, leadingChar?.three, hb]
    · rcases bs with _ | ⟨b₁, bs⟩ <;> simp [leadingChar?, leadingChar?.three, hb]
    · simp [leadingChar?, hb]
    · rfl

theorem runesOfBytes_append {as : List Nat} (h : ∀ b ∈ bs.head?, isTail b = false)
    (hfuel : (as ++ bs).length ≤ fuel) :
    runesOfBytes fuel (as ++ bs) = runesOfBytes fuel as ++ runesOfBytes fuel bs := by
  induction fuel generalizing as with
  | zero =>
    obtain ⟨rfl, rfl⟩ := append_eq_nil_iff.mp (eq_nil_of_length_eq_zero (Nat.le_zero.mp hfuel))
    rfl
  | succ fuel ih =>
    cases as with
    | nil => rfl
    | cons a as =>
      rw [cons_append, length_cons, length_append] at hfuel
      rw [runesOfBytes_of_le (fuel + 1) fuel (show bs.length ≤ fuel + 1 by omega) (by omega)]
      have hlead := leadingChar?_append a as h
      rw [cons_append] at hlead ⊢
      rw [runesOfBytes, runesOfBytes, hlead]
      cases hfirst : leadingChar? (a :: as) with
      | some r =>
        have hn := (leads_leadingChar? (a :: as) r.1 r.2 hfirst).1
        have hle := le_length_of_leadingChar? hfirst
        dsimp only
        rw [← cons_append, drop_append_of_le_length hle, cons_append, ih]
        rw [length_append, length_drop, length_cons]
        omega
      | none =>
        dsimp only
        rw [ih (by rw [length_append]; omega), cons_append]

theorem ofBytes_append (as : List Nat) (h : ∀ b ∈ bs.head?, isTail b = false) :
    ofBytes (as ++ bs) = ofBytes as ++ ofBytes bs := by
  rw [ofBytes, runesOfBytes_append h le_rfl, flatMap_append, ofBytes, ofBytes,
    runesOfBytes_of_le _ as.length (by simp) le_rfl, runesOfBytes_of_le _ bs.length (by simp) le_rfl]

theorem head?_encodePoint (n : Nat) (bs : List Nat) :
    ∀ b ∈ (encodePoint n ++ bs).head?, isTail b = false := by
  intro b hb
  have hcases : b < 0x80 ∨ 0xC0 ≤ b := by
    unfold encodePoint at hb
    split_ifs at hb <;> simp only [cons_append, head?_cons, Option.mem_def, Option.some.injEq] at hb <;>
      omega
  simp only [isTail, Bool.and_eq_false_iff, decide_eq_false_iff_not]
  omega

theorem ofBytes_encodePoint (c : Char) (bs : List Nat) :
    ofBytes (encodePoint c.toNat ++ bs) = Rune.kept (.char c) ++ ofBytes bs := by
  have hlead := leadingChar?_encodePoint c bs
  cases hbytes : encodePoint c.toNat with
  | nil => exact absurd hbytes (encodePoint_ne_nil _)
  | cons a as =>
    rw [hbytes, cons_append] at hlead
    rw [cons_append, ofBytes, length_cons, runesOfBytes, hlead]
    simp only [length_cons, drop_succ_cons, drop_left, flatMap_cons]
    rw [runesOfBytes_of_le _ bs.length (by simp) le_rfl, ofBytes]

/-- A character in the middle of a text parts the bytes on its sides. -/
theorem ofBytes_char (as : List Nat) (c : Char) (bs : List Nat) :
    ofBytes (as ++ (encodePoint c.toNat ++ bs)) = ofBytes as ++ (Rune.kept (.char c) ++ ofBytes bs) := by
  rw [ofBytes_append as (head?_encodePoint _ _), ofBytes_encodePoint]

/-! ## Texts of bytes -/

theorem charBytes_ne_nil (c : Char) : charBytes c ≠ [] := by
  unfold charBytes
  split
  · exact cons_ne_nil _ _
  · exact encodePoint_ne_nil _

theorem lt_of_mem_bytesOf {b : Nat} (h : b ∈ bytesOf cs) : b < 256 := by
  obtain ⟨c, -, hb⟩ := mem_flatMap.mp h
  unfold charBytes at hb
  split at hb
  · have hc := toNat_lt c
    rw [mem_singleton] at hb
    unfold strayBase at hb
    omega
  · exact lt_of_mem_encodePoint hb

/-- The text of some bytes: it has no bytes side by side that form a character. -/
def IsText (cs : List Char) : Prop := ofBytes (bytesOf cs) = cs

instance (cs : List Char) : Decidable (IsText cs) := inferInstanceAs (Decidable (_ = _))

theorem isText_ofBytes (h : ∀ b ∈ bs, b < 256) : IsText (ofBytes bs) := by
  rw [IsText, bytesOf_ofBytes h]

-- The two bytes of a character, each kept alone, are no text.
example : IsText ['é'] ∧ ¬ IsText [stray 0xC3, stray 0xA9] := by decide

/-- Parts of one text that have as many bytes are the same. -/
theorem eq_of_append_eq {cs' ds ds' : List Char} (h : cs ++ ds = cs' ++ ds')
    (hbytes : bytesOf cs = bytesOf cs') : cs = cs' := by
  have hnil : ∀ es : List Char, bytesOf es = [] → es = [] := by
    intro es hes
    cases es with
    | nil => rfl
    | cons e es => exact absurd (append_eq_nil_iff.mp hes).1 (charBytes_ne_nil e)
  obtain ⟨es, rfl, -⟩ | ⟨es, rfl, -⟩ := append_eq_append_iff.mp h
  · rw [bytesOf_append, self_eq_append_right] at hbytes
    rw [hnil es hbytes, append_nil]
  · rw [bytesOf_append, append_right_eq_self] at hbytes
    rw [hnil es hbytes, append_nil]

/-- A text of bytes can be cut at a character. -/
theorem IsText.cut {ds : List Char} {x : Char} (hx : isStray x = false) (h : IsText (cs ++ x :: ds)) :
    IsText cs ∧ IsText ds := by
  have hbytes : bytesOf (cs ++ x :: ds) = bytesOf cs ++ (encodePoint x.toNat ++ bytesOf ds) := by
    simp [bytesOf, charBytes, hx]
  rw [IsText, hbytes, ofBytes_char, kept_of_not_isStray hx, singleton_append] at h
  have hcs : ofBytes (bytesOf cs) = cs := eq_of_append_eq h (bytesOf_ofBytes fun b => lt_of_mem_bytesOf)
  refine ⟨hcs, ?_⟩
  rw [hcs] at h
  exact (List.cons.inj (append_cancel_left h)).2

/-! ## Runes -/

/-- The bytes of a rune. -/
def Rune.bytes : Rune → List Nat
  | char c => encodePoint c.toNat
  | byte b => [b]

theorem flatMap_bytes_runesOfBytes (h : bs.length ≤ fuel) :
    (runesOfBytes fuel bs).flatMap Rune.bytes = bs := by
  induction fuel generalizing bs with
  | zero =>
    obtain rfl : bs = [] := eq_nil_of_length_eq_zero (by omega)
    rfl
  | succ fuel ih =>
    cases bs with
    | nil => rfl
    | cons b bs =>
      rw [length_cons] at h
      rw [runesOfBytes]
      cases hlead : leadingChar? (b :: bs) with
      | some r =>
        obtain ⟨hn, hbytes⟩ := leads_leadingChar? (b :: bs) r.1 r.2 hlead
        dsimp only
        rw [flatMap_cons, ih (by rw [length_drop, length_cons]; omega), Rune.bytes, hbytes,
          take_append_drop]
      | none =>
        dsimp only
        rw [flatMap_cons, ih (by omega)]
        rfl

/-- The runes of a text have the bytes of the text. -/
theorem flatMap_bytes_runesOf (cs : List Char) : (runesOf cs).flatMap Rune.bytes = bytesOf cs := by
  unfold runesOf
  split
  · exact flatMap_bytes_runesOfBytes le_rfl
  · next h =>
    rw [flatMap_map, bytesOf]
    refine flatMap_congr fun c hc => ?_
    have hstray : ¬ isStray c = true := fun hc' => h (any_eq_true.mpr ⟨c, hc, hc'⟩)
    rw [charBytes, if_neg hstray, Rune.bytes]

/-- Runes are put together to the text of their bytes. -/
theorem assemble_eq_ofBytes (bytes : List Nat) (rs : List Rune) :
    assemble bytes rs = ofBytes (bytes.reverse ++ rs.flatMap Rune.bytes) := by
  induction rs generalizing bytes with
  | nil => rw [assemble, flatMap_nil, append_nil]
  | cons r rs ih =>
    cases r with
    | byte b => rw [assemble, ih, reverse_cons, append_assoc, flatMap_cons, Rune.bytes]
    | char c =>
      rw [assemble, ih, flatMap_cons, Rune.bytes, ofBytes_char, append_assoc]
      rfl

/-! ## Escapes -/

theorem exists_digitChar_of_mem_toDigits (h : c ∈ Nat.toDigits 16 n) : ∃ d < 16, c = Nat.digitChar d := by
  induction n using Nat.strongRecOn with
  | ind n ih =>
    rcases Nat.lt_or_ge n 16 with hlt | hge
    · rw [Nat.toDigits_of_lt_base hlt, mem_singleton] at h
      exact ⟨n, hlt, h⟩
    · rw [Nat.toDigits_of_base_le (by decide) hge, mem_append, mem_singleton] at h
      obtain h | h := h
      · exact ih _ (by omega) h
      · exact ⟨_, Nat.mod_lt _ (by decide), h⟩

theorem hexValue?_digitChar : ∀ d < 16, hexValue? (Nat.digitChar d) = some d := by decide

theorem takeHex_add (m n value : Nat) (cs : List Char) :
    takeHex (m + n) value cs = (takeHex m value cs).bind fun r => takeHex n r.1 r.2 := by
  induction m generalizing value cs with
  | zero => rw [Nat.zero_add, takeHex]; rfl
  | succ m ih =>
    rw [Nat.add_right_comm]
    cases cs with
    | nil => rfl
    | cons c cs =>
      rw [takeHex, takeHex]
      cases hexValue? c with
      | none => rfl
      | some d => exact ih _ _

theorem takeHex_digit {d : Nat} (h : d < 16) (value : Nat) (r : List Char) :
    takeHex 1 value (Nat.digitChar d :: r) = some (value * 16 + d, r) := by
  rw [takeHex, hexValue?_digitChar d h]
  rfl

theorem takeHex_toDigits (n : Nat) (r : List Char) :
    takeHex (Nat.toDigits 16 n).length 0 (Nat.toDigits 16 n ++ r) = some (n, r) := by
  induction n using Nat.strongRecOn generalizing r with
  | ind n ih =>
    rcases Nat.lt_or_ge n 16 with hlt | hge
    · rw [Nat.toDigits_of_lt_base hlt]
      simpa using takeHex_digit hlt 0 r
    · rw [Nat.toDigits_of_base_le (by decide) hge, length_append, takeHex_add, append_assoc,
        ih (n / 16) (by omega)]
      have hvalue : n / 16 * 16 + n % 16 = n := by omega
      rw [Option.bind_some, length_singleton, singleton_append,
        takeHex_digit (Nat.mod_lt n (by decide)), hvalue]

theorem takeHex_zeros (k : Nat) (r : List Char) : takeHex k 0 (List.replicate k '0' ++ r) = some (0, r) := by
  induction k with
  | zero => rfl
  | succ k ih => exact ih

/-- Digits are read as the number that they were written for. -/
theorem takeHex_hexDigits {width : Nat} (hwidth : 0 < width) (h : n < 16 ^ width) (r : List Char) :
    takeHex width 0 (hexDigits width n ++ r) = some (n, r) := by
  have hlength : (Nat.toDigits 16 n).length ≤ width := (Nat.length_toDigits_le_iff (by decide) hwidth).mpr h
  rw [hexDigits, append_assoc]
  conv_lhs => rw [← Nat.sub_add_cancel hlength]
  rw [Nat.add_sub_cancel, takeHex_add, takeHex_zeros]
  exact takeHex_toDigits n r

/-! ## Quoted texts -/

theorem isStray_of_isPrintable (h : isPrintable c = true) : isStray c = false := by
  have hranges : ∀ r ∈ printableRanges, r.last < strayBase := by decide +kernel
  refine decide_eq_false (Nat.not_le.mpr ?_)
  unfold isPrintable at h
  split at h
  · unfold strayBase
    omega
  · obtain ⟨r, hr, hholds⟩ := any_eq_true.mp h
    simp only [CodeRange.holds, Bool.and_eq_true, decide_eq_true_eq] at hholds
    exact Nat.lt_of_le_of_lt hholds.1.2 (hranges r hr)

theorem isStray_of_mem_hexDigits {width : Nat} (h : c ∈ hexDigits width n) : isStray c = false := by
  have hdigits : ∀ d < 16, isStray (Nat.digitChar d) = false := by decide
  rw [hexDigits, mem_append] at h
  obtain h | h := h
  · rw [eq_of_mem_replicate h]
    decide
  · obtain ⟨d, hd, rfl⟩ := exists_digitChar_of_mem_toDigits h
    exact hdigits d hd

/-- What a character is written as: itself, a letter after a backslash, or digits after a letter. -/
theorem quoteChar_cases (c : Char) :
    (quoteChar c = ['\\', c] ∧ (c = '"' ∨ c = '\\')) ∨
      (quoteChar c = [c] ∧ isPrintable c = true ∧ c ≠ '"' ∧ c ≠ '\\') ∨
      (∃ letter, quoteChar c = ['\\', letter] ∧ escapeLetter? c = some letter) ∨
      (quoteChar c = '\\' :: 'x' :: hexDigits 2 c.toNat ∧ c.toNat < 128) ∨
      (quoteChar c = '\\' :: 'u' :: hexDigits 4 c.toNat ∧ c.toNat < 0x10000) ∨
      quoteChar c = '\\' :: 'U' :: hexDigits 8 c.toNat := by
  unfold quoteChar
  split
  · next h => exact .inl ⟨rfl, h⟩
  · next h =>
    rw [not_or] at h
    split
    · next hprint => exact .inr (.inl ⟨rfl, hprint, h⟩)
    · split
      · next letter hletter => exact .inr (.inr (.inl ⟨letter, rfl, hletter⟩))
      · split
        · next hx => exact .inr (.inr (.inr (.inl ⟨rfl, hx⟩)))
        · split
          · next hu => exact .inr (.inr (.inr (.inr (.inl ⟨rfl, hu⟩))))
          · exact .inr (.inr (.inr (.inr (.inr rfl))))

theorem escapeLetter?_eq_some {letter : Char} (h : escapeLetter? c = some letter) :
    isStray letter = false ∧ ∀ r, takeEscape (letter :: r) = some (.char c, r) := by
  have hc := Char.ofNat_toNat c
  unfold escapeLetter? at h
  split at h
  all_goals first
    | (cases h; next hn => rw [hn] at hc; subst hc; exact ⟨by decide, fun r => rfl⟩)
    | cases h

theorem isStray_of_mem_quoteRune {x : Char} (h : x ∈ quoteRune r) : isStray x = false := by
  have hletter : ∀ letter, isStray letter = false → ∀ x ∈ ['\\', letter], isStray x = false := fun letter h =>
    forall_mem_cons.mpr ⟨by decide, forall_mem_singleton.mpr h⟩
  have hhex : ∀ (letter : Char) (width n : Nat), isStray letter = false →
      ∀ x ∈ '\\' :: letter :: hexDigits width n, isStray x = false := fun letter width n h =>
    forall_mem_cons.mpr ⟨by decide, forall_mem_cons.mpr ⟨h, fun x hx => isStray_of_mem_hexDigits hx⟩⟩
  cases r with
  | byte b => exact hhex 'x' 2 b (by decide) x h
  | char c =>
    rw [quoteRune] at h
    obtain ⟨heq, rfl | rfl⟩ | ⟨heq, hprint, -⟩ | ⟨letter, heq, hescape⟩ | ⟨heq, -⟩ | ⟨heq, -⟩ | heq :=
      quoteChar_cases c
    all_goals rw [heq] at h
    · exact hletter '"' (by decide) x h
    · exact hletter '\\' (by decide) x h
    · rw [mem_singleton.mp h]
      exact isStray_of_isPrintable hprint
    · exact hletter letter (escapeLetter?_eq_some hescape).1 x h
    · exact hhex 'x' 2 _ (by decide) x h
    · exact hhex 'u' 4 _ (by decide) x h
    · exact hhex 'U' 8 _ (by decide) x h

theorem unquoteRest_of_takeEscape {rest : List Char} (h : takeEscape (cs ++ rest) = some (r, rest)) :
    unquoteRest ('\\' :: cs ++ rest) = (unquoteRest rest).map (r :: ·) := by
  rw [cons_append, Piece.unquoteRest_backslash, h]
  rfl

/-- What a rune is written as is read as a rune with the same bytes. -/
theorem unquoteRest_quoteRune (hr : ∀ b ∈ r.bytes, b < 256) (rest : List Char) :
    ∃ r', r'.bytes = r.bytes ∧ unquoteRest (quoteRune r ++ rest) = (unquoteRest rest).map (r' :: ·) := by
  have hbyte : ∀ n < 256, takeEscape ('x' :: hexDigits 2 n ++ rest) = some (.byte n, rest) := by
    intro n hn
    rw [cons_append, takeEscape, takeHex_hexDigits (by decide) hn]
    rfl
  cases r with
  | byte b => exact ⟨_, rfl, unquoteRest_of_takeEscape (hbyte b (hr b (mem_singleton_self b)))⟩
  | char c =>
    have hscalar := scalar?_toNat c
    rw [quoteRune]
    obtain ⟨heq, rfl | rfl⟩ | ⟨heq, hprint, hc⟩ | ⟨letter, heq, hletter⟩ | ⟨heq, hx⟩ | ⟨heq, hu⟩ | heq :=
      quoteChar_cases c
    all_goals rw [heq]
    · exact ⟨_, rfl, unquoteRest_of_takeEscape rfl⟩
    · exact ⟨_, rfl, unquoteRest_of_takeEscape rfl⟩
    · refine ⟨_, rfl, Piece.unquoteRest_plain ⟨?_, hc⟩ rest⟩
      rintro rfl
      exact absurd hprint (by decide)
    · exact ⟨_, rfl, unquoteRest_of_takeEscape ((escapeLetter?_eq_some hletter).2 rest)⟩
    · refine ⟨.byte c.toNat, ?_, unquoteRest_of_takeEscape (hbyte _ (by omega))⟩
      rw [Rune.bytes, Rune.bytes, encodePoint, if_pos hx]
    · refine ⟨_, rfl, unquoteRest_of_takeEscape ?_⟩
      rw [cons_append, takeEscape, takeHex_hexDigits (by decide) hu, Option.bind_some]
      dsimp only
      rw [hscalar]
      rfl
    · refine ⟨_, rfl, unquoteRest_of_takeEscape ?_⟩
      have hlarge : c.toNat < 16 ^ 8 := Nat.lt_trans (toNat_lt c) (by decide)
      rw [cons_append, takeEscape, takeHex_hexDigits (by decide) hlarge, Option.bind_some]
      dsimp only
      rw [hscalar]
      rfl

theorem unquoteRest_flatMap_quoteRune (rs : List Rune) (h : ∀ b ∈ rs.flatMap Rune.bytes, b < 256) :
    ∃ rs', rs'.flatMap Rune.bytes = rs.flatMap Rune.bytes ∧
      unquoteRest (rs.flatMap quoteRune ++ ['"']) = some rs' := by
  induction rs with
  | nil => exact ⟨[], rfl, by simp [unquoteRest]⟩
  | cons r rs ih =>
    rw [flatMap_cons, forall_mem_append] at h
    obtain ⟨rs', hbytes', hread'⟩ := ih h.2
    obtain ⟨r', hbytes, hread⟩ := unquoteRest_quoteRune h.1 (rs.flatMap quoteRune ++ ['"'])
    refine ⟨r' :: rs', by rw [flatMap_cons, flatMap_cons, hbytes, hbytes'], ?_⟩
    rw [flatMap_cons, append_assoc, hread, hread']
    rfl

theorem shownChars_of_not_isStray (h : cs.any isStray = false) : shownChars cs = cs := by
  conv_lhs => rw [← keep_of_not_isStray h]
  exact shownChars_keep cs

/-- A text that is written between quotes is read as the text of its bytes. -/
theorem unquote?_quote (s : String) : unquote? (quote s).toList = some (ofBytes (bytesOf s.toList)) := by
  have hstray : (quote s).toList.any isStray = false := by
    rw [quote, String.toList_ofList, any_eq_false]
    simp only [Bool.not_eq_true, cons_append, forall_mem_cons, forall_mem_append, mem_flatMap]
    refine ⟨by decide, ?_, by decide, forall_mem_nil _⟩
    rintro x ⟨r, -, hx⟩
    exact isStray_of_mem_quoteRune hx
  obtain ⟨rs, hbytes, hread⟩ := unquoteRest_flatMap_quoteRune (runesOf s.toList) (by
    rw [flatMap_bytes_runesOf]
    exact fun b => lt_of_mem_bytesOf)
  rw [unquote?, shownChars_of_not_isStray hstray, quote, String.toList_ofList]
  simp only [cons_append, if_true, hread, Option.map_some]
  rw [assemble_eq_ofBytes, hbytes, flatMap_bytes_runesOf, reverse_nil, nil_append]

theorem IsText.unquote?_quote {s : String} (h : IsText s.toList) : unquote? (quote s).toList = some s.toList :=
  (Text.unquote?_quote s).trans (congrArg some h)

end FlowCompiler.Text
