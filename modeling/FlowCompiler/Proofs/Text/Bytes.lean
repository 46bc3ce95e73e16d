import FlowCompiler.Graph.Position
import FlowCompiler.Proofs.Text.Octets

/-!
# Texts of bytes

Whatever bytes a file has, the text that they are kept as has the same bytes (`bytesOf_ofBytes`): none is lost
or changed, whether it belongs to a character or not. So a place in the text is an offset in the bytes, and the
line and the column that are counted along the characters are those of the offset (`advanceAll_eq_ofOffset`).
-/

namespace FlowCompiler

open List

namespace Text

/-! ## The bytes of the character that bytes start with -/

theorem scalar?_eq_some {n : Nat} {c : Char} (h : scalar? n = some c) : c.toNat = n := by
  unfold scalar? at h
  split at h
  · next hn =>
    cases h
    rw [Char.ofNat, dif_pos (by unfold Nat.isValidChar; omega)]
    rfl
  · cases h

/-- A character, where there is one, is encoded by the bytes `bs` start with. -/
def Leads (bs : List Nat) (r : Option (Char × Nat)) : Prop :=
  ∀ c n, r = some (c, n) → 0 < n ∧ encodePoint c.toNat = bs.take n

theorem Leads.none (bs : List Nat) : Leads bs none := fun _ _ h => nomatch h

theorem Leads.orElse {bs : List Nat} {x y : Option (Char × Nat)} (hx : Leads bs x) (hy : Leads bs y) :
    Leads bs (x <|> y) := by
  cases x with
  | none => exact hy
  | some r => exact hx

theorem Leads.scalar {bs : List Nat} {m n : Nat} (hn : 0 < n) (h : encodePoint m = bs.take n) :
    Leads bs ((scalar? m).map (·, n)) := by
  intro c n' hc
  obtain ⟨d, hd, hdc⟩ := Option.map_eq_some_iff.mp hc
  cases hdc
  exact ⟨hn, by rw [scalar?_eq_some hd, h]⟩

theorem leads_one (a : Nat) (bs : List Nat) : Leads (a :: bs) (leadingChar?.one a) := by
  unfold leadingChar?.one
  split
  · next ha =>
    have hscalar : scalar? a = some (Char.ofNat a) := if_pos (by omega)
    rw [show some (Char.ofNat a, 1) = (scalar? a).map (·, 1) by rw [hscalar]; rfl]
    exact .scalar Nat.one_pos (by rw [encodePoint, if_pos ha]; rfl)
  · exact .none _

theorem leads_two (a b : Nat) (bs : List Nat) : Leads (a :: b :: bs) (leadingChar?.two a b) := by
  unfold leadingChar?.two
  split
  · next hab =>
    simp only [isTail, Bool.and_eq_true, decide_eq_true_eq] at hab
    refine .scalar Nat.two_pos ?_
    rw [encodePoint, if_neg (by omega), if_pos (by omega)]
    simp only [take_succ_cons, take_zero, List.cons.injEq, and_true]
    omega
  · exact .none _

theorem leads_three (a b c : Nat) (bs : List Nat) :
    Leads (a :: b :: c :: bs) (leadingChar?.three a b c) := by
  unfold leadingChar?.three
  split
  · next habc =>
    simp only [isTail, Bool.and_eq_true, decide_eq_true_eq] at habc
    dsimp only
    split
    · refine .scalar (by decide) ?_
      rw [encodePoint, if_neg (by omega), if_neg (by omega), if_pos (by omega)]
      simp only [take_succ_cons, take_zero, List.cons.injEq, and_true]
      omega
    · exact .none _
  · exact .none _

/-- The character that bytes start with is encoded by the bytes that it was read from. -/
theorem leads_leadingChar? (bs : List Nat) : Leads bs (leadingChar? bs) := by
  unfold leadingChar?
  split
  · next a b c d bs =>
    refine (leads_one _ _).orElse ((leads_two _ _ _).orElse ((leads_three _ _ _ _).orElse ?_))
    split
    · next hlead =>
      simp only [isTail, Bool.and_eq_true, decide_eq_true_eq] at hlead
      dsimp only
      split
      · refine .scalar (by decide) ?_
        rw [encodePoint, if_neg (by omega), if_neg (by omega), if_neg (by omega)]
        simp only [take_succ_cons, take_zero, List.cons.injEq, and_true]
        omega
      · exact .none _
    · exact .none _
  · exact (leads_one _ _).orElse ((leads_two _ _ _).orElse (leads_three _ _ _ _))
  · exact (leads_one _ _).orElse (leads_two _ _ _)
  · exact leads_one _ _
  · exact .none _

/-! ## The bytes of a text -/

theorem bytesOf_append (cs ds : List Char) : bytesOf (cs ++ ds) = bytesOf cs ++ bytesOf ds :=
  flatMap_append

/-- A byte that starts no character is none of those that stand for themselves. -/
theorem le_of_leadingChar?_eq_none {b : Nat} {bs : List Nat} (h : leadingChar? (b :: bs) = none) :
    0x80 ≤ b := by
  by_contra hb
  have hone : leadingChar?.one b = some (Char.ofNat b, 1) := if_pos (by omega)
  unfold leadingChar? at h
  split at h <;> simp_all

theorem lt_or_le_of_mem_encodePoint {n b : Nat} (h : b ∈ encodePoint n) :
    n < 0x80 ∧ b = n ∨ 0x80 ≤ n ∧ 0x80 ≤ b := by
  unfold encodePoint at h
  split_ifs at h <;> simp only [mem_cons, not_mem_nil, or_false] at h <;> omega

/-- Only a line feed has the byte of a line feed. -/
def LineSafe (c : Char) : Prop := 10 ∈ charBytes c → c = '\n'

theorem lineSafe_kept {c x : Char} (h : x ∈ Rune.kept (.char c)) : LineSafe x := by
  intro hten
  by_cases hc : isStray c = true
  · -- the bytes that a character of the last block is kept as are none of the first half
    rw [Rune.kept, if_pos hc] at h
    obtain ⟨b, hb, rfl⟩ := mem_map.mp h
    rw [charBytes_stray (lt_of_mem_encodePoint hb), mem_singleton] at hten
    have hlarge : strayBase ≤ c.toNat := by simpa [isStray] using hc
    have := lt_or_le_of_mem_encodePoint hb
    unfold strayBase at hlarge
    omega
  · rw [kept_of_not_isStray (by simpa using hc), mem_singleton] at h
    subst h
    rw [charBytes, if_neg hc] at hten
    have hnat : x.toNat = 10 := by
      have := lt_or_le_of_mem_encodePoint hten
      omega
    rw [← Char.ofNat_toNat x, hnat]

/-- A text of bytes has these bytes, and no line feed but those of the bytes. -/
theorem runesOfBytes_kept {fuel : Nat} {bs : List Nat} (hfuel : bs.length ≤ fuel) (hbs : ∀ b ∈ bs, b < 256) :
    bytesOf ((runesOfBytes fuel bs).flatMap Rune.kept) = bs ∧
      ∀ x ∈ (runesOfBytes fuel bs).flatMap Rune.kept, LineSafe x := by
  induction fuel generalizing bs with
  | zero =>
    obtain rfl : bs = [] := eq_nil_of_length_eq_zero (by omega)
    exact ⟨rfl, forall_mem_nil _⟩
  | succ fuel ih =>
    cases bs with
    | nil => exact ⟨rfl, forall_mem_nil _⟩
    | cons b bs =>
      rw [runesOfBytes]
      cases hlead : leadingChar? (b :: bs) with
      | some r =>
        obtain ⟨c, n⟩ := r
        obtain ⟨hn, hbytes⟩ := leads_leadingChar? (b :: bs) c n hlead
        have hlength : ((b :: bs).drop n).length ≤ fuel := by
          rw [length_drop]
          omega
        obtain ⟨hrest, hsafe⟩ := ih hlength fun x hx => hbs x (mem_of_mem_drop hx)
        dsimp only
        rw [flatMap_cons]
        refine ⟨?_, forall_mem_append.mpr ⟨fun x hx => lineSafe_kept hx, hsafe⟩⟩
        rw [bytesOf_append, hrest, bytesOf_kept, hbytes, take_append_drop]
      | none =>
        -- a byte of no character is kept alone, as a character that stands for it
        obtain ⟨hb, hbs⟩ := forall_mem_cons.mp hbs
        obtain ⟨hrest, hsafe⟩ := ih (by simpa using hfuel) hbs
        dsimp only
        rw [flatMap_cons]
        have hlarge := le_of_leadingChar?_eq_none hlead
        refine ⟨?_, forall_mem_append.mpr ⟨?_, hsafe⟩⟩
        · rw [bytesOf_append, hrest, Rune.kept]
          simp [bytesOf, charBytes_stray hb]
        · refine forall_mem_singleton.mpr fun hten => ?_
          rw [charBytes_stray hb, mem_singleton] at hten
          omega

/-- The text of bytes has exactly these bytes. -/
theorem bytesOf_ofBytes {bs : List Nat} (h : ∀ b ∈ bs, b < 256) : bytesOf (ofBytes bs) = bs :=
  (runesOfBytes_kept le_rfl h).1

theorem lineSafe_ofBytes {bs : List Nat} (h : ∀ b ∈ bs, b < 256) : ∀ x ∈ ofBytes bs, LineSafe x :=
  (runesOfBytes_kept le_rfl h).2

theorem length_charBytes (c : Char) : (charBytes c).length = charSize c := by
  unfold charBytes charSize
  split
  · rfl
  · unfold encodePoint Char.utf8Size
    simp only [UInt32.le_iff_toNat_le, UInt32.toNat_ofNatLT]
    have hc : c.val.toNat = c.toNat := rfl
    split_ifs <;> simp only [length_cons, length_nil] <;> omega

end Text

/-! ## Offsets -/

namespace Position

/-- The line and the column of an offset in bytes: one more than the line feeds before it, and one more than
the bytes since the last of them. -/
def ofOffset (bytes : List Nat) (offset : Nat) : Position :=
  let before := bytes.take offset
  ⟨1 + before.count 10, 1 + (before.reverse.takeWhile (· != 10)).length⟩

theorem advanceAll_concat (p : Position) (cs : List Char) (c : Char) :
    p.advanceAll (cs ++ [c]) = (p.advanceAll cs).advance c := by
  rw [advanceAll_append]
  rfl

/-- Counting along characters gives the line and the column of the offset that their bytes end at. -/
theorem advanceAll_eq_ofOffset {cs : List Char} (h : ∀ x ∈ cs, Text.LineSafe x) (rest : List Nat) :
    start.advanceAll cs = ofOffset (Text.bytesOf cs ++ rest) (Text.bytesOf cs).length := by
  have hcounts : start.advanceAll cs =
      ⟨1 + (Text.bytesOf cs).count 10, 1 + ((Text.bytesOf cs).reverse.takeWhile (· != 10)).length⟩ := by
    induction cs using List.reverseRecOn with
    | nil => rfl
    | append_singleton cs c ih =>
      obtain ⟨hcs, hc⟩ := forall_mem_append.mp h
      have hsafe := forall_mem_singleton.mp hc
      have hbytes : Text.bytesOf (cs ++ [c]) = Text.bytesOf cs ++ Text.charBytes c := by
        simp [Text.bytesOf]
      rw [advanceAll_concat, ih hcs, hbytes, count_append, reverse_append, advance]
      by_cases hline : c = '\n'
      · subst hline
        have hfeed : Text.charBytes '\n' = [10] := by decide
        have hcount : List.count 10 [10] = 1 := by decide
        have hwhile : ∀ bs : List Nat, (([10] : List Nat).reverse ++ bs).takeWhile (· != 10) = [] := fun bs => rfl
        rw [if_pos rfl, hfeed, hcount, hwhile, length_nil, Nat.add_assoc]
      · have hnone : 10 ∉ Text.charBytes c := fun hmem => hline (hsafe hmem)
        have hpos : ∀ b ∈ (Text.charBytes c).reverse, (b != 10) = true := by
          intro b hb
          exact bne_iff_ne.mpr (ne_of_mem_of_not_mem (mem_reverse.mp hb) hnone)
        rw [if_neg hline, count_eq_zero_of_not_mem hnone, takeWhile_append_of_pos hpos,
          length_append, length_reverse, Text.length_charBytes]
        simp only [add_zero, mk.injEq, true_and]
        omega
  rw [hcounts, ofOffset, take_left]

end Position

end FlowCompiler
