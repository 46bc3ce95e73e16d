import FlowCompiler.Compile.Options
import FlowCompiler.Graph.Reader
import FlowCompiler.Proofs.Text.Octets

/-!
# Quoted values

A quoted value is read twice. The reader of flows finds its end: a value is a sequence of `Piece`s,
characters and escapes, and it is kept as it is written. The text of the value is found later, by a reader
of quoted texts that knows no escape for a single quote; so these escapes are taken out first, wherever a
backslash comes before a single quote, also where that backslash is the end of an escape.

Main statement: `Piece.plainText_literal_iff`. The text of a value is what its pieces mean exactly if no
escaped backslash comes directly before a single quote (`Piece.Parted`). Otherwise it is the value as it is
written.
-/

namespace FlowCompiler

open List Text

variable {ps : List Piece} {cs : List Char} {c e : Char} {p : Position} {d : Cursor}

/-- A part of a quoted value: a character that stands for itself, or an escape. -/
inductive Piece where
  | plain (c : Char) (h : c ≠ '\n' ∧ c ≠ '"' ∧ c ≠ '\\')
  | escape (c : Char) (h : isEscapable c = true)

namespace Piece

/-- A piece as it stands in a flow text. -/
def written : Piece → List Char
  | plain c _ => [c]
  | escape c _ => ['\\', c]

/-- The character that a backslash and `c` stand for. -/
def escaped (c : Char) : Char :=
  match c with
  | 'a' => Char.ofNat 7
  | 'b' => Char.ofNat 8
  | 'f' => Char.ofNat 12
  | 'n' => '\n'
  | 'r' => '\r'
  | 't' => '\t'
  | 'v' => Char.ofNat 11
  | c => c

/-- The character that a piece stands for. -/
def meaning : Piece → Char
  | plain c _ => c
  | escape c _ => escaped c

/-- Whether two pieces can stand side by side: they are not an escaped backslash and a single quote. -/
def Parted (a b : Piece) : Prop := ¬ (a.written = ['\\', '\\'] ∧ b.written = ['\''])

/-- Pieces as they stand in a flow text. -/
def inside (ps : List Piece) : List Char := ps.flatMap written

/-- Pieces between quotes. -/
def literal (ps : List Piece) : List Char := '"' :: (inside ps ++ ['"'])

@[simp] theorem inside_nil : inside [] = [] := rfl

theorem inside_cons (p : Piece) (ps : List Piece) : inside (p :: ps) = p.written ++ inside ps := rfl

theorem mem_of_isEscapable (h : isEscapable c = true) :
    c ∈ ['a', 'b', 'f', 'n', 'r', 't', 'v', '\\', '"', '\''] := by
  simpa [isEscapable] using h

end Piece

/-! ## The text of a value -/

namespace Setting

theorem plainQuotes_cons (h : c ≠ '\\') (cs : List Char) : plainQuotes (c :: cs) = c :: plainQuotes cs := by
  rw [plainQuotes]
  rintro - rfl
  exact absurd rfl h

theorem plainQuotes_append (h : ∀ c ∈ cs, c ≠ '\\') (ds : List Char) :
    plainQuotes (cs ++ ds) = cs ++ plainQuotes ds := by
  induction cs with
  | nil => rfl
  | cons c cs ih =>
    rw [cons_append, plainQuotes_cons (h c (by simp)), ih fun x hx => h x (by simp [hx]),
      cons_append]

theorem plainQuotes_backslash (h : cs.head? ≠ some '\'') :
    plainQuotes ('\\' :: cs) = '\\' :: plainQuotes cs := by
  rw [plainQuotes]
  rintro r - rfl
  exact h rfl

end Setting

namespace Text

theorem ne_of_mem_kept {x y : Char} (hx : x ∈ Rune.kept (.char c)) (hc : c ≠ y) (hy : isStray y = false) :
    x ≠ y := by
  by_cases hstray : isStray c = true
  · rw [Rune.kept, if_pos hstray] at hx
    obtain ⟨b, -, rfl⟩ := mem_map.mp hx
    rintro rfl
    rw [isStray_stray] at hy
    cases hy
  · rw [Rune.kept, if_neg hstray, mem_singleton] at hx
    rwa [hx]

theorem kept_ne_nil (c : Char) : Rune.kept (.char c) ≠ [] := by
  by_cases hstray : isStray c = true
  · simp [Rune.kept, hstray, encodePoint_ne_nil]
  · simp [Rune.kept, hstray]

theorem head?_keep_ne {y : Char} (h : cs.head? ≠ some y) (hy : isStray y = false) :
    (keep cs).head? ≠ some y := by
  cases cs with
  | nil => simp
  | cons c cs =>
    cases hkept : Rune.kept (.char c) with
    | nil => exact absurd hkept (kept_ne_nil c)
    | cons x xs =>
      have hc : c ≠ y := fun hc => h (by rw [hc]; rfl)
      have hx : x ≠ y := ne_of_mem_kept (hkept ▸ mem_cons_self) hc hy
      simpa [keep_cons, hkept] using hx

theorem received_ofList (cs : List Char) : received (String.ofList cs) = String.ofList (keep cs) := by
  rw [← String.ofList_toList (s := received (String.ofList cs)), toList_received, String.toList_ofList]

/-- Single quotes are made plain in the same way before and after a text is received. -/
theorem plainQuotes_keep (cs : List Char) :
    Setting.plainQuotes (keep cs) = keep (Setting.plainQuotes cs) := by
  fun_induction Setting.plainQuotes cs with
  | case1 r ih =>
    rw [keep_cons, keep_cons, keep_cons, kept_of_not_isStray (by decide),
      kept_of_not_isStray (by decide), ← ih]
    rfl
  | case2 c r hr ih =>
    rw [keep_cons, keep_cons, ← ih]
    by_cases hc : c = '\\'
    · subst hc
      rw [kept_of_not_isStray (by decide), singleton_append, singleton_append]
      refine Setting.plainQuotes_backslash (head?_keep_ne (fun hhead => ?_) (by decide))
      obtain ⟨r', rfl⟩ := head?_eq_some_iff.mp hhead
      exact hr r' rfl rfl
    · exact Setting.plainQuotes_append (fun x hx => ne_of_mem_kept hx hc (by decide)) _
  | case3 => rfl

theorem assemble_map_char (cs : List Char) : assemble [] (cs.map .char) = keep cs := by
  induction cs with
  | nil => rfl
  | cons c cs ih => rw [map_cons, assemble, ih]; rfl

end Text

namespace Piece

/-- The pieces of a value as the reader of quoted texts gets them. -/
def readable (ps : List Piece) : List Char := Setting.plainQuotes (inside ps ++ ['"'])

theorem takeEscape_escaped (h : isEscapable c = true) (hc : c ≠ '\'') (r : List Char) :
    takeEscape (c :: r) = some (.char (escaped c), r) := by
  have hmem := mem_of_isEscapable h
  simp only [mem_cons, not_mem_nil, or_false] at hmem
  rcases hmem with rfl | rfl | rfl | rfl | rfl | rfl | rfl | rfl | rfl | rfl
  all_goals first | rfl | exact absurd rfl hc

theorem unquoteRest_plain (h : c ≠ '\n' ∧ c ≠ '"' ∧ c ≠ '\\') (r : List Char) :
    unquoteRest (c :: r) = (unquoteRest r).map (.char c :: ·) := by
  rw [unquoteRest, if_neg h.2.1, if_neg h.1, if_neg h.2.2]

theorem unquoteRest_backslash (r : List Char) :
    unquoteRest ('\\' :: r) = (takeEscape r).bind fun e => (unquoteRest e.2).map (e.1 :: ·) := by
  rw [unquoteRest, if_neg (by decide), if_neg (by decide), if_pos rfl]
  split
  · next h => rw [h]; rfl
  · next h => rw [h]; rfl

theorem unquoteRest_escape (h : isEscapable c = true) (hc : c ≠ '\'') (r : List Char) :
    unquoteRest ('\\' :: c :: r) = (unquoteRest r).map (.char (escaped c) :: ·) := by
  rw [unquoteRest_backslash, takeEscape_escaped h hc]
  rfl

/-- There is no escape for a single quote. -/
theorem unquoteRest_quote (r : List Char) : unquoteRest ('\\' :: '\'' :: r) = none := by
  have hescape : takeEscape ('\'' :: r) = none := by
    rcases r with _ | ⟨b, _ | ⟨d, r⟩⟩ <;> rfl
  rw [unquoteRest_backslash, hescape]
  rfl

/-- The next character after pieces that do not start with a single quote. -/
theorem head?_inside_ne (h : ∀ p ∈ ps.head?, p.written ≠ ['\'']) :
    (inside ps ++ ['"']).head? ≠ some '\'' := by
  cases ps with
  | nil => decide
  | cons p ps =>
    cases p with
    | plain c hc =>
      intro hhead
      refine h (plain c hc) rfl ?_
      rw [written, Option.some.inj hhead]
    | escape c hc => exact nofun

/-- One piece, and what is read after it. -/
theorem unquoteRest_readable_cons {p : Piece} (h : ∀ q ∈ ps.head?, p.Parted q) :
    unquoteRest (readable (p :: ps)) = (unquoteRest (readable ps)).map (.char p.meaning :: ·) := by
  cases p with
  | plain c hc =>
    have hread : readable (plain c hc :: ps) = c :: readable ps := Setting.plainQuotes_cons hc.2.2 _
    rw [hread, unquoteRest_plain hc, meaning]
  | escape c hc =>
    by_cases hquote : c = '\''
    · subst hquote
      have hread : readable (escape '\'' hc :: ps) = '\'' :: readable ps := by
        rw [readable, inside_cons]
        rfl
      rw [hread, unquoteRest_plain (by decide)]
      rfl
    · have hread : readable (escape c hc :: ps) = '\\' :: c :: readable ps := by
        rw [readable, inside_cons, written, append_assoc, cons_append, cons_append,
          nil_append, Setting.plainQuotes_backslash (by simpa using hquote)]
        by_cases hslash : c = '\\'
        · subst hslash
          rw [Setting.plainQuotes_backslash]
          · rfl
          · exact head?_inside_ne fun q hq hqw => h q hq ⟨rfl, hqw⟩
        · rw [Setting.plainQuotes_cons hslash]
          rfl
      rw [hread, unquoteRest_escape hc hquote, meaning]

/-- Pieces that are all parted are read as what they mean. -/
theorem unquoteRest_of_parted (h : ps.IsChain Parted) :
    unquoteRest (readable ps) = some (ps.map fun p => .char p.meaning) := by
  induction ps with
  | nil => simp [readable, Setting.plainQuotes, unquoteRest]
  | cons p ps ih =>
    obtain ⟨hhead, htail⟩ := isChain_cons.mp h
    rw [unquoteRest_readable_cons hhead, ih htail]
    rfl

/-- Pieces that are not all parted cannot be read. -/
theorem unquoteRest_of_not_parted (h : ¬ ps.IsChain Parted) : unquoteRest (readable ps) = none := by
  induction ps with
  | nil => exact absurd .nil h
  | cons p ps ih =>
    by_cases hhead : ∀ q ∈ ps.head?, p.Parted q
    · rw [unquoteRest_readable_cons hhead, ih fun htail => h (isChain_cons.mpr ⟨hhead, htail⟩)]
      rfl
    · -- The backslash that ends the escape is taken for the start of one.
      obtain ⟨r, hread⟩ : ∃ r, readable (p :: ps) = '\\' :: '\'' :: r := by
        simp only [Parted, not_forall, not_not] at hhead
        obtain ⟨q, hq, hp, hqw⟩ := hhead
        obtain ⟨qs, rfl⟩ := head?_eq_some_iff.mp hq
        rw [readable, inside_cons, inside_cons, hp, hqw]
        exact ⟨_, rfl⟩
      rw [hread, unquoteRest_quote]

theorem unquote?_literal (ps : List Piece) :
    unquote? (Setting.plainQuotes (keep (literal ps))) =
      (unquoteRest (readable ps)).map (assemble []) := by
  have hread : Setting.plainQuotes (literal ps) = '"' :: readable ps :=
    Setting.plainQuotes_cons (by decide) _
  rw [plainQuotes_keep, unquote?, shownChars_keep, hread]
  rfl

theorem keep_literal (ps : List Piece) : keep (literal ps) = '"' :: (keep (inside ps) ++ ['"']) := by
  rw [literal, keep_cons, keep_append]
  rfl

/-- The text of a value that is received. -/
theorem plainText_literal (ps : List Piece) :
    Setting.plainText (received (String.ofList (literal ps))) =
      String.ofList (((unquoteRest (readable ps)).map (assemble [])).getD (keep (inside ps))) := by
  have hquoted : Setting.isQuoted (received (String.ofList (literal ps))) = true := by
    simp [Setting.isQuoted, toList_received, keep_literal, getLast?_cons]
  rw [Setting.plainText, if_pos hquoted, Setting.unquoted, received_ofList, String.toList_ofList,
    unquote?_literal]
  cases unquoteRest (readable ps) with
  | none => simp [keep_literal]
  | some rs => rfl

theorem plainText_of_parted (h : ps.IsChain Parted) :
    Setting.plainText (received (String.ofList (literal ps))) =
      received (String.ofList (ps.map meaning)) := by
  have hmap : ps.map (fun p => Rune.char p.meaning) = (ps.map meaning).map .char := by
    rw [map_map]
    rfl
  rw [plainText_literal, unquoteRest_of_parted h, hmap, received_ofList, Option.map_some,
    Option.getD_some, assemble_map_char]

theorem plainText_of_not_parted (h : ¬ ps.IsChain Parted) :
    Setting.plainText (received (String.ofList (literal ps))) =
      received (String.ofList (inside ps)) := by
  rw [plainText_literal, unquoteRest_of_not_parted h, received_ofList]
  rfl

theorem length_le_length_inside (ps : List Piece) : ps.length ≤ (inside ps).length := by
  induction ps with
  | nil => exact Nat.zero_le _
  | cons p ps ih => cases p <;> simp only [inside_cons, written, length_append, length_cons] <;> omega

/-- What is written is longer than what is meant as soon as there is an escape. -/
theorem inside_ne_of_not_parted (h : ¬ ps.IsChain Parted) : inside ps ≠ ps.map meaning := by
  suffices hlt : ps.length < (inside ps).length by
    intro heq
    rw [heq, length_map] at hlt
    omega
  induction ps with
  | nil => exact absurd .nil h
  | cons p ps ih =>
    by_cases hhead : ∀ q ∈ ps.head?, p.Parted q
    · have htail := ih fun htail => h (isChain_cons.mpr ⟨hhead, htail⟩)
      cases p <;> simp only [inside_cons, written, length_append, length_cons] <;> omega
    · simp only [Parted, not_forall, not_not] at hhead
      obtain ⟨-, -, hp, -⟩ := hhead
      have hle := length_le_length_inside ps
      rw [inside_cons, hp]
      simp only [length_append, length_cons, length_nil]
      omega

/-- The text of a quoted value is what its pieces mean exactly if they are parted. -/
theorem plainText_literal_iff (ps : List Piece) :
    Setting.plainText (received (String.ofList (literal ps))) =
      received (String.ofList (ps.map meaning)) ↔ ps.IsChain Parted := by
  refine ⟨fun h => ?_, plainText_of_parted⟩
  by_contra hparted
  rw [plainText_of_not_parted hparted, received_ofList, received_ofList, String.ofList_inj] at h
  exact inside_ne_of_not_parted hparted (keep_injective h)

end Piece

/-! ## Where a value ends -/

namespace Cursor

variable {opened : Position}

theorem quotedRest_append (h : ∀ c ∈ cs, c ≠ '\n' ∧ c ≠ '"' ∧ c ≠ '\\') (ds : List Char) (p : Position) :
    quotedRest opened (cs ++ ds) p =
      (quotedRest opened ds (p.advanceAll cs)).map fun r => (cs ++ r.1, r.2) := by
  induction cs generalizing p with
  | nil =>
    rw [nil_append, Position.advanceAll_nil]
    cases quotedRest opened ds p <;> rfl
  | cons c cs ih =>
    obtain ⟨hline, hquote, hslash⟩ := h c (by simp)
    rw [cons_append, quotedRest.eq_def, Position.advanceAll_cons]
    simp only [if_neg hline, if_neg hquote, if_neg hslash, ih fun x hx => h x (by simp [hx])]
    cases quotedRest opened ds ((p.advance c).advanceAll cs) <;> rfl

theorem quotedRest_escape (he : isEscapable e = true) (r : List Char) (p : Position) :
    quotedRest opened ('\\' :: e :: r) p =
      (quotedRest opened r (p.advanceAll ['\\', e])).map fun t => ('\\' :: e :: t.1, t.2) := by
  rw [quotedRest.eq_def]
  simp [he]

theorem kept_plain (h : c ≠ '\n' ∧ c ≠ '"' ∧ c ≠ '\\') :
    ∀ x ∈ Rune.kept (.char c), x ≠ '\n' ∧ x ≠ '"' ∧ x ≠ '\\' := fun _ hx =>
  ⟨ne_of_mem_kept hx h.1 (by decide), ne_of_mem_kept hx h.2.1 (by decide),
    ne_of_mem_kept hx h.2.2 (by decide)⟩

theorem isStray_of_isEscapable (he : isEscapable e = true) : isStray e = false := by
  have hmem := Piece.mem_of_isEscapable he
  simp only [mem_cons, not_mem_nil, or_false] at hmem
  rcases hmem with rfl | rfl | rfl | rfl | rfl | rfl | rfl | rfl | rfl | rfl <;> decide

theorem quotedRest_unescapable (he : isEscapable e = false) (cs : List Char) (p : Position) :
    quotedRest opened ('\\' :: keep (e :: cs)) p = .error ⟨p.advance '\\', .badEscape⟩ := by
  cases hkept : Rune.kept (.char e) with
  | nil => exact absurd hkept (kept_ne_nil e)
  | cons x xs =>
    have hx : isEscapable x = false := by
      by_contra hx
      have hstray := isStray_of_isEscapable (Bool.not_eq_false _ ▸ hx)
      have hex : e = x := by
        by_contra hex
        exact ne_of_mem_kept (hkept ▸ mem_cons_self) hex hstray rfl
      rw [hex] at he
      exact hx he
    rw [keep_cons, hkept, cons_append, quotedRest.eq_def]
    simp [hx]

/-- One piece of a value, however its character is kept. -/
theorem quotedRest_piece (q : Piece) (ds : List Char) (p : Position) :
    quotedRest opened (keep q.written ++ ds) p =
      (quotedRest opened ds (p.advanceAll (keep q.written))).map fun r =>
        (keep q.written ++ r.1, r.2) := by
  cases q with
  | plain c hc =>
    rw [Piece.written, keep_cons, keep_nil, append_nil]
    exact quotedRest_append (kept_plain hc) ds p
  | escape e he =>
    have hkeep : keep (Piece.written (.escape e he)) = ['\\', e] := by
      rw [Piece.written, keep_cons, keep_cons, kept_of_not_isStray (isStray_of_isEscapable he)]
      rfl
    rw [hkeep]
    exact quotedRest_escape he ds p

/-- Pieces are read up to the quote after them. -/
theorem quotedRest_inside (opened : Position) (ps : List Piece) (r : List Char) (p : Position) :
    ∃ p', quotedRest opened (keep (Piece.inside ps) ++ '"' :: r) p =
      .ok (keep (Piece.inside ps) ++ ['"'], ⟨r, p'⟩) := by
  induction ps generalizing p with
  | nil => exact ⟨p.advance '"', by rw [quotedRest.eq_def]; simp⟩
  | cons q ps ih =>
    obtain ⟨p', hrest⟩ := ih (p.advanceAll (keep q.written))
    refine ⟨p', ?_⟩
    rw [Piece.inside_cons, keep_append, append_assoc, quotedRest_piece, hrest]
    simp [Except.map]

/-- Whether `cs` starts with pieces and a quote, which were read as `out` and after which `d` is left. -/
def Spans (cs out : List Char) (d : Cursor) : Prop :=
  ∃ ps r, cs = Piece.inside ps ++ '"' :: r ∧ out = keep (Piece.inside ps) ++ ['"'] ∧ d.rest = keep r

theorem Spans.piece {q : Piece} {out : List Char}
    (h : quotedRest opened (keep (q.written ++ cs)) p = .ok (out, d))
    (ih : ∀ out p, quotedRest opened (keep cs) p = .ok (out, d) → Spans cs out d) :
    Spans (q.written ++ cs) out d := by
  rw [keep_append, quotedRest_piece] at h
  cases hrest : quotedRest opened (keep cs) (p.advanceAll (keep q.written)) with
  | error e =>
    rw [hrest] at h
    cases h
  | ok t =>
    rw [hrest] at h
    cases h
    obtain ⟨ps, r, rfl, hout, hd⟩ := ih _ _ hrest
    refine ⟨q :: ps, r, ?_, ?_, hd⟩
    · rw [Piece.inside_cons, append_assoc]
    · rw [Piece.inside_cons, keep_append, append_assoc, ← hout]

/-- What is read up to a quote are pieces. -/
theorem spans_of_quotedRest {out : List Char} (h : quotedRest opened (keep cs) p = .ok (out, d)) :
    Spans cs out d := by
  -- An escape takes two characters, so the induction is on the length.
  induction hlen : cs.length using Nat.strong_induction_on generalizing cs out p with
  | _ n ih =>
    subst hlen
    cases cs with
    | nil => cases h
    | cons c cs =>
      by_cases hplain : c ≠ '\n' ∧ c ≠ '"' ∧ c ≠ '\\'
      · exact Spans.piece (q := .plain c hplain) h fun out p h => ih _ (by simp) h rfl
      · have hc : c = '\n' ∨ c = '"' ∨ c = '\\' := by tauto
        rcases hc with rfl | rfl | rfl
        · rw [keep_cons, kept_of_not_isStray (by decide), quotedRest.eq_def] at h
          cases h
        · rw [keep_cons, kept_of_not_isStray (by decide), quotedRest.eq_def] at h
          cases h
          exact ⟨[], cs, rfl, rfl, rfl⟩
        · cases cs with
          | nil =>
            rw [keep_cons, kept_of_not_isStray (by decide), quotedRest.eq_def] at h
            cases h
          | cons e cs =>
            by_cases he : isEscapable e = true
            · exact Spans.piece (q := .escape e he) h fun out p h => ih _ (by simp) h rfl
            · rw [keep_cons, kept_of_not_isStray (by decide), singleton_append,
                quotedRest_unescapable (by simpa using he)] at h
              cases h

end Cursor

end FlowCompiler
