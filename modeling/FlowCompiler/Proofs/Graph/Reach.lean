import FlowCompiler.Graph.Reader

/-!
# What readers read

What the readers of exports and declarations read is said once (`exportPort_read`, `declare_read`,
`exportOption_read`). Positions strictly grow along a text (`Cursor.statements_between`).
-/

namespace FlowCompiler

namespace Position

/-- The order of positions in a text: by line, then by column. -/
def Before (p q : Position) : Prop := p.line < q.line ∨ p.line = q.line ∧ p.column < q.column

theorem Before.trans {p q r : Position} (h₁ : p.Before q) (h₂ : q.Before r) : p.Before r := by
  unfold Before at *
  omega

theorem Before.ne {p q : Position} (h : p.Before q) : p ≠ q := by
  rintro rfl
  unfold Before at h
  omega

/-- What is before a position is before all that is not before it. -/
theorem before_of_not_before {p q r : Position} (h₁ : p.Before q) (h₂ : ¬ r.Before q) :
    p.Before r := by
  unfold Before at *
  omega

theorem before_advance (p : Position) (c : Char) : p.Before (p.advance c) := by
  unfold advance Before
  split
  · exact .inl (Nat.lt_succ_self _)
  · refine .inr ⟨rfl, Nat.lt_add_of_pos_right ?_⟩
    unfold Text.charSize
    split
    · exact Nat.one_pos
    · exact c.utf8Size_pos

theorem before_advanceAll (p : Position) {cs : List Char} (h : cs ≠ []) :
    p.Before (p.advanceAll cs) := by
  induction cs generalizing p with
  | nil => exact absurd rfl h
  | cons c cs ih =>
    rw [advanceAll_cons]
    by_cases hcs : cs = []
    · rw [hcs]
      exact before_advance p c
    · exact (before_advance p c).trans (ih _ hcs)

end Position

namespace Cursor

variable {c d e : Cursor}

/-- A cursor that has less to read stands at a later position. -/
theorem Gets.before (h : c.Gets 1 d) : c.pos.Before d.pos := by
  obtain ⟨⟨cs, hc, hp⟩, hlt⟩ := h
  rw [hp]
  apply Position.before_advanceAll
  rintro rfl
  rw [hc, List.nil_append] at hlt
  exact Nat.lt_irrefl _ hlt

/-- A cursor never stands at an earlier position. -/
theorem Reaches.before_of_before {p : Position} (h : c.Reaches d) (hp : p.Before c.pos) :
    p.Before d.pos := by
  obtain ⟨cs, -, hq⟩ := h
  by_cases hcs : cs = []
  · rw [hq, hcs]
    exact hp
  · rw [hq]
    exact hp.trans (Position.before_advanceAll _ hcs)

theorem expect_eq_ok {x : Char} {fault : Fault} (h : c.expect x fault = .ok d) :
    c.peek = some x ∧ d = c.next := by
  unfold expect at h
  split at h
  · next hx => exact ⟨hx, (Except.ok.inj h).symm⟩
  · cases h

/-- A link is read up to its node, which is read last. -/
theorem link_eq_ok {l : Link} (h : c.link = .ok (l, d)) :
    ∃ e, c.Gets 1 e ∧ e.mention = .ok (l.node, d) := by
  unfold link at h
  obtain ⟨⟨source, d1⟩, h1, h⟩ := bind_eq_ok.1 h
  dsimp only at h
  split at h
  · cases h
  · next hs =>
    obtain ⟨d2, h2, h⟩ := bind_eq_ok.1 h
    obtain ⟨d3, h3, h⟩ := bind_eq_ok.1 h
    obtain ⟨d4, h4, h⟩ := bind_eq_ok.1 h
    obtain ⟨⟨target, d5⟩, h5, h⟩ := bind_eq_ok.1 h
    dsimp only at h
    split at h
    · cases h
    · obtain ⟨d6, h6, h⟩ := bind_eq_ok.1 h
      obtain ⟨⟨node, d7⟩, h7, h⟩ := bind_eq_ok.1 h
      cases h
      have hd3 := (port_gets_one h1 hs).trans ((skipSpace_gets h2).trans ((arrow_reading d2).gets d3 h3))
      have hd5 := (skipSpace_gets h4).trans ((port_reading d4).gets _ h5)
      exact ⟨d6, hd3.trans (hd5.trans (skipSpace_gets h6)), h7⟩

/-! ## Statements -/

/-- The parts of an exported port, with the cursors behind them. -/
theorem exportPort_read {direction : Direction} {s : Statement}
    (h : exportPort direction c = .ok (s, d)) :
    ∃ node e port f name, c.word isNameChar = (node, e) ∧ node ≠ "" ∧ e.peek = some '.' ∧
      e.next.port = .ok (port, f) ∧ f.peek = some ':' ∧ f.next.word isNameChar = (name, d) ∧ name ≠ "" ∧
      s = .exportPort direction node port name c.pos := by
  unfold exportPort at h
  rcases hw : c.word isNameChar with ⟨node, e⟩
  simp only [hw] at h
  split at h
  · cases h
  · next hnode =>
    obtain ⟨e₁, he, h⟩ := bind_eq_ok.1 h
    obtain ⟨hdot, rfl⟩ := expect_eq_ok he
    obtain ⟨⟨port, f⟩, hport, h⟩ := bind_eq_ok.1 h
    dsimp only at h
    split at h
    · cases h
    · obtain ⟨f₁, hf, h⟩ := bind_eq_ok.1 h
      obtain ⟨hcolon, rfl⟩ := expect_eq_ok hf
      rcases hx : f.next.word isNameChar with ⟨name, k⟩
      simp only [hx] at h
      split at h
      · cases h
      · next hname =>
        cases h
        exact ⟨node, e, port, f, name, rfl, hnode, hdot, hport, hcolon, hx, hname, rfl⟩

/-- The parts of a declaration, with the cursors behind them. -/
theorem declare_read {s : Statement} (h : declare c = .ok (s, d)) :
    ∃ name e kind f raw, c.word isNameChar = (name, e) ∧ name ≠ "" ∧ e.peek = some ':' ∧
      e.next.word isNameChar = (kind, f) ∧ kind ≠ "" ∧ f.peek = some ':' ∧
      f.next.word isContentsChar = (raw, d) ∧ Text.trim raw ≠ "" ∧
      s = .declare ⟨name, kind, Text.trim raw, c.pos⟩ := by
  unfold declare at h
  rcases hw : c.word isNameChar with ⟨name, e⟩
  simp only [hw] at h
  split at h
  · cases h
  · next hname =>
    obtain ⟨e₁, he, h⟩ := bind_eq_ok.1 h
    obtain ⟨hcolon, rfl⟩ := expect_eq_ok he
    rcases hx : e.next.word isNameChar with ⟨kind, f⟩
    simp only [hx] at h
    split at h
    · cases h
    · next hkind =>
      obtain ⟨f₁, hf, h⟩ := bind_eq_ok.1 h
      obtain ⟨hcolon', rfl⟩ := expect_eq_ok hf
      rcases hy : f.next.word isContentsChar with ⟨raw, k⟩
      simp only [hy] at h
      split at h
      · cases h
      · next hcontents =>
        cases h
        exact ⟨name, e, kind, f, raw, rfl, hname, hcolon, hx, hkind, hcolon', hy, hcontents, rfl⟩

/-- The parts of an exported option, with the cursors behind them. -/
theorem exportOption_read {s : Statement} (h : exportOption c = .ok (s, d)) :
    ∃ node e option f name, c.word isNameChar = (node, e) ∧ node ≠ "" ∧ e.peek = some '.' ∧
      e.next.word isNameChar = (option, f) ∧ f.peek = some ':' ∧ f.next.word isNameChar = (name, d) ∧
      name ≠ "" ∧ s = .exportOption node option name c.pos := by
  unfold exportOption at h
  rcases hw : c.word isNameChar with ⟨node, e⟩
  simp only [hw] at h
  split at h
  · cases h
  · next hnode =>
    obtain ⟨e₁, he, h⟩ := bind_eq_ok.1 h
    obtain ⟨hdot, rfl⟩ := expect_eq_ok he
    rcases hx : e.next.word isNameChar with ⟨option, f⟩
    simp only [hx] at h
    split at h
    · cases h
    · obtain ⟨f₁, hf, h⟩ := bind_eq_ok.1 h
      obtain ⟨hcolon, rfl⟩ := expect_eq_ok hf
      rcases hy : f.next.word isNameChar with ⟨name, k⟩
      simp only [hy] at h
      split at h
      · cases h
      · next hname =>
        cases h
        exact ⟨node, e, option, f, name, rfl, hnode, hdot, hx, hcolon, hy, hname, rfl⟩

/-- A statement that was read to its end starts with a keyword, or is a chain. -/
theorem statement_eq_ok {ss : List Statement} (h : c.statement = (ss, .ok d)) :
    (∃ w e s read, keyword? w = some read ∧ c.Reaches e ∧ read e = .ok (s, d) ∧ ss = [s]) ∨
      c.chain = (ss, .ok d) := by
  obtain ⟨w, e, read, hw, -, hk, ⟨s, f, hr, hs⟩ | ⟨f, -, hs⟩⟩ | hs := statement_cases c
  · rw [hs] at h
    cases h
    exact .inl ⟨w, e.next, s, read, hk, (word_reaches hw).trans (next_reaches e), hr, rfl⟩
  · rw [hs] at h
    cases h
  · exact .inr (hs ▸ h)

/-! ## Growing positions -/

/-- Positions that grow and lie from one cursor up to another. -/
def Between (c d : Cursor) (ps : List Position) : Prop :=
  ps.Pairwise Position.Before ∧ ∀ p ∈ ps, ¬ p.Before c.pos ∧ p.Before d.pos

namespace Between

variable {ps qs : List Position}

theorem nil (c d : Cursor) : c.Between d [] := ⟨.nil, List.forall_mem_nil _⟩

theorem singleton (h : c.Gets 1 d) : c.Between d [c.pos] :=
  ⟨List.pairwise_singleton _ _, List.forall_mem_singleton.mpr ⟨fun hb => hb.ne rfl, h.before⟩⟩

/-- Positions from a later cursor up to an earlier one. -/
theorem widen {c' d' : Cursor} (h : c.Between d ps) (hc : c'.Reaches c) (hd : d.Reaches d') :
    c'.Between d' ps :=
  ⟨h.1, fun p hp => ⟨fun hb => (h.2 p hp).1 (hc.before_of_before hb), hd.before_of_before (h.2 p hp).2⟩⟩

/-- The position that a word starts at comes before what follows the word. -/
theorem of_word {accept : Char → Bool} {w : String} (hw : c.word accept = (w, d)) (hne : w ≠ "")
    (h : d.Reaches e) : c.Between e [c.pos] :=
  (singleton (word_gets_one hw hne)).widen (.refl c) h

theorem append (h₁ : c.Between d ps) (h₂ : d.Between e qs) (hcd : c.Reaches d) (hde : d.Reaches e) :
    c.Between e (ps ++ qs) := by
  refine ⟨List.pairwise_append.mpr ⟨h₁.1, h₂.1, fun p hp q hq => ?_⟩, List.forall_mem_append.mpr ⟨?_, ?_⟩⟩
  · exact Position.before_of_not_before (h₁.2 p hp).2 (h₂.2 q hq).1
  · exact (h₁.widen (.refl c) hde).2
  · exact (h₂.widen hcd (.refl e)).2

end Between

/-- What grows within each statement grows along the text. -/
theorem statements_between {marks : Statement → List Position}
    (hmarks : ∀ {c d : Cursor} {ss : List Statement}, c.statement = (ss, .ok d) → c.Between d (ss.flatMap marks))
    {ss : List Statement} (h : c.statements = (ss, none)) :
    ∃ d, c.Reaches d ∧ c.Between d (ss.flatMap marks) := by
  fun_induction statements c generalizing ss with
  | case1 | case4 | case5 | case7 => cases h
  | case2 c =>
    cases h
    exact ⟨c, .refl c, .nil _ _⟩
  | case3 c d h1 x hx hsep ih =>
    obtain ⟨d', hd', hbetween⟩ := ih h
    have hnext := (skipSpace_reaches h1).trans (next_reaches d)
    exact ⟨d', hnext.trans hd', hbetween.widen hnext (.refl d')⟩
  | case6 c d h1 x hx hsep ss' e ht f he hend more fault hmore ih =>
    simp only [Prod.mk.injEq] at h
    obtain ⟨rfl, rfl⟩ := h
    obtain ⟨d', hd', hmore⟩ := ih hmore
    have hce := (skipSpace_reaches h1).trans (statement_reaches ht)
    have hef := (skipSpace_reaches he).trans (next_reaches f)
    rw [List.flatMap_append]
    refine ⟨d', hce.trans (hef.trans hd'), .append (d := e) ?_ ?_ hce (hef.trans hd')⟩
    · exact (hmarks ht).widen (skipSpace_reaches h1) (.refl e)
    · exact hmore.widen hef (.refl d')

end Cursor

end FlowCompiler
