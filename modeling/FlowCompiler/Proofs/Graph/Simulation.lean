import FlowCompiler.Proofs.Graph.SingleNode
import FlowCompiler.Proofs.Graph.Spots

/-!
# Two texts read side by side

A relation between cursors is kept in lockstep (`Cursor.Lockstep`) when related cursors see the same characters,
blanks and line ends apart, and pass them together. Every reader follows such a relation: where it succeeds at the
one cursor it reads the same at the other and stops at a related one. Contents of declarations are the one place
where a blank counts, so for them the relation has to say what it keeps (`Cursor.Simulation`).

Main statement: `Simulation.statements`.
-/

namespace FlowCompiler

variable {x : Char} {accept : Char → Bool} {ss : List Statement} {w : String}

theorem isSolid_of_isNameChar (h : isNameChar x = true) : isSolid x = true :=
  isSolid_of_isSettingChar (isSettingChar_of_isComponentChar (isComponentChar_of_isNameChar h))

theorem isSolid_of_isDigit (h : x.isDigit = true) : isSolid x = true :=
  isSolid_of_isNameChar (by simp [isNameChar, Char.isAlphanum, h])

/-- Where `x` succeeds, so does `y`, with a related result. -/
def Follows {α β : Type} (S : α → β → Prop) (x : Except ParseError α) (y : Except ParseError β) : Prop :=
  ∀ a, x = .ok a → ∃ b, y = .ok b ∧ S a b

namespace Follows

variable {α β γ δ : Type} {S : α → β → Prop} {T : γ → δ → Prop} {y : Except ParseError β}

theorem ok {a : α} {b : β} (h : S a b) : Follows S (.ok a) (.ok b) := by
  rintro a ⟨⟩
  exact ⟨b, rfl, h⟩

theorem error (e : ParseError) (y : Except ParseError β) : Follows S (.error e) y := by
  rintro a ⟨⟩

theorem bind {x : Except ParseError α} {f : α → Except ParseError γ} {f' : β → Except ParseError δ}
    (h : Follows S x y) (hf : ∀ a b, S a b → Follows T (f a) (f' b)) : Follows T (x >>= f) (y >>= f') := by
  intro c hc
  obtain ⟨a, ha, hfa⟩ := bind_eq_ok.mp hc
  obtain ⟨b, rfl, hab⟩ := h a ha
  exact hf a b hab c hfa

theorem map {x : Except ParseError α} {f : α → γ} {f' : β → δ} (h : Follows S x y)
    (hf : ∀ a b, S a b → T (f a) (f' b)) : Follows T (x.map f) (y.map f') := by
  intro c hc
  obtain ⟨a, ha, rfl⟩ := map_eq_ok.mp hc
  obtain ⟨b, rfl, hab⟩ := h a ha
  exact ⟨_, rfl, hf a b hab⟩

end Follows

namespace Cursor

/-- The same was read, up to related cursors. -/
def Same {α : Type} (R : Cursor → Cursor → Prop) (x y : α × Cursor) : Prop := x.1 = y.1 ∧ R x.2 y.2

theorem word_of_peek {c : Cursor} (hx : c.peek = some x) (ha : accept x = true) :
    c.word accept = (String.ofList (x :: (c.next.word accept).1.toList), (c.next.word accept).2) := by
  obtain ⟨cs, p⟩ := c
  cases cs with
  | nil => cases hx
  | cons y r =>
    cases hx
    simp [word, skipWhile, ha, Cursor.next]

/-- A word ends where it starts if what comes first is not of its class. -/
theorem word_of_stop {c : Cursor} (h : ∀ x ∈ c.peek, accept x = false) : c.word accept = ("", c) := by
  obtain ⟨cs, p⟩ := c
  cases cs with
  | nil => rfl
  | cons y r => simp [word, skipWhile, h y rfl]

theorem next_of_peek_eq_none {c : Cursor} (h : c.peek = none) : c.next = c := by
  obtain ⟨cs, p⟩ := c
  cases cs with
  | nil => rfl
  | cons y r => cases h

theorem atStatementEnd_congr {c c' : Cursor} (h : c.peek = c'.peek) : c.atStatementEnd = c'.atStatementEnd := by
  rw [atStatementEnd, atStatementEnd, h]

/-! ## Lockstep -/

/-- Related cursors see the same characters, apart from blanks, line ends and comments, and pass them together;
where they see one they stand at the same position. Behind blanks and comments they see the same in any case. -/
structure Lockstep (R : Cursor → Cursor → Prop) : Prop where
  peek {c c' : Cursor} {x : Char} : R c c' → isSolid x = true → (c.peek = some x ↔ c'.peek = some x)
  pos {c c' : Cursor} {x : Char} : R c c' → isSolid x = true → c.peek = some x → c.pos = c'.pos
  next {c c' : Cursor} {x : Char} : R c c' → isSolid x = true → c.peek = some x → R c.next c'.next
  skipSpace {c c' : Cursor} : R c c' →
    Follows (fun d d' => R d d' ∧ d.peek = d'.peek ∧ (d.peek = some '\n' → R d.next d'.next))
      c.skipSpace c'.skipSpace
  quoted {c c' : Cursor} : R c c' → c.peek = some '"' → Follows (Same R) c.quoted c'.quoted

namespace Lockstep

variable {R : Cursor → Cursor → Prop} (hR : Lockstep R) {c c' d : Cursor}
include hR

theorem beq_peek (h : R c c') (hx : isSolid x = true) : (c.peek == some x) = (c'.peek == some x) := by
  rw [Bool.eq_iff_iff, beq_iff_eq, beq_iff_eq]
  exact hR.peek h hx

/-- Words of characters that are no blanks are read alike. -/
theorem word (haccept : ∀ x, accept x = true → isSolid x = true) (h : R c c') (hw : c.word accept = (w, d)) :
    ∃ d', c'.word accept = (w, d') ∧ R d d' ∧ (w ≠ "" → c.pos = c'.pos) := by
  -- character by character: the relation is all that is known of the rest of the texts
  induction hn : c.rest.length using Nat.strong_induction_on generalizing c c' w with
  | _ n ih =>
    by_cases hfirst : ∃ x, c.peek = some x ∧ accept x = true
    · obtain ⟨x, hx, ha⟩ := hfirst
      have hsolid := haccept x ha
      rw [word_of_peek hx ha] at hw
      obtain ⟨rfl, rfl⟩ := Prod.mk.inj hw
      obtain ⟨d', hw', hd, -⟩ := ih _ (hn ▸ next_lt hx) (hR.next h hsolid hx) rfl rfl
      refine ⟨d', ?_, hd, fun _ => hR.pos h hsolid hx⟩
      rw [word_of_peek ((hR.peek h hsolid).mp hx) ha, hw']
      rfl
    · have hstop : ∀ x ∈ c.peek, accept x = false := by
        intro x hx
        by_contra ha
        exact hfirst ⟨x, hx, by simpa using ha⟩
      have hstop' : ∀ x ∈ c'.peek, accept x = false := by
        intro x hx
        by_contra ha
        have ha : accept x = true := by simpa using ha
        exact hfirst ⟨x, (hR.peek h (haccept x ha)).mpr hx, ha⟩
      rw [word_of_stop hstop] at hw
      cases hw
      exact ⟨c', word_of_stop hstop', h, fun hne => absurd rfl hne⟩

theorem expect (hx : isSolid x = true) {fault : Fault} (h : R c c') :
    Follows R (c.expect x fault) (c'.expect x fault) := by
  intro d hd
  obtain ⟨hpeek, rfl⟩ := expect_eq_ok hd
  refine ⟨c'.next, ?_, hR.next h hx hpeek⟩
  rw [Cursor.expect, if_pos ((hR.peek h hx).mp hpeek)]

theorem skipBlank (h : R c c') :
    Follows (fun d d' => R d d' ∧ d.peek = d'.peek) c.skipBlank c'.skipBlank := by
  fun_induction Cursor.skipBlank c generalizing c' with
  | case1 c e => exact .error e _
  | case2 c d hs hp ih =>
    obtain ⟨d', hs', hd, hpeek, hline⟩ := hR.skipSpace h d hs
    rw [skipBlank_of_line hs' (hpeek ▸ hp)]
    exact ih (hline hp)
  | case3 c d hs hp =>
    obtain ⟨d', hs', hd, hpeek, -⟩ := hR.skipSpace h d hs
    rw [skipBlank_of_stop hs' (hpeek ▸ hp)]
    exact .ok ⟨hd, hpeek⟩

/-- What ends a statement is passed at both cursors. -/
theorem next_of_atStatementEnd (h : R c c') (hpeek : c.peek = c'.peek)
    (hline : c.peek = some '\n' → R c.next c'.next) (hend : c.atStatementEnd = true) : R c.next c'.next := by
  unfold atStatementEnd at hend
  split at hend
  · next hnone => rwa [next_of_peek_eq_none hnone, next_of_peek_eq_none (hpeek ▸ hnone)]
  · next x hx =>
    have hsep : x = '\n' ∨ x = ',' := by simpa using hend
    rcases hsep with rfl | rfl
    · exact hline hx
    · exact hR.next h (by decide) hx

/-! ## Ports, settings and clauses -/

theorem index (h : R c c') (hopen : c.peek = some '[') : Follows (Same R) c.index c'.index := by
  have hnext := hR.next h (by decide) hopen
  have hsolid : isSolid ']' = true := by decide
  unfold Cursor.index
  rcases hw : c.next.word Char.isDigit with ⟨digits, d⟩
  obtain ⟨d', hw', hd, -⟩ := hR.word (fun x => isSolid_of_isDigit) hnext hw
  simp only [hw', bne, ← hR.beq_peek hd hsolid]
  split
  · exact .error _ _
  · next hread =>
    have hread : digits ≠ "" ∧ d.peek = some ']' := by simpa using hread
    split
    · exact .ok ⟨rfl, hR.next hd hsolid hread.2⟩
    · exact .error _ _

theorem port (h : R c c') :
    Follows (fun a a' => Same R a a' ∧ (a.1.name ≠ "" → c.pos = c'.pos)) c.port c'.port := by
  unfold Cursor.port
  rcases hw : c.word isNameChar with ⟨name, d⟩
  obtain ⟨d', hw', hd, hpos⟩ := hR.word (fun x => isSolid_of_isNameChar) h hw
  simp only [hw', bne, ← hR.beq_peek hd (show isSolid '[' = true by decide)]
  split
  · exact .ok ⟨⟨rfl, hd⟩, hpos⟩
  · next hopen =>
    have hopen : name ≠ "" ∧ d.peek = some '[' := by simpa using hopen
    refine (hR.index hd hopen.2).map ?_
    rintro ⟨i, e⟩ ⟨i', e'⟩ ⟨rfl, he⟩
    exact ⟨⟨rfl, he⟩, hpos⟩

theorem settingValue (h : R c c') : Follows (Same R) c.settingValue c'.settingValue := by
  unfold Cursor.settingValue
  by_cases hquote : c.peek = some '"'
  · rw [if_pos hquote, if_pos ((hR.peek h (by decide)).mp hquote)]
    exact hR.quoted h hquote
  · rw [if_neg hquote, if_neg fun h' => hquote ((hR.peek h (by decide)).mpr h')]
    rcases hw : c.word isSettingChar with ⟨value, d⟩
    obtain ⟨d', hw', hd, -⟩ := hR.word (fun x => isSolid_of_isSettingChar) h hw
    rw [hw']
    exact .ok ⟨rfl, hd⟩

theorem setting (h : R c c') : Follows (Same R) c.setting c'.setting := by
  refine (hR.skipBlank h).bind fun c₁ c₁' hc => ?_
  rcases hw : c₁.word isSettingChar with ⟨key, d⟩
  obtain ⟨d', hw', hd, hpos⟩ := hR.word (fun x => isSolid_of_isSettingChar) hc.1 hw
  simp only [hw']
  split
  · exact .error _ _
  · next hkey =>
    refine (hR.skipBlank hd).bind fun d₁ d₁' hd₁ => ?_
    -- a setting has the position of its key, which stands at the same one in both texts
    rw [← hd₁.2, hpos hkey]
    split
    · next hvalue =>
      refine (hR.skipBlank (hR.next hd₁.1 (by decide) hvalue)).bind fun e e' he => ?_
      refine (hR.settingValue he.1).bind ?_
      rintro ⟨value, f⟩ ⟨value', f'⟩ ⟨rfl, hf⟩
      exact (hR.skipBlank hf).bind fun g g' hg => .ok ⟨rfl, hg.1⟩
    · exact .ok ⟨rfl, hd₁.1⟩

theorem settings (h : R c c') : Follows (Same R) c.settings c'.settings := by
  fun_induction Cursor.settings c generalizing c' with
  | case1 c e => exact .error e _
  | case2 c m d hm hcomma ih =>
    obtain ⟨⟨m', d'⟩, hm', rfl, hd⟩ := hR.setting h _ hm
    rw [settings_of_comma hm' ((hR.peek hd (by decide)).mp hcomma)]
    refine (ih (hR.next hd (by decide) hcomma)).map ?_
    rintro ⟨ms, e⟩ ⟨ms', e'⟩ ⟨rfl, he⟩
    exact ⟨rfl, he⟩
  | case3 c m d hm hcomma =>
    obtain ⟨⟨m', d'⟩, hm', rfl, hd⟩ := hR.setting h _ hm
    rw [settings_single hm' fun h' => hcomma ((hR.peek hd (by decide)).mpr h')]
    exact .ok ⟨rfl, hd⟩

theorem clauseSettings (h : R c c') : Follows (Same R) c.clauseSettings c'.clauseSettings := by
  unfold Cursor.clauseSettings
  by_cases hcolon : c.peek = some ':'
  · rw [if_pos hcolon, if_pos ((hR.peek h (by decide)).mp hcolon)]
    exact hR.settings (hR.next h (by decide) hcolon)
  · rw [if_neg hcolon, if_neg fun h' => hcolon ((hR.peek h (by decide)).mpr h')]
    exact .ok ⟨rfl, h⟩

theorem clause (h : R c c') : Follows (Same R) c.clause c'.clause := by
  unfold Cursor.clause
  by_cases hopen : c.peek = some '('
  · rw [if_pos hopen, if_pos ((hR.peek h (by decide)).mp hopen)]
    rcases hw : c.next.word isComponentChar with ⟨component, d⟩
    obtain ⟨d', hw', hd, -⟩ := hR.word
      (fun x hx => isSolid_of_isSettingChar (isSettingChar_of_isComponentChar hx)) (hR.next h (by decide) hopen) hw
    simp only [hw']
    refine (hR.clauseSettings hd).bind ?_
    rintro ⟨ms, e⟩ ⟨ms', e'⟩ ⟨rfl, he⟩
    refine (hR.skipBlank he).bind fun f f' hf => ?_
    exact (hR.expect (by decide) hf.1).bind fun g g' hg => .ok ⟨rfl, hg⟩
  · rw [if_neg hopen, if_neg fun h' => hopen ((hR.peek h (by decide)).mpr h')]
    exact .ok ⟨rfl, h⟩

/-! ## Chains -/

theorem mention (h : R c c') : Follows (Same R) c.mention c'.mention := by
  unfold Cursor.mention
  rcases hw : c.word isNameChar with ⟨name, d⟩
  obtain ⟨d', hw', hd, hpos⟩ := hR.word (fun x => isSolid_of_isNameChar) h hw
  simp only [hw']
  split
  · exact .error _ _
  · next hname =>
    rw [hpos hname]
    refine (hR.clause hd).bind ?_
    rintro ⟨⟨component, ms⟩, e⟩ ⟨⟨component', ms'⟩, e'⟩ ⟨hread, he⟩
    cases hread
    dsimp only
    split
    · exact .error _ _
    · exact .ok ⟨rfl, he⟩

theorem arrow (h : R c c') : Follows R c.arrow c'.arrow := by
  unfold Cursor.arrow
  split
  · next harrow =>
    have harrow : c.peek = some '-' ∧ c.next.peek = some '>' := by simpa using harrow
    have hnext := hR.next h (by decide) harrow.1
    have harrow' : (c'.peek == some '-' && c'.next.peek == some '>') = true := by
      rw [← hR.beq_peek h (by decide), ← hR.beq_peek hnext (by decide)]
      simpa using harrow
    rw [if_pos harrow']
    exact .ok (hR.next hnext (by decide) harrow.2)
  · exact .error _ _

theorem link (h : R c c') : Follows (Same R) c.link c'.link := by
  refine (hR.port h).bind ?_
  rintro ⟨source, d⟩ ⟨source', d'⟩ ⟨⟨rfl, hd⟩, hpos⟩
  dsimp only
  split
  · exact .error _ _
  · next hsource =>
    rw [hpos hsource]
    refine (hR.skipSpace hd).bind fun d₁ d₁' hd₁ => ?_
    refine (hR.arrow hd₁.1).bind fun d₂ d₂' hd₂ => ?_
    refine (hR.skipSpace hd₂).bind fun e e' he => ?_
    refine (hR.port he.1).bind ?_
    rintro ⟨target, f⟩ ⟨target', f'⟩ ⟨⟨rfl, hf⟩, -⟩
    simp only [← hR.beq_peek hf (show isSolid '(' = true by decide)]
    split
    · exact .error _ _
    · refine (hR.skipSpace hf).bind fun f₁ f₁' hf₁ => ?_
      refine (hR.mention hf₁.1).bind ?_
      rintro ⟨node, k⟩ ⟨node', k'⟩ ⟨rfl, hk⟩
      exact .ok ⟨rfl, hk⟩

theorem links (h : R c c') {ls : List Link} (hl : c.links = (ls, .ok d)) :
    ∃ d', c'.links = (ls, .ok d') ∧ R d d' := by
  fun_induction Cursor.links c generalizing c' ls with
  | case1 | case3 => cases hl
  | case2 c d₁ hs hend =>
    cases hl
    obtain ⟨d', hs', hd, hpeek, -⟩ := hR.skipSpace h _ hs
    exact ⟨d', links_of_end hs' (atStatementEnd_congr hpeek ▸ hend), hd⟩
  | case4 c d₁ hs hend l e hl₁ ls' r hr ih =>
    obtain ⟨d', hs', hd, hpeek, -⟩ := hR.skipSpace h _ hs
    obtain ⟨⟨l', e'⟩, hl', rfl, he⟩ := hR.link hd _ hl₁
    simp only [Prod.mk.injEq] at hl
    obtain ⟨rfl, rfl⟩ := hl
    obtain ⟨f', hf', hf⟩ := ih he hr
    refine ⟨f', ?_, hf⟩
    rw [links_of_link hs' (atStatementEnd_congr hpeek ▸ hend) hl', hf']

theorem chain (h : R c c') {ss : List Statement} (hc : c.chain = (ss, .ok d)) :
    ∃ d', c'.chain = (ss, .ok d') ∧ R d d' := by
  unfold Cursor.chain at hc
  split at hc
  · cases hc
  · next head e hm =>
    simp only [Prod.mk.injEq] at hc
    obtain ⟨rfl, hr⟩ := hc
    obtain ⟨⟨head', e'⟩, hm', rfl, he⟩ := hR.mention h _ hm
    obtain ⟨d', hl', hd⟩ := hR.links he (Prod.ext rfl hr)
    refine ⟨d', ?_, hd⟩
    simp only [Cursor.chain, hm', hl']

/-! ## Exports -/

theorem exportPort {direction : Direction} (h : R c c') :
    Follows (Same R) (Cursor.exportPort direction c) (Cursor.exportPort direction c') := by
  unfold Cursor.exportPort
  rcases hw : c.word isNameChar with ⟨node, d⟩
  obtain ⟨d', hw', hd, hpos⟩ := hR.word (fun x => isSolid_of_isNameChar) h hw
  simp only [hw']
  split
  · exact .error _ _
  · next hnode =>
    rw [hpos hnode]
    refine (hR.expect (by decide) hd).bind fun d₁ d₁' hd₁ => ?_
    refine (hR.port hd₁).bind ?_
    rintro ⟨port, e⟩ ⟨port', e'⟩ ⟨⟨rfl, he⟩, -⟩
    dsimp only
    split
    · exact .error _ _
    · refine (hR.expect (by decide) he).bind fun f f' hf => ?_
      rcases hx : f.word isNameChar with ⟨name, k⟩
      obtain ⟨k', hx', hk, -⟩ := hR.word (fun x => isSolid_of_isNameChar) hf hx
      simp only [hx']
      split
      · exact .error _ _
      · exact .ok ⟨rfl, hk⟩

theorem exportOption (h : R c c') : Follows (Same R) c.exportOption c'.exportOption := by
  unfold Cursor.exportOption
  rcases hw : c.word isNameChar with ⟨node, d⟩
  obtain ⟨d', hw', hd, hpos⟩ := hR.word (fun x => isSolid_of_isNameChar) h hw
  simp only [hw']
  split
  · exact .error _ _
  · next hnode =>
    rw [hpos hnode]
    refine (hR.expect (by decide) hd).bind fun e e' he => ?_
    rcases hx : e.word isNameChar with ⟨option, e₁⟩
    obtain ⟨e₁', hx', he₁, -⟩ := hR.word (fun x => isSolid_of_isNameChar) he hx
    simp only [hx']
    split
    · exact .error _ _
    · refine (hR.expect (by decide) he₁).bind fun f f' hf => ?_
      rcases hy : f.word isNameChar with ⟨name, k⟩
      obtain ⟨k', hy', hk, -⟩ := hR.word (fun x => isSolid_of_isNameChar) hf hy
      simp only [hy']
      split
      · exact .error _ _
      · exact .ok ⟨rfl, hk⟩

end Lockstep

/-! ## Statements -/

/-- Lockstep, and declarations with the property `P` are read alike. -/
structure Simulation (R : Cursor → Cursor → Prop) (P : Graph.Declaration → Prop) : Prop extends Lockstep R where
  declare {c c' d : Cursor} {k : Graph.Declaration} : R c c' → P k → c.declare = .ok (.declare k, d) →
    ∃ d', c'.declare = .ok (.declare k, d') ∧ R d d'

namespace Simulation

variable {R : Cursor → Cursor → Prop} {P : Graph.Declaration → Prop} (hR : Simulation R P) {c c' d : Cursor}
include hR

theorem keyword? {read : Cursor → Except ParseError (Statement × Cursor)}
    (hw : Cursor.keyword? w = some read) (h : R c c') {s : Statement} (hr : read c = .ok (s, d))
    (hP : ∀ k, s = .declare k → P k) : ∃ d', read c' = .ok (s, d') ∧ R d d' := by
  obtain ⟨direction, rfl⟩ | rfl | rfl := keyword?_eq_some hw
  · obtain ⟨⟨s', d'⟩, hr', rfl, hd⟩ := hR.exportPort h _ hr
    exact ⟨d', hr', hd⟩
  · obtain ⟨k, rfl, -⟩ := declare_eq_ok hr
    exact hR.declare h (hP k rfl) hr
  · obtain ⟨⟨s', d'⟩, hr', rfl, hd⟩ := hR.exportOption h _ hr
    exact ⟨d', hr', hd⟩

theorem statement (h : R c c') (hc : c.statement = (ss, .ok d)) (hP : ∀ k, .declare k ∈ ss → P k) :
    ∃ d', c'.statement = (ss, .ok d') ∧ R d d' := by
  unfold Cursor.statement at hc ⊢
  rcases hw : c.word isNameChar with ⟨w, e⟩
  obtain ⟨e', hw', he, -⟩ := hR.word (fun x => isSolid_of_isNameChar) h hw
  simp only [hw] at hc
  simp only [hw']
  by_cases hp : e.peek = some '='
  · rw [if_pos hp] at hc
    rw [if_pos ((hR.peek he (by decide)).mp hp)]
    cases hk : Cursor.keyword? w with
    | none =>
      rw [hk] at hc
      exact hR.chain h hc
    | some read =>
      simp only [hk] at hc
      split at hc
      · cases hc
      · next s f hr =>
        cases hc
        obtain ⟨d', hr', hd⟩ := hR.keyword? hk (hR.next he (by decide) hp) hr
          fun k hs => hP k (hs ▸ List.mem_singleton_self _)
        exact ⟨d', by simp only [hr'], hd⟩
  · rw [if_neg hp] at hc
    rw [if_neg fun h' => hp ((hR.peek he (by decide)).mpr h')]
    exact hR.chain h hc

theorem statements (h : R c c') (hc : c.statements = (ss, none)) (hP : ∀ k, .declare k ∈ ss → P k) :
    c'.statements = (ss, none) := by
  fun_induction Cursor.statements c generalizing c' ss with
  | case1 | case4 | case5 | case7 => cases hc
  | case2 c d hs hp =>
    cases hc
    obtain ⟨d', hs', -, hpeek, -⟩ := hR.skipSpace h _ hs
    exact statements_of_end hs' (hpeek ▸ hp)
  | case3 c d hs x hx hsep ih =>
    obtain ⟨d', hs', hd, hpeek, hline⟩ := hR.skipSpace h _ hs
    rw [statements_of_separator hs' (hpeek ▸ hx) hsep]
    refine ih ?_ hc hP
    rcases hsep with rfl | rfl
    · exact hline hx
    · exact hR.next hd (by decide) hx
  | case6 c d hs x hx hsep ss' e ht f he hend more fault hmore ih =>
    simp only [Prod.mk.injEq] at hc
    obtain ⟨rfl, rfl⟩ := hc
    obtain ⟨d', hs', hd, hpeek, -⟩ := hR.skipSpace h _ hs
    obtain ⟨e', ht', hee'⟩ := hR.statement hd ht fun k hk => hP k (List.mem_append_left _ hk)
    obtain ⟨f', he', hf, hfpeek, hline⟩ := hR.skipSpace hee' _ he
    have hmore' := ih (hR.next_of_atStatementEnd hf hfpeek hline hend) hmore
      fun k hk => hP k (List.mem_append_right _ hk)
    rw [statements_of_statement hs' (hpeek ▸ hx) hsep ht' he' (atStatementEnd_congr hfpeek ▸ hend), hmore']

end Simulation

end Cursor

end FlowCompiler
