import FlowCompiler.Proofs.Graph.Mentions

/-!
# What a text says where

A position that is recorded while a text is read is one that a cursor stands at, and what is recorded with it
stands in the text from there on.

- **Faults** (`Cursor.Blames`): a reader that fails blames a place between its start and the end of the text.
- **Statements** (`Statement.Placed`): the text says a name, a port or a key at the position that the statement
  has for it. `Cursor.statements_placed` is about all statements of a text, also those before a fault.
-/

namespace FlowCompiler

open List

variable {s : Statement} {ms : List Meta} {accept : Char → Bool} {m : Mention}

namespace Cursor

/-- The text says `w` at position `p`, which lies in what `c` has still to read. -/
def Says (c : Cursor) (p : Position) (w : List Char) : Prop := ∃ d, c.Reaches d ∧ d.pos = p ∧ w <+: d.rest

variable {c d : Cursor} {p : Position} {v w : List Char}

theorem Says.here (h : w <+: c.rest) : c.Says c.pos w := ⟨c, .refl c, rfl, h⟩

theorem Says.of_reaches (hcd : c.Reaches d) (h : d.Says p w) : c.Says p w := by
  obtain ⟨e, hde, hp, hw⟩ := h
  exact ⟨e, hcd.trans hde, hp, hw⟩

theorem Says.shorten (h : c.Says p w) (hvw : v <+: w) : c.Says p v := by
  obtain ⟨e, hce, hp, hw⟩ := h
  exact ⟨e, hce, hp, hvw.trans hw⟩

theorem Reaches.says_nil (h : c.Reaches d) : c.Says d.pos [] := ⟨d, h, rfl, nil_prefix⟩

/-! ## What is read stands in the text -/

theorem word_rest {w : String} (h : c.word accept = (w, d)) : c.rest = w.toList ++ d.rest := by
  cases h
  rw [String.toList_ofList]
  exact takeWhile_append_dropWhile.symm

theorem rest_of_peek {x : Char} (h : c.peek = some x) : c.rest = x :: c.next.rest := by
  rw [rest_next]
  exact eq_cons_of_mem_head? h

/-- The longest run of a class is followed by nothing or by a character outside of the class. -/
theorem word_stops {w : String} (h : c.word accept = (w, d)) : ∀ x ∈ d.rest.head?, accept x = false := by
  cases h
  intro x hx
  have hstop := head?_dropWhile_not accept c.rest
  rwa [show (c.rest.dropWhile accept).head? = some x from hx] at hstop

/-! ## Places of faults -/

/-- A fault is blamed on a place in what `c` has still to read. -/
def Blames {α : Type} (c : Cursor) (r : Except ParseError α) : Prop := ∀ e, r = .error e → c.Says e.pos []

namespace Blames

variable {α β : Type} {x : Except ParseError α}

theorem ok (a : α) : c.Blames (.ok a) := fun _ h => nomatch h

theorem error (h : c.Reaches d) (fault : Fault) : c.Blames (.error ⟨d.pos, fault⟩ : Except ParseError α) := by
  intro e he
  cases he
  exact h.says_nil

theorem bind {f : α → Except ParseError β} (hx : c.Blames x) (hf : ∀ a, x = .ok a → c.Blames (f a)) :
    c.Blames (x >>= f) := by
  intro e he
  cases x with
  | error =>
    cases he
    exact hx _ rfl
  | ok a => exact hf a rfl e he

theorem map {f : α → β} (hx : c.Blames x) : c.Blames (x.map f) := by
  intro e he
  cases x with
  | error =>
    cases he
    exact hx _ rfl
  | ok a => cases he

end Blames

theorem Reading.says_nil {α : Type} {n : Nat} {stop : α → Cursor} {r : Except ParseError α} {e : ParseError}
    (h : c.Reading n stop r) (he : r = .error e) : c.Says e.pos [] := by
  obtain ⟨d, hd, hp⟩ := h.blames e he
  exact ⟨d, hd, hp, nil_prefix⟩

theorem statements_blames (c : Cursor) : ∀ e ∈ c.statements.2, c.Says e.pos [] := by
  fun_induction statements c with
  | case1 c e h =>
    intro e' he
    cases he
    exact (skipSpace_reading c).says_nil h
  | case2 =>
    intro e he
    cases he
  | case3 c d h1 x hx hsep ih =>
    intro e he
    exact (ih e he).of_reaches ((skipSpace_reaches h1).trans (next_reaches d))
  | case4 c d h1 x hx hsep ss e ht =>
    intro e' he
    cases he
    exact (Reading.after (skipSpace_gets h1) (statement_reading d)).says_nil (congrArg Prod.snd ht)
  | case5 c d h1 x hx hsep ss e ht f hf =>
    intro e' he
    cases he
    have hce := (skipSpace_gets h1).trans (statement_gets ht)
    exact (Reading.after hce (skipSpace_reading e)).says_nil hf
  | case6 c d h1 x hx hsep ss e ht f hf hend more fault hmore ih =>
    intro e' he
    rw [hmore] at ih
    have hcf := (skipSpace_gets h1).trans ((statement_gets ht).trans (skipSpace_gets hf))
    exact (ih e' he).of_reaches (hcf.trans (next_gets f)).reaches
  | case7 c d h1 x hx hsep ss e ht f hf hend =>
    intro e' he
    cases he
    exact ((skipSpace_gets h1).trans ((statement_gets ht).trans (skipSpace_gets hf))).reaches.says_nil

end Cursor

/-! ## Places of statements -/

/-- The text says the name of a mention, its component if it has one, and the keys of its settings at the
positions that the mention has for them. -/
structure Mention.Placed (c : Cursor) (m : Mention) : Prop where
  name : c.Says m.pos m.name.toList
  component : m.component ≠ "" → c.Says m.pos (m.name.toList ++ '(' :: m.component.toList)
  settings : ∀ k ∈ m.settings, c.Says k.pos k.key.toList

structure Link.Placed (c : Cursor) (l : Link) : Prop where
  port : c.Says l.pos l.sourcePort.name.toList
  node : l.node.Placed c

/-- The text says a declaration at its position: name, kind, and what its contents are taken from, up to the
end of the statement. -/
def Graph.Declaration.Placed (c : Cursor) (d : Graph.Declaration) : Prop :=
  ∃ e raw r, c.Reaches e ∧ e.pos = d.pos ∧
    e.rest = d.name.toList ++ ':' :: (d.kind.toList ++ ':' :: (raw ++ r)) ∧
    (∀ x ∈ raw, isContentsChar x = true) ∧ (∀ x ∈ r.head?, isContentsChar x = false) ∧
    d.contents = String.ofList (Text.trimChars raw)

/-- The text says the parts of a statement at the positions that the statement has for them. -/
def Statement.Placed (c : Cursor) : Statement → Prop
  | .chain head links => head.Placed c ∧ ∀ l ∈ links, l.Placed c
  | .exportPort _ node port _ pos => c.Says pos (node.toList ++ '.' :: port.name.toList)
  | .declare d => d.Placed c
  | .exportOption node option name pos =>
    c.Says pos (node.toList ++ '.' :: (option.toList ++ ':' :: name.toList))

section Reaches

variable {c d : Cursor} (h : c.Reaches d)
include h

theorem Mention.Placed.of_reaches (hm : m.Placed d) : m.Placed c where
  name := hm.name.of_reaches h
  component hne := (hm.component hne).of_reaches h
  settings k hk := (hm.settings k hk).of_reaches h

theorem Link.Placed.of_reaches {l : Link} (hl : l.Placed d) : l.Placed c where
  port := hl.port.of_reaches h
  node := hl.node.of_reaches h

theorem Statement.Placed.of_reaches (hs : s.Placed d) : s.Placed c := by
  cases s with
  | chain head links => exact ⟨hs.1.of_reaches h, fun l hl => (hs.2 l hl).of_reaches h⟩
  | exportPort direction node port name pos => exact Cursor.Says.of_reaches h hs
  | declare k =>
    obtain ⟨e, raw, r, he, hrest⟩ := hs
    exact ⟨e, raw, r, h.trans he, hrest⟩
  | exportOption node option name pos => exact Cursor.Says.of_reaches h hs

end Reaches

namespace Cursor

variable {c d : Cursor}

theorem setting_spot {m : Meta} (h : c.setting = .ok (m, d)) : c.Says m.pos m.key.toList := by
  unfold setting at h
  obtain ⟨c1, h1, h⟩ := bind_eq_ok.1 h
  rcases hw : c1.word isSettingChar with ⟨key, d1⟩
  simp only [hw] at h
  have hspot : c.Says c1.pos key.toList :=
    .of_reaches (skipBlank_reaches h1) (.here ⟨d1.rest, (word_rest hw).symm⟩)
  split at h
  · cases h
  · obtain ⟨d2, -, h⟩ := bind_eq_ok.1 h
    split at h
    · obtain ⟨e1, -, h⟩ := bind_eq_ok.1 h
      obtain ⟨⟨v, e2⟩, -, h⟩ := bind_eq_ok.1 h
      obtain ⟨e3, -, h⟩ := bind_eq_ok.1 h
      cases h
      exact hspot
    · cases h
      exact hspot

theorem settings_spots (h : c.settings = .ok (ms, d)) : ∀ m ∈ ms, c.Says m.pos m.key.toList := by
  fun_induction settings c generalizing ms with
  | case1 => cases h
  | case2 c m d1 h1 _ ih =>
    obtain ⟨r, hs, ⟨⟩⟩ := map_eq_ok.mp h
    have hnext := ((setting_gets h1).trans (next_gets d1)).reaches
    exact forall_mem_cons.mpr ⟨setting_spot h1, fun k hk => (ih hs k hk).of_reaches hnext⟩
  | case3 c m d1 h1 _ =>
    cases h
    exact forall_mem_singleton.mpr (setting_spot h1)

theorem clauseSettings_spots (h : c.clauseSettings = .ok (ms, d)) : ∀ m ∈ ms, c.Says m.pos m.key.toList := by
  unfold clauseSettings at h
  split at h
  · exact fun m hm => (settings_spots h m hm).of_reaches (next_reaches c)
  · cases h
    exact forall_mem_nil _

/-- A component stands right behind the bracket that opens its clause. -/
theorem clause_spots {component : String} (h : c.clause = .ok ((component, ms), d)) :
    (component ≠ "" → '(' :: component.toList <+: c.rest) ∧ ∀ m ∈ ms, c.Says m.pos m.key.toList := by
  unfold clause at h
  split at h
  · next hopen =>
    rcases hw : c.next.word isComponentChar with ⟨component', d0⟩
    simp only [hw] at h
    obtain ⟨⟨ms', d1⟩, h1, h⟩ := bind_eq_ok.1 h
    obtain ⟨d2, -, h⟩ := bind_eq_ok.1 h
    obtain ⟨d3, -, h⟩ := bind_eq_ok.1 h
    cases h
    constructor
    · intro _
      rw [rest_of_peek hopen, word_rest hw]
      exact ⟨d0.rest, rfl⟩
    · have hd0 := (next_reaches c).trans (word_reaches hw)
      exact fun m hm => (clauseSettings_spots h1 m hm).of_reaches hd0
  · cases h
    exact ⟨fun hne => absurd rfl hne, forall_mem_nil _⟩

theorem mention_placed (h : c.mention = .ok (m, d)) : m.Placed c := by
  unfold mention at h
  rcases hw : c.word isNameChar with ⟨name, d0⟩
  simp only [hw] at h
  split at h
  · cases h
  · obtain ⟨⟨⟨component, ms⟩, d1⟩, h1, h⟩ := bind_eq_ok.1 h
    obtain ⟨hcomponent, hms⟩ := clause_spots h1
    dsimp only at h
    split at h
    · cases h
    · cases h
      refine ⟨.here ⟨d0.rest, (word_rest hw).symm⟩, fun hne => .here ?_, ?_⟩
      · -- no blank may stand between a name and its bracket
        rw [word_rest hw]
        exact (prefix_append_right_inj _).mpr (hcomponent hne)
      · exact fun k hk => (hms k hk).of_reaches (word_reaches hw)

theorem link_placed {l : Link} (h : c.link = .ok (l, d)) : l.pos = c.pos ∧ l.Placed c := by
  obtain ⟨f, hf, hm⟩ := link_eq_ok h
  have hnode := (mention_placed hm).of_reaches hf.reaches
  unfold link at h
  obtain ⟨⟨source, d1⟩, h1, h⟩ := bind_eq_ok.1 h
  obtain ⟨d0, hw, -⟩ := port_eq_ok h1
  dsimp only at h
  split at h
  · cases h
  · obtain ⟨d2, -, h⟩ := bind_eq_ok.1 h
    obtain ⟨d3, -, h⟩ := bind_eq_ok.1 h
    obtain ⟨d4, -, h⟩ := bind_eq_ok.1 h
    obtain ⟨⟨target, d5⟩, -, h⟩ := bind_eq_ok.1 h
    dsimp only at h
    split at h
    · cases h
    · obtain ⟨d6, -, h⟩ := bind_eq_ok.1 h
      obtain ⟨⟨node, d7⟩, -, h⟩ := bind_eq_ok.1 h
      cases h
      exact ⟨rfl, .here ⟨d0.rest, (word_rest hw).symm⟩, hnode⟩

theorem links_placed (c : Cursor) : ∀ l ∈ c.links.1, l.Placed c := by
  fun_induction links c with
  | case1 | case2 | case3 => exact forall_mem_nil _
  | case4 c d1 h1 _ l e h2 ls r hr ih =>
    rw [hr] at ih
    have hd1 := skipSpace_reaches h1
    have he := hd1.trans (link_reaches h2)
    exact forall_mem_cons.mpr
      ⟨(link_placed h2).2.of_reaches hd1, fun k hk => (ih k hk).of_reaches he⟩

theorem chain_placed (c : Cursor) : ∀ s ∈ c.chain.1, s.Placed c := by
  unfold chain
  split
  · exact forall_mem_nil _
  · next head e hm =>
    refine forall_mem_singleton.mpr ⟨mention_placed hm, fun l hl => ?_⟩
    exact (links_placed e l hl).of_reaches (mention_reaches hm)

theorem exportPort_placed {direction : Direction} (h : exportPort direction c = .ok (s, d)) : s.Placed c := by
  obtain ⟨node, e, port, f, name, hw, -, hdot, hport, -, -, -, rfl⟩ := exportPort_read h
  obtain ⟨f', hx, -⟩ := port_eq_ok hport
  refine Says.here ⟨f'.rest, ?_⟩
  rw [word_rest hw, rest_of_peek hdot, word_rest hx]
  simp

theorem declare_placed (h : declare c = .ok (s, d)) : s.Placed c := by
  obtain ⟨name, e, kind, f, raw, hw, -, hcolon, hx, -, hcolon', hy, -, rfl⟩ := declare_read h
  refine ⟨c, raw.toList, d.rest, .refl c, rfl, ?_, word_accepted hy, word_stops hy, rfl⟩
  rw [word_rest hw, rest_of_peek hcolon, word_rest hx, rest_of_peek hcolon', word_rest hy]

theorem exportOption_placed (h : exportOption c = .ok (s, d)) : s.Placed c := by
  obtain ⟨node, e, option, f, name, hw, -, hdot, hx, hcolon, hy, -, rfl⟩ := exportOption_read h
  refine Says.here ⟨d.rest, ?_⟩
  rw [word_rest hw, rest_of_peek hdot, word_rest hx, rest_of_peek hcolon, word_rest hy]
  simp

theorem keyword?_placed {w : String} {read : Cursor → Except ParseError (Statement × Cursor)}
    (hw : keyword? w = some read) (h : read c = .ok (s, d)) : s.Placed c := by
  obtain ⟨direction, rfl⟩ | rfl | rfl := keyword?_eq_some hw
  · exact exportPort_placed h
  · exact declare_placed h
  · exact exportOption_placed h

theorem statement_placed (c : Cursor) : ∀ s ∈ c.statement.1, s.Placed c := by
  obtain ⟨w, d, read, hw, -, hk, ⟨s, e, hr, hs⟩ | ⟨e, -, hs⟩⟩ | hs := statement_cases c
  · rw [hs]
    have hd := (word_reaches hw).trans (next_reaches d)
    exact forall_mem_singleton.mpr ((keyword?_placed hk hr).of_reaches hd)
  · rw [hs]
    exact forall_mem_nil _
  · rw [hs]
    exact chain_placed c

/-- Each statement of a text is placed in it, whether the text has a fault of form or not. -/
theorem statements_placed (c : Cursor) : ∀ s ∈ c.statements.1, s.Placed c := by
  fun_induction statements c with
  | case1 | case2 => exact forall_mem_nil _
  | case3 c d h1 x hx hsep ih =>
    exact fun s hs => (ih s hs).of_reaches ((skipSpace_reaches h1).trans (next_reaches d))
  | case4 c d h1 x hx hsep ss e ht | case5 c d h1 x hx hsep ss e ht | case7 c d h1 x hx hsep ss e ht =>
    intro s hs
    have hplaced := statement_placed d s (by rw [ht]; exact hs)
    exact hplaced.of_reaches (skipSpace_reaches h1)
  | case6 c d h1 x hx hsep ss e ht f hf hend more fault hmore ih =>
    rw [hmore] at ih
    have hd := skipSpace_reaches h1
    have hnext : c.Reaches f.next :=
      hd.trans ((statement_reaches ht).trans ((skipSpace_reaches hf).trans (next_reaches f)))
    refine forall_mem_append.mpr ⟨fun s hs => ?_, fun s hs => (ih s hs).of_reaches hnext⟩
    exact (statement_placed d s (by rw [ht]; exact hs)).of_reaches hd

end Cursor

end FlowCompiler
