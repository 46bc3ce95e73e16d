import FlowCompiler.Graph.Fault

/-!
# Reading a flow text

A cursor is the text still to be read and the position of its first character. Every reader takes a part
from the front of the text and moves the position over it, and blames a place that it came to: it neither
looks back nor makes up a position (`Cursor.Reading`). The loops over statements, links and settings end
because their readers take at least one character.
-/

namespace FlowCompiler

/-- The text still to be read, and the position of its first character. -/
structure Cursor where
  rest : List Char
  pos : Position
deriving DecidableEq, Repr

namespace Cursor

def ofList (cs : List Char) : Cursor := ⟨cs, Position.start⟩

def peek (c : Cursor) : Option Char := c.rest.head?

/-- Passes over the next character. At the end of the text nothing happens. -/
def next (c : Cursor) : Cursor :=
  match c.rest with
  | [] => c
  | x :: r => ⟨r, c.pos.advance x⟩

/-- Passes over the longest run of characters of a class. -/
def skipWhile (c : Cursor) (accept : Char → Bool) : Cursor :=
  ⟨c.rest.dropWhile accept, c.pos.advanceAll (c.rest.takeWhile accept)⟩

/-- Reads the longest run of characters of a class. -/
def word (c : Cursor) (accept : Char → Bool) : String × Cursor :=
  (String.ofList (c.rest.takeWhile accept), c.skipWhile accept)

/-- Passes over the character `x`, which has to come next. -/
def expect (c : Cursor) (x : Char) (fault : Fault) : Except ParseError Cursor :=
  if c.peek = some x then .ok c.next else .error ⟨c.pos, fault⟩

/-- A statement ends before a line feed or a comma, and at the end of the text. -/
def atStatementEnd (c : Cursor) : Bool :=
  match c.peek with
  | none => true
  | some x => x == '\n' || x == ','

/-- Passes over blanks and a comment up to the line end. A carriage return is a blank before a line feed and
a fault elsewhere. -/
def skipSpace (c : Cursor) : Except ParseError Cursor :=
  go c.rest c.pos
where
  go : List Char → Position → Except ParseError Cursor
    | [], p => .ok ⟨[], p⟩
    | x :: r, p =>
      if x = ' ' ∨ x = '\t' then go r (p.advance x)
      else if x = '\r' then
        if r.head? = some '\n' then go r (p.advance x) else .error ⟨p, .loneCarriageReturn⟩
      else if x = '#' then .ok (skipWhile ⟨x :: r, p⟩ (· ≠ '\n'))
      else .ok ⟨x :: r, p⟩

@[simp] theorem rest_next (c : Cursor) : c.next.rest = c.rest.tail := by
  unfold next; split <;> simp_all

/-! ## How far readers go -/

/-- `d` stands behind a part of what `c` has still to read. -/
def Reaches (c d : Cursor) : Prop := ∃ cs, c.rest = cs ++ d.rest ∧ d.pos = c.pos.advanceAll cs

/-- `d` stands behind `n` or more characters of what `c` has still to read. -/
structure Gets (c : Cursor) (n : Nat) (d : Cursor) : Prop where
  reaches : c.Reaches d
  length_le : d.rest.length + n ≤ c.rest.length

/-- A reader that starts at `c` stops behind `n` or more characters, or blames a place on its way. -/
structure Reading {α : Type} (c : Cursor) (n : Nat) (stop : α → Cursor) (r : Except ParseError α) :
    Prop where
  gets : ∀ a, r = .ok a → c.Gets n (stop a)
  blames : ∀ e, r = .error e → ∃ d, c.Reaches d ∧ d.pos = e.pos

variable {α β : Type} {c d e : Cursor} {m n : Nat} {stop : α → Cursor} {stop' : β → Cursor}
  {r : Except ParseError α}

namespace Reaches

theorem refl (c : Cursor) : c.Reaches c := ⟨[], rfl, rfl⟩

theorem trans (h₁ : c.Reaches d) (h₂ : d.Reaches e) : c.Reaches e := by
  obtain ⟨cs, hc, hp⟩ := h₁
  obtain ⟨ds, hd, hq⟩ := h₂
  refine ⟨cs ++ ds, by rw [hc, hd, List.append_assoc], ?_⟩
  rw [hq, hp, Position.advanceAll_append]

end Reaches

namespace Gets

theorem refl (c : Cursor) : c.Gets 0 c := ⟨.refl c, Nat.le_refl _⟩

theorem trans (h₁ : c.Gets m d) (h₂ : d.Gets n e) : c.Gets (m + n) e :=
  ⟨h₁.reaches.trans h₂.reaches, by have := h₁.length_le; have := h₂.length_le; omega⟩

theorem cons (x : Char) (r : List Char) (p : Position) : Gets ⟨x :: r, p⟩ 1 ⟨r, p.advance x⟩ :=
  ⟨⟨[x], rfl, rfl⟩, Nat.le_refl _⟩

end Gets

namespace Reading

theorem ok {a : α} (h : c.Gets n (stop a)) : c.Reading n stop (.ok a) where
  gets _ ha := Except.ok.inj ha ▸ h
  blames _ he := by cases he

theorem error (h : c.Reaches d) (fault : Fault) : c.Reading n stop (.error ⟨d.pos, fault⟩) where
  gets _ ha := by cases ha
  blames _ he := Except.error.inj he ▸ ⟨d, h, rfl⟩

/-- What a part blames, the whole blames. -/
theorem of_error {e : ParseError} (h : c.Reading n stop r) (he : r = .error e) :
    c.Reading m stop' (.error e) where
  gets _ ha := by cases ha
  blames _ he' := Except.error.inj he' ▸ h.blames e he

theorem after (hd : c.Gets m d) (h : d.Reading n stop r) : c.Reading (m + n) stop r where
  gets a ha := hd.trans (h.gets a ha)
  blames e he := by
    obtain ⟨f, hf, hp⟩ := h.blames e he
    exact ⟨f, hd.reaches.trans hf, hp⟩

theorem weaken (h : c.Reading n stop r) (hmn : m ≤ n) : c.Reading m stop r where
  gets a ha := ⟨(h.gets a ha).reaches, by have := (h.gets a ha).length_le; omega⟩
  blames := h.blames

theorem bind {f : α → Except ParseError β} (h : c.Reading m stop r)
    (hf : ∀ a, r = .ok a → c.Gets m (stop a) → c.Reading n stop' (f a)) : c.Reading n stop' (r >>= f) := by
  cases r with
  | error e => exact h.of_error rfl
  | ok a => exact hf a rfl (h.gets a rfl)

theorem map {f : α → β} (h : c.Reading n stop r) (hf : ∀ a, stop' (f a) = stop a) :
    c.Reading n stop' (r.map f) := by
  cases r with
  | error e => exact h.of_error rfl
  | ok a => exact .ok (hf a ▸ h.gets a rfl)

end Reading

theorem next_gets (c : Cursor) : c.Gets 0 c.next := by
  unfold next
  split
  · exact .refl c
  · next x r h => exact ⟨⟨[x], h, rfl⟩, by simp [h]⟩

theorem next_le (c : Cursor) : c.next.rest.length ≤ c.rest.length := by simp

theorem next_lt {x : Char} (h : c.peek = some x) : c.next.rest.length < c.rest.length := by
  unfold peek at h
  cases hr : c.rest with
  | nil => simp [hr] at h
  | cons y r => simp [hr]

theorem next_reaches (c : Cursor) : c.Reaches c.next := (next_gets c).reaches

theorem skipWhile_gets (c : Cursor) (accept : Char → Bool) : c.Gets 0 (c.skipWhile accept) where
  reaches := ⟨c.rest.takeWhile accept, List.takeWhile_append_dropWhile.symm, rfl⟩
  length_le := (List.dropWhile_sublist accept).length_le

section Word

variable {accept : Char → Bool} {w : String}

theorem word_gets (h : c.word accept = (w, d)) : c.Gets 0 d := by
  cases h
  exact skipWhile_gets c accept

theorem word_reaches (h : c.word accept = (w, d)) : c.Reaches d := (word_gets h).reaches

/-- A word that is not empty was read. -/
theorem word_lt (h : c.word accept = (w, d)) (hw : w ≠ "") : d.rest.length < c.rest.length := by
  cases h
  have hne : c.rest.takeWhile accept ≠ [] := by
    intro h0
    apply hw
    rw [h0]
  have hlen := congrArg List.length (List.takeWhile_append_dropWhile (p := accept) (l := c.rest))
  rw [List.length_append] at hlen
  have := List.length_pos_iff.mpr hne
  simp only [skipWhile]
  omega

theorem word_gets_one (h : c.word accept = (w, d)) (hw : w ≠ "") : c.Gets 1 d :=
  ⟨word_reaches h, word_lt h hw⟩

end Word

theorem expect_reading (c : Cursor) (x : Char) (fault : Fault) : c.Reading 0 id (c.expect x fault) := by
  unfold expect
  split
  · exact .ok (next_gets c)
  · exact .error (.refl c) fault

theorem skipSpace_go_reading (cs : List Char) (p : Position) :
    Reading ⟨cs, p⟩ 0 id (skipSpace.go cs p) := by
  induction cs generalizing p with
  | nil => exact .ok (.refl _)
  | cons x r ih =>
    have hr : Reading ⟨x :: r, p⟩ 0 id (skipSpace.go r (p.advance x)) :=
      .weaken (.after (.cons x r p) (ih _)) (Nat.zero_le _)
    rw [skipSpace.go]
    split
    · exact hr
    · split
      · split
        · exact hr
        · exact .error (d := ⟨x :: r, p⟩) (.refl _) _
      · split
        · exact .ok (skipWhile_gets ⟨x :: r, p⟩ _)
        · exact .ok (.refl _)

theorem skipSpace_reading (c : Cursor) : c.Reading 0 id c.skipSpace := skipSpace_go_reading c.rest c.pos

theorem skipSpace_gets (h : c.skipSpace = .ok d) : c.Gets 0 d := (skipSpace_reading c).gets d h

theorem skipSpace_le (h : c.skipSpace = .ok d) : d.rest.length ≤ c.rest.length := (skipSpace_gets h).length_le

theorem skipSpace_reaches (h : c.skipSpace = .ok d) : c.Reaches d := (skipSpace_gets h).reaches

/-- Passes over blanks, comments and line ends: inside a component clause a line end is a blank. -/
def skipBlank (c : Cursor) : Except ParseError Cursor :=
  match _h : c.skipSpace with
  | .error e => .error e
  | .ok d => if _hd : d.peek = some '\n' then skipBlank d.next else .ok d
termination_by c.rest.length
decreasing_by exact Nat.lt_of_lt_of_le (next_lt _hd) (skipSpace_le _h)

theorem skipBlank_reading (c : Cursor) : c.Reading 0 id c.skipBlank := by
  fun_induction skipBlank c with
  | case1 c e h => exact (skipSpace_reading c).of_error h
  | case2 c d h hd ih => exact .after ((skipSpace_gets h).trans (next_gets d)) ih
  | case3 c d h hd => exact .ok (skipSpace_gets h)

theorem skipBlank_reaches (h : c.skipBlank = .ok d) : c.Reaches d := ((skipBlank_reading c).gets d h).reaches

end Cursor

end FlowCompiler
