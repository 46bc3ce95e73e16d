import FlowCompiler.Proofs.Graph.Reach
import FlowCompiler.Proofs.Graph.Scanner
import FlowCompiler.Proofs.Text.Literals

/-!
# Reading ends on every source

`Scan.Reads` says that a scan ends as a reader does: with the same result and at the same cursor, or with the same
error, so that it neither overruns the text nor stalls. There is a rule for each way to build a scan, and a loop goes
on where an iteration leaves less to read (`Reads.loop_again`). Every scan reads what the reader of its name reads
(`reads_…`, and `passes_…` where there is no result). For a loop, one lemma says what an iteration does
(`reads_…Turn`) and one what the whole does, by induction along the reader. The scanner takes links and statements
into the graph one by one, while the readers give all of them at once, up to a fault; `Graph.take` and
`Cursor.takeLinks` say what the two make of a graph.

Main statement: `Graph.scan_total`. Reading ends on every source of bytes, truncated or malformed as it may be, with a
flow or with an error. No iteration of a loop goes on without having read something, and nothing is stepped over
behind the end.
-/

namespace FlowCompiler

open List

variable {cs : List Char} {w : String} {z : Char}

/-- A cursor that has less to read stands at a greater offset. -/
theorem Cursor.Reaches.bytesLeft_lt {c d : Cursor} (h : c.Reaches d) (hlt : d.rest.length < c.rest.length) :
    d.bytesLeft < c.bytesLeft := by
  obtain ⟨cs, hcs, -⟩ := h
  have hne : Text.bytesOf cs ≠ [] := by
    cases cs with
    | nil =>
      rw [hcs] at hlt
      exact absurd hlt (Nat.lt_irrefl _)
    | cons x cs => exact fun hnil => Text.charBytes_ne_nil x (append_eq_nil_iff.mp hnil).1
  rw [Cursor.bytesLeft, Cursor.bytesLeft, hcs, Text.bytesOf_append, length_append]
  exact Nat.lt_add_of_pos_left (length_pos_iff.mpr hne)

namespace Scan

variable {α β σ : Type} {x y : Scan α} {f : α → Scan β} {c d : Cursor} {a : α} {p : Prop} [Decidable p]
  {r r' : Except ParseError (α × Cursor)}

/-- From the cursor `c`, the scan ends as a reader does. -/
def Reads (x : Scan α) (c : Cursor) (r : Except ParseError (α × Cursor)) : Prop := x c = .of r

/-- From the cursor `c`, the scan passes over a part of the text, as a reader without a result does. -/
def Passes (x : Scan Unit) (c : Cursor) (r : Except ParseError Cursor) : Prop := Reads x c (r.map ((), ·))

namespace Reads

theorem pure (a : α) (c : Cursor) : Reads (Pure.pure a) c (.ok (a, c)) := rfl

theorem fail (e : ParseError) (c : Cursor) : Reads (Scan.fail e : Scan α) c (.error e) := rfl

theorem refuse (fault : Fault) (c : Cursor) : Reads (Scan.refuse fault : Scan α) c (.error ⟨c.pos, fault⟩) := rfl

theorem save (c : Cursor) : Reads Scan.save c (.ok (c, c)) := rfl

theorem restore (c d : Cursor) : Reads (Scan.restore d) c (.ok ((), d)) := rfl

theorem pos (c : Cursor) : Reads Scan.pos c (.ok (c.pos, c)) := rfl

theorem eof (c : Cursor) : Reads Scan.eof c (.ok (c.peek.isNone, c)) := rfl

theorem bind {k : α × Cursor → Except ParseError (β × Cursor)} (h : Reads x c r)
    (hf : ∀ a d, r = .ok (a, d) → Reads (f a) d (k (a, d))) : Reads (x >>= f) c (r >>= k) := by
  show (x c).bind _ = _
  rw [show x c = .of r from h]
  cases r with
  | error e => rfl
  | ok q => exact hf q.1 q.2 rfl

/-- The rule for a reader of which the result is known. -/
theorem bind_ok {r : Except ParseError (β × Cursor)} (h : Reads x c (.ok (a, d))) (hf : Reads (f a) d r) :
    Reads (x >>= f) c r := by
  refine h.bind (k := fun _ => r) fun a' d' heq => ?_
  cases heq
  exact hf

theorem map (h : Reads x c r) (g : α → β) :
    Reads (x >>= fun a => Pure.pure (g a)) c (r.map fun q => (g q.1, q.2)) := by
  have hbind := h.bind (f := fun a => Pure.pure (g a)) (k := fun q => .ok (g q.1, q.2)) fun a d _ => rfl
  cases r <;> exact hbind

theorem cond {b : Bool} (hb : b = true ↔ p) (hx : p → Reads x c r) (hy : ¬ p → Reads y c r') :
    Reads (if b = true then x else y) c (if p then r else r') := by
  by_cases hp : p
  · rw [if_pos (hb.mpr hp), if_pos hp]
    exact hx hp
  · rw [if_neg (mt hb.mp hp), if_neg hp]
    exact hy hp

/-- The rule for a test that reads nothing. -/
theorem ite {b : Bool} {t : Scan Bool} (h : Reads t c (.ok (b, c))) (hb : b = true ↔ p)
    (hx : p → Reads x c r) (hy : ¬ p → Reads y c r') :
    Reads (t >>= fun b => if b = true then x else y) c (if p then r else r') :=
  h.bind_ok (cond hb hx hy)

theorem lift (r : Except ParseError α) (c : Cursor) : Reads (Scan.lift r) c (r >>= fun a => .ok (a, c)) := by
  cases r <;> rfl

theorem bind_lift {r : Except ParseError α} {k : α → Except ParseError (β × Cursor)} (hf : ∀ a, Reads (f a) c (k a)) :
    Reads (Scan.lift r >>= f) c (r >>= k) := by
  cases r with
  | error e => rfl
  | ok a => exact hf a

/-- A character other than the zero character is seen where it comes next. -/
theorem sees (hz : z ≠ '\x00') (c : Cursor) : Reads (Scan.sees z) c (.ok (c.peek == some z, c)) := by
  have hsees : (c.peek.getD '\x00' == z) = (c.peek == some z) := by
    cases c.peek with
    | none => exact beq_false_of_ne hz.symm
    | some x => rfl
  rw [← hsees]
  rfl

theorem seesBehind (hz : z ≠ '\x00') (c : Cursor) :
    Reads (Scan.seesBehind z) c (.ok (c.next.peek == some z, c)) := by
  have hsees : (c.rest.tail.head?.getD '\x00' == z) = (c.next.peek == some z) := by
    rw [Cursor.peek, Cursor.rest_next]
    cases c.rest.tail.head? with
    | none => exact beq_false_of_ne hz.symm
    | some x => rfl
  rw [← hsees]
  rfl

theorem next (h : c.peek = some z) : Reads Scan.next c (.ok (z, c.next)) := by
  rw [Reads, Scan.next, h]
  rfl

theorem since (hcs : c.rest = cs ++ d.rest) : Reads (Scan.since c) d (.ok (String.ofList cs, d)) := by
  have htake : c.rest.take (c.rest.length - d.rest.length) = cs := by
    rw [hcs, length_append, Nat.add_sub_cancel, take_left]
  rw [Reads, Scan.since, htake]
  rfl

section Loop

variable {body : σ → Scan (Turn σ β)} {m m' : σ} {b : β}

theorem loop_error {e : ParseError} (h : Reads (body m) c (.error e)) : Reads (Scan.loop body m) c (.error e) := by
  show Scan.loop body m c = _
  rw [Scan.loop, h]
  rfl

theorem loop_leave (h : Reads (body m) c (.ok (.leave b, d))) : Reads (Scan.loop body m) c (.ok (b, d)) := by
  show Scan.loop body m c = _
  rw [Scan.loop, h]
  rfl

/-- An iteration that shortens the text goes on. -/
theorem loop_again {r : Except ParseError (β × Cursor)} (h : Reads (body m) c (.ok (.again m', d)))
    (hreach : c.Reaches d) (hlt : d.rest.length < c.rest.length) (hr : Reads (Scan.loop body m') d r) :
    Reads (Scan.loop body m) c r := by
  show Scan.loop body m c = _
  rw [Scan.loop, h]
  exact (if_pos (hreach.bytesLeft_lt hlt)).trans hr

end Loop

end Reads

theorem Passes.bind {f : Unit → Scan β} {r : Except ParseError Cursor} {k : Cursor → Except ParseError (β × Cursor)}
    {x : Scan Unit} (h : Passes x c r) (hf : ∀ d, r = .ok d → Reads (f ()) d (k d)) : Reads (x >>= f) c (r >>= k) := by
  cases r with
  | error e =>
    refine Reads.bind h (k := fun q => k q.2) fun _ d heq => ?_
    cases heq
  | ok d => exact Reads.bind_ok h (hf d rfl)

/-! ## Words and blanks -/

theorem reads_skipWhile (accept : Char → Bool) (c : Cursor) :
    Reads (Scan.skipWhile accept) c (.ok ((), c.skipWhile accept)) := by
  obtain ⟨cs, p⟩ := c
  induction cs generalizing p with
  | nil => exact .loop_leave rfl
  | cons x r ih =>
    have hturn : Scan.skipWhileTurn accept () ⟨x :: r, p⟩ =
        if accept x then .done (.again (), ⟨r, p.advance x⟩) else .done (.leave (), ⟨x :: r, p⟩) := by
      cases hx : accept x <;> simp [Scan.skipWhileTurn, Scan.eof, Scan.peek, Scan.next, Cursor.peek, Cursor.next, hx,
        bind, Ending.bind, Pure.pure]
    rw [Cursor.skipWhile]
    cases hx : accept x with
    | false =>
      rw [hx] at hturn
      rw [dropWhile_cons_of_neg (by simp [hx]), takeWhile_cons_of_neg (by simp [hx])]
      exact .loop_leave hturn
    | true =>
      rw [hx] at hturn
      rw [dropWhile_cons_of_pos hx, takeWhile_cons_of_pos hx]
      exact .loop_again hturn ⟨[x], rfl, rfl⟩ (Nat.lt_succ_self _) (ih (p.advance x))

theorem reads_word {accept : Char → Bool} (hw : c.word accept = (w, d)) :
    Reads (Scan.word accept) c (.ok (w, d)) := by
  cases hw
  refine (Reads.save c).bind_ok ((reads_skipWhile accept c).bind_ok ?_)
  exact .since takeWhile_append_dropWhile.symm

theorem passes_expect {x : Char} (hx : x ≠ '\x00') (fault : Fault) (c : Cursor) :
    Passes (Scan.expect x fault) c (c.expect x fault) := by
  have hmap : (c.expect x fault).map ((), ·) =
      if c.peek = some x then .ok ((), c.next) else .error ⟨c.pos, fault⟩ := by
    unfold Cursor.expect
    split <;> rfl
  rw [Passes, hmap]
  refine .ite (Reads.sees hx c) beq_iff_eq (fun hp => ?_) fun _ => ?_
  · exact (Reads.next hp).bind_ok (.pure () _)
  · exact .refuse _ c

theorem reads_atStatementEnd (c : Cursor) :
    Reads Scan.atStatementEnd c (.ok (c.atStatementEnd, c)) := by
  have hend : c.atStatementEnd = (c.peek.isNone || c.peek == some '\n' || c.peek == some ',') := by
    unfold Cursor.atStatementEnd
    split
    · next h => rw [h]; rfl
    · next h => rw [h]; rfl
  rw [hend]
  refine (Reads.eof c).bind_ok ?_
  refine (Reads.sees (by decide) c).bind_ok ?_
  refine (Reads.sees (by decide) c).bind_ok ?_
  exact .pure _ c

theorem reads_spaceTurn (x : Char) (r : List Char) (p : Position) :
    Reads (Scan.spaceTurn ()) ⟨x :: r, p⟩
      (if x = ' ' ∨ x = '\t' then .ok (.again (), ⟨r, p.advance x⟩)
      else if x = '\r' then
        if r.head? = some '\n' then .ok (.again (), ⟨r, p.advance x⟩) else .error ⟨p, .loneCarriageReturn⟩
      else if x = '#' then .ok (.again (), Cursor.skipWhile ⟨x :: r, p⟩ (· ≠ '\n'))
      else .ok (.leave (), ⟨x :: r, p⟩)) := by
  have hpeek : ∀ y, (Cursor.peek ⟨x :: r, p⟩ == some y) = true ↔ x = y := fun y => by simp [Cursor.peek]
  refine (Reads.eof _).bind_ok ?_
  refine (Reads.sees (by decide) _).bind_ok ((Reads.sees (by decide) _).bind_ok ?_)
  refine .cond (by rw [Bool.or_eq_true, hpeek, hpeek]) (fun _ => rfl) fun _ => ?_
  refine .ite (Reads.sees (by decide) _) (hpeek _) (fun _ => ?_) fun _ => ?_
  · exact .ite (Reads.seesBehind (by decide) _) beq_iff_eq (fun _ => rfl) fun _ => .refuse _ _
  · refine .ite (Reads.sees (by decide) _) (hpeek _) (fun _ => ?_) fun _ => .pure _ _
    exact (reads_skipWhile _ _).bind_ok (.pure _ _)

/-- A comment goes up to a line feed or to the end. -/
theorem peek_skipWhile_newline (c : Cursor) : ∀ x ∈ (c.skipWhile (· ≠ '\n')).peek, x = '\n' := by
  intro x hx
  have hstop := head?_dropWhile_not (· ≠ '\n') c.rest
  rw [show (c.rest.dropWhile (· ≠ '\n')).head? = some x from hx] at hstop
  simpa using hstop

/-- Before a line feed and at the end there are no blanks. -/
theorem reads_skipSpace_stop (h : ∀ x ∈ c.peek, x = '\n') : Reads Scan.skipSpace c (.ok ((), c)) := by
  refine .loop_leave ?_
  obtain ⟨cs, p⟩ := c
  cases cs with
  | nil => exact (Reads.eof _).bind_ok (.pure _ _)
  | cons x r =>
    obtain rfl := h x rfl
    exact reads_spaceTurn '\n' r p

theorem passes_skipSpace (c : Cursor) : Passes Scan.skipSpace c c.skipSpace := by
  obtain ⟨cs, p⟩ := c
  show Passes _ _ (Cursor.skipSpace.go cs p)
  induction cs generalizing p with
  | nil => exact reads_skipSpace_stop fun x hx => absurd hx (Option.not_mem_none x)
  | cons x r ih =>
    have hturn := reads_spaceTurn x r p
    unfold Cursor.skipSpace.go
    split_ifs at hturn ⊢ with hblank hreturn hline hcomment
    · exact .loop_again hturn ⟨[x], rfl, rfl⟩ (Nat.lt_succ_self _) (ih _)
    · exact .loop_again hturn ⟨[x], rfl, rfl⟩ (Nat.lt_succ_self _) (ih _)
    · exact .loop_error hturn
    · -- behind the comment there is one more iteration, which leaves
      have hlt : (Cursor.skipWhile ⟨x :: r, p⟩ (· ≠ '\n')).rest.length < (x :: r).length := by
        rw [Cursor.skipWhile, dropWhile_cons_of_pos (by rw [hcomment]; decide)]
        exact Nat.lt_succ_of_le (dropWhile_sublist _).length_le
      refine .loop_again hturn (Cursor.skipWhile_gets _ _).reaches hlt ?_
      exact reads_skipSpace_stop (peek_skipWhile_newline ⟨x :: r, p⟩)
    · exact .loop_leave hturn

theorem reads_blankTurn (c : Cursor) : Reads (Scan.blankTurn ()) c
    (c.skipSpace >>= fun d => if d.peek = some '\n' then .ok (.again (), d.next) else .ok (.leave (), d)) := by
  refine (passes_skipSpace c).bind fun d _ => ?_
  refine .ite (Reads.sees (by decide) d) beq_iff_eq (fun hp => ?_) fun _ => .pure _ d
  exact (Reads.next hp).bind_ok (.pure _ _)

theorem passes_skipBlank (c : Cursor) : Passes Scan.skipBlank c c.skipBlank := by
  fun_induction Cursor.skipBlank c with
  | case1 c e h =>
    have hturn := reads_blankTurn c
    rw [h] at hturn
    exact .loop_error hturn
  | case2 c d h hd ih =>
    have hturn := reads_blankTurn c
    simp only [h, bind, Except.bind, if_pos hd] at hturn
    have hreach := (Cursor.skipSpace_reaches h).trans (Cursor.next_reaches d)
    exact .loop_again hturn hreach (Nat.lt_of_lt_of_le (Cursor.next_lt hd) (Cursor.skipSpace_le h)) ih
  | case3 c d h hd =>
    have hturn := reads_blankTurn c
    simp only [h, bind, Except.bind, if_neg hd] at hturn
    exact .loop_leave hturn

end Scan

open Scan

/-! ## Ports -/

theorem reads_index {c : Cursor} (h : c.peek = some '[') : Reads Scan.index c c.index := by
  unfold Cursor.index
  rcases hw : c.next.word Char.isDigit with ⟨digits, d⟩
  refine (Reads.pos c).bind_ok ((Reads.next h).bind_ok ((reads_word hw).bind_ok ?_))
  refine (Reads.sees (by decide) d).bind_ok (.cond Iff.rfl (fun _ => .fail _ d) fun hd => ?_)
  have hclose : d.peek = some ']' := by
    by_contra hne
    exact hd (by simp [hne])
  refine (Reads.next hclose).bind_ok ?_
  split
  · exact .pure _ _
  · exact .fail _ _

theorem reads_port (c : Cursor) : Reads Scan.port c c.port := by
  unfold Cursor.port
  rcases hw : c.word isNameChar with ⟨name, d⟩
  refine (reads_word hw).bind_ok ?_
  refine (Reads.sees (by decide) d).bind_ok (.cond Iff.rfl (fun _ => .pure _ d) fun hd => ?_)
  have hopen : d.peek = some '[' := by
    by_contra hne
    exact hd (by simp [hne])
  exact (reads_index hopen).map fun i => (⟨name, some i⟩ : PortRef)

/-! ## Settings and component clauses -/

theorem reads_quotedTurn {c : Cursor} {x : Char} {p : Position} (hline : x ≠ '\n')
    {r : Except ParseError (Turn Unit String × Cursor)}
    (h : Reads (Scan.quotedChar c x) ⟨cs, p.advance x⟩ r) : Reads (Scan.quotedTurn c ()) ⟨x :: cs, p⟩ r := by
  refine (Reads.eof _).bind_ok ((Reads.sees (by decide) _).bind_ok ?_)
  rw [if_neg (by simpa [Cursor.peek] using hline)]
  exact (Reads.next rfl).bind_ok h

theorem reads_quotedChar_escape (c : Cursor) (e : Char) (cs : List Char) (p : Position) :
    Reads (Scan.quotedChar c '\\') ⟨e :: cs, p⟩
      (if isEscapable e then .ok (.again (), ⟨cs, p.advance e⟩) else .error ⟨p, .badEscape⟩) := by
  rw [Scan.quotedChar, if_neg (by decide), if_pos rfl]
  refine (Reads.eof _).bind_ok ((Reads.pos _).bind_ok ((Reads.next rfl).bind_ok ?_))
  exact .cond Iff.rfl (fun _ => .pure _ _) fun _ => .fail _ _

theorem map_quoted (pre w : List Char) (r : Except ParseError (List Char × Cursor)) :
    ((r.map fun q => (w ++ q.1, q.2)).map fun q => (String.ofList (pre ++ q.1), q.2)) =
      r.map fun q => (String.ofList (pre ++ w ++ q.1), q.2) := by
  cases r with
  | error e => rfl
  | ok q => simp [Except.map]

/-- The rest of a quoted value that starts at `c` and of which `pre` was read. -/
theorem reads_quotedRest {c : Cursor} (pre : List Char) (hpre : c.rest = pre ++ cs) (p : Position) :
    Reads (Scan.loop (Scan.quotedTurn c) ()) ⟨cs, p⟩
      ((Cursor.quotedRest c.pos cs p).map fun q => (String.ofList (pre ++ q.1), q.2)) := by
  fun_induction Cursor.quotedRest c.pos cs p generalizing pre with
  | case1 p => exact .loop_error rfl
  | case2 r p => exact .loop_error rfl
  | case3 p r h =>
    refine .loop_leave (reads_quotedTurn (by decide) ((Reads.since ?_).bind_ok (.pure _ _)))
    rw [hpre, append_assoc]
    rfl
  | case4 p => exact .loop_error (reads_quotedTurn (by decide) rfl)
  | case5 p e r he _ _ ih =>
    have hloop := ih (pre ++ ['\\', e]) (by rw [hpre, append_assoc]; rfl)
    rw [← map_quoted] at hloop
    refine .loop_again (reads_quotedTurn (by decide) ?_) ⟨['\\', e], rfl, rfl⟩ (by simp) hloop
    have hchar := reads_quotedChar_escape c e r (p.advance '\\')
    rwa [if_pos he] at hchar
  | case6 p e r he =>
    refine .loop_error (reads_quotedTurn (by decide) ?_)
    have hchar := reads_quotedChar_escape c e r (p.advance '\\')
    rwa [if_neg he] at hchar
  | case7 x r p hline hquote hslash ih =>
    have hloop := ih (pre ++ [x]) (by rw [hpre, append_assoc]; rfl)
    rw [← map_quoted] at hloop
    refine .loop_again (reads_quotedTurn hline ?_) ⟨[x], rfl, rfl⟩ (Nat.lt_succ_self _) hloop
    rw [Scan.quotedChar, if_neg hquote, if_neg hslash]
    exact .pure _ _

theorem reads_quoted {c : Cursor} (h : c.peek = some '"') : Reads Scan.quoted c c.quoted := by
  obtain ⟨cs, p⟩ := c
  cases cs with
  | nil => cases h
  | cons x r =>
    cases h
    exact reads_quotedRest (c := ⟨'"' :: r, p⟩) ['"'] rfl (p.advance '"')

theorem reads_settingValue (c : Cursor) : Reads Scan.settingValue c c.settingValue := by
  refine .ite (Reads.sees (by decide) c) beq_iff_eq reads_quoted fun _ => ?_
  exact reads_word rfl

theorem reads_setting (c : Cursor) : Reads Scan.setting c c.setting := by
  refine (passes_skipBlank c).bind fun c _ => (Reads.pos c).bind_ok ?_
  rcases hw : c.word isSettingChar with ⟨key, d⟩
  refine (reads_word hw).bind_ok ?_
  dsimp only
  split
  · exact .fail _ _
  refine (passes_skipBlank d).bind fun d _ => ?_
  refine .ite (Reads.sees (by decide) d) beq_iff_eq (fun hp => ?_) fun _ => .pure _ d
  refine (Reads.next hp).bind_ok ((passes_skipBlank d.next).bind fun e _ => ?_)
  exact (reads_settingValue e).bind fun value e _ => (passes_skipBlank e).bind fun e _ => .pure _ e

theorem reads_settingsTurn (ms : List Meta) (c : Cursor) :
    Reads (Scan.settingsTurn ms) c (c.setting >>= fun q =>
      if q.2.peek = some ',' then .ok (.again (ms ++ [q.1]), q.2.next) else .ok (.leave (ms ++ [q.1]), q.2)) := by
  refine (reads_setting c).bind fun m d _ => ?_
  refine .ite (Reads.sees (by decide) d) beq_iff_eq (fun hp => ?_) fun _ => .pure _ d
  exact (Reads.next hp).bind_ok (.pure _ _)

theorem reads_settingsLoop (ms : List Meta) (c : Cursor) :
    Reads (Scan.loop Scan.settingsTurn ms : Scan (List Meta)) c (c.settings.map fun q => (ms ++ q.1, q.2)) := by
  fun_induction Cursor.settings c generalizing ms with
  | case1 c e h =>
    have hturn := reads_settingsTurn ms c
    rw [h] at hturn
    exact .loop_error hturn
  | case2 c m d h hp ih =>
    have hturn := reads_settingsTurn ms c
    simp only [h, bind, Except.bind, if_pos hp] at hturn
    have hreach := ((Cursor.setting_gets h).trans (Cursor.next_gets d)).reaches
    have hlt := Nat.lt_of_le_of_lt (Cursor.next_le d) (Cursor.setting_lt h)
    have hmap : ((d.next.settings.map fun q => (m :: q.1, q.2)).map fun q => (ms ++ q.1, q.2)) =
        d.next.settings.map fun q => (ms ++ [m] ++ q.1, q.2) := by
      cases d.next.settings with
      | error e => rfl
      | ok q => simp [Except.map]
    have hloop := ih (ms ++ [m])
    rw [← hmap] at hloop
    exact .loop_again hturn hreach hlt hloop
  | case3 c m d h hp =>
    have hturn := reads_settingsTurn ms c
    simp only [h, bind, Except.bind, if_neg hp] at hturn
    exact .loop_leave hturn

theorem reads_settings (c : Cursor) : Reads Scan.settings c c.settings := by
  have hloop : Reads Scan.settings c _ := reads_settingsLoop [] c
  have hmap : (c.settings.map fun q => ([] ++ q.1, q.2)) = c.settings := by cases c.settings <;> rfl
  rwa [hmap] at hloop

theorem reads_clauseSettings (c : Cursor) :
    Reads Scan.clauseSettings c c.clauseSettings := by
  refine .ite (Reads.sees (by decide) c) beq_iff_eq (fun hp => ?_) fun _ => .pure _ c
  exact (Reads.next hp).bind_ok (reads_settings c.next)

theorem reads_clause (c : Cursor) : Reads Scan.clause c c.clause := by
  refine .ite (Reads.sees (by decide) c) beq_iff_eq (fun hp => ?_) fun _ => .pure _ c
  rcases hw : c.next.word isComponentChar with ⟨component, d⟩
  refine (Reads.next hp).bind_ok ((reads_word hw).bind_ok ?_)
  refine (reads_clauseSettings d).bind fun ms d _ => (passes_skipBlank d).bind fun d _ => ?_
  exact (passes_expect (by decide) _ d).bind fun d _ => .pure _ d

/-! ## Chains -/

theorem reads_mention (c : Cursor) : Reads Scan.mention c c.mention := by
  unfold Cursor.mention
  rcases hw : c.word isNameChar with ⟨name, d⟩
  refine (Reads.pos c).bind_ok ((reads_word hw).bind_ok ?_)
  dsimp only
  split
  · exact .fail _ _
  refine (reads_clause d).bind fun r d _ => ?_
  exact .cond Iff.rfl (fun _ => .fail _ _) fun _ => .pure _ _

theorem passes_arrow (c : Cursor) : Passes Scan.arrow c c.arrow := by
  have hmap : c.arrow.map ((), ·) =
      if (c.peek == some '-' && c.next.peek == some '>') = true then .ok ((), c.next.next)
      else .error ⟨c.pos, .noArrow⟩ := by
    unfold Cursor.arrow
    split <;> rfl
  rw [Passes, hmap]
  refine (Reads.sees (by decide) c).bind_ok ((Reads.seesBehind (by decide) c).bind_ok ?_)
  refine .cond Iff.rfl (fun h => ?_) fun _ => .refuse _ c
  rw [Bool.and_eq_true, beq_iff_eq, beq_iff_eq] at h
  exact (Reads.next h.1).bind_ok ((Reads.next h.2).bind_ok (.pure _ _))

theorem reads_link (c : Cursor) : Reads Scan.link c c.link := by
  refine (Reads.pos c).bind_ok ((reads_port c).bind fun source d _ => ?_)
  dsimp only
  split
  · exact .fail _ _
  refine (passes_skipSpace d).bind fun d _ => (passes_arrow d).bind fun d _ => (passes_skipSpace d).bind fun e _ => ?_
  refine (Reads.pos e).bind_ok ((reads_port e).bind fun target f _ => (Reads.sees (by decide) f).bind_ok ?_)
  refine .cond Iff.rfl (fun _ => .fail _ _) fun _ => ?_
  exact (passes_skipSpace f).bind fun f _ => (reads_mention f).bind fun node f _ => .pure _ f

/-- What the links at `c` make of the graph: those before a fault are taken first. -/
def Cursor.takeLinks (g : Graph) (source : Nat) (c : Cursor) : Except ParseError (Graph × Cursor) := do
  let g ← g.addLinks source c.links.1
  let d ← c.links.2
  .ok (g, d)

theorem reads_linksTurn (g : Graph) (source : Nat) (c : Cursor) :
    Reads (Scan.linksTurn (g, source)) c (c.skipSpace >>= fun d =>
      if d.atStatementEnd = true then .ok (.leave g, d)
      else d.link >>= fun q => g.addMention q.1.node >>= fun r =>
        r.1.addConnection ⟨source, q.1.sourcePort, r.2, q.1.targetPort, q.1.pos⟩ >>= fun g =>
          .ok (.again (g, r.2), q.2)) := by
  refine (passes_skipSpace c).bind fun d _ => ?_
  refine .ite (reads_atStatementEnd d) Iff.rfl (fun _ => .pure _ d) fun _ => ?_
  refine (reads_link d).bind fun l e _ => ?_
  refine Reads.bind_lift fun r => Reads.bind_lift fun g => .pure _ e

theorem reads_links (g : Graph) (source : Nat) (c : Cursor) :
    Reads (Scan.loop Scan.linksTurn (g, source) : Scan Graph) c (c.takeLinks g source) := by
  unfold Cursor.takeLinks
  fun_induction Cursor.links c generalizing g source with
  | case1 c e hs =>
    have hturn := reads_linksTurn g source c
    rw [hs] at hturn
    exact .loop_error hturn
  | case2 c d hs hend =>
    have hturn := reads_linksTurn g source c
    simp only [hs, bind, Except.bind, if_pos hend] at hturn
    exact .loop_leave hturn
  | case3 c d hs hend e hl =>
    have hturn := reads_linksTurn g source c
    simp only [hs, hl, bind, Except.bind, if_neg hend] at hturn
    exact .loop_error hturn
  | case4 c d hs hend l e hl ls r hr ih =>
    have hturn := reads_linksTurn g source c
    simp only [hs, hl, bind, Except.bind, if_neg hend] at hturn
    have hreach := (Cursor.skipSpace_reaches hs).trans (Cursor.link_reaches hl)
    have hlt := Nat.lt_of_lt_of_le (Cursor.link_lt hl) (Cursor.skipSpace_le hs)
    rw [hr] at ih
    dsimp only
    rw [Graph.addLinks]
    cases hm : g.addMention l.node with
    | error err =>
      rw [hm] at hturn
      exact .loop_error hturn
    | ok v =>
      simp only [hm] at hturn
      cases hc : v.1.addConnection ⟨source, l.sourcePort, v.2, l.targetPort, l.pos⟩ with
      | error err =>
        rw [hc] at hturn
        simp only [bind, Except.bind, hc]
        exact .loop_error hturn
      | ok g' =>
        rw [hc] at hturn
        simp only [bind, Except.bind, hc]
        exact .loop_again hturn hreach hlt (ih g' v.2)

/-- What statements make of the graph, where they may be cut off at a fault: it is met after those before it. -/
def Graph.take (g : Graph) (r : List Statement × Except ParseError Cursor) : Except ParseError (Graph × Cursor) := do
  let g ← g.addAll r.1
  let d ← r.2
  .ok (g, d)

theorem Graph.take_chain (g : Graph) (c : Cursor) :
    g.take c.chain = c.mention >>= fun q => g.addMention q.1 >>= fun r => q.2.takeLinks r.1 r.2 := by
  unfold Cursor.chain
  cases c.mention with
  | error e => rfl
  | ok q =>
    simp only [take, addAll, add, Cursor.takeLinks, bind_assoc]
    rfl

theorem reads_chain (g : Graph) (c : Cursor) : Reads (Scan.chain g) c (g.take c.chain) := by
  rw [Graph.take_chain]
  exact (reads_mention c).bind fun head d _ => Reads.bind_lift fun r => reads_links r.1 r.2 d

/-! ## Exports and declarations -/

theorem reads_exportPort (direction : Direction) (c : Cursor) :
    Reads (Scan.exportPort direction) c (c.exportPort direction) := by
  unfold Cursor.exportPort
  rcases hw : c.word isNameChar with ⟨node, d⟩
  refine (Reads.pos c).bind_ok ((reads_word hw).bind_ok ?_)
  dsimp only
  split
  · exact .fail _ _
  refine (passes_expect (by decide) _ d).bind fun d _ => (reads_port d).bind fun port d _ => ?_
  dsimp only
  split
  · exact .refuse _ d
  refine (passes_expect (by decide) _ d).bind fun d _ => ?_
  rcases hw : d.word isNameChar with ⟨name, d⟩
  refine (reads_word hw).bind_ok ?_
  dsimp only
  split
  · exact .refuse _ d
  · exact .pure _ d

theorem reads_declare (c : Cursor) : Reads Scan.declare c c.declare := by
  unfold Cursor.declare
  rcases hw : c.word isNameChar with ⟨name, d⟩
  refine (Reads.pos c).bind_ok ((reads_word hw).bind_ok ?_)
  dsimp only
  split
  · exact .fail _ _
  refine (passes_expect (by decide) _ d).bind fun d _ => ?_
  rcases hw : d.word isNameChar with ⟨kind, d⟩
  refine (reads_word hw).bind_ok ?_
  dsimp only
  split
  · exact .refuse _ d
  refine (passes_expect (by decide) _ d).bind fun d _ => ?_
  rcases hw : d.word isContentsChar with ⟨raw, d⟩
  refine (reads_word hw).bind_ok ?_
  dsimp only
  split
  · exact .fail _ _
  · exact .pure _ d

theorem reads_exportOption (c : Cursor) : Reads Scan.exportOption c c.exportOption := by
  unfold Cursor.exportOption
  rcases hw : c.word isNameChar with ⟨node, d⟩
  refine (Reads.pos c).bind_ok ((reads_word hw).bind_ok ?_)
  dsimp only
  split
  · exact .fail _ _
  refine (passes_expect (by decide) _ d).bind fun d _ => ?_
  rcases hw : d.word isNameChar with ⟨option, d⟩
  refine (reads_word hw).bind_ok ?_
  dsimp only
  split
  · exact .refuse _ d
  refine (passes_expect (by decide) _ d).bind fun d _ => ?_
  rcases hw : d.word isNameChar with ⟨name, d⟩
  refine (reads_word hw).bind_ok ?_
  dsimp only
  split
  · exact .refuse _ d
  · exact .pure _ d

/-! ## Statements -/

theorem reads_keyword? (w : String) :
    (Scan.keyword? w : Option (Scan Statement)) = none ∧ Cursor.keyword? w = none ∨
      ∃ x read, Scan.keyword? w = some x ∧ Cursor.keyword? w = some read ∧
        ∀ c, Reads (x : Scan Statement) c (read c) := by
  unfold Scan.keyword? Cursor.keyword?
  split
  · exact .inr ⟨_, _, rfl, rfl, reads_exportPort .input⟩
  split
  · exact .inr ⟨_, _, rfl, rfl, reads_exportPort .output⟩
  split
  · exact .inr ⟨_, _, rfl, rfl, reads_declare⟩
  split
  · exact .inr ⟨_, _, rfl, rfl, reads_exportOption⟩
  · exact .inl ⟨rfl, rfl⟩

theorem Graph.take_keyword (g : Graph) {c d : Cursor} (hw : c.word isNameChar = (w, d))
    (hp : d.peek = some '=') {read : Cursor → Except ParseError (Statement × Cursor)}
    (hread : Cursor.keyword? w = some read) :
    g.take c.statement = read d.next >>= fun q => g.add q.1 >>= fun g => .ok (g, q.2) := by
  simp only [Cursor.statement, hw, if_pos hp, hread]
  cases read d.next with
  | error e => rfl
  | ok q =>
    simp only [take, addAll, bind_assoc]
    rfl

theorem Cursor.statement_of_not_keyword {c d : Cursor} (hw : c.word isNameChar = (w, d))
    (h : (if d.peek = some '=' then keyword? w else none) = none) : c.statement = c.chain := by
  simp only [statement, hw, h]

theorem reads_statement (g : Graph) (c : Cursor) :
    Reads (Scan.statement g) c (g.take c.statement) := by
  rcases hw : c.word isNameChar with ⟨w, d⟩
  refine (Reads.save c).bind_ok ((reads_word hw).bind_ok ((Reads.sees (by decide) d).bind_ok ?_))
  have hchain := (Reads.restore d c).bind_ok (f := fun _ => Scan.chain g) (reads_chain g c)
  by_cases hp : d.peek = some '='
  · rw [if_pos (beq_iff_eq.mpr hp)]
    rcases reads_keyword? w with ⟨hx, hnone⟩ | ⟨x, read, hx, hread, hreads⟩
    · rw [hx, Cursor.statement_of_not_keyword hw (by rw [if_pos hp, hnone])]
      exact hchain
    · rw [hx, g.take_keyword hw hp hread]
      exact (Reads.next hp).bind_ok ((hreads d.next).bind fun st e _ => .lift _ e)
  · rw [if_neg (mt beq_iff_eq.mp hp), Cursor.statement_of_not_keyword hw (if_neg hp)]
    exact hchain

theorem reads_statementsTurn (g : Graph) (c : Cursor) :
    Reads (Scan.statementsTurn g) c (c.skipSpace >>= fun d =>
      if d.peek = none then .ok (.leave g, d)
      else if d.peek = some '\n' ∨ d.peek = some ',' then .ok (.again g, d.next)
      else g.take d.statement >>= fun q => q.2.skipSpace >>= fun f =>
        if f.atStatementEnd = true then .ok (.again q.1, f.next) else .error ⟨f.pos, .trailing⟩) := by
  refine (passes_skipSpace c).bind fun d _ => ?_
  refine .ite (Reads.eof d) Option.isNone_iff_eq_none (fun _ => .pure _ d) fun _ => ?_
  refine (Reads.sees (by decide) d).bind_ok ((Reads.sees (by decide) d).bind_ok ?_)
  refine .cond (by rw [Bool.or_eq_true, beq_iff_eq, beq_iff_eq]) (fun hp => ?_) fun _ => ?_
  · rcases hp with hp | hp
    · exact (Reads.next hp).bind_ok (.pure _ _)
    · exact (Reads.next hp).bind_ok (.pure _ _)
  refine (reads_statement g d).bind fun g e _ => (passes_skipSpace e).bind fun f _ => ?_
  refine .ite (reads_atStatementEnd f) Iff.rfl (fun hend => ?_) fun _ => ?_
  · refine (Reads.eof f).bind_ok ?_
    cases hp : f.peek with
    | none =>
      have hnext : f.next = f := by rw [Cursor.next, head?_eq_none_iff.mp hp]
      rw [hnext]
      exact .pure _ f
    | some x => exact (Reads.next hp).bind_ok (.pure _ _)
  · exact .refuse _ f

/-- An iteration that reads a statement: a contradiction in it ends the loop before a fault of form does. -/
theorem reads_statements_statement {g : Graph} {c d : Cursor} {x : Char} {ss : List Statement}
    {r : Except ParseError Cursor} {k : Graph → Except ParseError Graph} (hs : c.skipSpace = .ok d)
    (hp : d.peek = some x) (hx : ¬ (x = '\n' ∨ x = ',')) (ht : d.statement = (ss, r))
    (h : ∀ g', Reads (Scan.statementsTurn g) c (r >>= fun e => e.skipSpace >>= fun f =>
        if f.atStatementEnd = true then .ok (.again g', f.next) else .error ⟨f.pos, .trailing⟩) →
      ∃ e, Reads (Scan.loop Scan.statementsTurn g : Scan Graph) c (k g' >>= fun g => .ok (g, e))) :
    ∃ e, Reads (Scan.loop Scan.statementsTurn g : Scan Graph) c
      ((g.addAll ss >>= k) >>= fun g => .ok (g, e)) := by
  have hturn := reads_statementsTurn g c
  have hsep : ¬ (d.peek = some '\n' ∨ d.peek = some ',') := by simpa [hp] using hx
  rw [hs] at hturn
  change Reads _ c (if d.peek = none then _ else _) at hturn
  rw [if_neg (by simp [hp]), if_neg hsep, ht, Graph.take] at hturn
  cases ha : g.addAll ss with
  | error e =>
    rw [ha] at hturn
    exact ⟨c, .loop_error hturn⟩
  | ok g' =>
    rw [ha] at hturn
    refine h g' ?_
    cases r with
    | error e => exact hturn
    | ok e => exact hturn

/-- What the statements at `c` make of the graph: a contradiction between them is reported before a fault of form. -/
def Cursor.takeStatements (g : Graph) (c : Cursor) : Except ParseError Graph := do
  let g ← g.addAll c.statements.1
  match c.statements.2 with
  | some e => .error e
  | none => .ok g

theorem addAll_append (g : Graph) (ss ts : List Statement) :
    g.addAll (ss ++ ts) = g.addAll ss >>= fun g => g.addAll ts := by
  induction ss generalizing g with
  | nil => rfl
  | cons s ss ih => simp only [cons_append, Graph.addAll, ih, bind_assoc]

theorem reads_statements (g : Graph) (c : Cursor) : ∃ d,
    Reads (Scan.loop Scan.statementsTurn g : Scan Graph) c (c.takeStatements g >>= fun g => .ok (g, d)) := by
  unfold Cursor.takeStatements
  fun_induction Cursor.statements c generalizing g with
  | case1 c e hs =>
    have hturn := reads_statementsTurn g c
    rw [hs] at hturn
    exact ⟨c, .loop_error hturn⟩
  | case2 c d hs hp =>
    have hturn := reads_statementsTurn g c
    simp only [hs, bind, Except.bind, if_pos hp] at hturn
    exact ⟨d, .loop_leave hturn⟩
  | case3 c d hs x hp hx ih =>
    have hturn := reads_statementsTurn g c
    have hsep : d.peek = some '\n' ∨ d.peek = some ',' := by simpa [hp] using hx
    simp only [hs, bind, Except.bind, if_pos hsep] at hturn
    rw [if_neg (by simp [hp])] at hturn
    obtain ⟨e, hloop⟩ := ih g
    have hreach := (Cursor.skipSpace_reaches hs).trans (Cursor.next_reaches d)
    exact ⟨e, .loop_again hturn hreach (Nat.lt_of_lt_of_le (Cursor.next_lt hp) (Cursor.skipSpace_le hs)) hloop⟩
  | case4 c d hs x hp hx ss e ht =>
    exact reads_statements_statement hs hp hx ht fun g' hturn => ⟨c, .loop_error hturn⟩
  | case5 c d hs x hp hx ss e ht e' hf =>
    refine reads_statements_statement hs hp hx ht fun g' hturn => ⟨c, .loop_error ?_⟩
    simpa only [bind, Except.bind, hf] using hturn
  | case6 c d hs x hp hx ss e ht f hf hend more fault hmore ih =>
    dsimp only
    rw [addAll_append, bind_assoc]
    refine reads_statements_statement hs hp hx ht fun g' hturn => ?_
    simp only [bind, Except.bind, hf, if_pos hend] at hturn
    have hreach := (Cursor.skipSpace_reaches hs).trans ((Cursor.statement_reaches ht).trans
      ((Cursor.skipSpace_reaches hf).trans (Cursor.next_reaches f)))
    have hlt : f.next.rest.length < c.rest.length := by
      have := Cursor.next_le f
      have := Cursor.skipSpace_le hf
      have := Cursor.statement_lt ht
      have := Cursor.skipSpace_le hs
      omega
    rw [hmore] at ih
    obtain ⟨e', hloop⟩ := ih g'
    exact ⟨e', Reads.loop_again hturn hreach hlt hloop⟩
  | case7 c d hs x hp hx ss e ht f hf hend =>
    refine reads_statements_statement hs hp hx ht fun g' hturn => ⟨c, .loop_error (e := ⟨f.pos, .trailing⟩) ?_⟩
    simpa only [bind, Except.bind, hf, if_neg hend] using hturn

theorem Graph.parse_eq_takeStatements (text : String) :
    parse text = (Cursor.ofList text.toList).takeStatements {} >>= checkTyped := by
  unfold parse Statement.ofText Cursor.takeStatements
  rcases (Cursor.ofList text.toList).statements with ⟨ss, fault⟩
  dsimp only
  cases addAll {} ss with
  | error e => rfl
  | ok g => cases fault <;> rfl

theorem reads_flow (c : Cursor) : ∃ d,
    Reads Scan.flow c ((c.takeStatements {} >>= Graph.checkTyped) >>= fun g => .ok (g, d)) := by
  obtain ⟨d, hloop⟩ := reads_statements {} c
  have hflow : Reads Scan.flow c _ :=
    hloop.bind (k := fun q => q.1.checkTyped >>= fun g => .ok (g, q.2)) fun g e _ => .lift g.checkTyped e
  rw [bind_assoc] at hflow
  exact ⟨d, by rwa [bind_assoc]⟩

/-- Reading a flow ends on every source of bytes, with a flow or with an error. -/
theorem Graph.scan_total (bytes : List UInt8) :
    (∃ g, Graph.scan (Text.ofBytes (bytes.map UInt8.toNat)) = .done g ∧
      parse (String.ofList (Text.ofBytes (bytes.map UInt8.toNat))) = .ok g) ∨
    ∃ e, Graph.scan (Text.ofBytes (bytes.map UInt8.toNat)) = .refused e ∧
      parse (String.ofList (Text.ofBytes (bytes.map UInt8.toNat))) = .error e := by
  generalize Text.ofBytes (bytes.map UInt8.toNat) = text
  rw [parse_eq_takeStatements, String.toList_ofList]
  obtain ⟨d, hflow⟩ := reads_flow (Cursor.ofList text)
  rw [Graph.scan, show Scan.flow (Cursor.ofList text) = _ from hflow]
  cases Cursor.takeStatements {} (Cursor.ofList text) >>= checkTyped with
  | error e => exact .inr ⟨e, rfl, rfl⟩
  | ok g => exact .inl ⟨g, rfl, rfl⟩

end FlowCompiler
