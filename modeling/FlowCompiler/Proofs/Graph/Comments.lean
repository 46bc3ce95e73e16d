import FlowCompiler.Proofs.Graph.Positions
import FlowCompiler.Proofs.Graph.Simulation

/-!
# Comments

A comment is put at the end of a line of a text. The two texts are read side by side (`Commented`): up to the end
of the line they are the same, there the one has a comment before its line end, and behind it they are the same
again, positions included. Blanks are passed together with the comment, and no name, setting or quoted value goes
over the end of a line. Contents of declarations are taken as they stand, `#` included.

Main statement: `Graph.parse_comment_iff`. The text with the comment is read as the same graph exactly if the line
does not end in the contents of a declaration.
-/

namespace FlowCompiler

open List

variable {r u : List Char} {p : Position} {k : Graph.Declaration} {c c' d : Cursor} {x : Char}
  {ss : List Statement}

/-- A line ends between two parts of a text: the text ends there, or a line end follows, of which a carriage
return is a part. -/
def EndsLine (before after : List Char) : Prop :=
  after = [] ∨ ['\r', '\n'] <+: after ∨ ['\n'] <+: after ∧ before.getLast? ≠ some '\r'

/-- A text breaks off in the contents of a declaration that it starts. -/
def Graph.Declaration.EndsIn (before : List Char) (d : Graph.Declaration) : Prop :=
  ∃ pre raw, before = pre ++ (d.name.toList ++ ':' :: (d.kind.toList ++ ':' :: raw)) ∧
    d.pos = Position.start.advanceAll pre ∧ ∀ x ∈ raw, isContentsChar x = true

instance (before after : List Char) : Decidable (EndsLine before after) :=
  inferInstanceAs (Decidable (_ ∨ _ ∨ _ ∧ _))

/-- What a declaration starts with in a text. -/
def Graph.Declaration.heading (d : Graph.Declaration) : List Char :=
  d.name.toList ++ ':' :: (d.kind.toList ++ [':'])

/-- A declaration is searched for at every place of the text. -/
theorem Graph.Declaration.endsIn_iff {before : List Char} {d : Graph.Declaration} :
    d.EndsIn before ↔ ∃ i ∈ List.range (before.length + 1), d.heading <+: before.drop i ∧
      d.pos = Position.start.advanceAll (before.take i) ∧
      ((before.drop i).drop d.heading.length).all isContentsChar = true := by
  simp only [EndsIn, all_eq_true]
  constructor
  · rintro ⟨pre, raw, rfl, hpos, hall⟩
    have hdrop : (pre ++ (d.name.toList ++ ':' :: (d.kind.toList ++ ':' :: raw))).drop pre.length =
        d.heading ++ raw := by simp [heading]
    refine ⟨pre.length, by simp, ?_, ?_, ?_⟩
    · rw [hdrop]
      exact prefix_append _ _
    · rwa [take_left]
    · rwa [hdrop, drop_left]
  · rintro ⟨i, -, ⟨raw, hraw⟩, hpos, hall⟩
    refine ⟨before.take i, raw, ?_, hpos, ?_⟩
    · have hsplit := take_append_drop i before
      rw [← hraw] at hsplit
      simpa [heading] using hsplit.symm
    · rwa [← hraw, drop_left] at hall

instance (before : List Char) (d : Graph.Declaration) : Decidable (d.EndsIn before) :=
  decidable_of_iff' _ Graph.Declaration.endsIn_iff

theorem Position.advanceAll_line (p : Position) {cs : List Char} (h : '\n' ∉ cs) :
    (p.advanceAll cs).line = p.line := by
  induction cs generalizing p with
  | nil => rfl
  | cons x cs ih =>
    rw [mem_cons, not_or] at h
    rw [advanceAll_cons, ih _ h.2, advance, if_neg (Ne.symm h.1)]

namespace Cursor

/-- A cursor in a text and one in the text with a comment: both in front of the comment, both at the end of its
line, or both behind it. -/
inductive Commented (before note after : List Char) : Cursor → Cursor → Prop
  | ahead {u : List Char} {p : Position} (h : (ofList before).Reaches ⟨u, p⟩) :
    Commented before note after ⟨u ++ after, p⟩ ⟨u ++ (' ' :: '#' :: (note ++ after)), p⟩
  | ended {r : List Char} {p p' : Position} (hr : ∀ x ∈ r.head?, x = '\n') (h : p.line = p'.line) :
    Commented before note after ⟨r, p⟩ ⟨r, p'⟩
  | same (c : Cursor) : Commented before note after c c

/-- What blanks and a comment lead to. -/
def Settled (R : Cursor → Cursor → Prop) (d d' : Cursor) : Prop :=
  R d d' ∧ d.peek = d'.peek ∧ (d.peek = some '\n' → R d.next d'.next)

variable {before note after : List Char}

theorem settled_ahead (h : (ofList before).Reaches ⟨x :: u, p⟩) :
    Settled (Commented before note after) ⟨x :: u ++ after, p⟩ ⟨x :: u ++ (' ' :: '#' :: (note ++ after)), p⟩ :=
  ⟨.ahead h, rfl, fun _ => .ahead (h.trans (next_reaches ⟨x :: u, p⟩))⟩

theorem settled_ended {p' : Position} (hr : ∀ x ∈ r.head?, x = '\n') (h : p.line = p'.line) :
    Settled (Commented before note after) ⟨r, p⟩ ⟨r, p'⟩ := by
  refine ⟨.ended hr h, rfl, fun hline => ?_⟩
  cases r with
  | nil => cases hline
  | cons x r =>
    obtain rfl := hr x rfl
    have hpos : p.advance '\n' = p'.advance '\n' := by simp [Position.advance, h]
    simp only [next, hpos]
    exact .same _

theorem head?_of_endsLine (h : EndsLine before after) : ∀ x ∈ after.head?, x = '\r' ∨ x = '\n' := by
  rcases h with rfl | ⟨r, rfl⟩ | ⟨⟨r, rfl⟩, -⟩
  · exact fun x hx => nomatch hx
  · rintro x ⟨⟩
    exact .inl rfl
  · rintro x ⟨⟩
    exact .inr rfl

theorem head?_dropWhile_line (cs : List Char) : ∀ x ∈ (cs.dropWhile (· ≠ '\n')).head?, x = '\n' := by
  intro x hx
  have := head?_dropWhile_not (· ≠ '\n') cs
  rw [Option.mem_def.mp hx] at this
  simpa using this

/-! ## Blanks -/

/-- At the end of a line blanks lead to its line end. -/
theorem skipSpace_go_of_endsLine (h : EndsLine before after) (p : Position) :
    ∃ q, skipSpace.go after p = .ok ⟨after.dropWhile (· ≠ '\n'), q⟩ ∧ q.line = p.line := by
  rcases h with rfl | ⟨r, rfl⟩ | ⟨⟨r, rfl⟩, -⟩
  · exact ⟨p, rfl, rfl⟩
  · exact ⟨p.advance '\r', by simp [skipSpace.go], by simp [Position.advance]⟩
  · exact ⟨p, by simp [skipSpace.go], rfl⟩

/-- Passing all of a line leads to the line end behind it. -/
theorem skipWhile_line (hu : '\n' ∉ u) (r : List Char) (p : Position) :
    ∃ q, skipWhile ⟨u ++ r, p⟩ (· ≠ '\n') = ⟨r.dropWhile (· ≠ '\n'), q⟩ ∧ q.line = p.line := by
  have hpass : ∀ x ∈ u, decide (x ≠ '\n') = true := fun x hx => by simpa using ne_of_mem_of_not_mem hx hu
  refine ⟨p.advanceAll (u ++ r.takeWhile (· ≠ '\n')), ?_, p.advanceAll_line ?_⟩
  · rw [skipWhile, dropWhile_append_of_pos hpass, takeWhile_append_of_pos hpass]
  · rw [mem_append, not_or]
    exact ⟨hu, fun hmem => by simpa using mem_takeWhile_imp hmem⟩

theorem skipWhile_to_line (hu : '\n' ∉ u) (r : List Char) (p : Position) :
    skipWhile ⟨u ++ '\n' :: r, p⟩ (· ≠ '\n') = ⟨'\n' :: r, p.advanceAll u⟩ := by
  have hpass : ∀ x ∈ u, decide (x ≠ '\n') = true := fun x hx => by simpa using ne_of_mem_of_not_mem hx hu
  rw [skipWhile, dropWhile_append_of_pos hpass, takeWhile_append_of_pos hpass]
  simp

theorem skipSpace_go_comment (hnote : '\n' ∉ note) (after : List Char) (p : Position) :
    ∃ q, skipSpace.go (' ' :: '#' :: (note ++ after)) p = .ok ⟨after.dropWhile (· ≠ '\n'), q⟩ ∧
      q.line = p.line := by
  have hline : '\n' ∉ '#' :: note := by simpa using hnote
  obtain ⟨q, hq, hl⟩ := skipWhile_line hline after (p.advance ' ')
  refine ⟨q, ?_, hl.trans (by simp [Position.advance])⟩
  simp only [skipSpace.go, true_or, if_true]
  rw [if_neg (by decide), if_neg (by decide)]
  exact congrArg _ hq

/-- A comment in front of the other one ends in a line above it or goes on through it. -/
theorem skipWhile_commented (hnote : '\n' ∉ note) (h : (ofList before).Reaches ⟨u, p⟩) :
    Settled (Commented before note after) (skipWhile ⟨u ++ after, p⟩ (· ≠ '\n'))
      (skipWhile ⟨u ++ (' ' :: '#' :: (note ++ after)), p⟩ (· ≠ '\n')) := by
  by_cases hline : '\n' ∈ u
  · obtain ⟨v, w, hvw, hv⟩ := eq_append_cons_of_mem hline
    rw [hvw, append_assoc, append_assoc, cons_append, cons_append, skipWhile_to_line hv,
      skipWhile_to_line hv]
    exact settled_ahead (h.trans ⟨v, hvw, rfl⟩)
  · have hline' : '\n' ∉ u ++ ' ' :: '#' :: note := by
      rw [mem_append, not_or]
      exact ⟨hline, by simpa using hnote⟩
    have hjoin : u ++ (' ' :: '#' :: (note ++ after)) = (u ++ ' ' :: '#' :: note) ++ after := by simp
    obtain ⟨q, hq, hqline⟩ := skipWhile_line hline after p
    obtain ⟨q', hq', hqline'⟩ := skipWhile_line hline' after p
    rw [hjoin, hq, hq']
    exact settled_ended (head?_dropWhile_line after) (hqline.trans hqline'.symm)

/-- A carriage return in front of a line end belongs to it. -/
theorem head?_ne_of_return (hend : EndsLine before after) (hlast : before.getLast? = some '\r') :
    ¬ after.head? = some '\n' := by
  intro hline
  rcases hend with rfl | ⟨r, rfl⟩ | ⟨-, hne⟩
  · cases hline
  · cases hline
  · exact hne hlast

/-- Blanks in front of a comment are passed together with it. -/
theorem skipSpace_go_commented (hend : EndsLine before after) (hnote : '\n' ∉ note)
    (h : (ofList before).Reaches ⟨u, p⟩) :
    Follows (Settled (Commented before note after)) (skipSpace.go (u ++ after) p)
      (skipSpace.go (u ++ (' ' :: '#' :: (note ++ after))) p) := by
  induction u generalizing p with
  | nil =>
    obtain ⟨q, hq, hline⟩ := skipSpace_go_of_endsLine hend p
    obtain ⟨q', hq', hline'⟩ := skipSpace_go_comment hnote after p
    rw [nil_append, nil_append, hq, hq']
    exact .ok (settled_ended (head?_dropWhile_line after) (hline.trans hline'.symm))
  | cons x u ih =>
    have hnext := h.trans (next_reaches ⟨x :: u, p⟩)
    rw [cons_append, cons_append, skipSpace.go, skipSpace.go]
    by_cases hblank : x = ' ' ∨ x = '\t'
    · rw [if_pos hblank, if_pos hblank]
      exact ih hnext
    rw [if_neg hblank, if_neg hblank]
    by_cases hreturn : x = '\r'
    · rw [if_pos hreturn, if_pos hreturn]
      cases u with
      | nil =>
        -- alone at the end of its line, it is refused without the comment
        obtain ⟨cs, hcs, -⟩ := h
        have hlast : before.getLast? = some '\r' := by
          rw [show before = cs ++ [x] from hcs, getLast?_concat, hreturn]
        rw [nil_append, if_neg (head?_ne_of_return hend hlast)]
        exact .error _ _
      | cons y u =>
        simp only [cons_append, head?_cons, Option.some.injEq]
        split
        · exact ih hnext
        · exact .error _ _
    rw [if_neg hreturn, if_neg hreturn]
    by_cases hcomment : x = '#'
    · rw [if_pos hcomment, if_pos hcomment, ← cons_append, ← cons_append]
      exact .ok (skipWhile_commented hnote h)
    rw [if_neg hcomment, if_neg hcomment]
    exact .ok (settled_ahead h)

theorem skipSpace_commented (hend : EndsLine before after) (hnote : '\n' ∉ note)
    (h : Commented before note after c c') :
    Follows (Settled (Commented before note after)) c.skipSpace c'.skipSpace := by
  cases h with
  | ahead h => exact skipSpace_go_commented hend hnote h
  | @ended r p p' hr hline =>
    cases r with
    | nil => exact .ok (settled_ended hr hline)
    | cons x r =>
      obtain rfl := hr x rfl
      have hstay : ∀ q, skipSpace ⟨'\n' :: r, q⟩ = .ok ⟨'\n' :: r, q⟩ := fun q => by simp [skipSpace, skipSpace.go]
      rw [hstay, hstay]
      exact .ok (settled_ended hr hline)
  | same =>
    intro d hd
    exact ⟨d, hd, .same d, rfl, fun _ => .same _⟩

/-! ## Quoted values -/

/-- A quoted value is read from itself, whatever follows it. It ends in a quote and has no line feed. -/
theorem quotedRest_self {opened : Position} {cs out : List Char} (h : quotedRest opened cs p = .ok (out, d)) :
    cs = out ++ d.rest ∧ d.pos = p.advanceAll out ∧ '\n' ∉ out ∧ (∃ body, out = body ++ ['"']) ∧
      ∀ r, quotedRest opened (out ++ r) p = .ok (out, ⟨r, d.pos⟩) := by
  fun_induction quotedRest opened cs p generalizing out with
  | case1 | case2 | case4 | case6 => cases h
  | case3 r p =>
    cases h
    refine ⟨rfl, rfl, by decide, ⟨[], rfl⟩, fun r => ?_⟩
    rw [singleton_append, quotedRest.eq_def]
    simp
  | case5 p e r' he _ _ ih =>
    obtain ⟨t, hq, ⟨⟩⟩ := map_eq_ok.mp h
    obtain ⟨hcs, hpos, hfeed, ⟨body, hbody⟩, hread⟩ := ih hq
    have hfeed' : e ≠ '\n' := by
      rintro rfl
      exact absurd he (by decide)
    refine ⟨by rw [hcs]; rfl, hpos, by simp [hfeed'.symm, hfeed], ⟨'\\' :: e :: body, by rw [hbody]; rfl⟩,
      fun r => ?_⟩
    rw [cons_append, cons_append, quotedRest.eq_def]
    simp [he, hread, Except.map]
  | case7 x r p hline hquote hslash ih =>
    obtain ⟨t, hq, ⟨⟩⟩ := map_eq_ok.mp h
    obtain ⟨hcs, hpos, hfeed, ⟨body, hbody⟩, hread⟩ := ih hq
    refine ⟨by rw [hcs]; rfl, hpos, by simp [Ne.symm hline, hfeed], ⟨x :: body, by rw [hbody]; rfl⟩, fun r => ?_⟩
    rw [cons_append, quotedRest.eq_def]
    simp [hline, hquote, hslash, hread, Except.map]

/-- A quoted value that starts in a line ends in it. -/
theorem quotedRest_of_endsLine (hend : EndsLine before after) {opened : Position} {out : List Char}
    (h : quotedRest opened (u ++ after) p = .ok (out, d)) : ∃ v, u = out ++ v ∧ d.rest = v ++ after := by
  obtain ⟨hcs, -, hfeed, ⟨body, hbody⟩, -⟩ := quotedRest_self h
  rcases append_eq_append_iff.mp hcs with ⟨w, hout, hafter⟩ | ⟨v, hu, hrest⟩
  · -- nothing of the line end is part of the value
    cases w with
    | nil => exact ⟨[], by simpa using hout.symm, by simpa using hafter.symm⟩
    | cons x w =>
      exfalso
      rcases hend with rfl | ⟨r, rfl⟩ | ⟨⟨r, rfl⟩, -⟩
      · cases hafter
      · obtain ⟨rfl, htail⟩ := List.cons.inj hafter
        cases w with
        | nil =>
          rw [hbody] at hout
          exact absurd (append_inj_right' hout rfl) (by decide)
        | cons y w =>
          obtain ⟨rfl, -⟩ := List.cons.inj htail
          exact hfeed (by simp [hout])
      · obtain ⟨rfl, -⟩ := List.cons.inj hafter
        exact hfeed (by simp [hout])
  · exact ⟨v, hu, hrest⟩

/-! ## Both texts side by side -/

theorem exists_cons_of_isSolid (hend : EndsLine before after) (hx : isSolid x = true)
    (h : (u ++ after).head? = some x) : ∃ v, u = x :: v := by
  cases u with
  | nil =>
    rcases head?_of_endsLine hend x h with rfl | rfl
    · exact absurd hx (by decide)
    · exact absurd hx (by decide)
  | cons y v =>
    cases h
    exact ⟨v, rfl⟩

theorem not_isSolid_of_ended (hr : ∀ x ∈ r.head?, x = '\n') (h : r.head? = some x) : ¬ isSolid x = true := by
  rw [hr x h]
  decide

theorem quoted_commented (hend : EndsLine before after) (h : Commented before note after c c')
    (hquote : c.peek = some '"') : Follows (Same (Commented before note after)) c.quoted c'.quoted := by
  cases h with
  | @ahead u p h =>
    obtain ⟨u, rfl⟩ := exists_cons_of_isSolid hend (by decide) hquote
    refine .map (S := Same (Commented before note after)) ?_ ?_
    · rintro ⟨out, ⟨rest, q⟩⟩ hd
      obtain ⟨v, rfl, rfl⟩ := quotedRest_of_endsLine hend hd
      obtain ⟨-, hpos, -, -, hread⟩ := quotedRest_self hd
      have hread' := hread (v ++ (' ' :: '#' :: (note ++ after)))
      rw [← append_assoc] at hread'
      exact ⟨_, hread', rfl, .ahead (h.trans ⟨'"' :: out, rfl, hpos⟩)⟩
    · rintro ⟨out, d⟩ ⟨out', d'⟩ ⟨rfl, hd⟩
      exact ⟨rfl, hd⟩
  | ended hr => exact absurd (show isSolid '"' = true by decide) (not_isSolid_of_ended hr hquote)
  | same =>
    rintro ⟨v, d⟩ hd
    exact ⟨_, hd, rfl, .same d⟩

theorem lockstep_commented (hend : EndsLine before after) (hnote : '\n' ∉ note) :
    Lockstep (Commented before note after) where
  peek {c c' x} h hx := by
    cases h with
    | @ahead u p h =>
      cases u with
      | nil =>
        constructor
        · intro hpeek
          obtain ⟨v, hv⟩ := exists_cons_of_isSolid hend hx hpeek
          cases hv
        · rintro ⟨⟩
          exact absurd hx (by decide)
      | cons y u => exact Iff.rfl
    | ended | same => exact Iff.rfl
  pos {c c' x} h hx hpeek := by
    cases h with
    | ahead | same => rfl
    | ended hr => exact absurd hx (not_isSolid_of_ended hr hpeek)
  next {c c' x} h hx hpeek := by
    cases h with
    | @ahead u p h =>
      obtain ⟨v, rfl⟩ := exists_cons_of_isSolid hend hx hpeek
      exact .ahead (h.trans (next_reaches ⟨x :: v, p⟩))
    | ended hr => exact absurd hx (not_isSolid_of_ended hr hpeek)
    | same => exact .same _
  skipSpace := skipSpace_commented hend hnote
  quoted := quoted_commented hend

/-! ## Declarations -/

/-- What the reader of declarations reads. -/
theorem declare_iff :
    c.declare = .ok (.declare k, d) ↔ ∃ e f raw, c.word isNameChar = (k.name, e) ∧ k.name ≠ "" ∧
      e.peek = some ':' ∧ e.next.word isNameChar = (k.kind, f) ∧ k.kind ≠ "" ∧ f.peek = some ':' ∧
      f.next.word isContentsChar = (raw, d) ∧ k.contents = Text.trim raw ∧ k.contents ≠ "" ∧ k.pos = c.pos := by
  constructor
  · intro h
    obtain ⟨name, e, kind, f, raw, hw, hname, hcolon, hx, hkind, hcolon', hy, hcontents, hk⟩ := declare_read h
    cases hk
    exact ⟨e, f, raw, hw, hname, hcolon, hx, hkind, hcolon', hy, rfl, hcontents, rfl⟩
  · rintro ⟨e, f, raw, hw, hname, hcolon, hx, hkind, hcolon', hy, hcontents, hne, hpos⟩
    rw [hcontents] at hne
    simp only [declare, hw, if_neg hname, expect, if_pos hcolon, bind, Except.bind, hx, if_neg hkind,
      if_pos hcolon', hy, if_neg hne]
    rw [← hcontents, ← hpos]

theorem exists_word_of_stop {accept : Char → Bool} (h : ∃ x ∈ u, accept x = false) :
    ∃ (w : String) (y : Char) (r : List Char),
      u = w.toList ++ y :: r ∧ (∀ x ∈ w.toList, accept x = true) ∧ accept y = false := by
  induction u with
  | nil =>
    obtain ⟨x, hx, -⟩ := h
    cases hx
  | cons z u ih =>
    cases hz : accept z with
    | false => exact ⟨"", z, u, rfl, forall_mem_nil _, hz⟩
    | true =>
      obtain ⟨x, hx, hstop⟩ := h
      have hxu : x ∈ u := by
        rcases mem_cons.mp hx with rfl | hx
        · rw [hz] at hstop
          cases hstop
        · exact hx
      obtain ⟨w, y, r, rfl, hall, hy⟩ := ih ⟨x, hxu, hstop⟩
      refine ⟨String.ofList (z :: w.toList), y, r, by simp, ?_, hy⟩
      rw [String.toList_ofList]
      exact forall_mem_cons.mpr ⟨hz, hall⟩

/-- Contents that end before the comment are read alike. -/
theorem contents_commented {raw : String} (h : Commented before note after c c')
    (hends : ∀ u p, c = ⟨u ++ after, p⟩ → ∃ x ∈ u, isContentsChar x = false) (hraw : raw ≠ "")
    (hw : c.word isContentsChar = (raw, d)) :
    ∃ d', c'.word isContentsChar = (raw, d') ∧ Commented before note after d d' := by
  cases h with
  | @ahead u p h =>
    obtain ⟨w, y, r, hu, hall, hy⟩ := exists_word_of_stop (hends u p rfl)
    have hword : ∀ s, word ⟨u ++ s, p⟩ isContentsChar = (w, ⟨y :: (r ++ s), p.advanceAll w.toList⟩) := by
      intro s
      rw [hu, append_assoc, cons_append, word_append hall hy]
    rw [hword] at hw
    cases hw
    exact ⟨_, hword _, .ahead (h.trans ⟨raw.toList, hu, rfl⟩)⟩
  | @ended r p p' hr =>
    have hstop : ∀ x ∈ r.head?, isContentsChar x = false := fun x hx => by rw [hr x hx]; decide
    rw [word_of_stop (c := ⟨r, p⟩) hstop] at hw
    cases hw
    exact absurd rfl hraw
  | same => exact ⟨d, hw, .same d⟩

/-- The text of a declaration up to its contents. -/
theorem declare_rest {e f : Cursor} (hw : c.word isNameChar = (k.name, e)) (hcolon : e.peek = some ':')
    (hx : e.next.word isNameChar = (k.kind, f)) (hcolon' : f.peek = some ':') :
    c.rest = k.name.toList ++ ':' :: (k.kind.toList ++ ':' :: f.next.rest) := by
  rw [word_rest hw, rest_of_peek hcolon, word_rest hx, rest_of_peek hcolon']

theorem declare_commented (hend : EndsLine before after) (hnote : '\n' ∉ note)
    (h : Commented before note after c c') (hk : ¬ k.EndsIn before) (hc : c.declare = .ok (.declare k, d)) :
    ∃ d', c'.declare = .ok (.declare k, d') ∧ Commented before note after d d' := by
  have hR := lockstep_commented hend hnote
  obtain ⟨e, f, raw, hw, hname, hcolon, hx, hkind, hcolon', hy, hcontents, hne, hpos⟩ := declare_iff.mp hc
  cases h with
  | same => exact ⟨d, hc, .same d⟩
  | @ended r p p' hr =>
    have hstop : ∀ x ∈ r.head?, isNameChar x = false := fun x hx => by rw [hr x hx]; decide
    rw [word_of_stop (c := ⟨r, p⟩) hstop] at hw
    exact absurd (congrArg Prod.fst hw).symm hname
  | @ahead u p h =>
    obtain ⟨e', hw', he, hstart⟩ := hR.word (fun x => isSolid_of_isNameChar) (.ahead h) hw
    obtain ⟨f', hx', hf, -⟩ := hR.word (fun x => isSolid_of_isNameChar) (hR.next he (by decide) hcolon) hx
    have hraw : raw ≠ "" := by
      rintro rfl
      exact hne hcontents
    have hends : ∀ v q, f.next = ⟨v ++ after, q⟩ → ∃ x ∈ v, isContentsChar x = false := by
      -- otherwise the line ends in the contents of this declaration
      intro v q hv
      by_contra hall
      obtain ⟨pre, hpre, hp⟩ := h
      have hrest := declare_rest hw hcolon hx hcolon'
      have hline : u = k.name.toList ++ ':' :: (k.kind.toList ++ ':' :: v) := by
        rw [hv] at hrest
        exact append_cancel_right (hrest.trans (by simp))
      refine hk ⟨pre, v, by rw [← hline]; exact hpre, hpos.trans hp, fun x hx => ?_⟩
      by_contra hstop
      exact hall ⟨x, hx, by simpa using hstop⟩
    obtain ⟨d', hy', hd⟩ := contents_commented (hR.next hf (by decide) hcolon') hends hraw hy
    exact ⟨d', declare_iff.mpr ⟨e', f', raw, hw', hname, (hR.peek he (by decide)).mp hcolon, hx', hkind,
      (hR.peek hf (by decide)).mp hcolon', hy', hcontents, hne, hpos.trans (hstart hname)⟩, hd⟩

/-- The statements of a text are those of the text with a comment, unless a declaration takes the comment in. -/
theorem statements_commented (hend : EndsLine before after) (hnote : '\n' ∉ note)
    (h : (ofList (before ++ after)).statements = (ss, none))
    (hss : ∀ k, .declare k ∈ ss → ¬ k.EndsIn before) :
    (ofList (before ++ (' ' :: '#' :: (note ++ after)))).statements = (ss, none) := by
  have hR : Simulation (Commented before note after) (fun k => ¬ k.EndsIn before) :=
    ⟨lockstep_commented hend hnote, declare_commented hend hnote⟩
  exact hR.statements (.ahead (.refl (ofList before))) h hss

end Cursor

/-! ## Declarations that take a comment in -/

theorem Text.count_trimChars (hx : isBlank x = false) (cs : List Char) :
    (trimChars cs).count x = cs.count x := by
  have hdrop : ∀ ds : List Char, (ds.dropWhile isBlank).count x = ds.count x := by
    intro ds
    induction ds with
    | nil => rfl
    | cons y ds ih =>
      cases hy : isBlank y with
      | false => rw [dropWhile_cons_of_neg (by simp [hy])]
      | true =>
        have hne : y ≠ x := by
          rintro rfl
          rw [hx] at hy
          cases hy
        rw [dropWhile_cons_of_pos hy, ih, count_cons_of_ne hne]
  rw [trimChars, count_reverse, hdrop, count_reverse, hdrop]

/-- Two places of a text that have the same position are the same. -/
theorem Cursor.Reaches.rest_eq {e : Cursor} (hd : c.Reaches d) (he : c.Reaches e) (hpos : d.pos = e.pos) :
    d.rest = e.rest := by
  have hstays : ∀ {a b : Cursor} {w : List Char}, a.rest = w ++ b.rest → b.pos = a.pos.advanceAll w →
      a.pos = b.pos → a.rest = b.rest := by
    intro a b w hw hb hab
    by_cases hne : w = []
    · rw [hw, hne, nil_append]
    · exact absurd (hab.trans hb) (Position.before_advanceAll a.pos hne).ne
  obtain ⟨cs, hcs, hp⟩ := hd
  obtain ⟨ds, hds, hq⟩ := he
  rcases append_eq_append_iff.mp (hcs.symm.trans hds) with ⟨w, rfl, hrest⟩ | ⟨w, rfl, hrest⟩
  · exact hstays hrest (by rw [hq, hp, Position.advanceAll_append]) hpos
  · exact (hstays hrest (by rw [hq, hp, Position.advanceAll_append]) hpos.symm).symm

namespace Graph

/-- The contents of a declaration are all that follows up to the end of the statement. -/
theorem Declaration.Placed.contents_eq {d : Declaration} {pre raw : List Char}
    (h : d.Placed (.ofList (pre ++ (d.name.toList ++ ':' :: (d.kind.toList ++ ':' :: raw)) ++ r)))
    (hpos : d.pos = Position.start.advanceAll pre) (hraw : ∀ x ∈ raw, isContentsChar x = true) :
    d.contents = String.ofList (Text.trimChars (raw ++ r.takeWhile isContentsChar)) := by
  obtain ⟨e, raw', r', he, hepos, hrest, hraw', hstop, hcontents⟩ := h
  let here : Cursor := ⟨d.name.toList ++ ':' :: (d.kind.toList ++ ':' :: (raw ++ r)), Position.start.advanceAll pre⟩
  have hhere : (Cursor.ofList (pre ++ (d.name.toList ++ ':' :: (d.kind.toList ++ ':' :: raw)) ++ r)).Reaches here :=
    ⟨pre, by simp [Cursor.ofList, here], rfl⟩
  have hsame : raw' ++ r' = raw ++ r := by
    have heq := he.rest_eq hhere (hepos.trans hpos)
    simpa [hrest, here] using heq
  have hrun : raw' = raw ++ r.takeWhile isContentsChar := by
    rw [← takeWhile_append_of_pos hraw, ← hsame, takeWhile_append_of_pos hraw']
    cases r' with
    | nil => simp
    | cons x r' => simp [hstop x rfl]
  rw [hcontents, hrun]

variable {g : Graph}

theorem takeWhile_contents_of_endsLine {before after : List Char} (h : EndsLine before after) :
    (after.takeWhile isContentsChar).count '#' = 0 := by
  rcases h with rfl | ⟨r, rfl⟩ | ⟨⟨r, rfl⟩, -⟩
  · rfl
  · rfl
  · rfl

/-- A declaration that a line ends in has a comment at the end of the line in its contents. -/
theorem Declaration.EndsIn.contents_ne {before note after : List Char} {d : Declaration} (h : d.EndsIn before)
    (hend : EndsLine before after) (hplaced : d.Placed (.ofList (before ++ after))) :
    ¬ d.Placed (.ofList (before ++ (' ' :: '#' :: (note ++ after)))) := by
  intro hplaced'
  obtain ⟨pre, raw, rfl, hpos, hraw⟩ := h
  have hcontents := hplaced.contents_eq hpos hraw
  rw [hplaced'.contents_eq hpos hraw] at hcontents
  -- the contents with the comment have one more `#`
  have hcount := congrArg (List.count '#') (String.ofList_injective hcontents)
  have hblank : Text.isBlank '#' = false := by decide
  have hnote : ((' ' :: '#' :: (note ++ after)).takeWhile isContentsChar).count '#' =
      1 + ((note ++ after).takeWhile isContentsChar).count '#' := by
    rw [takeWhile_cons_of_pos (by decide), takeWhile_cons_of_pos (by decide),
      count_cons_of_ne (by decide), count_cons_self, Nat.add_comm]
  rw [Text.count_trimChars hblank, Text.count_trimChars hblank, count_append, count_append,
    takeWhile_contents_of_endsLine hend, hnote] at hcount
  omega

/-- A comment at the end of a line leaves the graph of a text as it is, positions included, exactly if the line
does not end in the contents of a declaration. (No quoted value goes over the end of a line.) -/
theorem parse_comment_iff {before after note : String} (h : parse (before ++ after) = .ok g)
    (hend : EndsLine before.toList after.toList) (hnote : '\n' ∉ note.toList) :
    parse (before ++ " #" ++ note ++ after) = .ok g ↔ ∀ d ∈ g.declarations, ¬ d.EndsIn before.toList := by
  have htext : (before ++ " #" ++ note ++ after).toList =
      before.toList ++ (' ' :: '#' :: (note.toList ++ after.toList)) := by simp
  constructor
  · intro h' d hd hends
    have hplaced := (placed_of_parse h).declarations d hd
    have hplaced' := (placed_of_parse h').declarations d hd
    rw [String.toList_append] at hplaced
    rw [htext] at hplaced'
    exact hends.contents_ne hend hplaced hplaced'
  · intro hclear
    obtain ⟨ss, hss, hg, -⟩ := parse_eq_ok h
    have hdeclared : ∀ k, .declare k ∈ ss → ¬ k.EndsIn before.toList := by
      intro k hk
      refine hclear k ?_
      rw [(addAll_kept hg).1]
      exact mem_append_right _ (mem_flatMap.mpr ⟨_, hk, mem_singleton_self k⟩)
    have hsame : Statement.ofText (before ++ " #" ++ note ++ after) = Statement.ofText (before ++ after) := by
      rw [hss, Statement.ofText, htext]
      rw [Statement.ofText, String.toList_append] at hss
      exact Cursor.statements_commented hend hnote hss hdeclared
    rw [parse, hsame]
    exact h

/-- A comment in a clause that goes over several lines, below a declaration. -/
theorem parse_comment_iff_clause :
    parse ("DECLARE=x:fbp:y.fbp\r\na(x:k=\"#\"," ++ " #" ++ "b, \"c\r" ++ "\r\n l) OUT -> IN b(t)") = .ok
      { nodes := [⟨"a", "x", [⟨"k", "\"#\"", ⟨2, 5⟩⟩, ⟨"l", "", ⟨3, 2⟩⟩], ⟨2, 1⟩⟩, ⟨"b", "t", [], ⟨3, 15⟩⟩]
        connections := [⟨0, ⟨"OUT", none⟩, 1, ⟨"IN", none⟩, ⟨3, 5⟩⟩]
        declarations := [⟨"x", "fbp", "y.fbp", ⟨1, 9⟩⟩] } :=
  have h : parse ("DECLARE=x:fbp:y.fbp\r\na(x:k=\"#\"," ++ "\r\n l) OUT -> IN b(t)") = .ok _ := by decide +kernel
  (parse_comment_iff h (by decide +kernel) (by decide +kernel)).mpr (by decide +kernel)

/-- A comment in the line of a declaration becomes part of its contents. -/
theorem parse_comment_changes_contents :
    EndsLine "DECLARE=x:fbp:y.fbp".toList "".toList ∧ '\n' ∉ "z".toList ∧
      parse ("DECLARE=x:fbp:y.fbp" ++ "") = .ok { declarations := [⟨"x", "fbp", "y.fbp", ⟨1, 9⟩⟩] } ∧
      parse ("DECLARE=x:fbp:y.fbp" ++ " #" ++ "z" ++ "") =
        .ok { declarations := [⟨"x", "fbp", "y.fbp #z", ⟨1, 9⟩⟩] } ∧
      parse ("DECLARE=x:fbp:y.fbp" ++ " #" ++ "z" ++ "") ≠ parse ("DECLARE=x:fbp:y.fbp" ++ "") := by
  decide +kernel

end Graph

end FlowCompiler
