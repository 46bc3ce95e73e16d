import FlowCompiler.Proofs.Graph.Comments
import FlowCompiler.Proofs.Text.Cuts

/-!
# Line ends

A line ends with a line feed, or with a carriage return and a line feed. A text without carriage returns is read
side by side with the same text where one stands before every line feed (`Cursor.Returned`). At the end of a line
the second cursor may have passed the return already; everywhere else both stand at the same position. Blanks and
comments take the return along, no name and no quoted value gets to it, and contents of declarations lose it with
the blanks at their end.

Main statement: `Graph.parse_withReturns_iff`. Both texts are read as the same graph, or both are refused.
-/

namespace FlowCompiler

open List

variable {cs : List Char} {x : Char}

namespace Text

/-- Characters with a carriage return before every line feed. -/
def withReturns (cs : List Char) : List Char := cs.flatMap fun x => if x = '\n' then ['\r', '\n'] else [x]

@[simp] theorem withReturns_line (cs : List Char) :
    withReturns ('\n' :: cs) = '\r' :: '\n' :: withReturns cs := rfl

theorem withReturns_cons (hx : x ≠ '\n') (cs : List Char) : withReturns (x :: cs) = x :: withReturns cs := by
  simp [withReturns, hx]

theorem withReturns_append (cs ds : List Char) : withReturns (cs ++ ds) = withReturns cs ++ withReturns ds :=
  flatMap_append

theorem withReturns_of_not_mem (h : '\n' ∉ cs) : withReturns cs = cs := by
  induction cs with
  | nil => rfl
  | cons x cs ih =>
    rw [mem_cons, not_or] at h
    rw [withReturns_cons (Ne.symm h.1), ih h.2]

/-- What the text starts with, up to a character before the first line feed, the text without returns starts
with, too. -/
theorem eq_append_of_withReturns {out r : List Char} (h : withReturns cs = out ++ r) (hfeed : '\n' ∉ out)
    (hlast : out.getLast? ≠ some '\r') : ∃ ds, cs = out ++ ds ∧ r = withReturns ds := by
  induction out generalizing cs with
  | nil => exact ⟨cs, rfl, h.symm⟩
  | cons x out ih =>
    rw [mem_cons, not_or] at hfeed
    cases cs with
    | nil => cases h
    | cons y cs =>
      by_cases hy : y = '\n'
      · -- the return would be the last character taken, or the line feed behind it one of them
        subst hy
        obtain ⟨rfl, htail⟩ : '\r' = x ∧ '\n' :: withReturns cs = out ++ r := by
          simpa using h
        cases out with
        | nil => exact absurd rfl hlast
        | cons z out =>
          obtain ⟨rfl, -⟩ := List.cons.inj htail
          exact absurd mem_cons_self hfeed.2
      · rw [withReturns_cons hy] at h
        obtain ⟨rfl, htail⟩ := List.cons.inj h
        have hlast' : out.getLast? ≠ some '\r' := by
          cases out with
          | nil => simp
          | cons z out => simpa using hlast
        obtain ⟨ds, rfl, hr⟩ := ih htail hfeed.2 hlast'
        exact ⟨ds, rfl, hr⟩

end Text

namespace Cursor

open Text

/-- A cursor in a text and one in the text with returns: both in front of the same character, or both at the
end of a line whose return the second cursor has passed. -/
inductive Returned : Cursor → Cursor → Prop
  | ahead {cs : List Char} {p : Position} (h : '\r' ∉ cs) : Returned ⟨cs, p⟩ ⟨withReturns cs, p⟩
  | ended {cs : List Char} {p p' : Position} (h : '\r' ∉ cs) (hline : p.line = p'.line) :
    Returned ⟨'\n' :: cs, p⟩ ⟨'\n' :: withReturns cs, p'⟩

variable {c c' : Cursor} {R : Cursor → Cursor → Prop}

theorem Settled.swap {d d' : Cursor} (h : Settled R d d') : Settled (flip R) d' d :=
  ⟨h.1, h.2.1.symm, fun hline => h.2.2 (h.2.1.trans hline)⟩

theorem settled_returned {p p' : Position} (h : '\r' ∉ cs) (hline : p.line = p'.line) :
    Settled Returned ⟨'\n' :: cs, p⟩ ⟨'\n' :: withReturns cs, p'⟩ := by
  refine ⟨.ended h hline, rfl, fun _ => ?_⟩
  have hpos : p.advance '\n' = p'.advance '\n' := by simp [Position.advance, hline]
  simp only [next, hpos]
  exact .ahead h

theorem settled_same (hx : x ≠ '\n') (h : '\r' ∉ x :: cs) (p : Position) :
    Settled Returned ⟨x :: cs, p⟩ ⟨x :: withReturns cs, p⟩ := by
  refine ⟨?_, rfl, fun hline => ?_⟩
  · rw [← withReturns_cons hx]
    exact .ahead h
  · exact absurd (Option.some.inj hline) hx

/-! ## Blanks -/

theorem skipSpace_go_line (cs : List Char) (p : Position) :
    skipSpace.go ('\n' :: cs) p = .ok ⟨'\n' :: cs, p⟩ := by
  simp [skipSpace.go]

/-- A comment takes the return of its line in. -/
theorem skipWhile_returned (h : '\r' ∉ cs) (p : Position) :
    Settled Returned (skipWhile ⟨'#' :: cs, p⟩ (· ≠ '\n')) (skipWhile ⟨'#' :: withReturns cs, p⟩ (· ≠ '\n')) := by
  by_cases hline : '\n' ∈ cs
  · obtain ⟨v, w, rfl, hv⟩ := eq_append_cons_of_mem hline
    have hnote : '\n' ∉ '#' :: v := by simpa using hv
    have hnote' : '\n' ∉ '#' :: (v ++ ['\r']) := by simpa using hv
    have hsplit : '#' :: (v ++ '\n' :: w) = ('#' :: v) ++ '\n' :: w := rfl
    have hsplit' : '#' :: withReturns (v ++ '\n' :: w) = ('#' :: (v ++ ['\r'])) ++ '\n' :: withReturns w := by
      rw [withReturns_append, withReturns_of_not_mem hv, withReturns_line]
      simp
    rw [hsplit, hsplit', skipWhile_to_line hnote, skipWhile_to_line hnote']
    refine settled_returned (fun hw => h ?_) ?_
    · exact mem_append_right _ (mem_cons_of_mem _ hw)
    · rw [p.advanceAll_line hnote, p.advanceAll_line hnote']
  · -- the comment is the last thing in the text
    rw [withReturns_of_not_mem hline]
    have hrest : ('#' :: cs).dropWhile (· ≠ '\n') = [] := by
      rw [dropWhile_eq_nil_iff]
      intro x hx
      have hx : x ≠ '\n' := by
        rintro rfl
        simp [hline] at hx
      simpa using hx
    rw [show skipWhile ⟨'#' :: cs, p⟩ (· ≠ '\n') = ⟨[], _⟩ by rw [skipWhile, hrest]]
    refine ⟨.ahead not_mem_nil, rfl, fun hpeek => ?_⟩
    cases hpeek

theorem skipSpace_go_returned (h : '\r' ∉ cs) (p : Position) :
    ∃ d d', skipSpace.go cs p = .ok d ∧ skipSpace.go (withReturns cs) p = .ok d' ∧ Settled Returned d d' := by
  induction cs generalizing p with
  | nil =>
    refine ⟨⟨[], p⟩, ⟨[], p⟩, rfl, rfl, .ahead not_mem_nil, rfl, fun hline => ?_⟩
    cases hline
  | cons x cs ih =>
    have hcs : '\r' ∉ cs := fun hmem => h (mem_cons_of_mem _ hmem)
    by_cases hline : x = '\n'
    · subst hline
      refine ⟨_, ⟨'\n' :: withReturns cs, p.advance '\r'⟩, skipSpace_go_line cs p, ?_, ?_⟩
      · rw [withReturns_line, skipSpace.go, if_neg (by decide), if_pos rfl, head?_cons, if_pos rfl,
          skipSpace_go_line]
      · exact settled_returned hcs (by simp [Position.advance])
    have hreturn : x ≠ '\r' := fun hx => h (hx ▸ mem_cons_self)
    rw [withReturns_cons hline, skipSpace.go, skipSpace.go]
    by_cases hblank : x = ' ' ∨ x = '\t'
    · rw [if_pos hblank, if_pos hblank]
      exact ih hcs (p.advance x)
    rw [if_neg hblank, if_neg hblank, if_neg hreturn, if_neg hreturn]
    by_cases hcomment : x = '#'
    · subst hcomment
      rw [if_pos rfl, if_pos rfl]
      exact ⟨_, _, rfl, rfl, skipWhile_returned hcs p⟩
    · rw [if_neg hcomment, if_neg hcomment]
      exact ⟨_, _, rfl, rfl, settled_same hline h p⟩

theorem skipSpace_returned (h : Returned c c') :
    ∃ d d', c.skipSpace = .ok d ∧ c'.skipSpace = .ok d' ∧ Settled Returned d d' := by
  cases h with
  | ahead h => exact skipSpace_go_returned h _
  | ended h hline => exact ⟨_, _, skipSpace_go_line _ _, skipSpace_go_line _ _, settled_returned h hline⟩

/-! ## Quoted values -/

/-- A value ends before the return of its line, in either text. -/
theorem quotedRest_returned_iff (h : '\r' ∉ cs) {opened p q : Position} {out r : List Char} :
    quotedRest opened (withReturns cs) p = .ok (out, ⟨r, q⟩) ↔
      ∃ ds, r = withReturns ds ∧ '\r' ∉ ds ∧ quotedRest opened cs p = .ok (out, ⟨ds, q⟩) := by
  constructor
  · intro hread
    obtain ⟨hsplit, -, hfeed, ⟨body, hbody⟩, hself⟩ := quotedRest_self hread
    have hlast : out.getLast? ≠ some '\r' := by
      rw [hbody, getLast?_concat]
      decide
    obtain ⟨ds, rfl, rfl⟩ := eq_append_of_withReturns hsplit hfeed hlast
    exact ⟨ds, rfl, fun hmem => h (mem_append_right _ hmem), hself ds⟩
  · rintro ⟨ds, rfl, -, hread⟩
    obtain ⟨hsplit, -, hfeed, -, hself⟩ := quotedRest_self hread
    have hcs : withReturns cs = out ++ withReturns ds := by
      rw [show cs = out ++ ds from hsplit, withReturns_append, withReturns_of_not_mem hfeed]
    rw [hcs]
    exact hself (withReturns ds)

theorem returned_quote (h : Returned c c') (hquote : c.peek = some '"') :
    ∃ cs p, '\r' ∉ cs ∧ c = ⟨'"' :: cs, p⟩ ∧ c' = ⟨'"' :: withReturns cs, p⟩ := by
  cases h with
  | @ahead cs p h =>
    cases cs with
    | nil => cases hquote
    | cons x cs =>
      obtain rfl : x = '"' := Option.some.inj hquote
      refine ⟨cs, p, fun hmem => h (mem_cons_of_mem _ hmem), rfl, ?_⟩
      rw [withReturns_cons (by decide)]
  | ended => cases hquote

/-! ## Both texts side by side -/

theorem peek_returned (h : Returned c c') (hx : isSolid x = true) : c.peek = some x ↔ c'.peek = some x := by
  cases h with
  | @ahead cs p h =>
    cases cs with
    | nil => exact Iff.rfl
    | cons y cs =>
      by_cases hy : y = '\n'
      · subst hy
        have hline : x ≠ '\n' := by
          rintro rfl
          exact absurd hx (by decide)
        have hreturn : x ≠ '\r' := by
          rintro rfl
          exact absurd hx (by decide)
        simp [peek, hline.symm, hreturn.symm]
      · simp [peek, withReturns_cons hy]
  | ended => exact Iff.rfl

/-- A character that is seen by both cursors is passed by both, and has one position. -/
theorem pass_returned (h : Returned c c') (hx : isSolid x = true) (hpeek : c.peek = some x) :
    c.pos = c'.pos ∧ Returned c.next c'.next := by
  have hline : x ≠ '\n' := by
    rintro rfl
    exact absurd hx (by decide)
  cases h with
  | @ahead cs p h =>
    cases cs with
    | nil => cases hpeek
    | cons y cs =>
      obtain rfl : y = x := Option.some.inj hpeek
      rw [withReturns_cons hline]
      exact ⟨rfl, .ahead fun hmem => h (mem_cons_of_mem _ hmem)⟩
  | ended => exact absurd (Option.some.inj hpeek).symm hline

theorem lockstep_returned : Lockstep Returned where
  peek h hx := peek_returned h hx
  pos h hx hpeek := (pass_returned h hx hpeek).1
  next h hx hpeek := (pass_returned h hx hpeek).2
  skipSpace {c c'} h := by
    obtain ⟨d, d', hs, hs', hd⟩ := skipSpace_returned h
    rw [hs, hs']
    exact .ok hd
  quoted {c c'} h hquote := by
    obtain ⟨cs, p, hcs, rfl, rfl⟩ := returned_quote h hquote
    refine .map (S := Same Returned) ?_ ?_
    · rintro ⟨out, ⟨ds, q⟩⟩ hread
      have hds : '\r' ∉ ds := by
        obtain ⟨hsplit, -⟩ := quotedRest_self hread
        intro hmem
        refine hcs ?_
        rw [show cs = out ++ ds from hsplit]
        exact mem_append_right _ hmem
      exact ⟨_, (quotedRest_returned_iff hcs).mpr ⟨ds, rfl, hds, hread⟩, rfl, .ahead hds⟩
    · rintro ⟨out, d⟩ ⟨out', d'⟩ ⟨rfl, hd⟩
      exact ⟨rfl, hd⟩

theorem lockstep_flip_returned : Lockstep (flip Returned) where
  peek h hx := (peek_returned h hx).symm
  pos h hx hpeek := (pass_returned h hx ((peek_returned h hx).mpr hpeek)).1.symm
  next h hx hpeek := (pass_returned h hx ((peek_returned h hx).mpr hpeek)).2
  skipSpace {c c'} h := by
    obtain ⟨d, d', hs, hs', hd⟩ := skipSpace_returned h
    rw [hs, hs']
    exact .ok hd.swap
  quoted {c c'} h hquote := by
    obtain ⟨cs, p, hcs, rfl, rfl⟩ := returned_quote h ((peek_returned h (by decide)).mpr hquote)
    refine .map (S := Same (flip Returned)) ?_ ?_
    · rintro ⟨out, ⟨r, q⟩⟩ hread
      obtain ⟨ds, rfl, hds, hread'⟩ := (quotedRest_returned_iff hcs).mp hread
      exact ⟨_, hread', rfl, .ahead hds⟩
    · rintro ⟨out, d⟩ ⟨out', d'⟩ ⟨rfl, hd⟩
      exact ⟨rfl, hd⟩

/-! ## Declarations -/

/-- Contents that are the same up to the blanks around them, and lead to related cursors. -/
def ContentsAlike (R : Cursor → Cursor → Prop) (c c' : Cursor) : Prop :=
  Text.trim (c.word isContentsChar).1 = Text.trim (c'.word isContentsChar).1 ∧
    R (c.word isContentsChar).2 (c'.word isContentsChar).2

/-- Declarations are read alike where their contents are. -/
theorem Lockstep.simulation (hR : Lockstep R) (hcontents : ∀ {c c'}, R c c' → ContentsAlike R c c') :
    Simulation R fun _ => True where
  toLockstep := hR
  declare {c c' d k} h _ hc := by
    obtain ⟨e, f, raw, hw, hname, hcolon, hx, hkind, hcolon', hy, htrim, hne, hpos⟩ := declare_iff.mp hc
    obtain ⟨e', hw', he, hstart⟩ := hR.word (fun x => isSolid_of_isNameChar) h hw
    obtain ⟨f', hx', hf, -⟩ := hR.word (fun x => isSolid_of_isNameChar) (hR.next he (by decide) hcolon) hx
    obtain ⟨hraw, hd⟩ := hcontents (hR.next hf (by decide) hcolon')
    rw [hy] at hraw hd
    refine ⟨_, declare_iff.mpr ⟨e', f', (f'.next.word isContentsChar).1, hw', hname,
      (hR.peek he (by decide)).mp hcolon, hx', hkind, (hR.peek hf (by decide)).mp hcolon', rfl,
      htrim.trans hraw, hne, hpos.trans (hstart hname)⟩, hd⟩

/-- What a declaration takes in ends at a separator or at the end of the text. -/
theorem contents_cases (cs : List Char) :
    (∀ x ∈ cs, isContentsChar x = true) ∨ ∃ (w : String) (x : Char) (r : List Char), cs = w.toList ++ x :: r ∧
      (∀ y ∈ w.toList, isContentsChar y = true) ∧ isContentsChar x = false := by
  by_cases hall : ∀ x ∈ cs, isContentsChar x = true
  · exact .inl hall
  · have hstop : ∃ x ∈ cs, isContentsChar x = false := by simpa using hall
    exact .inr (exists_word_of_stop hstop)

theorem not_mem_line_of_contents (h : ∀ x ∈ cs, isContentsChar x = true) : '\n' ∉ cs :=
  fun hmem => absurd (h _ hmem) (by decide)

theorem word_all {accept : Char → Bool} (h : ∀ x ∈ cs, accept x = true) (p : Position) :
    word ⟨cs, p⟩ accept = (String.ofList cs, ⟨[], p.advanceAll cs⟩) := by
  have hdrop : cs.dropWhile accept = [] := by simpa [dropWhile_eq_nil_iff] using h
  have htake : cs.takeWhile accept = cs := by simpa [takeWhile_eq_self_iff] using h
  simp only [word, skipWhile, hdrop, htake]

/-- Contents differ by the return of their line at most. -/
theorem contents_returned (h : Returned c c') : ContentsAlike Returned c c' := by
  cases h with
  | @ahead cs p h =>
    rcases contents_cases cs with hall | ⟨w, x, r, rfl, hw, hx⟩
    · rw [ContentsAlike, withReturns_of_not_mem (not_mem_line_of_contents hall), word_all hall]
      exact ⟨rfl, .ahead not_mem_nil⟩
    · have hr : '\r' ∉ r := fun hmem => h (mem_append_right _ (mem_cons_of_mem _ hmem))
      rw [ContentsAlike, withReturns_append, withReturns_of_not_mem (not_mem_line_of_contents hw),
        word_append hw hx]
      by_cases hline : x = '\n'
      · subst hline
        have hsplit : w.toList ++ withReturns ('\n' :: r) = (w ++ "\r").toList ++ '\n' :: withReturns r := by
          simp
        have hw' : ∀ y ∈ (w ++ "\r").toList, isContentsChar y = true := by
          intro y hy
          rw [String.toList_append, mem_append] at hy
          rcases hy with hy | hy
          · exact hw y hy
          · rw [mem_singleton.mp hy]
            decide
        rw [hsplit, word_append hw' hx]
        refine ⟨?_, .ended hr ?_⟩
        · rw [trim, trim, String.toList_append]
          exact congrArg String.ofList (trimChars_append_blank (by decide) w.toList).symm
        · rw [p.advanceAll_line (not_mem_line_of_contents hw), p.advanceAll_line (not_mem_line_of_contents hw')]
      · rw [withReturns_cons hline, word_append hw hx]
        refine ⟨rfl, ?_⟩
        rw [← withReturns_cons hline]
        exact .ahead fun hmem => h (mem_append_right _ hmem)
  | ended h hline =>
    have hstop : ∀ (r : List Char) (p : Position), word ⟨'\n' :: r, p⟩ isContentsChar = ("", ⟨'\n' :: r, p⟩) := by
      intro r p
      refine word_of_stop fun x hx => ?_
      rw [← Option.some.inj hx]
      decide
    rw [ContentsAlike, hstop, hstop]
    exact ⟨rfl, .ended h hline⟩

theorem statements_withReturns_iff (h : '\r' ∉ cs) {ss : List Statement} :
    (ofList (withReturns cs)).statements = (ss, none) ↔ (ofList cs).statements = (ss, none) := by
  have hpair : Returned (ofList cs) (ofList (withReturns cs)) := .ahead h
  constructor
  · intro hread
    have hR : Simulation (flip Returned) fun _ => True := lockstep_flip_returned.simulation fun {c c'} h =>
      ⟨(contents_returned h).1.symm, (contents_returned h).2⟩
    exact hR.statements hpair hread fun _ _ => trivial
  · intro hread
    have hR : Simulation Returned fun _ => True := lockstep_returned.simulation contents_returned
    exact hR.statements hpair hread fun _ _ => trivial

end Cursor

namespace Graph

/-- A text with the statements of another one is read as the same graph. -/
theorem parse_of_statements {text text' : String} {g : Graph} (h : parse text = .ok g)
    (hsame : ∀ ss, Statement.ofText text = (ss, none) → Statement.ofText text' = (ss, none)) :
    parse text' = .ok g := by
  obtain ⟨ss, hss, -⟩ := parse_eq_ok h
  rw [parse, hsame ss hss, ← hss]
  exact h

/-- Line ends do not matter. A text without carriage returns, and the text with one before every line feed, are
read as the same graph, positions and contents of declarations included, or are both refused. -/
theorem parse_withReturns_iff {text : String} (h : '\r' ∉ text.toList) (g : Graph) :
    parse (String.ofList (Text.withReturns text.toList)) = .ok g ↔ parse text = .ok g := by
  have hiff : ∀ ss, Statement.ofText (String.ofList (Text.withReturns text.toList)) = (ss, none) ↔
      Statement.ofText text = (ss, none) := by
    intro ss
    rw [Statement.ofText, Statement.ofText, String.toList_ofList]
    exact Cursor.statements_withReturns_iff h
  constructor
  · intro hg
    exact parse_of_statements hg fun ss => (hiff ss).mp
  · intro hg
    exact parse_of_statements hg fun ss => (hiff ss).mpr

/-- Lines that end in a comment, in contents with a blank behind them, in a clause and in a chain; and a quoted
value that is open at the end of its line, which is refused with either line end. -/
theorem parse_withReturns_iff_lines :
    ('\r' ∉ "# c\nDECLARE=x:fbp:y z \n a(x:k=\"#\", # d\n l\n) OUT -> IN _(t)\nOPTION=a.k:o\n".toList ∧
      parse "# c\r\nDECLARE=x:fbp:y z \r\n a(x:k=\"#\", # d\r\n l\r\n) OUT -> IN _(t)\r\nOPTION=a.k:o\r\n" = .ok
        { nodes := [⟨"a", "x", [⟨"k", "\"#\"", ⟨3, 6⟩⟩, ⟨"l", "", ⟨4, 2⟩⟩], ⟨3, 2⟩⟩,
            ⟨"#anon:5:13", "t", [], ⟨5, 13⟩⟩]
          connections := [⟨0, ⟨"OUT", none⟩, 1, ⟨"IN", none⟩, ⟨5, 3⟩⟩]
          declarations := [⟨"x", "fbp", "y z", ⟨2, 9⟩⟩]
          options := [⟨0, "k", "o", ⟨6, 8⟩⟩] }) ∧
    '\r' ∉ "a(x:k=\"l\n\")".toList ∧ ∀ g, parse "a(x:k=\"l\r\n\")" ≠ .ok g := by
  have hfirst : '\r' ∉ "# c\nDECLARE=x:fbp:y z \n a(x:k=\"#\", # d\n l\n) OUT -> IN _(t)\nOPTION=a.k:o\n".toList := by
    decide +kernel
  have hsecond : '\r' ∉ "a(x:k=\"l\n\")".toList := by decide +kernel
  refine ⟨⟨hfirst, ?_⟩, hsecond, fun g hg => ?_⟩
  · exact (parse_withReturns_iff hfirst _).mpr (by decide +kernel)
  · have hrefused : parse "a(x:k=\"l\n\")" = .error ⟨⟨1, 7⟩, .unterminatedString⟩ := by decide +kernel
    have hread := (parse_withReturns_iff hsecond g).mp hg
    rw [hrefused] at hread
    cases hread

end Graph

end FlowCompiler
