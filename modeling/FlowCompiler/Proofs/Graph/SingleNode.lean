import FlowCompiler.Proofs.Graph.WellFormed

/-!
# A flow of one node

Readers at the parts of a text `name(component:key=value)`: each takes its own part and leaves the rest,
as long as what follows cannot belong to it.

Main statement: `Graph.parse_single`. The text is read as a graph with one node that has the one setting,
for every value that can be read and ends before the bracket.
-/

namespace FlowCompiler

open List

/-- A character that no blank or comment starts with. -/
def isSolid (x : Char) : Bool := x ∉ [' ', '\t', '\r', '\n', '#']

theorem isSolid_of_isSettingChar {x : Char} (h : isSettingChar x = true) : isSolid x = true := by
  by_contra hx
  simp only [isSolid, mem_cons, not_mem_nil, or_false, not_or, decide_eq_true_eq] at hx
  have hcases : x = ' ' ∨ x = '\t' ∨ x = '\r' ∨ x = '\n' ∨ x = '#' := by tauto
  rcases hcases with rfl | rfl | rfl | rfl | rfl <;> exact absurd h (by decide)

theorem isSettingChar_of_isComponentChar {x : Char} (h : isComponentChar x = true) :
    isSettingChar x = true := by
  simp [isSettingChar, h]

theorem isComponentChar_of_isNameChar {x : Char} (h : isNameChar x = true) :
    isComponentChar x = true := by
  simp [isComponentChar, h]

namespace Cursor

variable {c d e f : Cursor} {x : Char} {ss : List Statement}

/-! ## Loops, unfolded -/

theorem skipBlank_eq (c : Cursor) : c.skipBlank = c.skipSpace >>= fun d =>
    if d.peek = some '\n' then d.next.skipBlank else .ok d := by
  rw [skipBlank]
  split <;> simp [*, bind, Except.bind]

theorem skipBlank_of_line (hs : c.skipSpace = .ok d) (hp : d.peek = some '\n') :
    c.skipBlank = d.next.skipBlank := by
  rw [skipBlank_eq, hs]
  exact if_pos hp

theorem skipBlank_of_stop (hs : c.skipSpace = .ok d) (hp : ¬ d.peek = some '\n') : c.skipBlank = .ok d := by
  rw [skipBlank_eq, hs]
  exact if_neg hp

theorem settings_eq (c : Cursor) : c.settings = c.setting >>= fun (m, d) =>
    if d.peek = some ',' then d.next.settings.map fun (ms, e) => (m :: ms, e) else .ok ([m], d) := by
  rw [settings]
  split <;> simp [*, bind, Except.bind]

theorem settings_of_comma {m : Meta} (hm : c.setting = .ok (m, d)) (hp : d.peek = some ',') :
    c.settings = d.next.settings.map fun (ms, e) => (m :: ms, e) := by
  rw [settings_eq, hm]
  exact if_pos hp

theorem settings_single {m : Meta} (hm : c.setting = .ok (m, d)) (hp : d.peek ≠ some ',') :
    c.settings = .ok ([m], d) := by
  rw [settings_eq, hm]
  exact if_neg hp

theorem links_eq (c : Cursor) : c.links =
    match c.skipSpace with
    | .error e => ([], .error e)
    | .ok d =>
      if d.atStatementEnd then ([], .ok d)
      else
        match d.link with
        | .error e => ([], .error e)
        | .ok (l, e) => (l :: e.links.1, e.links.2) := by
  rw [links]
  split <;> simp only [*]
  split
  · rfl
  split <;> simp only [*]

theorem links_of_end (hs : c.skipSpace = .ok d) (hend : d.atStatementEnd = true) : c.links = ([], .ok d) := by
  rw [links_eq, hs]
  exact if_pos hend

theorem links_of_link {l : Link} (hs : c.skipSpace = .ok d) (hend : ¬ d.atStatementEnd = true)
    (hl : d.link = .ok (l, e)) : c.links = (l :: e.links.1, e.links.2) := by
  rw [links_eq]
  simp only [hs, if_neg hend, hl]

theorem statements_eq (c : Cursor) : c.statements =
    match c.skipSpace with
    | .error e => ([], some e)
    | .ok d =>
      match d.peek with
      | none => ([], none)
      | some x =>
        if x = '\n' ∨ x = ',' then d.next.statements
        else
          match d.statement with
          | (ss, .error e) => (ss, some e)
          | (ss, .ok e) =>
            match e.skipSpace with
            | .error f => (ss, some f)
            | .ok f =>
              if f.atStatementEnd then (ss ++ f.next.statements.1, f.next.statements.2)
              else (ss, some ⟨f.pos, .trailing⟩) := by
  rw [statements]
  split <;> simp only [*]
  split <;> simp only [*]
  split
  · rfl
  split <;> simp only [*]
  split <;> simp only [*]

theorem statements_of_end (hs : c.skipSpace = .ok d) (hp : d.peek = none) : c.statements = ([], none) := by
  rw [statements_eq]
  simp only [hs, hp]

theorem statements_of_separator (hs : c.skipSpace = .ok d) (hp : d.peek = some x) (hx : x = '\n' ∨ x = ',') :
    c.statements = d.next.statements := by
  rw [statements_eq]
  simp only [hs, hp, if_pos hx]

theorem statements_of_statement (hs : c.skipSpace = .ok d) (hp : d.peek = some x)
    (hx : ¬ (x = '\n' ∨ x = ',')) (ht : d.statement = (ss, .ok e)) (hf : e.skipSpace = .ok f)
    (hend : f.atStatementEnd = true) : c.statements = (ss ++ f.next.statements.1, f.next.statements.2) := by
  rw [statements_eq]
  simp only [hs, hp, if_neg hx, ht, hf, if_pos hend]

/-! ## Words and settings -/

theorem word_append {accept : Char → Bool} {w : String} {x : Char} (hw : ∀ c ∈ w.toList, accept c = true)
    (hx : accept x = false) (r : List Char) (p : Position) :
    word ⟨w.toList ++ x :: r, p⟩ accept = (w, ⟨x :: r, p.advanceAll w.toList⟩) := by
  have htake : (w.toList ++ x :: r).takeWhile accept = w.toList := by
    rw [takeWhile_append_of_pos hw]
    simp [hx]
  have hdrop : (w.toList ++ x :: r).dropWhile accept = x :: r := by
    rw [dropWhile_append_of_pos hw]
    simp [hx]
  simp only [word, skipWhile, htake, hdrop, String.ofList_toList]

theorem skipSpace_of_isSolid (h : isSolid x = true) (r : List Char) (p : Position) :
    skipSpace ⟨x :: r, p⟩ = .ok ⟨x :: r, p⟩ := by
  simp only [isSolid, mem_cons, not_mem_nil, or_false, not_or, decide_eq_true_eq] at h
  simp [skipSpace, skipSpace.go, h]

theorem skipBlank_of_isSolid (h : isSolid x = true) (r : List Char) (p : Position) :
    skipBlank ⟨x :: r, p⟩ = .ok ⟨x :: r, p⟩ := by
  refine skipBlank_of_stop (skipSpace_of_isSolid h r p) fun hline => ?_
  obtain rfl : x = '\n' := Option.some.inj hline
  exact absurd h (by decide)

/-- The first character of a word that is not empty. -/
theorem exists_cons_of_ne_empty {w : String} (hw : w ≠ "") : ∃ x xs, w.toList = x :: xs := by
  cases h : w.toList with
  | nil => exact absurd (String.toList_eq_nil_iff.mp h) hw
  | cons x xs => exact ⟨x, xs, rfl⟩

/-- A setting whose value is read up to a bracket. -/
theorem setting_single {key value : String} {text : List Char} {x : Char} (hkey : key ≠ "")
    (hchars : ∀ c ∈ key.toList, isSettingChar c = true) (hx : isSolid x = true)
    (hvalue : ∀ p, ∃ p', settingValue ⟨x :: text, p⟩ = .ok (value, ⟨[')'], p'⟩)) (p : Position) :
    ∃ p', setting ⟨key.toList ++ '=' :: x :: text, p⟩ = .ok (⟨key, value, p⟩, ⟨[')'], p'⟩) := by
  obtain ⟨p', hread⟩ := hvalue ((p.advanceAll key.toList).advance '=')
  refine ⟨p', ?_⟩
  have hstart : skipBlank ⟨key.toList ++ '=' :: x :: text, p⟩ =
      .ok ⟨key.toList ++ '=' :: x :: text, p⟩ := by
    obtain ⟨k, ks, hk⟩ := exists_cons_of_ne_empty hkey
    rw [hk, cons_append]
    exact skipBlank_of_isSolid (isSolid_of_isSettingChar (hchars k (hk ▸ mem_cons_self))) _ p
  have hequals := skipBlank_of_isSolid (show isSolid '=' = true by decide) (x :: text)
    (p.advanceAll key.toList)
  have hvalue := skipBlank_of_isSolid hx text ((p.advanceAll key.toList).advance '=')
  have hend := skipBlank_of_isSolid (show isSolid ')' = true by decide) [] p'
  simp only [setting, hstart, bind, Except.bind, word_append hchars (show isSettingChar '=' = false by decide),
    if_neg hkey, hequals, peek, head?_cons, if_true, next, hvalue, hread, hend]

/-- A statement that is all of a text. -/
theorem statements_single {r : List Char} {p p' : Position} (hsolid : isSolid x = true) (hx : x ≠ ',')
    (h : statement ⟨x :: r, p⟩ = (ss, .ok ⟨[], p'⟩)) : statements ⟨x :: r, p⟩ = (ss, none) := by
  have hline : x ≠ '\n' := by
    rintro rfl
    exact absurd hsolid (by decide)
  have hend : statements (next ⟨[], p'⟩) = ([], none) := statements_of_end rfl rfl
  rw [statements_of_statement (skipSpace_of_isSolid hsolid r p) rfl (not_or.mpr ⟨hline, hx⟩) h rfl rfl, hend,
    append_nil]

end Cursor

/-- The text of a node with one setting. -/
def singleText (name component key value : String) : String :=
  name ++ "(" ++ component ++ ":" ++ key ++ "=" ++ value ++ ")"

section Single

variable {name component key value : String} {x : Char} {text : List Char}

theorem toList_singleText : (singleText name component key value).toList =
    name.toList ++ '(' :: (component.toList ++ ':' :: (key.toList ++ '=' :: (value.toList ++ [')']))) := by
  simp [singleText]

namespace Cursor

/-- A component clause with one setting. -/
theorem clause_single (hcomponent : ∀ c ∈ component.toList, isComponentChar c = true) (hkey : key ≠ "")
    (hchars : ∀ c ∈ key.toList, isSettingChar c = true) (hx : isSolid x = true)
    (hvalue : ∀ p, ∃ p', settingValue ⟨x :: text, p⟩ = .ok (value, ⟨[')'], p'⟩)) (p : Position) :
    ∃ pos p', clause ⟨'(' :: (component.toList ++ ':' :: (key.toList ++ '=' :: x :: text)), p⟩ =
      .ok ((component, [⟨key, value, pos⟩]), ⟨[], p'⟩) := by
  have hword := word_append hcomponent (show isComponentChar ':' = false by decide)
    (key.toList ++ '=' :: x :: text) (p.advance '(')
  set start := (p.advance '(').advanceAll component.toList
  obtain ⟨p', hsetting⟩ := setting_single hkey hchars hx hvalue (start.advance ':')
  have hclause : clauseSettings ⟨':' :: (key.toList ++ '=' :: x :: text), start⟩ =
      .ok ([⟨key, value, start.advance ':'⟩], ⟨[')'], p'⟩) := by
    rw [clauseSettings, if_pos (by rfl)]
    exact settings_single hsetting (by simp [peek])
  have hend := skipBlank_of_isSolid (show isSolid ')' = true by decide) [] p'
  refine ⟨start.advance ':', p'.advance ')', ?_⟩
  simp only [clause, peek, head?_cons, if_true, next, hword, hclause, bind, Except.bind, hend,
    expect]

/-- A text of one node is one statement. -/
theorem ofText_single (hname : IsName name) (hcomponent : ∀ c ∈ component.toList, isComponentChar c = true)
    (hne : component ≠ "") (hkey : key ≠ "") (hchars : ∀ c ∈ key.toList, isSettingChar c = true)
    (hx : isSolid x = true) (htext : value.toList ++ [')'] = x :: text)
    (hvalue : ∀ p, ∃ p', settingValue ⟨x :: text, p⟩ = .ok (value, ⟨[')'], p'⟩)) :
    ∃ pos, Statement.ofText (singleText name component key value) =
      ([.chain ⟨name, component, [⟨key, value, pos⟩], .start⟩ []], none) := by
  obtain ⟨pos, p', hclause⟩ := clause_single hcomponent hkey hchars hx hvalue
    (Position.start.advanceAll name.toList)
  refine ⟨pos, ?_⟩
  rw [Statement.ofText, toList_singleText, htext, ofList]
  set rest := component.toList ++ ':' :: (key.toList ++ '=' :: x :: text)
  have hword := word_append hname.2 (show isNameChar '(' = false by decide) rest .start
  have hmention : mention ⟨name.toList ++ '(' :: rest, .start⟩ =
      .ok (⟨name, component, [⟨key, value, pos⟩], .start⟩, ⟨[], p'⟩) := by
    simp [mention, hword, hname.1, hclause, bind, Except.bind, hne]
  have hlinks : links ⟨[], p'⟩ = ([], .ok ⟨[], p'⟩) := links_of_end rfl rfl
  have hstatement : statement ⟨name.toList ++ '(' :: rest, .start⟩ =
      ([.chain ⟨name, component, [⟨key, value, pos⟩], .start⟩ []], .ok ⟨[], p'⟩) := by
    simp [statement, hword, peek, chain, hmention, hlinks]
  obtain ⟨n, ns, hn⟩ := exists_cons_of_ne_empty hname.1
  have hchar : isNameChar n = true := hname.2 n (hn ▸ mem_cons_self)
  have hsolid := isSolid_of_isSettingChar
    (isSettingChar_of_isComponentChar (isComponentChar_of_isNameChar hchar))
  rw [hn, cons_append] at hstatement ⊢
  refine statements_single hsolid ?_ hstatement
  rintro rfl
  exact absurd hchar (by decide)

end Cursor

/-- A flow of one node has that node, with its one setting. -/
theorem Graph.parse_single (hname : IsName name)
    (hcomponent : ∀ c ∈ component.toList, isComponentChar c = true) (hne : component ≠ "")
    (hkey : key ≠ "") (hchars : ∀ c ∈ key.toList, isSettingChar c = true) (hx : isSolid x = true)
    (htext : value.toList ++ [')'] = x :: text)
    (hvalue : ∀ p, ∃ p', Cursor.settingValue ⟨x :: text, p⟩ = .ok (value, ⟨[')'], p'⟩)) :
    ∃ g n pos, parse (singleText name component key value) = .ok g ∧ g.nodes = [n] ∧
      n.component = component ∧ n.settings = [⟨key, value, pos⟩] := by
  obtain ⟨pos, hstatements⟩ := Cursor.ofText_single hname hcomponent hne hkey hchars hx htext hvalue
  set m : Mention := ⟨name, component, [⟨key, value, pos⟩], .start⟩
  refine ⟨{ nodes := [m.node] }, m.node, pos, ?_, rfl, rfl, rfl⟩
  have hadd : addAll {} [.chain m []] = .ok { nodes := [m.node] } := by
    simp [addAll, add, addMention, place, index?, modifyNode, Node.addComponent, Node.addSettings, addLinks,
      bind, Except.bind, Except.map, hne, m, Mention.node]
  have htyped : checkTyped { nodes := [m.node] } = .ok { nodes := [m.node] } := by
    simp [checkTyped, m, Mention.node, hne]
  simp only [parse, hstatements, hadd, bind, Except.bind, htyped]

end Single

end FlowCompiler
