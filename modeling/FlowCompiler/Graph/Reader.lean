import FlowCompiler.Graph.Cursor
import FlowCompiler.Graph.Statement
import FlowCompiler.Text.Blank

/-!
# Statements read from a flow text

One reader per part of the grammar: port references, settings, component clauses, links, and the four
kinds of statements. `Cursor.statements` reads a whole text. It returns the statements up to the first
fault of form, so that what they say can be judged before that fault.
-/

namespace FlowCompiler

variable {read : Cursor → Except ParseError (Statement × Cursor)} {ss : List Statement} {p : PortRef}
  {l : Link} {m : Mention} {w : String}

def maxIndex : Nat := 0x7FFFFFFFFFFFFFFF

/-- Characters of names of nodes, ports, types and options. -/
def isNameChar (c : Char) : Bool := c.isAlphanum || c == '_' || c == '-'

def isComponentChar (c : Char) : Bool := isNameChar c || c == '/'

/-- Characters of setting names and of values without quotes. -/
def isSettingChar (c : Char) : Bool :=
  isComponentChar c || c == '|' || c == ':' || c == '.' || c == '+'

/-- Characters of the contents of a declaration: all but those that end a statement. -/
def isContentsChar (c : Char) : Bool := c != '\n' && c != ','

/-- Characters that may follow a backslash in a quoted value. -/
def isEscapable (c : Char) : Bool := "abfnrtv\\\"'".toList.contains c

theorem bind_eq_ok {ε α β : Type} {x : Except ε α} {f : α → Except ε β} {b : β} :
    (x >>= f) = .ok b ↔ ∃ a, x = .ok a ∧ f a = .ok b := by
  cases x with
  | error e => simp [bind, Except.bind]
  | ok a => simp [bind, Except.bind]

theorem map_eq_ok {ε α β : Type} {x : Except ε α} {f : α → β} {b : β} :
    x.map f = .ok b ↔ ∃ a, x = .ok a ∧ f a = b := by
  cases x <;> simp [Except.map]

namespace Cursor

variable {c d : Cursor}

/-! ## Ports -/

def digitsValue (digits : String) : Nat :=
  digits.toList.foldl (fun n d => n * 10 + (d.toNat - '0'.toNat)) 0

/-- Reads `[index]`; the cursor stands at the opening bracket. -/
def index (c : Cursor) : Except ParseError (Nat × Cursor) :=
  let (digits, d) := c.next.word Char.isDigit
  if digits == "" || d.peek != some ']' then .error ⟨c.pos, .badIndex⟩
  else if digitsValue digits ≤ maxIndex then .ok (digitsValue digits, d.next)
  else .error ⟨c.pos, .indexTooLarge digits⟩

/-- Reads `NAME` or `NAME[index]`. Without a name there is no port, and nothing is read. -/
def port (c : Cursor) : Except ParseError (PortRef × Cursor) :=
  let (name, d) := c.word isNameChar
  if name == "" || d.peek != some '[' then .ok (⟨name, none⟩, d)
  else d.index.map fun (i, e) => (⟨name, some i⟩, e)

theorem index_reading (c : Cursor) : c.Reading 0 Prod.snd c.index := by
  unfold index
  rcases hw : c.next.word Char.isDigit with ⟨digits, d⟩
  dsimp only
  split
  · exact .error (.refl c) _
  · split
    · exact .ok ((next_gets c).trans ((word_gets hw).trans (next_gets d)))
    · exact .error (.refl c) _

theorem port_reading (c : Cursor) : c.Reading 0 Prod.snd c.port := by
  unfold port
  rcases hw : c.word isNameChar with ⟨name, d⟩
  dsimp only
  split
  · exact .ok (word_gets hw)
  · exact .map (.after (word_gets hw) (index_reading d)) fun _ => rfl

theorem port_reaches (h : c.port = .ok (p, d)) : c.Reaches d :=
  ((port_reading c).gets _ h).reaches

/-- A port reference is either a name alone or a name and an index. -/
theorem port_eq_ok (h : c.port = .ok (p, d)) : ∃ d1, c.word isNameChar = (p.name, d1) ∧ d1.Gets 0 d := by
  unfold port at h
  rcases hw : c.word isNameChar with ⟨name, d1⟩
  simp only [hw] at h
  split at h
  · cases h
    exact ⟨d, rfl, .refl d⟩
  · obtain ⟨r, hi, ⟨⟩⟩ := map_eq_ok.mp h
    exact ⟨d1, rfl, (index_reading d1).gets r hi⟩

theorem port_gets_one (h : c.port = .ok (p, d)) (hp : p.name ≠ "") : c.Gets 1 d := by
  obtain ⟨d1, hw, hd⟩ := port_eq_ok h
  exact (word_gets_one hw hp).trans hd

/-! ## Settings and component clauses -/

/-- Reads a quoted value from behind its opening quote, at `opened`, to its closing quote, which is kept. -/
def quotedRest (opened : Position) : List Char → Position → Except ParseError (List Char × Cursor)
  | [], _ => .error ⟨opened, .unterminatedString⟩
  | x :: r, p =>
    if x = '\n' then .error ⟨opened, .unterminatedString⟩
    else if x = '"' then .ok (['"'], ⟨r, p.advance x⟩)
    else if x = '\\' then
      match r with
      | [] => .error ⟨opened, .unterminatedString⟩
      | e :: r' =>
        if isEscapable e then
          (quotedRest opened r' ((p.advance x).advance e)).map fun (cs, d) => (x :: e :: cs, d)
        else .error ⟨p.advance x, .badEscape⟩
    else (quotedRest opened r (p.advance x)).map fun (cs, d) => (x :: cs, d)

/-- Reads a quoted value with its quotes; the cursor stands at the opening quote. -/
def quoted (c : Cursor) : Except ParseError (String × Cursor) :=
  (quotedRest c.pos c.next.rest c.next.pos).map fun (cs, d) => (String.ofList ('"' :: cs), d)

/-- Reads the value after `=`: quoted, or a possibly empty run of setting characters. -/
def settingValue (c : Cursor) : Except ParseError (String × Cursor) :=
  if c.peek = some '"' then c.quoted else .ok (c.word isSettingChar)

def setting (c : Cursor) : Except ParseError (Meta × Cursor) := do
  let c ← c.skipBlank
  let (key, d) := c.word isSettingChar
  if key = "" then .error ⟨c.pos, .noSettingName⟩
  else do
    let d ← d.skipBlank
    if d.peek = some '=' then do
      let e ← d.next.skipBlank
      let (value, e) ← e.settingValue
      let e ← e.skipBlank
      .ok (⟨key, value, c.pos⟩, e)
    else .ok (⟨key, "", c.pos⟩, d)

/-- An unterminated value is blamed on its opening quote. -/
theorem quotedRest_reading {opened : Position} (hc : c.Reaches d) (hd : d.pos = opened) {cs : List Char}
    {p : Position} (hcs : c.Gets 0 ⟨cs, p⟩) : c.Reading 0 Prod.snd (quotedRest opened cs p) := by
  have hopened : c.Reading 0 Prod.snd
      (.error ⟨opened, .unterminatedString⟩ : Except ParseError (List Char × Cursor)) :=
    hd ▸ .error hc _
  have hnext {x : Char} {r : List Char} {p : Position} (h : c.Gets 0 ⟨x :: r, p⟩) :
      c.Gets 0 ⟨r, p.advance x⟩ :=
    ⟨(h.trans (.cons x r p)).reaches, Nat.le_of_succ_le (h.trans (.cons x r p)).length_le⟩
  fun_induction quotedRest opened cs p with
  | case1 | case2 | case4 => exact hopened
  | case3 => exact .ok (hnext hcs)
  | case5 p e r' _ _ _ ih => exact .map (ih (hnext (hnext hcs))) fun _ => rfl
  | case6 p e r' _ _ _ => exact .error (d := ⟨e :: r', p.advance '\\'⟩) (hnext hcs).reaches _
  | case7 x r p _ _ _ ih => exact .map (ih (hnext hcs)) fun _ => rfl

theorem settingValue_reading (c : Cursor) : c.Reading 0 Prod.snd c.settingValue := by
  unfold settingValue
  split
  · exact .map (quotedRest_reading (.refl c) rfl (next_gets c)) fun _ => rfl
  · exact .ok (word_gets rfl)

theorem setting_reading (c : Cursor) : c.Reading 1 Prod.snd c.setting := by
  unfold setting
  refine (skipBlank_reading c).bind fun c1 _ h1 => ?_
  rcases hw : c1.word isSettingChar with ⟨key, d1⟩
  dsimp only
  split
  · exact .error h1.reaches _
  · next hkey =>
    refine .bind (.after (h1.trans (word_gets_one hw hkey)) (skipBlank_reading d1)) fun d2 _ h2 => ?_
    split
    · refine .bind (.after (h2.trans (next_gets d2)) (skipBlank_reading _)) fun e1 _ h3 => ?_
      refine .bind (.after h3 (settingValue_reading e1)) fun r _ h4 => ?_
      exact .bind (.after h4 (skipBlank_reading _)) fun _ _ h5 => .ok h5
    · exact .ok h2

theorem setting_gets {m : Meta} (h : c.setting = .ok (m, d)) : c.Gets 1 d := (setting_reading c).gets _ h

theorem setting_lt {m : Meta} (h : c.setting = .ok (m, d)) : d.rest.length < c.rest.length :=
  (setting_gets h).length_le

def settings (c : Cursor) : Except ParseError (List Meta × Cursor) :=
  match _h : c.setting with
  | .error e => .error e
  | .ok (m, d) =>
    if d.peek = some ',' then (settings d.next).map fun (ms, e) => (m :: ms, e)
    else .ok ([m], d)
termination_by c.rest.length
decreasing_by exact Nat.lt_of_le_of_lt (next_le d) (setting_lt _h)

theorem settings_reading (c : Cursor) : c.Reading 1 Prod.snd c.settings := by
  fun_induction settings c with
  | case1 c e h => exact (setting_reading c).of_error h
  | case2 c m d h _ ih =>
    have hsettings := Reading.after ((setting_gets h).trans (next_gets d)) ih
    exact .map (hsettings.weaken (Nat.le_add_left 1 _)) fun _ => rfl
  | case3 c m d h _ => exact .ok (setting_gets h)

/-- Reads the settings after a component's name, if a colon announces them. -/
def clauseSettings (c : Cursor) : Except ParseError (List Meta × Cursor) :=
  if c.peek = some ':' then c.next.settings else .ok ([], c)

theorem clauseSettings_reading (c : Cursor) : c.Reading 0 Prod.snd c.clauseSettings := by
  unfold clauseSettings
  split
  · exact .weaken (.after (next_gets c) (settings_reading _)) (Nat.zero_le _)
  · exact .ok (.refl c)

/-- Reads `(component)` or `(component:settings)`, or nothing without an opening bracket. -/
def clause (c : Cursor) : Except ParseError ((String × List Meta) × Cursor) :=
  if c.peek = some '(' then do
    let (component, d) := c.next.word isComponentChar
    let (ms, d) ← d.clauseSettings
    let d ← d.skipBlank
    let d ← d.expect ')' .unclosedComponent
    .ok ((component, ms), d)
  else .ok (("", []), c)

theorem clause_reading (c : Cursor) : c.Reading 0 Prod.snd c.clause := by
  unfold clause
  split
  · rcases hw : c.next.word isComponentChar with ⟨component, d0⟩
    refine .bind (.after ((next_gets c).trans (word_gets hw)) (clauseSettings_reading d0)) fun r _ h1 => ?_
    refine .bind (.after h1 (skipBlank_reading _)) fun d2 _ h2 => ?_
    exact .bind (.after h2 (expect_reading _ _ _)) fun _ _ h3 => .ok h3
  · exact .ok (.refl c)

/-! ## Chains -/

def mention (c : Cursor) : Except ParseError (Mention × Cursor) :=
  let (name, d) := c.word isNameChar
  if name = "" then .error ⟨c.pos, .noNode⟩
  else do
    let ((component, ms), d) ← d.clause
    if name == "_" && component == "" then .error ⟨c.pos, .anonymousWithoutComponent⟩
    else .ok (⟨name, component, ms, c.pos⟩, d)

theorem mention_reading (c : Cursor) : c.Reading 1 Prod.snd c.mention := by
  unfold mention
  rcases hw : c.word isNameChar with ⟨name, d0⟩
  dsimp only
  split
  · exact .error (.refl c) _
  · next hname =>
    refine .bind (.after (word_gets_one hw hname) (clause_reading d0)) fun r _ h => ?_
    split
    · exact .error (.refl c) _
    · exact .ok h

theorem mention_gets (h : c.mention = .ok (m, d)) : c.Gets 1 d := (mention_reading c).gets _ h

theorem mention_reaches (h : c.mention = .ok (m, d)) : c.Reaches d := (mention_gets h).reaches

def arrow (c : Cursor) : Except ParseError Cursor :=
  if c.peek == some '-' && c.next.peek == some '>' then .ok c.next.next
  else .error ⟨c.pos, .noArrow⟩

/-- Reads the rest of a link: from the source port to the node that the link leads to. -/
def link (c : Cursor) : Except ParseError (Link × Cursor) := do
  let (source, d) ← c.port
  if source.name = "" then .error ⟨c.pos, .noSourcePort⟩
  else do
    let d ← d.skipSpace
    let d ← d.arrow
    let e ← d.skipSpace
    let (target, f) ← e.port
    if target.name == "" || f.peek == some '(' then .error ⟨e.pos, .arrowWithoutPorts⟩
    else do
      let f ← f.skipSpace
      let (node, f) ← f.mention
      .ok (⟨source, target, node, c.pos⟩, f)

theorem arrow_reading (c : Cursor) : c.Reading 0 id c.arrow := by
  unfold arrow
  split
  · exact .ok ((next_gets c).trans (next_gets c.next))
  · exact .error (.refl c) _

theorem link_reading (c : Cursor) : c.Reading 1 Prod.snd c.link := by
  unfold link
  refine (port_reading c).bind fun r hr _ => ?_
  dsimp only
  split
  · exact .error (.refl c) _
  · next hsource =>
    refine .bind (.after (port_gets_one hr hsource) (skipSpace_reading _)) fun d2 _ h2 => ?_
    refine .bind (.after h2 (arrow_reading _)) fun d3 _ h3 => ?_
    refine .bind (.after h3 (skipSpace_reading _)) fun d4 _ h4 => ?_
    refine .bind (.after h4 (port_reading _)) fun t _ h5 => ?_
    split
    · exact .error h4.reaches _
    · refine .bind (.after h5 (skipSpace_reading _)) fun d6 _ h6 => ?_
      exact .bind (.after h6 (mention_reading _)) fun _ _ h7 => .weaken (.ok h7) (Nat.le_add_left 1 _)

theorem link_gets (h : c.link = .ok (l, d)) : c.Gets 1 d := (link_reading c).gets _ h

theorem link_lt (h : c.link = .ok (l, d)) : d.rest.length < c.rest.length := (link_gets h).length_le

theorem link_reaches (h : c.link = .ok (l, d)) : c.Reaches d := (link_gets h).reaches

/-- Reads links up to the end of the statement, and gives those before a fault. -/
def links (c : Cursor) : List Link × Except ParseError Cursor :=
  match _hs : c.skipSpace with
  | .error e => ([], .error e)
  | .ok d =>
    if d.atStatementEnd then ([], .ok d)
    else
      match _hl : d.link with
      | .error e => ([], .error e)
      | .ok (l, e) =>
        let (ls, r) := links e
        (l :: ls, r)
termination_by c.rest.length
decreasing_by exact Nat.lt_of_lt_of_le (link_lt _hl) (skipSpace_le _hs)

theorem links_reading (c : Cursor) : c.Reading 0 id c.links.2 := by
  fun_induction links c with
  | case1 c e h => exact (skipSpace_reading c).of_error h
  | case2 c d h => exact .ok (skipSpace_gets h)
  | case3 c d h1 _ e h2 => exact (Reading.after (skipSpace_gets h1) (link_reading d)).of_error h2
  | case4 c d h1 _ l e h2 ls r hr ih =>
    rw [hr] at ih
    exact .weaken (.after ((skipSpace_gets h1).trans (link_gets h2)) ih) (Nat.zero_le _)

theorem links_reaches {ls : List Link} (h : c.links = (ls, .ok d)) : c.Reaches d :=
  ((links_reading c).gets d (congrArg Prod.snd h)).reaches

/-- Reads a chain of nodes. A chain whose first node is at fault is no statement. -/
def chain (c : Cursor) : List Statement × Except ParseError Cursor :=
  match c.mention with
  | .error e => ([], .error e)
  | .ok (head, d) =>
    let (ls, r) := d.links
    ([.chain head ls], r)

theorem chain_reading (c : Cursor) : c.Reading 1 id c.chain.2 := by
  unfold chain
  split
  · next e h => exact (mention_reading c).of_error h
  · next head d h => exact .after (mention_gets h) (links_reading d)

/-! ## Exports and declarations -/

/-- Reads `node.port[index]:NAME`. -/
def exportPort (direction : Direction) (c : Cursor) : Except ParseError (Statement × Cursor) :=
  let (node, d) := c.word isNameChar
  if node = "" then .error ⟨c.pos, .exportWithoutNode⟩
  else do
    let d ← d.expect '.' .exportWithoutDot
    let (port, d) ← d.port
    if port.name = "" then .error ⟨d.pos, .exportWithoutPort⟩
    else do
      let d ← d.expect ':' .exportWithoutColon
      let (name, d) := d.word isNameChar
      if name = "" then .error ⟨d.pos, .exportWithoutName⟩
      else .ok (.exportPort direction node port name c.pos, d)

/-- Reads `name:kind:contents`; the contents run to the end of the statement. -/
def declare (c : Cursor) : Except ParseError (Statement × Cursor) :=
  let (name, d) := c.word isNameChar
  if name = "" then .error ⟨c.pos, .declarationWithoutName⟩
  else do
    let d ← d.expect ':' .declarationWithoutKindColon
    let (kind, d) := d.word isNameChar
    if kind = "" then .error ⟨d.pos, .declarationWithoutKind⟩
    else do
      let d ← d.expect ':' .declarationWithoutContentsColon
      let (raw, d) := d.word isContentsChar
      let contents := Text.trim raw
      if contents = "" then .error ⟨c.pos, .declarationWithoutContents name⟩
      else .ok (.declare ⟨name, kind, contents, c.pos⟩, d)

/-- Reads `node.option:name`. -/
def exportOption (c : Cursor) : Except ParseError (Statement × Cursor) :=
  let (node, d) := c.word isNameChar
  if node = "" then .error ⟨c.pos, .optionWithoutNode⟩
  else do
    let d ← d.expect '.' .optionWithoutDot
    let (option, d) := d.word isNameChar
    if option = "" then .error ⟨d.pos, .optionWithoutNodeOption⟩
    else do
      let d ← d.expect ':' .optionWithoutColon
      let (name, d) := d.word isNameChar
      if name = "" then .error ⟨d.pos, .optionWithoutName⟩
      else .ok (.exportOption node option name c.pos, d)

theorem exportPort_reading (direction : Direction) (c : Cursor) :
    c.Reading 0 Prod.snd (exportPort direction c) := by
  unfold exportPort
  rcases hw : c.word isNameChar with ⟨node, d0⟩
  dsimp only
  split
  · exact .error (.refl c) _
  · refine .bind (.after (word_gets hw) (expect_reading _ _ _)) fun d1 _ h1 => ?_
    refine .bind (.after h1 (port_reading _)) fun r _ h2 => ?_
    split
    · exact .error h2.reaches _
    · refine .bind (.after h2 (expect_reading _ _ _)) fun d3 _ h3 => ?_
      have h4 := h3.trans (skipWhile_gets _ isNameChar)
      split
      · exact .error h4.reaches _
      · exact .ok h4

theorem declare_reading (c : Cursor) : c.Reading 0 Prod.snd (declare c) := by
  unfold declare
  rcases hw : c.word isNameChar with ⟨name, d0⟩
  dsimp only
  split
  · exact .error (.refl c) _
  · refine .bind (.after (word_gets hw) (expect_reading _ _ _)) fun d1 _ h1 => ?_
    have h2 := h1.trans (skipWhile_gets _ isNameChar)
    split
    · exact .error h2.reaches _
    · refine .bind (.after h2 (expect_reading _ _ _)) fun d3 _ h3 => ?_
      split
      · exact .error (.refl c) _
      · exact .ok (h3.trans (word_gets rfl))

theorem exportOption_reading (c : Cursor) : c.Reading 0 Prod.snd (exportOption c) := by
  unfold exportOption
  rcases hw : c.word isNameChar with ⟨node, d0⟩
  dsimp only
  split
  · exact .error (.refl c) _
  · refine .bind (.after (word_gets hw) (expect_reading _ _ _)) fun d1 _ h1 => ?_
    have h2 := h1.trans (skipWhile_gets _ isNameChar)
    split
    · exact .error h2.reaches _
    · refine .bind (.after h2 (expect_reading _ _ _)) fun d3 _ h3 => ?_
      have h4 := h3.trans (skipWhile_gets _ isNameChar)
      split
      · exact .error h4.reaches _
      · exact .ok h4

/-! ## Statements -/

def keyword? (w : String) : Option (Cursor → Except ParseError (Statement × Cursor)) :=
  if w = "INPORT" then some (exportPort .input)
  else if w = "OUTPORT" then some (exportPort .output)
  else if w = "DECLARE" then some declare
  else if w = "OPTION" then some exportOption
  else none

/-- Reads one statement: one that starts with a keyword and `=`, or else a chain. -/
def statement (c : Cursor) : List Statement × Except ParseError Cursor :=
  let (w, d) := c.word isNameChar
  match (if d.peek = some '=' then keyword? w else none) with
  | some read =>
    match read d.next with
    | .error e => ([], .error e)
    | .ok (s, e) => ([s], .ok e)
  | none => c.chain

/-- The four keywords with the readers that they start. -/
theorem keyword?_eq_some (h : keyword? w = some read) :
    (∃ direction, read = exportPort direction) ∨ read = declare ∨ read = exportOption := by
  unfold keyword? at h
  split at h
  · cases h; exact .inl ⟨_, rfl⟩
  · split at h
    · cases h; exact .inl ⟨_, rfl⟩
    · split at h
      · cases h; exact .inr (.inl rfl)
      · split at h
        · cases h; exact .inr (.inr rfl)
        · cases h

theorem keyword?_reading (hw : keyword? w = some read) (c : Cursor) : c.Reading 0 Prod.snd (read c) := by
  obtain ⟨direction, rfl⟩ | rfl | rfl := keyword?_eq_some hw
  · exact exportPort_reading direction c
  · exact declare_reading c
  · exact exportOption_reading c

/-- A statement is read by the reader of its keyword, or as a chain. -/
theorem statement_cases (c : Cursor) :
    (∃ w d read, c.word isNameChar = (w, d) ∧ d.peek = some '=' ∧ keyword? w = some read ∧
      ((∃ s e, read d.next = .ok (s, e) ∧ c.statement = ([s], .ok e)) ∨
        ∃ e, read d.next = .error e ∧ c.statement = ([], .error e))) ∨
    c.statement = c.chain := by
  rcases hw : c.word isNameChar with ⟨w, d⟩
  simp only [statement, hw]
  split
  · next read hread =>
    split at hread
    · next hpeek =>
      refine .inl ⟨w, d, read, rfl, hpeek, hread, ?_⟩
      cases hr : read d.next with
      | error e => exact .inr ⟨e, rfl, rfl⟩
      | ok r => exact .inl ⟨r.1, r.2, rfl, rfl⟩
    · cases hread
  · exact .inr rfl

theorem statement_reading (c : Cursor) : c.Reading 1 id c.statement.2 := by
  obtain ⟨w, d, read, hw, hpeek, hk, hr⟩ | hs := statement_cases c
  · have hnext : d.Gets 1 d.next := ⟨next_reaches d, next_lt hpeek⟩
    have hread := Reading.after ((word_gets hw).trans hnext) (keyword?_reading hk d.next)
    obtain ⟨s, e, hr, hs⟩ | ⟨e, hr, hs⟩ := hr
    · rw [hs]
      exact .ok (hread.gets _ hr)
    · rw [hs]
      exact hread.of_error hr
  · rw [hs]
    exact chain_reading c

theorem statement_gets (h : c.statement = (ss, .ok d)) : c.Gets 1 d :=
  (statement_reading c).gets d (congrArg Prod.snd h)

theorem statement_lt (h : c.statement = (ss, .ok d)) :
    d.rest.length < c.rest.length := (statement_gets h).length_le

theorem statement_reaches (h : c.statement = (ss, .ok d)) : c.Reaches d :=
  (statement_gets h).reaches

/-- Reads all statements. With a fault come those before it; the last one may be a chain cut off there. -/
def statements (c : Cursor) : List Statement × Option ParseError :=
  match _hs : c.skipSpace with
  | .error e => ([], some e)
  | .ok d =>
    match _hp : d.peek with
    | none => ([], none)
    | some x =>
      if x = '\n' ∨ x = ',' then statements d.next
      else
        match _ht : d.statement with
        | (ss, .error e) => (ss, some e)
        | (ss, .ok e) =>
          match _he : e.skipSpace with
          | .error f => (ss, some f)
          | .ok f =>
            if f.atStatementEnd then
              let (more, fault) := statements f.next
              (ss ++ more, fault)
            else (ss, some ⟨f.pos, .trailing⟩)
termination_by c.rest.length
decreasing_by
  · exact Nat.lt_of_lt_of_le (next_lt _hp) (skipSpace_le _hs)
  · have := next_le f
    have := skipSpace_le _he
    have := statement_lt _ht
    have := skipSpace_le _hs
    omega

end Cursor

/-- The statements of a text, up to its first fault of form. -/
def Statement.ofText (text : String) : List Statement × Option ParseError :=
  (Cursor.ofList text.toList).statements

end FlowCompiler
