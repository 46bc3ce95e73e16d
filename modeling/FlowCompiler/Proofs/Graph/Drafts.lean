import FlowCompiler.Proofs.Graph.Simulation
import FlowCompiler.Proofs.Options.Quoting

/-!
# Drafts of flow texts

A draft is a statement before it is written: its words are of the classes that the readers know, so whatever can
be drafted can be written. `Draft.text` writes a draft on a line of its own, with blanks around ports and arrows,
and every reader reads its part back up to what follows.

Main statement: `Draft.ofText_textOf`. The statements of a text that drafts are written in are these drafts, in
order (`Statement.Shows`).
-/

namespace FlowCompiler

open List

variable {accept : Char → Bool} {cs : List Char} {w : String}

/-- A word of a class of characters. -/
structure Word (accept : Char → Bool) where
  text : String
  ne_empty : text ≠ ""
  chars : ∀ c ∈ text.toList, accept c = true

theorem Word.exists_cons (w : Word accept) : ∃ y ys, w.text.toList = y :: ys ∧ accept y = true := by
  obtain ⟨y, ys, hw⟩ := Cursor.exists_cons_of_ne_empty w.ne_empty
  exact ⟨y, ys, hw, w.chars y (hw ▸ mem_cons_self)⟩

namespace Draft

/-- The value of a setting: none, a word, or pieces between quotes. -/
inductive Value where
  | absent
  | bare (text : String) (chars : ∀ c ∈ text.toList, isSettingChar c = true)
  | quoted (pieces : List Piece)

structure Setting where
  key : Word isSettingChar
  value : Value

/-- What a node has in brackets. -/
structure Clause where
  component? : Option (Word isComponentChar)
  settings : List Setting

/-- A node in a chain: one that has a name, with or without a clause, or a new one that has none. -/
inductive Node where
  | named (name : Word isNameChar) (h : name.text ≠ "_") (clause : Option Clause)
  | anonymous (component : Word isComponentChar) (settings : List Setting)

structure Port where
  name : Word isNameChar
  index : Option { i : Nat // i ≤ maxIndex }

structure Link where
  source : Port
  target : Port
  node : Node

/-- What a declaration can have as contents. -/
structure Contents where
  text : String
  ne_empty : text ≠ ""
  trimmed : Text.trim text = text
  chars : ∀ c ∈ text.toList, isContentsChar c = true

end Draft

/-- A statement before it is written. -/
inductive Draft where
  | chain (head : Draft.Node) (links : List Draft.Link)
  | exportPort (direction : Direction) (node : Word isNameChar) (port : Draft.Port) (name : Word isNameChar)
  | declare (name kind : Word isNameChar) (contents : Draft.Contents)
  | exportOption (node option name : Word isNameChar)

namespace Draft

/-! ## Parts and their texts -/

/-- The value that the setting has in a graph. -/
def Value.kept : Value → String
  | absent => ""
  | bare text _ => text
  | quoted pieces => String.ofList (Piece.literal pieces)

def Value.text : Value → List Char
  | absent => []
  | bare text _ => '=' :: text.toList
  | quoted pieces => '=' :: Piece.literal pieces

def Setting.text (s : Setting) : List Char := s.key.text.toList ++ s.value.text

/-- The component of a clause, or the empty one. -/
def Clause.component (c : Clause) : String := (c.component?.map (·.text)).getD ""

namespace Node

/-- The word that stands for the node. -/
def word : Node → Word isNameChar
  | named name _ _ => name
  | anonymous .. => ⟨"_", by simp, by simp [isNameChar]⟩

/-- The name of the node, if it has one. -/
def name? : Node → Option String
  | named name _ _ => some name.text
  | anonymous .. => none

def clause? : Node → Option Clause
  | named _ _ clause => clause
  | anonymous component settings => some ⟨some component, settings⟩

/-- The component that the node gets, or the empty one. -/
def component (n : Node) : String := (n.clause?.map (·.component)).getD ""

/-- The settings that the node gets, with their values. -/
def settings (n : Node) : List (String × String) :=
  ((n.clause?.map (·.settings)).getD []).map fun s => (s.key.text, s.value.kept)

/-- A node that has no name is given a component. -/
theorem not_bare (n : Node) : (n.word.text == "_" && n.component == "") = false := by
  cases n with
  | named name h clause => simp [word, h]
  | anonymous component settings =>
    have := component.ne_empty
    simpa [word, Node.component, clause?, Clause.component] using this

end Node

/-- Settings behind a colon, separated by commas. -/
def settingsText : List Setting → List Char
  | [] => []
  | s :: ss => ':' :: (s.text ++ ss.flatMap fun s => ',' :: s.text)

def Clause.text (c : Clause) : List Char :=
  '(' :: (c.component.toList ++ (settingsText c.settings ++ [')']))

/-- The written form of a node: its word, and the clause right behind it. -/
def Node.clauseText (n : Node) : List Char := (n.clause?.map Clause.text).getD []

def Node.text (n : Node) : List Char := n.word.text.toList ++ n.clauseText

def Port.ref (p : Port) : PortRef := ⟨p.name.text, p.index.map (·.val)⟩

theorem Port.text_ref_index (name : Word isNameChar) (i : { i : Nat // i ≤ maxIndex }) :
    (ref ⟨name, some i⟩).text.toList = name.text.toList ++ '[' :: ((Nat.repr i.1).toList ++ [']']) := by
  rw [show (ref ⟨name, some i⟩).text = name.text ++ "[" ++ Nat.repr i.1 ++ "]" from rfl]
  simp

/-- The ports of a link with the arrow between them, and the node it leads to. -/
def Link.text (l : Link) : List Char :=
  l.source.ref.text.toList ++ ' ' :: '-' :: '>' :: ' ' :: (l.target.ref.text.toList ++ ' ' :: l.node.text)

/-- The keyword of the exports of a direction. -/
def keyword : Direction → String
  | .input => "INPORT"
  | .output => "OUTPORT"

/-- A keyword and what it announces. -/
def announced (keyword : String) (cs : List Char) : List Char := keyword.toList ++ '=' :: cs

/-- The written form of a statement. -/
def text : Draft → List Char
  | chain head links => head.text ++ links.flatMap fun l => ' ' :: l.text
  | exportPort direction node port name =>
    announced (keyword direction)
      (node.text.toList ++ '.' :: (port.ref.text.toList ++ ':' :: name.text.toList))
  | declare name kind contents =>
    announced "DECLARE" (name.text.toList ++ ':' :: (kind.text.toList ++ ':' :: contents.text.toList))
  | exportOption node option name =>
    announced "OPTION" (node.text.toList ++ '.' :: (option.text.toList ++ ':' :: name.text.toList))

/-- Drafts as a text, each on a line of its own. -/
def textOf (ds : List Draft) : String := String.ofList (ds.flatMap fun d => d.text ++ ['\n'])

end Draft

/-! ## Statements that show drafts -/

def Meta.Shows (m : Meta) (s : Draft.Setting) : Prop := m.key = s.key.text ∧ m.value = s.value.kept

structure Mention.Shows (m : Mention) (n : Draft.Node) : Prop where
  name : m.name = n.word.text
  component : m.component = n.component
  settings : m.settings.map (fun k => (k.key, k.value)) = n.settings

structure Link.Shows (l : Link) (d : Draft.Link) : Prop where
  source : l.sourcePort = d.source.ref
  target : l.targetPort = d.target.ref
  node : l.node.Shows d.node

/-- A statement says what a draft says, at some positions. -/
inductive Statement.Shows : Statement → Draft → Prop
  | chain {m : Mention} {n : Draft.Node} {ls : List Link} {ds : List Draft.Link} (head : m.Shows n)
    (links : List.Forall₂ Link.Shows ls ds) : Shows (.chain m ls) (.chain n ds)
  | exportPort {direction : Direction} {node name : Word isNameChar} {port : Draft.Port} (pos : Position) :
    Shows (.exportPort direction node.text port.ref name.text pos) (.exportPort direction node port name)
  | declare {name kind : Word isNameChar} {contents : Draft.Contents} (pos : Position) :
    Shows (.declare ⟨name.text, kind.text, contents.text, pos⟩) (.declare name kind contents)
  | exportOption {node option name : Word isNameChar} (pos : Position) :
    Shows (.exportOption node.text option.text name.text pos) (.exportOption node option name)

namespace Cursor

/-- A reader succeeds with a result that has the property `P`, and leaves `r` to read. -/
def Yields {α : Type} (x : Except ParseError (α × Cursor)) (P : α → Prop) (r : List Char) : Prop :=
  ∃ a q, x = .ok (a, ⟨r, q⟩) ∧ P a

namespace Yields

variable {α β : Type} {P : α → Prop} {Q : β → Prop} {r s : List Char}

theorem ok {a : α} {q : Position} (h : P a) : Yields (.ok (a, ⟨r, q⟩)) P r := ⟨a, q, rfl, h⟩

theorem bind {x : Except ParseError (α × Cursor)} {f : α × Cursor → Except ParseError (β × Cursor)}
    (hx : Yields x P r) (hf : ∀ a q, P a → Yields (f (a, ⟨r, q⟩)) Q s) : Yields (x >>= f) Q s := by
  obtain ⟨a, q, rfl, ha⟩ := hx
  exact hf a q ha

theorem map {x : Except ParseError (α × Cursor)} {f : α × Cursor → β × Cursor} (hx : Yields x P r)
    (hf : ∀ a q, P a → ∃ b, f (a, ⟨r, q⟩) = (b, ⟨r, q⟩) ∧ Q b) : Yields (x.map f) Q r := by
  obtain ⟨a, q, rfl, ha⟩ := hx
  obtain ⟨b, hb, hQ⟩ := hf a q ha
  exact ⟨b, q, congrArg Except.ok hb, hQ⟩

end Yields

variable {x : Char} (r : List Char) (p : Position)

/-! ## Words and ports -/

theorem word_word (w : Word accept) (hx : accept x = false) :
    word ⟨w.text.toList ++ x :: r, p⟩ accept = (w.text, ⟨x :: r, p.advanceAll w.text.toList⟩) :=
  word_append w.chars hx r p

theorem digitsValue_repr (n : Nat) : digitsValue (Nat.repr n) = n := by
  have h : Nat.ofDigitChars 10 (Nat.toDigits 10 n) 0 = n := Nat.ofDigitChars_ten_toDigits
  simpa [digitsValue, Nat.toList_repr, Nat.ofDigitChars, Nat.mul_comm] using h

theorem index_repr {i : Nat} (hi : i ≤ maxIndex) :
    Yields (index ⟨'[' :: ((Nat.repr i).toList ++ ']' :: r), p⟩) (· = i) r := by
  have hdigits : ∀ c ∈ (Nat.repr i).toList, c.isDigit = true := by
    intro c hc
    rw [Nat.toList_repr] at hc
    exact Nat.isDigit_of_mem_toDigits (by decide) (by decide) hc
  have hne : Nat.repr i ≠ "" := by
    intro h
    have hnil := congrArg String.toList h
    rw [Nat.toList_repr] at hnil
    exact Nat.toDigits_ne_nil hnil
  have hread : (Nat.repr i == "" || some ']' != some ']') = false := by simp [hne]
  simp only [index, next, word_append hdigits (show Char.isDigit ']' = false by decide), digitsValue_repr, peek,
    head?_cons, hread, if_pos hi]
  exact .ok rfl

theorem port_ref (d : Draft.Port) (hx : isNameChar x = false) (hopen : x ≠ '[') :
    Yields (port ⟨d.ref.text.toList ++ x :: r, p⟩) (· = d.ref) (x :: r) := by
  obtain ⟨name, index⟩ := d
  have hname : (name.text == "") = false := by simpa using name.ne_empty
  cases index with
  | none =>
    simp only [Draft.Port.ref, PortRef.text, Option.map_none, port, word_word r p name hx, hname, peek,
      head?_cons]
    have hnone : (false || some x != some '[') = true := by simpa using hopen
    rw [if_pos hnone]
    exact .ok rfl
  | some i =>
    rw [Draft.Port.text_ref_index, append_assoc, cons_append, append_assoc, singleton_append]
    simp only [port, word_word _ p name (show isNameChar '[' = false by decide), hname, peek, head?_cons,
      bne_self_eq_false, Bool.or_self, Bool.false_eq_true, if_false]
    refine (index_repr (x :: r) _ i.2).map ?_
    rintro _ q rfl
    exact ⟨_, rfl, rfl⟩

/-! ## Settings and clauses -/

theorem quotedRest_pieces (opened : Position) (ps : List Piece) :
    Yields (quotedRest opened (Piece.inside ps ++ '"' :: r) p) (· = Piece.inside ps ++ ['"']) r := by
  induction ps generalizing p with
  | nil =>
    rw [Piece.inside_nil, nil_append, quotedRest.eq_def]
    exact .ok rfl
  | cons piece ps ih =>
    rw [Piece.inside_cons, append_assoc]
    cases piece with
    | plain c hc =>
      have hplain : ∀ y ∈ [c], y ≠ '\n' ∧ y ≠ '"' ∧ y ≠ '\\' := forall_mem_singleton.mpr hc
      rw [Piece.written, quotedRest_append hplain]
      refine (ih _).map ?_
      rintro _ q rfl
      exact ⟨_, rfl, by simp⟩
    | escape e he =>
      rw [Piece.written, cons_append, cons_append, nil_append, quotedRest_escape he]
      refine (ih _).map ?_
      rintro _ q rfl
      exact ⟨_, rfl, by simp⟩

/-- What may stand behind a setting: a comma before the next one, or the bracket that ends the clause. -/
def endsSetting (x : Char) : Bool := x == ',' || x == ')'

theorem isSolid_of_endsSetting (hx : endsSetting x = true) : isSolid x = true := by
  have hcases : x = ',' ∨ x = ')' := by simpa [endsSetting] using hx
  rcases hcases with rfl | rfl <;> decide

theorem isSettingChar_of_endsSetting (hx : endsSetting x = true) : isSettingChar x = false := by
  have hcases : x = ',' ∨ x = ')' := by simpa [endsSetting] using hx
  rcases hcases with rfl | rfl <;> decide

theorem settingValue_bare (hw : ∀ c ∈ w.toList, isSettingChar c = true) (hx : endsSetting x = true) :
    Yields (settingValue ⟨w.toList ++ x :: r, p⟩) (· = w) (x :: r) := by
  have hquote : ¬ peek ⟨w.toList ++ x :: r, p⟩ = some '"' := by
    intro hpeek
    cases hcs : w.toList with
    | nil =>
      rw [hcs] at hpeek
      cases hpeek
      exact absurd hx (by decide)
    | cons y cs =>
      rw [hcs] at hpeek
      cases hpeek
      exact absurd (hw '"' (hcs ▸ mem_cons_self)) (by decide)
  rw [settingValue, if_neg hquote, word_append hw (isSettingChar_of_endsSetting hx)]
  exact .ok rfl

theorem settingValue_quoted (ps : List Piece) :
    Yields (settingValue ⟨Piece.literal ps ++ r, p⟩) (· = String.ofList (Piece.literal ps)) r := by
  have hquote : peek ⟨Piece.literal ps ++ r, p⟩ = some '"' := rfl
  rw [settingValue, if_pos hquote, quoted]
  have hrest : next ⟨Piece.literal ps ++ r, p⟩ = ⟨Piece.inside ps ++ '"' :: r, p.advance '"'⟩ := by
    simp [Piece.literal, next]
  rw [hrest]
  refine (quotedRest_pieces r _ p ps).map ?_
  rintro _ q rfl
  exact ⟨_, rfl, rfl⟩

/-- The value after an equals sign, with the blanks that could stand around it. -/
theorem skipBlank_value (v : Draft.Value) (hx : endsSetting x = true) (hv : v.text = '=' :: cs) :
    skipBlank ⟨cs ++ x :: r, p⟩ = .ok ⟨cs ++ x :: r, p⟩ ∧
      Yields (settingValue ⟨cs ++ x :: r, p⟩) (· = v.kept) (x :: r) := by
  cases v with
  | absent => cases hv
  | bare w hw =>
    cases hv
    refine ⟨?_, settingValue_bare r p hw hx⟩
    cases hcs : w.toList with
    | nil => exact skipBlank_of_isSolid (isSolid_of_endsSetting hx) r p
    | cons y ys => exact skipBlank_of_isSolid (isSolid_of_isSettingChar (hw y (hcs ▸ mem_cons_self))) _ p
  | quoted ps =>
    cases hv
    exact ⟨skipBlank_of_isSolid (by decide) _ p, settingValue_quoted (x :: r) p ps⟩

theorem skipBlank_word (haccept : ∀ y, accept y = true → isSolid y = true) (w : Word accept) :
    skipBlank ⟨w.text.toList ++ r, p⟩ = .ok ⟨w.text.toList ++ r, p⟩ := by
  obtain ⟨y, ys, hw, hy⟩ := w.exists_cons
  rw [hw, cons_append]
  exact skipBlank_of_isSolid (haccept y hy) _ p

theorem setting_absent (key : Word isSettingChar) (hx : endsSetting x = true) :
    Yields (setting ⟨key.text.toList ++ x :: r, p⟩) (·.Shows ⟨key, .absent⟩) (x :: r) := by
  have hequals : ¬ some x = some '=' := by
    rintro ⟨⟩
    exact absurd hx (by decide)
  simp only [setting, skipBlank_word _ p (fun y => isSolid_of_isSettingChar) key, bind, Except.bind,
    word_word r p key (isSettingChar_of_endsSetting hx), if_neg key.ne_empty,
    skipBlank_of_isSolid (isSolid_of_endsSetting hx), peek, head?_cons, if_neg hequals]
  exact .ok ⟨rfl, rfl⟩

theorem setting_valued (key : Word isSettingChar) (v : Draft.Value) (hx : endsSetting x = true)
    (hv : v.text = '=' :: cs) :
    Yields (setting ⟨key.text.toList ++ '=' :: (cs ++ x :: r), p⟩) (·.Shows ⟨key, v⟩) (x :: r) := by
  obtain ⟨hstart, value, q, hvalue, rfl⟩ := skipBlank_value r ((p.advanceAll key.text.toList).advance '=') v hx hv
  simp only [setting, skipBlank_word _ p (fun y => isSolid_of_isSettingChar) key, bind, Except.bind,
    word_word _ p key (show isSettingChar '=' = false by decide), if_neg key.ne_empty,
    skipBlank_of_isSolid (show isSolid '=' = true by decide), peek, head?_cons, if_true, next, hstart, hvalue,
    skipBlank_of_isSolid (isSolid_of_endsSetting hx)]
  exact .ok ⟨rfl, rfl⟩

theorem setting_text (s : Draft.Setting) (hx : endsSetting x = true) :
    Yields (setting ⟨s.text ++ x :: r, p⟩) (·.Shows s) (x :: r) := by
  obtain ⟨key, value⟩ := s
  rw [Draft.Setting.text, append_assoc]
  cases value with
  | absent => exact setting_absent r p key hx
  | bare w hw => exact setting_valued r p key (.bare w hw) hx rfl
  | quoted ps => exact setting_valued r p key (.quoted ps) hx rfl

theorem settings_text (s : Draft.Setting) (ss : List Draft.Setting) :
    Yields (settings ⟨s.text ++ (ss.flatMap (fun s => ',' :: s.text) ++ ')' :: r), p⟩)
      (List.Forall₂ Meta.Shows · (s :: ss)) (')' :: r) := by
  induction ss generalizing s p with
  | nil =>
    obtain ⟨m, q, hm, hshows⟩ := setting_text r p s (show endsSetting ')' = true by decide)
    rw [flatMap_nil, nil_append, settings_single hm (by simp [peek])]
    exact .ok (.cons hshows .nil)
  | cons t ts ih =>
    rw [flatMap_cons, cons_append, cons_append, append_assoc]
    obtain ⟨m, q, hm, hshows⟩ := setting_text
      (t.text ++ (ts.flatMap (fun s => ',' :: s.text) ++ ')' :: r)) p s (show endsSetting ',' = true by decide)
    rw [settings_of_comma hm rfl]
    refine (ih _ t).map ?_
    rintro ms q hms
    exact ⟨m :: ms, rfl, .cons hshows hms⟩

theorem clauseSettings_text (ss : List Draft.Setting) :
    Yields (clauseSettings ⟨Draft.settingsText ss ++ ')' :: r, p⟩) (List.Forall₂ Meta.Shows · ss) (')' :: r) := by
  cases ss with
  | nil => exact .ok .nil
  | cons s ss =>
    rw [Draft.settingsText, cons_append, append_assoc]
    simp only [clauseSettings, peek, head?_cons, if_true, next]
    exact settings_text r _ s ss

theorem component_chars (c : Draft.Clause) : ∀ y ∈ c.component.toList, isComponentChar y = true := by
  obtain ⟨component?, ss⟩ := c
  cases component? with
  | none => exact forall_mem_nil _
  | some w => exact w.chars

theorem word_component (c : Draft.Clause) :
    word ⟨c.component.toList ++ (Draft.settingsText c.settings ++ ')' :: r), p⟩ isComponentChar =
      (c.component, ⟨Draft.settingsText c.settings ++ ')' :: r, p.advanceAll c.component.toList⟩) := by
  cases hss : c.settings with
  | nil => exact word_append (component_chars c) (by decide) r p
  | cons s ss => exact word_append (component_chars c) (by decide) _ p

theorem clause_text (c : Draft.Clause) :
    Yields (clause ⟨c.text ++ r, p⟩) (fun a => a.1 = c.component ∧ List.Forall₂ Meta.Shows a.2 c.settings) r := by
  have htext : c.text ++ r = '(' :: (c.component.toList ++ (Draft.settingsText c.settings ++ ')' :: r)) := by
    simp [Draft.Clause.text]
  rw [htext]
  simp only [clause, peek, head?_cons, if_true, next, word_component]
  refine (clauseSettings_text r _ c.settings).bind fun ms q hms => ?_
  simp only [skipBlank_of_isSolid (show isSolid ')' = true by decide), bind, Except.bind, expect, peek,
    head?_cons, if_true, next]
  exact .ok ⟨rfl, hms⟩

/-! ## Nodes, links and chains -/

/-- What may stand behind a node: a blank before the next port, or the end of the line. -/
def endsNode (x : Char) : Bool := x == ' ' || x == '\n'

theorem forall₂_shows_map {ms : List Meta} {ss : List Draft.Setting} (h : List.Forall₂ Meta.Shows ms ss) :
    ms.map (fun k => (k.key, k.value)) = ss.map fun s => (s.key.text, s.value.kept) := by
  induction h with
  | nil => rfl
  | cons hm _ ih => rw [map_cons, map_cons, hm.1, hm.2, ih]

theorem clause_node (n : Draft.Node) (hx : endsNode x = true) :
    Yields (clause ⟨n.clauseText ++ x :: r, p⟩)
      (fun a => a.1 = n.component ∧ a.2.map (fun k => (k.key, k.value)) = n.settings) (x :: r) := by
  unfold Draft.Node.clauseText Draft.Node.component Draft.Node.settings
  cases n.clause? with
  | none =>
    have hopen : ¬ peek ⟨x :: r, p⟩ = some '(' := by
      rintro ⟨⟩
      exact absurd hx (by decide)
    rw [Option.map_none, Option.getD_none, nil_append, clause, if_neg hopen]
    exact .ok ⟨rfl, rfl⟩
  | some c =>
    obtain ⟨a, q, ha, hcomponent, hms⟩ := clause_text (x :: r) p c
    exact ⟨a, q, ha, hcomponent, forall₂_shows_map hms⟩

/-- The word of a node ends before what follows it. -/
theorem word_node (n : Draft.Node) (hx : endsNode x = true) :
    ∃ y s, n.clauseText ++ x :: r = y :: s ∧ (y = '(' ∨ endsNode y = true) ∧
      word ⟨n.text ++ x :: r, p⟩ isNameChar = (n.word.text, ⟨y :: s, p.advanceAll n.word.text.toList⟩) := by
  have hread : ∀ y s, y = '(' ∨ endsNode y = true → n.clauseText ++ x :: r = y :: s →
      word ⟨n.text ++ x :: r, p⟩ isNameChar = (n.word.text, ⟨y :: s, p.advanceAll n.word.text.toList⟩) := by
    intro y s hy hys
    have hname : isNameChar y = false := by
      have hcases : y = '(' ∨ y = ' ' ∨ y = '\n' := by simpa [endsNode] using hy
      rcases hcases with rfl | rfl | rfl <;> decide
    rw [Draft.Node.text, append_assoc, hys]
    exact word_word s p n.word hname
  cases hc : n.clause? with
  | none =>
    have hys : n.clauseText ++ x :: r = x :: r := by simp [Draft.Node.clauseText, hc]
    exact ⟨x, r, hys, .inr hx, hread x r (.inr hx) hys⟩
  | some c =>
    have hys : n.clauseText ++ x :: r =
        '(' :: (c.component.toList ++ (Draft.settingsText c.settings ++ [')']) ++ x :: r) := by
      simp [Draft.Node.clauseText, hc, Draft.Clause.text]
    exact ⟨_, _, hys, .inl rfl, hread _ _ (.inl rfl) hys⟩

theorem mention_text (n : Draft.Node) (hx : endsNode x = true) :
    Yields (mention ⟨n.text ++ x :: r, p⟩) (·.Shows n) (x :: r) := by
  obtain ⟨y, s, hys, -, hword⟩ := word_node r p n hx
  simp only [mention, hword, if_neg n.word.ne_empty]
  rw [← hys]
  refine (clause_node r _ n hx).bind ?_
  rintro ⟨component, ms⟩ q ⟨rfl, hms⟩
  simp only [n.not_bare]
  exact .ok ⟨rfl, rfl, hms⟩

theorem skipSpace_blank : skipSpace ⟨' ' :: r, p⟩ = skipSpace ⟨r, p.advance ' '⟩ := by
  simp [skipSpace, skipSpace.go]

theorem skipSpace_word (haccept : ∀ y, accept y = true → isSolid y = true) (w : Word accept) :
    skipSpace ⟨w.text.toList ++ r, p⟩ = .ok ⟨w.text.toList ++ r, p⟩ := by
  obtain ⟨y, ys, hw, hy⟩ := w.exists_cons
  rw [hw, cons_append]
  exact skipSpace_of_isSolid (haccept y hy) _ p

/-- A port starts with its name. -/
theorem ref_text_eq (d : Draft.Port) : ∃ s, d.ref.text.toList = d.name.text.toList ++ s := by
  obtain ⟨name, index⟩ := d
  cases index with
  | none => exact ⟨[], (append_nil _).symm⟩
  | some i => exact ⟨_, Draft.Port.text_ref_index name i⟩

/-- A word of a name is where a statement goes on. -/
theorem atStatementEnd_word (w : Word isNameChar) : ¬ atStatementEnd ⟨w.text.toList ++ r, p⟩ = true := by
  obtain ⟨y, ys, hw, hy⟩ := w.exists_cons
  rw [hw, cons_append, atStatementEnd]
  simp only [peek, head?_cons, Bool.or_eq_true, beq_iff_eq]
  rintro (rfl | rfl)
  · exact absurd hy (by decide)
  · exact absurd hy (by decide)

theorem skipSpace_ref (d : Draft.Port) :
    skipSpace ⟨d.ref.text.toList ++ r, p⟩ = .ok ⟨d.ref.text.toList ++ r, p⟩ := by
  obtain ⟨s, hs⟩ := ref_text_eq d
  rw [hs, append_assoc]
  exact skipSpace_word _ p (fun y => isSolid_of_isNameChar) d.name

theorem skipSpace_node (n : Draft.Node) : skipSpace ⟨n.text ++ r, p⟩ = .ok ⟨n.text ++ r, p⟩ := by
  rw [Draft.Node.text, append_assoc]
  exact skipSpace_word _ p (fun y => isSolid_of_isNameChar) n.word

theorem link_text (d : Draft.Link) (hx : endsNode x = true) :
    Yields (link ⟨d.text ++ x :: r, p⟩) (·.Shows d) (x :: r) := by
  have htext : d.text ++ x :: r = d.source.ref.text.toList ++ ' ' :: '-' :: '>' :: ' ' ::
      (d.target.ref.text.toList ++ ' ' :: (d.node.text ++ x :: r)) := by
    simp [Draft.Link.text]
  have hblank : isNameChar ' ' = false := by decide
  rw [htext]
  refine (port_ref _ p d.source hblank (by decide)).bind ?_
  rintro _ q rfl
  have hsource : ¬ d.source.ref.name = "" := d.source.name.ne_empty
  have hdash := skipSpace_of_isSolid (show isSolid '-' = true by decide)
  -- a name may have dashes, but the blank before the arrow ends it
  have harrow : ∀ cs u, arrow ⟨'-' :: '>' :: cs, u⟩ = .ok ⟨cs, (u.advance '-').advance '>'⟩ := fun _ _ => rfl
  simp only [if_neg hsource, skipSpace_blank, hdash, harrow, skipSpace_ref, bind, Except.bind]
  obtain ⟨_, q', hread, rfl⟩ := port_ref (d.node.text ++ x :: r)
    ((((q.advance ' ').advance '-').advance '>').advance ' ') d.target hblank (by decide)
  have htarget : ¬ d.target.ref.name = "" := d.target.name.ne_empty
  have hports : (d.target.ref.name == "" || some ' ' == some '(') = false := by simpa using htarget
  obtain ⟨m, q'', hm, hshows⟩ := mention_text r (q'.advance ' ') d.node hx
  simp only [hread, peek, head?_cons, hports, skipSpace_blank, skipSpace_node, hm]
  exact .ok ⟨rfl, rfl, hshows⟩

/-- Behind a node come the links of its chain or the end of the line. -/
theorem exists_endsNode (ds : List Draft.Link) :
    ∃ y s, endsNode y = true ∧ ds.flatMap (fun d => ' ' :: d.text) ++ '\n' :: r = y :: s := by
  cases ds with
  | nil => exact ⟨'\n', r, by decide, rfl⟩
  | cons d ds => exact ⟨' ', _, by decide, rfl⟩

theorem links_text (ds : List Draft.Link) :
    ∃ ls q, links ⟨ds.flatMap (fun d => ' ' :: d.text) ++ '\n' :: r, p⟩ = (ls, .ok ⟨'\n' :: r, q⟩) ∧
      List.Forall₂ Link.Shows ls ds := by
  induction ds generalizing p with
  | nil =>
    have hs : skipSpace ⟨'\n' :: r, p⟩ = .ok ⟨'\n' :: r, p⟩ := by simp [skipSpace, skipSpace.go]
    exact ⟨[], p, links_of_end hs rfl, .nil⟩
  | cons d ds ih =>
    obtain ⟨y, s, hy, hys⟩ := exists_endsNode r ds
    obtain ⟨l, q, hl, hshows⟩ := link_text s (p.advance ' ') d hy
    obtain ⟨ls, q', hls, hall⟩ := ih q
    rw [hys] at hls
    rw [flatMap_cons, cons_append, cons_append, append_assoc, hys]
    have hstart : skipSpace ⟨' ' :: (d.text ++ y :: s), p⟩ = .ok ⟨d.text ++ y :: s, p.advance ' '⟩ := by
      rw [skipSpace_blank, Draft.Link.text, append_assoc]
      exact skipSpace_ref _ _ d.source
    have hgoes : ¬ atStatementEnd ⟨d.text ++ y :: s, p.advance ' '⟩ = true := by
      obtain ⟨t, ht⟩ := ref_text_eq d.source
      rw [Draft.Link.text, ht, append_assoc, append_assoc]
      exact atStatementEnd_word _ _ d.source.name
    refine ⟨l :: ls, q', ?_, .cons hshows hall⟩
    rw [links_of_link hstart hgoes hl, hls]

/-! ## Statements -/

theorem statement_chain (n : Draft.Node) (ds : List Draft.Link) :
    ∃ s q, statement ⟨(Draft.chain n ds).text ++ '\n' :: r, p⟩ = ([s], .ok ⟨'\n' :: r, q⟩) ∧
      s.Shows (.chain n ds) := by
  obtain ⟨y, s, hy, hys⟩ := exists_endsNode r ds
  -- the first word is read to see whether it is a keyword, and once more as the name of the node
  obtain ⟨z, t, -, hz, hword⟩ := word_node s p n hy
  obtain ⟨m, q, hm, hhead⟩ := mention_text s p n hy
  obtain ⟨ls, q', hls, hlinks⟩ := links_text r q ds
  have hequals : ¬ some z = some '=' := by
    rintro ⟨⟩
    exact absurd hz (by decide)
  have htext : (Draft.chain n ds).text ++ '\n' :: r = n.text ++ y :: s := by
    rw [show (Draft.chain n ds).text = n.text ++ ds.flatMap fun d => ' ' :: d.text from rfl, append_assoc, hys]
  rw [hys] at hls
  rw [htext]
  refine ⟨.chain m ls, q', ?_, .chain hhead hlinks⟩
  simp only [statement, hword, peek, head?_cons, if_neg hequals, chain, hm, hls]

/-- A statement that starts with a keyword is read by the reader of the keyword. -/
theorem statement_announced (hw : ∀ c ∈ w.toList, isNameChar c = true)
    {read : Cursor → Except ParseError (Statement × Cursor)} (hread : keyword? w = some read)
    {P : Statement → Prop} (h : ∀ p, Yields (read ⟨cs ++ '\n' :: r, p⟩) P ('\n' :: r)) :
    ∃ s q, statement ⟨Draft.announced w cs ++ '\n' :: r, p⟩ = ([s], .ok ⟨'\n' :: r, q⟩) ∧ P s := by
  obtain ⟨s, q, hs, hP⟩ := h ((p.advanceAll w.toList).advance '=')
  refine ⟨s, q, ?_, hP⟩
  rw [Draft.announced, append_assoc, cons_append]
  simp only [statement, word_append hw (show isNameChar '=' = false by decide), peek, head?_cons, if_true,
    hread, next, hs]

theorem exportPort_text (direction : Direction) (node : Word isNameChar) (port : Draft.Port)
    (name : Word isNameChar) :
    Yields (exportPort direction
        ⟨node.text.toList ++ '.' :: (port.ref.text.toList ++ ':' :: (name.text.toList ++ '\n' :: r)), p⟩)
      (·.Shows (.exportPort direction node port name)) ('\n' :: r) := by
  have hport : ¬ port.ref.name = "" := port.name.ne_empty
  obtain ⟨_, q, hread, rfl⟩ := port_ref (name.text.toList ++ '\n' :: r)
    ((p.advanceAll node.text.toList).advance '.') port (show isNameChar ':' = false by decide) (by decide)
  simp only [exportPort, word_word _ p node (show isNameChar '.' = false by decide), if_neg node.ne_empty, expect,
    peek, head?_cons, if_true, next, bind, Except.bind, hread, if_neg hport,
    word_word r _ name (show isNameChar '\n' = false by decide), if_neg name.ne_empty]
  exact .ok (.exportPort p)

theorem declare_text (name kind : Word isNameChar) (contents : Draft.Contents) :
    Yields (declare
        ⟨name.text.toList ++ ':' :: (kind.text.toList ++ ':' :: (contents.text.toList ++ '\n' :: r)), p⟩)
      (·.Shows (.declare name kind contents)) ('\n' :: r) := by
  simp only [declare, word_word _ p name (show isNameChar ':' = false by decide), if_neg name.ne_empty, expect,
    peek, head?_cons, if_true, next, bind, Except.bind,
    word_word _ _ kind (show isNameChar ':' = false by decide), if_neg kind.ne_empty,
    word_append contents.chars (show isContentsChar '\n' = false by decide), contents.trimmed,
    if_neg contents.ne_empty]
  exact .ok (.declare p)

theorem exportOption_text (node option name : Word isNameChar) :
    Yields (exportOption
        ⟨node.text.toList ++ '.' :: (option.text.toList ++ ':' :: (name.text.toList ++ '\n' :: r)), p⟩)
      (·.Shows (.exportOption node option name)) ('\n' :: r) := by
  simp only [exportOption, word_word _ p node (show isNameChar '.' = false by decide), if_neg node.ne_empty, expect,
    peek, head?_cons, if_true, next, bind, Except.bind,
    word_word _ _ option (show isNameChar ':' = false by decide), if_neg option.ne_empty,
    word_word r _ name (show isNameChar '\n' = false by decide), if_neg name.ne_empty]
  exact .ok (.exportOption p)

theorem keyword?_keyword (direction : Direction) :
    keyword? (Draft.keyword direction) = some (exportPort direction) := by
  cases direction <;> rfl

theorem keyword_chars (direction : Direction) : ∀ c ∈ (Draft.keyword direction).toList, isNameChar c = true := by
  rw [← all_eq_true]
  cases direction <;> rfl

theorem statement_text (d : Draft) :
    ∃ s q, statement ⟨d.text ++ '\n' :: r, p⟩ = ([s], .ok ⟨'\n' :: r, q⟩) ∧ s.Shows d := by
  cases d with
  | chain n ds => exact statement_chain r p n ds
  | exportPort direction node port name =>
    refine statement_announced r p (keyword_chars direction) (keyword?_keyword direction) fun p => ?_
    simpa using exportPort_text r p direction node port name
  | declare name kind contents =>
    have hchars : "DECLARE".toList.all isNameChar = true := rfl
    have hread : keyword? "DECLARE" = some declare := rfl
    refine statement_announced r p (all_eq_true.mp hchars) hread fun p => ?_
    simpa using declare_text r p name kind contents
  | exportOption node option name =>
    have hchars : "OPTION".toList.all isNameChar = true := rfl
    have hread : keyword? "OPTION" = some exportOption := rfl
    refine statement_announced r p (all_eq_true.mp hchars) hread fun p => ?_
    simpa using exportOption_text r p node option name

/-- A statement starts with a character of a name. -/
theorem exists_cons_text (d : Draft) : ∃ y cs, d.text = y :: cs ∧ isNameChar y = true := by
  have hword : ∀ (w : Word isNameChar) (cs : List Char),
      ∃ y ds, w.text.toList ++ cs = y :: ds ∧ isNameChar y = true := by
    intro w cs
    obtain ⟨y, ys, hw, hy⟩ := w.exists_cons
    exact ⟨y, ys ++ cs, by rw [hw]; rfl, hy⟩
  cases d with
  | chain n ds =>
    obtain ⟨y, cs, hcs, hy⟩ := hword n.word (n.clauseText ++ ds.flatMap fun d => ' ' :: d.text)
    exact ⟨y, cs, by rw [← hcs, ← append_assoc]; rfl, hy⟩
  | exportPort direction node port name => cases direction <;> exact ⟨_, _, rfl, by decide⟩
  | declare name kind contents => exact ⟨_, _, rfl, by decide⟩
  | exportOption node option name => exact ⟨_, _, rfl, by decide⟩

/-- Drafts that are written one to a line are read back, in order. -/
theorem statements_text (ds : List Draft) :
    ∃ ss, statements ⟨ds.flatMap fun d => d.text ++ ['\n'], p⟩ = (ss, none) ∧
      List.Forall₂ Statement.Shows ss ds := by
  induction ds generalizing p with
  | nil => exact ⟨[], statements_of_end rfl rfl, .nil⟩
  | cons d ds ih =>
    rw [flatMap_cons, append_assoc, singleton_append]
    obtain ⟨s, q, hs, hshows⟩ := statement_text (ds.flatMap fun d => d.text ++ ['\n']) p d
    obtain ⟨ss, hss, hall⟩ := ih (q.advance '\n')
    obtain ⟨y, cs, hcs, hy⟩ := exists_cons_text d
    rw [hcs, cons_append] at hs ⊢
    have hstart := skipSpace_of_isSolid (isSolid_of_isNameChar hy)
      (cs ++ '\n' :: ds.flatMap fun d => d.text ++ ['\n']) p
    have hseparator : ¬ (y = '\n' ∨ y = ',') := by
      rintro (rfl | rfl)
      · exact absurd hy (by decide)
      · exact absurd hy (by decide)
    have hline : ∀ cs, skipSpace ⟨'\n' :: cs, q⟩ = .ok ⟨'\n' :: cs, q⟩ := fun cs => by simp [skipSpace, skipSpace.go]
    refine ⟨s :: ss, ?_, .cons hshows hall⟩
    rw [statements_of_statement hstart rfl hseparator hs (hline _) rfl]
    simp only [next, hss, singleton_append]

end Cursor

/-- The statements of a text that drafts are written in are these drafts. -/
theorem Draft.ofText_textOf (ds : List Draft) :
    ∃ ss, Statement.ofText (textOf ds) = (ss, none) ∧ List.Forall₂ Statement.Shows ss ds := by
  rw [Statement.ofText, textOf, String.toList_ofList]
  exact Cursor.statements_text _ ds

end FlowCompiler
