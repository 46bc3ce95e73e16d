import FlowCompiler.Proofs.Graph.SingleNode
import FlowCompiler.Proofs.Options.Quoting

/-!
# Texts as option values

A text is written as a quoted value with a backslash before each backslash and each double quote. For an
option that is a text, the value of a node is read from what a flow writes.

Main statement: `Setting.quoted_text_decoded_iff`. A node has the text that its flow writes, and more
generally what the escapes of a quoted value stand for, exactly if no backslash is directly followed by a
single quote that stands for itself. No warning tells the two cases apart.
-/

namespace FlowCompiler

open List Text

variable {values vs : List ResolvedOption} {w warnings : List Diagnostic} {ms : List Meta} {o : OptionSpec}
  {i : Nat} {key t : String} {m : Meta}

namespace Setting

/-- A character of a quoted text. -/
def writtenChar (c : Char) : List Char := if c = '\\' ∨ c = '"' then ['\\', c] else [c]

/-- A text as a quoted value. -/
def quote (t : String) : List Char := '"' :: (t.toList.flatMap writtenChar ++ ['"'])

/-- Whether no single quote in a text comes directly after a backslash. -/
def Parted (t : String) : Prop := t.toList.IsChain fun a b => ¬ (a = '\\' ∧ b = '\'')

instance (t : String) : Decidable (Parted t) := inferInstanceAs (Decidable (List.IsChain _ _))

/-- The piece that a character of a quoted text is written as. -/
def pieceOf (c : { c : Char // c ≠ '\n' }) : Piece :=
  if h : c.1 = '\\' ∨ c.1 = '"' then .escape c.1 (by rcases h with h | h <;> rw [h] <;> decide)
  else .plain c.1 ⟨c.2, fun hq => h (.inr hq), fun hs => h (.inl hs)⟩

theorem pieceOf_written (c : { c : Char // c ≠ '\n' }) : (pieceOf c).written = writtenChar c.1 := by
  unfold pieceOf writtenChar
  split <;> rfl

theorem pieceOf_meaning (c : { c : Char // c ≠ '\n' }) : (pieceOf c).meaning = c.1 := by
  unfold pieceOf
  split
  · next h =>
    rcases h with h | h <;> rw [Piece.meaning, h] <;> rfl
  · rfl

theorem pieceOf_parted (a b : { c : Char // c ≠ '\n' }) :
    (pieceOf a).Parted (pieceOf b) ↔ ¬ (a.1 = '\\' ∧ b.1 = '\'') := by
  rw [Piece.Parted, pieceOf_written, pieceOf_written, writtenChar, writtenChar]
  split_ifs with ha hb hb
  · rcases hb with hb | hb <;> simp [hb]
  · rcases ha with ha | ha <;> simp [ha]
  · simp [not_or.mp ha]
  · simp [not_or.mp ha]

/-- A text without line ends is written in pieces that mean its characters. -/
theorem exists_pieces (ht : '\n' ∉ t.toList) :
    ∃ ps, Piece.literal ps = quote t ∧ ps.map Piece.meaning = t.toList ∧
      (ps.IsChain Piece.Parted ↔ Parted t) := by
  have hchars : ∀ c ∈ t.toList, c ≠ '\n' := fun c hc => ne_of_mem_of_not_mem hc ht
  obtain ⟨cs, hcs⟩ : ∃ cs : List { c : Char // c ≠ '\n' }, cs.map Subtype.val = t.toList :=
    ⟨t.toList.attachWith _ hchars, attachWith_map_subtype_val hchars⟩
  refine ⟨cs.map pieceOf, ?_, ?_, ?_⟩
  · simp only [Piece.literal, Piece.inside, quote, ← hcs, flatMap_map, pieceOf_written]
  · rw [← hcs, map_map]
    exact map_congr_left fun c _ => pieceOf_meaning c
  · rw [Parted, ← hcs, isChain_map, isChain_map]
    simp only [pieceOf_parted]

/-- The text of a quoted text is that text exactly if its single quotes are parted from backslashes. -/
theorem plainText_quote_iff (ht : '\n' ∉ t.toList) :
    plainText (received (String.ofList (quote t))) = received t ↔ Parted t := by
  obtain ⟨ps, hquote, hmeaning, hparted⟩ := exists_pieces ht
  rw [← hquote, ← hparted, ← Piece.plainText_literal_iff, hmeaning, String.ofList_toList]

end Setting

/-! ## Reading -/

namespace Cursor

/-- A quoted value that is read is one that can be written. -/
theorem quoted_eq_ok {c d : Cursor} {cs : List Char} {raw : String} (hrest : c.rest = keep ('"' :: cs))
    (h : c.quoted = .ok (raw, d)) :
    ∃ ps r, '"' :: cs = Piece.literal ps ++ r ∧ raw = received (String.ofList (Piece.literal ps)) := by
  have hnext : c.next.rest = keep cs := by
    rw [rest_next, hrest, keep_cons, kept_of_not_isStray (by decide)]
    rfl
  rw [quoted, hnext] at h
  cases hread : quotedRest c.pos (keep cs) c.next.pos with
  | error e =>
    rw [hread] at h
    cases h
  | ok t =>
    rw [hread] at h
    cases h
    obtain ⟨ps, r, rfl, hout, -⟩ := spans_of_quotedRest hread
    refine ⟨ps, r, by simp [Piece.literal], ?_⟩
    rw [hout, received_ofList, Piece.keep_literal]

/-- Pieces between quotes are read as a value, whatever follows. -/
theorem settingValue_literal (ps : List Piece) (r : List Char) (p : Position) :
    ∃ p', settingValue ⟨keep (Piece.literal ps) ++ r, p⟩ =
      .ok (received (String.ofList (Piece.literal ps)), ⟨r, p'⟩) := by
  obtain ⟨p', hread⟩ := quotedRest_inside p ps r (p.advance '"')
  refine ⟨p', ?_⟩
  rw [received_ofList, Piece.keep_literal, cons_append, append_assoc, singleton_append]
  simp [settingValue, peek, quoted, next, hread, Except.map]

end Cursor

/-! ## Encoding -/

/-- Whether the option of a key is a text. -/
structure Descriptor.HasText (d : Descriptor) (key : String) (i : Nat) (o : OptionSpec) : Prop where
  index : d.optionIndex? key = some i
  option : d.options[i]? = some o
  text : DataType.canonical o.dataType = DataType.string

theorem OptionSpec.encode_text (h : DataType.canonical o.dataType = DataType.string) (key raw : String) :
    o.encode key raw = (some (.text (Setting.plainText raw)), []) := by
  have hshape : Shape.ofType? DataType.string = none := by decide
  have hscalar : Numeral.isScalar DataType.string (Setting.plainText raw) = true := by
    simp [Numeral.isScalar, DataType.canonical, DataType.string, DataType.boolean, DataType.byte]
  simp [OptionSpec.encode, h, hshape, hscalar]

namespace Descriptor

variable {d : Descriptor} {file : String}

/-- The option of a key. -/
def spec? (d : Descriptor) (key : String) : Option OptionSpec :=
  (d.optionIndex? key).bind (d.options[·]?)

/-- The warnings that a setting gives. -/
def warningsOf (d : Descriptor) (file : String) (m : Meta) : List Diagnostic :=
  match d.spec? m.key with
  | none => []
  | some o => (o.encode m.key m.value).2.map fun c => ⟨file, m.pos, c⟩

theorem overlay_cons (hi : d.optionIndex? m.key = some i) (ho : d.options[i]? = some o) :
    d.overlay file values warnings (m :: ms) =
      d.overlay file (values.set i ⟨o.name, o.dataType, (o.encode m.key m.value).1⟩)
        (warnings ++ d.warningsOf file m) ms := by
  simp [overlay, hi, ho, warningsOf, spec?]

/-- Settings that all have an option. -/
theorem overlay_cons_eq_ok (h : d.overlay file values warnings (m :: ms) = (w, .ok vs)) :
    ∃ i o, d.optionIndex? m.key = some i ∧ d.options[i]? = some o := by
  unfold overlay at h
  split at h
  · cases h
  · next i hi =>
    split at h
    · cases h
    · next o ho => exact ⟨i, o, hi, ho⟩

/-- The warnings are those of the settings, in their order. -/
theorem overlay_warnings (h : d.overlay file values warnings ms = (w, .ok vs)) :
    w = warnings ++ ms.flatMap (d.warningsOf file) := by
  induction ms generalizing values warnings with
  | nil =>
    cases h
    simp
  | cons m ms ih =>
    obtain ⟨i, o, hi, ho⟩ := overlay_cons_eq_ok h
    rw [overlay_cons hi ho] at h
    rw [ih h, flatMap_cons, append_assoc]

/-- Fewer settings can be laid over any values. -/
theorem overlay_sublist {values' : List ResolvedOption} {warnings' : List Diagnostic} {ms' : List Meta}
    (hms : ms'.Sublist ms) (h : d.overlay file values warnings ms = (w, .ok vs)) :
    ∃ w' vs', d.overlay file values' warnings' ms' = (w', .ok vs') := by
  induction hms generalizing values values' warnings warnings' with
  | slnil => exact ⟨warnings', values', rfl⟩
  | cons m _ ih =>
    obtain ⟨i, o, hi, ho⟩ := overlay_cons_eq_ok h
    rw [overlay_cons hi ho] at h
    exact ih h
  | cons_cons m _ ih =>
    obtain ⟨i, o, hi, ho⟩ := overlay_cons_eq_ok h
    rw [overlay_cons hi ho] at h ⊢
    exact ih h

theorem key_of_optionIndex? {key' : String} (h : d.optionIndex? key = some i)
    (h' : d.optionIndex? key' = some i) : key = key' := by
  obtain ⟨hlt, hkey, -⟩ := findIdx?_eq_some_iff_getElem.mp h
  obtain ⟨_, hkey', -⟩ := findIdx?_eq_some_iff_getElem.mp h'
  exact (beq_iff_eq.mp hkey).symm.trans (beq_iff_eq.mp hkey')

/-- Settings of other keys leave the value of an option alone. -/
theorem overlay_frame (h : d.overlay file values warnings ms = (w, .ok vs))
    (hms : ∀ m ∈ ms, d.optionIndex? m.key ≠ some i) : vs[i]? = values[i]? := by
  induction ms generalizing values warnings with
  | nil =>
    cases h
    rfl
  | cons m ms ih =>
    obtain ⟨j, o, hj, ho⟩ := overlay_cons_eq_ok h
    rw [overlay_cons hj ho] at h
    rw [ih h fun x hx => hms x (by simp [hx]), getElem?_set_ne]
    rintro rfl
    exact hms m (by simp) hj

/-- Settings of a key that agree on its value decide on that of its option. -/
theorem overlay_agreed {value : String} (h : d.overlay file values warnings ms = (w, .ok vs))
    (hset : ∃ m ∈ ms, m.key = key) (hagree : ∀ m ∈ ms, m.key = key → m.value = value)
    (hi : d.optionIndex? key = some i) (ho : d.options[i]? = some o) (hlen : i < values.length) :
    vs[i]? = some ⟨o.name, o.dataType, (o.encode key value).1⟩ := by
  induction ms generalizing values warnings with
  | nil => simp at hset
  | cons x ms ih =>
    obtain ⟨j, o', hj, ho'⟩ := overlay_cons_eq_ok h
    rw [overlay_cons hj ho'] at h
    rw [forall_mem_cons] at hagree
    by_cases hlater : ∃ m ∈ ms, m.key = key
    · exact ih h hlater hagree.2 (by simpa using hlen)
    · -- the first setting is the only one of the key
      have hx : x.key = key := by
        obtain ⟨m, hm, hkey⟩ := hset
        rcases mem_cons.mp hm with rfl | hm
        · exact hkey
        · exact absurd ⟨m, hm, hkey⟩ hlater
      rw [hx] at hj h
      obtain rfl : i = j := Option.some.inj (hi.symm.trans hj)
      obtain rfl : o = o' := Option.some.inj (ho.symm.trans ho')
      rw [overlay_frame h, getElem?_set_self hlen, hagree.1 hx]
      intro y hy hyi
      exact hlater ⟨y, hy, key_of_optionIndex? hyi hi⟩

/-- A setting whose key occurs once decides on the value of its option. -/
theorem overlay_value (h : d.overlay file values warnings ms = (w, .ok vs)) (hkeys : (ms.map (·.key)).Nodup)
    (hm : m ∈ ms) (hi : d.optionIndex? m.key = some i) (ho : d.options[i]? = some o)
    (hlen : i < values.length) : vs[i]? = some ⟨o.name, o.dataType, (o.encode m.key m.value).1⟩ := by
  refine overlay_agreed h ⟨m, hm, rfl⟩ (fun x hx hkey => ?_) hi ho hlen
  rw [inj_on_of_nodup_map hkeys hx hm hkey]

end Descriptor

namespace Setting

variable {d : Descriptor}

/-- A flow of one node that sets an option to a quoted text. -/
theorem encode_single (ht : '\n' ∉ t.toList) (ho : d.HasText key i o) {name component : String}
    (file : String) (hname : IsName name) (hcomponent : ∀ c ∈ component.toList, isComponentChar c = true)
    (hne : component ≠ "") (hkey : key ≠ "") (hchars : ∀ c ∈ key.toList, isSettingChar c = true) :
    ∃ g n v, Graph.parse (singleText name component key (received (String.ofList (quote t)))) = .ok g ∧
      g.nodes = [n] ∧ n.component = component ∧
      d.encode file n.settings = ([], .ok (d.defaults.set i ⟨o.name, o.dataType, some (.text v)⟩)) ∧
      (v = received t ↔ Parted t) := by
  obtain ⟨ps, hquote, -, -⟩ := exists_pieces ht
  have hvalue := fun p => Cursor.settingValue_literal ps [')'] p
  rw [hquote, show quote t = '"' :: _ from rfl, keep_cons, kept_of_not_isStray (by decide)] at hvalue
  have htext : (received (String.ofList (quote t))).toList ++ [')'] =
      '"' :: (keep (t.toList.flatMap writtenChar ++ ['"']) ++ [')']) := by
    rw [toList_received, String.toList_ofList, quote, keep_cons, kept_of_not_isStray (by decide)]
    rfl
  obtain ⟨g, n, pos, hparse, hnodes, hn, hsettings⟩ :=
    Graph.parse_single hname hcomponent hne hkey hchars (by decide) htext hvalue
  refine ⟨g, n, _, hparse, hnodes, hn, ?_, plainText_quote_iff ht⟩
  rw [hsettings, Descriptor.encode, Descriptor.overlay_cons ho.index ho.option,
    OptionSpec.encode_text ho.text]
  simp [Descriptor.overlay, Descriptor.warningsOf, Descriptor.spec?, ho.index, ho.option,
    OptionSpec.encode_text ho.text]

/-- A node of any flow that sets an option to a quoted text. -/
theorem encode_node (ht : '\n' ∉ t.toList) {text : String} {g : Graph} (hparse : Graph.parse text = .ok g)
    {n : Graph.Node} (hn : n ∈ g.nodes) (hm : m ∈ n.settings) (ho : d.HasText m.key i o)
    (hvalue : m.value = received (String.ofList (quote t))) {file : String}
    (h : d.encode file n.settings = (w, .ok values)) :
    (d.encode file (n.settings.erase m)).1 = w ∧
      (values[i]? = some ⟨o.name, o.dataType, some (.text (received t))⟩ ↔ Parted t) := by
  have hkeys := (Graph.consistent_of_parse hparse).settings n hn
  have hlen : i < d.defaults.length := by
    have hlt := (List.getElem?_eq_some_iff.mp ho.option).1
    simpa [Descriptor.defaults] using hlt
  constructor
  · obtain ⟨pre, post, -, hsplit, herase⟩ := exists_erase_eq hm
    obtain ⟨w', vs', h'⟩ : ∃ w' vs', d.overlay file d.defaults [] (n.settings.erase m) = (w', .ok vs') :=
      Descriptor.overlay_sublist erase_sublist h
    have hnone : d.warningsOf file m = [] := by
      simp [Descriptor.warningsOf, Descriptor.spec?, ho.index, ho.option, OptionSpec.encode_text ho.text]
    rw [Descriptor.encode, h', Descriptor.overlay_warnings h, Descriptor.overlay_warnings h', herase, hsplit]
    simp [hnone]
  · rw [Descriptor.overlay_value h hkeys hm ho.index ho.option hlen, OptionSpec.encode_text ho.text, hvalue,
      ← plainText_quote_iff ht]
    simp

/-- The values of an option that takes texts. Quoted texts are read back exactly if no backslash in them is directly followed by a single quote, and
no warning tells. This holds of each node of each flow, whatever else the flow says; a node with the one
setting is always read. In general the value of a quoted text is what its escapes stand for exactly if no
escaped backslash is directly followed by a single quote that is not escaped. -/
theorem quoted_text_decoded_iff (o : OptionSpec) (ho : DataType.canonical o.dataType = DataType.string) :
    (∀ t : String, '\n' ∉ t.toList → ∀ (d : Descriptor) (key : String) (i : Nat), d.HasText key i o →
      (∀ name component file : String, IsName name →
        (∀ c ∈ component.toList, isComponentChar c = true) → component ≠ "" →
        key ≠ "" → (∀ c ∈ key.toList, isSettingChar c = true) →
        ∃ g n v, Graph.parse (singleText name component key (received (String.ofList (quote t)))) = .ok g ∧
          g.nodes = [n] ∧ n.component = component ∧
          d.encode file n.settings = ([], .ok (d.defaults.set i ⟨o.name, o.dataType, some (.text v)⟩)) ∧
          (v = received t ↔ Parted t)) ∧
      ∀ text g, Graph.parse text = .ok g → ∀ n ∈ g.nodes, ∀ m ∈ n.settings, m.key = key →
        m.value = received (String.ofList (quote t)) →
        ∀ file w values, d.encode file n.settings = (w, .ok values) →
          (d.encode file (n.settings.erase m)).1 = w ∧
          (values[i]? = some ⟨o.name, o.dataType, some (.text (received t))⟩ ↔ Parted t)) ∧
    ∀ (c rest : Cursor) (cs : List Char) (raw : String), c.rest = keep ('"' :: cs) →
      c.quoted = .ok (raw, rest) →
      ∃ ps r, '"' :: cs = Piece.literal ps ++ r ∧ raw = received (String.ofList (Piece.literal ps)) ∧
        ∀ key, ∃ v, o.encode key raw = (some (.text v), []) ∧
          (v = received (String.ofList (ps.map Piece.meaning)) ↔ ps.IsChain Piece.Parted) := by
  refine ⟨fun t ht d key i hd => ⟨?_, ?_⟩, ?_⟩
  · intro name component file hname hcomponent hne hkey hchars
    exact encode_single ht hd file hname hcomponent hne hkey hchars
  · rintro text g hparse n hn m hm rfl hvalue file w values h
    exact encode_node ht hparse hn hm hd hvalue h
  · intro c rest cs raw hrest h
    obtain ⟨ps, r, hcs, hraw⟩ := Cursor.quoted_eq_ok hrest h
    refine ⟨ps, r, hcs, hraw, fun key => ⟨_, OptionSpec.encode_text ho key raw, ?_⟩⟩
    rw [hraw]
    exact Piece.plainText_literal_iff ps

/-- A type with one option, which is a text. -/
def labelled : Descriptor where
  name := "src"
  symbol := "lib.Src"
  options := [⟨"label", "string", none⟩]

/-- Quotes of both kinds and a backslash in a flow of one node, and escapes in a value by itself. -/
theorem quoted_text_decoded_iff_label :
    (∃ g n, Graph.parse "a(src:label=\"it's a \\\\ or \\\"\")" = .ok g ∧ g.nodes = [n] ∧
      labelled.encode "main.fbp" n.settings =
        ([], .ok [⟨"label", "string", some (.text "it's a \\ or \"")⟩])) ∧
    ∃ ps r, "\"\\'\\t\")".toList = Piece.literal ps ++ r ∧
      "\"\\'\\t\"" = received (String.ofList (Piece.literal ps)) := by
  have ho : labelled.HasText "label" 0 ⟨"label", "string", none⟩ := ⟨by decide, rfl, by decide⟩
  have hparted : Parted "it's a \\ or \"" := by decide
  obtain ⟨hflows, hvalues⟩ := quoted_text_decoded_iff ⟨"label", "string", none⟩ (by decide)
  constructor
  · obtain ⟨g, n, v, hparse, hnodes, -, hencode, hv⟩ := (hflows "it's a \\ or \"" (by decide +kernel)
      labelled "label" 0 ho).1 "a" "src" "main.fbp" ⟨by decide, all_eq_true.mp rfl⟩
      (all_eq_true.mp rfl) (by decide) (by decide) (all_eq_true.mp rfl)
    refine ⟨g, n, hparse, hnodes, ?_⟩
    rw [hencode, hv.mpr hparted]
    decide +kernel
  · have hread : Cursor.quoted ⟨"\"\\'\\t\")".toList, .start⟩ =
        .ok ("\"\\'\\t\"", ⟨[')'], ⟨1, 7⟩⟩) := by decide +kernel
    obtain ⟨ps, r, hcs, hraw, -⟩ := hvalues ⟨"\"\\'\\t\")".toList, .start⟩ _ "\\'\\t\")".toList
      "\"\\'\\t\"" (by decide +kernel) hread
    exact ⟨ps, r, hcs, hraw⟩

/-- The text of a backslash and a single quote comes back with one more backslash. -/
theorem backslash_quote_doubled :
    (Graph.parse (singleText "a" "src" "label" (received (String.ofList (quote "\\'"))))).toOption.map
        (fun g => g.nodes.map fun n => labelled.encode "main.fbp" n.settings) =
      some [([], .ok [⟨"label", "string", some (.text "\\\\'")⟩])] := by decide +kernel

end Setting

end FlowCompiler
