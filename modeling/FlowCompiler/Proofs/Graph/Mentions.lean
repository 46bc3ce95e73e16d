import FlowCompiler.Proofs.Graph.Reach
import Mathlib

/-!
# Where a text mentions nodes

The statements of a text mention nodes in chains, at positions that strictly grow (`statement_mentions`), and
name nodes in exports and options. All that is written is a word of name characters (`Statement.Spelled`),
so the name that an anonymous node gets is never a written one, and no two of them are the same
(`references_apart`).
-/

namespace FlowCompiler

open List

variable {ss : List Statement} {c d : Cursor} {s : Statement} {w : String}

/-- A name as it can be written in a flow text. -/
def IsName (w : String) : Prop := w ≠ "" ∧ ∀ c ∈ w.toList, isNameChar c = true

/-- How a text refers to a node: by a name, or by `_` for the new node that it describes. -/
inductive Reference where
  | named (name : String)
  | anonymous (node : Graph.Node)

namespace Reference

/-- The name of the node in the graph. -/
def name : Reference → String
  | .named name => name
  | .anonymous n => n.name

/-- Where the reference stands, for `_`. -/
def pos? : Reference → Option Position
  | .named _ => none
  | .anonymous n => some n.pos

end Reference

namespace Mention

/-- The node that the mention describes by itself. -/
def node (m : Mention) : Graph.Node := ⟨m.nodeName, m.component, m.settings, m.pos⟩

def reference (m : Mention) : Reference :=
  if m.name = "_" then .anonymous m.node else .named m.name

theorem reference_name (m : Mention) : m.reference.name = m.nodeName := by
  by_cases hn : m.name = "_" <;> simp [reference, Reference.name, node, nodeName, hn]

end Mention

namespace Statement

/-- The nodes of a chain, in the order of the text. -/
def mentions : Statement → List Mention
  | .chain head links => head :: links.map (·.node)
  | _ => []

/-- How a statement refers to nodes, in the order of the text. -/
def references : Statement → List Reference
  | .chain head links => (head :: links.map (·.node)).map (·.reference)
  | .exportPort _ node _ _ _ => [.named node]
  | .declare _ => []
  | .exportOption node _ _ _ => [.named node]

/-- What the parts of a statement are when it was read from a text. -/
def Spelled : Statement → Prop
  | .chain head links =>
    ∀ m ∈ head :: links.map (·.node), IsName m.name ∧ (m.name = "_" → m.component ≠ "")
  | .exportPort _ node _ _ _ => IsName node
  | .declare d => IsName d.name ∧ d.contents ≠ "" ∧ ∀ c ∈ d.contents.toList, isContentsChar c = true
  | .exportOption node _ name _ => IsName node ∧ IsName name

end Statement

/-! ## Words -/

namespace Cursor

theorem word_accepted {accept : Char → Bool} (h : c.word accept = (w, d)) :
    ∀ x ∈ w.toList, accept x = true := by
  cases h
  intro x hx
  rw [String.toList_ofList] at hx
  exact mem_takeWhile_imp hx

theorem isName_of_word (h : c.word isNameChar = (w, d)) (hw : w ≠ "") : IsName w := ⟨hw, word_accepted h⟩

end Cursor

theorem Text.mem_of_mem_trimChars {cs : List Char} {c : Char} (h : c ∈ trimChars cs) : c ∈ cs := by
  unfold trimChars at h
  have h1 := (dropWhile_sublist _).subset (mem_reverse.mp h)
  exact (dropWhile_sublist _).subset (mem_reverse.mp h1)

/-! ## What readers give -/

namespace Cursor

/-- A mention is a name at the position where it starts. -/
theorem mention_eq_ok {m : Mention} (h : c.mention = .ok (m, d)) :
    m.pos = c.pos ∧ IsName m.name ∧ (m.name = "_" → m.component ≠ "") := by
  unfold mention at h
  rcases hw : c.word isNameChar with ⟨name, d0⟩
  simp only [hw] at h
  split at h
  · cases h
  · next hn =>
    obtain ⟨⟨⟨component, ms⟩, d1⟩, -, h⟩ := bind_eq_ok.1 h
    dsimp only at h
    split at h
    · cases h
    · next hc =>
      cases h
      refine ⟨rfl, isName_of_word hw hn, ?_⟩
      intro h1 h2
      exact hc (by simp_all)

theorem links_spelled {c d : Cursor} {ls : List Link} (h : c.links = (ls, .ok d)) :
    ∀ l ∈ ls, IsName l.node.name ∧ (l.node.name = "_" → l.node.component ≠ "") := by
  fun_induction links c generalizing ls with
  | case1 | case3 => cases h
  | case2 =>
    cases h
    exact fun _ hl => absurd hl not_mem_nil
  | case4 c d1 h1 _ l e h2 ls' r hr ih =>
    simp only [Prod.mk.injEq] at h
    obtain ⟨rfl, rfl⟩ := h
    obtain ⟨f, -, hm⟩ := link_eq_ok h2
    intro k hk
    rcases mem_cons.mp hk with rfl | hk
    · exact (mention_eq_ok hm).2
    · exact ih hr k hk

theorem chain_spelled (h : c.chain = (ss, .ok d)) : ∀ s ∈ ss, s.Spelled := by
  unfold chain at h
  split at h
  · cases h
  · next head e hm =>
    simp only [Prod.mk.injEq] at h
    obtain ⟨rfl, hr⟩ := h
    intro s hs
    obtain rfl := mem_singleton.mp hs
    intro m hmem
    rcases mem_cons.mp hmem with rfl | hl
    · exact (mention_eq_ok hm).2
    · obtain ⟨l, hin, rfl⟩ := mem_map.mp hl
      exact @links_spelled e d e.links.1 (Prod.ext rfl hr) l hin

/-- An exported port is read as such, with a name for its node. -/
theorem exportPort_eq_ok {direction : Direction} (h : exportPort direction c = .ok (s, d)) :
    ∃ node port name, s = .exportPort direction node port name c.pos ∧ IsName node := by
  obtain ⟨node, e, port, f, name, hw, hnode, -, -, -, -, -, rfl⟩ := exportPort_read h
  exact ⟨node, port, name, rfl, isName_of_word hw hnode⟩

/-- A declaration is read as such, with a name; its contents stop before what ends a statement. -/
theorem declare_eq_ok (h : declare c = .ok (s, d)) :
    ∃ decl, s = .declare decl ∧ IsName decl.name ∧ decl.contents ≠ "" ∧
      ∀ x ∈ decl.contents.toList, isContentsChar x = true := by
  obtain ⟨name, e, kind, f, raw, hw, hname, -, -, -, -, hy, hcontents, rfl⟩ := declare_read h
  refine ⟨_, rfl, isName_of_word hw hname, hcontents, fun x hx => word_accepted hy x ?_⟩
  rw [Text.trim, String.toList_ofList] at hx
  exact Text.mem_of_mem_trimChars hx

/-- An exported option is read as such, with a name for its node and one of its own. -/
theorem exportOption_eq_ok (h : exportOption c = .ok (s, d)) :
    ∃ node option name, s = .exportOption node option name c.pos ∧ IsName node ∧ IsName name := by
  obtain ⟨node, e, option, f, name, hw, hnode, -, -, -, hy, hname, rfl⟩ := exportOption_read h
  exact ⟨node, option, name, rfl, isName_of_word hw hnode, isName_of_word hy hname⟩

/-- A statement that a keyword starts is spelled well and mentions no node. -/
theorem keyword?_spelled {read : Cursor → Except ParseError (Statement × Cursor)}
    (hw : keyword? w = some read) (h : read c = .ok (s, d)) : s.Spelled ∧ s.mentions = [] := by
  obtain ⟨direction, rfl⟩ | rfl | rfl := keyword?_eq_some hw
  · obtain ⟨node, port, name, rfl, hn⟩ := exportPort_eq_ok h
    exact ⟨hn, rfl⟩
  · obtain ⟨decl, rfl, hd⟩ := declare_eq_ok h
    exact ⟨hd, rfl⟩
  · obtain ⟨node, option, name, rfl, hn⟩ := exportOption_eq_ok h
    exact ⟨hn, rfl⟩

theorem statement_spelled (h : c.statement = (ss, .ok d)) : ∀ s ∈ ss, s.Spelled := by
  obtain ⟨w, e, s, read, hk, -, hr, rfl⟩ | hc := statement_eq_ok h
  · intro t ht
    obtain rfl := mem_singleton.mp ht
    exact (keyword?_spelled hk hr).1
  · exact chain_spelled hc

theorem statements_spelled (h : c.statements = (ss, none)) : ∀ s ∈ ss, s.Spelled := by
  fun_induction statements c generalizing ss with
  | case1 | case4 | case5 | case7 => cases h
  | case2 =>
    cases h
    exact fun _ hs => absurd hs not_mem_nil
  | case3 c d h1 x hx hsep ih => exact ih h
  | case6 c d h1 x hx hsep ss' e ht f he hend more fault hmore ih =>
    simp only [Prod.mk.injEq] at h
    obtain ⟨rfl, rfl⟩ := h
    intro s hs
    rcases mem_append.mp hs with hs | hs
    · exact statement_spelled ht s hs
    · exact ih hmore s hs

/-! ## The order of mentions -/

theorem links_mentions {ls : List Link} (h : c.links = (ls, .ok d)) : c.Between d (ls.map (·.node.pos)) := by
  fun_induction links c generalizing ls with
  | case1 | case3 => cases h
  | case2 =>
    cases h
    exact .nil _ _
  | case4 c d1 h1 _ l e h2 ls' r hr ih =>
    simp only [Prod.mk.injEq] at h
    obtain ⟨rfl, rfl⟩ := h
    obtain ⟨f, hf, hm⟩ := link_eq_ok h2
    have hcf := (skipSpace_reaches h1).trans hf.reaches
    -- the node of the link stands at `f`, between `d1` and `e`
    have hl : c.Between e [l.node.pos] := by
      rw [(mention_eq_ok hm).1]
      exact (Between.singleton (mention_gets hm)).widen hcf (.refl e)
    exact hl.append (ih hr) (hcf.trans (mention_reaches hm)) (links_reaches hr)

theorem chain_mentions (h : c.chain = (ss, .ok d)) :
    c.Between d (ss.flatMap fun s => s.mentions.map (·.pos)) := by
  unfold chain at h
  split at h
  · cases h
  · next head e hm =>
    simp only [Prod.mk.injEq] at h
    obtain ⟨rfl, hr⟩ := h
    have hlinks : e.links = (e.links.1, .ok d) := Prod.ext rfl hr
    have hhead : c.Between e [head.pos] := by
      rw [(mention_eq_ok hm).1]
      exact .singleton (mention_gets hm)
    rw [flatMap_singleton, Statement.mentions, map_cons, map_map]
    exact hhead.append (links_mentions hlinks) (mention_reaches hm) (links_reaches hlinks)

/-- Mentions stand at growing positions. -/
theorem statement_mentions (h : c.statement = (ss, .ok d)) :
    c.Between d (ss.flatMap fun s => s.mentions.map (·.pos)) := by
  obtain ⟨w, e, s, read, hk, -, hr, rfl⟩ | hc := statement_eq_ok h
  · rw [flatMap_singleton, (keyword?_spelled hk hr).2]
    exact .nil _ _
  · exact chain_mentions hc

end Cursor

/-! ## Names of anonymous nodes -/

theorem Mention.toList_anonymousName (p : Position) :
    (anonymousName p).toList =
      "#anon:".toList ++ (Nat.toDigits 10 p.line ++ ':' :: Nat.toDigits 10 p.column) := by
  simp [anonymousName, Nat.toList_repr, ToString.toString]

private theorem colon_notMem_toDigits (n : Nat) : ':' ∉ Nat.toDigits 10 n := by
  intro h
  have := Nat.isDigit_of_mem_toDigits (by decide) (by decide) h
  exact absurd this (by decide)

/-- Different positions give different names. -/
theorem Mention.anonymousName_injective {p q : Position}
    (h : anonymousName p = anonymousName q) : p = q := by
  have hl := congrArg String.toList h
  rw [toList_anonymousName, toList_anonymousName] at hl
  have hl := (append_cons_inj_of_notMem (colon_notMem_toDigits _)
    (colon_notMem_toDigits _)).mp (append_cancel_left hl)
  obtain ⟨hline, -, hcolumn⟩ := hl
  rw [← Nat.toList_repr, ← Nat.toList_repr] at hline hcolumn
  have e₁ : p.line = q.line := Nat.repr_injective (String.toList_inj.mp hline)
  have e₂ : p.column = q.column := Nat.repr_injective (String.toList_inj.mp hcolumn)
  cases p
  cases q
  simp_all

/-- The name of an anonymous node cannot be written. -/
theorem IsName.ne_anonymousName (h : IsName w) (p : Position) : w ≠ Mention.anonymousName p := by
  rintro rfl
  have hc : '#' ∈ (Mention.anonymousName p).toList := by
    rw [Mention.toList_anonymousName]
    exact mem_append_left _ (by decide)
  exact absurd (h.2 _ hc) (by decide)

namespace Statement

/-- A name is a written one, or the one that the position of `_` gives. -/
def ReferenceOk : Reference → Prop
  | .named name => IsName name
  | .anonymous n => n.name = Mention.anonymousName n.pos

theorem referenceOk_of_spelled (h : s.Spelled) : ∀ r ∈ s.references, ReferenceOk r := by
  intro r hr
  cases s with
  | chain head links =>
    obtain ⟨m, hm, rfl⟩ := mem_map.mp hr
    by_cases hn : m.name = "_"
    · simp [Mention.reference, Mention.node, Mention.nodeName, ReferenceOk, hn]
    · simpa [Mention.reference, ReferenceOk, hn] using (h m hm).1
  | exportPort direction node port name pos =>
    obtain rfl := mem_singleton.mp hr
    exact h
  | declare d => exact absurd hr not_mem_nil
  | exportOption node option name pos =>
    obtain rfl := mem_singleton.mp hr
    exact h.1

/-- The positions of anonymous references are among those of mentions, in the same order. -/
theorem references_sublist (s : Statement) :
    (s.references.filterMap (·.pos?)).Sublist (s.mentions.map (·.pos)) := by
  cases s with
  | chain head links =>
    simp only [references, mentions]
    generalize head :: links.map (·.node) = ms
    induction ms with
    | nil => exact .slnil
    | cons m ms ih =>
      by_cases hn : m.name = "_"
      · simpa [Mention.reference, Mention.node, Reference.pos?, hn] using ih
      · simpa [Mention.reference, Reference.pos?, hn] using ih.cons m.pos
  | exportPort direction node port name pos => exact nil_sublist _
  | declare d => exact nil_sublist _
  | exportOption node option name pos => exact nil_sublist _

theorem references_sublist_all (ss : List Statement) :
    ((ss.flatMap references).filterMap (·.pos?)).Sublist (ss.flatMap fun s => s.mentions.map (·.pos)) := by
  induction ss with
  | nil => exact .slnil
  | cons s ss ih =>
    rw [flatMap_cons, flatMap_cons, filterMap_append]
    exact (references_sublist s).append ih

/-- Two references share a node only if both write its name. -/
def Apart (a b : Reference) : Prop := a.name = b.name → a.pos? = none ∧ b.pos? = none

/-- Each `_` of a text stands for a node that nothing else in the text refers to. -/
theorem references_apart {text : String} (h : Statement.ofText text = (ss, none)) :
    (ss.flatMap references).Pairwise Apart := by
  have hok : ∀ r ∈ ss.flatMap references, ReferenceOk r := by
    intro r hr
    obtain ⟨s, hs, hr⟩ := mem_flatMap.mp hr
    exact referenceOk_of_spelled (Cursor.statements_spelled h s hs) r hr
  obtain ⟨d, -, hgrow⟩ := Cursor.statements_between Cursor.statement_mentions h
  have hbefore := hgrow.1.sublist (references_sublist_all ss)
  rw [pairwise_filterMap] at hbefore
  refine hbefore.imp_of_mem ?_
  intro a b ha hb hpos heq
  have hoka := hok a ha
  have hokb := hok b hb
  cases a with
  | named v =>
    cases b with
    | named w => exact ⟨rfl, rfl⟩
    | anonymous n => exact absurd (heq.trans hokb) (hoka.ne_anonymousName n.pos)
  | anonymous m =>
    have hm : m.name = Mention.anonymousName m.pos := hoka
    cases b with
    | named w => exact absurd (heq.symm.trans hoka) (hokb.ne_anonymousName m.pos)
    | anonymous n =>
      have hn : n.name = Mention.anonymousName n.pos := hokb
      have hname : m.name = n.name := heq
      rw [hm, hn] at hname
      exact absurd (Mention.anonymousName_injective hname) (hpos m.pos rfl n.pos rfl).ne

end Statement

end FlowCompiler
