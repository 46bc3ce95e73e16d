import FlowCompiler.Proofs.Naming.Words
import FlowCompiler.Proofs.Options.Exported
import FlowCompiler.Proofs.Program.Code

/-!
# Fields of exported options

The options of a flow become the fields of a type. A field is made of the name under which an option is
exported, and names that are different may give the same field: what separates words is dropped, and so is the
case of a letter that begins a word after a separator.

`Naming.marks name` is what a field keeps of a name: its letters and digits regardless of case, and which
letters begin words. Main statement: `Session.Compiles.option_fields_distinct_iff`. The fields of a unit are
distinct if and only if the marks of the names are.
-/

namespace FlowCompiler

open List

namespace Naming

/-! ## What a field keeps of a name -/

/-- Whether a character begins a word: a letter that is a capital, or that follows no letter or digit. -/
def beginsWord (before : Option Char) (c : Char) : Bool :=
  c.isAlpha && (c.isUpper || !before.any Char.isAlphanum)

/-- The letters and digits of a text, without regard to case, and whether they begin words. The text stands
after the character `before`. -/
def marksFrom (before : Option Char) (cs : List Char) : List (Char × Bool) :=
  (((before :: cs.map some).zip cs).filter (·.2.isAlphanum)).map fun p => (p.2.toLower, beginsWord p.1 p.2)

/-- The letters and digits of a name, without regard to case, and whether they begin words. -/
def marks (name : String) : List (Char × Bool) := marksFrom none name.toList

/-- The character with which a mark is written. -/
def shown (m : Char × Bool) : Char := if m.2 then m.1.toUpper else m.1

/-- A character as `exported` takes it. -/
def cleaned (c : Char) : Char := if Text.isLetter c || Text.isDigit c then c else '_'

theorem marksFrom_cons_of_isAlphanum (before : Option Char) {c : Char} (hc : c.isAlphanum = true)
    (cs : List Char) :
    marksFrom before (c :: cs) = (c.toLower, beginsWord before c) :: marksFrom (some c) cs := by
  simp [marksFrom, hc]

theorem marksFrom_cons_of_not_isAlphanum (before : Option Char) {c : Char} (hc : c.isAlphanum = false)
    (cs : List Char) : marksFrom before (c :: cs) = marksFrom (some c) cs := by
  simp [marksFrom, hc]

section Characters

variable {c : Char}

theorem cleaned_of_isAlphanum (h : c.isAlphanum = true) (hascii : c.toNat < 128) : cleaned c = c := by
  have hword : (Text.isLetter c || Text.isDigit c) = true := by
    simpa [Text.isLetter, Text.isDigit, hascii, Char.isAlphanum] using h
  exact if_pos hword

theorem cleaned_of_not_isAlphanum (h : c.isAlphanum = false) (hascii : c.toNat < 128) :
    cleaned c = '_' := by
  have hword : (Text.isLetter c || Text.isDigit c) = false := by
    simpa [Text.isLetter, Text.isDigit, hascii, Char.isAlphanum] using h
  rw [cleaned, if_neg (by simp [hword])]

theorem isSeparator_of_isAlphanum (h : c.isAlphanum = true) (hascii : c.toNat < 128) :
    isSeparator c = false :=
  Text.forall_ascii (P := fun c => c.isAlphanum = true → isSeparator c = false) (by decide) hascii h

/-- A letter or digit that begins a word is written as a capital, if it has one. -/
theorem toUpper_eq_shown (h : c.isAlphanum = true) (hascii : c.toNat < 128) :
    c.toUpper = shown (c.toLower, c.isAlpha) :=
  Text.forall_ascii (P := fun c => c.isAlphanum = true → c.toUpper = shown (c.toLower, c.isAlpha))
    (by decide) hascii h

/-- A mark can be read off the character with which it is written. -/
theorem mark_of_shown (h : c.isAlphanum = true) (hascii : c.toNat < 128) {begins : Bool}
    (hbegins : begins = true → c.isAlpha = true) :
    ((shown (c.toLower, begins)).toLower, (shown (c.toLower, begins)).isUpper) = (c.toLower, begins) :=
  Text.forall_ascii (P := fun c => c.isAlphanum = true → ∀ begins : Bool, (begins = true → c.isAlpha = true) →
      ((shown (c.toLower, begins)).toLower, (shown (c.toLower, begins)).isUpper) = (c.toLower, begins))
    (by decide) hascii h begins hbegins

end Characters

/-- Joined words are the marks of a text, as they are written. -/
theorem joinWords_eq_map_shown {cs : List Char} (hcs : ∀ c ∈ cs, isNameChar c = true) (before : Option Char) :
    joinWords (before.any Char.isAlphanum) (cs.map cleaned) = (marksFrom before cs).map shown := by
  induction cs generalizing before with
  | nil => rfl
  | cons c cs ih =>
    obtain ⟨hc, hrest⟩ := forall_mem_cons.mp hcs
    have hascii := toNat_lt_of_isNameChar hc
    have ih := ih hrest (some c)
    rw [Option.any_some] at ih
    rw [map_cons, joinWords]
    by_cases hword : c.isAlphanum = true
    · rw [hword] at ih
      rw [cleaned_of_isAlphanum hword hascii, marksFrom_cons_of_isAlphanum before hword, map_cons,
        if_neg (by simp [isSeparator_of_isAlphanum hword hascii]), Text.toLower_of_ascii hascii,
        Text.toUpper_of_ascii hascii, show Text.isUpper c = c.isUpper from if_pos hascii, ih]
      by_cases hinner : (before.any Char.isAlphanum && !c.isUpper) = true
      · -- inside a word, as a small letter
        rw [if_pos hinner]
        rw [Bool.and_eq_true, Bool.not_eq_true'] at hinner
        have hbegins : beginsWord before c = false := by simp [beginsWord, hinner]
        rw [hbegins]
        rfl
      · -- at the beginning of a word, where a digit looks no different
        rw [if_neg hinner]
        rw [Bool.and_eq_true, Bool.not_eq_true', not_and_or, Bool.not_eq_true, Bool.not_eq_false] at hinner
        have hbegins : beginsWord before c = c.isAlpha := by
          rcases hinner with hinner | hinner <;> simp [beginsWord, hinner]
        rw [hbegins, toUpper_eq_shown hword hascii]
    · rw [Bool.not_eq_true] at hword
      rw [hword] at ih
      rw [cleaned_of_not_isAlphanum hword hascii, marksFrom_cons_of_not_isAlphanum before hword,
        if_pos (by decide), ih]

theorem marks_of_shown {cs : List Char} (hcs : ∀ c ∈ cs, isNameChar c = true) (before : Option Char) :
    ((marksFrom before cs).map shown).map (fun x => (x.toLower, x.isUpper)) = marksFrom before cs := by
  induction cs generalizing before with
  | nil => rfl
  | cons c cs ih =>
    obtain ⟨hc, hrest⟩ := forall_mem_cons.mp hcs
    by_cases hword : c.isAlphanum = true
    · have hbegins : beginsWord before c = true → c.isAlpha = true := by
        intro h
        exact (Bool.and_eq_true_iff.mp h).1
      rw [marksFrom_cons_of_isAlphanum before hword, map_cons, map_cons, ih hrest,
        mark_of_shown hword (toNat_lt_of_isNameChar hc) hbegins]
    · rw [marksFrom_cons_of_not_isAlphanum before (by simpa using hword), ih hrest]

theorem toList_exported_forwarded (name : String) :
    (exported (forwarded name)).toList = ['O', 'p', 't'] ++ joinWords false (name.toList.map cleaned) := by
  have hwords : (forwarded name).toList.map (fun c => if Text.isLetter c || Text.isDigit c then c else '_') =
      ['o', 'p', 't', '_'] ++ name.toList.map cleaned := by
    rw [forwarded, String.toList_append, map_append]
    rfl
  have hjoin : joinWords false (['o', 'p', 't', '_'] ++ name.toList.map cleaned) =
      'O' :: 'p' :: 't' :: joinWords false (name.toList.map cleaned) := rfl
  unfold exported
  dsimp only
  rw [hwords, hjoin]
  exact String.toList_ofList

/-- Two names give the same field if and only if their marks are the same. -/
theorem exported_forwarded_inj {a b : String} (ha : IsName a) (hb : IsName b) :
    exported (forwarded a) = exported (forwarded b) ↔ marks a = marks b := by
  rw [← String.toList_inj, toList_exported_forwarded, toList_exported_forwarded, append_right_inj]
  have hjoin : ∀ {name : String}, IsName name →
      joinWords false (name.toList.map cleaned) = (marks name).map shown :=
    fun hname => joinWords_eq_map_shown hname.2 none
  rw [hjoin ha, hjoin hb]
  constructor
  · intro h
    have hmarks := congrArg (List.map fun x => (x.toLower, x.isUpper)) h
    rwa [marks, marks, marks_of_shown ha.2, marks_of_shown hb.2] at hmarks
  · intro h
    rw [h]

end Naming

/-! ## Fields of a unit -/

/-- The fields for the options of a type. -/
def Descriptor.optionFields (d : Descriptor) : List String := d.options.map fun o => Naming.optionField d o.name

namespace FlowUnit

variable {cfg : Config} {units : List FlowUnit} {u : FlowUnit}

/-- The fields for the options of a unit. -/
def optionFields (u : FlowUnit) : List String := u.descriptor.optionFields

theorem Compiled.optionField_descriptor (h : u.Compiled cfg units) (name : String) :
    Naming.optionField u.descriptor name = Naming.exported (Naming.forwarded name) := by
  obtain ⟨symbol, hdescriptor⟩ := h.descriptor_eq
  rw [hdescriptor]
  rfl

theorem Compiled.optionFields_eq (h : u.Compiled cfg units) :
    u.optionFields = u.graph.options.map fun o => Naming.exported (Naming.forwarded o.name) := by
  have hfields : u.optionFields =
      (u.descriptor.options.map (·.name)).map fun name => Naming.exported (Naming.forwarded name) := by
    rw [optionFields, Descriptor.optionFields, map_map]
    exact map_congr_left fun o _ => h.optionField_descriptor o.name
  rw [hfields, h.names_descriptor, map_map]
  rfl

/-- The fields of a unit are distinct if the marks of the names are. -/
theorem Compiled.nodup_optionFields_iff (h : u.Compiled cfg units) :
    u.optionFields.Nodup ↔ (u.graph.options.map fun o => Naming.marks o.name).Nodup := by
  obtain ⟨text, hparse⟩ := h.parsed
  have hnames := Graph.isName_option_of_parse hparse
  rw [h.optionFields_eq, List.Nodup, List.Nodup, pairwise_map, pairwise_map]
  refine List.Pairwise.iff_of_mem fun {a b} ha hb => not_congr ?_
  exact Naming.exported_forwarded_inj (hnames a ha) (hnames b hb)

/-- The rows of a unit read its fields. -/
theorem Compiled.fields_forwarding (h : u.Compiled cfg units) :
    u.forwarding.map (fun r => Naming.exported r.parentField) = u.optionFields := by
  rw [h.forwarding_eq, h.optionFields_eq, map_map]
  rfl

/-- The literal for some options of a type has some of their fields, in their order. -/
theorem keys_optionsLiteral (d : Descriptor) (values : List ResolvedOption) :
    ∃ entries, d.optionsLiteral values = .withLines (Names.symbolExpr d.optionsSymbol) entries ∧
      (entries.map (·.1)).Sublist (values.map fun o => Naming.optionField d o.name) := by
  refine ⟨_, rfl, ?_⟩
  induction values with
  | nil => exact List.Sublist.refl _
  | cons o values ih =>
    rw [filterMap_cons, map_cons]
    split
    · exact ih.cons _
    · next e he =>
      split at he
      · cases he
        exact ih.cons_cons _
      · cases he

/-- A unit with exported options has a type for them with its fields, and a literal with some of these. -/
theorem Compiled.optionsDecls_cases (h : u.Compiled cfg units) :
    (u.graph.options = [] ∧ u.optionsDecls = []) ∨
      ∃ comment fields entries, u.optionsDecls = [.record comment u.optionsSymbol fields,
          .initialised u.defaultsName (.withLines (Names.symbolExpr u.optionsSymbol) entries)] ∧
        fields.map (·.name) = u.optionFields ∧ (entries.map (·.1)).Sublist u.optionFields := by
  rw [← h.optionsSymbol_eq_empty_iff]
  have hdecls : u.optionsDecls = if u.optionsSymbol = "" then [] else [
      .record (u.optionsSymbol ++ " holds the exported options of " ++ u.name ++ ".") u.optionsSymbol
        (u.descriptor.options.map fun o =>
          ⟨Naming.optionField u.descriptor o.name, DataType.fieldType o.dataType⟩),
      .initialised u.defaultsName (u.descriptor.optionsLiteral u.descriptor.defaults)] := by
    rw [← descriptor_optionsSymbol]
    rfl
  rw [hdecls]
  by_cases hsymbol : u.optionsSymbol = ""
  · exact .inl ⟨hsymbol, if_pos hsymbol⟩
  · obtain ⟨entries, hliteral, hkeys⟩ := keys_optionsLiteral u.descriptor u.descriptor.defaults
    rw [descriptor_optionsSymbol] at hliteral
    refine .inr ⟨_, _, entries, (if_neg hsymbol).trans (by rw [hliteral]), ?_, ?_⟩
    · rw [map_map]
      rfl
    · rw [Descriptor.defaults, map_map] at hkeys
      exact hkeys

end FlowUnit

namespace Session

variable {cfg : Config} {s : Session} {root : FlowUnit}

/-- The options of a unit's type have the names under which they are exported, which are distinct. Their
fields are distinct if and only if the marks of these names are. The rows read a field each, in the same order;
the type of the options has these fields, and the literal of their defaults has some of them. -/
theorem Compiles.option_fields_distinct_iff (h : s.Compiles cfg root) : ∀ u ∈ s.units,
    u.descriptor.options.map (·.name) = u.graph.options.map (·.name) ∧
    (u.graph.options.map (·.name)).Nodup ∧
    (u.optionFields.Nodup ↔ (u.graph.options.map fun o => Naming.marks o.name).Nodup) ∧
    u.forwarding.map (fun r => Naming.exported r.parentField) = u.optionFields ∧
    ((u.graph.options = [] ∧ u.optionsDecls = []) ∨
      ∃ comment fields entries, u.optionsDecls = [.record comment u.optionsSymbol fields,
          .initialised u.defaultsName (.withLines (Names.symbolExpr u.optionsSymbol) entries)] ∧
        fields.map (·.name) = u.optionFields ∧ (entries.map (·.1)).Sublist u.optionFields) := by
  intro u hu
  have hc := h.done.2.compiled hu
  obtain ⟨text, hparse⟩ := hc.parsed
  exact ⟨hc.names_descriptor, (Graph.consistent_of_parse hparse).optionNames, hc.nodup_optionFields_iff,
    hc.fields_forwarding, hc.optionsDecls_cases⟩

/-- A catalog with a type that has two options. -/
def pairedConfig : Config where
  storage := ⟨["w"], [(["w"], .directory)]⟩
  common := {
    types := [{
      name := "src", symbol := "lib.Src", optionsSymbol := "lib.SrcOptions"
      options := [⟨"x", "string", some (.text "1")⟩, ⟨"y", "string", some (.text "2")⟩] }] }

/-- The session of a flow with that catalog. -/
def pairedSession (text : String) : Session × Except CompileError FlowUnit :=
  compileText {} pairedConfig "main.fbp" text

/-- Names with the same letters and digits, in which different letters begin words. -/
def wordsText : String := "OPTION=a.x:ab1c\nOPTION=a.y:a_b1c\nOPTION=a.y:ab1C\nOPTION=a.y:-Ab1-\na(src)"

/-- These names get fields of their own. -/
theorem Compiles.option_fields_distinct_iff_words :
    ∃ root, (pairedSession wordsText).1.Compiles pairedConfig root ∧
      ∃ u ∈ (pairedSession wordsText).1.units,
        u.graph.options.map (·.name) = ["ab1c", "a_b1c", "ab1C", "-Ab1-"] ∧
        u.forwarding.map (fun r => Naming.exported r.parentField) =
          ["OptAb1c", "OptAB1c", "OptAb1C", "OptAb1"] ∧ u.optionFields.Nodup := by
  obtain ⟨root, h, hnames, hfields, hmarks⟩ : ∃ root, (pairedSession wordsText).1.Compiles pairedConfig root ∧
      root.graph.options.map (·.name) = ["ab1c", "a_b1c", "ab1C", "-Ab1-"] ∧
      root.optionFields = ["OptAb1c", "OptAB1c", "OptAb1C", "OptAb1"] ∧
      (root.graph.options.map fun o => Naming.marks o.name).Nodup :=
    exists_compiles_and rfl (by decide +kernel)
  obtain ⟨-, -, hiff, hrows, -⟩ := h.option_fields_distinct_iff root h.root_mem
  exact ⟨root, h, root, h.root_mem, hnames, hrows.trans hfields, hiff.mpr hmarks⟩

/-- Two names that differ in what separates their words. -/
def sharedText : String := "OPTION=a.x:p-q\nOPTION=a.y:p_q\na(src)"

/-- These names give the same field. -/
theorem option_fields_shared :
    ∃ root, (pairedSession sharedText).1.Compiles pairedConfig root ∧
      root.graph.options.map (·.name) = ["p-q", "p_q"] ∧ root.optionFields = ["OptPQ", "OptPQ"] :=
  exists_compiles_and rfl (by decide +kernel)

end Session

end FlowCompiler
