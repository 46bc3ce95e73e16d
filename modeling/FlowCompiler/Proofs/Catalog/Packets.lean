import FlowCompiler.Proofs.Catalog.Composed
import FlowCompiler.Proofs.Graph.WellFormed

/-!
# Types of composed packets

The names and the data types of simple ports are pieces of the contents of a declaration, which is cut at bars,
brackets and blanks only. So whatever such cuts keep is kept from the contents to the ports
(`Composed.simplePorts_cut`).

Main statement: `Composed.connects_iff_same_types`. The data type of a composed port joins those of the simple
ports with commas, and a declaration that was read from a flow has no comma. So two composed ports have the same
data type exactly when they are made of the same data types in the same order.
-/

namespace FlowCompiler

open List

variable {cs field : List Char} {x : Char}

/-! ## Pieces of the contents -/

namespace Text

/-- A property that both parts of a text have when the text is cut at a character that is no single byte. -/
def CutKeeps (P : List Char → Prop) : Prop :=
  ∀ (cs : List Char) (x : Char) (ds : List Char), isStray x = false → P (cs ++ x :: ds) → P cs ∧ P ds

variable {P : List Char → Prop}

theorem isStray_of_isBlank (h : isBlank x = true) : isStray x = false := by
  simp only [isBlank, Bool.or_eq_true, Bool.and_eq_true, decide_eq_true_eq, beq_iff_eq] at h
  refine decide_eq_false ?_
  unfold strayBase
  omega

theorem CutKeeps.dropWhile_isBlank (hP : CutKeeps P) (h : P cs) : P (cs.dropWhile isBlank) := by
  induction cs with
  | nil => exact h
  | cons x cs ih =>
    rw [dropWhile_cons]
    split
    · next hx => exact ih (hP [] x cs (isStray_of_isBlank hx) h).2
    · exact h

theorem CutKeeps.rdropWhile_isBlank (hP : CutKeeps P) (h : P cs) : P (cs.rdropWhile isBlank) := by
  induction cs using List.reverseRecOn with
  | nil => exact h
  | append_singleton cs x ih =>
    by_cases hx : isBlank x = true
    · rw [rdropWhile_concat_pos _ _ _ hx]
      exact ih (hP cs x [] (isStray_of_isBlank hx) h).1
    · rw [rdropWhile_concat_neg _ _ _ hx]
      exact h

theorem CutKeeps.trimChars (hP : CutKeeps P) (h : P cs) : P (trimChars cs) :=
  hP.rdropWhile_isBlank (hP.dropWhile_isBlank h)

theorem CutKeeps.of_intercalate (hP : CutKeeps P) (hx : isStray x = false) {parts : List (List Char)}
    (h : P ([x].intercalate parts)) : ∀ part ∈ parts, P part := by
  induction parts with
  | nil => exact forall_mem_nil _
  | cons part rest ih =>
    cases rest with
    | nil => exact forall_mem_singleton.mpr (by simpa using h)
    | cons next rest =>
      rw [intercalate_cons_cons, append_assoc] at h
      obtain ⟨hpart, hrest⟩ := hP _ _ _ hx h
      exact forall_mem_cons.mpr ⟨hpart, ih hrest⟩

theorem CutKeeps.splitOn (hP : CutKeeps P) (hx : isStray x = false) (h : P cs) :
    ∀ part ∈ cs.splitOn x, P part :=
  hP.of_intercalate hx (by rwa [intercalate_splitOn])

theorem cutKeeps_notMem (c : Char) : CutKeeps (c ∉ ·) := by
  intro cs x ds _ h
  exact ⟨fun hc => h (mem_append_left _ hc), fun hc => h (mem_append_right _ (mem_cons_of_mem _ hc))⟩

end Text

namespace Composed

open Text

/-- A field is cut at its first bracket and loses the one at its end. -/
theorem splitField_eq_some {name type : String} (h : splitField field = some (name, type)) :
    ∃ before inside, field = before ++ '(' :: (inside ++ [')']) ∧ '(' ∉ before ∧ before ≠ [] ∧
      name = String.ofList (trimChars before) ∧ type = String.ofList (trimChars inside) := by
  unfold splitField at h
  dsimp only at h
  split at h
  · next x after hne hafter hlast =>
    cases h
    have hbefore : field.takeWhile (· != '(') = field.take (field.takeWhile (· != '(')).length :=
      prefix_iff_eq_take.mp (List.takeWhile_prefix _)
    have hfield : field = field.takeWhile (· != '(') ++ x :: after := by
      conv_lhs => rw [← take_append_drop (field.takeWhile (· != '(')).length field, ← hbefore, hafter]
    have hx : x = '(' := by
      have hwhile : field.dropWhile (· != '(') = x :: after :=
        append_cancel_left (takeWhile_append_dropWhile.trans hfield)
      have hhead := head?_dropWhile_not (· != '(') field
      rw [hwhile] at hhead
      simpa using hhead
    subst hx
    -- the bracket at the end is not the one at which the field was cut
    cases after using List.reverseRecOn with
    | nil =>
      rw [hfield, getLast?_concat] at hlast
      exact absurd hlast (by decide)
    | append_singleton inside y =>
      rw [hfield, ← cons_append, ← append_assoc, getLast?_concat] at hlast
      cases hlast
      have hnone : '(' ∉ field.takeWhile (· != '(') := fun hmem => by simpa using mem_takeWhile_imp hmem
      exact ⟨_, inside, hfield, hnone, by rw [hne]; simp, rfl, by rw [dropLast_concat]⟩
  · cases h

section Cut

variable {P : List Char → Prop}

theorem splitField_cut (hP : CutKeeps P) {name type : String} (hfield : P field)
    (h : splitField field = some (name, type)) : P name.toList ∧ P type.toList := by
  obtain ⟨before, inside, rfl, -, -, rfl, rfl⟩ := splitField_eq_some h
  obtain ⟨hbefore, hrest⟩ := hP _ _ _ (by decide) hfield
  obtain ⟨hinside, -⟩ := hP _ _ _ (by decide) hrest
  rw [String.toList_ofList, String.toList_ofList]
  exact ⟨hP.trimChars hbefore, hP.trimChars hinside⟩

theorem readFields_cut (hP : CutKeeps P) {done ports : List Port} {fields : List (List Char)}
    (hdone : ∀ p ∈ done, P p.name.toList ∧ P p.dataType.toList) (hfields : ∀ field ∈ fields, P field)
    (h : readFields done fields = .ok ports) : ∀ p ∈ ports, P p.name.toList ∧ P p.dataType.toList := by
  induction fields generalizing done with
  | nil =>
    cases h
    exact hdone
  | cons field rest ih =>
    obtain ⟨hfield, hrest⟩ := forall_mem_cons.mp hfields
    unfold readFields at h
    dsimp only at h
    split at h
    · cases h
    · next name type hsplit =>
      split at h
      · cases h
      · split at h
        · cases h
        · refine ih ?_ hrest h
          exact forall_mem_append.mpr
            ⟨hdone, forall_mem_singleton.mpr (splitField_cut hP (hP.trimChars hfield) hsplit)⟩

/-- The names and the data types of ports have what cuts keep of the contents. -/
theorem simplePorts_cut (hP : CutKeeps P) {contents : String} {ports : List Port} (hcontents : P contents.toList)
    (h : simplePorts contents = .ok ports) : ∀ p ∈ ports, P p.name.toList ∧ P p.dataType.toList := by
  unfold simplePorts at h
  split at h
  · cases h
  · next hread =>
    split at h
    · cases h
    · cases h
      exact readFields_cut hP (forall_mem_nil _) (hP.splitOn (by decide) hcontents) hread

end Cut

/-! ## Packets -/

/-- Lists of types without commas are told apart by the types of their packets. -/
theorem packetType_inj {xs ys : List String} (hxs : xs ≠ []) (hys : ys ≠ [])
    (hx : ∀ x ∈ xs, ',' ∉ x.toList) (hy : ∀ y ∈ ys, ',' ∉ y.toList) : packetType xs = packetType ys ↔ xs = ys := by
  refine ⟨fun h => ?_, congrArg packetType⟩
  have hjoined : [','].intercalate (xs.map String.toList) = [','].intercalate (ys.map String.toList) := by
    have hlists := congrArg String.toList h
    rw [packetType, packetType, String.toList_append, String.toList_append, String.toList_intercalate,
      String.toList_intercalate] at hlists
    exact append_cancel_left hlists
  have hcut := congrArg (List.splitOn ',') hjoined
  rw [splitOn_intercalate _ (by simpa using hx) (by simpa using hxs),
    splitOn_intercalate _ (by simpa using hy) (by simpa using hys)] at hcut
  exact map_injective_iff.mpr (fun _ _ => String.toList_inj.mp) hcut

theorem packetType_ne_anyType (types : List String) : packetType types ≠ anyType := by
  intro h
  have hhead := congrArg (fun s => s.toList.head?) h
  simp [packetType, anyType] at hhead

/-- No packet type goes with all others. -/
theorem compatible_packetType (xs ys : List String) :
    compatible (packetType xs) (packetType ys) = true ↔ packetType xs = packetType ys := by
  simp [compatible, packetType_ne_anyType]

/-- The side of a composed type that has the composed port. -/
def composedSide (splitter : Bool) (inputs outputs : List Port) : List Port := if splitter then inputs else outputs

/-- The side of a composed type that has the simple ports. -/
def simpleSide (splitter : Bool) (inputs outputs : List Port) : List Port := if splitter then outputs else inputs

/-- A composed type that is declared in a flow that can be read, with the ports that the declaration gives. -/
def Declared (splitter : Bool) (inputs outputs : List Port) : Prop :=
  ∃ text g d m, Graph.parse text = .ok g ∧ d ∈ g.declarations ∧ (d.kind == "composed-split") = splitter ∧
    Registry.builtin.find? d.kind = some m ∧ m.ports d.contents = .ok (inputs, outputs)

/-- The name of the composed port. -/
def composedName (splitter : Bool) : String := if splitter then "IN" else "OUT"

/-- A declared type has one composed port, made of at least two types without commas. -/
theorem Declared.sides {splitter : Bool} {inputs outputs : List Port} (h : Declared splitter inputs outputs) :
    composedSide splitter inputs outputs =
        [{ name := composedName splitter, dataType := dataType (simpleSide splitter inputs outputs) }] ∧
      (simpleSide splitter inputs outputs).map (·.dataType) ≠ [] ∧
      ∀ type ∈ (simpleSide splitter inputs outputs).map (·.dataType), ',' ∉ type.toList := by
  obtain ⟨text, g, d, m, hparse, hd, rfl, hm, hports⟩ := h
  rw [Registry.builtin_find?_eq_some hm] at hports
  obtain ⟨simple, hsimple, hcases⟩ := metatype_ports_eq_ok hports
  have hlen := (simplePorts_eq_ok hsimple).1
  have hne : simple.map (·.dataType) ≠ [] := ne_nil_of_length_pos (by rw [length_map]; omega)
  obtain ⟨-, hcomma, -⟩ := Graph.contents_of_parse hparse d hd
  have hcut := simplePorts_cut (cutKeeps_notMem ',') hcomma hsimple
  obtain ⟨hsplit, rfl, rfl⟩ | ⟨hsplit, rfl, rfl⟩ := hcases
  · rw [hsplit]
    exact ⟨rfl, hne, forall_mem_map.mpr fun p hp => (hcut p hp).2⟩
  · rw [hsplit]
    exact ⟨rfl, hne, forall_mem_map.mpr fun p hp => (hcut p hp).2⟩

end Composed

/-- A port that is no array is referred to without an index or with the index zero. -/
theorem Port.slot_of_size_zero {p : Port} (hp : p.size = 0) {typeName : String} {index : Option Nat}
    (h : index.getD 0 = 0) : p.slot typeName index = .ok p.base := by
  unfold slot
  rw [if_neg (by simp [isArray, hp])]
  cases index with
  | none => rfl
  | some i => exact if_pos h

/-- Between slots that are there, a connection is accepted if the data types go together. -/
theorem Graph.exists_connectionRow_iff {g : Graph} {types : List Descriptor} {c : Connection} {p q : Port}
    {s t : Int}
    (hp : (typeAt types c.source).port? .output c.sourcePort.name = some p)
    (hs : p.slot (typeAt types c.source).name c.sourcePort.index = .ok s)
    (hq : (typeAt types c.target).port? .input c.targetPort.name = some q)
    (ht : q.slot (typeAt types c.target).name c.targetPort.index = .ok t) :
    (∃ row, g.connectionRow types c = .ok row) ↔ compatible p.dataType q.dataType = true := by
  simp only [connectionRow, hp, hs, hq, ht]
  split
  · next h => exact ⟨fun _ => h, fun _ => ⟨_, rfl⟩⟩
  · next h =>
    refine ⟨fun hok => ?_, fun h' => absurd h' h⟩
    obtain ⟨row, hrow⟩ := hok
    cases hrow

namespace Composed

/-- Composed ports have the same data type if and only if they are made of the same data types in the same order.
So the output of a joiner can be connected to the input of a splitter if and only if what the one packs is what
the other unpacks. -/
theorem connects_iff_same_types {splits splits' : Bool} {inputs outputs inputs' outputs' : List Port}
    (h : Declared splits inputs outputs) (h' : Declared splits' inputs' outputs') :
    (∃ p p', composedSide splits inputs outputs = [p] ∧ composedSide splits' inputs' outputs' = [p'] ∧
      (p.dataType = p'.dataType ↔
        (simpleSide splits inputs outputs).map (·.dataType) =
          (simpleSide splits' inputs' outputs').map (·.dataType))) ∧
    (splits = false → splits' = true → ∀ (g : Graph) (types : List Descriptor) (c : Graph.Connection),
      (Graph.typeAt types c.source).outputs = outputs → (Graph.typeAt types c.target).inputs = inputs' →
      c.sourcePort.name = "OUT" → c.targetPort.name = "IN" →
      c.sourcePort.index.getD 0 = 0 → c.targetPort.index.getD 0 = 0 →
      ((∃ row, g.connectionRow types c = .ok row) ↔
        inputs.map (·.dataType) = outputs'.map (·.dataType))) := by
  obtain ⟨hside, hne, hcomma⟩ := h.sides
  obtain ⟨hside', hne', hcomma'⟩ := h'.sides
  have hinj := packetType_inj hne hne' hcomma hcomma'
  refine ⟨⟨_, _, hside, hside', hinj⟩, ?_⟩
  rintro rfl rfl g types c hout hin hsource htarget hsourceIndex htargetIndex
  have hoffered : (Graph.typeAt types c.source).port? .output c.sourcePort.name =
      some { name := "OUT", dataType := dataType inputs } := by
    rw [Descriptor.port?, Descriptor.output?, hout, hsource, show outputs = _ from hside]
    rfl
  have htaken : (Graph.typeAt types c.target).port? .input c.targetPort.name =
      some { name := "IN", dataType := dataType outputs' } := by
    rw [Descriptor.port?, Descriptor.input?, hin, htarget, show inputs' = _ from hside']
    rfl
  rw [Graph.exists_connectionRow_iff hoffered (Port.slot_of_size_zero rfl hsourceIndex) htaken
    (Port.slot_of_size_zero rfl htargetIndex)]
  exact (compatible_packetType _ _).trans hinj

/-- What a joiner of `x` and `any` packs goes to a splitter of the same types under other names, and not to one
that has them the other way round. -/
theorem connects_iff_same_types_reordered :
    ∃ joiner splitter reordered : Descriptor, Declared false joiner.inputs joiner.outputs ∧
      Declared true splitter.inputs splitter.outputs ∧ Declared true reordered.inputs reordered.outputs ∧
      (∃ row, Graph.connectionRow {} [joiner, splitter] ⟨0, ⟨"OUT", none⟩, 1, ⟨"IN", some 0⟩, ⟨1, 1⟩⟩ = .ok row) ∧
      ¬ ∃ row,
        Graph.connectionRow {} [joiner, reordered] ⟨0, ⟨"OUT", none⟩, 1, ⟨"IN", none⟩, ⟨1, 1⟩⟩ = .ok row := by
  have hparse : Graph.parse ("DECLARE=j:composed-new:A(x)|B( any ), DECLARE=s:composed-split:C(x)|D(any)\n" ++
      "DECLARE=r:composed-split:C(any)|D(x)") = .ok { declarations := [
        ⟨"j", "composed-new", "A(x)|B( any )", ⟨1, 9⟩⟩, ⟨"s", "composed-split", "C(x)|D(any)", ⟨1, 47⟩⟩,
        ⟨"r", "composed-split", "C(any)|D(x)", ⟨2, 9⟩⟩] } := by decide +kernel
  have hjoiner : Declared false [{ name := "A", dataType := "x" }, { name := "B", dataType := "any", base := 1 }]
      [{ name := "OUT", dataType := "composed:x,any" }] :=
    ⟨_, _, _, _, hparse, mem_cons_self, rfl, rfl, by decide +kernel⟩
  have hsplitter : Declared true [{ name := "IN", dataType := "composed:x,any" }]
      [{ name := "C", dataType := "x" }, { name := "D", dataType := "any", base := 1 }] :=
    ⟨_, _, _, _, hparse, mem_cons_of_mem _ mem_cons_self, rfl, rfl, by decide +kernel⟩
  have hreordered : Declared true [{ name := "IN", dataType := "composed:any,x" }]
      [{ name := "C", dataType := "any" }, { name := "D", dataType := "x", base := 1 }] :=
    ⟨_, _, _, _, hparse, mem_cons_of_mem _ (mem_cons_of_mem _ mem_cons_self), rfl, rfl,
      by decide +kernel⟩
  refine ⟨{ name := "j", symbol := "j", inputs := _, outputs := _ },
    { name := "s", symbol := "s", inputs := _, outputs := _ },
    { name := "r", symbol := "r", inputs := _, outputs := _ }, hjoiner, hsplitter, hreordered, ?_, ?_⟩
  · exact ((connects_iff_same_types hjoiner hsplitter).2 rfl rfl _ _ _ rfl rfl rfl rfl rfl rfl).mpr rfl
  · rw [(connects_iff_same_types hjoiner hreordered).2 rfl rfl _ _ _ rfl rfl rfl rfl rfl rfl]
    decide

-- With commas in the contents, which no flow has, packets of different types could not be told apart.
example : (simplePorts "A(x,y)|B(z)").map dataType = (simplePorts "A(x)|B(y,z)").map dataType := by decide +kernel

end Composed

end FlowCompiler
