import FlowCompiler.Proofs.Catalog.Packets
import FlowCompiler.Proofs.Program.ChildOptions
import FlowCompiler.Proofs.Startup.Tables
import FlowCompiler.Proofs.Text.Literals

/-!
# Composed types of running programs

A program builds a composed type by calls: the function of the declaration calls the function that its metatype
shares, which calls the function of the running package. `Source.Yields` is what such calls give. Arguments are
texts, which are read from their literals, flags and ports.

Main statement: `Composed.built_type_mirrors_ports`. Whatever bytes the contents of a declaration are, the type
that its code builds has the ports that the compiler described, at the slots that it gave them.
-/

namespace FlowCompiler

open List Live

/-! ## Calls -/

namespace Source

/-- A value that code passes on. -/
inductive Value where
  | text (s : String)
  | flag (b : Bool)
  | port (p : PortType)
  | ports (ps : List PortType)
deriving DecidableEq, Repr

/-- The variables of a function. -/
abbrev Scope := List (String × Value)

/-- The port that a value is. -/
def Value.port? : Value → Option PortType
  | port p => some p
  | _ => none

/-- The text of a literal. -/
def literalText? (s : String) : Option String := (Text.unquote? s.toList).map String.ofList

/-- The text of a field. A field that is left out is empty. -/
def fieldText? (field : String) (fields : List (Expr × Expr)) : Option String :=
  match fieldIn? field fields with
  | none => some ""
  | some (.literal s) => literalText? s
  | some _ => none

/-- The value of an expression that is passed on. -/
def Expr.value? (vars : Scope) : Expr → Option Value
  | .literal s => (literalText? s).map .text
  | .name x =>
    (vars.lookup x).or
      (if x = "true" then some (.flag true) else if x = "false" then some (.flag false) else none)
  | .record (.imported path type) fields _ =>
    if path = flowPath ∧ type = "PortType" then
      (fieldText? "Name" fields).bind fun name =>
        (fieldText? "DataType" fields).map fun dataType => .port ⟨name, dataType⟩
    else none
  | _ => none

/-- Gives each parameter its argument. If there may be any number of arguments, the last parameter gets all that
are left. -/
def passed? (variadic : Bool) : List Typed → List Value → Option Scope
  | [], [] => some []
  | [p], args =>
    if variadic then (args.mapM Value.port?).map fun ps => [(p.name, .ports ps)]
    else if args.length = 1 then args.head?.map fun v => [(p.name, v)] else none
  | p :: params, v :: args => (passed? variadic params args).map ((p.name, v) :: ·)
  | _, _ => none

/-- The function of a name in a file. -/
def func? (file : List Decl) (name : String) : Option Func :=
  file.findSome? fun d =>
    match d with
    | .func _ f => if f.name = name then some f else none
    | _ => none

/-- What a call in a file gives: a node type, or why it is not built. New types get the number `id`. -/
inductive Yields {ω : Type} (id : Nat) (file : List Decl) :
    Scope → Expr → Except TypeError (NodeType ω) → Prop where
  | composed {vars : Scope} {args : List Expr} {name : String} {splitter : Bool} {ports : List PortType}
      (values : args.mapM (·.value? vars) = some [.text name, .flag splitter, .ports ports]) :
      Yields id file vars (.call (.imported flowPath "NewComposedType") args) (composedType id name splitter ports)
  | function {vars locals : Scope} {x : String} {f : Func} {args : List Expr} {values : List Value} {e : Expr}
      {result : Except TypeError (NodeType ω)} (found : func? file x = some f)
      (evaluated : args.mapM (·.value? vars) = some values)
      (given : passed? f.variadic f.params values = some locals) (body : f.body = [.give [e]])
      (run : Yields id file locals e result) :
      Yields id file vars (.call (.name x) args) result

section Yields

variable {ω : Type} {id : Nat} {file : List Decl} {vars locals : Scope} {args : List Expr}
  {result : Except TypeError (NodeType ω)}

theorem yields_composed_iff {name : String} {splitter : Bool} {ports : List PortType}
    (h : args.mapM (·.value? vars) = some [.text name, .flag splitter, .ports ports]) :
    Yields id file vars (.call (flow "NewComposedType") args) result ↔
      result = composedType id name splitter ports := by
  constructor
  · intro hrun
    cases hrun with
    | composed values =>
      cases h.symm.trans values
      rfl
  · rintro rfl
    exact .composed h

theorem yields_function_iff {x : String} {f : Func} {values : List Value} {e : Expr} (found : func? file x = some f)
    (evaluated : args.mapM (·.value? vars) = some values) (given : passed? f.variadic f.params values = some locals)
    (body : f.body = [.give [e]]) :
    Yields id file vars (.call (.name x) args) result ↔ Yields id file locals e result := by
  constructor
  · intro hrun
    cases hrun with
    | function found' evaluated' given' body' run =>
      cases found.symm.trans found'
      cases evaluated.symm.trans evaluated'
      cases given.symm.trans given'
      cases body.symm.trans body'
      exact run
  · exact .function found evaluated given body

end Yields

/-- Where names are declared once, a function is found by its name. -/
theorem func?_of_mem {file : List Decl} {comment : Option String} {f : Func} (h : .func comment f ∈ file)
    (hnames : (file.flatMap Decl.names).Nodup) : func? file f.name = some f := by
  induction file with
  | nil => exact absurd h not_mem_nil
  | cons d file ih =>
    rw [flatMap_cons, nodup_append'] at hnames
    obtain rfl | hmem := mem_cons.mp h
    · simp [func?]
    · have hrest := ih hmem hnames.2.1
      have hdeclared : f.name ∈ file.flatMap Decl.names := mem_flatMap.mpr ⟨_, hmem, mem_singleton_self _⟩
      rw [func?, findSome?_cons]
      cases d with
      | func _ g =>
        have hne : g.name ≠ f.name := fun heq => hnames.2.2 (mem_singleton_self g.name) (heq ▸ hdeclared)
        dsimp only
        rw [if_neg hne]
        exact hrest
      | _ => exact hrest

/-! ## Arguments -/

theorem literalText?_quote {s : String} (h : Text.IsText s.toList) : literalText? (Text.quote s) = some s := by
  rw [literalText?, h.unquote?_quote, Option.map_some, String.ofList_toList]

/-- A text literal has a value, whatever the text. -/
theorem exists_value?_string (vars : Scope) (s : String) : ∃ t, (Expr.string s).value? vars = some (.text t) := by
  rw [Expr.string, Expr.value?, literalText?, Text.unquote?_quote]
  exact ⟨_, rfl⟩

end Source

namespace Composed

open Source

/-- A port as programs know it. -/
def runtimePort (p : Port) : PortType := ⟨p.name, p.dataType⟩

theorem value?_portLiteral (vars : Scope) {name dataType : String} (hname : Text.IsText name.toList)
    (htype : Text.IsText dataType.toList) :
    (Expr.withFields (flow "PortType") [("Name", .string name), ("DataType", .string dataType)]).value? vars =
      some (.port ⟨name, dataType⟩) := by
  simp [Expr.withFields, flow, Expr.value?, fieldText?, fieldIn?, Expr.string, literalText?_quote hname,
    literalText?_quote htype]

/-- The arguments that a declared type is built from are its name and its ports. -/
theorem values_arguments (vars : Scope) (name : String) {ports : List Port}
    (h : ∀ p ∈ ports, Text.IsText p.name.toList ∧ Text.IsText p.dataType.toList) :
    ∃ t, (arguments name ports).mapM (·.value? vars) =
      some (.text t :: (ports.map runtimePort).map .port) := by
  obtain ⟨t, ht⟩ := exists_value?_string vars name
  refine ⟨t, ?_⟩
  have hports : (ports.map fun p =>
      Expr.withFields (flow "PortType") [("Name", .string p.name), ("DataType", .string p.dataType)]).mapM
        (·.value? vars) = some ((ports.map runtimePort).map .port) := by
    induction ports with
    | nil => rfl
    | cons p ports ih =>
      obtain ⟨⟨hname, htype⟩, hrest⟩ := forall_mem_cons.mp h
      rw [map_cons, mapM_cons, value?_portLiteral vars hname htype, ih hrest]
      rfl
  rw [arguments, mapM_cons, ht, hports]
  rfl

theorem mapM_port? (ps : List PortType) : (ps.map Value.port).mapM Value.port? = some ps := by
  induction ps with
  | nil => rfl
  | cons p ps ih =>
    rw [map_cons, mapM_cons, ih]
    rfl

/-- The slots of a running type are the ports that are described, and each of these has one slot. -/
structure Mirrors (slots : List PortType) (ports : List Port) : Prop where
  length : slots.length = ports.length
  single : ∀ p ∈ ports, p.size = 0
  same : ∀ p ∈ ports, at? slots p.base = some (runtimePort p)
  taken : ∀ i < slots.length, ∃ p ∈ ports, p.base = i

theorem Numbered.mirrors {ports : List Port} (h : Numbered ports) : Mirrors (ports.map runtimePort) ports where
  length := length_map _
  single p hp := by
    obtain ⟨i, hi⟩ := getElem?_of_mem hp
    exact (h i p hi).2
  same p hp := by
    obtain ⟨i, hi⟩ := getElem?_of_mem hp
    rw [(h i p hi).1, at?_natCast, getElem?_map, hi]
    rfl
  taken i hi := by
    rw [length_map] at hi
    exact ⟨ports[i], getElem_mem hi, (h i _ (getElem?_eq_getElem hi)).1⟩

theorem cutKeeps_isText : Text.CutKeeps Text.IsText := fun _ _ _ hx h => h.cut hx

/-- The ports of the type that the running package builds are those that the compiler gives the declaration. -/
theorem composedType_mirrors (ω : Type) {splitter : Bool} {contents : String} {simple inputs outputs : List Port}
    (hsimple : simplePorts contents = .ok simple)
    (hports : (metatype splitter).ports contents = .ok (inputs, outputs)) (id : Nat) (name : String) :
    ∃ t : NodeType ω, composedType id name splitter (simple.map runtimePort) = .ok t ∧
      Mirrors t.inputs inputs ∧ Mirrors t.outputs outputs := by
  obtain ⟨simple', hsimple', hcases⟩ := metatype_ports_eq_ok hports
  cases hsimple.symm.trans hsimple'
  obtain ⟨hlen, hnumbered, -⟩ := simplePorts_eq_ok hsimple
  have hpacked : "composed:" ++ ",".intercalate ((simple.map runtimePort).map (·.dataType)) = dataType simple := by
    rw [map_map]
    rfl
  rw [composedType, if_neg (by rw [length_map]; omega)]
  simp only [hpacked]
  obtain ⟨rfl, rfl, rfl⟩ | ⟨rfl, rfl, rfl⟩ := hcases
  · exact ⟨_, rfl, (numbered_single "IN" _).mirrors, hnumbered.mirrors⟩
  · exact ⟨_, rfl, hnumbered.mirrors, (numbered_single "OUT" _).mirrors⟩

theorem define_eq_ok {splitter : Bool} {u : MetatypeUse} {ports : List Port}
    (h : simplePorts u.contents = .ok ports) :
    (metatype splitter).define u = .ok [.func none {
      name := u.funcName
      results := [nodeTypePointer, errorType]
      body := [.give [.call (.name (helperName splitter)) (arguments u.name ports)]] }] := by
  simp only [metatype, constructor, h]

/-- The compiler and the running program agree on declared types. In any file that has the code of a composed
declaration, and each name once, the function of the declaration builds a type, and the slots of that type in each
direction are the ports that the compiler works with. The contents may be any bytes. -/
theorem built_type_mirrors_ports {ω : Type} (bytes : List UInt8) (splitter : Bool) {u : MetatypeUse}
    (hcontents : u.contents = String.ofList (Text.ofBytes (bytes.map UInt8.toNat))) {inputs outputs : List Port}
    (hports : (metatype splitter).ports u.contents = .ok (inputs, outputs)) :
    ∃ shared defined, (metatype splitter).start = .ok shared ∧ (metatype splitter).define u = .ok defined ∧
      ∀ file : List Decl, shared ⊆ file → defined ⊆ file → (file.flatMap Decl.names).Nodup → ∀ id,
        ∃ t : NodeType ω, (∀ result, Yields id file [] (.call (.name u.funcName) []) result ↔ result = .ok t) ∧
          Mirrors t.inputs inputs ∧ Mirrors t.outputs outputs := by
  obtain ⟨simple, hsimple, -⟩ := metatype_ports_eq_ok hports
  have htext : Text.IsText u.contents.toList := by
    rw [hcontents, String.toList_ofList]
    exact Text.isText_ofBytes (forall_mem_map.mpr fun b _ => b.toNat_lt)
  have htexts := simplePorts_cut cutKeeps_isText htext hsimple
  refine ⟨_, _, rfl, define_eq_ok hsimple, fun file hshared hdefined hnames id => ?_⟩
  have hhelper := func?_of_mem (hshared mem_cons_self) hnames
  have hfunction := func?_of_mem (hdefined mem_cons_self) hnames
  obtain ⟨name, hvalues⟩ := values_arguments [] u.name htexts
  obtain ⟨t, ht, hin, hout⟩ := composedType_mirrors ω hsimple hports id name
  refine ⟨t, fun result => ?_, hin, hout⟩
  -- the name is the first parameter of the shared function, and the ports are all that are left for the second
  have hgiven : passed? true [⟨"name", .name "string"⟩, ⟨"ports", flow "PortType"⟩]
      (.text name :: (simple.map runtimePort).map .port) =
        some [("name", .text name), ("ports", .ports (simple.map runtimePort))] := by
    simp only [passed?, mapM_port?, if_true, Option.map_some]
  have hpassed : [Expr.name "name", .name (if splitter then "true" else "false"), .name "ports"].mapM
      (·.value? [("name", .text name), ("ports", .ports (simple.map runtimePort))]) =
        some [.text name, .flag splitter, .ports (simple.map runtimePort)] := by
    cases splitter <;> rfl
  rw [yields_function_iff hfunction rfl rfl rfl, yields_function_iff hhelper hvalues hgiven rfl,
    yields_composed_iff hpassed, ht]

/-- A joiner whose second port has a type of one byte that belongs to no character. -/
def strayUse : MetatypeUse where
  name := "pair"
  contents := String.ofList (Text.ofBytes ([65, 40, 195, 169, 41, 124, 66, 40, 255, 41].map UInt8.toNat))
  funcName := "createPairType"

/-- The byte is passed on by its escape, so the type that is built has it too. -/
theorem built_type_mirrors_ports_stray :
    ∃ (file : List Decl) (t : NodeType Unit),
      (∀ result, Yields 0 file [] (.call (.name "createPairType") []) result ↔ result = .ok t) ∧
      Mirrors t.inputs [{ name := "A", dataType := "é" },
        { name := "B", dataType := String.ofList [Text.stray 255], base := 1 }] ∧
      Mirrors t.outputs [{ name := "OUT", dataType := "composed:é," ++ String.ofList [Text.stray 255] }] := by
  have hports : (metatype false).ports strayUse.contents =
      .ok ([{ name := "A", dataType := "é" },
          { name := "B", dataType := String.ofList [Text.stray 255], base := 1 }],
        [{ name := "OUT", dataType := "composed:é," ++ String.ofList [Text.stray 255] }]) := by decide +kernel
  obtain ⟨simple, hsimple, -⟩ := metatype_ports_eq_ok hports
  obtain ⟨shared, defined, hshared, hdefined, hfile⟩ := built_type_mirrors_ports _ false rfl hports
  cases hshared
  cases (define_eq_ok hsimple).symm.trans hdefined
  have hnames : ["newComposedNewType", "createPairType"].Nodup := by decide
  exact ⟨_, hfile _ (subset_append_left _ _) (subset_append_right _ _) hnames 0⟩

end Composed

end FlowCompiler
