import FlowCompiler.Proofs.Compile.Steps
import FlowCompiler.Proofs.Graph.WellFormed

/-!
# The units of a compilation

`FlowUnit.Compiled cfg units u` says what a unit is after a compilation that succeeded: its graph was read
from a text, its declarations gave the types that are local to it (`Declares`), its nodes have the types
that they resolve to, and everything else is computed from these without a fault. A declared flow is a unit
of its own at a later place.

Main statement: `Session.Compiles.done`. After a compilation of a file or of a text, every unit of the
session is compiled and stands at the place of its number. Since children come later, what holds of a unit
whenever it holds of its children holds of all units (`Done.induction`).
-/

namespace FlowCompiler

open List

variable {ds : List Graph.Declaration} {subflows : List Subflow} {ts : List Descriptor} {parent : Option Nat}
  {k : Nat} {name path text : String} {t : Descriptor} {s₀ : Session}

/-- What the declarations of the unit at place `id` give: a type each, and a subflow or a declared type. -/
inductive Declares (cfg : Config) (units : List FlowUnit) (id : Nat) : List Graph.Declaration →
    List Descriptor → List Subflow → List DeclaredType → Prop where
  | nil : Declares cfg units id [] [] [] []
  | subflow {d : Graph.Declaration} {child : FlowUnit} {t : Descriptor} {ds : List Graph.Declaration}
      {ts : List Descriptor} {subflows : List Subflow} {declared : List DeclaredType}
      (kind : d.kind = flowKind) (stored : units[child.id]? = some child) (later : id < child.id)
      (parent : child.parent = some id) (type : child.type = some t) (name : t.name = d.name)
      (rest : Declares cfg units id ds ts subflows declared) :
      Declares cfg units id (d :: ds) (t :: ts) (⟨d.name, child.id, d.pos⟩ :: subflows) declared
  | metatype {d : Graph.Declaration} {m : Metatype} {inputs outputs : List Port}
      {symbol funcName : String} {ds : List Graph.Declaration} {ts : List Descriptor}
      {subflows : List Subflow} {declared : List DeclaredType} (kind : d.kind ≠ flowKind)
      (found : cfg.registry.find? d.kind = some m) (ports : m.ports d.contents = .ok (inputs, outputs))
      (rest : Declares cfg units id ds ts subflows declared) :
      Declares cfg units id (d :: ds) ({ name := d.name, symbol, inputs, outputs } :: ts) subflows
        (⟨d.name, d.kind, d.contents, funcName, d.pos⟩ :: declared)

/-- What a unit is when it is compiled. -/
structure FlowUnit.Compiled (cfg : Config) (units : List FlowUnit) (u : FlowUnit) : Prop
    extends u.Computed where
  parsed : ∃ text, Graph.parse text = .ok u.graph
  declares : Declares cfg units u.id u.graph.declarations u.locals.types u.subflows u.declared
  bindings : List.Forall₂ (fun n b => (cfg.resolve u n).2 = .ok b) u.graph.nodes u.bindings
  type : ∃ symbol, u.type = some { u.describe with symbol }

/-- From place `k` on, units are compiled and stand at the places of their numbers. -/
def Done (cfg : Config) (k : Nat) (units : List FlowUnit) : Prop :=
  ∀ i v, k ≤ i → units[i]? = some v → v.id = i ∧ v.Compiled cfg units

section Later

variable {cfg : Config} {units units' : List FlowUnit} {u : FlowUnit}

/-- Whether units after place `k` are kept. -/
def Later (k : Nat) (units units' : List FlowUnit) : Prop :=
  ∀ i v, k < i → units[i]? = some v → units'[i]? = some v

theorem Declares.later {id : Nat} {declared : List DeclaredType} (hl : Later id units units')
    (h : Declares cfg units id ds ts subflows declared) : Declares cfg units' id ds ts subflows declared := by
  induction h with
  | nil => exact .nil
  | subflow kind stored later parent type name _ ih =>
    exact .subflow kind (hl _ _ later stored) later parent type name ih
  | metatype kind found ports _ ih => exact .metatype kind found ports ih

/-- A compiled unit depends on the session by later units only. -/
theorem FlowUnit.Compiled.later (hl : Later u.id units units') (h : u.Compiled cfg units) :
    u.Compiled cfg units' :=
  { h with declares := h.declares.later hl }

theorem Later.mono {k' : Nat} (h : Later k units units') (hk : k ≤ k') : Later k' units units' :=
  fun i v hi hv => h i v (Nat.lt_of_le_of_lt hk hi) hv

theorem Later.trans {units'' : List FlowUnit} (h : Later k units units') (h' : Later k units' units'') :
    Later k units units'' :=
  fun i v hi hv => h' i v hi (h i v hi hv)

theorem later_set (u : FlowUnit) (k : Nat) : Later k units (units.set k u) := by
  intro i v hi hv
  rwa [getElem?_set_ne (Nat.ne_of_lt hi)]

theorem later_append (k : Nat) (more : List FlowUnit) : Later k units (units ++ more) := by
  intro i v _ hv
  rw [getElem?_append_left (List.getElem?_eq_some_iff.mp hv).1]
  exact hv

theorem Done.later (h : Done cfg (k + 1) units) (hl : Later k units units')
    (hlen : units'.length = units.length) : Done cfg (k + 1) units' := by
  intro i v hi hv
  have hlt : i < units.length := hlen ▸ (List.getElem?_eq_some_iff.mp hv).1
  have hold := hl i _ hi (getElem?_eq_getElem hlt)
  rw [hv] at hold
  cases hold
  obtain ⟨hid, hc⟩ := h i _ hi (getElem?_eq_getElem hlt)
  exact ⟨hid, hc.later (hl.mono (by omega))⟩

/-- The first of compiled units may be stored again. -/
theorem Done.set (h : Done cfg k units) (hid : u.id = k) (hu : u.Compiled cfg units) :
    Done cfg k (units.set k u) := by
  have hl : Later k units (units.set k u) := later_set u k
  intro i v hi hv
  rcases Nat.eq_or_lt_of_le hi with rfl | hi
  · have hlt : k < units.length := by simpa using (List.getElem?_eq_some_iff.mp hv).1
    rw [getElem?_set_self hlt] at hv
    cases hv
    exact ⟨hid, hu.later (hid ▸ hl)⟩
  · have hdone : Done cfg (k + 1) units := fun i v hi hv => h i v (by omega) hv
    exact hdone.later hl (length_set ..) i v hi hv

/-- Compiled units stay so when compiled units are added. -/
theorem Done.append {more : List FlowUnit} (h : Done cfg k units)
    (hmore : Done cfg units.length (units ++ more)) : Done cfg k (units ++ more) := by
  intro i v hi hv
  rcases Nat.lt_or_ge i units.length with hlt | hge
  · rw [getElem?_append_left hlt] at hv
    obtain ⟨hid, hc⟩ := h i v hi hv
    exact ⟨hid, hc.later (later_append _ more)⟩
  · exact hmore i v hge hv

/-- A change of the symbol does not matter. -/
theorem FlowUnit.Compiled.withSymbol (h : u.Compiled cfg units) (symbol : String) :
    FlowUnit.Compiled cfg units
      { u with type := some { u.type.getD .unknown with symbol } } := by
  obtain ⟨symbol', htype⟩ := h.type
  have he : encode { u with type := some { u.type.getD .unknown with symbol } } = u.encode :=
    encode_congr rfl rfl rfl
  exact
    { h with
      options := by rw [he]; exact h.options
      encoded := by rw [he]; exact h.encoded
      type := ⟨symbol, by rw [htype]; rfl⟩ }

end Later

/-! ## One unit -/

/-- The session while `u` is compiled: it stands after the units that were there before, and the units
after it are compiled. -/
structure Building (cfg : Config) (before : List FlowUnit) (u : FlowUnit) (units : List FlowUnit) :
    Prop where
  place : u.id = before.length
  split : ∃ more, units = before ++ u :: more
  done : Done cfg (before.length + 1) units

section Building

variable {cfg : Config} {before units units' : List FlowUnit} {u u' : FlowUnit} {declared : CompileDeclared}
  {s s' : Session}

/-- The unit may change as long as it keeps its number. -/
theorem Building.store (h : Building cfg before u units) (hid : u'.id = u.id)
    (hu : units' = units.set u'.id u') : Building cfg before u' units' ∧ Later u.id units units' := by
  have hplace : u'.id = before.length := hid.trans h.place
  have hl : Later u.id units units' := by
    rw [hu, hid]
    exact later_set u' u.id
  refine ⟨⟨hplace, ?_, ?_⟩, hl⟩
  · obtain ⟨more, hsplit⟩ := h.split
    refine ⟨more, ?_⟩
    rw [hu, hsplit, hplace, set_append_right _ _ le_rfl]
    simp
  · refine h.done.later (h.place ▸ hl) ?_
    rw [hu, length_set]

theorem Building.lt (h : Building cfg before u units) : u.id < units.length := by
  obtain ⟨more, rfl⟩ := h.split
  rw [h.place]
  simp

/-- What compiling a declared file does to the session: it adds units, the file's own first. -/
def Sound (cfg : Config) (declared : CompileDeclared) : Prop :=
  ∀ path name u pos s child s', declared path name u pos s = (.ok child, s') →
    child.name = name ∧ child.parent = some u.id ∧
      (∃ more, s'.units = s.units ++ child :: more) ∧ Done cfg s.units.length s'.units

/-- A declared flow becomes a type of the unit that declares it. -/
theorem declareSubflow_building (hsound : Sound cfg declared) {d : Graph.Declaration} {symbol : String}
    (hb : Building cfg before u s.units) (h : u.declareSubflow cfg declared d symbol s = (.ok u', s')) :
    ∃ (child : FlowUnit) (t : Descriptor), s'.units[child.id]? = some child ∧ u.id < child.id ∧
      child.parent = some u.id ∧ child.type = some t ∧ t.name = d.name ∧
      u' = { u.withLocal t with subflows := u.subflows ++ [⟨d.name, child.id, d.pos⟩] } ∧
      Building cfg before u' s'.units ∧ Later u.id s.units s'.units := by
  obtain ⟨path, child, s₁, t, -, hchild, rfl, hu', rfl⟩ := FlowUnit.declareSubflow_ok h
  obtain ⟨hname, hparent, ⟨more, hmore⟩, hdone⟩ := hsound _ _ _ _ _ _ _ hchild
  have hat : s₁.units[s.units.length]? = some child := by simp [hmore]
  obtain ⟨hid, hcompiled⟩ := hdone _ _ le_rfl hat
  generalize hc : ({ child with type := some { child.type.getD .unknown with symbol } } : FlowUnit) = c
  have hcid : c.id = s.units.length := by rw [← hid, ← hc]
  have hset : s₁.units.set s.units.length c = s.units ++ c :: more := by simp [hmore]
  have hdone₁ : Done cfg s.units.length (s.units ++ c :: more) :=
    hset ▸ hdone.set hcid (hc ▸ hcompiled.withSymbol symbol)
  have hb₁ : Building cfg before u (s.units ++ c :: more) := by
    obtain ⟨more', hsplit⟩ := hb.split
    exact ⟨hb.place, ⟨more' ++ c :: more, by rw [hsplit]; simp⟩, hb.done.append hdone₁⟩
  have hunits : ((s₁.store c).store u').units = (s.units ++ c :: more).set u'.id u' := by
    rw [Session.store_units, Session.store_units, hcid, hset]
  have hid : u'.id = u.id := by
    rw [hu']
    rfl
  obtain ⟨hb₂, hl⟩ := hb₁.store hid hunits
  have hlt : u.id < c.id := by
    rw [hcid]
    exact hb.lt
  refine ⟨c, { child.type.getD .unknown with symbol }, ?_, hlt, ?_, ?_, ?_, ?_, hb₂, ?_⟩
  · exact hl _ _ hlt (by simp [hcid])
  · rw [← hc, ← hparent]
  · rw [← hc]
  · obtain ⟨symbol', htype⟩ := hcompiled.type
    rw [htype, ← hname]
    rfl
  · rw [hu', ← hc]
  · exact (later_append _ _).trans hl

/-- Declarations are taken in one by one; the unit changes in what they give only. -/
theorem declareAll_building (hsound : Sound cfg declared) {names : Naming.Counts}
    (hb : Building cfg before u s.units) (h : u.declareAll cfg declared names ds s = (.ok u', s')) :
    ∃ ts subflows types, Declares cfg s'.units u.id ds ts subflows types ∧
      u' = { u with
        locals := { u.locals with types := u.locals.types ++ ts }
        subflows := u.subflows ++ subflows
        declared := u.declared ++ types } ∧
      Building cfg before u' s'.units ∧ Later u.id s.units s'.units := by
  induction ds generalizing u s names with
  | nil =>
    obtain ⟨rfl, rfl⟩ := CompileM.pure_ok h
    exact ⟨[], [], [], .nil, by simp, hb, fun i v _ hv => hv⟩
  | cons d ds ih =>
    obtain ⟨names', symbol, u₁, s₁, -, ⟨hkind, hstep⟩ | ⟨hkind, hstep⟩, hrest⟩ :=
      FlowUnit.declareAll_cons_ok h
    · obtain ⟨child, t, hat, hlt, hparent, htype, hname, rfl, hb₁, hl₁⟩ :=
        declareSubflow_building hsound hb hstep
      obtain ⟨ts, subflows, types, hds, rfl, hb', hl₂⟩ := ih hb₁ hrest
      refine ⟨t :: ts, ⟨d.name, child.id, d.pos⟩ :: subflows, types, ?_, ?_, hb', hl₁.trans hl₂⟩
      · exact .subflow hkind (hl₂ _ _ hlt hat) hlt hparent htype hname hds
      · simp [FlowUnit.withLocal]
    · obtain ⟨m, inputs, outputs, funcName, hm, hports, hu₁, hunits⟩ := FlowUnit.declareType_ok hstep
      obtain ⟨hb₁, hl₁⟩ := hb.store (by rw [hu₁]; rfl) hunits
      subst hu₁
      obtain ⟨ts, subflows, types, hds, rfl, hb', hl₂⟩ := ih hb₁ hrest
      refine ⟨{ name := d.name, symbol, inputs, outputs } :: ts, subflows, ⟨d.name, d.kind, d.contents, funcName, d.pos⟩ :: types,
        .metatype hkind hm hports hds, ?_, hb', hl₁.trans hl₂⟩
      simp [FlowUnit.withLocal]

/-- Nodes get the types that they resolve to. -/
theorem bindAll_building {ns : List Graph.Node} (hb : Building cfg before u s.units)
    (h : u.bindAll cfg ns s = (.ok u', s')) :
    ∃ bs, List.Forall₂ (fun n b => (cfg.resolve u n).2 = .ok b) ns bs ∧
      u' = { u with bindings := u.bindings ++ bs } ∧
      Building cfg before u' s'.units ∧ Later u.id s.units s'.units := by
  induction ns generalizing u s with
  | nil =>
    obtain ⟨rfl, rfl⟩ := CompileM.pure_ok h
    exact ⟨[], .nil, by simp, hb, fun i v _ hv => hv⟩
  | cons n ns ih =>
    obtain ⟨b, s₁, hres, hunits, hrest⟩ := FlowUnit.bindAll_cons_ok h
    have hid : ({ u with bindings := u.bindings ++ [b] } : FlowUnit).id = u.id := rfl
    obtain ⟨hb₁, hl₁⟩ := hb.store hid hunits
    obtain ⟨bs, hbs, rfl, hb', hl₂⟩ := ih hb₁ hrest
    exact ⟨b :: bs, .cons hres hbs, by simp, hb', hl₁.trans hl₂⟩

/-- A unit that has no more than its graph is compiled. -/
theorem compile_building (hsound : Sound cfg declared) {stem : String} {g : Graph}
    (hparse : Graph.parse text = .ok g)
    (hu : u = { id := before.length, name, path, graph := g, parent, stem })
    (hb : Building cfg before u s.units) (h : u.compile cfg declared s = (.ok u', s')) :
    u'.name = name ∧ u'.parent = parent ∧ Building cfg before u' s'.units ∧
      u'.Compiled cfg s'.units := by
  subst hu
  obtain ⟨u₁, s₁, u₂, s₂, hdeclare, hbind, hcomputed, htype, hu', hunits⟩ := FlowUnit.compile_ok h
  obtain ⟨ts, subflows, types, hds, rfl, hb₁, -⟩ := declareAll_building hsound hb hdeclare
  obtain ⟨bs, hbs, rfl, hb₂, hl₂⟩ := bindAll_building hb₁ hbind
  have hid : u'.id = before.length := by rw [hu']
  obtain ⟨hb₃, hl₃⟩ := hb₂.store hid (hid ▸ hunits)
  refine ⟨by rw [hu'], by rw [hu'], hb₃, hcomputed, ⟨text, ?_⟩, ?_, ?_, ⟨_, htype⟩⟩
  · rw [hu']
    exact hparse
  · have hds := (hds.later hl₂).later hl₃
    rw [hu']
    exact hds
  · rw [hu']
    exact hbs

end Building

/-! ## All units -/

section Session

variable {cfg : Config} {s s' : Session} {u : FlowUnit}

/-- A new unit comes first among the units that compiling it adds, all of which are compiled. -/
theorem compileText_done {declared : CompileDeclared} (hsound : Sound cfg declared)
    (h : cfg.compileText declared name path text parent s = (.ok u, s')) :
    u.name = name ∧ u.parent = parent ∧ (∃ more, s'.units = s.units ++ u :: more) ∧
      Done cfg s.units.length s'.units := by
  obtain ⟨g, stem, s₁, hparse, hunits, hcompile⟩ := Config.compileText_ok h
  have hb : Building cfg s.units { id := s.units.length, name, path, graph := g, parent, stem }
      s₁.units := by
    refine ⟨rfl, ⟨[], hunits⟩, fun i v hi hv => ?_⟩
    have hlt := (List.getElem?_eq_some_iff.mp hv).1
    rw [hunits, length_append, length_singleton] at hlt
    omega
  obtain ⟨hname, hparent, hb', hc⟩ := compile_building hsound hparse rfl hb hcompile
  refine ⟨hname, hparent, hb'.split, fun i v hi hv => ?_⟩
  rcases Nat.eq_or_lt_of_le hi with rfl | hi
  · obtain ⟨more, hsplit⟩ := hb'.split
    simp only [hsplit, getElem?_append_right le_rfl, Nat.sub_self, getElem?_cons_zero,
      Option.some.injEq] at hv
    subst hv
    exact ⟨hb'.place, hc⟩
  · exact hb'.done i v hi hv

theorem whileOpen_done {declared : CompileDeclared} (hsound : Sound cfg declared) {opened : String}
    (h : Config.whileOpen opened (cfg.compileText declared name path text parent) s = (.ok u, s')) :
    u.name = name ∧ u.parent = parent ∧ (∃ more, s'.units = s.units ++ u :: more) ∧
      Done cfg s.units.length s'.units := by
  obtain ⟨s₁, h₁, rfl⟩ := Config.whileOpen_ok h
  have hdone := compileText_done hsound h₁
  exact hdone

/-- Compiling declared files adds compiled units, whatever the depth. -/
theorem compileDeclared_sound (cfg : Config) (depth : Nat) : Sound cfg (cfg.compileDeclared depth) :=
  Config.compileDeclared_gives (fun _ ih _ _ _ _ _ _ _ _ h => whileOpen_done ih h) depth

namespace Session

/-- The session after a file or a text was compiled, with the unit of it. -/
inductive Compiles (cfg : Config) (s : Session) (root : FlowUnit) : Prop where
  | file {s₀ : Session} {path : String} (h : s₀.compileFile cfg path = (s, .ok root))
  | text {s₀ : Session} {path text : String} (h : s₀.compileText cfg path text = (s, .ok root))

theorem exists_compiles {result : Session × Except CompileError FlowUnit}
    (hrun : s₀.compileText cfg path text = result) (h : result.2.toOption.isSome = true) :
    ∃ root, result.1.Compiles cfg root := by
  obtain ⟨s, outcome⟩ := result
  cases outcome with
  | error e => cases h
  | ok root => exact ⟨root, .text hrun⟩

theorem exists_compiles_and {result : Session × Except CompileError FlowUnit} {P : FlowUnit → Prop}
    [DecidablePred P] (hrun : s₀.compileText cfg path text = result)
    (h : result.2.toOption.any (fun u => decide (P u)) = true) :
    ∃ root, result.1.Compiles cfg root ∧ P root := by
  obtain ⟨s, outcome⟩ := result
  cases outcome with
  | error e => cases h
  | ok root => exact ⟨root, .text hrun, of_decide_eq_true h⟩

theorem runFrom_ok {step : CompileM FlowUnit} (h : s₀.runFrom cfg path step = (s, .ok u)) :
    ∃ s₁, s₁.units = [] ∧ step s₁ = (.ok u, s) := by
  unfold runFrom start at h
  cases hu : s₀.units with
  | cons v rest =>
    simp only [hu] at h
    cases h
  | nil =>
    simp only [hu] at h
    refine ⟨{ s₀ with units := [], rootDir := Path.dir (cfg.storage.absolute path) }, rfl, ?_⟩
    split at h
    · next v s₁ hstep =>
      cases h
      exact hstep
    · cases h

/-- A compilation compiles one text in a session without units. -/
theorem Compiles.run (h : Compiles cfg s u) :
    ∃ (s₁ : Session) (opened name path text : String), s₁.units = [] ∧
      Config.whileOpen opened (cfg.compileText (cfg.compileDeclared cfg.depth) name path text none) s₁ =
        (.ok u, s) := by
  cases h with
  | file h =>
    obtain ⟨s₁, hempty, hstep⟩ := runFrom_ok h
    obtain ⟨text, -, hstep⟩ := Config.compileStored_ok hstep
    exact ⟨s₁, _, _, _, text, hempty, hstep⟩
  | text h =>
    obtain ⟨s₁, hempty, hstep⟩ := runFrom_ok h
    exact ⟨s₁, _, _, _, _, hempty, hstep⟩

/-- After a compilation the first unit is the one asked for, and all units are compiled. -/
theorem Compiles.done (h : Compiles cfg s u) :
    (∃ more, s.units = u :: more) ∧ Done cfg 0 s.units := by
  obtain ⟨s₁, opened, name, path, text, hempty, hrun⟩ := h.run
  obtain ⟨-, -, hsplit, hdone⟩ := whileOpen_done (compileDeclared_sound cfg cfg.depth) hrun
  rw [hempty] at hsplit hdone
  exact ⟨hsplit, hdone⟩

theorem Compiles.root_mem (h : Compiles cfg s u) : u ∈ s.units := by
  obtain ⟨⟨more, hunits⟩, -⟩ := h.done
  exact hunits ▸ mem_cons_self

end Session

theorem Done.compiled {units : List FlowUnit} (h : Done cfg 0 units) {v : FlowUnit} (hv : v ∈ units) :
    v.Compiled cfg units := by
  obtain ⟨i, hi⟩ := getElem?_of_mem hv
  exact (h i v (Nat.zero_le i) hi).2

/-- What holds of a compiled unit if it holds of all later ones holds of all units. -/
theorem Done.induction {units : List FlowUnit} (h : Done cfg 0 units) {P : FlowUnit → Prop}
    (step : ∀ v ∈ units, v.Compiled cfg units →
      (∀ (c : FlowUnit), units[c.id]? = some c → v.id < c.id → P c) → P v) : ∀ v ∈ units, P v := by
  have main : ∀ n i v, units.length ≤ i + n → units[i]? = some v → P v := by
    intro n
    induction n with
    | zero =>
      intro i v hi hv
      have := (List.getElem?_eq_some_iff.mp hv).1
      omega
    | succ n ih =>
      intro i v hi hv
      obtain ⟨hid, hc⟩ := h i v (Nat.zero_le i) hv
      refine step v (mem_of_getElem? hv) hc fun c hat hlt => ih c.id c ?_ hat
      omega
  intro v hv
  obtain ⟨i, hi⟩ := getElem?_of_mem hv
  exact main units.length i v (by omega) hi

end Session

/-! ## Declarations -/

namespace Declares

variable {cfg : Config} {units : List FlowUnit} {id : Nat} {declared : List DeclaredType}

theorem names (h : Declares cfg units id ds ts subflows declared) :
    (∀ t ∈ ts, t.name ∈ ds.map (·.name)) ∧ (∀ f ∈ subflows, f.name ∈ ds.map (·.name)) ∧
      ∀ d ∈ declared, d.name ∈ ds.map (·.name) := by
  induction h with
  | nil => simp
  | subflow kind stored later parent type name rest ih => simp_all
  | metatype kind found ports rest ih => simp_all

/-- Each declaration gives a subflow or a declared type, and a type of its name. -/
theorem recorded (h : Declares cfg units id ds ts subflows declared) :
    subflows.map (fun f => (f.name, f.pos)) = (ds.filter (·.kind = flowKind)).map (fun d => (d.name, d.pos)) ∧
      declared.map (fun t => (t.name, t.kind, t.contents, t.pos)) =
        (ds.filter (·.kind ≠ flowKind)).map (fun d => (d.name, d.kind, d.contents, d.pos)) ∧
      ts.map (·.name) = ds.map (·.name) := by
  induction h with
  | nil => exact ⟨rfl, rfl, rfl⟩
  | subflow kind stored later parent type name rest ih => simp [kind, name, ih]
  | metatype kind found ports rest ih => simp [kind, ih]

theorem subflow_type (h : Declares cfg units id ds ts subflows declared) :
    ∀ f ∈ subflows, id < f.child ∧ ∃ c, units[f.child]? = some c ∧ ∃ t ∈ ts, c.type = some t ∧ t.name = f.name := by
  induction h with
  | nil => exact forall_mem_nil _
  | @subflow d child t ds ts subflows declared kind stored later parent type name rest ih =>
    refine forall_mem_cons.mpr ⟨⟨later, child, stored, t, mem_cons_self, type, name⟩, fun f hf => ?_⟩
    obtain ⟨hlt, c, hat, t', ht', htype⟩ := ih f hf
    exact ⟨hlt, c, hat, t', mem_cons_of_mem _ ht', htype⟩
  | metatype kind found ports rest ih =>
    intro f hf
    obtain ⟨hlt, c, hat, t', ht', htype⟩ := ih f hf
    exact ⟨hlt, c, hat, t', mem_cons_of_mem _ ht', htype⟩

theorem sublists (h : Declares cfg units id ds ts subflows declared) :
    (subflows.map (·.name)).Sublist (ds.map (·.name)) ∧ (declared.map (·.name)).Sublist (ds.map (·.name)) := by
  induction h with
  | nil => exact ⟨.slnil, .slnil⟩
  | subflow kind stored later parent type name rest ih => exact ⟨ih.1.cons_cons _, ih.2.cons _⟩
  | metatype kind found ports rest ih => exact ⟨ih.1.cons _, ih.2.cons_cons _⟩

theorem registered (h : Declares cfg units id ds ts subflows declared) :
    ∀ t ∈ declared, (cfg.registry.find? t.kind).isSome := by
  induction h with
  | nil => exact forall_mem_nil _
  | subflow _ _ _ _ _ _ _ ih => exact ih
  | metatype _ found _ _ ih => exact forall_mem_cons.mpr ⟨by rw [found, Option.isSome_some], ih⟩

theorem optionsSymbols (h : Declares cfg units id ds ts subflows declared) :
    ∀ t ∈ ts, t.optionsSymbol = "" ∨ ∃ child ∈ units, child.type = some t := by
  induction h with
  | nil => exact forall_mem_nil _
  | subflow kind stored later parent type name rest ih =>
    exact forall_mem_cons.mpr ⟨.inr ⟨_, mem_of_getElem? stored, type⟩, ih⟩
  | metatype kind found ports rest ih => exact forall_mem_cons.mpr ⟨.inl rfl, ih⟩

end Declares

/-! ## Types of nodes -/

section Bindings

variable {cfg : Config} {units : List FlowUnit} {u : FlowUnit} {declared : List DeclaredType}

/-- Where the type of a node of a unit comes from: from the catalog, from a child of the unit, or from a
declaration that a metatype understood. -/
inductive FlowUnit.Binds (cfg : Config) (units : List FlowUnit) (u : FlowUnit) (b : Binding) : Prop where
  | external (role : b.role = .external) (found : cfg.common.find? b.type.name = some b.type)
  | subflow {child : FlowUnit} {pos : Position} (role : b.role = .subflow)
      (written : b.type.name ∈ u.graph.declarations.map (·.name))
      (undeclared : u.declared.find? (·.name == b.type.name) = none)
      (found : u.subflows.find? (·.name == b.type.name) = some ⟨b.type.name, child.id, pos⟩)
      (stored : units[child.id]? = some child) (later : u.id < child.id)
      (type : child.type = some b.type)
  | metatype {d : DeclaredType} {m : Metatype} (role : b.role = .metatype)
      (written : b.type.name ∈ u.graph.declarations.map (·.name))
      (found : u.declared.find? (·.name == b.type.name) = some d)
      (known : cfg.registry.find? d.kind = some m)
      (ports : m.ports d.contents = .ok (b.type.inputs, b.type.outputs)) (options : b.type.options = [])

/-- A declared type was made by its declaration, which is the only one of its name. -/
theorem Declares.binds (h : Declares cfg units u.id ds ts subflows declared)
    (hnames : (ds.map (·.name)).Nodup) (ht : t ∈ ts) :
    (∃ (child : FlowUnit) (pos : Position), subflows.find? (·.name == t.name) = some ⟨t.name, child.id, pos⟩ ∧
        declared.find? (·.name == t.name) = none ∧
        units[child.id]? = some child ∧ u.id < child.id ∧ child.type = some t) ∨
      (∃ d m, declared.find? (·.name == t.name) = some d ∧
        subflows.find? (·.name == t.name) = none ∧
        cfg.registry.find? d.kind = some m ∧ m.ports d.contents = .ok (t.inputs, t.outputs) ∧
        t.options = []) := by
  induction h with
  | nil => cases ht
  | @subflow d child t' ds ts subflows declared kind stored later parent type name rest ih =>
    obtain ⟨hnew, hnames⟩ : d.name ∉ ds.map (·.name) ∧ (ds.map (·.name)).Nodup :=
      nodup_cons.mp hnames
    rcases mem_cons.mp ht with rfl | ht
    · refine .inl ⟨child, d.pos, by simp [name], ?_, stored, later, type⟩
      refine find?_eq_none.mpr fun e he heq => hnew ?_
      rw [← name, ← beq_iff_eq.mp heq]
      exact rest.names.2.2 e he
    · have hne : d.name ≠ t.name := fun heq => hnew (heq ▸ rest.names.1 t ht)
      rw [find?_cons_of_neg (by simpa using hne)]
      exact ih hnames ht
  | @metatype d m inputs outputs symbol funcName ds ts subflows declared kind found ports rest ih =>
    obtain ⟨hnew, hnames⟩ : d.name ∉ ds.map (·.name) ∧ (ds.map (·.name)).Nodup :=
      nodup_cons.mp hnames
    rcases mem_cons.mp ht with rfl | ht
    · refine .inr ⟨⟨d.name, d.kind, d.contents, funcName, d.pos⟩, m, by simp, ?_, found, ports, rfl⟩
      refine find?_eq_none.mpr fun e he heq => hnew ?_
      have heq : e.name = d.name := beq_iff_eq.mp heq
      exact heq ▸ rest.names.2.1 e he
    · have hne : d.name ≠ t.name := fun heq => hnew (heq ▸ rest.names.1 t ht)
      rw [find?_cons_of_neg (l := declared) (by simpa using hne)]
      exact ih hnames ht

/-- The catalog hides what the unit declares. -/
theorem Config.lookup_eq_some {role : Role} (h : cfg.lookup u name = some (t, role)) :
    (role = .external ∧ cfg.common.find? name = some t) ∨
      (role = (if u.subflows.any (·.name == name) then .subflow else .metatype) ∧
        cfg.common.find? name = none ∧ u.locals.find? name = some t) := by
  unfold lookup at h
  split at h
  · next t' ht =>
    cases h
    exact .inl ⟨rfl, ht⟩
  · next hnone =>
    split at h
    · cases h
    · next t' ht =>
      cases h
      exact .inr ⟨rfl, hnone, ht⟩

/-- A node resolves to a type that is looked up, under its component or the name in a preset. -/
theorem Config.resolve_eq_ok {n : Graph.Node} {b : Binding} (h : (cfg.resolve u n).2 = .ok b) :
    ∃ name, cfg.lookup u name = some (b.type, b.role) := by
  unfold resolve at h
  split at h
  · next t role hl =>
    cases h
    exact ⟨n.component, hl⟩
  · split at h
    · cases h
    · split at h
      · cases h
      · cases h
      · next preset _ =>
        dsimp only at h
        split at h
        · cases h
        · next t role hl =>
          cases h
          exact ⟨preset.typeName, hl⟩

theorem mem_right_of_forall₂ {α β : Type} {R : α → β → Prop} {as : List α} {bs : List β}
    (h : List.Forall₂ R as bs) {b : β} (hb : b ∈ bs) : ∃ a, R a b := by
  induction h with
  | nil => cases hb
  | cons hab _ ih =>
    rcases mem_cons.mp hb with rfl | hb
    · exact ⟨_, hab⟩
    · exact ih hb

theorem forall₂_filterMap_left {α β : Type} {f : α → Option β} {P : β → α → Prop} {as : List α}
    (h : ∀ a ∈ as, ∃ b, f a = some b ∧ P b a) : List.Forall₂ P (as.filterMap f) as := by
  induction as with
  | nil => exact .nil
  | cons a as ih =>
    obtain ⟨b, hb, hP⟩ := h a mem_cons_self
    rw [filterMap_cons_some hb]
    exact .cons hP (ih fun a ha => h a (mem_cons_of_mem _ ha))

namespace FlowUnit

variable {b : Binding}

theorem Compiled.declarationNames (h : u.Compiled cfg units) : (u.graph.declarations.map (·.name)).Nodup := by
  obtain ⟨text, hparse⟩ := h.parsed
  exact (Graph.consistent_of_parse hparse).declarationNames

/-- The type of a node is one of the catalog, or it is declared by the unit and the catalog has none of its name. -/
theorem Compiled.type_source (h : u.Compiled cfg units) (hb : b ∈ u.bindings) :
    (b.role = .external ∧ cfg.common.find? b.type.name = some b.type) ∨
      (b.role = (if u.subflows.any (·.name == b.type.name) then .subflow else .metatype) ∧
        cfg.common.find? b.type.name = none ∧ b.type ∈ u.locals.types) := by
  obtain ⟨n, hres⟩ := mem_right_of_forall₂ h.bindings hb
  obtain ⟨name, hlookup⟩ := Config.resolve_eq_ok hres
  obtain ⟨hrole, hfind⟩ | ⟨hrole, hnone, hfind⟩ := Config.lookup_eq_some hlookup
  all_goals obtain rfl : b.type.name = name := by simpa using find?_some hfind
  · exact .inl ⟨hrole, hfind⟩
  · exact .inr ⟨hrole, hnone, mem_of_find?_eq_some hfind⟩

theorem Compiled.mem_locals (h : u.Compiled cfg units) (hb : b ∈ u.bindings) (hrole : b.role ≠ .external) :
    b.type ∈ u.locals.types := by
  obtain ⟨hexternal, -⟩ | ⟨-, -, hmem⟩ := h.type_source hb
  · exact absurd hexternal hrole
  · exact hmem

/-- Every node of a compiled unit has a type from one of the three sources. -/
theorem Compiled.binds (h : u.Compiled cfg units) : ∀ b ∈ u.bindings, u.Binds cfg units b := by
  intro b hb
  obtain ⟨hrole, hfind⟩ | ⟨hrole, -, hmem⟩ := h.type_source hb
  · exact .external hrole hfind
  · have hwritten := h.declares.names.1 _ hmem
    obtain ⟨child, pos, hsub, hdecl, hat, hlt, htype⟩ | ⟨d, m, hdecl, hsub, hm, hports, hopts⟩ :=
      h.declares.binds h.declarationNames hmem
    · refine .subflow (hrole.trans (if_pos ?_)) hwritten hdecl hsub hat hlt htype
      rw [any_eq_true, ← find?_isSome, hsub]
      rfl
    · refine .metatype (hrole.trans (if_neg ?_)) hwritten hdecl hm hports hopts
      rw [any_eq_true, ← find?_isSome, hsub]
      exact Bool.false_ne_true

end FlowUnit

end Bindings

end FlowCompiler
