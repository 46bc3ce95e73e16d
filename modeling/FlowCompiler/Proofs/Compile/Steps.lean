import FlowCompiler.Compile.Flow

/-!
# Steps of a compilation that succeed

A step takes a session and gives an outcome and the next session. For each step of compiling a unit there
is a lemma that says what the unit is after a success, which checks it passed, and what became of the
units of the session. Proofs about compilations take runs apart with these and open no step again.
-/

namespace FlowCompiler

variable {d : Graph.Declaration} {symbol : String} {t : Descriptor} {n : Graph.Node} {v : FlowUnit}

namespace CompileM

variable {α β : Type} {s s' : Session} {a : α}

theorem bind_ok {x : CompileM α} {f : α → CompileM β} {b : β} (h : (x >>= f) s = (.ok b, s')) :
    ∃ a s₁, x s = (.ok a, s₁) ∧ f a s₁ = (.ok b, s') := by
  rcases hx : x s with ⟨outcome, s₁⟩
  simp only [bind, ExceptT.bind, ExceptT.mk, StateT.bind, hx] at h
  cases outcome with
  | ok a => exact ⟨a, s₁, rfl, h⟩
  | error d => cases h

theorem pure_ok {b : α} (h : (pure a : CompileM α) s = (.ok b, s')) : a = b ∧ s = s' := by
  cases h
  exact ⟨rfl, rfl⟩

theorem throw_ok {d : Diagnostic} (h : (throw d : CompileM α) s = (.ok a, s')) : False := by
  cases h

theorem modify_ok {f : Session → Session} {a : PUnit}
    (h : (modify f : CompileM PUnit) s = (.ok a, s')) : s' = f s := by
  cases h
  rfl

theorem get_ok {t : Session} (h : (get : CompileM Session) s = (.ok t, s')) : s = t ∧ s = s' := by
  cases h
  exact ⟨rfl, rfl⟩

theorem modifyGet_ok {f : Session → α × Session} (h : (modifyGet f : CompileM α) s = (.ok a, s')) :
    f s = (a, s') := by
  simp only [modifyGet, MonadStateOf.modifyGet, monadLift, MonadLift.monadLift, ExceptT.lift, ExceptT.mk,
    Functor.map, StateT.map, StateT.modifyGet] at h
  rcases hf : f s with ⟨b, s₁⟩
  simp only [hf] at h
  cases h
  rfl

end CompileM

namespace Session

theorem store_units (s : Session) (u : FlowUnit) : (s.store u).units = s.units.set u.id u := rfl

theorem warnings_units (ds : List Diagnostic) (s : Session) :
    (ds.foldl warn s).units = s.units := by
  induction ds generalizing s with
  | nil => rfl
  | cons d ds ih => exact ih _

/-- Resolving a node leaves the units of the session alone. -/
theorem resolve_eq {s s' : Session} {cfg : Config} {u : FlowUnit} {outcome : Except Diagnostic Binding}
    (h : s.resolve cfg u n = (s', outcome)) : outcome = (cfg.resolve u n).2 ∧ s'.units = s.units := by
  unfold resolve at h
  rcases hr : cfg.resolve u n with ⟨warnings, result⟩
  simp only [hr] at h
  cases result <;> cases h <;> exact ⟨rfl, warnings_units warnings s⟩

end Session

theorem Catalog.add_ok {c c' : Catalog} (h : c.add t = .ok c') :
    c.find? t.name = none ∧ c' = { c with types := c.types ++ [t] } := by
  unfold Catalog.add at h
  split at h
  · cases h
  · split at h
    · cases h
    · next hfind =>
      cases h
      exact ⟨by simpa using hfind, rfl⟩

namespace FlowUnit

variable {cfg : Config} {declared : CompileDeclared} {s s' : Session} {u u' : FlowUnit}

theorem keep_ok (h : v.keep s = (.ok u', s')) : u' = v ∧ s' = s.store v := by
  obtain ⟨_, s₁, hm, h⟩ := CompileM.bind_ok h
  obtain ⟨rfl, rfl⟩ := CompileM.pure_ok h
  exact ⟨rfl, CompileM.modify_ok hm⟩

/-- The unit with one more declared type. -/
def withLocal (u : FlowUnit) (t : Descriptor) : FlowUnit :=
  { u with locals := { u.locals with types := u.locals.types ++ [t] } }

theorem addLocal_ok (h : u.addLocal d t s = (.ok u', s')) :
    u.locals.find? t.name = none ∧ u' = u.withLocal t ∧ s = s' := by
  unfold addLocal at h
  cases hadd : u.locals.add t with
  | error e =>
    rw [hadd] at h
    exact (CompileM.throw_ok h).elim
  | ok locals =>
    rw [hadd] at h
    obtain ⟨rfl, rfl⟩ := CompileM.pure_ok h
    obtain ⟨hfind, rfl⟩ := Catalog.add_ok hadd
    exact ⟨hfind, rfl, rfl⟩

/-- A declared file was found and compiled; its type gets the variable of the declaration. -/
theorem declareSubflow_ok (h : u.declareSubflow cfg declared d symbol s = (.ok u', s')) :
    ∃ path child s₁ t, cfg.findFile? s.rootDir d.contents = some path ∧
      declared path d.name u d.pos s = (.ok child, s₁) ∧
      t = { child.type.getD .unknown with symbol } ∧
      u' = { u.withLocal t with subflows := u.subflows ++ [⟨d.name, child.id, d.pos⟩] } ∧
      s' = (s₁.store { child with type := some t }).store u' := by
  obtain ⟨_, _, hget, hfile⟩ := CompileM.bind_ok h
  obtain ⟨rfl, rfl⟩ := CompileM.get_ok hget
  cases hpath : cfg.findFile? s.rootDir d.contents with
  | none =>
    rw [hpath] at hfile
    exact (CompileM.throw_ok hfile).elim
  | some path =>
    rw [hpath] at hfile
    obtain ⟨child, s₁, hchild, hrest⟩ := CompileM.bind_ok hfile
    obtain ⟨_, s₂, hkeep, hrest⟩ := CompileM.bind_ok hrest
    obtain ⟨rfl, rfl⟩ := keep_ok hkeep
    obtain ⟨_, s₃, hlocal, hkeep⟩ := CompileM.bind_ok hrest
    obtain ⟨-, rfl, rfl⟩ := addLocal_ok hlocal
    obtain ⟨rfl, rfl⟩ := keep_ok hkeep
    exact ⟨path, child, s₁, _, rfl, hchild, rfl, rfl, rfl⟩

/-- A metatype was found and gave the ports of the declared type, and a function got a name. -/
theorem declareType_takes (h : u.declareType cfg d symbol s = (.ok u', s')) :
    ∃ m inputs outputs, cfg.registry.find? d.kind = some m ∧ m.ports d.contents = .ok (inputs, outputs) ∧
      u' = { u.withLocal { name := d.name, symbol, inputs, outputs } with
        declared := u.declared ++ [⟨d.name, d.kind, d.contents, (s.takeFunc d.name u.id).2, d.pos⟩] } ∧
      s' = (s.takeFunc d.name u.id).1.store u' := by
  unfold declareType at h
  cases hm : cfg.registry.find? d.kind with
  | none =>
    rw [hm] at h
    exact (CompileM.throw_ok h).elim
  | some m =>
    rw [hm] at h
    dsimp only at h
    rcases hports : m.ports d.contents with e | ⟨inputs, outputs⟩
    · rw [hports] at h
      exact (CompileM.throw_ok h).elim
    · rw [hports] at h
      obtain ⟨_, s₁, hlocal, hrest⟩ := CompileM.bind_ok h
      obtain ⟨-, rfl, rfl⟩ := addLocal_ok hlocal
      obtain ⟨funcName, s₂, hfunc, hkeep⟩ := CompileM.bind_ok hrest
      obtain ⟨rfl, rfl⟩ := keep_ok hkeep
      cases CompileM.modifyGet_ok hfunc
      exact ⟨m, inputs, outputs, rfl, hports, rfl, rfl⟩

theorem declareType_ok (h : u.declareType cfg d symbol s = (.ok u', s')) :
    ∃ m inputs outputs funcName, cfg.registry.find? d.kind = some m ∧
      m.ports d.contents = .ok (inputs, outputs) ∧
      u' = { u.withLocal { name := d.name, symbol, inputs, outputs } with
        declared := u.declared ++ [⟨d.name, d.kind, d.contents, funcName, d.pos⟩] } ∧
      s'.units = s.units.set u'.id u' := by
  obtain ⟨m, inputs, outputs, hm, hports, hu', rfl⟩ := declareType_takes h
  exact ⟨m, inputs, outputs, _, hm, hports, hu', rfl⟩

/-- A declaration names a flow file, or else a metatype makes its type. -/
theorem declareAll_cons_ok {names : Naming.Counts} {rest : List Graph.Declaration}
    (h : u.declareAll cfg declared names (d :: rest) s = (.ok u', s')) :
    ∃ names' symbol u₁ s₁, names.take (typeVariable d.name) = (names', symbol) ∧
      ((d.kind = flowKind ∧ u.declareSubflow cfg declared d symbol s = (.ok u₁, s₁)) ∨
        (d.kind ≠ flowKind ∧ u.declareType cfg d symbol s = (.ok u₁, s₁))) ∧
      u₁.declareAll cfg declared names' rest s₁ = (.ok u', s') := by
  unfold declareAll at h
  rcases hn : names.take (typeVariable d.name) with ⟨names', symbol⟩
  simp only [hn] at h
  by_cases hk : d.kind = flowKind
  · rw [if_pos hk] at h
    obtain ⟨u₁, s₁, hstep, hrest⟩ := CompileM.bind_ok h
    exact ⟨names', symbol, u₁, s₁, rfl, .inl ⟨hk, hstep⟩, hrest⟩
  · rw [if_neg hk] at h
    obtain ⟨u₁, s₁, hstep, hrest⟩ := CompileM.bind_ok h
    exact ⟨names', symbol, u₁, s₁, rfl, .inr ⟨hk, hstep⟩, hrest⟩

/-- A node got its type. -/
theorem bindAll_cons_ok {rest : List Graph.Node} (h : u.bindAll cfg (n :: rest) s = (.ok u', s')) :
    ∃ b s₁, (cfg.resolve u n).2 = .ok b ∧
      s₁.units = s.units.set u.id { u with bindings := u.bindings ++ [b] } ∧
      bindAll cfg { u with bindings := u.bindings ++ [b] } rest s₁ = (.ok u', s') := by
  obtain ⟨outcome, s₁, hres, hrest⟩ := CompileM.bind_ok h
  have hswap : s.resolve cfg u n = (s₁, outcome) := congrArg Prod.swap (CompileM.modifyGet_ok hres)
  obtain ⟨hout, hunits⟩ := Session.resolve_eq hswap
  obtain ⟨b, s₂, hlift, hkept⟩ := CompileM.bind_ok hrest
  have hb : outcome = .ok b ∧ s₂ = s₁ := by
    cases outcome with
    | error d => exact (CompileM.throw_ok hlift).elim
    | ok b' =>
      obtain ⟨rfl, rfl⟩ := CompileM.pure_ok hlift
      exact ⟨rfl, rfl⟩
  obtain ⟨hb, rfl⟩ := hb
  obtain ⟨_, s₃, hkeep, hmore⟩ := CompileM.bind_ok hkept
  obtain ⟨rfl, rfl⟩ := keep_ok hkeep
  refine ⟨b, _, hout ▸ hb, ?_, hmore⟩
  rw [Session.store_units, hunits]

theorem check_ok {fault : Option Misplaced} {x : Unit} (h : u.check fault s = (.ok x, s')) :
    fault = none ∧ s = s' := by
  cases fault with
  | none => exact ⟨rfl, (CompileM.pure_ok h).2⟩
  | some f => exact (CompileM.throw_ok h).elim

theorem rows_ok {α : Type} {outcome : Except Misplaced α} {rows : α}
    (h : u.rows outcome s = (.ok rows, s')) : outcome = .ok rows ∧ s = s' := by
  cases outcome with
  | ok r =>
    obtain ⟨rfl, rfl⟩ := CompileM.pure_ok h
    exact ⟨rfl, rfl⟩
  | error f => exact (CompileM.throw_ok h).elim

theorem forward_ok (h : u.forward s = (.ok u', s')) :
    ∃ forwarding, u.graph.forwardingRows u.types u.graph.options = (forwarding, none) ∧
      u' = { u with forwarding } ∧ s' = s.store u' := by
  unfold forward at h
  rcases hrows : u.graph.forwardingRows u.types u.graph.options with ⟨forwarding, fault⟩
  simp only [hrows] at h
  obtain ⟨_, s₁, hkeep, h⟩ := CompileM.bind_ok h
  obtain ⟨rfl, rfl⟩ := keep_ok hkeep
  obtain ⟨_, s₂, hcheck, h⟩ := CompileM.bind_ok h
  obtain ⟨rfl, rfl⟩ := check_ok hcheck
  obtain ⟨rfl, rfl⟩ := CompileM.pure_ok h
  exact ⟨forwarding, rfl, rfl, rfl⟩

theorem encodeAll_ok (h : u.encodeAll s = (.ok u', s')) :
    u.encode.fault = none ∧ u' = { u with options := u.encode.options } ∧
      s'.units = s.units.set u.id u' := by
  unfold encodeAll at h
  obtain ⟨_, s₁, hwarn, h⟩ := CompileM.bind_ok h
  have hunits : s₁.units = s.units := by
    rw [CompileM.modify_ok hwarn]
    exact Session.warnings_units _ s
  obtain ⟨_, s₂, hkeep, h⟩ := CompileM.bind_ok h
  obtain ⟨rfl, rfl⟩ := keep_ok hkeep
  cases hf : u.encode.fault with
  | some d =>
    simp only [hf] at h
    exact (CompileM.throw_ok h).elim
  | none =>
    simp only [hf] at h
    obtain ⟨rfl, rfl⟩ := CompileM.pure_ok h
    refine ⟨rfl, rfl, ?_⟩
    rw [Session.store_units, hunits]

/-- Encoding reads the path, the nodes and the exported options of a unit. -/
theorem encodeFrom_congr (hp : v.path = u.path) (hf : v.forwarding = u.forwarding) (i : Nat)
    (bs : List Binding) : v.encodeFrom i bs = u.encodeFrom i bs := by
  induction bs generalizing i with
  | nil => rfl
  | cons b bs ih =>
    unfold encodeFrom hasForwarding
    rw [hp, hf, ih]

theorem encode_congr (hp : v.path = u.path) (hf : v.forwarding = u.forwarding)
    (hb : v.bindings = u.bindings) : v.encode = u.encode := by
  unfold encode
  rw [hb, encodeFrom_congr hp hf]

/-- What is computed from the types of the nodes of a unit, without a fault. -/
structure Computed (u : FlowUnit) : Prop where
  forwarding : u.graph.forwardingRows u.types u.graph.options = (u.forwarding, none)
  options : u.options = u.encode.options
  encoded : u.encode.fault = none
  connections : u.graph.connectionRows u.types = .ok u.connections
  inputs : u.graph.exportRows u.types .input = .ok u.inputs
  outputs : u.graph.exportRows u.types .output = .ok u.outputs

/-- A compiled unit: its declarations were taken in and its nodes have types, and all else is computed
from these. The last steps touch no other unit. -/
theorem compile_ok (h : u.compile cfg declared s = (.ok u', s')) :
    ∃ u₁ s₁ u₂ s₂, u.declareAll cfg declared [] u.graph.declarations s = (.ok u₁, s₁) ∧
      u₁.bindAll cfg u₁.graph.nodes s₁ = (.ok u₂, s₂) ∧ u'.Computed ∧ u'.type = some u'.describe ∧
      u' = { u₂ with
        forwarding := u'.forwarding, options := u'.options, connections := u'.connections
        inputs := u'.inputs, outputs := u'.outputs, type := u'.type } ∧
      s'.units = s₂.units.set u₂.id u' := by
  obtain ⟨u₁, s₁, hdeclare, h₁⟩ := CompileM.bind_ok h
  obtain ⟨u₂, s₂, hbind, h₂⟩ := CompileM.bind_ok h₁
  obtain ⟨_, s₃, hforward, h₃⟩ := CompileM.bind_ok h₂
  obtain ⟨forwarding, hforwarding, rfl, rfl⟩ := forward_ok hforward
  obtain ⟨_, s₄, hencode, h₄⟩ := CompileM.bind_ok h₃
  obtain ⟨hfault, rfl, hunits⟩ := encodeAll_ok hencode
  obtain ⟨connections, s₅, hrows, h₅⟩ := CompileM.bind_ok h₄
  obtain ⟨hconnections, rfl⟩ := rows_ok hrows
  obtain ⟨_, s₆, hkeep, h₆⟩ := CompileM.bind_ok h₅
  obtain ⟨rfl, rfl⟩ := keep_ok hkeep
  obtain ⟨inputs, s₇, hrows, h₇⟩ := CompileM.bind_ok h₆
  obtain ⟨hinputs, rfl⟩ := rows_ok hrows
  obtain ⟨_, s₈, hkeep, h₈⟩ := CompileM.bind_ok h₇
  obtain ⟨rfl, rfl⟩ := keep_ok hkeep
  obtain ⟨outputs, s₉, hrows, h₉⟩ := CompileM.bind_ok h₈
  obtain ⟨houtputs, rfl⟩ := rows_ok hrows
  obtain ⟨_, s₁₀, hkeep, h₁₀⟩ := CompileM.bind_ok h₉
  obtain ⟨rfl, rfl⟩ := keep_ok hkeep
  obtain ⟨hu', rfl⟩ := keep_ok h₁₀
  have he : u'.encode = encode { u₂ with forwarding } :=
    encode_congr (by rw [hu']) (by rw [hu']) (by rw [hu'])
  refine ⟨u₁, s₁, u₂, s₂, hdeclare, hbind, ⟨?_, ?_, ?_, ?_, ?_, ?_⟩, ?_, by rw [hu'], ?_⟩
  · rw [hu']
    exact hforwarding
  · rw [he, hu']
  · rw [he]
    exact hfault
  · rw [hu']
    exact hconnections
  · rw [hu']
    exact hinputs
  · rw [hu']
    exact houtputs
  · rw [hu']
    rfl
  · simp only [Session.store_units, hunits, List.set_set, hu']

end FlowUnit

namespace Config

variable {cfg : Config} {declared : CompileDeclared} {s s' : Session} {u : FlowUnit} {parent : Option Nat}
  {path : String}

/-- A text that can be read is compiled as a new unit at the end of the session. -/
theorem compileText_ok {name text : String}
    (h : cfg.compileText declared name path text parent s = (.ok u, s')) :
    ∃ g stem s₁, Graph.parse text = .ok g ∧
      s₁.units = s.units ++ [{ id := s.units.length, name, path, graph := g, parent, stem }] ∧
      FlowUnit.compile cfg declared
        { id := s.units.length, name, path, graph := g, parent, stem } s₁ = (.ok u, s') := by
  unfold compileText at h
  cases hparse : Graph.parse text with
  | error e =>
    rw [hparse] at h
    exact (CompileM.throw_ok h).elim
  | ok g =>
    rw [hparse] at h
    obtain ⟨v, s₁, hadd, h₁⟩ := CompileM.bind_ok h
    have hadd := CompileM.modifyGet_ok hadd
    unfold Session.addUnit at hadd
    cases hadd
    exact ⟨g, _, _, rfl, rfl, h₁⟩

theorem whileOpen_ok {α : Type} {step : CompileM α} {a : α} (h : whileOpen path step s = (.ok a, s')) :
    ∃ s₁, step (s.openFile path) = (.ok a, s₁) ∧ s' = s₁.closeFile path := by
  unfold whileOpen at h
  rcases hstep : step (s.openFile path) with ⟨outcome, s₁⟩
  simp only [hstep] at h
  cases h
  exact ⟨s₁, rfl, rfl⟩

theorem compileStored_ok {name declaredIn : String} {pos : Position}
    (h : cfg.compileStored declared path name parent declaredIn pos s = (.ok u, s')) :
    ∃ text, cfg.storage.read path = .ok text ∧
      whileOpen (cfg.storage.absolute path) (cfg.compileText declared name path text parent) s =
        (.ok u, s') := by
  obtain ⟨_, _, hget, h₁⟩ := CompileM.bind_ok h
  obtain ⟨rfl, rfl⟩ := CompileM.get_ok hget
  dsimp only at h₁
  split at h₁
  · obtain ⟨_, _, hthrow, -⟩ := CompileM.bind_ok h₁
    exact (CompileM.throw_ok hthrow).elim
  · cases hread : cfg.storage.read path with
    | error e =>
      rw [hread] at h₁
      exact (CompileM.throw_ok h₁).elim
    | ok text =>
      rw [hread] at h₁
      exact ⟨text, rfl, h₁⟩

/-- What a text gives that is compiled while its file is open, if the files that it declares give it, every declared
file gives. -/
theorem compileDeclared_gives {P : String → FlowUnit → Session → FlowUnit → Session → Prop}
    (htext : ∀ depth, (∀ path name u pos s child s',
        cfg.compileDeclared depth path name u pos s = (.ok child, s') → P name u s child s') →
      ∀ opened path text name u s child s',
        whileOpen opened (cfg.compileText (cfg.compileDeclared depth) name path text (some u.id)) s =
          (.ok child, s') → P name u s child s')
    (depth : Nat) (path name : String) (u : FlowUnit) (pos : Position) (s : Session) (child : FlowUnit)
    (s' : Session) (h : cfg.compileDeclared depth path name u pos s = (.ok child, s')) : P name u s child s' := by
  induction depth generalizing path name u pos s child s' with
  | zero => exact (CompileM.throw_ok h).elim
  | succ depth ih =>
    obtain ⟨text, -, hrun⟩ := compileStored_ok h
    exact htext depth ih _ path text name u s child s' hrun

end Config

end FlowCompiler
