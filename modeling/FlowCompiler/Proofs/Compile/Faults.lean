import FlowCompiler.Proofs.Compile.Cycles
import FlowCompiler.Proofs.Compile.Units

/-!
# What compilations fail with and warn of

A diagnostic has a file and a place in it. Both come from one unit: what is computed for a unit fails at a place of its
graph and warns of such places (`FlowUnit.Owns`). The steps of a compilation work on the units of a session, which are
begun with a text and never change in that (`Session.heads`), so a diagnostic stays where it is while other files are
compiled.

`CompileM.Triple P x Q` says this of a step: if `P` holds before, the session grows by units that are read from the texts
provided for them and by warnings about its units (`Origin.Grows`); if the step returns, `Q` holds; and if it fails, it
fails at a place of a unit, in a text that does not parse, or with a file that cannot be read (`Origin.Ends`). There is a
triple for each step, up to the first file (`Origin.step_triple`). In none of them a declared type is refused: the names
of declarations are distinct and not empty, and the type of a declared flow has the name of the declaration.
-/

namespace FlowCompiler

open List CompileM

variable {d : Graph.Declaration} {t : Descriptor} {n : Graph.Node} {v : FlowUnit}

/-! ## Places -/

/-- The places of a graph: those of its nodes, settings, connections, exports, declarations and options. -/
inductive Graph.HasPlace (g : Graph) : Position → Prop where
  | node {n : Node} (h : n ∈ g.nodes) : HasPlace g n.pos
  | setting {n : Node} {m : Meta} (hn : n ∈ g.nodes) (hm : m ∈ n.settings) : HasPlace g m.pos
  | connection {c : Connection} (h : c ∈ g.connections) : HasPlace g c.pos
  | exported {dir : Direction} {e : ExportedPort} (h : e ∈ g.exports dir) : HasPlace g e.pos
  | declaration {d : Declaration} (h : d ∈ g.declarations) : HasPlace g d.pos
  | option {o : ExportedOption} (h : o ∈ g.options) : HasPlace g o.pos

namespace FlowUnit

/-- Whether a diagnostic is at a place of a unit. -/
abbrev Owns (u : FlowUnit) (d : Diagnostic) : Prop := d.At u.path u.graph.HasPlace

/-- Whether settings have their places in a unit. -/
def Settles (u : FlowUnit) (ms : List Meta) : Prop := ∀ m ∈ ms, u.graph.HasPlace m.pos

end FlowUnit

/-! ## Sessions -/

/-- What a unit is begun with. No step changes it. -/
def FlowUnit.head (u : FlowUnit) : FlowUnit where
  id := u.id
  name := u.name
  path := u.path
  graph := u.graph
  parent := u.parent
  stem := u.stem

/-- What the units of a session are begun with. -/
def Session.heads (s : Session) : List FlowUnit := s.units.map FlowUnit.head

/-- Whether a diagnostic is about a place in one of some units. -/
def Cites (units : List FlowUnit) (d : Diagnostic) : Prop := ∃ v ∈ units, v.Owns d

namespace Origin

/-- The text of the first file. -/
def text (cfg : Config) : Origin → Except StorageError String
  | file path => cfg.storage.read path
  | given _ text => .ok text

/-- Where texts come from. The first one, which no unit declares, is that of the first file, and any other one is stored
in a file that a unit declares. -/
inductive Provides (o : Origin) (cfg : Config) (units : List FlowUnit) : Option Nat → String → String → Prop where
  | first {text : String} (read : o.text cfg = .ok text) : Provides o cfg units none o.path text
  | declared {i : Nat} {v : FlowUnit} {d : Graph.Declaration} {path text : String} (unit : units[i]? = some v)
      (declares : d ∈ v.graph.declarations) (kind : d.kind = flowKind)
      (found : cfg.findFile? (Path.dir (o.root cfg)) d.contents = some path)
      (read : cfg.storage.read path = .ok text) : Provides o cfg units (some i) path text

/-- Whether a unit is read from the text that is provided for it. -/
def Reads (o : Origin) (cfg : Config) (units : List FlowUnit) (v : FlowUnit) : Prop :=
  ∃ text, o.Provides cfg units v.parent v.path text ∧ Graph.parse text = .ok v.graph

/-- Where a diagnostic that ends a compilation is: in a unit, in a text that does not parse, or in a file that cannot
be read. -/
inductive Ends (o : Origin) (cfg : Config) (units : List FlowUnit) (d : Diagnostic) : Prop where
  | unit (cites : Cites units d) (final : d.cause.Final)
  | text {parent : Option Nat} {text : String} {e : ParseError} (provided : o.Provides cfg units parent d.file text)
      (parse : Graph.parse text = .error e) (pos : d.pos = e.pos) (cause : d.cause = .malformed e.fault)
  | file {e : StorageError} (read : cfg.storage.read d.file = .error e) (cause : d.cause = .unreadable e)

/-- What all steps do to a session: they add units that are read from the texts that are provided for them, and
warnings about the units. -/
structure Grows (o : Origin) (cfg : Config) (s s' : Session) : Prop where
  rootDir : s'.rootDir = s.rootDir
  heads : s.heads <+: s'.heads
  reads : ∀ v ∈ s'.heads, v ∈ s.heads ∨ o.Reads cfg s'.heads v
  warnings : ∀ w ∈ s'.warnings, w ∈ s.warnings ∨ Cites s'.heads w ∧ w.kind = .malformedSuboption

variable {o : Origin} {cfg : Config} {units units' : List FlowUnit}

theorem getElem?_kept (h : units <+: units') {i : Nat} (hv : units[i]? = some v) : units'[i]? = some v := by
  obtain ⟨more, rfl⟩ := h
  rw [getElem?_append_left (List.getElem?_eq_some_iff.mp hv).1]
  exact hv

theorem Provides.mono (h : units <+: units') {parent : Option Nat} {path text : String}
    (hp : o.Provides cfg units parent path text) : o.Provides cfg units' parent path text := by
  cases hp with
  | first read => exact .first read
  | declared unit declares kind found read => exact .declared (getElem?_kept h unit) declares kind found read

theorem Reads.mono (h : units <+: units') (hv : o.Reads cfg units v) : o.Reads cfg units' v := by
  obtain ⟨text, hprovided, hparse⟩ := hv
  exact ⟨text, hprovided.mono h, hparse⟩

theorem cites_mono (h : units <+: units') {d : Diagnostic} (hd : Cites units d) : Cites units' d := by
  obtain ⟨v, hv, howns⟩ := hd
  exact ⟨v, h.subset hv, howns⟩

variable {s s' s'' : Session}

theorem Grows.of_eq (hdir : s'.rootDir = s.rootDir) (hheads : s'.heads = s.heads)
    (hwarnings : s'.warnings = s.warnings) : o.Grows cfg s s' where
  rootDir := hdir
  heads := by rw [hheads]
  reads v hv := .inl (hheads ▸ hv)
  warnings w hw := .inl (hwarnings ▸ hw)

theorem Grows.refl (s : Session) : o.Grows cfg s s := .of_eq rfl rfl rfl

theorem Grows.trans (h : o.Grows cfg s s') (h' : o.Grows cfg s' s'') : o.Grows cfg s s'' where
  rootDir := h'.rootDir.trans h.rootDir
  heads := h.heads.trans h'.heads
  reads v hv := by
    rcases h'.reads v hv with hv | hv
    · exact (h.reads v hv).imp_right (Reads.mono h'.heads)
    · exact .inr hv
  warnings w hw := by
    rcases h'.warnings w hw with hw | hw
    · exact (h.warnings w hw).imp_right fun hgood => ⟨cites_mono h'.heads hgood.1, hgood.2⟩
    · exact .inr hw

/-- Whether a unit is one of a compilation that begins at `o`. -/
structure Holds (o : Origin) (cfg : Config) (u : FlowUnit) (s : Session) : Prop where
  rootDir : s.rootDir = Path.dir (o.root cfg)
  at_id : s.heads[u.id]? = some u.head

variable {u u' : FlowUnit}

theorem Holds.grows (h : o.Holds cfg u s) (hg : o.Grows cfg s s') : o.Holds cfg u s' :=
  ⟨hg.rootDir.trans h.rootDir, getElem?_kept hg.heads h.at_id⟩

theorem Holds.of_head (h : o.Holds cfg u s) (hu : u'.head = u.head) : o.Holds cfg u' s := by
  refine ⟨h.rootDir, ?_⟩
  have hid : u'.id = u.id := (congrArg FlowUnit.id hu :)
  rw [hu, hid]
  exact h.at_id

theorem Holds.cites (h : o.Holds cfg u s) {d : Diagnostic} (hd : u.Owns d) : Cites s.heads d :=
  ⟨u.head, mem_of_getElem? h.at_id, hd.same, hd.place⟩

/-- Storing a unit keeps what it was begun with. -/
theorem Holds.store (h : o.Holds cfg u s) : o.Grows cfg s (s.store u) := by
  have hheads : (s.store u).heads = s.heads := by
    obtain ⟨hlt, hat⟩ := List.getElem?_eq_some_iff.mp h.at_id
    rw [Session.heads, Session.store_units, map_set, ← hat]
    exact set_getElem_self hlt
  exact .of_eq rfl hheads rfl

theorem warned_warnings (ds : List Diagnostic) (s : Session) :
    (ds.foldl Session.warn s).warnings = s.warnings ++ ds := by
  induction ds generalizing s with
  | nil => simp
  | cons d ds ih =>
    rw [foldl_cons, ih]
    simp [Session.warn]

/-- Warnings about a unit may be noted. -/
theorem Holds.warn (h : o.Holds cfg u s) {ds : List Diagnostic}
    (hds : ∀ w ∈ ds, u.Owns w ∧ w.kind = .malformedSuboption) : o.Grows cfg s (ds.foldl Session.warn s) := by
  have hheads : (ds.foldl Session.warn s).heads = s.heads := by
    rw [Session.heads, Session.warnings_units]
    rfl
  refine ⟨congrArg (·.1.1.1) (Session.marks_warnings ds s), by rw [hheads], fun v hv => .inl (hheads ▸ hv), ?_⟩
  intro w hw
  rw [warned_warnings] at hw
  rcases mem_append.mp hw with hw | hw
  · exact .inl hw
  · rw [hheads]
    exact .inr ⟨h.cites (hds w hw).1, (hds w hw).2⟩

end Origin

/-! ## Triples -/

section Triples

variable {o : Origin} {cfg : Config} {α β : Type} {P : Session → Prop} {Q : α → Session → Prop}
  {R : β → Session → Prop} {x : CompileM α}

variable (o cfg) in
/-- Run where `P` holds, a step makes the session grow. If it succeeds, `Q` holds of its result, and if it fails, its
diagnostic is where it should be. -/
def CompileM.Triple (P : Session → Prop) (x : CompileM α) (Q : α → Session → Prop) : Prop :=
  ∀ s, P s → o.Grows cfg s (x s).2 ∧ (∀ a, (x s).1 = .ok a → Q a (x s).2) ∧
    ∀ d, (x s).1 = .error d → o.Ends cfg (x s).2.heads d

namespace CompileM.Triple

theorem pure {a : α} (h : ∀ s, P s → Q a s) : Triple o cfg P (Pure.pure a : CompileM α) Q := by
  refine fun s hs => ⟨.refl s, ?_, ?_⟩
  · rintro b ⟨⟩
    exact h s hs
  · rintro d ⟨⟩

theorem throw {d : Diagnostic} (h : ∀ s, P s → o.Ends cfg s.heads d) :
    Triple o cfg P (MonadExcept.throw d : CompileM α) Q := by
  refine fun s hs => ⟨.refl s, ?_, ?_⟩
  · rintro b ⟨⟩
  · rintro e ⟨⟩
    exact h s hs

theorem modifyGet {f : Session → α × Session} (h : ∀ s, P s → o.Grows cfg s (f s).2 ∧ Q (f s).1 (f s).2) :
    Triple o cfg P (MonadState.modifyGet f : CompileM α) Q := by
  intro s hs
  obtain ⟨hgrows, hpost⟩ := h s hs
  rw [modifyGet_apply]
  refine ⟨hgrows, ?_, ?_⟩
  · rintro b ⟨⟩
    exact hpost
  · rintro d ⟨⟩

theorem modify {f : Session → Session} {Q : PUnit → Session → Prop}
    (h : ∀ s, P s → o.Grows cfg s (f s) ∧ Q () (f s)) : Triple o cfg P (modify f : CompileM PUnit) Q :=
  .modifyGet h

theorem bind {f : α → CompileM β} (hx : Triple o cfg P x Q) (hf : ∀ a, Triple o cfg (Q a) (f a) R) :
    Triple o cfg P (x >>= f) R := by
  intro s hs
  obtain ⟨hgrows, hok, herror⟩ := hx s hs
  rw [bind_apply]
  rcases hrun : x s with ⟨d | a, s₁⟩
  · rw [hrun] at hgrows herror
    refine ⟨hgrows, ?_, ?_⟩
    · rintro b ⟨⟩
    · rintro e ⟨⟩
      exact herror d rfl
  · rw [hrun] at hgrows hok
    obtain ⟨hgrows₁, hpost⟩ := hf a s₁ (hok a rfl)
    exact ⟨hgrows.trans hgrows₁, hpost⟩

theorem imp {P' : Session → Prop} (h : Triple o cfg P x Q) (hP : ∀ s, P' s → P s) :
    Triple o cfg P' x Q := fun s hs => h s (hP s hs)

theorem agree {y : CompileM α} (hxy : ∀ s, P s → x s = y s) (h : Triple o cfg P y Q) :
    Triple o cfg P x Q := by
  intro s hs
  rw [hxy s hs]
  exact h s hs

/-- A unit of the session stays one. -/
theorem frame {u : FlowUnit} (h : Triple o cfg P x Q) (hP : ∀ s, P s → o.Holds cfg u s) :
    Triple o cfg P x fun a s => o.Holds cfg u s ∧ Q a s := by
  intro s hs
  obtain ⟨hgrows, hok, herror⟩ := h s hs
  exact ⟨hgrows, fun a ha => ⟨(hP s hs).grows hgrows, hok a ha⟩, herror⟩

/-- What is known without the session may be used. -/
theorem of_and {p : Prop} (h : p → Triple o cfg P x Q) : Triple o cfg (fun s => P s ∧ p) x Q :=
  fun s hs => h hs.2 s hs.1

end CompileM.Triple

end Triples

/-! ## Steps of a unit -/

namespace FlowUnit

variable {o : Origin} {cfg : Config} {declared : CompileDeclared} {u : FlowUnit}

theorem throw_triple {α : Type} {Q : α → Session → Prop} {d : Diagnostic} (howns : u.Owns d) (hfinal : d.cause.Final) :
    Triple o cfg (o.Holds cfg u) (throw d : CompileM α) Q :=
  .throw fun _ hs => .unit (hs.cites howns) hfinal

theorem keep_triple {u' : FlowUnit} {R : FlowUnit → Prop} (hu : u'.head = u.head) (hR : R u') :
    Triple o cfg (o.Holds cfg u) u'.keep fun v s => o.Holds cfg v s ∧ R v := by
  refine .bind (Q := fun _ s => o.Holds cfg u' s) (.modify fun s hs => ?_) fun _ => .pure fun _ hs => ⟨hs, hR⟩
  have hs := hs.of_head hu
  exact ⟨hs.store, hs.grows hs.store⟩

/-- A type whose name is new is registered. -/
theorem addLocal_eq (hname : t.name ≠ "") (hnew : t.name ∉ u.locals.types.map (·.name)) :
    u.addLocal d t = pure (u.withLocal t) := by
  have hfind : ¬(u.locals.find? t.name).isSome = true := by
    rw [Catalog.find?, find?_isSome]
    simpa using hnew
  unfold addLocal Catalog.add
  rw [if_neg hname, if_neg hfind]
  rfl

/-- What a declaration changes of a unit: the types that are local to it get one more. -/
structure Takes (u : FlowUnit) (d : Graph.Declaration) (v : FlowUnit) : Prop where
  head : v.head = u.head
  bindings : v.bindings = u.bindings
  names : v.locals.types.map (·.name) = u.locals.types.map (·.name) ++ [d.name]

theorem declareType_triple (symbol : String) (hd : d ∈ u.graph.declarations) (hname : d.name ≠ "")
    (hnew : d.name ∉ u.locals.types.map (·.name)) :
    Triple o cfg (o.Holds cfg u) (u.declareType cfg d symbol) fun v s => o.Holds cfg v s ∧ u.Takes d v := by
  have hplace : u.graph.HasPlace d.pos := .declaration hd
  unfold declareType
  split
  · exact throw_triple ⟨rfl, hplace⟩ ⟨rfl, nofun⟩
  · split
    · exact throw_triple ⟨rfl, hplace⟩ ⟨rfl, nofun⟩
    · rw [addLocal_eq hname hnew, pure_bind]
      refine .bind (Q := fun _ => o.Holds cfg u) (.modifyGet fun s hs => ?_) fun funcName => ?_
      · have hgrows : o.Grows cfg s (s.takeFunc d.name u.id).1 := .of_eq rfl rfl rfl
        exact ⟨hgrows, hs.grows hgrows⟩
      · exact keep_triple rfl ⟨rfl, rfl, map_append⟩

end FlowUnit

/-- Whether declared files are compiled without leaving the texts that are provided: the unit of a declaration has a type
of the declared name. -/
def Origin.Follows (o : Origin) (cfg : Config) (declared : CompileDeclared) : Prop :=
  ∀ (path : String) (d : Graph.Declaration) (u : FlowUnit), d ∈ u.graph.declarations → d.kind = flowKind →
    cfg.findFile? (Path.dir (o.root cfg)) d.contents = some path →
    Triple o cfg (o.Holds cfg u) (declared path d.name u d.pos) fun child s => o.Holds cfg child s ∧
      ∃ t, child.type = some t ∧ t.name = d.name

namespace FlowUnit

variable {o : Origin} {cfg : Config} {declared : CompileDeclared} {u : FlowUnit}

/-- A compiled file becomes a type of the unit that declares it. -/
theorem adopt_triple (symbol : String) (hname : d.name ≠ "") (hnew : d.name ∉ u.locals.types.map (·.name))
    {child : FlowUnit} (htype : child.type = some t) (ht : t.name = d.name) :
    Triple o cfg (fun s => o.Holds cfg u s ∧ o.Holds cfg child s) (u.adopt d symbol child) fun v s =>
      o.Holds cfg v s ∧ u.Takes d v := by
  have hlocal : u.addLocal d { t with symbol } = pure (u.withLocal { t with symbol }) :=
    addLocal_eq (by simpa [ht] using hname) (by simpa [ht] using hnew)
  unfold adopt
  simp only [htype, Option.getD_some, hlocal, pure_bind]
  have hkeep : Triple o cfg (o.Holds cfg child) (keep { child with type := some { t with symbol } })
      fun _ _ => True := by
    refine .bind (Q := fun _ _ => True) (.modify fun s hs => ⟨?_, trivial⟩) fun _ => .pure fun _ _ => trivial
    have htyped : o.Holds cfg { child with type := some { t with symbol } } s := hs.of_head rfl
    exact htyped.store
  refine .bind ((hkeep.imp fun s hs => hs.2).frame fun s hs => hs.1) fun c => .of_and fun _ => ?_
  refine keep_triple rfl ⟨rfl, rfl, ?_⟩
  simp [withLocal, ht]

theorem declareSubflow_triple (hdeclared : o.Follows cfg declared) (symbol : String)
    (hd : d ∈ u.graph.declarations) (hkind : d.kind = flowKind) (hname : d.name ≠ "")
    (hnew : d.name ∉ u.locals.types.map (·.name)) :
    Triple o cfg (o.Holds cfg u) (u.declareSubflow cfg declared d symbol) fun v s =>
      o.Holds cfg v s ∧ u.Takes d v := by
  cases hfile : cfg.findFile? (Path.dir (o.root cfg)) d.contents with
  | none =>
    have hrun : ∀ s, o.Holds cfg u s → u.declareSubflow cfg declared d symbol s =
        (throw ⟨u.path, d.pos, .noFile d.contents d.name⟩ : CompileM FlowUnit) s := by
      intro s hs
      rw [declareSubflow_apply, hs.rootDir, hfile]
    exact .agree hrun (throw_triple ⟨rfl, .declaration hd⟩ ⟨rfl, nofun⟩)
  | some path =>
    have hrun : ∀ s, o.Holds cfg u s → u.declareSubflow cfg declared d symbol s =
        (declared path d.name u d.pos >>= u.adopt d symbol) s := by
      intro s hs
      rw [declareSubflow_apply, hs.rootDir, hfile]
    refine .agree hrun (.bind ((hdeclared path d u hd hkind hfile).frame fun _ hs => hs) fun child => ?_)
    have hadopt : (∃ t, child.type = some t ∧ t.name = d.name) →
        Triple o cfg (fun s => o.Holds cfg u s ∧ o.Holds cfg child s) (u.adopt d symbol child) fun v s =>
          o.Holds cfg v s ∧ u.Takes d v := by
      rintro ⟨t, htype, ht⟩
      exact adopt_triple symbol hname hnew htype ht
    exact (Triple.of_and hadopt).imp fun s hs => ⟨⟨hs.1, hs.2.1⟩, hs.2.2⟩

theorem declareAll_triple (hdeclared : o.Follows cfg declared) (names : Naming.Counts) {ds : List Graph.Declaration}
    (hds : ∀ d ∈ ds, d ∈ u.graph.declarations ∧ d.name ≠ "")
    (hnew : (u.locals.types.map (·.name) ++ ds.map (·.name)).Nodup) :
    Triple o cfg (o.Holds cfg u) (u.declareAll cfg declared names ds) fun v s =>
      o.Holds cfg v s ∧ (v.head = u.head ∧ v.bindings = u.bindings) := by
  induction ds generalizing u names with
  | nil => exact .pure fun s hs => ⟨hs, rfl, rfl⟩
  | cons d ds ih =>
    obtain ⟨⟨hd, hname⟩, hds⟩ := forall_mem_cons.mp hds
    have hfresh : d.name ∉ u.locals.types.map (·.name) := by
      rw [map_cons] at hnew
      exact fun hmem => (nodup_append.mp hnew).2.2 _ hmem _ mem_cons_self rfl
    have hrest : ∀ v : FlowUnit, u.Takes d v → Triple o cfg (o.Holds cfg v)
        (v.declareAll cfg declared (names.take (typeVariable d.name)).1 ds) fun w s =>
          o.Holds cfg w s ∧ (w.head = u.head ∧ w.bindings = u.bindings) := by
      intro v hv
      have hgraph : v.graph = u.graph := (congrArg FlowUnit.graph hv.head :)
      rw [← hv.head, ← hv.bindings]
      refine ih _ (by rwa [hgraph]) ?_
      rw [hv.names, append_assoc]
      exact hnew
    unfold declareAll
    dsimp only
    split
    · next hkind =>
      exact .bind (declareSubflow_triple hdeclared _ hd hkind hname hfresh) fun v => .of_and fun hv => hrest v hv
    · exact .bind (declareType_triple _ hd hname hfresh) fun v => .of_and fun hv => hrest v hv

theorem resolve_owns (cfg : Config) (hn : n ∈ u.graph.nodes) :
    (∀ w ∈ (cfg.resolve u n).1, u.Owns w ∧ w.kind = .malformedSuboption) ∧
      (∀ d, (cfg.resolve u n).2 = .error d → u.Owns d ∧ d.cause.Local) ∧
      ∀ b, (cfg.resolve u n).2 = .ok b → u.Settles b.settings :=
  cfg.resolve_spots u (.node hn) fun _ hm => .setting hn hm

/-- Resolving a node notes warnings about the node. -/
theorem resolve_grows (hn : n ∈ u.graph.nodes) {s : Session} (hs : o.Holds cfg u s) :
    o.Grows cfg s (s.resolve cfg u n).1 ∧ (s.resolve cfg u n).2 = (cfg.resolve u n).2 := by
  have hwarnings := (resolve_owns cfg hn).1
  unfold Session.resolve
  rcases hresolve : cfg.resolve u n with ⟨warnings, d | b⟩
  · rw [hresolve] at hwarnings
    exact ⟨hs.warn hwarnings, rfl⟩
  · rw [hresolve] at hwarnings
    exact ⟨(hs.warn hwarnings).trans (.of_eq rfl rfl rfl), rfl⟩

theorem bindAll_triple {ns : List Graph.Node} (hns : ∀ n ∈ ns, n ∈ u.graph.nodes)
    (hbindings : ∀ b ∈ u.bindings, u.Settles b.settings) :
    Triple o cfg (o.Holds cfg u) (u.bindAll cfg ns) fun v s =>
      o.Holds cfg v s ∧ (v.head = u.head ∧ ∀ b ∈ v.bindings, v.Settles b.settings) := by
  induction ns generalizing u with
  | nil => exact .pure fun s hs => ⟨hs, rfl, hbindings⟩
  | cons n ns ih =>
    obtain ⟨hn, hns⟩ := forall_mem_cons.mp hns
    obtain ⟨-, hfault, hsettings⟩ := resolve_owns cfg hn
    unfold bindAll
    refine .bind (Q := fun outcome s => o.Holds cfg u s ∧ outcome = (cfg.resolve u n).2) (.modifyGet fun s hs => ?_)
      fun outcome => .of_and fun houtcome => ?_
    · obtain ⟨hgrows, houtcome⟩ := resolve_grows hn hs
      exact ⟨hgrows, hs.grows hgrows, houtcome⟩
    · subst houtcome
      refine .bind (Q := fun b s => o.Holds cfg u s ∧ u.Settles b.settings) ?_ fun b => .of_and fun hb => ?_
      · unfold bindAll.liftExcept
        split
        · next b hb => exact .pure fun s hs => ⟨hs, hsettings b hb⟩
        · next d hd => exact throw_triple (hfault d hd).1 (hfault d hd).2.toFinal
      · refine .bind (keep_triple (R := (· = { u with bindings := u.bindings ++ [b] })) rfl rfl) fun v =>
          .of_and fun hv => ?_
        subst hv
        exact ih hns (forall_mem_append.mpr ⟨hbindings, forall_mem_singleton.mpr hb⟩)

theorem check_triple {fault : Option Misplaced}
    (h : ∀ pos e, fault = some (pos, e) → u.graph.HasPlace pos ∧ e.Final) :
    Triple o cfg (o.Holds cfg u) (u.check fault) fun _ => o.Holds cfg u := by
  unfold check
  split
  · exact .pure fun s hs => hs
  · next pos e =>
    obtain ⟨hplace, hfinal⟩ := h pos e rfl
    exact throw_triple ⟨rfl, hplace⟩ hfinal

theorem rows_triple {α : Type} {outcome : Except Misplaced α}
    (h : ∀ pos e, outcome = .error (pos, e) → u.graph.HasPlace pos ∧ e.Final) :
    Triple o cfg (o.Holds cfg u) (u.rows outcome) fun _ => o.Holds cfg u := by
  unfold rows
  split
  · exact .pure fun s hs => hs
  · next pos e =>
    obtain ⟨hplace, hfinal⟩ := h pos e rfl
    exact throw_triple ⟨rfl, hplace⟩ hfinal

theorem forward_triple : Triple o cfg (o.Holds cfg u) u.forward fun v s =>
    o.Holds cfg v s ∧ (v.head = u.head ∧ v.bindings = u.bindings) := by
  unfold forward
  refine .bind (keep_triple (R := fun v => v.head = u.head ∧ v.bindings = u.bindings) rfl ⟨rfl, rfl⟩) fun v =>
    .of_and fun hv => ?_
  refine .bind (check_triple fun pos e hfault => ?_) fun _ => .pure fun s hs => ⟨hs, hv⟩
  obtain ⟨⟨x, hx, rfl⟩, hlocal⟩ := Graph.forwardingRows_fault hfault
  rw [show v.graph = u.graph from (congrArg FlowUnit.graph hv.1 :)]
  exact ⟨.option hx, hlocal.toFinal⟩

theorem encodeAll_triple (hbindings : ∀ b ∈ u.bindings, u.Settles b.settings) :
    Triple o cfg (o.Holds cfg u) u.encodeAll fun v s => o.Holds cfg v s ∧ v.head = u.head := by
  obtain ⟨hwarnings, hfault⟩ := encodeFrom_spots (i := 0) hbindings
  unfold encodeAll
  refine .bind (Q := fun _ => o.Holds cfg u) (.modify fun s hs => ?_) fun _ => ?_
  · have hgrows := hs.warn hwarnings
    exact ⟨hgrows, hs.grows hgrows⟩
  refine .bind (keep_triple (R := fun v => v.head = u.head) rfl rfl) fun v => .of_and fun hv => ?_
  split
  · next d hd =>
    obtain ⟨howns, hlocal⟩ := hfault d hd
    exact (throw_triple howns hlocal.toFinal).imp fun s hs => hs.of_head hv.symm
  · exact .pure fun s hs => ⟨hs, hv⟩

theorem connections_triple : Triple o cfg (o.Holds cfg u) (u.rows (u.graph.connectionRows u.types)) fun _ =>
    o.Holds cfg u := by
  refine rows_triple fun pos e h => ?_
  obtain ⟨⟨c, hc, rfl⟩, hlocal⟩ := Graph.connectionRows_fault h
  exact ⟨.connection hc, hlocal.toFinal⟩

theorem exports_triple (dir : Direction) :
    Triple o cfg (o.Holds cfg u) (u.rows (u.graph.exportRows u.types dir)) fun _ => o.Holds cfg u := by
  refine rows_triple fun pos e h => ?_
  obtain ⟨⟨x, hx, rfl⟩, hlocal⟩ := Graph.exportRows_fault h
  exact ⟨.exported hx, hlocal.toFinal⟩

/-- A unit without types and nodes is compiled. -/
theorem compile_triple (hdeclared : o.Follows cfg declared) {text : String} (hparse : Graph.parse text = .ok u.graph)
    (hlocals : u.locals = {}) (hbindings : u.bindings = []) :
    Triple o cfg (o.Holds cfg u) (u.compile cfg declared) fun v s =>
      o.Holds cfg v s ∧ ∃ t, v.type = some t ∧ t.name = u.name := by
  have hnames : (u.locals.types.map (·.name) ++ u.graph.declarations.map (·.name)).Nodup := by
    rw [hlocals]
    exact (Graph.consistent_of_parse hparse).declarationNames
  unfold compile
  refine .bind (declareAll_triple hdeclared [] (fun d hd => ⟨hd, (Graph.spelled_of_parse hparse d hd).1.1⟩) hnames)
    fun v => .of_and fun hv => ?_
  obtain ⟨hv, hempty⟩ := hv
  rw [hbindings] at hempty
  refine .bind (bindAll_triple (fun n hn => hn) (by rw [hempty]; exact forall_mem_nil _)) fun v₁ =>
    .of_and fun hv₁ => ?_
  refine .bind forward_triple fun v₂ => .of_and fun hv₂ => ?_
  have hsettles : ∀ b ∈ v₂.bindings, v₂.Settles b.settings := by
    have hgraph : v₂.graph = v₁.graph := (congrArg FlowUnit.graph hv₂.1 :)
    rw [hv₂.2]
    intro b hb m hm
    rw [hgraph]
    exact hv₁.2 b hb m hm
  refine .bind (encodeAll_triple hsettles) fun v₃ => .of_and fun hv₃ => ?_
  have hname : v₃.name = u.name := by
    have hhead : v₃.head = u.head := hv₃.trans (hv₂.1.trans (hv₁.1.trans hv))
    exact (congrArg FlowUnit.name hhead :)
  refine .bind connections_triple fun connections => ?_
  refine .bind (keep_triple (R := fun v => v.name = u.name) rfl hname) fun v₄ => .of_and fun hv₄ => ?_
  refine .bind (exports_triple .input) fun inputs => ?_
  refine .bind (keep_triple (R := fun v => v.name = u.name) rfl hv₄) fun v₅ => .of_and fun hv₅ => ?_
  refine .bind (exports_triple .output) fun outputs => ?_
  refine .bind (keep_triple (R := fun v => v.name = u.name) rfl hv₅) fun v₆ => .of_and fun hv₆ => ?_
  exact keep_triple rfl ⟨v₆.describe, rfl, hv₆⟩

end FlowUnit

/-! ## Files -/

namespace Config

variable {o : Origin} {cfg : Config} {declared : CompileDeclared} {parent : Option Nat} {path : String}
  {P : Session → Prop}

/-- A new unit is read from the text that is provided for it. -/
theorem addUnit_grows {s : Session} (name : String) {text : String} {graph : Graph}
    (hdir : s.rootDir = Path.dir (o.root cfg)) (hprovided : o.Provides cfg s.heads parent path text)
    (hparse : Graph.parse text = .ok graph) :
    o.Grows cfg s (s.addUnit name path graph parent).1 ∧
      o.Holds cfg (s.addUnit name path graph parent).2 (s.addUnit name path graph parent).1 := by
  generalize hu : (s.addUnit name path graph parent).2 = u
  generalize hs' : (s.addUnit name path graph parent).1 = s'
  have hheads : s'.heads = s.heads ++ [u.head] := by
    rw [← hs', ← hu]
    exact map_append
  have hkept : s.heads <+: s'.heads := ⟨_, hheads.symm⟩
  have hread : o.Reads cfg s'.heads u.head := by
    rw [← hu]
    exact ⟨text, hprovided.mono hkept, hparse⟩
  refine ⟨⟨by rw [← hs']; rfl, hkept, fun v hv => ?_, fun w hw => .inl ?_⟩, by rw [← hs']; exact hdir, ?_⟩
  · rw [hheads] at hv
    rcases mem_append.mp hv with hv | hv
    · exact .inl hv
    · exact .inr (mem_singleton.mp hv ▸ hread)
  · rw [← hs'] at hw
    exact hw
  · have hid : u.id = s.heads.length := by
      rw [← hu, Session.heads, length_map]
      rfl
    rw [hheads, hid, getElem?_concat_length]

theorem compileText_triple (hdeclared : o.Follows cfg declared) {name text : String} :
    Triple o cfg (fun s => s.rootDir = Path.dir (o.root cfg) ∧ o.Provides cfg s.heads parent path text)
      (cfg.compileText declared name path text parent) fun v s =>
        o.Holds cfg v s ∧ ∃ t, v.type = some t ∧ t.name = name := by
  unfold compileText
  split
  · next e he => exact .throw fun s hs => .text hs.2 he rfl rfl
  · next graph hparse =>
    refine .bind (Q := fun u s => o.Holds cfg u s ∧
      (u.name = name ∧ u.graph = graph ∧ u.locals = {} ∧ u.bindings = [])) (.modifyGet fun s hs => ?_) fun u =>
      .of_and fun hu => ?_
    · obtain ⟨hgrows, hholds⟩ := addUnit_grows name hs.1 hs.2 hparse
      exact ⟨hgrows, hholds, rfl, rfl, rfl, rfl⟩
    · obtain ⟨rfl, rfl, hlocals, hbindings⟩ := hu
      exact FlowUnit.compile_triple hdeclared hparse hlocals hbindings

/-- Opening and closing a file changes nothing else. -/
theorem whileOpen_triple {α : Type} {Q : α → Session → Prop} {step : CompileM α} (h : Triple o cfg P step Q)
    (hP : ∀ s, P s → P (s.openFile path)) (hQ : ∀ a s, Q a s → Q a (s.closeFile path)) :
    Triple o cfg P (whileOpen path step) Q := by
  intro s hs
  obtain ⟨hgrows, hok, herror⟩ := h (s.openFile path) (hP s hs)
  rw [whileOpen_apply]
  have hopen : o.Grows cfg s (s.openFile path) := .of_eq rfl rfl rfl
  refine ⟨(hopen.trans hgrows).trans (.of_eq rfl rfl rfl), fun a ha => hQ a _ (hok a ha), herror⟩

theorem whileOpen_compileText_triple (hdeclared : o.Follows cfg declared) {file name text : String} :
    Triple o cfg (fun s => s.rootDir = Path.dir (o.root cfg) ∧ o.Provides cfg s.heads parent path text)
      (whileOpen file (cfg.compileText declared name path text parent)) fun v s =>
        o.Holds cfg v s ∧ ∃ t, v.type = some t ∧ t.name = name :=
  whileOpen_triple (compileText_triple hdeclared) (fun _ hs => hs) fun _ _ hs => ⟨⟨hs.1.rootDir, hs.1.at_id⟩, hs.2⟩

/-- Compiling a file fails where it is declared, or because it cannot be read, or while its text is compiled. -/
theorem compileStored_triple (hdeclared : o.Follows cfg declared) {name declaredIn : String}
    {pos : Position}
    (hcycle : ∀ s, P s → cfg.storage.absolute path ∈ s.opened → o.Ends cfg s.heads ⟨declaredIn, pos, .cycle path⟩)
    (hP : ∀ s text, P s → cfg.storage.read path = .ok text →
      s.rootDir = Path.dir (o.root cfg) ∧ o.Provides cfg s.heads parent path text) :
    Triple o cfg P (cfg.compileStored declared path name parent declaredIn pos) fun v s =>
      o.Holds cfg v s ∧ ∃ t, v.type = some t ∧ t.name = name := by
  intro s hs
  rw [compileStored_apply]
  split
  · next hopen =>
    refine ⟨.refl s, ?_, ?_⟩
    · rintro v ⟨⟩
    · rintro d ⟨⟩
      exact hcycle s hs hopen
  · cases hread : cfg.storage.read path with
    | error e =>
      refine ⟨.refl s, ?_, ?_⟩
      · rintro v ⟨⟩
      · rintro d ⟨⟩
        exact .file hread rfl
    | ok text => exact whileOpen_compileText_triple hdeclared s (hP s text hs hread)

/-- Declared files are compiled from the texts that are provided, whatever the depth. -/
theorem follows_compileDeclared (o : Origin) (cfg : Config) (depth : Nat) :
    o.Follows cfg (cfg.compileDeclared depth) := by
  induction depth with
  | zero =>
    intro path d u hd hkind hfound
    exact FlowUnit.throw_triple ⟨rfl, .declaration hd⟩ ⟨rfl, nofun⟩
  | succ depth ih =>
    intro path d u hd hkind hfound
    refine compileStored_triple ih (fun s hs _ => ?_) fun s text hs hread => ?_
    · exact .unit (hs.cites ⟨rfl, .declaration hd⟩) ⟨rfl, nofun⟩
    · exact ⟨hs.rootDir, .declared hs.at_id hd hkind hfound hread⟩

end Config

/-- The first file is compiled from its text, unless it is a stored file that is being compiled already. -/
theorem Origin.step_triple (o : Origin) (cfg : Config) {declared : CompileDeclared} (hdeclared : o.Follows cfg declared) :
    Triple o cfg (fun s => s.rootDir = Path.dir (o.root cfg) ∧ ∀ path, o = .file path → o.root cfg ∉ s.opened)
      (o.step cfg declared) fun v s => o.Holds cfg v s ∧ ∃ t, v.type = some t ∧ t.name = Path.stem o.path := by
  cases o with
  | file path =>
    exact Config.compileStored_triple hdeclared (fun s hs hopen => absurd hopen (hs.2 path rfl)) fun s text hs hread =>
      ⟨hs.1, .first hread⟩
  | given path text =>
    exact (Config.whileOpen_compileText_triple hdeclared).imp fun s hs => ⟨hs.1, .first rfl⟩

end FlowCompiler
