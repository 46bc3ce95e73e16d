import FlowCompiler.Proofs.Compile.Causes
import FlowCompiler.Proofs.Compile.Steps

/-!
# What the steps of a compilation leave alone

A file is open while its text is compiled. No other step touches the open files or the first directory, no
step asks a metatype for code, and most give out no names either, whether they succeed or fail
(`CompileM.Aside`). So every declared file is compiled in a session with the same open files, and what
compiling a text does depends on how declared files are compiled in such sessions only
(`Config.compileText_agree`).

A compilation of a text that succeeds has compiled all flows that the text declares, and one that fails
because of a cycle failed in one of them (`Config.compileText_asking`).
-/

namespace FlowCompiler

variable {text : String}

/-- The first directory and the open files. -/
def Session.files (s : Session) : String × List String := (s.rootDir, s.opened)

/-- These and the metatypes that were asked for code. -/
def Session.frame (s : Session) : (String × List String) × List String := (s.files, s.begun)

/-- These and the names given out. -/
def Session.marks (s : Session) : ((String × List String) × List String) × Naming.Counts := (s.frame, s.stems)

theorem Session.marks_warnings (ds : List Diagnostic) (s : Session) :
    (ds.foldl Session.warn s).marks = s.marks := by
  induction ds generalizing s with
  | nil => rfl
  | cons d ds ih => exact ih _

namespace CompileM

variable {α β γ : Type} {view : Session → γ} {x : CompileM α} {f : α → CompileM β}

/-- Whether a step leaves the first directory and the open files alone, and asks no metatype for code. -/
def Keeps (x : CompileM α) : Prop := ∀ s, (x s).2.frame = s.frame

theorem Keeps.files (h : Keeps x) (s : Session) : (x s).2.files = s.files := congrArg Prod.fst (h s)

theorem Keeps.begun (h : Keeps x) (s : Session) : (x s).2.begun = s.begun := congrArg Prod.snd (h s)

/-- Whether a step leaves a view of the session alone and never fails because of a cycle. -/
def Aside (view : Session → γ) (x : CompileM α) : Prop :=
  ∀ s, view (x s).2 = view s ∧ ∀ d, (x s).1 = .error d → d.kind ≠ .declarationCycle

/-- Whether two steps do the same wherever the first directory and the open files are `files`. -/
def Agree (files : String × List String) (x y : CompileM α) : Prop := ∀ s, s.files = files → x s = y s

theorem bind_apply (x : CompileM α) (f : α → CompileM β) (s : Session) :
    (x >>= f) s = match x s with
      | (.ok a, s₁) => f a s₁
      | (.error d, s₁) => (.error d, s₁) := by
  rcases hx : x s with ⟨outcome, s₁⟩
  simp only [bind, ExceptT.bind, ExceptT.mk, StateT.bind, hx]
  cases outcome <;> rfl

theorem modifyGet_apply (f : Session → α × Session) (s : Session) :
    (modifyGet f : CompileM α) s = (.ok (f s).1, (f s).2) := by
  simp only [modifyGet, MonadStateOf.modifyGet, monadLift, MonadLift.monadLift,
    ExceptT.lift, ExceptT.mk, Functor.map, StateT.map, StateT.modifyGet]
  rfl

theorem Keeps.bind (hx : Keeps x) (hf : ∀ a, Keeps (f a)) : Keeps (x >>= f) := by
  intro s
  have hs := hx s
  rw [bind_apply]
  rcases h : x s with ⟨d | a, s₁⟩
  · simpa only [h] using hs
  · rw [h] at hs
    exact (hf a s₁).trans hs

theorem Agree.refl {files : String × List String} (x : CompileM α) : Agree files x x := fun _ _ => rfl

theorem Agree.bind {files : String × List String} {y : CompileM α} {g : α → CompileM β} (hx : Keeps x)
    (hxy : Agree files x y) (hfg : ∀ a, Agree files (f a) (g a)) : Agree files (x >>= f) (y >>= g) := by
  intro s hs
  have hs₁ := (hx.files s).trans hs
  rw [bind_apply, bind_apply, ← hxy s hs]
  rcases h : x s with ⟨d | a, s₁⟩
  · rfl
  · rw [h] at hs₁
    exact hfg a s₁ hs₁

theorem Aside.keeps (h : Aside Session.frame x) : Keeps x := fun s => (h s).1

theorem Aside.frame (h : Aside Session.marks x) : Aside Session.frame x :=
  fun s => ⟨congrArg Prod.fst (h s).1, (h s).2⟩

theorem Aside.pure (a : α) : Aside view (Pure.pure a : CompileM α) :=
  fun _ => ⟨rfl, fun _ h => by cases h⟩

theorem Aside.throw {d : Diagnostic} (h : d.kind ≠ .declarationCycle) :
    Aside view (throw d : CompileM α) :=
  fun _ => ⟨rfl, fun _ he => by cases he; exact h⟩

theorem Aside.modify {f : Session → Session} (h : ∀ s, view (f s) = view s) :
    Aside view (modify f : CompileM PUnit) :=
  fun s => ⟨h s, fun _ he => by cases he⟩

theorem Aside.modifyGet {f : Session → α × Session} (h : ∀ s, view (f s).2 = view s) :
    Aside view (modifyGet f : CompileM α) := by
  intro s
  rw [modifyGet_apply]
  exact ⟨h s, fun _ he => by cases he⟩

theorem Aside.bind (hx : Aside view x) (hf : ∀ a, Aside view (f a)) : Aside view (x >>= f) := by
  intro s
  obtain ⟨hview, herror⟩ := hx s
  rw [bind_apply]
  rcases h : x s with ⟨d | a, s₁⟩
  · rw [h] at hview herror
    refine ⟨hview, fun e he => ?_⟩
    cases he
    exact herror d rfl
  · rw [h] at hview
    obtain ⟨hview₁, herror₁⟩ := hf a s₁
    exact ⟨hview₁.trans hview, herror₁⟩

end CompileM

open CompileM

/-! ## Steps of a unit -/

namespace FlowUnit

variable {cfg : Config} {declared : CompileDeclared} {u : FlowUnit}

theorem keep_aside (u : FlowUnit) : Aside Session.marks u.keep := by
  have hstore : ∀ s : Session, (s.store u).marks = s.marks := fun _ => rfl
  exact (Aside.modify hstore).bind fun _ => .pure u

theorem addLocal_aside (u : FlowUnit) (d : Graph.Declaration) (t : Descriptor) :
    Aside Session.marks (u.addLocal d t) := by
  unfold addLocal
  split
  · exact .throw nofun
  · exact .pure _

theorem check_aside {fault : Option Misplaced}
    (h : ∀ pos e, fault = some (pos, e) → e.kind ≠ .declarationCycle) :
    Aside Session.marks (u.check fault) := by
  unfold check
  split
  · exact .pure ()
  · exact .throw (h _ _ rfl)

theorem rows_aside {α : Type} {outcome : Except Misplaced α}
    (h : ∀ pos e, outcome = .error (pos, e) → e.kind ≠ .declarationCycle) :
    Aside Session.marks (u.rows outcome) := by
  unfold rows
  split
  · exact .pure _
  · exact .throw (h _ _ rfl)

theorem resolve_eq_marks (s : Session) (cfg : Config) (u : FlowUnit) (n : Graph.Node) :
    ∃ s₁, s.resolve cfg u n = (s₁, (cfg.resolve u n).2) ∧ s₁.marks = s.marks := by
  unfold Session.resolve
  rcases cfg.resolve u n with ⟨warnings, d | b⟩
  · exact ⟨_, rfl, Session.marks_warnings warnings s⟩
  · exact ⟨_, rfl, Session.marks_warnings warnings s⟩

theorem bindAll_aside (u : FlowUnit) (ns : List Graph.Node) :
    Aside Session.marks (u.bindAll cfg ns) := by
  induction ns generalizing u with
  | nil => exact .pure u
  | cons n ns ih =>
    -- The rule for `bind` forgets the first outcome, and that outcome's fault is what must be no cycle.
    intro s
    obtain ⟨s₁, hstep, hmarks⟩ := resolve_eq_marks s cfg u n
    have hrest : Aside Session.marks (bindAll.liftExcept (cfg.resolve u n).2 >>= fun b =>
        FlowUnit.keep { u with bindings := u.bindings ++ [b] } >>= fun u => u.bindAll cfg ns) := by
      refine Aside.bind ?_ fun b => (keep_aside _).bind ih
      unfold bindAll.liftExcept
      split
      · exact .pure _
      · next d hd =>
        have hfault := (cfg.resolve_spots (P := fun _ => True) u trivial fun _ _ => trivial).2.1 d hd
        exact .throw hfault.2.acyclic
    obtain ⟨hview, herror⟩ := hrest s₁
    rw [bindAll, bind_apply, modifyGet_apply, hstep]
    exact ⟨hview.trans hmarks, herror⟩

theorem forward_aside (u : FlowUnit) : Aside Session.marks u.forward := by
  unfold forward
  exact (keep_aside _).bind fun _ =>
    (check_aside fun pos e h => (Graph.forwardingRows_fault h).2.acyclic).bind fun _ => .pure _

theorem encodeAll_aside (u : FlowUnit) : Aside Session.marks u.encodeAll := by
  unfold encodeAll
  refine (Aside.modify fun s => Session.marks_warnings _ s).bind fun _ => (keep_aside _).bind fun _ => ?_
  split
  · next d hd =>
    have hfault := (encodeFrom_spots (P := fun _ => True) fun _ _ _ _ => trivial).2 d hd
    exact .throw hfault.2.acyclic
  · exact .pure _

/-- All steps after the declarations of a unit are aside. -/
theorem compile_eq_bind (cfg : Config) :
    ∃ rest : FlowUnit → CompileM FlowUnit, (∀ v, Aside Session.marks (rest v)) ∧
      ∀ declared u, compile cfg declared u =
        u.declareAll cfg declared [] u.graph.declarations >>= rest := by
  refine ⟨_, fun v => ?_, fun declared u => rfl⟩
  refine (bindAll_aside v _).bind fun v => (forward_aside v).bind fun v => (encodeAll_aside v).bind fun v => ?_
  have hconnections : ∀ v : FlowUnit, Aside Session.marks (v.rows (v.graph.connectionRows v.types)) :=
    fun v => rows_aside fun _ _ h => (Graph.connectionRows_fault h).2.acyclic
  have hexports : ∀ (v : FlowUnit) (dir : Direction), Aside Session.marks (v.rows (v.graph.exportRows v.types dir)) :=
    fun v dir => rows_aside fun _ _ h => (Graph.exportRows_fault h).2.acyclic
  refine (hconnections v).bind fun _ => (keep_aside _).bind fun v => ?_
  refine (hexports v .input).bind fun _ => (keep_aside _).bind fun v => ?_
  exact (hexports v .output).bind fun _ => (keep_aside _).bind fun v => keep_aside _

theorem declareType_aside (u : FlowUnit) (d : Graph.Declaration) (symbol : String) :
    Aside Session.frame (u.declareType cfg d symbol) := by
  unfold declareType
  split
  · exact .throw nofun
  · split
    · exact .throw nofun
    · exact (addLocal_aside _ _ _).frame.bind fun _ =>
        (Aside.modifyGet fun _ => rfl).bind fun _ => (keep_aside _).frame

/-- What remains to be done once the file of a declaration is compiled. -/
def adopt (u : FlowUnit) (d : Graph.Declaration) (symbol : String) (child : FlowUnit) :
    CompileM FlowUnit := do
  let type := { child.type.getD .unknown with symbol }
  let child ← keep { child with type := some type }
  let u ← u.addLocal d type
  keep { u with subflows := u.subflows ++ [⟨d.name, child.id, d.pos⟩] }

theorem adopt_aside (u : FlowUnit) (d : Graph.Declaration) (symbol : String) (child : FlowUnit) :
    Aside Session.marks (u.adopt d symbol child) := by
  unfold adopt
  exact (keep_aside _).bind fun _ => (addLocal_aside _ _ _).bind fun _ => keep_aside _

theorem declareSubflow_apply (u : FlowUnit) (d : Graph.Declaration) (symbol : String) (s : Session) :
    u.declareSubflow cfg declared d symbol s =
      match cfg.findFile? s.rootDir d.contents with
      | none => (throw ⟨u.path, d.pos, .noFile d.contents d.name⟩ : CompileM FlowUnit) s
      | some path => (declared path d.name u d.pos >>= u.adopt d symbol) s := by
  have hget : (get : CompileM Session) s = (.ok s, s) := rfl
  rw [declareSubflow, bind_apply, hget]
  dsimp only
  generalize cfg.findFile? s.rootDir d.contents = file?
  cases file? <;> rfl

end FlowUnit

/-! ## Declared files -/

/-- Whether the file of a declaration is found, and compiling it somewhere among `files` has an outcome. -/
def Asks (cfg : Config) (declared : CompileDeclared) (files : String × List String)
    (d : Graph.Declaration) (outcome : Except Diagnostic FlowUnit) : Prop :=
  ∃ path u s, cfg.findFile? files.1 d.contents = some path ∧ s.files = files ∧
    (declared path d.name u d.pos s).1 = outcome

/-- Whether a step compiles the flows among some declarations: it leaves the open files alone, succeeds
only if they all do, and fails because of a cycle only if one of them does. -/
structure Asking {α : Type} (cfg : Config) (declared : CompileDeclared) (ds : List Graph.Declaration)
    (x : CompileM α) : Prop where
  keeps : Keeps x
  ok : ∀ s a, (x s).1 = .ok a → ∀ d ∈ ds, d.kind = flowKind →
    ∃ child, Asks cfg declared s.files d (.ok child)
  error : ∀ s e, (x s).1 = .error e → e.kind = .declarationCycle →
    ∃ d ∈ ds, d.kind = flowKind ∧ Asks cfg declared s.files d (.error e)

section Asking

variable {α β : Type} {cfg : Config} {declared : CompileDeclared} {ds : List Graph.Declaration}
  {x : CompileM α}

theorem CompileM.Aside.asking (h : Aside Session.frame x) (hds : ∀ d ∈ ds, d.kind ≠ flowKind) :
    Asking cfg declared ds x where
  keeps := h.keeps
  ok _ _ _ d hd hk := absurd hk (hds d hd)
  error s e he hk := absurd hk ((h s).2 e he)

theorem Asking.bind {es : List Graph.Declaration} {f : α → CompileM β} (hx : Asking cfg declared ds x)
    (hf : ∀ a, Asking cfg declared es (f a)) : Asking cfg declared (ds ++ es) (x >>= f) := by
  refine ⟨hx.keeps.bind fun a => (hf a).keeps, fun s b hb d hd hk => ?_, fun s e he hk => ?_⟩
  · have hs := hx.keeps.files s
    rw [bind_apply] at hb
    rcases h : x s with ⟨e | a, s₁⟩
    · rw [h] at hb
      cases hb
    · rw [h] at hb hs
      rcases List.mem_append.mp hd with hd | hd
      · exact hx.ok s a (by rw [h]) d hd hk
      · rw [← hs]
        exact (hf a).ok s₁ b hb d hd hk
  · have hs := hx.keeps.files s
    rw [bind_apply] at he
    rcases h : x s with ⟨e₁ | a, s₁⟩
    · rw [h] at he
      cases he
      obtain ⟨d, hd, hask⟩ := hx.error s e (by rw [h]) hk
      exact ⟨d, List.mem_append_left _ hd, hask⟩
    · rw [h] at he hs
      obtain ⟨d, hd, hask⟩ := (hf a).error s₁ e he hk
      rw [← hs]
      exact ⟨d, List.mem_append_right _ hd, hask⟩

namespace FlowUnit

/-- The one flow that declaring a flow compiles is that of the declaration. -/
theorem declareSubflow_asking (hdeclared : ∀ path name u pos, Keeps (declared path name u pos))
    (u : FlowUnit) {d : Graph.Declaration} (hd : d.kind = flowKind) (symbol : String) :
    Asking cfg declared [d] (u.declareSubflow cfg declared d symbol) := by
  have hadopt := fun child => (adopt_aside u d symbol child).frame
  refine ⟨fun s => ?_, fun s v hok => ?_, fun s e herror hk => ?_⟩
  · rw [declareSubflow_apply]
    split
    · rfl
    · exact ((hdeclared _ _ _ _).bind fun child => (hadopt child).keeps) s
  · rw [declareSubflow_apply] at hok
    cases hfile : cfg.findFile? s.rootDir d.contents with
    | none =>
      rw [hfile] at hok
      cases hok
    | some path =>
      simp only [hfile, bind_apply] at hok
      rcases hrun : declared path d.name u d.pos s with ⟨e | child, s₁⟩
      · rw [hrun] at hok
        cases hok
      · simp only [List.mem_singleton, forall_eq]
        exact fun _ => ⟨child, path, u, s, hfile, rfl, by rw [hrun]⟩
  · rw [declareSubflow_apply] at herror
    cases hfile : cfg.findFile? s.rootDir d.contents with
    | none =>
      rw [hfile] at herror
      cases herror
      cases hk
    | some path =>
      simp only [hfile, bind_apply] at herror
      rcases hrun : declared path d.name u d.pos s with ⟨e₁ | child, s₁⟩
      · rw [hrun] at herror
        cases herror
        exact ⟨d, List.mem_singleton_self d, hd, path, u, s, hfile, rfl, by rw [hrun]⟩
      · rw [hrun] at herror
        exact absurd hk ((hadopt child s₁).2 e herror)

theorem declareAll_asking (hdeclared : ∀ path name u pos, Keeps (declared path name u pos))
    (names : Naming.Counts) (u : FlowUnit) (ds : List Graph.Declaration) :
    Asking cfg declared ds (u.declareAll cfg declared names ds) := by
  induction ds generalizing names u with
  | nil => exact (Aside.pure u).asking nofun
  | cons d ds ih =>
    unfold declareAll
    dsimp only
    split
    · next hk => exact (declareSubflow_asking hdeclared u hk _).bind fun v => ih _ v
    · next hk =>
      have hflow : ∀ e ∈ [d], e.kind ≠ flowKind := by simpa using hk
      exact ((declareType_aside u d _).asking hflow).bind fun v => ih _ v

theorem compile_asking (hdeclared : ∀ path name u pos, Keeps (declared path name u pos))
    (u : FlowUnit) : Asking cfg declared u.graph.declarations (u.compile cfg declared) := by
  obtain ⟨rest, hrest, heq⟩ := compile_eq_bind cfg
  have hnone : ∀ v, Asking cfg declared [] (rest v) := fun v => (hrest v).frame.asking nofun
  have hall := (declareAll_asking hdeclared [] u u.graph.declarations).bind hnone
  rwa [List.append_nil, ← heq] at hall

end FlowUnit

namespace Config

variable {graph : Graph}

theorem compileText_apply (hparse : Graph.parse text = .ok graph) (name path : String) (parent : Option Nat)
    (s : Session) :
    cfg.compileText declared name path text parent s =
      (s.addUnit name path graph parent).2.compile cfg declared (s.addUnit name path graph parent).1 := by
  rw [compileText, hparse]
  dsimp only
  rw [bind_apply, modifyGet_apply]
  rfl

theorem compileText_asking (hdeclared : ∀ path name u pos, Keeps (declared path name u pos))
    (hparse : Graph.parse text = .ok graph) (name path : String) (parent : Option Nat) :
    Asking cfg declared graph.declarations (cfg.compileText declared name path text parent) := by
  refine ⟨fun s => ?_, fun s u hok => ?_, fun s e herror => ?_⟩
  · rw [compileText_apply hparse]
    exact (FlowUnit.compile_asking hdeclared _).keeps _
  · rw [compileText_apply hparse] at hok
    exact (FlowUnit.compile_asking hdeclared _).ok _ u hok
  · rw [compileText_apply hparse] at herror
    exact (FlowUnit.compile_asking hdeclared _).error _ e herror

/-- A text that does not parse is not compiled, and that is no cycle. -/
theorem compileText_aside {e : ParseError} (hparse : Graph.parse text = .error e) (name path : String)
    (parent : Option Nat) : Aside Session.marks (cfg.compileText declared name path text parent) := by
  rw [compileText, hparse]
  exact .throw nofun

theorem compileText_keeps (hdeclared : ∀ path name u pos, Keeps (declared path name u pos))
    (name path text : String) (parent : Option Nat) :
    Keeps (cfg.compileText declared name path text parent) := by
  cases hparse : Graph.parse text with
  | error e => exact (compileText_aside hparse name path parent).frame.keeps
  | ok graph => exact (compileText_asking hdeclared hparse name path parent).keeps

end Config

end Asking

section Agree

variable {cfg : Config} {declared declared' : CompileDeclared} {files : String × List String}

namespace FlowUnit

theorem declareSubflow_agree (hkeeps : ∀ path name u pos, Keeps (declared path name u pos))
    (hagree : ∀ path name u pos, Agree files (declared path name u pos) (declared' path name u pos))
    (u : FlowUnit) (d : Graph.Declaration) (symbol : String) :
    Agree files (u.declareSubflow cfg declared d symbol) (u.declareSubflow cfg declared' d symbol) := by
  intro s hs
  rw [declareSubflow_apply, declareSubflow_apply]
  split
  · rfl
  · exact (Agree.bind (hkeeps _ _ _ _) (hagree _ _ _ _) fun child => .refl _) s hs

theorem declareAll_agree (hkeeps : ∀ path name u pos, Keeps (declared path name u pos))
    (hagree : ∀ path name u pos, Agree files (declared path name u pos) (declared' path name u pos))
    (names : Naming.Counts) (u : FlowUnit) (ds : List Graph.Declaration) :
    Agree files (u.declareAll cfg declared names ds) (u.declareAll cfg declared' names ds) := by
  induction ds generalizing names u with
  | nil => exact .refl _
  | cons d ds ih =>
    unfold declareAll
    dsimp only
    split
    · next hk =>
      exact Agree.bind (declareSubflow_asking hkeeps u hk _).keeps
        (declareSubflow_agree hkeeps hagree u d _) fun v => ih _ v
    · exact Agree.bind (declareType_aside u d _).keeps (.refl _) fun v => ih _ v

end FlowUnit

/-- What compiling a text does depends only on how declared files are compiled while the same files are
open. -/
theorem Config.compileText_agree (cfg : Config)
    (hkeeps : ∀ path name u pos, Keeps (declared path name u pos))
    (hagree : ∀ path name u pos, Agree files (declared path name u pos) (declared' path name u pos))
    (name path text : String) (parent : Option Nat) :
    Agree files (cfg.compileText declared name path text parent)
      (cfg.compileText declared' name path text parent) := by
  intro s hs
  cases hparse : Graph.parse text with
  | error e =>
    simp only [compileText, hparse]
  | ok graph =>
    obtain ⟨rest, hrest, heq⟩ := FlowUnit.compile_eq_bind cfg
    rw [compileText_apply hparse, compileText_apply hparse, heq, heq]
    exact Agree.bind (FlowUnit.declareAll_asking hkeeps [] _ _).keeps
      (FlowUnit.declareAll_agree hkeeps hagree [] _ _) (fun v => .refl _) _ hs

end Agree

/-! ## Open files -/

namespace Config

variable {cfg : Config} {declared : CompileDeclared}

theorem whileOpen_apply {α : Type} (path : String) (step : CompileM α) (s : Session) :
    whileOpen path step s =
      ((step (s.openFile path)).1, (step (s.openFile path)).2.closeFile path) := rfl

theorem whileOpen_frame {α : Type} {path : String} {step : CompileM α} (hstep : Keeps step)
    {s : Session} (hpath : path ∉ s.opened) : (whileOpen path step s).2.frame = s.frame := by
  have hs := hstep (s.openFile path)
  have hopened : (step (s.openFile path)).2.opened = path :: s.opened := congrArg (·.1.2) hs
  have hdir : (step (s.openFile path)).2.rootDir = s.rootDir := congrArg (·.1.1) hs
  have hbegun : (step (s.openFile path)).2.begun = s.begun := congrArg Prod.snd hs
  have hfilter : s.opened.filter (· != path) = s.opened :=
    List.filter_eq_self.mpr fun p hp => bne_iff_ne.mpr (ne_of_mem_of_not_mem hp hpath)
  simp [whileOpen_apply, Session.frame, Session.files, Session.closeFile, hopened, hdir, hbegun, hfilter]

theorem compileStored_apply (path name : String) (parent : Option Nat) (declaredIn : String)
    (pos : Position) (s : Session) :
    cfg.compileStored declared path name parent declaredIn pos s =
      if cfg.storage.absolute path ∈ s.opened then (.error ⟨declaredIn, pos, .cycle path⟩, s)
      else match cfg.storage.read path with
        | .error e => (.error ⟨path, .none, .unreadable e⟩, s)
        | .ok text => whileOpen (cfg.storage.absolute path)
            (cfg.compileText declared name path text parent) s := by
  have hget : (get : CompileM Session) s = (.ok s, s) := rfl
  rw [compileStored, bind_apply, hget]
  dsimp only
  by_cases hopen : cfg.storage.absolute path ∈ s.opened
  · rw [if_pos hopen, if_pos (List.contains_iff_mem.mpr hopen)]
    rfl
  · rw [if_neg hopen, if_neg (mt List.contains_iff_mem.mp hopen)]
    generalize cfg.storage.read path = content
    cases content <;> rfl

/-- A declared file is closed again however its compilation ends. -/
theorem compileStored_keeps (hdeclared : ∀ path name u pos, Keeps (declared path name u pos))
    (path name : String) (parent : Option Nat) (declaredIn : String) (pos : Position) :
    Keeps (cfg.compileStored declared path name parent declaredIn pos) := by
  intro s
  rw [compileStored_apply]
  split
  · rfl
  · next hopen =>
    split
    · rfl
    · exact whileOpen_frame (compileText_keeps hdeclared _ _ _ _) hopen

theorem compileDeclared_keeps (depth : Nat) (path name : String) (u : FlowUnit) (pos : Position) :
    Keeps (cfg.compileDeclared depth path name u pos) := by
  induction depth generalizing path name u pos with
  | zero => exact fun _ => rfl
  | succ depth ih => exact compileStored_keeps ih path name _ _ pos

end Config

end FlowCompiler
