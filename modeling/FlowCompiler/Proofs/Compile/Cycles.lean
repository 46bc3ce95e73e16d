import FlowCompiler.Proofs.Compile.Frames
import FlowCompiler.Proofs.Storage.Places

/-!
# Cycles of declared files

A flow declares other flows, in files that may declare more. A file is open while it is compiled, and a
declaration of an open file is a cycle. Files are told apart by the absolute forms of their paths, however
the declarations spell them.

Main statement: `Origin.compile_cycles`. A compilation succeeds only if no file that can be reached from
the first one declares itself, directly or through others; it fails because of a cycle only if a chain of
declarations from the first file leads back into itself; the depth that it is given never runs out, since
each file opened takes one from the stored files that are not open (`Config.room`); and no file is open
when it ends.
-/

namespace FlowCompiler

open List CompileM Relation

variable {opened : List String} {declared : CompileDeclared} {u : FlowUnit} {parent : Option Nat}
  {e : Diagnostic} {n : Nat}

/-- Where a compilation begins: at a stored file, or at a text that stands for the file at a path. -/
inductive Origin where
  | file (path : String)
  | given (path text : String)
deriving DecidableEq, Repr

namespace Config

/-- Compiles declared files down to a depth, and does something else below it. -/
def nested (cfg : Config) (below : CompileDeclared) : Nat → CompileDeclared
  | 0 => below
  | depth + 1 => fun path name u pos =>
    cfg.compileStored (cfg.nested below depth) path name (some u.id) u.path pos

/-- How many stored files can still be opened. -/
def room (cfg : Config) (opened : List String) : Nat := (cfg.storage.paths \ opened.toFinset).card

end Config

namespace Origin

variable (o : Origin) (cfg : Config)

/-- The path of the first file. -/
def path : Origin → String
  | file path => path
  | given path _ => path

/-- The absolute path of the first file. -/
def root : String := cfg.storage.absolute o.path

/-- The text of a file. -/
def source? (f : String) : Option String :=
  match o with
  | file _ => (cfg.storage.read f).toOption
  | given path text =>
    if f = cfg.storage.absolute path then some text else (cfg.storage.read f).toOption

/-- Whether a file declares another one as a flow. Both are given by their absolute paths. -/
def Declares (f g : String) : Prop :=
  ∃ text graph d path, o.source? cfg f = some text ∧ Graph.parse text = .ok graph ∧
    d ∈ graph.declarations ∧ d.kind = flowKind ∧
    cfg.findFile? (Path.dir (o.root cfg)) d.contents = some path ∧ g = cfg.storage.absolute path

/-- Compiles the first file. -/
def step (declared : CompileDeclared) : CompileM FlowUnit :=
  match o with
  | file path => cfg.compileStored declared path (Path.stem path) none "" .none
  | given path text => Config.whileOpen (cfg.storage.absolute path)
      (cfg.compileText declared (Path.stem path) path text none)

/-- Compiles the first file, and the declared files as `declared` does. -/
def compileWith (declared : CompileDeclared) (s : Session) : Session × Except CompileError FlowUnit :=
  s.runFrom cfg o.path (o.step cfg declared)

/-- Compiles the first file and all files that it declares. -/
def compile (s : Session) : Session × Except CompileError FlowUnit :=
  match o with
  | file path => s.compileFile cfg path
  | given path text => s.compileText cfg path text

end Origin

/-! ## Depth -/

namespace Config

variable {cfg : Config}

theorem room_cons_lt {path : String} (hpath : path ∈ cfg.storage.paths) (hclosed : path ∉ opened) :
    cfg.room (path :: opened) < cfg.room opened := by
  refine Finset.card_lt_card (Finset.ssubset_iff_of_subset ?_ |>.mpr ⟨path, ?_, ?_⟩)
  · rw [toFinset_cons]
    exact Finset.sdiff_subset_sdiff (Finset.Subset.refl _) (Finset.subset_insert _ _)
  · simp [hpath, hclosed]
  · simp

theorem room_lt_depth (opened : List String) : cfg.room opened < cfg.depth := by
  have hpaths := cfg.storage.card_paths_le
  have hroom : cfg.room opened ≤ cfg.storage.paths.card := Finset.card_le_card Finset.sdiff_subset
  unfold depth
  omega

/-- What is below a depth does not matter if there is no room to get there. -/
theorem nested_agree (hs : cfg.storage.Settled) (below : CompileDeclared) {m : Nat} {dir : String}
    (hn : cfg.room opened < n) (hm : cfg.room opened < m) (path name : String) (u : FlowUnit)
    (pos : Position) :
    Agree (dir, opened) (cfg.compileDeclared n path name u pos) (cfg.nested below m path name u pos) := by
  induction n generalizing m opened path name u pos with
  | zero => omega
  | succ n ih =>
    obtain ⟨m, rfl⟩ := Nat.exists_eq_succ_of_ne_zero (Nat.ne_zero_of_lt hm)
    intro s hfiles
    obtain ⟨rfl, rfl⟩ := Prod.mk.inj hfiles
    simp only [compileDeclared, nested, compileStored_apply]
    split
    · rfl
    · next hclosed =>
      cases hread : cfg.storage.read path with
      | error e => rfl
      | ok text =>
        have hroom := room_cons_lt (Storage.absolute_mem_paths hs hread) hclosed
        have hbelow := ih (lt_of_lt_of_le hroom (Nat.le_of_lt_succ hn))
          (lt_of_lt_of_le hroom (Nat.le_of_lt_succ hm))
        have htext := cfg.compileText_agree (compileDeclared_keeps n) hbelow name path text
          (some u.id) (s.openFile (cfg.storage.absolute path)) rfl
        simp only [whileOpen_apply, htext]

end Config

namespace Origin

variable {o : Origin} {cfg : Config} {s : Session}

theorem compile_eq_compileWith : o.compile cfg s = o.compileWith cfg (cfg.compileDeclared cfg.depth) s := by
  cases o <;> rfl

/-- A file that is not the first one has the text that is stored. -/
theorem source?_of_read (hs : cfg.storage.Settled) {path text : String}
    (hread : cfg.storage.read path = .ok text) (hroot : cfg.storage.absolute path ≠ o.root cfg) :
    o.source? cfg (cfg.storage.absolute path) = some text := by
  have habsolute := Storage.read_absolute hs hread
  cases o with
  | file first => simp [source?, habsolute, Except.toOption]
  | given first t => simp [source?, show cfg.storage.absolute path ≠ cfg.storage.absolute first from hroot,
      habsolute, Except.toOption]

variable (o cfg s) in
/-- The session in which the text of the first file is compiled. -/
def begun : Session :=
  { s with rootDir := Path.dir (o.root cfg) }.openFile (o.root cfg)

theorem begun_files (hopened : s.opened = []) :
    (o.begun cfg s).files = (Path.dir (o.root cfg), [o.root cfg]) := by
  simp [begun, Session.files, Session.openFile, hopened]

/-- What comes of the first file once its text is compiled. -/
def finish (path : String) (run : Except Diagnostic FlowUnit × Session) :
    Session × Except CompileError FlowUnit :=
  (run.2.closeFile path, run.1.mapError .diagnostic)

/-- A session with units does not start again. -/
theorem compileWith_of_units (o : Origin) {us : List FlowUnit} (hunits : s.units = u :: us)
    (declared : CompileDeclared) : o.compileWith cfg declared s = (s, .error (.alreadyCompiled u.path)) := by
  simp [compileWith, Session.runFrom, Session.start, hunits]

/-- A session without units runs a compilation from the directory of the first file. -/
theorem compileWith_eq (o : Origin) (hunits : s.units = []) (declared : CompileDeclared) :
    o.compileWith cfg declared s =
      ((o.step cfg declared { s with rootDir := Path.dir (o.root cfg) }).2,
        (o.step cfg declared { s with rootDir := Path.dir (o.root cfg) }).1.mapError .diagnostic) := by
  simp only [compileWith, Session.runFrom, Session.start, hunits, root]
  rcases o.step cfg declared _ with ⟨d | u, s₁⟩
  · rfl
  · rfl

/-- A compilation ends before the text of the first file is compiled, or consists in that. -/
theorem compileWith_cases (o : Origin) (hs : cfg.storage.Settled) (hopened : s.opened = []) :
    (∃ s₁ e, s₁.opened = [] ∧ (∀ d, e = .diagnostic d → d.kind ≠ .declarationCycle) ∧
      ∀ declared, o.compileWith cfg declared s = (s₁, .error e)) ∨
    ∃ text, o.source? cfg (o.root cfg) = some text ∧ ∀ declared, o.compileWith cfg declared s =
      finish (o.root cfg) (cfg.compileText declared (Path.stem o.path) o.path text none (o.begun cfg s)) := by
  cases hunits : s.units with
  | cons u us =>
    exact .inl ⟨s, .alreadyCompiled u.path, hopened, nofun, o.compileWith_of_units hunits⟩
  | nil =>
    cases o with
    | given path text =>
      exact .inr ⟨text, by simp [source?, root, Origin.path], compileWith_eq _ hunits⟩
    | file path =>
      cases hread : cfg.storage.read path with
      | error e =>
        refine .inl ⟨{ s with rootDir := Path.dir (root (.file path) cfg) }, .diagnostic ⟨path, .none, .unreadable e⟩, hopened, ?_,
          fun declared => ?_⟩
        · rintro d ⟨⟩
          exact nofun
        · rw [compileWith_eq _ hunits, step, Config.compileStored_apply]
          simp [hopened, hread, Except.mapError]
      | ok text =>
        refine .inr ⟨text, ?_, fun declared => ?_⟩
        · simp [source?, root, Origin.path, Storage.read_absolute hs hread, Except.toOption]
        · rw [compileWith_eq _ hunits, step, Config.compileStored_apply]
          rw [if_neg (hopened ▸ not_mem_nil), hread]
          rfl

/-! ## Files that compile -/

/-- A file whose text compiles starts no endless chain of declarations if no file that it declares does. -/
theorem acc_of_compileText {f text name path : String}
    (hkeeps : ∀ path name u pos, Keeps (declared path name u pos))
    (hdeclared : ∀ path name u pos s child, s.files = (Path.dir (o.root cfg), opened) →
      (declared path name u pos s).1 = .ok child →
      Acc (flip (o.Declares cfg)) (cfg.storage.absolute path)) (hsource : o.source? cfg f = some text)
    (hfiles : s.files = (Path.dir (o.root cfg), opened))
    (h : (cfg.compileText declared name path text parent s).1 = .ok u) : Acc (flip (o.Declares cfg)) f := by
  refine ⟨f, ?_⟩
  rintro _ ⟨text', graph, d, path', hsource', hparse, hd, hkind, hfile, rfl⟩
  obtain rfl : text = text' := Option.some.inj (hsource.symm.trans hsource')
  obtain ⟨child, path, v, s₁, hfound, hfiles₁, hrun⟩ :=
    (Config.compileText_asking hkeeps hparse name path parent).ok s u h d hd hkind
  obtain rfl : path = path' := by
    simp only [hfiles] at hfound
    exact Option.some.inj (hfound.symm.trans hfile)
  exact hdeclared path d.name v d.pos s₁ child (hfiles₁.trans hfiles) hrun

theorem acc_of_compileDeclared (hs : cfg.storage.Settled) (hroot : o.root cfg ∈ opened) (n : Nat)
    (path name : String) (u : FlowUnit) (pos : Position) (s : Session) (child : FlowUnit)
    (hfiles : s.files = (Path.dir (o.root cfg), opened))
    (h : (cfg.compileDeclared n path name u pos s).1 = .ok child) :
    Acc (flip (o.Declares cfg)) (cfg.storage.absolute path) := by
  induction n generalizing path name u pos s child opened with
  | zero => cases h
  | succ n ih =>
    obtain ⟨hdir, rfl⟩ := Prod.mk.inj hfiles
    simp only [Config.compileDeclared, Config.compileStored_apply] at h
    split at h
    · cases h
    · next hclosed =>
      cases hread : cfg.storage.read path with
      | error e =>
        rw [hread] at h
        cases h
      | ok text =>
        rw [hread] at h
        have hother : cfg.storage.absolute path ≠ o.root cfg := fun heq => hclosed (heq ▸ hroot)
        have hopen : (s.openFile (cfg.storage.absolute path)).files =
            (Path.dir (o.root cfg), cfg.storage.absolute path :: s.opened) := by rw [← hdir]; rfl
        exact acc_of_compileText (Config.compileDeclared_keeps n)
          (ih (mem_cons_of_mem _ hroot)) (source?_of_read hs hread hother) hopen h

/-- No file that is reached from one without endless chains declares itself, however indirectly. -/
theorem not_transGen_of_acc {α : Type} {r : α → α → Prop} {a b : α} (ha : Acc (flip r) a)
    (hab : ReflTransGen r a b) : ¬ TransGen r b b := by
  have hb : Acc (flip r) b := by
    induction hab with
    | refl => exact ha
    | tail _ hstep ih => exact ih.inv hstep
  intro hcycle
  have hirrefl : ∀ c, Acc (TransGen (flip r)) c → ¬ TransGen (flip r) c c := by
    intro c hc
    induction hc with
    | intro c _ ih => exact fun hcc => ih c hcc hcc
  exact hirrefl b hb.transGen (transGen_swap.mpr hcycle)

/-! ## Cycles -/

variable (o cfg) in
/-- Whether a chain of declarations that starts at the first file ends with a file that it has passed. -/
def Closes (path : String) : Prop :=
  ∃ fs, (o.root cfg :: (fs ++ [cfg.storage.absolute path])).IsChain (o.Declares cfg) ∧
    cfg.storage.absolute path ∈ o.root cfg :: fs

/-- A text whose compilation fails because of a cycle declares a file whose compilation does. -/
theorem closes_of_compileText {f text name path : String}
    (hkeeps : ∀ path name u pos, Keeps (declared path name u pos))
    (hdeclared : ∀ path name u pos s, o.Declares cfg f (cfg.storage.absolute path) →
      s.files = (Path.dir (o.root cfg), opened) → (declared path name u pos s).1 = .error e →
      ∃ path', e.cause = .cycle path' ∧ o.Closes cfg path') (hsource : o.source? cfg f = some text)
    (hfiles : s.files = (Path.dir (o.root cfg), opened))
    (h : (cfg.compileText declared name path text parent s).1 = .error e)
    (hcycle : e.kind = .declarationCycle) : ∃ path', e.cause = .cycle path' ∧ o.Closes cfg path' := by
  cases hparse : Graph.parse text with
  | error e' => exact absurd hcycle ((Config.compileText_aside hparse name path parent s).2 e h)
  | ok graph =>
    obtain ⟨d, hd, hkind, path', u, s₁, hfile, hfiles₁, hrun⟩ :=
      (Config.compileText_asking hkeeps hparse name path parent).error s e h hcycle
    simp only [hfiles] at hfile
    have hdeclares : o.Declares cfg f (cfg.storage.absolute path') :=
      ⟨text, graph, d, path', hsource, hparse, hd, hkind, hfile, rfl⟩
    exact hdeclared path' d.name u d.pos s₁ hdeclares (hfiles₁.trans hfiles) hrun

/-- The open files are a chain of declarations, the last one first. -/
theorem closes_of_compileDeclared (hs : cfg.storage.Settled) (hcycle : e.kind = .declarationCycle)
    {fs : List String} (hopened : opened.reverse = o.root cfg :: fs) (hroom : cfg.room opened < n)
    (path name : String) (u : FlowUnit) (pos : Position) (s : Session)
    (hchain : (o.root cfg :: (fs ++ [cfg.storage.absolute path])).IsChain (o.Declares cfg))
    (hfiles : s.files = (Path.dir (o.root cfg), opened))
    (h : (cfg.compileDeclared n path name u pos s).1 = .error e) :
    ∃ path', e.cause = .cycle path' ∧ o.Closes cfg path' := by
  induction n generalizing path name u pos s fs opened with
  | zero => omega
  | succ n ih =>
    obtain ⟨hdir, rfl⟩ := Prod.mk.inj hfiles
    simp only [Config.compileDeclared, Config.compileStored_apply] at h
    split at h
    · next hopen =>
      cases h
      refine ⟨path, rfl, fs, hchain, ?_⟩
      rwa [← hopened, mem_reverse]
    · next hclosed =>
      cases hread : cfg.storage.read path with
      | error e' =>
        rw [hread] at h
        cases h
        cases hcycle
      | ok text =>
        rw [hread] at h
        have hroot : o.root cfg ∈ s.opened := by
          rw [← mem_reverse, hopened]
          exact mem_cons_self
        have hother : cfg.storage.absolute path ≠ o.root cfg := fun heq => hclosed (heq ▸ hroot)
        have hopen : (s.openFile (cfg.storage.absolute path)).files =
            (Path.dir (o.root cfg), cfg.storage.absolute path :: s.opened) := by rw [← hdir]; rfl
        have hopened' : (cfg.storage.absolute path :: s.opened).reverse =
            o.root cfg :: (fs ++ [cfg.storage.absolute path]) := by simp [hopened]
        have hlt := Config.room_cons_lt (Storage.absolute_mem_paths hs hread) hclosed
        refine closes_of_compileText (Config.compileDeclared_keeps n)
          (fun path' name' v pos' s₁ hdeclares => ?_) (source?_of_read hs hread hother) hopen h hcycle
        refine ih hopened' (lt_of_lt_of_le hlt (Nat.le_of_lt_succ hroom)) path' name' v pos' s₁ ?_
        have hlast : (o.root cfg :: (fs ++ [cfg.storage.absolute path])).getLast? =
            some (cfg.storage.absolute path) := getLast?_concat (l := o.root cfg :: fs)
        exact isChain_append.mpr
          ⟨hchain, isChain_singleton _, by simpa [hlast] using hdeclares⟩

/-- A chain that passes a file twice is a cycle that the first file reaches. -/
theorem Closes.cycle {path : String} (h : o.Closes cfg path) :
    ∃ f, ReflTransGen (o.Declares cfg) (o.root cfg) f ∧ TransGen (o.Declares cfg) f f := by
  obtain ⟨fs, hchain, hmem⟩ := h
  have hpairwise : (o.root cfg :: (fs ++ [cfg.storage.absolute path])).Pairwise
      (TransGen (o.Declares cfg)) :=
    isChain_iff_pairwise.mp (hchain.imp fun _ _ => TransGen.single)
  rw [← cons_append] at hpairwise
  have hlast : ∀ f ∈ o.root cfg :: fs, TransGen (o.Declares cfg) f (cfg.storage.absolute path) :=
    fun f hf => (pairwise_append.mp hpairwise).2.2 f hf _ (mem_singleton_self _)
  exact ⟨_, (hlast _ mem_cons_self).to_reflTransGen, hlast _ hmem⟩

/-- A compilation that succeeds meets no endless chain of declarations. -/
theorem acc_of_compile (hs : cfg.storage.Settled) (hopened : s.opened = [])
    (h : (o.compile cfg s).2 = .ok u) : Acc (flip (o.Declares cfg)) (o.root cfg) := by
  rw [compile_eq_compileWith] at h
  obtain ⟨s₁, e, -, -, hrun⟩ | ⟨text, hsource, hrun⟩ := o.compileWith_cases hs hopened
  · rw [hrun] at h
    cases h
  · rw [hrun, finish] at h
    rcases htext : (cfg.compileText (cfg.compileDeclared cfg.depth) (Path.stem o.path) o.path text none
      (o.begun cfg s)).1 with e | v
    · rw [htext] at h
      cases h
    · exact acc_of_compileText (Config.compileDeclared_keeps _)
        (acc_of_compileDeclared hs (mem_singleton_self _) _) hsource (begun_files hopened) htext

/-- A compilation that fails because of a cycle has followed a chain of declarations into itself. -/
theorem closes_of_compile (hs : cfg.storage.Settled) (hopened : s.opened = []) {d : Diagnostic}
    (h : (o.compile cfg s).2 = .error (.diagnostic d)) (hcycle : d.kind = .declarationCycle) :
    ∃ path, d.cause = .cycle path ∧ o.Closes cfg path := by
  rw [compile_eq_compileWith] at h
  obtain ⟨s₁, e, -, hother, hrun⟩ | ⟨text, hsource, hrun⟩ := o.compileWith_cases hs hopened
  · rw [hrun] at h
    cases h
    exact absurd hcycle (hother d rfl)
  · rw [hrun, finish] at h
    rcases htext : (cfg.compileText (cfg.compileDeclared cfg.depth) (Path.stem o.path) o.path text none
      (o.begun cfg s)).1 with e | v
    · rw [htext] at h
      cases h
      refine closes_of_compileText (Config.compileDeclared_keeps _)
        (fun path name u pos s₁ hdeclares => ?_) hsource (begun_files hopened) htext hcycle
      have hchain : (o.root cfg :: ([] ++ [cfg.storage.absolute path])).IsChain (o.Declares cfg) := by
        simpa using hdeclares
      exact closes_of_compileDeclared hs hcycle rfl (Config.room_lt_depth _) path name u pos s₁ hchain
    · rw [htext] at h
      cases h

theorem opened_of_compile (hs : cfg.storage.Settled) (hopened : s.opened = []) :
    (o.compile cfg s).1.opened = [] := by
  rw [compile_eq_compileWith]
  obtain ⟨s₁, e, hs₁, -, hrun⟩ | ⟨text, -, hrun⟩ := o.compileWith_cases hs hopened
  · rw [hrun]
    exact hs₁
  · have hkeeps : Keeps (cfg.compileText (cfg.compileDeclared cfg.depth) (Path.stem o.path) o.path
        text none) := Config.compileText_keeps (Config.compileDeclared_keeps cfg.depth) _ _ _ _
    have hfiles := (hkeeps.files (o.begun cfg s)).trans (begun_files hopened)
    rw [hrun, finish, Session.closeFile, (Prod.mk.inj hfiles).2]
    simp

theorem step_begun (hdeclared : ∀ path name u pos, Keeps (declared path name u pos)) (o : Origin) (s : Session) :
    (o.step cfg declared s).2.begun = s.begun := by
  cases o with
  | file path =>
    have hkeeps : Keeps (cfg.compileStored declared path (Path.stem path) none "" .none) :=
      Config.compileStored_keeps hdeclared _ _ _ _ _
    exact hkeeps.begun s
  | given path text =>
    have hkeeps : Keeps (cfg.compileText declared (Path.stem path) path text none) :=
      Config.compileText_keeps hdeclared _ _ _ _
    rw [step, Config.whileOpen_apply]
    exact hkeeps.begun (s.openFile (cfg.storage.absolute path))

/-- A compilation asks no metatype for code. -/
theorem begun_of_compile (o : Origin) (cfg : Config) (s : Session) : (o.compile cfg s).1.begun = s.begun := by
  rw [compile_eq_compileWith]
  cases hunits : s.units with
  | cons u us => rw [o.compileWith_of_units hunits]
  | nil =>
    rw [compileWith_eq _ hunits, step_begun (Config.compileDeclared_keeps cfg.depth)]

/-- The depth of a compilation never runs out. -/
theorem compileWith_nested (hs : cfg.storage.Settled) (hopened : s.opened = []) (below : CompileDeclared)
    (hn : cfg.depth ≤ n) : o.compileWith cfg (cfg.nested below n) s = o.compile cfg s := by
  rw [compile_eq_compileWith]
  obtain ⟨s₁, e, -, -, hrun⟩ | ⟨text, -, hrun⟩ := o.compileWith_cases hs hopened
  · rw [hrun, hrun]
  · have hroom : cfg.room [o.root cfg] < cfg.depth := Config.room_lt_depth _
    have htext := cfg.compileText_agree (Config.compileDeclared_keeps cfg.depth)
      (Config.nested_agree hs below hroom (lt_of_lt_of_le hroom hn)) (Path.stem o.path) o.path text none
      (o.begun cfg s) (begun_files hopened)
    rw [hrun, hrun, htext]

/-- Cycles are found exactly. In a session without open files, and in a working directory that is there: a
compilation goes no deeper than its depth, whatever would be done below it; it leaves no file open; if it
succeeds, no file that the first one reaches is part of a cycle; if it fails because of a cycle, a chain of
declarations from the first file ends with a file that it has passed, and that is the file it names; and so
files that are declared many times, but never inside themselves, are no cycle. -/
theorem compile_cycles (o : Origin) (cfg : Config) (s : Session) (hs : cfg.storage.Settled)
    (hopened : s.opened = []) :
    (∀ below n, cfg.depth ≤ n → o.compileWith cfg (cfg.nested below n) s = o.compile cfg s) ∧
    (o.compile cfg s).1.opened = [] ∧
    (∀ u, (o.compile cfg s).2 = .ok u → ∀ f, ReflTransGen (o.Declares cfg) (o.root cfg) f →
      ¬ TransGen (o.Declares cfg) f f) ∧
    (∀ d, (o.compile cfg s).2 = .error (.diagnostic d) → d.kind = .declarationCycle →
      ∃ path fs, d.cause = .cycle path ∧
        (o.root cfg :: (fs ++ [cfg.storage.absolute path])).IsChain (o.Declares cfg) ∧
        cfg.storage.absolute path ∈ o.root cfg :: fs) ∧
    ((∀ f, ReflTransGen (o.Declares cfg) (o.root cfg) f → ¬ TransGen (o.Declares cfg) f f) →
      ∀ d, (o.compile cfg s).2 = .error (.diagnostic d) → d.kind ≠ .declarationCycle) := by
  refine ⟨fun below n hn => compileWith_nested hs hopened below hn, opened_of_compile hs hopened,
    fun u hok f => not_transGen_of_acc (acc_of_compile hs hopened hok), fun d herror hcycle => ?_,
    fun hacyclic d herror hcycle => ?_⟩
  · obtain ⟨path, hcause, fs, hchain, hmem⟩ := closes_of_compile hs hopened herror hcycle
    exact ⟨path, fs, hcause, hchain, hmem⟩
  · obtain ⟨path, -, hcloses⟩ := closes_of_compile hs hopened herror hcycle
    obtain ⟨f, hreach, hloop⟩ := hcloses.cycle
    exact hacyclic f hreach hloop

/-- Files of which two declare a third one in two spellings, and two that declare each other. -/
def sharedConfig : Config where
  storage := ⟨["w"], [(["w"], .directory),
    (["w", "main.fbp"], .file "DECLARE=A:fbp:a.fbp\nDECLARE=B:fbp:b.fbp\nDECLARE=C:fbp:c.fbp" 0),
    (["w", "a.fbp"], .file "DECLARE=C:fbp:./c.fbp" 0), (["w", "b.fbp"], .file "DECLARE=C:fbp:/w/c.fbp" 0),
    (["w", "c.fbp"], .file "" 0),
    (["w", "over.fbp"], .file "DECLARE=U:fbp:under.fbp" 0),
    (["w", "under.fbp"], .file "DECLARE=O:fbp:../w/over.fbp" 0)]⟩

/-- A file declared three times is no cycle; a file declared inside itself is one, under any spelling. -/
theorem compile_cycles_shared :
    ((Origin.compile (.file "main.fbp") sharedConfig {}).2.toOption.isSome = true ∧
      ∀ f, ReflTransGen (Declares (.file "main.fbp") sharedConfig) "/w/main.fbp" f →
        ¬ TransGen (Declares (.file "main.fbp") sharedConfig) f f) ∧
    ∃ d, (Origin.compile (.file "over.fbp") sharedConfig {}).2 = .error (.diagnostic d) ∧
      d.cause = .cycle "/w/over.fbp" ∧ ∃ fs,
        ("/w/over.fbp" :: (fs ++ ["/w/over.fbp"])).IsChain (Declares (.file "over.fbp") sharedConfig) := by
  have hsettled : sharedConfig.storage.Settled := by decide +kernel
  have hroots : root (.file "main.fbp") sharedConfig = "/w/main.fbp" ∧
      root (.file "over.fbp") sharedConfig = "/w/over.fbp" := by decide +kernel
  have hok : (Origin.compile (.file "main.fbp") sharedConfig {}).2.toOption.isSome = true := by
    decide +kernel
  have hfail : (match (Origin.compile (.file "over.fbp") sharedConfig {}).2 with
      | .error (.diagnostic d) => d.cause == .cycle "/w/over.fbp"
      | .error (.alreadyCompiled _) => false
      | .ok _ => false) = true := by decide +kernel
  have hmain := compile_cycles (.file "main.fbp") sharedConfig {} hsettled rfl
  have hover := compile_cycles (.file "over.fbp") sharedConfig {} hsettled rfl
  rw [hroots.1] at hmain
  rw [hroots.2] at hover
  refine ⟨⟨hok, ?_⟩, ?_⟩
  · cases hrun : (Origin.compile (.file "main.fbp") sharedConfig {}).2 with
    | error e => simp [hrun, Except.toOption] at hok
    | ok u => exact hmain.2.2.1 u hrun
  · split at hfail
    · next d herror =>
      have hcause : d.cause = .cycle "/w/over.fbp" := by simpa using hfail
      have hkind : d.kind = .declarationCycle := by rw [Diagnostic.kind, hcause]; rfl
      obtain ⟨path, fs, hpath, hchain, -⟩ := hover.2.2.2.1 d herror hkind
      obtain rfl : path = "/w/over.fbp" := Cause.cycle.inj (hpath.symm.trans hcause)
      exact ⟨d, herror, hcause, fs, hchain⟩
    · cases hfail
    · cases hfail

end Origin

end FlowCompiler
