import FlowCompiler.Proofs.Compile.Faults
import FlowCompiler.Proofs.Graph.Positions

/-!
# Diagnostics point into texts

The line and the column of a diagnostic are those of an offset in a text, and its file is the one that the text was
read from: the text of a unit of the session, or one that does not parse. Main statement:
`Origin.compile_diagnostics`.
-/

namespace FlowCompiler

/-! ## Offsets -/

namespace Position

/-- The line and the column behind some characters: one more than the line feeds, and one more than the bytes since the
last of them. -/
def behind (cs : List Char) : Position where
  line := 1 + cs.count '\n'
  column := 1 + ((cs.reverse.takeWhile (· != '\n')).map Text.charSize).sum

/-- Whether a position is that of an offset in a text. -/
def IsIn (p : Position) (text : String) : Prop :=
  ∃ offset ≤ text.toList.length, p = behind (text.toList.take offset)

theorem advanceAll_eq_behind (cs : List Char) : start.advanceAll cs = behind cs := by
  induction cs using List.reverseRecOn with
  | nil => rfl
  | append_singleton cs c ih =>
    rw [advanceAll_concat, ih, advance]
    by_cases hc : c = '\n'
    · simp [behind, hc, Nat.add_assoc]
    · simp [behind, hc]
      omega

end Position

theorem Cursor.Says.isIn {text : String} {p : Position} {w : List Char}
    (h : (Cursor.ofList text.toList).Says p w) : p.IsIn text := by
  obtain ⟨d, ⟨cs, hrest, hpos⟩, rfl, -⟩ := h
  have hsplit : text.toList = cs ++ d.rest := hrest
  refine ⟨cs.length, by simp [hsplit], ?_⟩
  rw [hpos, hsplit, List.take_left]
  exact Position.advanceAll_eq_behind cs

/-- The places of a graph lie in the text of it. -/
theorem Graph.HasPlace.isIn {text : String} {g : Graph} (hparse : Graph.parse text = .ok g) {p : Position}
    (h : g.HasPlace p) : p.IsIn text := by
  have hplaced := placed_of_parse hparse
  cases h with
  | node hn => exact (hplaced.nodes _ hn).pos.isIn
  | setting hn hm => exact ((hplaced.nodes _ hn).settings _ hm).isIn
  | connection hc => exact (hplaced.connections _ hc).isIn
  | exported he => exact (hplaced.exports _ _ he).isIn
  | declaration hd =>
    obtain ⟨e, -, -, hreaches, hpos, -⟩ := hplaced.declarations _ hd
    exact hpos ▸ hreaches.says_nil.isIn
  | option ho => exact (hplaced.options _ ho).isIn

/-! ## Whole compilations -/

namespace Origin

variable {o : Origin} {cfg : Config} {s : Session}

/-- Whether a diagnostic points into a text that a compilation has read from the file of the diagnostic: the text of a
unit, or one that does not parse. -/
def PointsInto (o : Origin) (cfg : Config) (units : List FlowUnit) (d : Diagnostic) : Prop :=
  ∃ parent text, o.Provides cfg units parent d.file text ∧ d.pos.IsIn text ∧
    ((∃ v ∈ units, v.parent = parent ∧ v.path = d.file ∧ Graph.parse text = .ok v.graph) ∨
      ∃ e, Graph.parse text = .error e ∧ d.pos = e.pos ∧ d.cause = .malformed e.fault)

theorem Provides.of_heads {parent : Option Nat} {path text : String}
    (h : o.Provides cfg s.heads parent path text) : o.Provides cfg s.units parent path text := by
  cases h with
  | first read => exact .first read
  | declared unit declares kind found read =>
    rw [Session.heads, List.getElem?_map] at unit
    obtain ⟨v, hv, rfl⟩ := Option.map_eq_some_iff.mp unit
    exact .declared hv declares kind found read

/-- What is about a place in a unit points into the text of the unit. -/
theorem pointsInto_of_cites (hreads : ∀ v ∈ s.heads, o.Reads cfg s.heads v) {d : Diagnostic}
    (h : Cites s.heads d) : o.PointsInto cfg s.units d := by
  obtain ⟨_, hmem, howns⟩ := h
  obtain ⟨text, hprovided, hparse⟩ := hreads _ hmem
  obtain ⟨v, hv, rfl⟩ := List.mem_map.mp hmem
  have hfile : d.file = v.path := howns.same
  refine ⟨v.parent, text, ?_, howns.place.isIn hparse, .inl ⟨v, hv, rfl, hfile.symm, hparse⟩⟩
  rw [hfile]
  exact hprovided.of_heads

theorem Ends.recoverable {units : List FlowUnit} {d : Diagnostic} (h : o.Ends cfg units d) :
    d.kind.recoverable = false := by
  cases h with
  | unit cites final => exact final.fatal
  | text provided parse pos cause => rw [Diagnostic.kind, cause]; rfl
  | file read cause => rw [Diagnostic.kind, cause]; rfl

theorem Ends.pointsInto (hreads : ∀ v ∈ s.heads, o.Reads cfg s.heads v) {d : Diagnostic} (h : o.Ends cfg s.heads d) :
    (∃ e, d.cause = .unreadable e ∧ cfg.storage.read d.file = .error e) ∨ o.PointsInto cfg s.units d := by
  cases h with
  | unit cites final => exact .inr (pointsInto_of_cites hreads cites)
  | text provided parse pos cause =>
    refine .inr ⟨_, _, provided.of_heads, ?_, .inr ⟨_, parse, pos, cause⟩⟩
    rw [pos]
    exact (Graph.parse_blames _ _ parse).isIn
  | file read cause => exact .inl ⟨_, cause, read⟩

/-- A compilation that starts does so in a session without units, and all units that it leaves are read from texts. -/
theorem compile_ends (o : Origin) (cfg : Config) (hunits : s.units = [])
    (hopen : ∀ path, o = .file path → o.root cfg ∉ s.opened) :
    (∀ d, (o.compile cfg s).2 = .error (.diagnostic d) → o.Ends cfg (o.compile cfg s).1.heads d) ∧
      (∀ v ∈ (o.compile cfg s).1.heads, o.Reads cfg (o.compile cfg s).1.heads v) ∧
      ∀ w ∈ (o.compile cfg s).1.warnings,
        w ∈ s.warnings ∨ Cites (o.compile cfg s).1.heads w ∧ w.kind = .malformedSuboption := by
  have hcompile : o.compile cfg s = _ := compile_eq_compileWith.trans (o.compileWith_eq hunits _)
  generalize hs₁ : ({ s with rootDir := Path.dir (o.root cfg) } : Session) = s₁ at hcompile
  have hdir : s₁.rootDir = Path.dir (o.root cfg) := by rw [← hs₁]
  have hclosed : ∀ path, o = .file path → o.root cfg ∉ s₁.opened := by rwa [← hs₁]
  have hempty : s₁.heads = [] := by simp [← hs₁, Session.heads, hunits]
  have hwarnings : s₁.warnings = s.warnings := by rw [← hs₁]
  obtain ⟨hgrows, -, herror⟩ :=
    o.step_triple cfg (Config.follows_compileDeclared o cfg cfg.depth) s₁ ⟨hdir, hclosed⟩
  rcases hstep : o.step cfg (cfg.compileDeclared cfg.depth) s₁ with ⟨outcome, s'⟩
  rw [hstep] at hgrows herror hcompile
  rw [hcompile, ← hwarnings]
  refine ⟨fun d hd => ?_, fun v hv => ?_, hgrows.warnings⟩
  · cases outcome with
    | error e =>
      cases hd
      exact herror d rfl
    | ok u => cases hd
  · rcases hgrows.reads v hv with hold | hread
    · rw [hempty] at hold
      cases hold
    · exact hread

/-- Diagnostics point into the right files. If the first file of a compilation is not being compiled already, a diagnostic
that the compilation fails with is of a kind that is fatal, and new warnings are of the one kind of warnings. Each of them
points into a text that was read from its file, at an offset within the text; only that a file cannot be read points
nowhere. -/
theorem compile_diagnostics (o : Origin) (cfg : Config) (s : Session) (hopen : o.root cfg ∉ s.opened) :
    (∀ d, (o.compile cfg s).2 = .error (.diagnostic d) → d.kind.recoverable = false ∧
      ((∃ e, d.cause = .unreadable e ∧ cfg.storage.read d.file = .error e) ∨
        o.PointsInto cfg (o.compile cfg s).1.units d)) ∧
    ∀ w ∈ (o.compile cfg s).1.warnings, w ∈ s.warnings ∨
      w.kind = .malformedSuboption ∧ o.PointsInto cfg (o.compile cfg s).1.units w := by
  cases hunits : s.units with
  | cons u us =>
    rw [compile_eq_compileWith, o.compileWith_of_units hunits]
    refine ⟨?_, fun w hw => .inl hw⟩
    rintro d ⟨⟩
  | nil =>
    obtain ⟨herror, hreads, hwarnings⟩ := o.compile_ends cfg hunits fun _ _ => hopen
    refine ⟨fun d hd => ⟨(herror d hd).recoverable, (herror d hd).pointsInto hreads⟩, fun w hw => ?_⟩
    refine (hwarnings w hw).imp_right ?_
    rintro ⟨hcites, hkind⟩
    exact ⟨hkind, pointsInto_of_cites hreads hcites⟩

/-- A flow and a part of it, both of which set an option to what is no number. -/
def partsConfig : Config where
  storage := ⟨["w"], [(["w"], .directory),
    (["w", "main.fbp"], .file "DECLARE=S:fbp:sub.fbp\na(T:k=x) OUT -> IN b(S)" 0),
    (["w", "sub.fbp"], .file "# a part\n\nn(T:k=y)" 0)]⟩
  common := { types := [{
    name := "T", symbol := "t.T", optionsSymbol := "t.Options"
    outputs := [{ name := "OUT", dataType := "int" }]
    options := [⟨"k", "int", none⟩] }] }

/-- The part is warned of at its own place, and so is the flow, which then fails at a connection. -/
theorem compile_diagnostics_parts :
    (Origin.compile (.file "main.fbp") partsConfig {}).2 =
      .error (.diagnostic ⟨"main.fbp", ⟨2, 10⟩, .noPort "IN" "S"⟩) ∧
    (Origin.compile (.file "main.fbp") partsConfig {}).1.warnings =
      [⟨"/w/sub.fbp", ⟨3, 5⟩, .badField "y" "val" "k"⟩, ⟨"main.fbp", ⟨2, 5⟩, .badField "x" "val" "k"⟩] ∧
    PointsInto (.file "main.fbp") partsConfig (Origin.compile (.file "main.fbp") partsConfig {}).1.units
      ⟨"main.fbp", ⟨2, 10⟩, .noPort "IN" "S"⟩ ∧
    PointsInto (.file "main.fbp") partsConfig (Origin.compile (.file "main.fbp") partsConfig {}).1.units
      ⟨"/w/sub.fbp", ⟨3, 5⟩, .badField "y" "val" "k"⟩ := by
  have hrun : (Origin.compile (.file "main.fbp") partsConfig {}).2 =
        .error (.diagnostic ⟨"main.fbp", ⟨2, 10⟩, .noPort "IN" "S"⟩) ∧
      (Origin.compile (.file "main.fbp") partsConfig {}).1.warnings =
        [⟨"/w/sub.fbp", ⟨3, 5⟩, .badField "y" "val" "k"⟩, ⟨"main.fbp", ⟨2, 5⟩, .badField "x" "val" "k"⟩] := by
    decide +kernel
  obtain ⟨herror, hwarnings⟩ := hrun
  obtain ⟨hfatal, hwarned⟩ := compile_diagnostics (.file "main.fbp") partsConfig {} List.not_mem_nil
  refine ⟨herror, hwarnings, ?_, ?_⟩
  · obtain ⟨-, ⟨e, hcause, -⟩ | hpoints⟩ := hfatal _ herror
    · cases hcause
    · exact hpoints
  · have hmem : ⟨"/w/sub.fbp", ⟨3, 5⟩, .badField "y" "val" "k"⟩ ∈
        (Origin.compile (.file "main.fbp") partsConfig {}).1.warnings := by
      rw [hwarnings]
      exact List.mem_cons_self
    exact ((hwarned _ hmem).resolve_left List.not_mem_nil).2

end Origin

end FlowCompiler
