import FlowCompiler.Proofs.Compile.Frames
import FlowCompiler.Proofs.Compile.Units
import FlowCompiler.Proofs.Naming.Counts

/-!
# Names given in a compilation

Every unit gets a stem, from its name and its number, and so does every type that a metatype makes, from
its name and the number of its unit. All stems are asked for with the same counts, so they are distinct.
The types that a unit declares get variables, which are asked for with counts of the unit's own.

`Titled c before u more s` says which stems were given while `u` is compiled: those of `u` and of the units
after it. Each step keeps this (`Titled.store`, `Titled.give`, `Titled.adopt`), so it holds after a
compilation (`Session.Compiles.titled`).
-/

namespace FlowCompiler

open List Naming

variable {ds : List Graph.Declaration} {d : DeclaredType}

/-- What a stem is made of. -/
def stemBase (name : String) (id : Nat) : String := exported name ++ toString id

theorem toList_stemBase (name : String) (id : Nat) :
    (stemBase name id).toList = (exported name).toList ++ id.repr.toList :=
  String.toList_append

theorem underscore_notMem_stemBase (name : String) (id : Nat) : '_' ∉ (stemBase name id).toList := by
  rw [toList_stemBase, mem_append, not_or]
  exact ⟨underscore_notMem_exported name, underscore_notMem_repr id⟩

theorem underscore_notMem_typeVariable (name : String) : '_' ∉ (typeVariable name).toList := by
  rw [typeVariable, String.toList_append, mem_append, not_or]
  exact ⟨by decide, underscore_notMem_exported name⟩

/-- The function that builds a declared type with a stem. -/
def typeFunction (stem : String) : String := "new" ++ stem ++ "Type"

/-- The stem in the name of the function that builds a declared type. -/
def DeclaredType.stem (d : DeclaredType) : String :=
  String.ofList ((d.funcName.toList.drop 3).rdrop 4)

theorem DeclaredType.stem_eq {t : String} (h : d.funcName = typeFunction t) : d.stem = t := by
  have hlist : d.funcName.toList = ['n', 'e', 'w'] ++ (t.toList ++ ['T', 'y', 'p', 'e']) := by
    rw [h, typeFunction, String.toList_append, String.toList_append, append_assoc]
    rfl
  have hdrop : d.funcName.toList.drop 3 = t.toList ++ ['T', 'y', 'p', 'e'] := by
    rw [hlist]
    rfl
  rw [stem, hdrop]
  change String.ofList ((t.toList ++ ['T', 'y', 'p', 'e']).rdrop (['T', 'y', 'p', 'e'].length)) = t
  rw [rdrop_append_length, String.ofList_toList]

namespace FlowUnit

/-- The stems of a unit and of its declared types. -/
def stems (u : FlowUnit) : List String := u.stem :: u.declared.map (·.stem)

/-- The variables of the types that a unit declares. -/
def typeVariables (u : FlowUnit) : List String := u.locals.types.map (·.symbol)

/-- What the stems of a unit depend on. -/
def titles (u : FlowUnit) : Nat × String × String × List DeclaredType := (u.id, u.name, u.stem, u.declared)

/-- The stems of a unit are made of names and its number. -/
structure Stemmed (u : FlowUnit) : Prop where
  stem : ∃ n, u.stem = numbered (stemBase u.name u.id) n
  declared : ∀ d ∈ u.declared, ∃ n, d.funcName = typeFunction (numbered (stemBase d.name u.id) n)

theorem stems_congr {u u' : FlowUnit} (h : u'.titles = u.titles) : u'.stems = u.stems := by
  simp only [titles, Prod.mk.injEq] at h
  rw [stems, stems, h.2.2.1, h.2.2.2]

theorem Stemmed.congr {u u' : FlowUnit} (h : u'.titles = u.titles) (hu : u.Stemmed) : u'.Stemmed := by
  simp only [titles, Prod.mk.injEq] at h
  obtain ⟨hid, hname, hstem, hdeclared⟩ := h
  exact ⟨by rw [hstem, hname, hid]; exact hu.stem, by rw [hdeclared, hid]; exact hu.declared⟩

end FlowUnit

/-! ## Steps -/

/-- The names in a session while `u` is compiled. It stands between the units that were there before and
those that were added since, and since counts were `c` the stems of these were given. Only the first unit
of a session may have a name that no flow text can have. -/
structure Titled (c : Counts) (before : List FlowUnit) (u : FlowUnit) (more : List FlowUnit)
    (s : Session) : Prop where
  place : u.id = before.length
  units : s.units = before ++ u :: more
  gives : Gives c s.stems ((u :: more).flatMap (·.stems))
  stemmed : ∀ v ∈ u :: more, v.Stemmed
  names : ∀ v ∈ more, IsName v.name
  typeVariables : ∀ v ∈ more, v.typeVariables.Nodup

namespace Titled

variable {c : Counts} {before more more' : List FlowUnit} {u u' child : FlowUnit} {s s' : Session}

theorem set_units (h : Titled c before u more s) (hid : u'.id = u.id) :
    s.units.set u'.id u' = before ++ u' :: more := by
  rw [h.units, hid, h.place, set_append_right _ _ le_rfl]
  simp

/-- The unit may change in what its stems do not depend on. -/
theorem store (h : Titled c before u more s) (htitles : u'.titles = u.titles)
    (hunits : s'.units = s.units.set u'.id u') (hstems : s'.stems = s.stems) :
    Titled c before u' more s' := by
  have hid : u'.id = u.id := congrArg Prod.fst htitles
  refine ⟨hid.trans h.place, hunits.trans (h.set_units hid), ?_, ?_, h.names, h.typeVariables⟩
  · have hgives := h.gives
    rw [flatMap_cons] at hgives ⊢
    rw [hstems, FlowUnit.stems_congr htitles]
    exact hgives
  · intro v hv
    rcases mem_cons.mp hv with rfl | hv
    · exact (h.stemmed u mem_cons_self).congr htitles
    · exact h.stemmed v (mem_cons_of_mem u hv)

/-- A declared type gets a stem. -/
theorem give (h : Titled c before u more s) (hd : d.funcName = (s.takeFunc d.name u.id).2)
    (htitles : u'.titles = (u.id, u.name, u.stem, u.declared ++ [d]))
    (hunits : s'.units = s.units.set u'.id u') (hstems : s'.stems = (s.takeFunc d.name u.id).1.stems) :
    Titled c before u' more s' := by
  simp only [FlowUnit.titles, Prod.mk.injEq] at htitles
  obtain ⟨hid, hname, hstem, hdeclared⟩ := htitles
  have hu := h.stemmed u mem_cons_self
  have hbase := underscore_notMem_stemBase d.name u.id
  refine ⟨hid.trans h.place, hunits.trans (h.set_units hid), ?_, ?_, h.names, h.typeVariables⟩
  · have hgives := h.gives.trans (Gives.take s.stems hbase)
    have hlast : d.stem = (s.stems.take (stemBase d.name u.id)).2 := DeclaredType.stem_eq hd
    rw [hstems]
    -- The stem was given last, but it stands with the other stems of the unit, before those of later units.
    refine hgives.perm ?_
    rw [flatMap_cons, flatMap_cons, ← hlast, FlowUnit.stems, FlowUnit.stems, hstem, hdeclared,
      map_append, append_assoc, ← cons_append, append_assoc]
    exact perm_append_comm.append_left _
  · intro v hv
    rcases mem_cons.mp hv with rfl | hv
    · refine ⟨by rw [hstem, hname, hid]; exact hu.stem, ?_⟩
      rw [hdeclared, hid]
      intro e he
      rcases mem_append.mp he with he | he
      · exact hu.declared e he
      · obtain rfl := mem_singleton.mp he
        exact ⟨_, hd⟩
    · exact h.stemmed v (mem_cons_of_mem u hv)

/-- A declared file adds its unit, and the units that it declares itself. -/
theorem adopt (h : Titled c before u more s) (hchild : Titled s.stems s.units child more' s')
    (hname : IsName child.name) (hvariables : child.typeVariables.Nodup) :
    Titled c before u (more ++ child :: more') s' := by
  refine ⟨h.place, ?_, ?_, ?_, ?_, ?_⟩
  · rw [hchild.units, h.units]
    simp
  · have hgives := h.gives.trans hchild.gives
    rwa [← flatMap_append] at hgives
  · intro v hv
    rw [← cons_append] at hv
    exact (mem_append.mp hv).elim (h.stemmed v) (hchild.stemmed v)
  · intro v hv
    rcases mem_append.mp hv with hv | hv
    · exact h.names v hv
    · rcases mem_cons.mp hv with rfl | hv
      · exact hname
      · exact hchild.names v hv
  · intro v hv
    rcases mem_append.mp hv with hv | hv
    · exact h.typeVariables v hv
    · rcases mem_cons.mp hv with rfl | hv
      · exact hvariables
      · exact hchild.typeVariables v hv

end Titled

/-! ## Units -/

namespace FlowUnit

variable {cfg : Config} {declared : CompileDeclared} {s s' : Session} {u u' : FlowUnit}

/-- Only the place of the unit is written to while its nodes get their types. -/
theorem bindAll_ok {ns : List Graph.Node} (h : u.bindAll cfg ns s = (.ok u', s')) :
    ∃ bs, u' = { u with bindings := u.bindings ++ bs } ∧
      ∀ v, s'.units.set u.id v = s.units.set u.id v := by
  induction ns generalizing u s with
  | nil =>
    obtain ⟨rfl, rfl⟩ := CompileM.pure_ok h
    exact ⟨[], by simp, fun _ => rfl⟩
  | cons n ns ih =>
    obtain ⟨b, s₁, -, hunits, hrest⟩ := bindAll_cons_ok h
    obtain ⟨bs, rfl, hset⟩ := ih hrest
    refine ⟨b :: bs, by simp, fun v => ?_⟩
    rw [hset v, hunits, set_set]

/-- The steps after the declarations of a unit change the unit only, and give no names. -/
theorem compile_declares (h : u.compile cfg declared s = (.ok u', s')) :
    ∃ u₁ s₁, u.declareAll cfg declared [] u.graph.declarations s = (.ok u₁, s₁) ∧
      u'.titles = u₁.titles ∧ u'.typeVariables = u₁.typeVariables ∧
      s'.units = s₁.units.set u'.id u' ∧ s'.stems = s₁.stems := by
  obtain ⟨u₁, s₁, u₂, s₂, hdeclare, hbind, -, -, hu', hunits⟩ := compile_ok h
  obtain ⟨bs, rfl, hset⟩ := bindAll_ok hbind
  refine ⟨u₁, s₁, hdeclare, by rw [hu']; rfl, by rw [hu']; rfl, ?_, ?_⟩
  · rw [hunits, hset, hu']
  · obtain ⟨rest, haside, hcompile⟩ := compile_eq_bind cfg
    have hmarks := (haside u₁ s₁).1
    rw [hcompile, CompileM.bind_apply, hdeclare] at h
    dsimp only at h
    rw [h] at hmarks
    exact congrArg Prod.snd hmarks

end FlowUnit

section Compile

variable {cfg : Config} {declared : CompileDeclared} {c : Counts} {before more : List FlowUnit}
  {u u' : FlowUnit} {s s' : Session} {parent : Option Nat} {names : Counts} {name : String}

/-- What compiling a declared file does to names. -/
def Titles (declared : CompileDeclared) : Prop :=
  ∀ path name u pos s child s', declared path name u pos s = (.ok child, s') →
    child.name = name ∧ child.typeVariables.Nodup ∧ ∃ more, Titled s.stems s.units child more s'

theorem declareSubflow_titled (htitles : Titles declared) {d : Graph.Declaration} {symbol : String}
    (hname : IsName d.name) (ht : Titled c before u more s)
    (h : u.declareSubflow cfg declared d symbol s = (.ok u', s')) :
    u'.name = u.name ∧ u'.typeVariables = u.typeVariables ++ [symbol] ∧
      ∃ more', Titled c before u' more' s' := by
  obtain ⟨path, child, s₁, t, -, hchild, htype, rfl, rfl⟩ := FlowUnit.declareSubflow_ok h
  obtain ⟨hchildName, hvariables, more', hstored⟩ := htitles _ _ _ _ _ _ _ hchild
  have hsymbol : t.symbol = symbol := by rw [htype]
  have hchild₁ : Titled s.stems s.units { child with type := some t } more'
      (s₁.store { child with type := some t }) := hstored.store rfl rfl rfl
  refine ⟨rfl, ?_, _, (ht.adopt hchild₁ (hchildName ▸ hname) hvariables).store rfl rfl rfl⟩
  simp [FlowUnit.typeVariables, FlowUnit.withLocal, hsymbol]

/-- The variables of declared types are given by counts that start anew. -/
theorem declareAll_titled (htitles : Titles declared) (hnames : ∀ d ∈ ds, IsName d.name)
    (ht : Titled c before u more s) (h : u.declareAll cfg declared names ds s = (.ok u', s')) :
    u'.name = u.name ∧ (∃ more', Titled c before u' more' s') ∧
      ∃ names' given, Gives names names' given ∧ u'.typeVariables = u.typeVariables ++ given := by
  induction ds generalizing u s names more with
  | nil =>
    obtain ⟨rfl, rfl⟩ := CompileM.pure_ok h
    exact ⟨rfl, ⟨more, ht⟩, names, [], .nothing names, by simp⟩
  | cons d ds ih =>
    obtain ⟨hname, hnames⟩ := forall_mem_cons.mp hnames
    obtain ⟨names₁, symbol, u₁, s₁, htake, hstep, hrest⟩ := FlowUnit.declareAll_cons_ok h
    obtain ⟨hu₁, hvariables, more₁, ht₁⟩ : u₁.name = u.name ∧
        u₁.typeVariables = u.typeVariables ++ [symbol] ∧ ∃ more', Titled c before u₁ more' s₁ := by
      rcases hstep with ⟨-, hstep⟩ | ⟨-, hstep⟩
      · exact declareSubflow_titled htitles hname ht hstep
      · obtain ⟨m, inputs, outputs, -, -, rfl, rfl⟩ := FlowUnit.declareType_takes hstep
        refine ⟨rfl, by simp [FlowUnit.typeVariables, FlowUnit.withLocal], more, ?_⟩
        exact ht.give rfl rfl rfl rfl
    obtain ⟨hu', hstored, names', given, hgives, hmore⟩ := ih hnames ht₁ hrest
    have hfirst : Gives names names₁ [symbol] := by
      have := Gives.take names (underscore_notMem_typeVariable d.name)
      rwa [htake] at this
    exact ⟨hu'.trans hu₁, hstored, names', symbol :: given, hfirst.trans hgives, by simp [hmore, hvariables]⟩

theorem compileText_titled (htitles : Titles declared) {path text : String}
    (h : cfg.compileText declared name path text parent s = (.ok u, s')) :
    u.name = name ∧ u.typeVariables.Nodup ∧ ∃ more, Titled s.stems s.units u more s' := by
  cases hparse : Graph.parse text with
  | error e =>
    rw [Config.compileText, hparse] at h
    exact (CompileM.throw_ok h).elim
  | ok g =>
    rw [Config.compileText_apply hparse] at h
    have hfirst : Titled s.stems s.units (s.addUnit name path g parent).2 []
        (s.addUnit name path g parent).1 := by
      have hgives := Gives.take s.stems (underscore_notMem_stemBase name s.units.length)
      refine ⟨rfl, rfl, hgives, fun v hv => ?_, forall_mem_nil _, forall_mem_nil _⟩
      obtain rfl := mem_singleton.mp hv
      exact ⟨⟨_, rfl⟩, forall_mem_nil _⟩
    obtain ⟨u₁, s₁, hdeclare, hsame, hvariables, hunits, hstems⟩ := FlowUnit.compile_declares h
    obtain ⟨hname, ⟨more, ht⟩, names, given, hgives, hgiven⟩ :=
      declareAll_titled htitles (fun d hd => (Graph.spelled_of_parse hparse d hd).1) hfirst hdeclare
    refine ⟨?_, ?_, more, ht.store hsame hunits hstems⟩
    · have heq := congrArg (·.2.1) hsame
      exact heq.trans hname
    · rw [hvariables, hgiven]
      exact hgives.nodup

theorem whileOpen_titled (htitles : Titles declared) {path text opened : String}
    (h : Config.whileOpen opened (cfg.compileText declared name path text parent) s = (.ok u, s')) :
    u.name = name ∧ u.typeVariables.Nodup ∧ ∃ more, Titled s.stems s.units u more s' := by
  obtain ⟨s₁, h₁, rfl⟩ := Config.whileOpen_ok h
  obtain ⟨hname, hvariables, more, ht⟩ := compileText_titled htitles h₁
  exact ⟨hname, hvariables, more, { ht with }⟩

theorem compileDeclared_titles (cfg : Config) (depth : Nat) : Titles (cfg.compileDeclared depth) :=
  Config.compileDeclared_gives (fun _ ih _ _ _ _ _ _ _ _ h => whileOpen_titled ih h) depth

/-- After a compilation the stems of all units were given, and only the first unit may have a name that no
flow text can have. -/
theorem Session.Compiles.titled (h : Session.Compiles cfg s u) :
    u.typeVariables.Nodup ∧ ∃ c more, Titled c [] u more s := by
  obtain ⟨s₁, opened, name, path, text, hempty, hrun⟩ := h.run
  obtain ⟨-, hvariables, more, ht⟩ := whileOpen_titled (compileDeclared_titles cfg cfg.depth) hrun
  exact ⟨hvariables, s₁.stems, more, hempty ▸ ht⟩

theorem Session.Compiles.stemmed (h : Session.Compiles cfg s u) : ∀ v ∈ s.units, v.Stemmed := by
  obtain ⟨-, c, more, ht⟩ := h.titled
  rw [ht.units]
  exact ht.stemmed

/-! ### Variables -/

/-- Whether the variables of the types that a unit declares are made of names. -/
def FlowUnit.VariablesMade (u : FlowUnit) : Prop :=
  ∀ x ∈ u.typeVariables, ∃ name n, x = numbered (typeVariable name) n

/-- A session whose units have such variables. -/
def Session.VariablesMade (s : Session) : Prop := ∀ v ∈ s.units, v.VariablesMade

theorem Session.VariablesMade.store (hs : s.VariablesMade) (hu : u.VariablesMade)
    (hunits : s'.units = s.units.set u.id u) : s'.VariablesMade := by
  intro v hv
  rw [hunits] at hv
  rcases mem_or_eq_of_mem_set hv with hv | rfl
  · exact hs v hv
  · exact hu

theorem FlowUnit.VariablesMade.concat (hu : u.VariablesMade) {x : String} {names' : Counts}
    (htake : names.take (typeVariable name) = (names', x)) (hx : u'.typeVariables = u.typeVariables ++ [x]) :
    u'.VariablesMade := by
  intro y hy
  rw [hx, mem_append, mem_singleton] at hy
  rcases hy with hy | rfl
  · exact hu y hy
  · exact ⟨name, _, (congrArg Prod.snd htake).symm⟩

/-- What compiling a declared file does to variables. -/
def MakesVariables (declared : CompileDeclared) : Prop :=
  ∀ path name u pos s child s', declared path name u pos s = (.ok child, s') → s.VariablesMade →
    child.VariablesMade ∧ s'.VariablesMade

theorem declareAll_variablesMade (hmakes : MakesVariables declared) (hu : u.VariablesMade)
    (hs : s.VariablesMade) (h : u.declareAll cfg declared names ds s = (.ok u', s')) :
    u'.VariablesMade ∧ s'.VariablesMade := by
  induction ds generalizing u s names with
  | nil =>
    obtain ⟨rfl, rfl⟩ := CompileM.pure_ok h
    exact ⟨hu, hs⟩
  | cons d ds ih =>
    obtain ⟨names₁, symbol, u₁, s₁, htake, hstep, hrest⟩ := FlowUnit.declareAll_cons_ok h
    obtain ⟨hu₁, hs₁⟩ : u₁.VariablesMade ∧ s₁.VariablesMade := by
      rcases hstep with ⟨-, hstep⟩ | ⟨-, hstep⟩
      · obtain ⟨path, child, s₂, t, -, hchild, rfl, rfl, rfl⟩ := FlowUnit.declareSubflow_ok hstep
        obtain ⟨hmade, hs₂⟩ := hmakes _ _ _ _ _ _ _ hchild hs
        have hu₁ : FlowUnit.VariablesMade { u.withLocal { child.type.getD .unknown with symbol } with
            subflows := u.subflows ++ [⟨d.name, child.id, d.pos⟩] } :=
          hu.concat htake (by simp [FlowUnit.typeVariables, FlowUnit.withLocal])
        exact ⟨hu₁, (hs₂.store (u := { child with type := some { child.type.getD .unknown with symbol } })
          hmade rfl).store hu₁ rfl⟩
      · obtain ⟨m, inputs, outputs, -, -, rfl, rfl⟩ := FlowUnit.declareType_takes hstep
        have hu₁ : FlowUnit.VariablesMade { u.withLocal { name := d.name, symbol, inputs, outputs } with
            declared := u.declared ++ [⟨d.name, d.kind, d.contents, (s.takeFunc d.name u.id).2, d.pos⟩] } :=
          hu.concat htake (by simp [FlowUnit.typeVariables, FlowUnit.withLocal])
        exact ⟨hu₁, hs.store hu₁ rfl⟩
    exact ih hu₁ hs₁ hrest

theorem whileOpen_variablesMade (hmakes : MakesVariables declared) {path text opened : String}
    (hs : s.VariablesMade)
    (h : Config.whileOpen opened (cfg.compileText declared name path text parent) s = (.ok u, s')) :
    u.VariablesMade ∧ s'.VariablesMade := by
  obtain ⟨s₁, h₁, rfl⟩ := Config.whileOpen_ok h
  obtain ⟨g, stem, s₂, -, hadded, hcompile⟩ := Config.compileText_ok h₁
  obtain ⟨u₁, s₃, hdeclare, -, hsame, hunits, -⟩ := FlowUnit.compile_declares hcompile
  have hs₂ : s₂.VariablesMade := by
    intro v hv
    rw [hadded, mem_append, mem_singleton] at hv
    rcases hv with hv | rfl
    · exact hs v hv
    · exact fun x hx => absurd hx not_mem_nil
  obtain ⟨hu₁, hs₃⟩ := declareAll_variablesMade hmakes (fun x hx => absurd hx not_mem_nil) hs₂ hdeclare
  have hu : u.VariablesMade := by
    rw [FlowUnit.VariablesMade, hsame]
    exact hu₁
  exact ⟨hu, hs₃.store hu hunits⟩

theorem compileDeclared_makesVariables (cfg : Config) (depth : Nat) :
    MakesVariables (cfg.compileDeclared depth) :=
  Config.compileDeclared_gives (fun _ ih _ _ _ _ _ _ _ _ h hs => whileOpen_variablesMade ih hs h) depth

/-- After a compilation the variables of all declared types are made of names. -/
theorem Session.Compiles.variablesMade (h : Session.Compiles cfg s u) : s.VariablesMade := by
  obtain ⟨s₁, opened, name, path, text, hempty, hrun⟩ := h.run
  refine (whileOpen_variablesMade (compileDeclared_makesVariables cfg cfg.depth) ?_ hrun).2
  intro v hv
  rw [hempty] at hv
  cases hv

end Compile

end FlowCompiler
