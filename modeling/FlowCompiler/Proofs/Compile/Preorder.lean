import FlowCompiler.Proofs.Catalog.Growth
import FlowCompiler.Proofs.Compile.Diagnostics

/-!
# The order of units

A unit gets its place before the files that it declares are compiled, and these come one after the other, each with all
units below it. So the units of a session are a tree that is written down in the order in which it is walked: the units
below a unit are those from it to some place (`Forest`). The steps of a compilation that succeeds keep this (`Rooted`).

Each unit records its declarations (`FlowUnit.Records`): as a subflow or as a declared type, and as a type that is found
under the declared name. Main statement: `Origin.compile_preordered`.
-/

namespace FlowCompiler

open List

/-! ## Forests -/

/-- Units one after the other from a place on, for the subflows of the unit at place `p`: first the unit of a subflow,
then all units below that one, then those for the next subflow. -/
inductive Forest : Nat → Nat → List Subflow → List FlowUnit → Prop where
  | nil {p i : Nat} : Forest p i [] []
  | cons {p : Nat} {f : Subflow} {c : FlowUnit} {fs : List Subflow} {own rest : List FlowUnit}
      (child : f.child = c.id) (name : f.name = c.name) (parent : c.parent = some p)
      (below : Forest c.id (c.id + 1) c.subflows own)
      (next : Forest p (c.id + 1 + own.length) fs rest) : Forest p c.id (f :: fs) (c :: (own ++ rest))

namespace Forest

variable {p i : Nat} {fs : List Subflow} {xs : List FlowUnit}

theorem append {gs : List Subflow} {ys : List FlowUnit} (h : Forest p i fs xs)
    (hnext : Forest p (i + xs.length) gs ys) : Forest p i (fs ++ gs) (xs ++ ys) := by
  induction h with
  | nil => exact hnext
  | @cons p f c fs own rest child name parent below next _ ih =>
    have hplace : c.id + (c :: (own ++ rest)).length = c.id + 1 + own.length + rest.length := by
      simp only [length_cons, length_append]
      omega
    rw [hplace] at hnext
    rw [cons_append, cons_append, append_assoc]
    exact .cons child name parent below (ih hnext)

/-- Units stand at the places of their numbers. -/
theorem ids (h : Forest p i fs xs) : xs.map (·.id) = List.range' i xs.length := by
  induction h with
  | nil => rfl
  | @cons p f c fs own rest child name parent below next ihBelow ihNext =>
    rw [map_cons, map_append, ihBelow, ihNext, range'_append_1, length_cons,
      length_append, range'_succ]

theorem bounds (h : Forest p i fs xs) {v : FlowUnit} (hv : v ∈ xs) : i ≤ v.id ∧ v.id < i + xs.length := by
  have hmem := mem_map_of_mem (f := (·.id)) hv
  rwa [h.ids, mem_range'_1] at hmem

theorem le_child (h : Forest p i fs xs) : ∀ f ∈ fs, i ≤ f.child := by
  induction h with
  | nil => exact forall_mem_nil _
  | cons child name parent below next _ ih =>
    refine forall_mem_cons.mpr ⟨child.ge, fun f hf => ?_⟩
    have := ih f hf
    omega

/-- Later subflows have later units. -/
theorem ordered (h : Forest p i fs xs) :
    (fs.map (·.child)).Pairwise (· < ·) ∧ ∀ v ∈ xs, (v.subflows.map (·.child)).Pairwise (· < ·) := by
  induction h with
  | nil => exact ⟨.nil, forall_mem_nil _⟩
  | @cons p f c fs own rest child name parent below next ihBelow ihNext =>
    refine ⟨pairwise_cons.mpr ⟨fun j hj => ?_, ihNext.1⟩, ?_⟩
    · obtain ⟨g, hg, rfl⟩ := mem_map.mp hj
      have := next.le_child g hg
      show f.child < g.child
      omega
    · exact forall_mem_cons.mpr ⟨ihBelow.1, forall_mem_append.mpr ⟨ihBelow.2, ihNext.2⟩⟩

/-- Each unit is that of one subflow, and each subflow has a unit. -/
theorem children_perm (h : Forest p i fs xs) :
    (fs.map (·.child) ++ xs.flatMap fun v => v.subflows.map (·.child)).Perm (xs.map (·.id)) := by
  induction h with
  | nil => exact .nil
  | @cons p f c fs own rest child name parent below next ihBelow ihNext =>
    simp only [map_cons, map_append, flatMap_cons, flatMap_append, cons_append, child]
    refine .cons _ ?_
    -- the subflows of `c` and those below it go in front of the remaining subflows of `p`
    refine .trans ?_ (ihBelow.append ihNext)
    rw [← append_assoc, ← append_assoc, ← append_assoc]
    refine .append_right _ ?_
    rw [append_assoc]
    exact perm_append_comm

/-- A unit is that of a subflow of its parent, which stands before it. -/
theorem declared (h : Forest p i fs xs) (hp : p < i) {v : FlowUnit} (hv : v ∈ xs) :
    ∃ q pos, v.parent = some q ∧ q < v.id ∧
      (q = p ∧ ⟨v.name, v.id, pos⟩ ∈ fs ∨ ∃ w ∈ xs, w.id = q ∧ ⟨v.name, v.id, pos⟩ ∈ w.subflows) := by
  induction h with
  | nil => cases hv
  | @cons p f c fs own rest child name parent below next ihBelow ihNext =>
    rcases mem_cons.mp hv with rfl | hv
    · refine ⟨p, f.pos, parent, hp, .inl ⟨rfl, ?_⟩⟩
      rw [← child, ← name]
      exact mem_cons_self
    rcases mem_append.mp hv with hv | hv
    · obtain ⟨q, pos, hparent, hlt, ⟨rfl, hmem⟩ | ⟨w, hw, hid, hmem⟩⟩ := ihBelow (Nat.lt_succ_self _) hv
      · exact ⟨c.id, pos, hparent, hlt, .inr ⟨c, mem_cons_self, rfl, hmem⟩⟩
      · exact ⟨q, pos, hparent, hlt, .inr ⟨w, mem_cons_of_mem _ (mem_append_left _ hw), hid, hmem⟩⟩
    · obtain ⟨q, pos, hparent, hlt, ⟨rfl, hmem⟩ | ⟨w, hw, hid, hmem⟩⟩ := ihNext (by omega) hv
      · exact ⟨q, pos, hparent, hlt, .inl ⟨rfl, mem_cons_of_mem _ hmem⟩⟩
      · exact ⟨q, pos, hparent, hlt, .inr ⟨w, mem_cons_of_mem _ (mem_append_right _ hw), hid, hmem⟩⟩

theorem parent_bounds (h : Forest p i fs xs) (hp : p < i) {v : FlowUnit} (hv : v ∈ xs) {q : Nat}
    (hq : v.parent = some q) : q < v.id ∧ (q = p ∨ i ≤ q) := by
  obtain ⟨q', pos, hparent, hlt, hdeclared⟩ := h.declared hp hv
  obtain rfl : q' = q := Option.some.inj (hparent.symm.trans hq)
  refine ⟨hlt, ?_⟩
  obtain ⟨rfl, -⟩ | ⟨w, hw, rfl, -⟩ := hdeclared
  · exact .inl rfl
  · exact .inr (h.bounds hw).1

/-- The units below a unit are those from it to some place: they have their parents there, and no other unit has. -/
theorem block (h : Forest p i fs xs) (hp : p < i) {u : FlowUnit} (hu : u ∈ xs) :
    ∃ stop, u.id < stop ∧ stop ≤ i + xs.length ∧ ∀ v ∈ xs, ∀ q, v.parent = some q →
      (u.id ≤ q ∧ q < stop ↔ u.id < v.id ∧ v.id < stop) := by
  induction h with
  | nil => cases hu
  | @cons p f c fs own rest child name parent below next ihBelow ihNext =>
    have hlength : (c :: (own ++ rest)).length = 1 + own.length + rest.length := by
      simp only [length_cons, length_append]
      omega
    have hbelow : ∀ v ∈ own, ∀ q, v.parent = some q →
        c.id ≤ q ∧ q < v.id ∧ c.id < v.id ∧ v.id < c.id + 1 + own.length := by
      intro v hv q hq
      have := below.bounds hv
      have := below.parent_bounds (Nat.lt_succ_self _) hv hq
      omega
    have hnext : ∀ v ∈ rest, ∀ q, v.parent = some q →
        (q = p ∨ c.id + 1 + own.length ≤ q) ∧ c.id + 1 + own.length ≤ v.id := by
      intro v hv q hq
      have := next.bounds hv
      have := next.parent_bounds (by omega) hv hq
      omega
    have hfirst : ∀ q, c.parent = some q → q = p := fun q hq => Option.some.inj (hq.symm.trans parent)
    simp only [forall_mem_cons, forall_mem_append]
    rcases mem_cons.mp hu with rfl | hu
    · refine ⟨u.id + 1 + own.length, by omega, by omega, fun q hq => ?_, fun v hv q hq => ?_, fun v hv q hq => ?_⟩
      · have := hfirst q hq
        omega
      · have := hbelow v hv q hq
        omega
      · have := hnext v hv q hq
        omega
    rcases mem_append.mp hu with hu | hu
    · obtain ⟨stop, hlt, hle, hblock⟩ := ihBelow (Nat.lt_succ_self _) hu
      have hplace := below.bounds hu
      refine ⟨stop, hlt, by omega, fun q hq => ?_, hblock, fun v hv q hq => ?_⟩
      · have := hfirst q hq
        omega
      · have := hnext v hv q hq
        omega
    · obtain ⟨stop, hlt, hle, hblock⟩ := ihNext (by omega) hu
      have hplace := next.bounds hu
      refine ⟨stop, hlt, by omega, fun q hq => ?_, fun v hv q hq => ?_, hblock⟩
      · have := hfirst q hq
        omega
      · have := hbelow v hv q hq
        omega

end Forest

/-! ## Runs -/

/-- The session while `u` is compiled: it stands after the units that were there before, and behind it stand the units
below it. -/
structure Rooted (before : List FlowUnit) (u : FlowUnit) (units : List FlowUnit) : Prop where
  place : u.id = before.length
  split : ∃ more, units = before ++ u :: more ∧ Forest u.id (u.id + 1) u.subflows more

/-- Compiling a declared file adds its unit with the units below it. -/
def Plants (declared : CompileDeclared) : Prop :=
  ∀ path name u pos s child s', declared path name u pos s = (.ok child, s') → Rooted s.units child s'.units

section Runs

variable {cfg : Config} {declared : CompileDeclared} {before units : List FlowUnit} {u u' : FlowUnit}
  {s s' : Session}

/-- The unit may change in what does not concern its subflows. -/
theorem Rooted.store (h : Rooted before u units) (hid : u'.id = u.id) (hsubflows : u'.subflows = u.subflows) :
    Rooted before u' (units.set u'.id u') := by
  obtain ⟨more, rfl, hforest⟩ := h.split
  have hplace : u'.id = before.length := hid.trans h.place
  refine ⟨hplace, more, ?_, ?_⟩
  · rw [hplace, set_append_right _ _ le_rfl, Nat.sub_self, set_cons_zero]
  · rw [hid, hsubflows]
    exact hforest

/-- A declared flow is the last of the subflows of its unit, and the units that it adds are the last ones. -/
theorem Rooted.declareSubflow (hplants : Plants declared) (hsound : Sound cfg declared) {d : Graph.Declaration}
    {symbol : String} (h : Rooted before u s.units)
    (hrun : u.declareSubflow cfg declared d symbol s = (.ok u', s')) : Rooted before u' s'.units := by
  obtain ⟨path, child, s₁, t, -, hchild, -, hu', rfl⟩ := FlowUnit.declareSubflow_ok hrun
  obtain ⟨hname, hparent, -⟩ := hsound _ _ _ _ _ _ _ hchild
  obtain ⟨hplace, own, hunits, hbelow⟩ := hplants _ _ _ _ _ _ _ hchild
  obtain ⟨more, hsplit, hforest⟩ := h.split
  generalize hc : ({ child with type := some t } : FlowUnit) = c
  have hcid : c.id = child.id := by rw [← hc]
  have hstored : (s₁.store c).units = before ++ u :: (more ++ c :: own) := by
    rw [Session.store_units, hunits, hcid, hplace, set_append_right _ _ le_rfl, Nat.sub_self, set_cons_zero,
      hsplit, append_assoc, cons_append]
  have hlast : Forest u.id (u.id + 1 + more.length) [⟨d.name, child.id, d.pos⟩] (c :: own) := by
    have hat : u.id + 1 + more.length = c.id := by
      rw [hcid, hplace, hsplit, h.place, length_append, length_cons]
      omega
    have hcons : Forest u.id c.id [⟨d.name, child.id, d.pos⟩] (c :: (own ++ [])) := by
      refine .cons ?_ ?_ ?_ ?_ .nil
      · exact hcid.symm
      · rw [← hc]
        exact hname.symm
      · rw [← hc]
        exact hparent
      · rw [← hc]
        exact hbelow
    rwa [hat, ← append_nil own]
  have hid : u'.id = u.id := by rw [hu']; rfl
  have hplace' : u'.id = before.length := hid.trans h.place
  refine ⟨hplace', more ++ c :: own, ?_, ?_⟩
  · rw [Session.store_units, hstored, hplace', set_append_right _ _ le_rfl, Nat.sub_self, set_cons_zero]
  · rw [hid, hu']
    exact hforest.append hlast

theorem Rooted.declareAll (hplants : Plants declared) (hsound : Sound cfg declared) {names : Naming.Counts}
    {ds : List Graph.Declaration} (h : Rooted before u s.units)
    (hrun : u.declareAll cfg declared names ds s = (.ok u', s')) : Rooted before u' s'.units := by
  induction ds generalizing u s names with
  | nil =>
    obtain ⟨rfl, rfl⟩ := CompileM.pure_ok hrun
    exact h
  | cons d ds ih =>
    obtain ⟨names', symbol, u₁, s₁, -, ⟨-, hstep⟩ | ⟨-, hstep⟩, hrest⟩ := FlowUnit.declareAll_cons_ok hrun
    · exact ih (h.declareSubflow hplants hsound hstep) hrest
    · obtain ⟨m, inputs, outputs, funcName, -, -, hu₁, hunits⟩ := FlowUnit.declareType_ok hstep
      refine ih (u := u₁) ?_ hrest
      rw [hunits]
      exact h.store (by rw [hu₁]; rfl) (by rw [hu₁]; rfl)

theorem Rooted.bindAll {ns : List Graph.Node} (h : Rooted before u s.units)
    (hrun : u.bindAll cfg ns s = (.ok u', s')) : Rooted before u' s'.units := by
  induction ns generalizing u s with
  | nil =>
    obtain ⟨rfl, rfl⟩ := CompileM.pure_ok hrun
    exact h
  | cons n ns ih =>
    obtain ⟨b, s₁, -, hunits, hrest⟩ := FlowUnit.bindAll_cons_ok hrun
    refine ih ?_ hrest
    rw [hunits]
    exact Rooted.store h rfl rfl

theorem Rooted.compile (hplants : Plants declared) (hsound : Sound cfg declared) (h : Rooted before u s.units)
    (hrun : u.compile cfg declared s = (.ok u', s')) : Rooted before u' s'.units := by
  obtain ⟨u₁, s₁, u₂, s₂, hdeclare, hbind, -, -, hu', hunits⟩ := FlowUnit.compile_ok hrun
  have hbound := (h.declareAll hplants hsound hdeclare).bindAll hbind
  have hid : u'.id = u₂.id := by rw [hu']
  rw [hunits, ← hid]
  exact hbound.store hid (by rw [hu'])

/-- Compiling a text adds its unit with the units below it. -/
theorem rooted_compileText (hplants : Plants declared) (hsound : Sound cfg declared) {name path text : String}
    {parent : Option Nat} (h : cfg.compileText declared name path text parent s = (.ok u, s')) :
    Rooted s.units u s'.units := by
  obtain ⟨g, stem, s₁, -, hunits, hrun⟩ := Config.compileText_ok h
  exact Rooted.compile hplants hsound ⟨rfl, [], hunits, .nil⟩ hrun

theorem plants_compileDeclared (cfg : Config) (depth : Nat) : Plants (cfg.compileDeclared depth) := by
  refine Config.compileDeclared_gives (fun depth ih opened path text name u s child s' hopen => ?_) depth
  obtain ⟨s₁, htext, rfl⟩ := Config.whileOpen_ok hopen
  have hrooted := rooted_compileText ih (compileDeclared_sound cfg depth) htext
  exact hrooted

end Runs

/-! ## Units in order -/

/-- Whether the unit at a place is below that at another one. -/
def Below (units : List FlowUnit) : Nat → Nat → Prop :=
  Relation.TransGen fun p i => ∃ v, units[i]? = some v ∧ v.parent = some p

/-- A tree of units in the order in which its units were begun. Each unit but the first is that of one subflow, in its
parent, and the units below a unit are those from it to some place. -/
structure Preordered (units : List FlowUnit) : Prop where
  ids : ∀ (i : Nat) v, units[i]? = some v → v.id = i
  root : ∃ v, units[0]? = some v ∧ v.parent = none
  parents : ∀ (i : Nat) v, units[i]? = some v → 0 < i →
    ∃ p u pos, v.parent = some p ∧ p < i ∧ units[p]? = some u ∧ ⟨v.name, i, pos⟩ ∈ u.subflows
  once : (units.flatMap fun v => v.subflows.map (·.child)).Perm (List.range' 1 (units.length - 1))
  ordered : ∀ v ∈ units, (v.subflows.map (·.child)).Pairwise (· < ·)
  blocks : ∀ i < units.length, ∃ stop, ∀ j, Below units i j ↔ i < j ∧ j < stop

section Preordered

variable {root : FlowUnit} {more : List FlowUnit}

theorem Forest.getElem?_id (h : Forest 0 1 root.subflows more) (hid : root.id = 0) {i : Nat} {v : FlowUnit} :
    (root :: more)[i]? = some v ↔ v ∈ root :: more ∧ v.id = i := by
  have hids : (root :: more).map (·.id) = List.range (more.length + 1) := by
    rw [map_cons, hid, h.ids, range_eq_range', range'_succ]
  have hplace : ∀ {i : Nat} {v : FlowUnit}, (root :: more)[i]? = some v → v.id = i := by
    intro i v hv
    have hat : ((root :: more).map (·.id))[i]? = some v.id := by rw [getElem?_map, hv]; rfl
    rw [hids] at hat
    obtain ⟨_, hi⟩ := List.getElem?_eq_some_iff.mp hat
    rw [← hi, getElem_range]
  constructor
  · exact fun hv => ⟨mem_of_getElem? hv, hplace hv⟩
  · rintro ⟨hmem, rfl⟩
    obtain ⟨j, hj⟩ := getElem?_of_mem hmem
    rwa [hplace hj]

/-- The units below a unit are those that have their parents in its block. -/
theorem below_iff_of_block {units : List FlowUnit} {i stop : Nat} (hstop : stop ≤ units.length)
    (hparents : ∀ (j : Nat) v, units[j]? = some v → 0 < j → ∃ q, v.parent = some q ∧ q < j)
    (hblock : ∀ (j : Nat) v q, units[j]? = some v → v.parent = some q → (i ≤ q ∧ q < stop ↔ i < j ∧ j < stop))
    (hi : i < stop) (j : Nat) : Below units i j ↔ i < j ∧ j < stop := by
  constructor
  · intro h
    induction h with
    | single h =>
      obtain ⟨v, hv, hq⟩ := h
      exact (hblock _ v i hv hq).mp ⟨le_rfl, hi⟩
    | tail _ h ih =>
      obtain ⟨v, hv, hq⟩ := h
      exact (hblock _ v _ hv hq).mp ⟨ih.1.le, ih.2⟩
  · induction j using Nat.strong_induction_on with
    | _ j ih =>
      rintro ⟨hij, hj⟩
      have hat := getElem?_eq_getElem (Nat.lt_of_lt_of_le hj hstop)
      obtain ⟨q, hq, hlt⟩ := hparents j _ hat (by omega)
      obtain ⟨hiq, hqs⟩ := (hblock j _ q hat hq).mpr ⟨hij, hj⟩
      rcases Nat.eq_or_lt_of_le hiq with rfl | hiq
      · exact .single ⟨_, hat, hq⟩
      · exact .tail (ih q hlt ⟨hiq, hqs⟩) ⟨_, hat, hq⟩

theorem preordered_of_forest (hid : root.id = 0) (hroot : root.parent = none)
    (h : Forest 0 1 root.subflows more) : Preordered (root :: more) := by
  have hplace : ∀ {i : Nat} {v : FlowUnit}, (root :: more)[i]? = some v ↔ v ∈ root :: more ∧ v.id = i :=
    h.getElem?_id hid
  have hlater : ∀ {i : Nat} {v : FlowUnit}, (root :: more)[i]? = some v → 0 < i → v ∈ more := by
    intro i v hv hi
    obtain ⟨hmem, rfl⟩ := hplace.mp hv
    rcases mem_cons.mp hmem with rfl | hmem
    · omega
    · exact hmem
  have hparents : ∀ (i : Nat) v, (root :: more)[i]? = some v → 0 < i →
      ∃ p u pos, v.parent = some p ∧ p < i ∧ (root :: more)[p]? = some u ∧ ⟨v.name, i, pos⟩ ∈ u.subflows := by
    intro i v hv hi
    have hmem := hlater hv hi
    obtain ⟨-, rfl⟩ := hplace.mp hv
    obtain ⟨q, pos, hparent, hlt, ⟨rfl, hsub⟩ | ⟨w, hw, rfl, hsub⟩⟩ := h.declared Nat.zero_lt_one hmem
    · exact ⟨0, root, pos, hparent, hlt, rfl, hsub⟩
    · exact ⟨w.id, w, pos, hparent, hlt, hplace.mpr ⟨mem_cons_of_mem _ hw, rfl⟩, hsub⟩
  refine ⟨fun i v hv => (hplace.mp hv).2, ⟨root, rfl, hroot⟩, hparents, ?_, ?_, fun i hi => ?_⟩
  · rw [flatMap_cons]
    refine h.children_perm.trans (.of_eq ?_)
    rw [h.ids, length_cons, Nat.add_sub_cancel]
  · exact forall_mem_cons.mpr h.ordered
  · have hat := getElem?_eq_getElem hi
    have hparent : ∀ (j : Nat) v, (root :: more)[j]? = some v → 0 < j → ∃ q, v.parent = some q ∧ q < j := by
      intro j v hv hj
      obtain ⟨q, -, -, hq, hlt, -⟩ := hparents j v hv hj
      exact ⟨q, hq, hlt⟩
    rcases Nat.eq_zero_or_pos i with rfl | hpos
    · refine ⟨(root :: more).length, below_iff_of_block le_rfl hparent (fun j v q hv hq => ?_) hi⟩
      have hj : j < (root :: more).length := (List.getElem?_eq_some_iff.mp hv).1
      rcases Nat.eq_zero_or_pos j with rfl | hjpos
      · cases hv
        cases hroot.symm.trans hq
      · obtain ⟨q', hq', hlt⟩ := hparent j v hv hjpos
        obtain rfl : q' = q := Option.some.inj (hq'.symm.trans hq)
        omega
    · obtain ⟨-, hplaced⟩ := hplace.mp hat
      obtain ⟨stop, hlt, hle, hblock⟩ := h.block Nat.zero_lt_one (hlater hat hpos)
      rw [hplaced] at hlt hblock
      have hlength : stop ≤ (root :: more).length := by
        rw [length_cons]
        omega
      refine ⟨stop, below_iff_of_block hlength hparent (fun j v q hv hq => ?_) hlt⟩
      rcases Nat.eq_zero_or_pos j with rfl | hjpos
      · cases hv
        cases hroot.symm.trans hq
      · obtain ⟨-, rfl⟩ := hplace.mp hv
        exact hblock v (hlater hv hjpos) q hq

end Preordered

/-! ## Declarations -/

/-- Whether a unit has recorded each of its declarations once: in order, as a subflow or as a declared type, and as a type
that its name finds. The type of a subflow is that of its unit. -/
structure FlowUnit.Records (units : List FlowUnit) (u : FlowUnit) : Prop where
  subflows : u.subflows.map (fun f => (f.name, f.pos)) =
    (u.graph.declarations.filter (·.kind = flowKind)).map fun d => (d.name, d.pos)
  declared : u.declared.map (fun t => (t.name, t.kind, t.contents, t.pos)) =
    (u.graph.declarations.filter (·.kind ≠ flowKind)).map fun d => (d.name, d.kind, d.contents, d.pos)
  names : u.locals.types.map (·.name) = u.graph.declarations.map (·.name)
  registered : ∀ d ∈ u.graph.declarations, ∃ t ∈ u.locals.types, u.locals.find? d.name = some t ∧ t.name = d.name
  types : ∀ f ∈ u.subflows, ∃ c, units[f.child]? = some c ∧ c.type.isSome = true ∧ u.locals.find? f.name = c.type

theorem FlowUnit.Compiled.records {cfg : Config} {units : List FlowUnit} {u : FlowUnit} (h : u.Compiled cfg units) :
    u.Records units := by
  obtain ⟨hsubflows, hdeclared, hnames⟩ := h.declares.recorded
  obtain ⟨text, hparse⟩ := h.parsed
  have hkeyed : u.locals.Keyed := by
    refine ⟨fun t ht => ?_, by rw [hnames]; exact h.declarationNames⟩
    obtain ⟨d, hd, hname⟩ := mem_map.mp (h.declares.names.1 t ht)
    rw [← hname]
    exact (Graph.spelled_of_parse hparse d hd).1.1
  refine ⟨hsubflows, hdeclared, hnames, fun d hd => ?_, fun f hf => ?_⟩
  · have hmem : d.name ∈ u.locals.types.map (·.name) := hnames ▸ mem_map_of_mem hd
    obtain ⟨t, ht, hname⟩ := mem_map.mp hmem
    exact ⟨t, ht, hkeyed.find?_eq_some.mpr ⟨ht, hname⟩, hname⟩
  · obtain ⟨-, c, hat, t, ht, htype, hname⟩ := h.declares.subflow_type f hf
    refine ⟨c, hat, by rw [htype]; rfl, ?_⟩
    rw [htype]
    exact hkeyed.find?_eq_some.mpr ⟨ht, hname⟩

/-! ## Whole compilations -/

namespace Session

variable {cfg : Config} {s : Session} {root : FlowUnit}

theorem Compiles.preordered (h : s.Compiles cfg root) : Preordered s.units := by
  obtain ⟨s₁, opened, name, path, text, hempty, hrun⟩ := h.run
  have hsound := compileDeclared_sound cfg cfg.depth
  obtain ⟨-, hparent, -⟩ := whileOpen_done hsound hrun
  obtain ⟨s₂, htext, rfl⟩ := Config.whileOpen_ok hrun
  obtain ⟨hid, more, hunits, hforest⟩ := rooted_compileText (plants_compileDeclared cfg cfg.depth) hsound htext
  have hnone : (s₁.openFile opened).units = [] := hempty
  rw [hnone] at hid hunits
  rw [hid] at hforest
  show Preordered s₂.units
  rw [hunits]
  exact preordered_of_forest hid hparent hforest

/-- In reverse order the unit of a subflow comes before the unit that declares it. -/
theorem Compiles.reverse_pairwise (h : s.Compiles cfg root) :
    s.units.reverse.Pairwise fun u v => ∀ f ∈ u.subflows, f.child ≠ v.id := by
  obtain ⟨-, hdone⟩ := h.done
  rw [pairwise_reverse, pairwise_iff_getElem]
  intro i j hi hj hij f hf
  obtain ⟨hidi, -⟩ := hdone i _ (Nat.zero_le i) (getElem?_eq_getElem hi)
  obtain ⟨hidj, hcompiled⟩ := hdone j _ (Nat.zero_le j) (getElem?_eq_getElem hj)
  have := (hcompiled.declares.subflow_type f hf).1
  omega

end Session

namespace Origin

variable {o : Origin} {cfg : Config} {s : Session}

theorem compiles_of_ok {u : FlowUnit} (h : (o.compile cfg s).2 = .ok u) : (o.compile cfg s).1.Compiles cfg u := by
  cases o with
  | file path => exact .file (Prod.ext rfl h)
  | given path text => exact .text (Prod.ext rfl h)

theorem Ends.registered {units : List FlowUnit} {d : Diagnostic} (h : o.Ends cfg units d) :
    ∀ name e, d.cause ≠ .notRegistered name e := by
  cases h with
  | unit cites final => exact final.registered
  | text provided parse pos cause => simp [cause]
  | file read cause => simp [cause]

/-- A declared type is never refused. -/
theorem registered_of_error {d : Diagnostic} (h : (o.compile cfg s).2 = .error (.diagnostic d)) :
    ∀ name e, d.cause ≠ .notRegistered name e := by
  cases hunits : s.units with
  | cons u us =>
    rw [compile_eq_compileWith, o.compileWith_of_units hunits] at h
    cases h
  | nil =>
    by_cases hopen : ∀ path, o = .file path → o.root cfg ∉ s.opened
    · exact ((o.compile_ends cfg hunits hopen).1 d h).registered
    · -- a first file that is being compiled already is a cycle
      obtain ⟨path, rfl, hopen⟩ : ∃ path, o = .file path ∧ o.root cfg ∈ s.opened := by simpa using hopen
      have hfound : cfg.storage.absolute path ∈
          ({ s with rootDir := Path.dir (root (.file path) cfg) } : Session).opened := hopen
      rw [compile_eq_compileWith, compileWith_eq _ hunits, step, Config.compileStored_apply, if_pos hfound] at h
      cases h
      rintro name e ⟨⟩

/-- The units of a compilation that succeeds are a tree in the order in which it is walked, the first file at its root,
and each has recorded its declarations. In reverse order each subflow comes before the unit that declares it. And no
compilation fails because a declared type cannot be registered. -/
theorem compile_preordered (o : Origin) (cfg : Config) (s : Session) :
    (∀ root, (o.compile cfg s).2 = .ok root →
      (o.compile cfg s).1.units[0]? = some root ∧ Preordered (o.compile cfg s).1.units ∧
      (∀ u ∈ (o.compile cfg s).1.units, u.Records (o.compile cfg s).1.units) ∧
      (o.compile cfg s).1.units.reverse.Pairwise fun u v => ∀ f ∈ u.subflows, f.child ≠ v.id) ∧
    ∀ d, (o.compile cfg s).2 = .error (.diagnostic d) → ∀ name e, d.cause ≠ .notRegistered name e := by
  refine ⟨fun root hok => ?_, fun d herror => registered_of_error herror⟩
  have hcompiles := compiles_of_ok hok
  obtain ⟨⟨more, hunits⟩, hdone⟩ := hcompiles.done
  refine ⟨by rw [hunits]; rfl, hcompiles.preordered, fun u hu => ?_, hcompiles.reverse_pairwise⟩
  exact (hdone.compiled hu).records

/-- A flow with three parts, two of which have the third as a part of their own. -/
theorem compile_preordered_shared :
    (Origin.compile (.file "main.fbp") sharedConfig {}).1.units.map (fun u => (u.name, u.parent)) =
      [("main", none), ("A", some 0), ("C", some 1), ("B", some 0), ("C", some 3), ("C", some 0)] ∧
    Preordered (Origin.compile (.file "main.fbp") sharedConfig {}).1.units := by
  have hrun : (Origin.compile (.file "main.fbp") sharedConfig {}).1.units.map (fun u => (u.name, u.parent)) =
        [("main", none), ("A", some 0), ("C", some 1), ("B", some 0), ("C", some 3), ("C", some 0)] ∧
      (Origin.compile (.file "main.fbp") sharedConfig {}).2.toOption.isSome = true := by decide +kernel
  obtain ⟨hunits, hok⟩ := hrun
  refine ⟨hunits, ?_⟩
  cases hroot : (Origin.compile (.file "main.fbp") sharedConfig {}).2 with
  | error e => simp [hroot, Except.toOption] at hok
  | ok root => exact ((compile_preordered (.file "main.fbp") sharedConfig {}).1 root hroot).2.1

end Origin

end FlowCompiler
