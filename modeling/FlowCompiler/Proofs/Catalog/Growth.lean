import FlowCompiler.Proofs.Catalog.Ports

/-!
# Growth of a catalog

A catalog is filled by calls: a type is added, or documents are loaded, from a text, from a file or from all files
that some paths stand for. However a load ends, what it does to the catalog is to enter the entries that it reaches,
one by one (`loadedBy_loadAny`), and an entry either adds the type that it describes or is noted as refused
(`enter_cases`). So all that holds of catalogs follows from one step:

- names are distinct and not empty, and a name finds the type that has it (`Keyed`);
- what is there stays, in its place, and is found as before (`Extends`);
- each entry leaves one type or one rejection (`BecomeAll`);
- a type that comes from a document is as documents describe types (`Descriptor.Loadable`).

Main statement: `Catalog.after_grows`.
-/

namespace FlowCompiler

open List Document

/-! ## Types of entries -/

/-- A type as documents describe types. -/
structure Descriptor.Loadable (d : Descriptor) : Prop where
  name : d.name ≠ ""
  symbol : d.symbol ≠ ""
  optionsSymbol : d.options ≠ [] → d.optionsSymbol ≠ ""
  options : (d.options.map (·.name)).Nodup
  inputs : Port.Named d.inputs
  outputs : Port.Named d.outputs

theorem Port.named_of_check {ports checked : List Port} (h : check ports = .ok checked) : Named checked := by
  obtain ⟨rfl, hproper, -⟩ := check_eq_ok_iff.mp h
  exact hproper.toNamed

namespace Descriptor

theorem optionsOf_names {entries : List OptionEntry} {seen : List String} {options : List OptionSpec}
    (h : optionsOf seen entries = .ok options) :
    (options.map (·.name)).Nodup ∧ ∀ o ∈ options, o.name ∉ seen := by
  induction entries generalizing seen options with
  | nil =>
    cases h
    exact ⟨nodup_nil, forall_mem_nil _⟩
  | cons e rest ih =>
    unfold optionsOf at h
    split at h
    · cases h
    · split at h
      · cases h
      · next hseen =>
        split at h
        · cases h
        · split at h
          · cases h
          · next os hrest =>
            cases h
            obtain ⟨hnames, hnew⟩ := ih hrest
            have hfirst : e.name ∉ os.map (·.name) := by
              intro hmem
              obtain ⟨o, ho, hname⟩ := mem_map.mp hmem
              exact hnew o ho (hname ▸ mem_cons_self)
            refine ⟨nodup_cons.mpr ⟨hfirst, hnames⟩, forall_mem_cons.mpr ⟨by simpa using hseen, ?_⟩⟩
            exact fun o ho hmem => hnew o ho (mem_cons_of_mem _ hmem)

theorem ofNode_loadable {anchored : List (Nat × Node)} {n : Node} {d : Descriptor}
    (h : ofNode anchored n = .ok d) : d.Loadable := by
  obtain ⟨t, -, ht⟩ := ofNode_eq_ok h
  obtain ⟨hoptions, hoptionsSymbol, hinputs, houtputs, hname, hsymbol⟩ := ofEntry_eq_ok ht
  refine ⟨hname, hsymbol, fun hne => hoptionsSymbol ?_, (optionsOf_names hoptions).1,
    Port.named_of_check hinputs, Port.named_of_check houtputs⟩
  rintro hempty
  rw [hempty] at hoptions
  have hnil : Except.ok [] = Except.ok d.options := hoptions
  exact hne (Except.ok.inj hnil).symm

end Descriptor

namespace Catalog

/-! ## Entries -/

/-- An entry of a document: where the document comes from, its anchored nodes, and the node of the entry. -/
structure Entry where
  source : String
  anchored : List (Nat × Node)
  node : Node

/-- Enters an entry. -/
def enter (c : Catalog) (e : Entry) : Catalog := c.loadEntry e.source e.anchored e.node

/-- The note that an entry is refused. -/
def Entry.refusal (e : Entry) (f : EntryFault) : Rejection := ⟨e.source, e.node.pos, entryName e.node, f⟩

/-- An entry adds the type that it describes, or it is refused: because it describes none, or because the name
of the type is taken. -/
theorem enter_cases (c : Catalog) (e : Entry) :
    (∃ d, Descriptor.ofNode e.anchored e.node = .ok d ∧ c.find? d.name = none ∧
      c.enter e = { c with types := c.types ++ [d] }) ∨
    (∃ f, Descriptor.ofNode e.anchored e.node = .error f ∧ c.enter e = c.reject (e.refusal f)) ∨
    ∃ d, Descriptor.ofNode e.anchored e.node = .ok d ∧ (c.find? d.name).isSome = true ∧
      c.enter e = c.reject (e.refusal (.notAdded (.duplicate d.name))) := by
  unfold enter loadEntry
  cases hnode : Descriptor.ofNode e.anchored e.node with
  | error f => exact .inr (.inl ⟨f, rfl, rfl⟩)
  | ok d =>
    have hname := (Descriptor.ofNode_loadable hnode).name
    by_cases hfind : (c.find? d.name).isSome = true
    · refine .inr (.inr ⟨d, rfl, hfind, ?_⟩)
      simp only [add, if_neg hname, if_pos hfind]
      rfl
    · refine .inl ⟨d, rfl, by simpa using hfind, ?_⟩
      simp only [add, if_neg hname, if_neg hfind]

/-! ## Calls -/

/-- What is loaded: a text, the file at a path, or the documents that paths stand for. -/
inductive Load where
  | text (content source : String)
  | file (s : Storage) (path : String)
  | places (s : Storage) (paths : List String)

/-- Loads documents. -/
def loadAny (c : Catalog) : Load → Catalog × Option LoadError
  | .text content source => c.load content source
  | .file s path => c.loadFile s path
  | .places s paths => c.loadPaths s paths

/-- A call on a catalog. -/
inductive Call where
  | add (d : Option Descriptor)
  | load (l : Load)

/-- What a call leaves, whether or not it fails. -/
def call (c : Catalog) : Call → Catalog
  | .add d => ((c.add? d).toOption).getD c
  | .load l => (c.loadAny l).1

/-- The catalog after some calls on a new one. -/
def after (calls : List Call) : Catalog := calls.foldl call {}

/-! ## The entries that are reached -/

/-- The entries that loading gets to, and whether it gets to all. -/
structure Reach where
  entries : List Entry := []
  whole : Bool := false

namespace Reach

/-- What comes next is reached if all before it is. -/
def seq (r next : Reach) : Reach := if r.whole then ⟨r.entries ++ next.entries, next.whole⟩ else r

/-- Parts one after the other. -/
def all {α : Type} (part : α → Reach) (xs : List α) : Reach := xs.foldr (fun x next => (part x).seq next) ⟨[], true⟩

/-- The entries of an array. Any other value ends the loading. -/
def array (source : String) (anchored : List (Nat × Node)) : Node → Reach
  | .sequence _ _ items => ⟨items.map (⟨source, anchored, ·⟩), true⟩
  | _ => {}

/-- The entries of a text. -/
def text (content source : String) : Reach :=
  match Document.parse content with
  | some (some ⟨.mapping _ _ entries, anchored⟩) => all (fun kv => array source anchored kv.2) entries
  | _ => {}

/-- The entries of a file. -/
def file (s : Storage) (path : String) : Reach :=
  match s.open? path with
  | .ok (some content) => text content path
  | _ => {}

/-- The entries of what a path stands for. -/
def place (s : Storage) (path : String) : Reach :=
  match documentsAt s path with
  | .ok files => all (file s) files
  | .error _ => {}

end Reach

/-- The entries that are reached. -/
def Load.reach : Load → Reach
  | .text content source => .text content source
  | .file s path => .file s path
  | .places s paths => .all (.place s) paths

/-- Enters entries one by one. -/
def enterAll (c : Catalog) (es : List Entry) : Catalog := es.foldl enter c

/-- Whether loading has entered what is reached, and fails if that is not all. -/
structure Reach.LoadedBy (r : Reach) (c : Catalog) (run : Catalog × Option LoadError) : Prop where
  entered : run.1 = c.enterAll r.entries
  whole : run.2 = none ↔ r.whole = true

namespace Reach.LoadedBy

variable {c : Catalog}

theorem done (c : Catalog) : LoadedBy ⟨[], true⟩ c (c, none) := ⟨rfl, by simp⟩

theorem failed (c : Catalog) (e : LoadError) : LoadedBy {} c (c, some e) := ⟨rfl, by simp⟩

theorem seq_none {r next : Reach} {c' : Catalog} {run : Catalog × Option LoadError} (h : r.LoadedBy c (c', none))
    (hnext : next.LoadedBy c' run) : (r.seq next).LoadedBy c run := by
  obtain rfl : c' = c.enterAll r.entries := h.entered
  have hwhole : r.whole = true := h.whole.mp rfl
  rw [seq, if_pos hwhole]
  refine ⟨hnext.entered.trans ?_, hnext.whole⟩
  simp only [enterAll, foldl_append]

theorem seq_some {r : Reach} {c' : Catalog} {e : LoadError} (h : r.LoadedBy c (c', some e)) (next : Reach) :
    (r.seq next).LoadedBy c (c', some e) := by
  have hwhole : ¬r.whole = true := fun hr => Option.some_ne_none e (h.whole.mpr hr)
  rwa [seq, if_neg hwhole]

end Reach.LoadedBy

section Loads

variable (c : Catalog)

theorem loadedBy_loadArrays (source : String) (anchored : List (Nat × Node)) (entries : List (Node × Node)) :
    (Reach.all (fun kv => .array source anchored kv.2) entries).LoadedBy c
      (c.loadArrays source anchored entries) := by
  induction entries generalizing c with
  | nil => exact .done c
  | cons kv rest ih =>
    obtain ⟨k, v⟩ := kv
    cases v with
    | sequence h flow items =>
      have hitems : (Reach.array source anchored (.sequence h flow items)).LoadedBy c
          (items.foldl (fun c n => c.loadEntry source anchored n) c, none) := by
        refine ⟨?_, by simp [Reach.array]⟩
        rw [Reach.array, enterAll, foldl_map]
        rfl
      exact hitems.seq_none (ih _)
    | scalar | mapping | reference => exact .failed c _

theorem loadedBy_load (content source : String) : (Reach.text content source).LoadedBy c (c.load content source) := by
  unfold load Reach.text
  cases Document.parse content with
  | none => exact .failed c _
  | some document =>
    cases document with
    | none => exact .failed c _
    | some document =>
      obtain ⟨root, anchored⟩ := document
      cases root with
      | mapping h flow entries => exact c.loadedBy_loadArrays source anchored entries
      | scalar | sequence | reference => exact .failed c _

theorem loadedBy_loadFile (s : Storage) (path : String) : (Reach.file s path).LoadedBy c (c.loadFile s path) := by
  unfold loadFile Reach.file
  cases s.open? path with
  | error e => exact .failed c _
  | ok content =>
    cases content with
    | none => exact .failed c _
    | some content => exact c.loadedBy_load content path

theorem loadedBy_loadFiles (s : Storage) (paths : List String) :
    (Reach.all (.file s) paths).LoadedBy c (c.loadFiles s paths) := by
  induction paths generalizing c with
  | nil => exact .done c
  | cons path rest ih =>
    have hfirst := c.loadedBy_loadFile s path
    rw [loadFiles]
    rcases hrun : c.loadFile s path with ⟨c', _ | e⟩
    · exact (hrun ▸ hfirst).seq_none (ih c')
    · exact (hrun ▸ hfirst).seq_some _

theorem loadedBy_loadPaths (s : Storage) (paths : List String) :
    (Reach.all (.place s) paths).LoadedBy c (c.loadPaths s paths) := by
  induction paths generalizing c with
  | nil => exact .done c
  | cons path rest ih =>
    show ((Reach.place s path).seq _).LoadedBy c _
    rw [loadPaths, Reach.place]
    cases documentsAt s path with
    | error e => exact .failed c _
    | ok files =>
      have hfirst := c.loadedBy_loadFiles s files
      dsimp only
      rcases hrun : c.loadFiles s files with ⟨c', _ | e⟩
      · exact (hrun ▸ hfirst).seq_none (ih c')
      · exact (hrun ▸ hfirst).seq_some _

/-- Loading enters the entries that are reached, and fails exactly if it does not get to all. -/
theorem loadedBy_loadAny (l : Load) : l.reach.LoadedBy c (c.loadAny l) := by
  cases l with
  | text content source => exact c.loadedBy_load content source
  | file s path => exact c.loadedBy_loadFile s path
  | places s paths => exact c.loadedBy_loadPaths s paths

end Loads

/-! ## What steps keep -/

/-- Types are told apart by their names. -/
structure Keyed (c : Catalog) : Prop where
  named : ∀ t ∈ c.types, t.name ≠ ""
  distinct : (c.types.map (·.name)).Nodup

/-- Whether a catalog has come of another one: types and rejections stay in their places, and known names are
found as before. -/
structure Extends (c c' : Catalog) : Prop where
  types : c.types <+: c'.types
  rejected : c.rejected <+: c'.rejected
  found : ∀ name t, c.find? name = some t → c'.find? name = some t

theorem Extends.refl (c : Catalog) : c.Extends c := ⟨prefix_rfl, prefix_rfl, fun _ _ h => h⟩

theorem Extends.trans {c c' c'' : Catalog} (h : c.Extends c') (h' : c'.Extends c'') : c.Extends c'' :=
  ⟨h.types.trans h'.types, h.rejected.trans h'.rejected, fun name t ht => h'.found name t (h.found name t ht)⟩

theorem extends_concat (c : Catalog) (d : Descriptor) : c.Extends { c with types := c.types ++ [d] } where
  types := prefix_append _ _
  rejected := prefix_rfl
  found name t ht := by
    have ht : c.types.find? (·.name == name) = some t := ht
    simp [find?, find?_append, ht]

theorem extends_reject (c : Catalog) (r : Rejection) : c.Extends (c.reject r) :=
  ⟨prefix_rfl, prefix_append _ _, fun _ _ h => h⟩

theorem Keyed.concat {c : Catalog} (h : c.Keyed) {d : Descriptor} (hname : d.name ≠ "")
    (hnew : c.find? d.name = none) : Keyed { c with types := c.types ++ [d] } where
  named := forall_mem_append.mpr ⟨h.named, by simpa using hname⟩
  distinct := by
    have hfresh : d.name ∉ c.types.map (·.name) := by
      intro hmem
      obtain ⟨t, ht, heq⟩ := mem_map.mp hmem
      have := find?_eq_none.mp hnew t ht
      simp [heq] at this
    rw [map_append, map_singleton]
    exact h.distinct.append (nodup_singleton _) (by simpa using hfresh)

/-- A name finds the type that has it. -/
theorem Keyed.find?_eq_some {c : Catalog} (h : c.Keyed) {name : String} {t : Descriptor} :
    c.find? name = some t ↔ t ∈ c.types ∧ t.name = name := by
  constructor
  · intro hfind
    exact ⟨mem_of_find?_eq_some hfind, by simpa using find?_some hfind⟩
  · rintro ⟨ht, rfl⟩
    cases hfind : c.find? t.name with
    | none =>
      have := find?_eq_none.mp hfind t ht
      simp at this
    | some t' =>
      have hname : t'.name = t.name := by simpa using find?_some hfind
      exact congrArg some (inj_on_of_nodup_map h.distinct (mem_of_find?_eq_some hfind) ht hname)

theorem enter_extends (c : Catalog) (e : Entry) : c.Extends (c.enter e) := by
  obtain ⟨d, -, -, heq⟩ | ⟨f, -, heq⟩ | ⟨d, -, -, heq⟩ := c.enter_cases e
  · rw [heq]
    exact c.extends_concat d
  · rw [heq]
    exact c.extends_reject _
  · rw [heq]
    exact c.extends_reject _

theorem enterAll_extends (c : Catalog) (es : List Entry) : c.Extends (c.enterAll es) := by
  induction es generalizing c with
  | nil => exact .refl c
  | cons e es ih => exact (c.enter_extends e).trans (ih (c.enter e))

theorem Keyed.enter {c : Catalog} (h : c.Keyed) (e : Entry) : (c.enter e).Keyed := by
  obtain ⟨d, hnode, hnew, heq⟩ | ⟨f, -, heq⟩ | ⟨d, -, -, heq⟩ := c.enter_cases e
  · rw [heq]
    exact h.concat (Descriptor.ofNode_loadable hnode).name hnew
  · rw [heq]
    exact ⟨h.named, h.distinct⟩
  · rw [heq]
    exact ⟨h.named, h.distinct⟩

theorem Keyed.enterAll {c : Catalog} (h : c.Keyed) (es : List Entry) : (c.enterAll es).Keyed := by
  induction es generalizing c with
  | nil => exact h
  | cons e es ih => exact ih (h.enter e)

/-- A call that adds a type leaves it at the end. If the type has no name or a known one, the call fails and changes
nothing. -/
theorem call_add_some (c : Catalog) (t : Descriptor) :
    c.call (.add (some t)) =
      if t.name = "" ∨ (c.find? t.name).isSome = true then c else { c with types := c.types ++ [t] } := by
  by_cases hname : t.name = ""
  · simp [call, add?, add, hname, Except.toOption]
  · by_cases hfind : (c.find? t.name).isSome = true
    · simp [call, add?, add, hname, hfind, Except.toOption]
    · simp [call, add?, add, hname, hfind, Except.toOption]

theorem call_add (c : Catalog) (d : Option Descriptor) :
    c.call (.add d) = c ∨ ∃ t, d = some t ∧ t.name ≠ "" ∧ c.find? t.name = none ∧
      c.call (.add d) = { c with types := c.types ++ [t] } := by
  cases d with
  | none => exact .inl rfl
  | some t =>
    rw [call_add_some]
    split
    · exact .inl rfl
    · next hnew =>
      obtain ⟨hname, hfind⟩ := not_or.mp hnew
      exact .inr ⟨t, rfl, hname, by simpa using hfind, rfl⟩

theorem call_extends (c : Catalog) (k : Call) : c.Extends (c.call k) := by
  cases k with
  | add d =>
    obtain heq | ⟨t, -, -, -, heq⟩ := c.call_add d
    · rw [heq]
      exact .refl c
    · rw [heq]
      exact c.extends_concat t
  | load l =>
    rw [call, (c.loadedBy_loadAny l).entered]
    exact c.enterAll_extends l.reach.entries

theorem Keyed.call {c : Catalog} (h : c.Keyed) (k : Call) : (c.call k).Keyed := by
  cases k with
  | add d =>
    obtain heq | ⟨t, -, hname, hnew, heq⟩ := c.call_add d
    · rw [heq]
      exact h
    · rw [heq]
      exact h.concat hname hnew
  | load l =>
    rw [Catalog.call, (c.loadedBy_loadAny l).entered]
    exact h.enterAll l.reach.entries

theorem keyed_after (calls : List Call) : (after calls).Keyed := by
  have hempty : Keyed {} := ⟨forall_mem_nil _, nodup_nil⟩
  exact List.foldlRecOn (motive := Keyed) calls call hempty fun c hc k _ => hc.call k

/-! ## What becomes of entries -/

/-- What an entry leaves. -/
inductive Outcome where
  | type (d : Descriptor)
  | rejection (r : Rejection)

/-- The type that is left. -/
def Outcome.type? : Outcome → Option Descriptor
  | type d => some d
  | rejection _ => none

/-- The rejection that is left. -/
def Outcome.rejection? : Outcome → Option Rejection
  | type _ => none
  | rejection r => some r

/-- Takes outcomes in: types and rejections, each in their order. -/
def extend (c : Catalog) (os : List Outcome) : Catalog where
  types := c.types ++ os.filterMap Outcome.type?
  rejected := c.rejected ++ os.filterMap Outcome.rejection?

/-- What becomes of an entry: the type that it describes, if no type of the name is known, and else a rejection with
the place of the entry and what is wrong. -/
inductive Becomes (c : Catalog) (e : Entry) : Outcome → Prop where
  | added {d : Descriptor} (read : Descriptor.ofNode e.anchored e.node = .ok d) (loadable : d.Loadable)
    (fresh : ∀ t ∈ c.types, t.name ≠ d.name) : Becomes c e (.type d)
  | refused {f : EntryFault} (read : Descriptor.ofNode e.anchored e.node = .error f) :
    Becomes c e (.rejection ⟨e.source, e.node.pos, entryName e.node, f⟩)
  | taken {d : Descriptor} (read : Descriptor.ofNode e.anchored e.node = .ok d)
    (known : ∃ t ∈ c.types, t.name = d.name) :
    Becomes c e (.rejection ⟨e.source, e.node.pos, entryName e.node, .notAdded (.duplicate d.name)⟩)

/-- Entries become outcomes one by one, each with those before it taken in. -/
inductive BecomeAll : Catalog → List Entry → List Outcome → Prop where
  | nil {c : Catalog} : BecomeAll c [] []
  | cons {c : Catalog} {e : Entry} {o : Outcome} {es : List Entry} {os : List Outcome} (first : c.Becomes e o)
    (rest : BecomeAll (c.extend [o]) es os) : BecomeAll c (e :: es) (o :: os)

theorem extend_cons (c : Catalog) (o : Outcome) (os : List Outcome) : c.extend (o :: os) = (c.extend [o]).extend os := by
  have hcons : ∀ {α : Type} (f : Outcome → Option α), (o :: os).filterMap f = [o].filterMap f ++ os.filterMap f :=
    fun f => filterMap_append (l := [o])
  simp only [extend, hcons, append_assoc]

/-- Each entry leaves one type or one rejection. -/
theorem enter_outcome (c : Catalog) (e : Entry) : ∃ o, c.Becomes e o ∧ c.enter e = c.extend [o] := by
  obtain ⟨d, hnode, hnew, heq⟩ | ⟨f, hnode, heq⟩ | ⟨d, hnode, hfind, heq⟩ := c.enter_cases e
  · have hfresh : ∀ t ∈ c.types, t.name ≠ d.name := by simpa [find?] using hnew
    refine ⟨.type d, .added hnode (Descriptor.ofNode_loadable hnode) hfresh, heq.trans ?_⟩
    simp [extend, Outcome.type?, Outcome.rejection?]
  · refine ⟨.rejection (e.refusal f), .refused hnode, heq.trans ?_⟩
    simp [extend, reject, Outcome.type?, Outcome.rejection?]
  · have hknown : ∃ t ∈ c.types, t.name = d.name := by simpa [find?] using hfind
    refine ⟨.rejection (e.refusal (.notAdded (.duplicate d.name))), .taken hnode hknown, heq.trans ?_⟩
    simp [extend, reject, Outcome.type?, Outcome.rejection?]

theorem enterAll_outcomes (c : Catalog) (es : List Entry) :
    ∃ os, c.BecomeAll es os ∧ c.enterAll es = c.extend os := by
  induction es generalizing c with
  | nil => exact ⟨[], .nil, by simp [enterAll, extend]⟩
  | cons e es ih =>
    obtain ⟨o, ho, hfirst⟩ := c.enter_outcome e
    obtain ⟨os, hos, hrest⟩ := ih (c.enter e)
    rw [hfirst] at hos hrest
    refine ⟨o :: os, .cons ho hos, ?_⟩
    rw [extend_cons, ← hrest, ← hfirst]
    rfl

theorem BecomeAll.loadable {c : Catalog} {es : List Entry} {os : List Outcome} (h : c.BecomeAll es os) :
    ∀ t ∈ os.filterMap Outcome.type?, t.Loadable := by
  induction h with
  | nil => exact forall_mem_nil _
  | cons first _ ih =>
    cases first with
    | added _ loadable => exact forall_mem_cons.mpr ⟨loadable, ih⟩
    | refused | taken => exact ih

/-- A type of a catalog was added by a call or comes from an entry. -/
theorem mem_types_after {calls : List Call} {t : Descriptor} (ht : t ∈ (after calls).types) :
    .add (some t) ∈ calls ∨ t.Loadable := by
  have hstep : ∀ c : Catalog, (t ∈ c.types → .add (some t) ∈ calls ∨ t.Loadable) → ∀ k ∈ calls,
      t ∈ (c.call k).types → .add (some t) ∈ calls ∨ t.Loadable := by
    intro c hc k hk ht
    cases k with
    | add d =>
      obtain heq | ⟨u, rfl, -, -, heq⟩ := c.call_add d
      · exact hc (heq ▸ ht)
      · rw [heq] at ht
        rcases mem_append.mp ht with ht | ht
        · exact hc ht
        · exact .inl (mem_singleton.mp ht ▸ hk)
    | load l =>
      obtain ⟨os, hos, heq⟩ := c.enterAll_outcomes l.reach.entries
      rw [call, (c.loadedBy_loadAny l).entered, heq] at ht
      rcases mem_append.mp ht with ht | ht
      · exact hc ht
      · exact .inr (hos.loadable t ht)
  refine List.foldlRecOn (motive := fun c : Catalog => t ∈ c.types → .add (some t) ∈ calls ∨ t.Loadable) calls call
    (fun ht => ?_) hstep ht
  exact absurd ht not_mem_nil

/-! ## Whole histories -/

/-- After any calls on a new catalog, also ones that failed, types are told apart by their names, and a name finds the
type that has it. A further call leaves all that is there in its place, and what is found stays found: it adds a type
if its name is new, and if it loads documents, each entry that it reaches leaves one type or one rejection, and it fails
exactly if it does not get to the end. And a type that no call added by itself is as documents describe types. -/
theorem after_grows (calls : List Call) :
    (after calls).Keyed ∧
    (∀ name t, (after calls).find? name = some t ↔ ∃ i : Nat, (after calls).types[i]? = some t ∧ t.name = name) ∧
    (∀ k : Call, (after calls).Extends ((after calls).call k)) ∧
    (∀ t, (after calls).call (.add (some t)) =
      if t.name = "" ∨ ∃ u ∈ (after calls).types, u.name = t.name then after calls
      else { after calls with types := (after calls).types ++ [t] }) ∧
    (∀ l : Load, ((after calls).loadAny l).2 = none ↔ l.reach.whole = true) ∧
    (∀ l : Load, ∃ os, (after calls).BecomeAll l.reach.entries os ∧
      (after calls).call (.load l) = (after calls).extend os) ∧
    ∀ t ∈ (after calls).types, .add (some t) ∈ calls ∨ t.Loadable := by
  have hkeyed := keyed_after calls
  refine ⟨hkeyed, fun name t => ?_, fun k => call_extends _ k, fun t => ?_, fun l => (loadedBy_loadAny _ l).whole,
    fun l => ?_, fun t ht => mem_types_after ht⟩
  · rw [hkeyed.find?_eq_some]
    simp only [mem_iff_getElem?, exists_and_right]
  · rw [call_add_some]
    simp [find?]
  · obtain ⟨os, hos, heq⟩ := (after calls).enterAll_outcomes l.reach.entries
    exact ⟨os, hos, (loadedBy_loadAny _ l).entered.trans heq⟩

end Catalog

end FlowCompiler
