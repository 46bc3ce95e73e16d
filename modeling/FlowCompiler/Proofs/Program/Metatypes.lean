import FlowCompiler.Proofs.Compile.Preorder
import FlowCompiler.Proofs.Naming.Distinct

/-!
# Requests to metatypes

For the declared types of a session a program asks metatypes for code. `Session.requests` is the order in
which this is done when nothing was asked for before: kind after kind, in the order of their first
declarations, and for a kind once for the code that its types share, once for each of its types, and once
for what follows them.

Main statement: `Origin.compile_requests`. Compiling a flow asks for nothing, so for a program that is
generated afterwards these requests are made to metatypes that are known, one after another up to one that
fails, and what they give is the code of metatypes in the program. For each declared type there is one
request for the function that builds it.
-/

namespace FlowCompiler

open List Source

/-- A request to the metatype of a kind. -/
structure MetatypeRequest where
  kind : String
  call : MetatypeCall
deriving DecidableEq

/-- Whether a request is for the function of a declared type. -/
def MetatypeRequest.builds (r : MetatypeRequest) (funcName : String) : Bool :=
  match r.call with
  | .define use => use.funcName == funcName
  | .start | .finish => false

/-- What a metatype is told of a declared type. -/
def DeclaredType.use (d : DeclaredType) : MetatypeUse := ⟨d.name, d.contents, d.funcName⟩

namespace Registry

variable {registry : Registry} {kind : String} {m : Metatype} {r : MetatypeRequest} {rs : List MetatypeRequest}

/-- The answer of the metatype that a request is for. -/
def answer (registry : Registry) (r : MetatypeRequest) : Except ProgramError (List Decl) :=
  match registry.find? r.kind with
  | none => .error (.unknownKind r.kind)
  | some m => (m.answer r.call).mapError (.metatype r.kind)

/-- The code that requests give, made one after another up to one that fails. -/
def code (registry : Registry) (rs : List MetatypeRequest) : Except ProgramError (List Decl) :=
  List.flatten <$> rs.mapM registry.answer

theorem code_cons : registry.code (r :: rs) =
    registry.answer r >>= fun first => (first ++ ·) <$> registry.code rs := by
  simp [code, mapM_cons]

theorem code_append (rs' : List MetatypeRequest) : registry.code (rs ++ rs') =
    registry.code rs >>= fun first => (first ++ ·) <$> registry.code rs' := by
  simp [code, mapM_append]

theorem answer_eq_ok {part : List Decl} (h : registry.answer r = .ok part) :
    ∃ m, registry.find? r.kind = some m ∧ m.answer r.call = .ok part := by
  unfold answer at h
  split at h
  · cases h
  · next m hm =>
    refine ⟨m, hm, ?_⟩
    cases hcall : m.answer r.call with
    | error e => simp [hcall, Except.mapError] at h
    | ok part' => simpa [hcall, Except.mapError] using h

/-- All code is part of an answer. -/
theorem mem_code {decls : List Decl} {d : Decl} (h : registry.code rs = .ok decls) (hd : d ∈ decls) :
    ∃ r ∈ rs, ∃ part, registry.answer r = .ok part ∧ d ∈ part := by
  induction rs generalizing decls with
  | nil =>
    cases h
    cases hd
  | cons r rs ih =>
    rw [code_cons] at h
    obtain ⟨first, hfirst, h⟩ := bind_eq_ok.mp h
    obtain ⟨more, hmore, ⟨⟩⟩ := map_eq_ok.mp h
    rcases mem_append.mp hd with hd | hd
    · exact ⟨r, mem_cons_self, first, hfirst, hd⟩
    · obtain ⟨r', hr', hpart⟩ := ih hmore hd
      exact ⟨r', mem_cons_of_mem r hr', hpart⟩

theorem code_of_find? (hm : registry.find? kind = some m) (calls : List MetatypeCall) :
    registry.code (calls.map (⟨kind, ·⟩)) = (m.answers calls).mapError (.metatype kind) := by
  induction calls with
  | nil => rfl
  | cons c calls ih =>
    rw [map_cons, code_cons, ih, Metatype.answers]
    simp only [answer, hm]
    cases m.answer c with
    | error e => rfl
    | ok first => cases m.answers calls <;> rfl

end Registry

namespace Session

variable {cfg : Config} {registry : Registry} {s s' : Session} {form : ProgramForm} {kind : String}
  {r : MetatypeRequest}

/-- What is asked for a kind, with its shared code unless it was asked for before. -/
def requestsOf (s : Session) (kind : String) : List MetatypeRequest :=
  (metatypeCalls (!s.begun.contains kind) (s.usesOf kind)).map (⟨kind, ·⟩)

theorem begin_fst (s : Session) (kind : String) : (s.begin kind).1.units = s.units ∧
    ∀ other, other ≠ kind → (s.begin kind).1.begun.contains other = s.begun.contains other := by
  unfold begin
  split
  · exact ⟨rfl, fun _ _ => rfl⟩
  · refine ⟨rfl, fun other hne => ?_⟩
    simp [hne]

theorem begin_snd (s : Session) (kind : String) : (s.begin kind).2 = !s.begun.contains kind := by
  unfold begin
  split <;> simp_all

theorem usesOf_congr (h : s'.units = s.units) : s'.usesOf kind = s.usesOf kind := by
  rw [usesOf, usesOf, declared, declared, h]

/-- The code of metatypes is what the requests for the kinds give. -/
theorem metatypeDecls_eq (registry : Registry) {kinds : List String} (hkinds : kinds.Nodup) :
    (s.metatypeDecls registry kinds).1.units = s.units ∧
      (s.metatypeDecls registry kinds).2 = registry.code (kinds.flatMap s.requestsOf) := by
  induction kinds generalizing s with
  | nil => exact ⟨rfl, rfl⟩
  | cons kind kinds ih =>
    obtain ⟨hkind, hkinds⟩ := nodup_cons.mp hkinds
    obtain ⟨hunits, hbegun⟩ := s.begin_fst kind
    have hfirst := s.begin_snd kind
    rcases hs₁ : s.begin kind with ⟨s₁, first⟩
    rw [hs₁] at hunits hbegun
    obtain rfl : first = !s.begun.contains kind := by rw [← hfirst, hs₁]
    obtain ⟨ihunits, ihcode⟩ := ih hkinds (s := s₁)
    have hrest : kinds.flatMap s₁.requestsOf = kinds.flatMap s.requestsOf := by
      refine flatMap_congr fun other hother => ?_
      have hne : other ≠ kind := fun heq => hkind (heq ▸ hother)
      rw [requestsOf, requestsOf, hbegun other hne, usesOf_congr hunits]
    have hblock : s.requestsOf kind =
        (metatypeCalls (!s.begun.contains kind) (s₁.usesOf kind)).map (⟨kind, ·⟩) := by
      rw [requestsOf, usesOf_congr hunits]
    rw [flatMap_cons, Registry.code_append, hblock]
    unfold metatypeDecls
    split
    · next hfind =>
      -- whatever is asked first of an unknown kind fails
      obtain ⟨c, cs, hcalls⟩ : ∃ c cs, metatypeCalls (!s.begun.contains kind) (s₁.usesOf kind) = c :: cs :=
        exists_cons_of_ne_nil (by simp [metatypeCalls])
      refine ⟨rfl, ?_⟩
      rw [hcalls, map_cons, Registry.code_cons, Registry.answer]
      simp only [hfind]
      rfl
    · next m hfind =>
      rw [Registry.code_of_find? hfind]
      simp only [hs₁]
      cases hanswers : m.answers (metatypeCalls (!s.begun.contains kind) (s₁.usesOf kind)) with
      | error e => exact ⟨hunits, rfl⟩
      | ok decls =>
        rcases hmore : s₁.metatypeDecls registry kinds with ⟨s₂, e | more⟩
        all_goals
          rw [hmore] at ihunits ihcode
          rw [← hrest, ← ihcode]
          exact ⟨ihunits.trans hunits, rfl⟩

/-! ## Kinds -/

theorem kinds_eq (s : Session) : s.kinds = (s.declared.map (·.kind)).eraseDups := by
  have main : ∀ (ds : List DeclaredType) (kept : List String),
      (ds.foldl (fun kept d => if kept.contains d.kind then kept else d.kind :: kept) kept).reverse =
        List.eraseDupsBy.loop (· == ·) (ds.map (·.kind)) kept := by
    intro ds
    induction ds with
    | nil => exact fun _ => rfl
    | cons d ds ih =>
      intro kept
      rw [foldl_cons, map_cons, List.eraseDupsBy.loop, ih, contains_eq_any_beq]
      cases kept.any (d.kind == ·) <;> rfl
  exact main s.declared []

/-- What is kept of a list without repetitions stands in the order of its first places. -/
theorem pairwise_eraseDups {α : Type} [DecidableEq α] (xs : List α) :
    xs.eraseDups.Pairwise fun a b => xs.idxOf a < xs.idxOf b := by
  induction xs using reverseRecOn with
  | nil => exact .nil
  | append_singleton xs x ih =>
    have hkept : xs.eraseDups.Pairwise fun a b => (xs ++ [x]).idxOf a < (xs ++ [x]).idxOf b := by
      refine ih.imp_of_mem fun ha hb hlt => ?_
      rwa [idxOf_append_of_mem (mem_eraseDups.mp ha), idxOf_append_of_mem (mem_eraseDups.mp hb)]
    rw [eraseDups_append]
    by_cases hx : x ∈ xs
    · rwa [show [x].removeAll xs = [] by simp [removeAll, hx], eraseDups_nil, append_nil]
    · rw [show [x].removeAll xs = [x] by simp [removeAll, hx], show [x].eraseDups = [x] from rfl, pairwise_append]
      refine ⟨hkept, pairwise_singleton _ _, fun a ha b hb => ?_⟩
      obtain rfl := mem_singleton.mp hb
      rw [idxOf_append_of_mem (mem_eraseDups.mp ha), idxOf_append_of_notMem hx]
      exact Nat.lt_of_lt_of_le (idxOf_lt_length_of_mem (mem_eraseDups.mp ha)) (Nat.le_add_right _ _)

theorem kinds_ordered (s : Session) : s.kinds.Pairwise fun a b =>
    (s.declared.map (·.kind)).idxOf a < (s.declared.map (·.kind)).idxOf b := by
  rw [kinds_eq]
  exact pairwise_eraseDups _

theorem nodup_kinds (s : Session) : s.kinds.Nodup := by
  refine s.kinds_ordered.imp fun hlt heq => ?_
  rw [heq] at hlt
  exact Nat.lt_irrefl _ hlt

theorem mem_kinds : kind ∈ s.kinds ↔ ∃ d ∈ s.declared, d.kind = kind := by
  rw [kinds_eq, mem_eraseDups, mem_map]

/-! ## Programs -/

theorem programFile_congr (h : s'.units = s.units) : s'.programFile = s.programFile := by
  unfold programFile externalTypes
  rw [h]

/-- A program is made from a package, names of packages and the code of metatypes. -/
theorem program_eq {root : FlowUnit} {more : List FlowUnit} (h : s.units = root :: more) :
    (s.program registry form).2 = form.package >>= fun package =>
      Names.aliases registry s.units form >>= fun aliases =>
        s.programFile root form package aliases <$> registry.code (s.kinds.flatMap s.requestsOf) := by
  obtain ⟨hunits, hcode⟩ := metatypeDecls_eq registry s.nodup_kinds
  rw [← hcode]
  unfold program
  simp only [h]
  cases form.package with
  | error e => rfl
  | ok package =>
    simp only [← h]
    cases Names.aliases registry s.units form with
    | error e => rfl
    | ok aliases =>
      rcases hdecls : s.metatypeDecls registry s.kinds with ⟨s₁, e | decls⟩
      · rfl
      · rw [hdecls] at hunits
        simp only [programFile_congr hunits]
        rfl

/-! ## Requests for declared types -/

/-- All that is asked for a kind: its shared code, the code of each of its types, and what follows. -/
def block (s : Session) (kind : String) : List MetatypeRequest :=
  ⟨kind, .start⟩ :: (s.declared.filter (·.kind == kind)).map (fun d => ⟨kind, .define d.use⟩) ++
    [⟨kind, .finish⟩]

/-- All requests of a session, by kinds in the order of their first declarations. -/
def requests (s : Session) : List MetatypeRequest := s.kinds.flatMap s.block

theorem requests_eq (h : s.begun = []) : s.kinds.flatMap s.requestsOf = s.requests := by
  refine flatMap_congr fun kind _ => ?_
  simp [requestsOf, metatypeCalls, h, usesOf, block, DeclaredType.use]

theorem kind_of_mem_block (h : r ∈ s.block kind) : r.kind = kind := by
  simp only [block, cons_append, mem_cons, mem_append, mem_map, not_mem_nil,
    or_false] at h
  rcases h with rfl | ⟨d, -, rfl⟩ | rfl <;> rfl

theorem define_mem_requests {use : MetatypeUse} :
    ⟨kind, .define use⟩ ∈ s.requests ↔ ∃ d ∈ s.declared, d.kind = kind ∧ d.use = use := by
  simp only [requests, mem_flatMap, mem_kinds]
  constructor
  · rintro ⟨other, -, hmem⟩
    obtain rfl : kind = other := kind_of_mem_block hmem
    have hdefined : ∃ d, (d ∈ s.declared ∧ d.kind = kind) ∧ d.use = use := by simpa [block] using hmem
    obtain ⟨d, ⟨hd, hkind⟩, huse⟩ := hdefined
    exact ⟨d, hd, hkind, huse⟩
  · rintro ⟨d, hd, rfl, rfl⟩
    refine ⟨d.kind, ⟨d, hd, rfl⟩, ?_⟩
    simp only [block, cons_append, mem_cons, mem_append, mem_map, mem_filter]
    exact .inr (.inl ⟨d, ⟨hd, beq_self_eq_true d.kind⟩, rfl⟩)

theorem nodup_requests (h : (s.declared.map (·.funcName)).Nodup) : s.requests.Nodup := by
  refine nodup_flatMap.mpr ⟨fun kind _ => ?_, s.nodup_kinds.imp fun hne r hr hr' => ?_⟩
  · have hdefines : ((s.declared.filter (·.kind == kind)).map fun d =>
        (⟨kind, .define d.use⟩ : MetatypeRequest)).Nodup := by
      refine .map_on (fun d hd d' hd' heq => ?_) (h.of_map.filter _)
      have huse : d.use = d'.use := by simpa using heq
      exact inj_on_of_nodup_map h (mem_of_mem_filter hd) (mem_of_mem_filter hd')
        (congrArg MetatypeUse.funcName huse)
    refine nodup_append.mpr ⟨nodup_cons.mpr ⟨by simp, hdefines⟩, nodup_singleton _, ?_⟩
    rintro r hr _ hlast rfl
    obtain rfl := mem_singleton.mp hlast
    simp at hr
  · exact hne ((kind_of_mem_block hr).symm.trans (kind_of_mem_block hr'))

/-- One request is for the function of a declared type, and it is for the type as it was declared. -/
theorem filter_builds (h : (s.declared.map (·.funcName)).Nodup) {d : DeclaredType} (hd : d ∈ s.declared) :
    s.requests.filter (·.builds d.funcName) = [⟨d.kind, .define d.use⟩] := by
  refine perm_singleton.mp ((perm_ext_iff_of_nodup ((nodup_requests h).filter _)
    (nodup_singleton _)).mpr fun r => ?_)
  rw [mem_filter, mem_singleton]
  constructor
  · rintro ⟨hr, hbuilds⟩
    obtain ⟨kind, call⟩ := r
    cases call with
    | start | finish => cases hbuilds
    | define use =>
      obtain ⟨d', hd', rfl, rfl⟩ := define_mem_requests.mp hr
      have hname : d'.funcName = d.funcName := eq_of_beq hbuilds
      rw [inj_on_of_nodup_map h hd' hd hname]
  · rintro rfl
    exact ⟨define_mem_requests.mpr ⟨d, hd, rfl, rfl⟩, beq_self_eq_true d.funcName⟩

end Session

namespace Origin

variable {o : Origin} {cfg : Config} {s₀ s : Session} {root : FlowUnit}

/-- The requests to metatypes when a program is first generated from a compiled flow. Units stand at their numbers,
and the declared types of each are its declarations that are no flows, in their order. There is one block of
requests for each kind of them, in the order of first declarations, and the metatypes of all kinds are known. The
program holds what the requests give, made one after another up to one that fails. All requests are distinct, and
one of them is for the function of each declared type. -/
theorem compile_requests (hfresh : s₀.begun = []) (h : o.compile cfg s₀ = (s, .ok root)) (registry : Registry)
    (form : ProgramForm) :
    (∀ u ∈ s.units, s.units[u.id]? = some u ∧
      u.declared.map (fun t => (t.name, t.kind, t.contents, t.pos)) =
        (u.graph.declarations.filter (·.kind ≠ flowKind)).map fun d => (d.name, d.kind, d.contents, d.pos)) ∧
    ((∀ kind, kind ∈ s.kinds ↔ ∃ u ∈ s.units, ∃ d ∈ u.declared, d.kind = kind) ∧
      s.kinds.Pairwise (fun a b =>
        (s.declared.map (·.kind)).idxOf a < (s.declared.map (·.kind)).idxOf b) ∧
      ∀ kind ∈ s.kinds, (cfg.registry.find? kind).isSome) ∧
    ((s.program registry form).2 = form.package >>= fun package =>
      Names.aliases registry s.units form >>= fun aliases =>
        s.programFile root form package aliases <$> registry.code s.requests) ∧
    s.requests.Nodup ∧
    ∀ d ∈ s.declared, s.requests.filter (·.builds d.funcName) = [⟨d.kind, .define d.use⟩] := by
  have hok : (o.compile cfg s₀).2 = .ok root := by rw [h]
  have hcompiles := compiles_of_ok hok
  have hbegun := o.begun_of_compile cfg s₀
  rw [h] at hcompiles hbegun
  obtain ⟨⟨more, hunits⟩, hdone⟩ := hcompiles.done
  have hnames : (s.declared.map (·.funcName)).Nodup := hcompiles.nodup_namesOf (f := .declared) rfl
  refine ⟨fun u hu => ?_, ⟨fun kind => ?_, s.kinds_ordered, fun kind hkind => ?_⟩, ?_,
    Session.nodup_requests hnames, fun d hd => Session.filter_builds hnames hd⟩
  · obtain ⟨i, hi⟩ := getElem?_of_mem hu
    obtain ⟨rfl, hc⟩ := hdone i u (Nat.zero_le i) hi
    exact ⟨hi, hc.declares.recorded.2.1⟩
  · rw [Session.mem_kinds, Session.declared]
    simp only [mem_flatMap]
    constructor
    · rintro ⟨d, ⟨u, hu, hd⟩, hkind⟩
      exact ⟨u, hu, d, hd, hkind⟩
    · rintro ⟨u, hu, d, hd, hkind⟩
      exact ⟨d, ⟨u, hu, hd⟩, hkind⟩
  · obtain ⟨d, hd, rfl⟩ := Session.mem_kinds.mp hkind
    obtain ⟨u, hu, hd⟩ := mem_flatMap.mp hd
    exact (hdone.compiled hu).declares.registered d hd
  · rw [Session.program_eq hunits, Session.requests_eq (hbegun.trans hfresh)]

end Origin

namespace Session

/-- A flow file that declares a type. -/
def twoKindsConfig : Config where
  storage :=
    ⟨["w"], [(["w"], .directory), (["w", "sub"], .file "DECLARE=Q:composed-new:X(int)|Y(int)\nq(Q)" 0)]⟩
  common := { types := [] }

/-- A flow that declares a flow between types of two kinds. -/
def twoKinds : Origin :=
  .given "main.fbp" ("DECLARE=S:composed-split:C(int)|D(int)\nDECLARE=Sub:fbp:sub\n" ++
    "DECLARE=P:composed-new:A(int)|B(int)\np(P)")

end Session

namespace Origin

open Session

/-- The type of the declared flow comes with the other one of its kind, and all types are asked for. -/
theorem compile_requests_two_kinds :
    (twoKinds.compile twoKindsConfig {}).1.requests =
      [⟨"composed-split", .start⟩, ⟨"composed-split", .define ⟨"S", "C(int)|D(int)", "newS0Type"⟩⟩,
        ⟨"composed-split", .finish⟩, ⟨"composed-new", .start⟩,
        ⟨"composed-new", .define ⟨"P", "A(int)|B(int)", "newP0Type"⟩⟩,
        ⟨"composed-new", .define ⟨"Q", "X(int)|Y(int)", "newQ1Type"⟩⟩, ⟨"composed-new", .finish⟩] ∧
    ∃ root, (twoKinds.compile twoKindsConfig {}).2 = .ok root ∧
      ((twoKinds.compile twoKindsConfig {}).1.program .builtin .standalone).2 =
        Names.aliases .builtin (twoKinds.compile twoKindsConfig {}).1.units .standalone >>= fun aliases =>
          (twoKinds.compile twoKindsConfig {}).1.programFile root .standalone "main" aliases <$>
            Registry.builtin.code (twoKinds.compile twoKindsConfig {}).1.requests := by
  have hok : (twoKinds.compile twoKindsConfig {}).2.toOption.isSome = true := by decide +kernel
  refine ⟨by decide +kernel, ?_⟩
  cases hroot : (twoKinds.compile twoKindsConfig {}).2 with
  | error e => simp [hroot, Except.toOption] at hok
  | ok root => exact ⟨root, rfl, (compile_requests rfl (Prod.ext rfl hroot) .builtin .standalone).2.2.1⟩

end Origin

end FlowCompiler
