import FlowCompiler.Command.Basic
import FlowCompiler.Proofs.Storage.Places

/-!
# Files are replaced at once

A temporary file is made at a place where nothing is stored, and until it is renamed nothing is stored
differently but at that place. So its removal after a failure gives the storage that was there before, and the
rename makes the only change that stays.

`Storage.Takes` says this of steps, with the rest of the storage in the statement: they take the temporary file
from one item to another, or fail and leave something at its place only. Each step has a rule of its own, and
`Takes.cons` puts them together.

Main statement: `Command.compile_all_or_nothing`. The compile command either fails and leaves all stored files as
they were, or replaces the file at the output path by the generated program and changes nothing else.
-/

namespace FlowCompiler

open List

variable {s' : Storage} {step : Storage → Attempt}

namespace Storage

variable {s : Storage} {l m : Location} {i j : Item}

/-! ## Single items -/

@[simp] theorem put_working (s : Storage) (l : Location) (i : Item) : (s.put l i).working = s.working := by
  unfold put
  split <;> rfl

theorem item?_eq_none (h : s.item? l = none) : l ≠ [] ∧ ∀ e ∈ s.items, (e.1 == l) = false := by
  unfold item? at h
  split at h
  · cases h
  · next hl =>
    refine ⟨hl, fun e he => ?_⟩
    rw [Option.map_eq_none_iff, find?_eq_none] at h
    simpa using h e he

theorem put_of_item?_eq_none (h : s.item? l = none) (i : Item) :
    s.put l i = { s with items := s.items ++ [(l, i)] } := by
  have hnone : s.items.any (·.1 == l) = false := any_eq_false.mpr fun e he => by
    simp [(item?_eq_none h).2 e he]
  rw [put, if_neg (by simp [hnone])]

/-- What was put where nothing is stored can be taken back. -/
theorem remove_put (h : s.item? l = none) (i : Item) : (s.put l i).remove l = s := by
  have hkept : s.items.filter (·.1 != l) = s.items := filter_eq_self.mpr fun e he => by
    simp [bne, (item?_eq_none h).2 e he]
  rw [put_of_item?_eq_none h, remove]
  simp [hkept]

/-- An item that is put over another one has its place. -/
theorem place_ite (e : Location × Item) (l : Location) (i : Item) :
    (if e.1 == l then (l, i) else e).1 = e.1 := by
  by_cases he : e.1 = l <;> simp [he]

theorem put_put (s : Storage) (l : Location) (i j : Item) : (s.put l i).put l j = s.put l j := by
  by_cases h : s.items.any (·.1 == l) = true
  · have hagain : (s.items.map fun e => if e.1 == l then (l, i) else e).any (·.1 == l) = true := by
      simpa only [any_map, Function.comp_def, place_ite] using h
    have htwice : ∀ e : Location × Item,
        (if (if e.1 == l then (l, i) else e).1 == l then (l, j) else if e.1 == l then (l, i) else e) =
          if e.1 == l then (l, j) else e := by
      intro e
      by_cases he : e.1 = l <;> simp [he]
    have hput : ∀ k, s.put l k = { s with items := s.items.map fun e => if e.1 == l then (l, k) else e } :=
      fun k => if_pos h
    rw [hput i, hput j, put, if_pos hagain]
    simp only [map_map, Function.comp_def, htwice]
  · have hput : ∀ k, s.put l k = { s with items := s.items ++ [(l, k)] } := fun k => if_neg h
    have hkept : (s.items.map fun e => if e.1 == l then (l, j) else e) = s.items := by
      refine (map_congr_left fun e he => ?_).trans (map_id _)
      rw [if_neg fun heq => h (any_eq_true.mpr ⟨e, he, heq⟩), id]
    rw [hput i, hput j, put, if_pos (by simp)]
    simp only [map_append, hkept, map_cons, map_nil, beq_self_eq_true, if_true]

/-- Only the place at which something is put changes. -/
theorem item?_put (hl : l ≠ []) (s : Storage) (i : Item) (m : Location) :
    (s.put l i).item? m = if m = l then some i else s.item? m := by
  by_cases hm : m = []
  · have hne : m ≠ l := fun h => hl (h ▸ hm)
    rw [if_neg hne, item?, item?, if_pos hm, if_pos hm]
  rw [item?, item?, if_neg hm, if_neg hm]
  unfold put
  split
  · -- the items keep their places
    next hany =>
    dsimp only
    rw [find?_map]
    simp only [Function.comp_def, place_ite]
    by_cases hml : m = l
    · subst hml
      obtain ⟨e, he⟩ := Option.isSome_iff_exists.mp (find?_isSome.mpr (any_eq_true.mp hany))
      have hplace : e.1 = m := by simpa using find?_some he
      simp [he, hplace]
    · rw [if_neg hml]
      cases he : s.items.find? (·.1 == m) with
      | none => rfl
      | some e =>
        have hplace : e.1 = m := by simpa using find?_some he
        simp [hplace, hml]
  · next hany =>
    dsimp only
    rw [find?_append]
    by_cases hml : m = l
    · subst hml
      have hnone : s.items.find? (·.1 == m) = none := find?_eq_none.mpr fun e he heq =>
        hany (any_eq_true.mpr ⟨e, he, heq⟩)
      simp [hnone]
    · have hlast : [(l, i)].find? (·.1 == m) = none := by simp [Ne.symm hml]
      simp [hlast, hml]

/-! ## Paths -/

/-- Paths lead to the same places where no directory is lost. -/
theorem walk_mono (hdirs : ∀ m, s.item? m = some .directory → s'.item? m = some .directory)
    {parts : List String} (h : s.walk l parts = .ok m) : s'.walk l parts = .ok m := by
  induction parts generalizing l with
  | nil => exact h
  | cons part parts ih =>
    unfold walk at h ⊢
    split at h
    · next l₁ henter =>
      obtain ⟨hdir, rfl⟩ := enter_eq_ok henter
      have henter' : s'.enter l part = s.enter l part := by
        rw [enter, enter, hdir, hdirs l hdir]
      rw [henter', henter]
      exact ih h
    · cases h

theorem locate_mono (hdirs : ∀ m, s.item? m = some .directory → s'.item? m = some .directory)
    (hworking : s'.working = s.working) {path : String} (h : s.locate path = .ok l) :
    s'.locate path = .ok l := by
  unfold locate at h ⊢
  rw [hworking]
  split at h
  · cases h
  · next hne =>
    rw [if_neg hne]
    exact walk_mono hdirs h

/-- Where a path leads, if there is no directory. -/
def HasPlace (s : Storage) (path : String) (l : Location) : Prop :=
  s.locate path = .ok l ∧ s.item? l ≠ some .directory

theorem HasPlace.ne_nil {path : String} (h : s.HasPlace path l) : l ≠ [] := by
  rintro rfl
  exact h.2 rfl

/-- What is put at the place of a path is found there. -/
theorem HasPlace.lookup_put {path : String} (h : s.HasPlace path l) (i : Item) :
    (s.put l i).lookup path = .ok i := by
  have hlocate : (s.put l i).locate path = .ok l := by
    refine locate_mono (fun m hm => ?_) (put_working s l i) h.1
    have hml : m ≠ l := by
      rintro rfl
      exact h.2 hm
    rw [item?_put h.ne_nil, if_neg hml, hm]
  simp [lookup, hlocate, item?_put h.ne_nil]

/-- A new file does not change where paths lead. -/
theorem HasPlace.of_put {path text : String} {mode : Nat} (hfree : s.item? l = none)
    (h : (s.put l (.file text mode)).HasPlace path m) : s.HasPlace path m := by
  have hl := (item?_eq_none hfree).1
  obtain ⟨hlocate, hitem⟩ := h
  refine ⟨locate_mono (fun n hn => ?_) (put_working s l _).symm hlocate, fun hdir => hitem ?_⟩
  · rw [item?_put hl] at hn
    split at hn
    · cases hn
    · exact hn
  · have hml : m ≠ l := by
      rintro rfl
      rw [hfree] at hdir
      cases hdir
    rw [item?_put hl, if_neg hml, hdir]

/-! ## Steps -/

/-- What steps do to a storage that was `before` and got the temporary file `i` at `l`: they succeed and
establish `Q`, or they fail and have changed nothing but at that place. -/
def Takes (before : Storage) (l : Location) (i : Item) (steps : List (Storage → Attempt))
    (Q : Storage → Prop) : Prop :=
  ∀ s e, (before.put l i).attempt steps = (s, e) →
    (e = none → Q s) ∧ (e ≠ none → ∃ j, s = before.put l j)

section Takes

variable {before : Storage} {Q : Storage → Prop} {refusals : Refusals} {temporary path text : String}
  {mode : Nat}

theorem attempt_singleton (s : Storage) (step : Storage → Attempt) : s.attempt [step] = step s := by
  unfold attempt
  rcases step s with ⟨s₁, _ | e⟩ <;> rfl

theorem takes_of_ok (hstep : step (before.put l i) = (s', none)) (hs : Q s') : Takes before l i [step] Q := by
  intro s e h
  rw [attempt_singleton, hstep] at h
  cases h
  exact ⟨fun _ => hs, fun hne => absurd rfl hne⟩

theorem takes_of_error {e₁ : ReplaceError} (hstep : step (before.put l i) = (before.put l j, some e₁)) :
    Takes before l i [step] Q := by
  intro s e h
  rw [attempt_singleton, hstep] at h
  cases h
  exact ⟨fun hnone => absurd hnone (Option.some_ne_none e₁), fun _ => ⟨j, rfl⟩⟩

/-- A step that takes the temporary file from `i` to `j` comes before steps that go on from `j`. -/
theorem Takes.cons {step : Storage → Attempt} {steps : List (Storage → Attempt)}
    (hstep : Takes before l i [step] (· = before.put l j)) (hsteps : Takes before l j steps Q) :
    Takes before l i (step :: steps) Q := by
  intro s e h
  have hfirst := attempt_singleton (before.put l i) step
  rw [attempt] at h
  rcases hrun : step (before.put l i) with ⟨s₁, _ | e₁⟩
  · rw [hrun] at h hfirst
    obtain rfl : s₁ = before.put l j := (hstep _ _ hfirst).1 rfl
    exact hsteps s e h
  · rw [hrun] at h hfirst
    cases h
    exact ⟨fun hnone => absurd hnone (Option.some_ne_none e₁), (hstep _ _ hfirst).2⟩

theorem takes_write : Takes before l i [fun s => s.writeTemporary refusals l temporary text]
    (· = before.put l (.file text privateMode)) := by
  cases herror : refusals.error? .write "write" temporary with
  | some e => exact takes_of_error (by rw [writeTemporary, herror, put_put])
  | none => exact takes_of_ok (by simp only [writeTemporary, herror, put_put]) rfl

/-- A step that changes nothing may only be refused. -/
theorem takes_same {e? : Option ReplaceError} :
    Takes before l i [fun s => (s, e?)] (· = before.put l i) := by
  cases e? with
  | some e => exact takes_of_error rfl
  | none => exact takes_of_ok rfl rfl

theorem takes_share (hl : l ≠ []) : Takes before l (.file text mode)
    [fun s => s.shareTemporary refusals l temporary] (· = before.put l (.file text sharedMode)) := by
  have hitem : (before.put l (.file text mode)).item? l = some (.file text mode) := by
    rw [item?_put hl, if_pos rfl]
  cases herror : refusals.error? .chmod "chmod" temporary with
  | some e => exact takes_of_error (by rw [shareTemporary, herror])
  | none => exact takes_of_ok (by simp only [shareTemporary, herror, hitem, put_put]) rfl

theorem renameTo_eq_ok (h : s.renameTo refusals l temporary path = .ok s') :
    refusals.step .rename = none ∧
      ∃ target i, s.HasPlace path target ∧ s.item? l = some i ∧ s' = (s.remove l).put target i := by
  unfold renameTo at h
  dsimp only at h
  split at h
  · cases h
  · next hrename =>
    split at h
    · cases h
    · next target hlocate =>
      split at h
      · cases h
      · cases h
      · next i hitem hnot =>
        cases h
        exact ⟨hrename, target, i, ⟨hlocate, hnot⟩, hitem, rfl⟩

/-- The rename makes the one change that stays. -/
theorem takes_move (hfree : before.item? l = none) : Takes before l (.file text mode)
    [fun s => s.moveTemporary refusals l temporary path]
    (fun s => ∃ target, before.HasPlace path target ∧ s = before.put target (.file text mode)) := by
  cases hrename : (before.put l (.file text mode)).renameTo refusals l temporary path with
  | error e =>
    exact takes_of_error (by rw [moveTemporary, hrename])
  | ok s' =>
    refine takes_of_ok (by rw [moveTemporary, hrename]) ?_
    obtain ⟨-, target, i, hplace, hitem, rfl⟩ := renameTo_eq_ok hrename
    rw [item?_put (item?_eq_none hfree).1, if_pos rfl] at hitem
    cases hitem
    exact ⟨target, hplace.of_put hfree, by rw [remove_put hfree]⟩

end Takes

/-! ## The whole replacement -/

theorem createTemporary_eq_ok {refusals : Refusals} {path stamp : String}
    (h : s.createTemporary refusals path stamp = .ok (l, s')) :
    refusals.step .create = none ∧ s.item? l = none ∧ s' = s.put l (.file "" privateMode) := by
  unfold createTemporary at h
  dsimp only at h
  split at h
  · cases h
  · split at h
    · cases h
    · next hcreate =>
      split at h
      · cases h
      · split at h
        · cases h
        · next hfree =>
          cases h
          exact ⟨hcreate, by simpa using hfree, rfl⟩

/-- Replacing a file fails and leaves all as it was, or puts the new file at the place of the path and changes
nothing else. -/
theorem replace_cases {refusals : Refusals} (hremoval : refusals.removal = false) (path stamp text : String) :
    (∃ e, s.replace refusals path stamp text = (s, some e)) ∨
      ∃ target, s.HasPlace path target ∧
        s.replace refusals path stamp text = (s.put target (.file text sharedMode), none) := by
  unfold replace
  dsimp only
  cases hcreate : s.createTemporary refusals path stamp with
  | error e => exact .inl ⟨_, rfl⟩
  | ok made =>
    obtain ⟨l, s₁⟩ := made
    obtain ⟨-, hfree, rfl⟩ := createTemporary_eq_ok hcreate
    generalize temporaryPath path stamp = temporary
    have htakes : Takes s l (.file "" privateMode) (replaceSteps refusals l temporary path text)
        (fun s' => ∃ target, s.HasPlace path target ∧ s' = s.put target (.file text sharedMode)) :=
      takes_write.cons <| takes_same.cons <| takes_same.cons <|
        (takes_share (item?_eq_none hfree).1).cons (takes_move hfree)
    dsimp only
    rcases hrun : (s.put l (.file "" privateMode)).attempt (replaceSteps refusals l temporary path text) with
      ⟨s₂, _ | e⟩
    · obtain ⟨target, hplace, rfl⟩ := (htakes _ _ hrun).1 rfl
      exact .inr ⟨target, hplace, rfl⟩
    · obtain ⟨j, rfl⟩ := (htakes _ _ hrun).2 (Option.some_ne_none e)
      refine .inl ⟨e, ?_⟩
      dsimp only
      rw [dropTemporary, if_neg (by simp [hremoval]), remove_put hfree]

example : replace ⟨["w"], [(["w"], .directory), (["w", "o.go"], .file "old" 0o600)]⟩ .none "o.go" "1" "new" =
    (⟨["w"], [(["w"], .directory), (["w", "o.go"], .file "new" 0o644)]⟩, none) := by decide +kernel

theorem attempt_eq_none {steps : List (Storage → Attempt)} (h : s.attempt steps = (s', none)) :
    ∀ step ∈ steps, ∃ s₁, (step s₁).2 = none := by
  induction steps generalizing s with
  | nil => exact forall_mem_nil _
  | cons step steps ih =>
    rw [attempt] at h
    rcases hrun : step s with ⟨s₁, _ | e⟩
    · rw [hrun] at h
      exact forall_mem_cons.mpr ⟨⟨s, by rw [hrun]⟩, ih h⟩
    · rw [hrun] at h
      cases h

theorem Refusals.error?_eq_none {refusals : Refusals} {step : ReplaceStep} {operation temporary : String}
    (h : refusals.error? step operation temporary = none) : refusals.step step = none := by
  simpa [Refusals.error?] using h

/-- No refused step is passed over. -/
theorem replace_eq_none {refusals : Refusals} {path stamp text : String}
    (h : s.replace refusals path stamp text = (s', none)) (step : ReplaceStep) :
    refusals.step step = none := by
  unfold replace at h
  dsimp only at h
  split at h
  · cases h
  · next l s₁ hcreate =>
    split at h
    · cases h
    · next s₂ hrun =>
      have hsteps := attempt_eq_none hrun
      simp only [replaceSteps, forall_mem_cons, not_mem_nil, false_implies, implies_true,
        and_true] at hsteps
      obtain ⟨⟨sw, hwrite⟩, ⟨-, hsync⟩, ⟨-, hclose⟩, ⟨sc, hshare⟩, sm, hmove⟩ := hsteps
      cases step with
      | create => exact (createTemporary_eq_ok hcreate).1
      | write =>
        unfold writeTemporary at hwrite
        split at hwrite
        · cases hwrite
        · next herror => exact Refusals.error?_eq_none herror
      | sync => exact Refusals.error?_eq_none hsync
      | close => exact Refusals.error?_eq_none hclose
      | chmod =>
        unfold shareTemporary at hshare
        split at hshare
        · cases hshare
        · next herror => exact Refusals.error?_eq_none herror
      | rename =>
        unfold moveTemporary at hmove
        split at hmove
        · cases hmove
        · next hrename => exact (renameTo_eq_ok hrename).1

/-- A storage in which the file at a path was replaced: the path leads to the new file, and all else is as it
was. -/
structure Replaced (before after : Storage) (path text : String) : Prop where
  found : after.lookup path = .ok (.file text 0o644)
  others : ∃ l, before.HasPlace path l ∧ ∀ m, m ≠ l → after.item? m = before.item? m
  working : after.working = before.working

theorem HasPlace.replaced {path : String} (h : s.HasPlace path l) (text : String) :
    s.Replaced (s.put l (.file text sharedMode)) path text :=
  ⟨h.lookup_put _, ⟨l, h, fun m hm => by rw [item?_put h.ne_nil, if_neg hm]⟩, put_working ..⟩

end Storage

namespace Command

variable {env : Environment}

/-- The flags of the compile command. -/
def compileFlags : List Flag :=
  sourceFlags ++ [{ name := "symbol", short := some 's' }, { name := "package" }] ++ sharedFlags ++ [helpFlag]

/-- The words of a compile command. -/
def compileWords (words : List String) : Except UsageError Words :=
  readWords compileFlags {} none (dropPlain sharedFlags "compile" words)

/-- The program for the flow at `input`, with the catalogs, presets and names that the words give. -/
def Generates (storage : Storage) (w : Words) (input output text : String) : Prop :=
  ∃ log cfg s root s', readConfig storage w = (log, .ok cfg) ∧
    Session.compileFile {} cfg input = (s, .ok root) ∧
    s.generate cfg.registry (programForm storage w output) = (s', .ok text)

theorem compileFlow_cases (hremoval : env.refusals.removal = false) (w : Words) (input output : String) :
    ((compileFlow env w input output).failure ≠ none ∧
      (compileFlow env w input output).storage = env.storage) ∨
    ((compileFlow env w input output).failure = none ∧ (∀ step, env.refusals.step step = none) ∧
      ∃ text, Generates env.storage w input output text ∧
        env.storage.Replaced (compileFlow env w input output).storage output text) := by
  unfold compileFlow
  split
  · exact .inl ⟨Option.some_ne_none _, rfl⟩
  · next log cfg hconfig =>
    split
    · exact .inl ⟨Option.some_ne_none _, rfl⟩
    · next s root hcompile =>
      dsimp only
      split
      · exact .inl ⟨Option.some_ne_none _, rfl⟩
      · next s' text hgenerate =>
        have hgenerates : Generates env.storage w input output text :=
          ⟨log, cfg, s, root, s', hconfig, hcompile, hgenerate⟩
        obtain ⟨e, hrun⟩ | ⟨target, hplace, hrun⟩ :=
          env.storage.replace_cases hremoval output env.stamp text
        · rw [hrun]
          exact .inl ⟨Option.some_ne_none _, rfl⟩
        · rw [hrun]
          exact .inr ⟨rfl, Storage.replace_eq_none hrun, text, hgenerates, hplace.replaced text⟩

/-- The compile command is the first of the commands. -/
theorem run_compile (env : Environment) {words : List String}
    (h : (plainWords sharedFlags words).head? = some "compile") :
    ∃ c, commands.head? = some c ∧ run env words =
      match compileWords words with
      | .error e => { storage := env.storage, failure := some (.usage e) }
      | .ok w => if w.isOn "help" then { storage := env.storage } else c.perform env w := by
  obtain ⟨more, hplain⟩ := head?_eq_some_iff.mp h
  refine ⟨_, rfl, ?_⟩
  rw [run, hplain]
  rfl

/-- Unless its words are refused, the compile command compiles the flow at its first operand. -/
theorem perform_compile {c : Spec} (hc : commands.head? = some c) (w : Words) :
    ((c.perform env w).failure ≠ none ∧ (c.perform env w).storage = env.storage) ∨
      ∃ input output logger, w.operands = [input, output] ∧
        c.perform env w = { compileFlow env w input output with logger := some logger } := by
  cases hc
  unfold Spec.perform
  dsimp only
  split
  · exact .inl ⟨Option.some_ne_none _, rfl⟩
  · next harity =>
    split
    · exact .inl ⟨Option.some_ne_none _, rfl⟩
    · next logger _ =>
      split
      · exact .inl ⟨Option.some_ne_none _, rfl⟩
      · have hlength : w.operands.length = 2 := by simpa [Arity.accepts] using harity
        obtain ⟨input, output, hoperands⟩ := length_eq_two.mp hlength
        exact .inr ⟨input, output, logger, hoperands, by rw [hoperands]; rfl⟩

/-- The compile command fails and leaves all stored files as they were, whatever step failed, or replaces the
file at the output path by the program for the flow and changes nothing else. It does not succeed if a step was
refused. It is taken for granted that the temporary file can be removed, and that a rename is one change. A call
for help does nothing. -/
theorem compile_all_or_nothing (env : Environment) (words : List String)
    (hcommand : (plainWords sharedFlags words).head? = some "compile")
    (hremoval : env.refusals.removal = false) :
    ((run env words).failure ≠ none → (run env words).storage = env.storage) ∧
    ((run env words).failure = none → ∃ w, compileWords words = .ok w ∧
      (w.isOn "help" = true ∧ (run env words).storage = env.storage ∨
        (∀ step, env.refusals.step step = none) ∧
        ∃ input output text, w.operands = [input, output] ∧ Generates env.storage w input output text ∧
          env.storage.Replaced (run env words).storage output text)) := by
  obtain ⟨c, hc, hrun⟩ := run_compile env hcommand
  rw [hrun]
  cases hwords : compileWords words with
  | error e => exact ⟨fun _ => rfl, fun hok => absurd hok (Option.some_ne_none _)⟩
  | ok w =>
    dsimp only
    by_cases hhelp : w.isOn "help" = true
    · rw [if_pos hhelp]
      exact ⟨fun _ => rfl, fun _ => ⟨w, rfl, .inl ⟨hhelp, rfl⟩⟩⟩
    · rw [if_neg hhelp]
      obtain ⟨hfailure, hstorage⟩ | ⟨input, output, logger, hoperands, hperform⟩ := perform_compile hc w
      · exact ⟨fun _ => hstorage, fun hok => absurd hok hfailure⟩
      · rw [hperform]
        obtain ⟨hfailure, hstorage⟩ | ⟨hok, hsteps, text, hgenerates, hreplaced⟩ :=
          compileFlow_cases hremoval w input output
        · exact ⟨fun _ => hstorage, fun hok => absurd hok hfailure⟩
        · exact ⟨fun hne => absurd hok hne,
            fun _ => ⟨w, rfl, .inr ⟨hsteps, input, output, text, hoperands, hgenerates, hreplaced⟩⟩⟩

/-- A directory with an older program, an empty flow, a flow with an unknown type, and a catalog without types.
The temporary file cannot be synced. -/
def workshop : Environment where
  storage := ⟨["w"], [(["w"], .directory), (["w", "types.json"], .file "\x7b\x7d" 0o644),
    (["w", "idle.fbp"], .file "" 0o600), (["w", "bad.fbp"], .file "t(timer)" 0o600),
    (["w", "old.go"], .file "previous" 0o600)]⟩
  refusals := { step := fun step => if step = .sync then some .isDirectory else none }
  stamp := "1"

/-- Neither a flow that does not compile nor a step that is refused touches the older program. -/
theorem compile_all_or_nothing_workshop :
    ((run workshop ["compile", "-j", "types.json", "bad.fbp", "old.go"]).failure ≠ none ∧
      (run workshop ["compile", "-j", "types.json", "bad.fbp", "old.go"]).storage = workshop.storage) ∧
    ((run workshop ["compile", "-j", "types.json", "idle.fbp", "old.go"]).failure ≠ none ∧
      (run workshop ["compile", "-j", "types.json", "idle.fbp", "old.go"]).storage = workshop.storage) := by
  have hbad := compile_all_or_nothing workshop ["compile", "-j", "types.json", "bad.fbp", "old.go"]
    (by decide) (by decide)
  have hidle := compile_all_or_nothing workshop ["compile", "-j", "types.json", "idle.fbp", "old.go"]
    (by decide) (by decide)
  have hdiagnostic : (run workshop ["compile", "-j", "types.json", "bad.fbp", "old.go"]).failure ≠ none :=
    Option.isSome_iff_ne_none.mp (by decide +kernel)
  have hrefused : (run workshop ["compile", "-j", "types.json", "idle.fbp", "old.go"]).failure ≠ none := by
    intro hok
    obtain ⟨w, hwords, ⟨hhelp, -⟩ | ⟨hsteps, -⟩⟩ := hidle.2 hok
    · have hnone : (compileWords ["compile", "-j", "types.json", "idle.fbp", "old.go"]).toOption.any
          (·.isOn "help") = false := by decide +kernel
      rw [hwords] at hnone
      exact absurd hhelp (Bool.eq_false_iff.mp hnone)
    · exact absurd (hsteps .sync) (by decide)
  exact ⟨⟨hdiagnostic, hbad.1 hdiagnostic⟩, hrefused, hidle.1 hrefused⟩

end Command

end FlowCompiler
