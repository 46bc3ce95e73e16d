import FlowCompiler.Graph.FlowOrder
import Mathlib

/-!
# Breadth-first order

Nodes are visited from a queue, where a node may wait several times until its first visit. What waits is in two parts:
in front the nodes that walks of `d` connections from the sources lead to, behind them those that walks of one more lead
to (`Searched`). A visit keeps this, and when the nodes in front are used up those behind take their place, with
`d + 1`.

Main statement: `flowOrder_breadthFirst`. The flow order has all nodes, once each: the sources, then the nodes that
walks from them lead to by their distance, each after one that a connection comes from, then the rest.
-/

namespace FlowCompiler.Graph

open List

variable {g : Graph} {d i k : Nat} {order near far : List Nat} {before queue seen : List Nat}

/-! ## Walks from the sources -/

/-- A node that no connection leads to. -/
def IsSource (g : Graph) (i : Nat) : Prop := i < g.nodes.length ∧ ∀ c ∈ g.connections, c.target ≠ i

/-- `g.Walk k i`: from a source, `k` connections one after the other lead to `i`. -/
inductive Walk (g : Graph) : Nat → Nat → Prop
  | source {i : Nat} (h : g.IsSource i) : Walk g 0 i
  | step {k : Nat} {c : Connection} (h : Walk g k c.source) (hc : c ∈ g.connections) : Walk g (k + 1) c.target

/-- A node that a walk from a source leads to. -/
def Reachable (g : Graph) (i : Nat) : Prop := ∃ k, g.Walk k i

/-- The length of the shortest walks to a node. -/
noncomputable def distance (g : Graph) (i : Nat) : Nat := sInf {k | g.Walk k i}

/-- Connections join nodes of the graph. -/
def Joined (g : Graph) : Prop :=
  ∀ c ∈ g.connections, c.source < g.nodes.length ∧ c.target < g.nodes.length

instance (g : Graph) : Decidable g.Joined := inferInstanceAs (Decidable (∀ c ∈ _, _))

theorem mem_sources : i ∈ g.sources ↔ g.IsSource i := by
  simp [sources, IsSource]

theorem Walk.isSource (h : g.Walk 0 i) : g.IsSource i := by
  cases h
  assumption

theorem Walk.reachable (h : g.Walk k i) : g.Reachable i := ⟨k, h⟩

theorem Walk.distance_le (h : g.Walk k i) : g.distance i ≤ k := Nat.sInf_le h

theorem Reachable.walk (h : g.Reachable i) : g.Walk (g.distance i) i := Nat.sInf_mem h

theorem Reachable.lt (hjoined : g.Joined) (h : g.Reachable i) : i < g.nodes.length := by
  obtain ⟨k, h⟩ := h
  cases h with
  | source h => exact h.1
  | step h hc => exact (hjoined _ hc).2

/-! ## Visits -/

theorem visit_of_new (hnew : i ∉ order) (hi : i < g.nodes.length) :
    g.visit order (i :: queue) =
      g.visit (order ++ [i]) (queue ++ g.successors i (order ++ [i])) := by
  rw [visit, if_neg (by rintro (h | h) <;> [exact hnew h; omega])]

theorem mem_successors {j : Nat} :
    j ∈ g.successors i seen ↔ (∃ c ∈ g.connections, c.source = i ∧ c.target = j) ∧ j ∉ seen := by
  simp [successors, outgoing, and_assoc]

/-- What was visited stays in front. -/
theorem prefix_visit (g : Graph) (order queue : List Nat) : order <+: g.visit order queue := by
  fun_induction visit g order queue with
  | case1 order => exact prefix_rfl
  | case2 order i queue _ ih => exact ih
  | case3 order i queue _ ih => exact (prefix_append _ _).trans ih

/-- Nodes that wait in front of the queue for the first time are visited next, in their order. -/
theorem exists_visit_append {new : List Nat} (hnodup : (order ++ new).Nodup)
    (hnew : ∀ i ∈ new, i < g.nodes.length) (queue : List Nat) :
    ∃ queue', g.visit order (new ++ queue) = g.visit (order ++ new) queue' := by
  induction new generalizing order queue with
  | nil => exact ⟨queue, by simp⟩
  | cons i new ih =>
    have hi : i ∉ order := fun hmem => (nodup_append.mp hnodup).2.2 i hmem i (by simp) rfl
    rw [append_cons] at hnodup ⊢
    rw [cons_append, visit_of_new hi (hnew i (by simp)), append_assoc]
    exact ih hnodup (fun j hj => hnew j (by simp [hj])) _

/-! ## Predecessors -/

/-- `i` is a source, or a connection leads to it from one of the nodes `before`. -/
def Led (g : Graph) (before : List Nat) (i : Nat) : Prop :=
  g.IsSource i ∨ ∃ c ∈ g.connections, c.target = i ∧ c.source ∈ before

theorem Led.mono {after : List Nat} (h : g.Led before i) (hsub : before ⊆ after) : g.Led after i := by
  obtain h | ⟨c, hc, htarget, hsource⟩ := h
  · exact .inl h
  · exact .inr ⟨c, hc, htarget, hsub hsource⟩

/-- Each visited node comes after one that leads to it, if this holds so far and what waits is led to. -/
theorem visit_led (horder : ∀ before i, before ++ [i] <+: order → g.Led before i)
    (hqueue : ∀ i ∈ queue, g.Led order i) (h : before ++ [i] <+: g.visit order queue) : g.Led before i := by
  fun_induction visit g order queue with
  | case1 order => exact horder before i h
  | case2 order j queue _ ih => exact ih horder (fun x hx => hqueue x (by simp [hx])) h
  | case3 order j queue _ ih =>
    refine ih ?_ ?_ h
    · intro before x hprefix
      rcases prefix_concat_iff.mp hprefix with heq | hprefix
      · obtain ⟨rfl, hx⟩ := append_inj' heq rfl
        cases hx
        exact hqueue j (by simp)
      · exact horder before x hprefix
    · intro x hx
      rcases mem_append.mp hx with hx | hx
      · exact (hqueue x (by simp [hx])).mono (subset_append_left _ _)
      · obtain ⟨⟨c, hc, hsource, htarget⟩, -⟩ := mem_successors.mp hx
        exact .inr ⟨c, hc, htarget, by simp [hsource]⟩

/-! ## Layers -/

/-- How far a search has come: the nodes `order` are visited, sorted by distance, and all that are nearer than `d`
are among them. Of what waits, walks of `d` connections lead to the nodes `near`, which come first, and walks of one
more to the nodes `far`. All nodes at distance `d` and all that connections of visited nodes lead to are visited
or wait. -/
structure Searched (g : Graph) (d : Nat) (order near far : List Nat) : Prop where
  nodup : order.Nodup
  reached : ∀ i ∈ order, g.Reachable i ∧ g.distance i ≤ d
  sorted : order.Pairwise (g.distance · ≤ g.distance ·)
  nearer : ∀ k i, g.Walk k i → k < d → i ∈ order
  next : ∀ i, g.Walk d i → i ∈ order ∨ i ∈ near
  near_walk : ∀ i ∈ near, g.Walk d i
  far_walk : ∀ i ∈ far, g.Walk (d + 1) i
  closed : ∀ c ∈ g.connections, c.source ∈ order → c.target ∈ order ∨ c.target ∈ near ∨ c.target ∈ far

namespace Searched

theorem start (g : Graph) : g.Searched 0 [] g.sources [] where
  nodup := .nil
  reached := forall_mem_nil _
  sorted := .nil
  nearer _ _ _ hk := absurd hk (Nat.not_lt_zero _)
  next _ h := .inr (mem_sources.mpr h.isSource)
  near_walk _ hi := .source (mem_sources.mp hi)
  far_walk := forall_mem_nil _
  closed _ _ h := absurd h not_mem_nil

/-- When no node of the distance `d` waits any more, the search goes on with those of the next one. -/
theorem advance (h : g.Searched d order [] far) : g.Searched (d + 1) order far [] where
  nodup := h.nodup
  reached i hi := ⟨(h.reached i hi).1, Nat.le_succ_of_le (h.reached i hi).2⟩
  sorted := h.sorted
  nearer k i hwalk hk := by
    rcases Nat.lt_succ_iff_lt_or_eq.mp hk with hk | rfl
    · exact h.nearer k i hwalk hk
    · exact (h.next i hwalk).resolve_right not_mem_nil
  next i hwalk := by
    cases hwalk with
    | step hwalk hc =>
      have hsource := (h.next _ hwalk).resolve_right not_mem_nil
      exact (h.closed _ hc hsource).imp_right fun hmem => hmem.resolve_left not_mem_nil
  near_walk := h.far_walk
  far_walk := forall_mem_nil _
  closed c hc hsource := by simpa using h.closed c hc hsource

/-- A node that was visited since it began to wait is passed over. -/
theorem skip (h : g.Searched d order (i :: near) far) (hi : i ∈ order) : g.Searched d order near far where
  nodup := h.nodup
  reached := h.reached
  sorted := h.sorted
  nearer := h.nearer
  next j hwalk := by
    rcases h.next j hwalk with hj | hj
    · exact .inl hj
    · rcases mem_cons.mp hj with rfl | hj
      · exact .inl hi
      · exact .inr hj
  near_walk j hj := h.near_walk j (by simp [hj])
  far_walk := h.far_walk
  closed c hc hsource := by
    rcases h.closed c hc hsource with hc | hc | hc
    · exact .inl hc
    · rcases mem_cons.mp hc with hc | hc
      · exact .inl (hc ▸ hi)
      · exact .inr (.inl hc)
    · exact .inr (.inr hc)

/-- The first visit of a node: no shorter walk leads to it, since it would have been visited before. -/
theorem visit (h : g.Searched d order (i :: near) far) (hi : i ∉ order) :
    g.Searched d (order ++ [i]) near (far ++ g.successors i (order ++ [i])) where
  nodup := concat_eq_append ▸ h.nodup.concat hi
  reached := by
    have hwalk := h.near_walk i (by simp)
    exact forall_mem_append.mpr ⟨h.reached, forall_mem_singleton.mpr ⟨hwalk.reachable, hwalk.distance_le⟩⟩
  sorted := by
    have hwalk := h.near_walk i (by simp)
    have hdistance : d ≤ g.distance i := by
      by_contra hlt
      exact hi (h.nearer _ i hwalk.reachable.walk (Nat.lt_of_not_le hlt))
    refine pairwise_append.mpr ⟨h.sorted, pairwise_singleton _ _, fun j hj k hk => ?_⟩
    rw [mem_singleton.mp hk]
    exact (h.reached j hj).2.trans hdistance
  nearer k j hwalk hk := mem_append_left _ (h.nearer k j hwalk hk)
  next j hwalk := by
    rcases h.next j hwalk with hj | hj
    · exact .inl (by simp [hj])
    · rcases mem_cons.mp hj with rfl | hj
      · exact .inl (by simp)
      · exact .inr hj
  near_walk j hj := h.near_walk j (by simp [hj])
  far_walk := by
    refine forall_mem_append.mpr ⟨h.far_walk, fun j hj => ?_⟩
    obtain ⟨⟨c, hc, rfl, rfl⟩, -⟩ := mem_successors.mp hj
    exact .step (h.near_walk _ (by simp)) hc
  closed c hc hsource := by
    by_cases htarget : c.target ∈ order ++ [i]
    · exact .inl htarget
    · rcases mem_append.mp hsource with hold | hnew
      · rcases h.closed c hc hold with hmem | hmem | hmem
        · exact absurd (mem_append_left _ hmem) htarget
        · rcases mem_cons.mp hmem with hmem | hmem
          · exact absurd (by simp [hmem]) htarget
          · exact .inr (.inl hmem)
        · exact .inr (.inr (mem_append_left _ hmem))
      · have hfollowed := mem_successors.mpr ⟨⟨c, hc, mem_singleton.mp hnew, rfl⟩, htarget⟩
        exact .inr (.inr (mem_append_right _ hfollowed))

/-- A search whose queue is not empty has a node in front. -/
theorem exists_near (h : g.Searched d order near far) (hqueue : near ++ far = i :: queue) :
    ∃ d near' far', g.Searched d order (i :: near') far' ∧ queue = near' ++ far' := by
  cases near with
  | nil =>
    rw [nil_append] at hqueue
    subst hqueue
    exact ⟨d + 1, queue, [], h.advance, by simp⟩
  | cons j near =>
    rw [cons_append, List.cons.injEq] at hqueue
    obtain ⟨rfl, rfl⟩ := hqueue
    exact ⟨d, near, far, h, rfl⟩

/-- A search goes on until nothing waits. -/
theorem run (hjoined : g.Joined) (h : g.Searched d order near far) (hqueue : queue = near ++ far) :
    ∃ d, g.Searched d (g.visit order queue) [] [] := by
  fun_induction Graph.visit g order queue generalizing d near far with
  | case1 order =>
    obtain ⟨rfl, rfl⟩ := append_eq_nil_iff.mp hqueue.symm
    exact ⟨d, h⟩
  | case2 order i queue hskip ih =>
    obtain ⟨d, near, far, h, rfl⟩ := h.exists_near hqueue.symm
    have hi := (h.near_walk i (by simp)).reachable.lt hjoined
    exact ih (h.skip (hskip.resolve_right (Nat.not_le.mpr hi))) rfl
  | case3 order i queue hnew ih =>
    obtain ⟨d, near, far, h, rfl⟩ := h.exists_near hqueue.symm
    exact ih (h.visit fun hi => hnew (.inl hi)) (append_assoc _ _ _)

/-- A search that is over has visited all nodes that can be reached. -/
theorem mem_iff (h : g.Searched d order [] []) (hsources : ∀ i, g.IsSource i → i ∈ order) :
    i ∈ order ↔ g.Reachable i := by
  refine ⟨fun hi => (h.reached i hi).1, ?_⟩
  rintro ⟨k, hwalk⟩
  induction hwalk with
  | source hi => exact hsources _ hi
  | step _ hc ih => simpa using h.closed _ hc ih

end Searched

/-! ## The whole order -/

theorem mem_unseen {n : Nat} : i ∈ unseen n seen ↔ i < n ∧ i ∉ seen := by
  simp [unseen]

/-- All nodes in three parts: `first` the sources and `last` the nodes that cannot be reached from them, both as they
are declared, and in between the other nodes, no nearer one after a farther one and each after one from which a
connection leads to it. -/
structure BreadthFirst (g : Graph) (first middle last : List Nat) : Prop where
  perm : (first ++ middle ++ last).Perm (List.range g.nodes.length)
  first_declared : first.Pairwise (· < ·)
  mem_first : ∀ i, i ∈ first ↔ g.IsSource i
  mem_middle : ∀ i, i ∈ middle ↔ g.Reachable i ∧ ¬ g.IsSource i
  middle_sorted : middle.Pairwise (g.distance · ≤ g.distance ·)
  middle_led : ∀ before i, before ++ [i] <+: middle →
    ∃ c ∈ g.connections, c.target = i ∧ c.source ∈ first ++ before
  last_declared : last.Pairwise (· < ·)
  mem_last : ∀ i, i ∈ last ↔ i < g.nodes.length ∧ ¬ g.Reachable i

/-- The flow order is breadth first, whatever cycles, loops and parallel connections a graph has. -/
theorem flowOrder_breadthFirst (g : Graph) (hjoined : g.Joined) :
    ∃ first middle last, g.flowOrder = first ++ middle ++ last ∧ g.BreadthFirst first middle last := by
  have hsources : g.sources.Pairwise (· < ·) := pairwise_lt_range.filter _
  obtain ⟨queue, hfirst⟩ : ∃ queue, g.visit [] g.sources = g.visit g.sources queue := by
    have hnew : ∀ i ∈ g.sources, i < g.nodes.length := fun i hi => (mem_sources.mp hi).1
    have hnodup : ([] ++ g.sources).Nodup := hsources.imp ne_of_lt
    simpa using exists_visit_append hnodup hnew []
  obtain ⟨middle, hmiddle⟩ := prefix_visit g g.sources queue
  obtain ⟨d, hsearched⟩ := (Searched.start g).run hjoined (append_nil _).symm
  rw [hfirst, ← hmiddle] at hsearched
  have hreached : ∀ i, i ∈ g.sources ++ middle ↔ g.Reachable i := fun i =>
    hsearched.mem_iff fun j hj => mem_append_left _ (mem_sources.mpr hj)
  have hparts := nodup_append.mp hsearched.nodup
  refine ⟨g.sources, middle, unseen g.nodes.length (g.sources ++ middle), ?_, ?_⟩
  · rw [flowOrder, hfirst, ← hmiddle]
  · constructor
    · refine (perm_ext_iff_of_nodup ?_ nodup_range).mpr fun i => ?_
      · refine hsearched.nodup.append ((pairwise_lt_range.filter _).imp ne_of_lt) ?_
        exact fun i hi hunseen => (mem_unseen.mp hunseen).2 hi
      · rw [mem_append, mem_unseen, mem_range]
        have := fun hi => ((hreached i).mp hi).lt hjoined
        tauto
    · exact hsources
    · exact fun i => mem_sources
    · intro i
      rw [← hreached, ← mem_sources, mem_append]
      have := fun h₁ h₂ => hparts.2.2 i h₁ i h₂ rfl
      tauto
    · exact (pairwise_append.mp hsearched.sorted).2.1
    · intro before i hbefore
      have hvisited : g.sources ++ before ++ [i] <+: g.visit [] g.sources := by
        rw [hfirst, ← hmiddle, append_assoc]
        exact (prefix_append_right_inj _).mpr hbefore
      have hled := visit_led (by simp) (fun j hj => .inl (mem_sources.mp hj)) hvisited
      refine hled.resolve_left fun hsource => ?_
      exact hparts.2.2 i (mem_sources.mpr hsource) i (hbefore.mem (by simp)) rfl
    · exact pairwise_lt_range.filter _
    · exact fun i => by rw [mem_unseen, hreached]

/-- Two sources, a pair of parallel connections, a cycle with a loop in it, and loops and cycles that no source
leads to. -/
def tangled : Graph where
  nodes := ["a", "b", "c", "d", "e", "f", "h"].map fun name => ⟨name, "t", [], .start⟩
  connections := [(2, 2), (1, 0), (1, 0), (0, 2), (2, 0), (3, 2), (4, 4), (5, 6), (6, 5)].map fun ends =>
    ⟨ends.1, ⟨"OUT", none⟩, ends.2, ⟨"IN", none⟩, .start⟩

theorem flowOrder_breadthFirst_tangled :
    tangled.Joined ∧ tangled.flowOrder = [1, 3, 0, 2, 4, 5, 6] ∧
      ∃ first middle last, tangled.flowOrder = first ++ middle ++ last ∧
        tangled.BreadthFirst first middle last :=
  ⟨by decide, by cbv, flowOrder_breadthFirst tangled (by decide)⟩

end FlowCompiler.Graph
