import FlowCompiler.Graph.Basic

/-!
# Flow order

The order in which nodes are listed: breadth first from the nodes that no connection leads to, then the
nodes that are not reached from those, in the order of the text.
-/

namespace FlowCompiler.Graph

def unseen (n : Nat) (seen : List Nat) : List Nat := (List.range n).filter (· ∉ seen)

theorem unseen_append_lt {n i : Nat} {seen : List Nat} (hn : i < n) (hs : i ∉ seen) :
    (unseen n (seen ++ [i])).length < (unseen n seen).length := by
  have h : unseen n (seen ++ [i]) = (unseen n seen).filter (· ≠ i) := by
    simp only [unseen, List.filter_filter]
    congr 1
    funext x
    by_cases hx : x = i <;> by_cases hm : x ∈ seen <;> simp [hx, hm]
  rw [h, List.length_filter_lt_length_iff_exists]
  exact ⟨i, by simp [unseen, hn, hs], by simp⟩

/-- The nodes that the connections of `i` lead to and that are not in `seen`. -/
def successors (g : Graph) (i : Nat) (seen : List Nat) : List Nat :=
  ((g.outgoing i).map (·.target)).filter (· ∉ seen)

/-- Breadth-first search: `order` is what was visited, `queue` what waits. -/
def visit (g : Graph) (order : List Nat) : List Nat → List Nat
  | [] => order
  | i :: queue =>
    if i ∈ order ∨ g.nodes.length ≤ i then visit g order queue
    else visit g (order ++ [i]) (queue ++ g.successors i (order ++ [i]))
termination_by queue => ((unseen g.nodes.length order).length, queue.length)
decreasing_by
  · exact Prod.Lex.right _ (by simp)
  · rename_i h
    exact Prod.Lex.left _ _ (unseen_append_lt (by omega) (fun hm => h (Or.inl hm)))

/-- The nodes that no connection leads to. -/
def sources (g : Graph) : List Nat :=
  (List.range g.nodes.length).filter fun i => g.connections.all (·.target ≠ i)

def flowOrder (g : Graph) : List Nat :=
  let order := g.visit [] g.sources
  order ++ unseen g.nodes.length order

end FlowCompiler.Graph
