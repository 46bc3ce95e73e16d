import FlowCompiler.Live.Type

/-!
# Finding connections

The connections of a static type are sorted by their sources, so those that leave one slot stand together
and are found by bisection.
-/

namespace FlowCompiler.Live

/-- The first place from `low` to `high` at which a monotone property holds, by halving the interval. -/
def bisect (holds : Nat → Bool) (low high : Nat) : Nat :=
  if low < high then
    let middle := (low + high) / 2
    if holds middle then bisect holds low middle else bisect holds (middle + 1) high
  else low
termination_by high - low
decreasing_by all_goals omega

namespace Link

def leaves (source port : Int) (l : Link) : Bool := l.source == source && l.sourcePort == port

/-- Whether a connection leaves a slot of a node, or comes after those that do. -/
def reaches (source port : Int) (l : Link) : Bool :=
  source < l.source || (l.source == source && port ≤ l.sourcePort)

end Link

def linksFrom (links : List Link) (source port : Int) : List Link :=
  let first := bisect (fun i => (links[i]?).any (Link.reaches source port)) 0 links.length
  (links.drop first).takeWhile (Link.leaves source port)

end FlowCompiler.Live
