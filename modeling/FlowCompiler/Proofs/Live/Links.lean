import FlowCompiler.Live.Links
import FlowCompiler.Proofs.Startup.Program

/-!
# Connections that leave a slot

The connections that leave one slot are found by bisection, which relies on their order.

* `bisect_le_iff`: bisection ends at the first place at which a property holds, if it stays true once it is.
* `StaticSpec.pairwise_of_linkFault?`: connections that passed the check are sorted. Each is compared only with the
  one before it, but being no earlier is transitive.
* `StaticSpec.linksFrom_eq_filter`, the main statement: in a description that passed the check, bisection finds
  exactly the connections that leave a slot, all of them and in their order. The slot may be that for errors, and
  the node and the slot need not exist.
-/

namespace FlowCompiler.Live

open List

/-! ## Bisection -/

section Bisect

variable {holds : Nat → Bool} {low high : Nat}

theorem bisect_mem (h : low ≤ high) : low ≤ bisect holds low high ∧ bisect holds low high ≤ high := by
  fun_induction bisect holds low high with
  | case1 low high hlt middle hholds ih =>
    obtain ⟨hlow, hhigh⟩ := ih (by omega)
    exact ⟨hlow, by omega⟩
  | case2 low high hlt middle hholds ih =>
    obtain ⟨hlow, hhigh⟩ := ih (by omega)
    exact ⟨by omega, hhigh⟩
  | case3 low high hge => exact ⟨le_rfl, h⟩

/-- The property holds exactly from the place on at which bisection ends. -/
theorem bisect_le_iff (hstays : ∀ i j, i ≤ j → j < high → holds i = true → holds j = true) {i : Nat}
    (hlow : low ≤ i) (hhigh : i < high) : bisect holds low high ≤ i ↔ holds i = true := by
  fun_induction bisect holds low high with
  | case1 low high hlt middle hholds ih =>
    by_cases hi : i < middle
    · exact ih (fun i j hij hj => hstays i j hij (by omega)) hlow hi
    · have hend : bisect holds low middle ≤ middle := (bisect_mem (by omega)).2
      exact iff_of_true (by omega) (hstays middle i (by omega) hhigh hholds)
  | case2 low high hlt middle hholds ih =>
    by_cases hi : middle < i
    · exact ih hstays hi hhigh
    · have hend : middle + 1 ≤ bisect holds (middle + 1) high := (bisect_mem (by omega)).1
      exact iff_of_false (by omega) fun h => hholds (hstays i middle (by omega) (by omega) h)
  | case3 low high hge => omega

end Bisect

/-! ## Sorted connections -/

namespace Link

variable {a b c : Link} {source port : Int}

theorem before_iff : a.before b = true ↔
    a.source < b.source ∨ (a.source = b.source ∧ a.sourcePort < b.sourcePort) := by
  simp [before]

theorem leaves_iff : a.leaves source port = true ↔ a.source = source ∧ a.sourcePort = port := by
  simp [leaves]

theorem reaches_iff : a.reaches source port = true ↔
    source < a.source ∨ (a.source = source ∧ port ≤ a.sourcePort) := by
  simp [reaches]

theorem notBefore_trans (hab : b.before a = false) (hbc : c.before b = false) : c.before a = false := by
  rw [Bool.eq_false_iff, ne_eq, before_iff] at *
  omega

theorem reaches_of_leaves (h : a.leaves source port = true) : a.reaches source port = true := by
  rw [leaves_iff] at h
  rw [reaches_iff]
  omega

theorem reaches_of_notBefore (hab : b.before a = false) (h : a.reaches source port = true) :
    b.reaches source port = true := by
  rw [Bool.eq_false_iff, ne_eq, before_iff] at hab
  rw [reaches_iff] at h ⊢
  omega

/-- Of connections that leave a slot or come after those that do, none that leaves it comes after one that does
not. -/
theorem leaves_of_notBefore (hab : b.before a = false) (ha : a.reaches source port = true)
    (hb : b.leaves source port = true) : a.leaves source port = true := by
  rw [Bool.eq_false_iff, ne_eq, before_iff] at hab
  rw [reaches_iff] at ha
  rw [leaves_iff] at hb ⊢
  omega

end Link

theorem takeWhile_eq_filter {α : Type} {p : α → Bool} {xs : List α}
    (h : xs.Pairwise fun a b => p b = true → p a = true) : xs.takeWhile p = xs.filter p := by
  induction xs with
  | nil => rfl
  | cons a xs ih =>
    obtain ⟨hfirst, hrest⟩ := pairwise_cons.mp h
    by_cases ha : p a = true
    · rw [takeWhile_cons_of_pos ha, filter_cons_of_pos ha, ih hrest]
    · have hnone : xs.filter p = [] := filter_eq_nil_iff.mpr fun b hb hpb => ha (hfirst b hb hpb)
      rw [takeWhile_cons_of_neg ha, filter_cons_of_neg ha, hnone]

/-- In sorted connections, bisection finds those that leave a slot. -/
theorem linksFrom_of_pairwise {links : List Link} (hsorted : links.Pairwise fun a b => b.before a = false)
    (source port : Int) : linksFrom links source port = links.filter (Link.leaves source port) := by
  have hstays : ∀ i j, i ≤ j → j < links.length → (links[i]?).any (Link.reaches source port) = true →
      (links[j]?).any (Link.reaches source port) = true := by
    intro i j hij hj hi
    rw [getElem?_eq_getElem hj, Option.any_some]
    rw [getElem?_eq_getElem (by omega), Option.any_some] at hi
    rcases hij.lt_or_eq with hlt | rfl
    · exact Link.reaches_of_notBefore (pairwise_iff_getElem.mp hsorted i j _ hj hlt) hi
    · exact hi
  unfold linksFrom
  dsimp only
  have hfirst : ∀ (i : Nat) (hi : i < links.length),
      bisect (fun i => (links[i]?).any (Link.reaches source port)) 0 links.length ≤ i ↔
        links[i].reaches source port = true := by
    intro i hi
    rw [bisect_le_iff hstays (Nat.zero_le i) hi, getElem?_eq_getElem hi, Option.any_some]
  generalize bisect (fun i => (links[i]?).any (Link.reaches source port)) 0 links.length = first at hfirst ⊢
  -- No connection before the first place leaves the slot, and from there on those that do come first.
  have hbefore : (links.take first).filter (Link.leaves source port) = [] := by
    refine filter_eq_nil_iff.mpr fun l hl hleaves => ?_
    obtain ⟨i, hi, rfl⟩ := mem_take_iff_getElem.mp hl
    have hle := (hfirst i (by omega)).mpr (Link.reaches_of_leaves hleaves)
    omega
  have hreaches : ∀ l ∈ links.drop first, l.reaches source port = true := by
    intro l hl
    obtain ⟨i, hi, rfl⟩ := mem_drop_iff_getElem.mp hl
    exact (hfirst _ _).mp (by omega)
  have hafter : (links.drop first).Pairwise fun a b => b.leaves source port = true → a.leaves source port = true :=
    (hsorted.sublist (drop_sublist first links)).imp_of_mem fun ha _ hab hb =>
      Link.leaves_of_notBefore hab (hreaches _ ha) hb
  calc (links.drop first).takeWhile (Link.leaves source port)
      = (links.drop first).filter (Link.leaves source port) := takeWhile_eq_filter hafter
    _ = (links.take first).filter (Link.leaves source port) ++
          (links.drop first).filter (Link.leaves source port) := by rw [hbefore, nil_append]
    _ = links.filter (Link.leaves source port) := by rw [← filter_append, take_append_drop]

namespace StaticSpec

variable {ω : Type}

/-- Connections without a fault are sorted. -/
theorem pairwise_of_linkFault? {types : List (NodeType ω)} {links : List Link} {i : Nat} {previous : Option Link}
    (h : linkFault? types i previous links = none) :
    (previous.toList ++ links).Pairwise fun a b => b.before a = false := by
  induction links generalizing i previous with
  | nil => cases previous <;> simp
  | cons l links ih =>
    unfold linkFault? at h
    split at h
    · cases h
    · next hnotBefore =>
      split at h
      · cases h
      · have hrest : (l :: links).Pairwise fun a b => b.before a = false := ih h
        cases previous with
        | none => exact hrest
        | some p =>
          -- All others are compared with `p` through `l`.
          have hl : l.before p = false := by simpa using hnotBefore
          refine pairwise_cons.mpr ⟨forall_mem_cons.mpr ⟨hl, fun b hb => ?_⟩, hrest⟩
          exact Link.notBefore_trans hl ((pairwise_cons.mp hrest).1 b hb)

/-- In a description that passed the check, the connections that are found for a slot of a node are those that
leave it, whatever numbers the node and the slot are given by. -/
theorem linksFrom_eq_filter {s : StaticSpec ω} {slots : List PortType × List PortType} (h : s.check = .ok slots)
    (source port : Int) :
    linksFrom s.links source port = s.links.filter fun l => l.source = source ∧ l.sourcePort = port := by
  obtain ⟨-, -, hlinks, -⟩ := check_eq_ok_iff.mp h
  have hsorted : s.links.Pairwise fun a b => b.before a = false := pairwise_of_linkFault? hlinks
  rw [linksFrom_of_pairwise hsorted]
  refine filter_congr fun l _ => ?_
  rw [Bool.eq_iff_iff, Link.leaves_iff, decide_eq_true_eq]

/-- Two children with connections from an output, two of them from the same one, and from the output for errors. -/
def fannedSpec : StaticSpec Unit where
  nodes := [⟨some (.leaf { id := 0, name := "src", outputs := [⟨"A", "int"⟩, ⟨"B", "int"⟩] } {}), "a", none⟩,
    ⟨some (.leaf { id := 1, name := "sink", inputs := [⟨"IN", "int"⟩, ⟨"LOG", "any"⟩] } {}), "b", none⟩]
  links := [⟨0, 0, 1, 0⟩, ⟨0, 1, 1, 1⟩, ⟨0, 1, 1, 0⟩, ⟨0, 65534, 1, 1⟩, ⟨1, 65534, 1, 1⟩]

/-- The first slot, one with two connections, that for errors, and slots and nodes that are not there. -/
theorem linksFrom_eq_filter_fanned :
    linksFrom fannedSpec.links 0 0 = [⟨0, 0, 1, 0⟩] ∧
      linksFrom fannedSpec.links 0 1 = [⟨0, 1, 1, 1⟩, ⟨0, 1, 1, 0⟩] ∧
      linksFrom fannedSpec.links 1 errorSlot = [⟨1, 65534, 1, 1⟩] ∧
      linksFrom fannedSpec.links 0 2 = [] ∧ linksFrom fannedSpec.links (-1) 0 = [] ∧
      linksFrom fannedSpec.links 7 (-1) = [] := by
  have hcheck : fannedSpec.check = .ok ([], []) := rfl
  simp only [linksFrom_eq_filter hcheck]
  decide

end StaticSpec

end FlowCompiler.Live
