import Sightline.Proofs.Hierarchy.Planning
import Mathlib.Data.List.Infix
import Mathlib.Data.List.Range

/-!
# The places of a laid out plan

Laying out a plan gives each part of it a place in the array of nodes and a range of the objects. The
relation `Within` follows the parts of a plan from the top down, together with their places, so that
statements about the arrays are proved by induction over plans.
-/
namespace Sightline.Hierarchy

/-- Where a part of a plan stands: the place of its top node, the first place of the nodes below it,
its first object, and the depth of its top node. -/
structure Place where
  index : Nat
  next : Nat
  first : Nat
  depth : Nat

namespace Plan

/-- The parts of a plan and their places. -/
inductive Within (root : Plan) : Plan → Place → Prop
  | root : Within root root ⟨0, 1, 0, 1⟩
  | left {axis clipLeft clipRight left right place} :
      Within root (split axis clipLeft clipRight left right) place →
      Within root left ⟨place.next, place.next + 2, place.first, place.depth + 1⟩
  | right {axis clipLeft clipRight left right place} :
      Within root (split axis clipLeft clipRight left right) place →
      Within root right ⟨place.next + 1, place.next + 2 + left.sizeBelow,
        place.first + left.objects.length, place.depth + 1⟩
  | narrow {axis low high inner place} :
      Within root (narrow axis low high inner) place →
      Within root inner ⟨place.next, place.next + 1, place.first, place.depth + 1⟩
  | oneSided {axis side clip inner place} :
      Within root (oneSided axis side clip inner) place →
      Within root inner ⟨place.next, place.next + 1, place.first, place.depth + 1⟩

/-- The places below a part in the order of a walk that goes left first. -/
def placesBelow : Plan → Nat → List Nat
  | leaf _, _ => []
  | split _ _ _ left right, next =>
    next :: left.placesBelow (next + 2) ++
      (next + 1) :: right.placesBelow (next + 2 + left.sizeBelow)
  | narrow _ _ _ inner, next => next :: inner.placesBelow (next + 1)
  | oneSided _ _ _ inner, next => next :: inner.placesBelow (next + 1)

theorem placesBelow_perm (plan : Plan) (next : Nat) :
    (plan.placesBelow next).Perm (List.range' next plan.sizeBelow) := by
  induction plan generalizing next with
  | leaf objects => exact .refl _
  | split axis clipLeft clipRight left right ihLeft ihRight =>
    have below : List.range' next (2 + left.sizeBelow + right.sizeBelow) =
        next :: (next + 1) :: (List.range' (next + 2) left.sizeBelow ++
          List.range' (next + 2 + left.sizeBelow) right.sizeBelow) := by
      rw [List.range'_append_1, Nat.add_assoc, Nat.add_comm 2, List.range'_succ, List.range'_succ]
    rw [sizeBelow, below, placesBelow]
    -- the place of the right child stands in front of all that is below its sibling
    exact (((ihLeft _).append ((ihRight _).cons _)).trans List.perm_middle).cons _
  | narrow axis low high inner ih =>
    rw [sizeBelow, Nat.add_comm, List.range'_succ]
    exact (ih _).cons _
  | oneSided axis side clip inner ih =>
    rw [sizeBelow, Nat.add_comm, List.range'_succ]
    exact (ih _).cons _

@[simp] theorem length_nodesBelow (plan : Plan) (next first : Nat) :
    (plan.nodesBelow next first).length = plan.sizeBelow := by
  induction plan generalizing next first with
  | leaf objects => rfl
  | split axis clipLeft clipRight left right ihLeft ihRight =>
    simp only [nodesBelow, sizeBelow, List.length_cons, List.length_append, ihLeft, ihRight]
    omega
  | narrow axis low high inner ih =>
    simp only [nodesBelow, sizeBelow, List.length_cons, ih]
    omega
  | oneSided axis side clip inner ih =>
    simp only [nodesBelow, sizeBelow, List.length_cons, ih]
    omega

@[simp] theorem length_nodes (plan : Plan) : plan.nodes.length = plan.sizeBelow + 1 := by
  simp [nodes]

/-- A part fills its places in the arrays. -/
structure Stands (nodes : List Node) (objects : List Nat) (plan : Plan) (place : Place) : Prop where
  top : nodes[place.index]? = some (plan.top place.next place.first)
  below : plan.nodesBelow place.next place.first <+: nodes.drop place.next
  contents : plan.objects <+: objects.drop place.first

private theorem prefix_head {α : Type} {l rest : List α} {a : α} {n : Nat}
    (starts : a :: rest <+: l.drop n) : l[n]? = some a ∧ rest <+: l.drop (n + 1) := by
  obtain ⟨tail, same⟩ := starts
  constructor
  · rw [← Nat.add_zero n, ← List.getElem?_drop, ← same]
    rfl
  · refine ⟨tail, ?_⟩
    rw [← List.tail_drop, ← same]
    rfl

private theorem prefix_append {α : Type} {l left right : List α} {n : Nat}
    (starts : left ++ right <+: l.drop n) :
    left <+: l.drop n ∧ right <+: l.drop (n + left.length) := by
  obtain ⟨tail, same⟩ := starts
  refine ⟨⟨right ++ tail, by rw [← same, List.append_assoc]⟩, tail, ?_⟩
  rw [← List.drop_drop, ← same, List.append_assoc, List.drop_left]

theorem Within.stands {root plan : Plan} {place : Place} (within : root.Within plan place) :
    plan.Stands root.nodes root.objects place := by
  induction within with
  | root =>
    refine ⟨rfl, ?_, ?_⟩
    · simp [nodes]
    · simp
  | left _ ih =>
    obtain ⟨-, below, contents⟩ := ih
    obtain ⟨top, rest⟩ := prefix_head below
    exact ⟨top, (prefix_append (prefix_head rest).2).1, (prefix_append contents).1⟩
  | right _ ih =>
    obtain ⟨-, below, contents⟩ := ih
    obtain ⟨top, rest⟩ := prefix_head (prefix_head below).2
    refine ⟨top, ?_, (prefix_append contents).2⟩
    simpa using (prefix_append rest).2
  | narrow _ ih =>
    obtain ⟨-, below, contents⟩ := ih
    exact ⟨(prefix_head below).1, (prefix_head below).2, contents⟩
  | oneSided _ ih =>
    obtain ⟨-, below, contents⟩ := ih
    exact ⟨(prefix_head below).1, (prefix_head below).2, contents⟩

variable {root plan : Plan} {place : Place} {bounds : Box}

theorem Within.node (within : root.Within plan place) :
    (root.layOut bounds).nodes[place.index]? = some (plan.top place.next place.first) := by
  simpa [layOut] using within.stands.top

/-- The only node at the place of a part is its top. -/
theorem Within.node_eq (within : root.Within plan place) {node : Node}
    (stands : (root.layOut bounds).nodes[place.index]? = some node) :
    node = plan.top place.next place.first :=
  Option.some.inj (stands.symm.trans within.node)

theorem Within.index_lt_next (within : root.Within plan place) : place.index < place.next := by
  induction within with
  | root => exact Nat.zero_lt_one
  | left _ ih => dsimp only; omega
  | right _ ih => dsimp only; omega
  | narrow _ ih => dsimp only; omega
  | oneSided _ ih => dsimp only; omega

theorem Within.last_le (within : root.Within plan place) :
    place.first + plan.objects.length ≤ root.objects.length := by
  induction within with
  | root => simp
  | left _ ih =>
    simp only [objects, List.length_append] at ih
    dsimp only
    omega
  | right _ ih =>
    simp only [objects, List.length_append] at ih
    dsimp only
    omega
  | narrow _ ih => exact ih
  | oneSided _ ih => exact ih

/-- Some part of the plan stands at every place below a part, deeper than that. -/
theorem Within.exists_below (within : root.Within plan place) {index : Nat}
    (atLeast : place.next ≤ index) (less : index < place.next + plan.sizeBelow) :
    ∃ part partPlace, root.Within part partPlace ∧ partPlace.index = index ∧
      place.depth < partPlace.depth := by
  induction plan generalizing place with
  | leaf objects =>
    simp only [sizeBelow] at less
    omega
  | split axis clipLeft clipRight left right ihLeft ihRight =>
    -- both children stand first, then all that is below the left one
    simp only [sizeBelow] at less
    by_cases isLeft : index = place.next
    · exact ⟨left, _, within.left, isLeft.symm, Nat.lt_succ_self _⟩
    · by_cases isRight : index = place.next + 1
      · exact ⟨right, _, within.right, isRight.symm, Nat.lt_succ_self _⟩
      · by_cases belowLeft : index < place.next + 2 + left.sizeBelow
        · obtain ⟨part, partPlace, inside, stands, deeper⟩ :=
            ihLeft within.left (by dsimp only; omega) belowLeft
          exact ⟨part, partPlace, inside, stands, Nat.lt_of_succ_lt deeper⟩
        · obtain ⟨part, partPlace, inside, stands, deeper⟩ :=
            ihRight within.right (by dsimp only; omega) (by dsimp only; omega)
          exact ⟨part, partPlace, inside, stands, Nat.lt_of_succ_lt deeper⟩
  | narrow axis low high inner ih =>
    simp only [sizeBelow] at less
    by_cases isInner : index = place.next
    · exact ⟨inner, _, within.narrow, isInner.symm, Nat.lt_succ_self _⟩
    · obtain ⟨part, partPlace, inside, stands, deeper⟩ :=
        ih within.narrow (by dsimp only; omega) (by dsimp only; omega)
      exact ⟨part, partPlace, inside, stands, Nat.lt_of_succ_lt deeper⟩
  | oneSided axis side clip inner ih =>
    simp only [sizeBelow] at less
    by_cases isInner : index = place.next
    · exact ⟨inner, _, within.oneSided, isInner.symm, Nat.lt_succ_self _⟩
    · obtain ⟨part, partPlace, inside, stands, deeper⟩ :=
        ih within.oneSided (by dsimp only; omega) (by dsimp only; omega)
      exact ⟨part, partPlace, inside, stands, Nat.lt_of_succ_lt deeper⟩

/-- The last place before what is below a part belongs to a part that stands no higher: to the part
itself, its sibling on the right, or the last part below its sibling on the left. -/
theorem Within.exists_before_next (within : root.Within plan place) :
    ∃ part partPlace, root.Within part partPlace ∧ partPlace.index = place.next - 1 ∧
      place.depth ≤ partPlace.depth := by
  cases within with
  | root => exact ⟨_, _, .root, rfl, Nat.le_refl _⟩
  -- right before what is below a left child stands its sibling
  | left above => exact ⟨_, _, above.right, rfl, Nat.le_refl _⟩
  | @right axis clipLeft clipRight left plan above above_within =>
    by_cases single : left.sizeBelow = 0
    · refine ⟨_, _, above_within.right, ?_, Nat.le_refl _⟩
      dsimp only
      omega
    · have atLeast : above.next + 2 ≤ above.next + 1 + left.sizeBelow := by omega
      have less : above.next + 1 + left.sizeBelow < above.next + 2 + left.sizeBelow := by omega
      obtain ⟨part, partPlace, inside, stands, deeper⟩ :=
        above_within.left.exists_below atLeast less
      refine ⟨part, partPlace, inside, ?_, Nat.le_of_lt deeper⟩
      dsimp only
      omega
  | narrow above => exact ⟨_, _, above.narrow, rfl, Nat.le_refl _⟩
  | oneSided above => exact ⟨_, _, above.oneSided, rfl, Nat.le_refl _⟩

theorem Within.depth_add_height_le (within : root.Within plan place) :
    place.depth + plan.height ≤ root.height + 1 := by
  induction within with
  | root =>
    dsimp only
    omega
  | left _ ih =>
    simp only [height] at ih ⊢
    omega
  | right _ ih =>
    simp only [height] at ih ⊢
    omega
  | narrow _ ih =>
    simp only [height] at ih ⊢
    omega
  | oneSided _ ih =>
    simp only [height] at ih ⊢
    omega

/-- What holds of the boxes of a plan holds of the boxes of its parts. -/
theorem Within.respects {box : Nat → Box} (within : root.Within plan place)
    (respects : root.Respects box) : plan.Respects box := by
  induction within with
  | root => exact respects
  | left _ ih => exact ih.2.2.1
  | right _ ih => exact ih.2.2.2
  | narrow _ ih => exact ih.2.2
  | oneSided _ ih => exact ih.2

theorem Within.solid (within : root.Within plan place) (solid : root.Solid) : plan.Solid := by
  induction within with
  | root => exact solid
  | left _ ih => exact ih.1
  | right _ ih => exact ih.2
  | narrow _ ih => exact ih
  | oneSided _ ih => exact ih.2

/-- Some part of the plan stands at every place. -/
theorem exists_within (root : Plan) {index : Nat} (less : index < root.nodes.length) :
    ∃ part place, root.Within part place ∧ place.index = index := by
  rw [length_nodes] at less
  by_cases top : index = 0
  · exact ⟨root, _, .root, top.symm⟩
  · have atLeast : 1 ≤ index := Nat.one_le_iff_ne_zero.mpr top
    have below : index < 1 + root.sizeBelow := by omega
    obtain ⟨part, place, inside, stands, -⟩ :=
      (Within.root : root.Within root ⟨0, 1, 0, 1⟩).exists_below atLeast below
    exact ⟨part, place, inside, stands⟩

/-- Some part of the plan has its top at the place of a node. -/
theorem exists_node {index : Nat} {node : Node}
    (stands : (root.layOut bounds).nodes[index]? = some node) :
    ∃ plan place, root.Within plan place ∧ place.index = index ∧
      node = plan.top place.next place.first := by
  obtain ⟨less, -⟩ := Array.getElem?_eq_some_iff.mp stands
  obtain ⟨plan, place, within, rfl⟩ := exists_within root (by simpa [layOut] using less)
  exact ⟨plan, place, within, rfl, within.node_eq stands⟩

theorem last_le_of_leaf {index first count : Nat}
    (stands : (root.layOut bounds).nodes[index]? = some (.leaf first count)) :
    first + count ≤ (root.layOut bounds).objects.size := by
  obtain ⟨plan, place, within, -, isTop⟩ := exists_node stands
  cases plan with
  | leaf objects =>
    cases isTop
    simpa [layOut, Plan.objects] using within.last_le
  | split axis clipLeft clipRight left right => cases isTop
  | narrow axis low high inner => cases isTop
  | oneSided axis side clip inner => cases side <;> cases isTop

end Plan

end Sightline.Hierarchy
