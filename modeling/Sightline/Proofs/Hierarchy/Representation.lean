import Sightline.Proofs.Hierarchy.Layout
import Sightline.Proofs.Hierarchy.Building

/-!
# Hierarchies that represent their boxes

A hierarchy represents a list of boxes if its nodes form one tree without a node to spare, its leaves
share the objects out without gap or overlap, and every clip bounds the boxes below it. Built
hierarchies do, so the walks may rely on it.
-/
namespace Sightline

/-- The children of a node that have contents: an infinite clip marks a side without. -/
def Node.children : Node → List Nat
  | .leaf _ _ => []
  | .split _ child left right =>
    (if left = .negativeInfinity then [] else [child]) ++
      if right = .infinity then [] else [child + 1]
  | .narrow _ child _ _ => [child]

/-- The range of objects that a node names. -/
def Node.range : Node → List Nat
  | .leaf first count => List.range' first count
  | _ => []

namespace Hierarchy

/-- The walk from the places in the first list visits those in the second list, each with everything
below it before the next one. -/
inductive Visits (h : Hierarchy) : List Nat → List Nat → Prop
  | done : Visits h [] []
  | node {index node pending visited} :
      h.nodes[index]? = some node → Visits h (node.children ++ pending) visited →
      Visits h (index :: pending) (index :: visited)

/-- Where a walk starts. -/
def roots (h : Hierarchy) : List Nat := if h.isEmpty then [] else [0]

def rangeAt (h : Hierarchy) (index : Nat) : List Nat := (h.nodes[index]?.map Node.range).getD []

/-- An object lies in a leaf at or below a place. -/
inductive Holds (h : Hierarchy) (object : Nat) : Nat → Prop
  | leaf {index node k} :
      h.nodes[index]? = some node → k ∈ node.range → h.objects[k]? = some object → Holds h object index
  | child {index node child} :
      h.nodes[index]? = some node → child ∈ node.children → Holds h object child →
      Holds h object index

/-- Everything at or below a place lies on one side of a finite plane. -/
structure Bounds (h : Hierarchy) (boxes : List Box) (axis : Axis) (clip : Single) (side : Side)
    (index : Nat) : Prop where
  finite : clip.isFinite = true
  keeps : ∀ object box, h.Holds object index → boxes[object]? = some box → side.Keeps axis clip box

structure Represents (h : Hierarchy) (boxes : List Box) : Prop where
  /-- Every box is an object once. -/
  objects : h.objects.toList.Perm (List.range boxes.length)
  /-- A walk from the top visits every node once, and its leaves divide the objects in order. -/
  visits : ∃ visited, h.Visits h.roots visited ∧ visited.Perm (List.range h.nodes.size) ∧
    visited.flatMap h.rangeAt = List.range boxes.length
  /-- Children stand behind their parents. -/
  forward : ∀ (index : Nat) (node : Node), h.nodes[index]? = some node → ∀ child ∈ node.children, index < child
  /-- The clips of a split bound its sides. -/
  split : ∀ (index : Nat) axis child left right,
    h.nodes[index]? = some (.split axis child left right) →
    (left ≠ .negativeInfinity → h.Bounds boxes axis left .below child) ∧
    (right ≠ .infinity → h.Bounds boxes axis right .above (child + 1))
  /-- Both clips of a narrow node bound what is below it. -/
  narrow : ∀ (index : Nat) axis child low high,
    h.nodes[index]? = some (.narrow axis child low high) →
    h.Bounds boxes axis low .above child ∧ h.Bounds boxes axis high .below child

namespace Plan

variable {root plan : Plan} {place : Place} {bounds : Box} {box : Nat → Box}

/-- The number of parts right below the top of a plan. -/
def branches : Plan → Nat
  | leaf _ => 0
  | split _ _ _ _ _ => 2
  | narrow _ _ _ _ => 1
  | oneSided _ _ _ _ => 1

theorem children_top (respects : plan.Respects box) {next : Nat} (first : Nat) (later : 0 < next) :
    (plan.top next first).children = List.range' next plan.branches := by
  cases plan with
  | leaf objects => rfl
  | split axis clipLeft clipRight left right =>
    have notLeft := Single.ne_negativeInfinity_of_isFinite respects.1.1
    have notRight := Single.ne_infinity_of_isFinite respects.2.1.1
    simp [top, Node.children, branches, List.range', notLeft, notRight]
  | narrow axis low high inner => rfl
  | oneSided axis side clip inner =>
    cases side with
    | below =>
      have notLeft := Single.ne_negativeInfinity_of_isFinite respects.1.1
      simp [top, Node.children, branches, notLeft]
    | above =>
      have notRight := Single.ne_infinity_of_isFinite respects.1.1
      have back : next - 1 + 1 = next := Nat.sub_add_cancel later
      simp [top, Node.children, branches, notRight, back]

theorem Within.children (within : root.Within plan place) (respects : root.Respects box) :
    (plan.top place.next place.first).children = List.range' place.next plan.branches :=
  children_top (within.respects respects) _ (Nat.zero_lt_of_lt within.index_lt_next)

/-- A child of the top of a part is the top of a part right below it. -/
theorem Within.exists_child {child : Nat} (within : root.Within plan place)
    (respects : root.Respects box)
    (isChild : child ∈ (plan.top place.next place.first).children) :
    ∃ part partPlace, root.Within part partPlace ∧ partPlace.index = child ∧
      partPlace.depth = place.depth + 1 ∧ ∀ object ∈ part.objects, object ∈ plan.objects := by
  rw [within.children respects] at isChild
  cases plan with
  | leaf objects => cases isChild
  | split axis clipLeft clipRight left right =>
    obtain rfl | rfl : child = place.next ∨ child = place.next + 1 := by
      simpa [branches, List.range'] using isChild
    · exact ⟨left, _, within.left, rfl, rfl, fun _ => List.mem_append_left _⟩
    · exact ⟨right, _, within.right, rfl, rfl, fun _ => List.mem_append_right _⟩
  | narrow axis low high inner =>
    obtain rfl : child = place.next := by simpa [branches] using isChild
    exact ⟨inner, _, within.narrow, rfl, rfl, fun _ => id⟩
  | oneSided axis side clip inner =>
    obtain rfl : child = place.next := by simpa [branches] using isChild
    exact ⟨inner, _, within.oneSided, rfl, rfl, fun _ => id⟩

/-- A walk visits a part and everything below it, and then goes on. -/
theorem Within.visits (within : root.Within plan place) (respects : root.Respects box)
    {pending visited : List Nat} (rest : (root.layOut bounds).Visits pending visited) :
    (root.layOut bounds).Visits (place.index :: pending)
      (place.index :: (plan.placesBelow place.next ++ visited)) := by
  induction plan generalizing place pending visited with
  | leaf objects =>
    refine .node within.node ?_
    rw [within.children respects]
    exact rest
  | split axis clipLeft clipRight left right ihLeft ihRight =>
    refine .node within.node ?_
    rw [within.children respects]
    have both := ihLeft within.left (ihRight within.right rest)
    simpa [placesBelow, branches, List.range'] using both
  | narrow axis low high inner ih =>
    refine .node within.node ?_
    rw [within.children respects]
    exact ih within.narrow rest
  | oneSided axis side clip inner ih =>
    refine .node within.node ?_
    rw [within.children respects]
    exact ih within.oneSided rest

theorem Within.rangeAt (within : root.Within plan place) :
    (root.layOut bounds).rangeAt place.index = (plan.top place.next place.first).range := by
  simp [Hierarchy.rangeAt, within.node]

/-- The leaves at and below a part name its objects in order. -/
theorem Within.ranges (within : root.Within plan place) :
    (place.index :: plan.placesBelow place.next).flatMap (root.layOut bounds).rangeAt =
      List.range' place.first plan.objects.length := by
  rw [List.flatMap_cons, within.rangeAt]
  induction plan generalizing place with
  | leaf objects => simp [placesBelow, top, Node.range, Plan.objects]
  | split axis clipLeft clipRight left right ihLeft ihRight =>
    have ofLeft := ihLeft within.left
    have ofRight := ihRight within.right
    rw [← within.left.rangeAt, ← List.flatMap_cons] at ofLeft
    rw [← within.right.rangeAt, ← List.flatMap_cons] at ofRight
    simp only [placesBelow, top, Node.range, List.nil_append, objects, List.length_append]
    rw [List.flatMap_append, ofLeft, ofRight, List.range'_append_1]
  | narrow axis low high inner ih =>
    have ofInner := ih within.narrow
    rw [← within.narrow.rangeAt, ← List.flatMap_cons] at ofInner
    exact ofInner
  | oneSided axis side clip inner ih =>
    have ofInner := ih within.oneSided
    rw [← within.oneSided.rangeAt, ← List.flatMap_cons] at ofInner
    cases side <;> exact ofInner

/-- What lies at or below the place of a part is an object of that part. -/
theorem Within.mem_objects_of_holds {object index : Nat} (within : root.Within plan place)
    (respects : root.Respects box) (holds : (root.layOut bounds).Holds object index)
    (at_index : place.index = index) : object ∈ plan.objects := by
  -- down the array, where each child is the top of a part of the plan at its place
  induction holds generalizing plan place with
  | leaf stands inRange found =>
    subst at_index
    have isTop := within.node_eq stands
    subst isTop
    cases plan with
    | leaf objects =>
      obtain ⟨i, less, rfl⟩ := List.mem_range'.mp inRange
      have inLeaf : objects[i]? = some object := by
        obtain ⟨rest, same⟩ := within.stands.contents
        have atPlace : (root.objects.drop place.first)[i]? = some object := by
          simpa [layOut] using found
        rwa [← same, Plan.objects, List.getElem?_append_left less] at atPlace
      exact List.mem_of_getElem? inLeaf
    | split axis clipLeft clipRight left right => cases inRange
    | narrow axis low high inner => cases inRange
    | oneSided axis side clip inner => cases side <;> cases inRange
  | child stands isChild _ ih =>
    subst at_index
    have isTop := within.node_eq stands
    subst isTop
    obtain ⟨part, partPlace, inside, isPlace, -, subset⟩ := within.exists_child respects isChild
    exact subset object (ih inside isPlace)

/-- An object of a part lies at or below the place of the part. -/
theorem Within.holds_of_mem {object : Nat} (within : root.Within plan place)
    (respects : root.Respects box) (member : object ∈ plan.objects) :
    (root.layOut bounds).Holds object place.index := by
  have children := within.children respects
  induction plan generalizing place with
  | leaf objects =>
    obtain ⟨i, less, same⟩ := List.getElem_of_mem member
    obtain ⟨rest, contents⟩ := within.stands.contents
    refine .leaf within.node (List.mem_range'.mpr ⟨i, less, rfl⟩) ?_
    have atPlace : (root.objects.drop place.first)[i]? = some object := by
      rw [← contents, List.getElem?_append_left less, List.getElem?_eq_getElem less, same]
    simpa [layOut] using atPlace
  | split axis clipLeft clipRight left right ihLeft ihRight =>
    rcases List.mem_append.mp member with onLeft | onRight
    · have below := ihLeft within.left onLeft (within.left.children respects)
      exact .child within.node (by simp [children, branches, List.range']) below
    · have below := ihRight within.right onRight (within.right.children respects)
      exact .child within.node (by simp [children, branches, List.range']) below
  | narrow axis low high inner ih =>
    have below := ih within.narrow member (within.narrow.children respects)
    exact .child within.node (by simp [children, branches]) below
  | oneSided axis side clip inner ih =>
    have below := ih within.oneSided member (within.oneSided.children respects)
    exact .child within.node (by simp [children, branches]) below

theorem Within.bounds_of_keeps {boxes : List Box} {axis : Axis} {clip : Single} {side : Side}
    (within : root.Within plan place) (respects : root.Respects box)
    (known : ∀ object found, boxes[object]? = some found → box object = found)
    (keeps : clip.isFinite = true ∧ ∀ object ∈ plan.objects, side.Keeps axis clip (box object)) :
    (root.layOut bounds).Bounds boxes axis clip side place.index := by
  refine ⟨keeps.1, fun object found holds isBox => ?_⟩
  rw [← known object found isBox]
  exact keeps.2 object (within.mem_objects_of_holds respects holds rfl)

/-- A plan made for all boxes lays out to a hierarchy that represents them. -/
theorem Made.represents {boxes : List Box} {depth : Nat}
    (made : root.Made box depth (List.range boxes.length))
    (known : ∀ object found, boxes[object]? = some found → box object = found) :
    (root.layOut bounds).Represents boxes where
  objects := by simpa [layOut] using made.perm
  visits := by
    -- the walk goes through the plan in its own order, and that is the order of the objects
    have walk : (root.layOut bounds).Visits _ _ := Within.visits .root made.respects .done
    refine ⟨_, ?_, ?_, (Within.ranges .root).trans ?_⟩
    · simpa [roots, isEmpty, layOut, nodes] using walk
    · simpa [layOut, List.range_eq_range', List.range'_succ] using (root.placesBelow_perm 1).cons 0
    · simpa [List.range_eq_range'] using made.perm.length_eq
  forward := by
    intro index node stands child isChild
    obtain ⟨plan, place, within, rfl, rfl⟩ := exists_node stands
    rw [within.children made.respects] at isChild
    obtain ⟨k, -, rfl⟩ := List.mem_range'.mp isChild
    have later := within.index_lt_next
    omega
  split := by
    intro index axis child left right stands
    obtain ⟨plan, place, within, rfl, isTop⟩ := exists_node stands
    have respects := within.respects made.respects
    cases plan with
    | leaf objects => cases isTop
    | split axis clipLeft clipRight planLeft planRight =>
      cases isTop
      exact ⟨fun _ => within.left.bounds_of_keeps made.respects known respects.1,
        fun _ => within.right.bounds_of_keeps made.respects known respects.2.1⟩
    | narrow axis low high inner => cases isTop
    | oneSided axis side clip inner =>
      have inside : (root.layOut bounds).Bounds boxes axis clip side place.next :=
        within.oneSided.bounds_of_keeps made.respects known respects.1
      cases side with
      | below =>
        cases isTop
        exact ⟨fun _ => inside, fun marked => absurd rfl marked⟩
      | above =>
        cases isTop
        have back : place.next - 1 + 1 = place.next :=
          Nat.sub_add_cancel (Nat.zero_lt_of_lt within.index_lt_next)
        rw [back]
        exact ⟨fun marked => absurd rfl marked, fun _ => inside⟩
  narrow := by
    intro index axis child low high stands
    obtain ⟨plan, place, within, rfl, isTop⟩ := exists_node stands
    have respects := within.respects made.respects
    cases plan with
    | leaf objects => cases isTop
    | split axis clipLeft clipRight planLeft planRight => cases isTop
    | narrow axis low high inner =>
      cases isTop
      exact ⟨within.narrow.bounds_of_keeps made.respects known respects.1,
        within.narrow.bounds_of_keeps made.respects known respects.2.1⟩
    | oneSided axis side clip inner => cases side <;> cases isTop

end Plan

theorem represents_empty : empty.Represents [] where
  objects := .refl _
  visits := ⟨[], .done, .refl _, rfl⟩
  forward := by simp [empty]
  split := by simp [empty]
  narrow := by simp [empty]

/-- A built hierarchy represents its boxes. -/
theorem buildCounted_represents {boxes : List Box} {leafSize : Nat} {h : Hierarchy}
    {stats : Statistics} (proper : ∀ box ∈ boxes, box.Proper)
    (built : buildCounted boxes leafSize = .ok (h, stats)) : h.Represents boxes := by
  rcases buildCounted_cases proper built with ⟨rfl, rfl⟩ | ⟨plan, from_plan⟩
  · exact represents_empty
  · rw [from_plan.layout]
    exact from_plan.made.represents fun _ _ => boxAt_eq

theorem represents_apart :
    (∀ box ∈ apart, box.Proper) ∧
      ∃ h stats, buildCounted apart 1 = .ok (h, stats) ∧ h.Represents apart := by
  have built : buildCounted apart 1 = .ok (_, _) := rfl
  exact ⟨apart_proper, _, _, built, buildCounted_represents apart_proper built⟩

end Hierarchy

end Sightline
