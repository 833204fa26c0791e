import Sightline.Hierarchy.Basic

/-!
# Plans of hierarchies

A plan is a hierarchy as a tree of its own: its leaves hold their objects, its inner nodes their
children. Laying out a plan gives the array of nodes. Below a node stand first its children, then
everything below the left child, then everything below the right one; the objects stand in the order
of the leaves.
-/
namespace Sightline.Hierarchy

/-- The side of a plane on which something lies. -/
inductive Side where
  | below
  | above
deriving DecidableEq, Repr

inductive Plan where
  | leaf (objects : List Nat)
  | split (axis : Axis) (clipLeft clipRight : Single) (left right : Plan)
  /-- Everything lies between two planes. -/
  | narrow (axis : Axis) (low high : Single) (inner : Plan)
  /-- Everything lies on one side of a plane. -/
  | oneSided (axis : Axis) (side : Side) (clip : Single) (inner : Plan)
deriving Repr

namespace Plan

/-- The objects in the order of the leaves. -/
def objects : Plan → List Nat
  | leaf objects => objects
  | split _ _ _ left right => left.objects ++ right.objects
  | narrow _ _ _ inner => inner.objects
  | oneSided _ _ _ inner => inner.objects

/-- The number of nodes below the top one. -/
def sizeBelow : Plan → Nat
  | leaf _ => 0
  | split _ _ _ left right => 2 + left.sizeBelow + right.sizeBelow
  | narrow _ _ _ inner => 1 + inner.sizeBelow
  | oneSided _ _ _ inner => 1 + inner.sizeBelow

/-- The top node, if what is below it stands from place `next` on and its objects from `first` on. The
only child of a one-sided node stands where the child of its side belongs. -/
def top (next first : Nat) : Plan → Node
  | leaf objects => .leaf first objects.length
  | split axis clipLeft clipRight _ _ => .split axis next clipLeft clipRight
  | narrow axis low high _ => .narrow axis next low high
  | oneSided axis .below clip _ => .split axis next clip .infinity
  | oneSided axis .above clip _ => .split axis (next - 1) .negativeInfinity clip

/-- The nodes below the top one, from place `next` on. -/
def nodesBelow (next first : Nat) : Plan → List Node
  | leaf _ => []
  | split _ _ _ left right =>
    let nextLeft := next + 2
    let nextRight := nextLeft + left.sizeBelow
    let firstRight := first + left.objects.length
    left.top nextLeft first :: right.top nextRight firstRight ::
      (left.nodesBelow nextLeft first ++ right.nodesBelow nextRight firstRight)
  | narrow _ _ _ inner => inner.top (next + 1) first :: inner.nodesBelow (next + 1) first
  | oneSided _ _ _ inner => inner.top (next + 1) first :: inner.nodesBelow (next + 1) first

/-- All nodes, the top one first. -/
def nodes (plan : Plan) : List Node := plan.top 1 0 :: plan.nodesBelow 1 0

def layOut (plan : Plan) (bounds : Box) : Hierarchy :=
  ⟨plan.nodes.toArray, plan.objects.toArray, bounds⟩

end Plan

end Sightline.Hierarchy
