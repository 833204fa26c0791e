import Sightline.Fault
import Sightline.Geometry.Box

/-!
# Bounding interval hierarchies

A hierarchy sorts numbered objects into leaves. An inner node divides what is below it by clip planes
across one axis: a `split` has two children, everything under the left one ends at `left` or before,
everything under the right one begins at `right` or after; an infinite clip marks a side without
content. A `narrow` node has one child, and everything under it lies between `low` and `high`. The
nodes stand in one array, the right child next to the left one.
-/
namespace Sightline

inductive Node where
  | leaf (first count : Nat)
  | split (axis : Axis) (child : Nat) (left right : Single)
  | narrow (axis : Axis) (child : Nat) (low high : Single)
deriving DecidableEq, Repr

structure Hierarchy where
  nodes : Array Node
  /-- The objects of all leaves; each leaf names a range of it. -/
  objects : Array Nat
  bounds : Box
deriving DecidableEq, Repr

namespace Hierarchy

/-- The most parts of a hierarchy that a walk keeps for later. -/
def stackSize : Nat := 64

/-- Objects to a leaf, where nothing else is asked for. -/
def defaultLeafSize : Nat := 3

def empty : Hierarchy := ⟨#[], #[], .zero⟩

def isEmpty (h : Hierarchy) : Bool := h.nodes.isEmpty

/-- The objects of a leaf. -/
def leafObjects (h : Hierarchy) (first count : Nat) : Except Failure (List Nat) :=
  if first + count ≤ h.objects.size then
    .ok (h.objects.extract first (first + count)).toList
  else .error .outOfRange

end Hierarchy

end Sightline
