import Sightline.Hierarchy.Plan
import Sightline.Single.Decimal

/-!
# Statistics of a hierarchy

Counts over the nodes of a plan. The empty side of a one-sided node counts as a leaf without objects,
one level below the node, though it has no place in the array.
-/
namespace Sightline.Hierarchy

structure Statistics where
  /-- The number of inner nodes. -/
  nodes : Nat := 0
  leaves : Nat := 0
  objects : Nat := 0
  fewestObjects : Nat := 0xffffffff
  mostObjects : Nat := 0
  /-- The sum of the depths of all leaves; the top node has depth one. -/
  depths : Nat := 0
  leastDepth : Nat := 0xffffffff
  greatestDepth : Nat := 0
  /-- How many leaves have none, one, two, three, four and more objects. -/
  histogram : Vector Nat 6 := Vector.replicate 6 0
  narrowNodes : Nat := 0
deriving DecidableEq, Repr

namespace Statistics

/-- The place of a leaf in the histogram. -/
def bucket (objects : Nat) : Fin 6 := ⟨min objects 5, by omega⟩

def addLeaf (s : Statistics) (depth objects : Nat) : Statistics :=
  { s with
    leaves := s.leaves + 1
    objects := s.objects + objects
    fewestObjects := min s.fewestObjects objects
    mostObjects := max s.mostObjects objects
    depths := s.depths + depth
    leastDepth := min s.leastDepth depth
    greatestDepth := max s.greatestDepth depth
    histogram := s.histogram.set (bucket objects) (s.histogram[bucket objects] + 1) }

def addNode (s : Statistics) : Statistics := { s with nodes := s.nodes + 1 }

/-- Counts a plan whose top node has the given depth. -/
def addPlan (depth : Nat) : Plan → Statistics → Statistics
  | .leaf objects, s => s.addLeaf depth objects.length
  | .split _ _ _ left right, s =>
    addPlan (depth + 1) right (addPlan (depth + 1) left s.addNode)
  | .narrow _ _ _ inner, s =>
    addPlan (depth + 1) inner { s.addNode with narrowNodes := s.narrowNodes + 1 }
  | .oneSided _ _ _ inner, s => addPlan (depth + 1) inner (s.addNode.addLeaf (depth + 1) 0)

/-- The share of leaves with `n` objects, of those with five or more for `n` above four. -/
def leafPercent (s : Statistics) (n : Nat) : Nat :=
  if s.leaves = 0 then 0 else 100 * s.histogram[bucket n] / s.leaves

/-- The quotient of two whole numbers, in single precision and to two places. -/
def average (sum count : Nat) : String :=
  (Single.ofNat sum / Single.ofNat (max count 1)).toFixedText 2

/-- A percentage, three characters wide. -/
def percent (n : Nat) : String := String.ofList ((toString n).toList.leftpad 3 ' ') ++ "%"

def leafLine (s : Statistics) (n : Nat) : String :=
  let start := if n = 0 then "  * Leaves w/: " else "               "
  let label := if n < 5 then "N=" ++ toString n else "N>4"
  start ++ label ++ "  " ++ percent (s.leafPercent n)

/-- The narrow nodes come in pairs with what they replace. -/
def narrowPercent (s : Statistics) : Nat :=
  100 * s.narrowNodes / max (s.nodes + s.leaves - 2 * s.narrowNodes) 1

def toText (s : Statistics) : String :=
  let ifLeaves (n : Nat) : Nat := if s.leaves = 0 then 0 else n
  let filled := s.leaves - s.histogram[bucket 0]
  String.intercalate "\n" <|
    ["Tree stats:",
      "  * Nodes:          " ++ toString s.nodes,
      "  * Leaves:         " ++ toString s.leaves,
      "  * Objects: min    " ++ toString (ifLeaves s.fewestObjects),
      "             avg    " ++ average s.objects s.leaves,
      "           avg(n>0) " ++ average s.objects filled,
      "             max    " ++ toString s.mostObjects,
      "  * Depth:   min    " ++ toString (ifLeaves s.leastDepth),
      "             avg    " ++ average s.depths s.leaves,
      "             max    " ++ toString s.greatestDepth] ++
    (List.range 6).map s.leafLine ++
    ["  * BVH2 nodes:     " ++ toString s.narrowNodes ++ " (" ++ percent s.narrowPercent ++ ")"]

end Statistics

end Sightline.Hierarchy
