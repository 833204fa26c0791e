import Sightline.Hierarchy.Division
import Sightline.Hierarchy.Statistics

/-!
# Building a hierarchy

A group of more items than a leaf may hold is divided, and each part again, until the parts are small
enough or the plan is `deepest` levels deep. The top group has the box around all items both for its
grid and for its space.
-/
namespace Sightline.Hierarchy

/-- The depth at which a group becomes a leaf whatever its size. -/
def deepest : Nat := 64

/-- Plans a group of items; each level of `levels` is at least one deeper than the level before. -/
def planItems (leafSize : Nat) :
    (levels depth : Nat) → List Item → (grid space : Box) → Except Failure Plan
  | 0, _, items, _, _ => .ok (.leaf (items.map Item.object))
  | levels + 1, depth, items, grid, space =>
    if items.length ≤ leafSize ∨ deepest ≤ depth then .ok (.leaf (items.map Item.object))
    else do
      match ← divide space (attemptLimit grid) none items grid with
      | .leaf items => return .leaf (items.map Item.object)
      | .narrow axis low high items grid =>
        let inner := (space.setLo axis low).setHi axis high
        return .narrow axis low high (← planItems leafSize levels (depth + 1) items grid inner)
      | .split axis plane s grid hole =>
        let depth := if hole.isSome then depth + 2 else depth + 1
        let left ← planItems leafSize levels depth s.left.reverse
          (grid.setHi axis plane) (space.setHi axis s.clipLeft)
        let right ← planItems leafSize levels depth s.right
          (grid.setLo axis plane) (space.setLo axis s.clipRight)
        let plan := Plan.split axis s.clipLeft s.clipRight left right
        return match hole with
          | none => plan
          | some (axis, side, clip) => .oneSided axis side clip plan

/-- Numbers boxes in their order. -/
def itemsOf (boxes : List Box) : List Item :=
  boxes.zipIdx.map fun (box, object) => ⟨object, box⟩

/-- The box around all boxes. -/
def boundsOf : List Box → Box
  | [] => .zero
  | first :: rest => (first :: rest).foldl Box.merge first

/-- The plan of a hierarchy over boxes; without boxes there is none. -/
def plan? (boxes : List Box) (leafSize : Nat) : Except Failure (Option Plan) :=
  if boxes.isEmpty then .ok none
  else do
    let bounds := boundsOf boxes
    return some (← planItems leafSize deepest 1 (itemsOf boxes) bounds bounds)

/-- Builds the hierarchy over boxes and counts its nodes. -/
def buildCounted (boxes : List Box) (leafSize : Nat) : Except Failure (Hierarchy × Statistics) := do
  match ← plan? boxes leafSize with
  | none => return (.empty, {})
  | some plan => return (plan.layOut (boundsOf boxes), Statistics.addPlan 1 plan {})

/-- Hierarchies have fewer objects than this. -/
def objectLimit : Nat := 0x20000000

def build (boxes : List Box) (leafSize : Nat) : Except Failure Hierarchy := do
  if objectLimit ≤ boxes.length then throw .tooManyObjects
  return (← buildCounted boxes leafSize).1

end Sightline.Hierarchy
