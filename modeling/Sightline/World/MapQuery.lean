import Sightline.Hierarchy.PointWalk
import Sightline.Hierarchy.RayWalk
import Sightline.Placement.Query
import Sightline.World.MapTree

/-!
# Asking a map

Questions to a map walk its tree and go to the placed models in the slots they meet. Empty slots, and
slots whose model is gone from the library, answer nothing.
-/
namespace Sightline.MapTree

/-- A slot's placement and model, if both are there. -/
def present? (t : MapTree) (library : Library) (slot : Nat) :
    Except Failure (Option (Placement × Model)) := do
  let occupant? ← fetch t.slots slot
  return do
    let occupant ← occupant?
    let model ← library.model? (← occupant.handle)
    return (occupant.placement, model)

/-- Tests one slot; the memo tells whether any slot was hit so far. -/
def visitSlot (t : MapTree) (library : Library) (ray : Ray) (stop : Bool) :
    Hierarchy.Visitor Bool := fun slot progress => do
  match ← t.present? library slot with
  | none => return (false, progress)
  | some (placement, model) =>
    let (hit, reach) ← placement.castRay model ray stop progress.reach
    return (hit, ⟨reach, progress.memo || hit⟩)

/-- The time at which a ray hits a placed model within its reach. With `stop` any hit will do,
otherwise it is the first one. -/
def castRay? (t : MapTree) (library : Library) (ray : Ray) (stop : Bool) (reach : Single) :
    Except Failure (Option Single) := do
  let progress ← t.tree.walkRay ray (t.visitSlot library ray stop) stop ⟨reach, false⟩
  return if progress.memo then some progress.reach else none

/-- Points nearer than this are one point. -/
def leastDistance : Single := 1e-10

/-- The way from one point to another: its length and its direction. -/
def way (start goal : Vec) : Single × Vec :=
  let length := (goal - start).length
  (length, (goal - start).scale (1 / length))

def sees (t : MapTree) (library : Library) (start goal : Vec) : Except Failure Bool :=
  let (length, direction) := way start goal
  if length < leastDistance then .ok true
  else do
    let hit ← t.castRay? library (.ofDirection start direction) true length
    return hit.isNone

/-- The first hit on the way from one point to another, moved along the way by `shift`. A shift
backwards goes no further than the start. -/
def hitBetween? (t : MapTree) (library : Library) (start goal : Vec) (shift : Single) :
    Except Failure (Option Vec) :=
  let (length, direction) := way start goal
  if length < leastDistance then .ok none
  else do
    match ← t.castRay? library (.ofDirection start direction) false length with
    | none => return none
    | some time =>
      let hit := start.along time direction
      if shift < 0 ∧ (hit - start).length ≤ -shift then return some start
      else return some (hit.along shift direction)

/-- The height of the first surface below a point and within reach; infinity without one. -/
def heightBelow (t : MapTree) (library : Library) (point : Vec) (reach : Single) :
    Except Failure Single := do
  match ← t.castRay? library (.ofDirection point ⟨0, 0, -1⟩) false reach with
  | none => return .infinity
  | some time => return point.z - time

/-- Keeps the higher of the area found so far and that of one slot. -/
def visitArea (t : MapTree) (library : Library) (point : Vec) :
    Hierarchy.PointVisitor (Option Area) := fun slot best => do
  match ← t.present? library slot with
  | none => return best
  | some (placement, model) => return higher Area.height best (← placement.area? model point)

def area? (t : MapTree) (library : Library) (point : Vec) : Except Failure (Option Area) :=
  t.tree.walkPoint point (t.visitArea library point) none

/-- Keeps the higher of the location found so far and that of one slot. -/
def visitLocation (t : MapTree) (library : Library) (point : Vec) :
    Hierarchy.PointVisitor (Option Location) := fun slot best => do
  match ← t.present? library slot with
  | none => return best
  | some (placement, model) =>
    return higher Location.height best (← placement.location? model point)

def location? (t : MapTree) (library : Library) (point : Vec) : Except Failure (Option Location) :=
  t.tree.walkPoint point (t.visitLocation library point) none

end Sightline.MapTree
