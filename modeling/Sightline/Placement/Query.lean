import Sightline.Geometry.Rotation
import Sightline.Mesh.Model
import Sightline.Placement.Basic

/-!
# Asking a placed model

Questions about a placed model are asked in the space of the map. They are moved to the space of the
model, answered there, and the answer is moved back. A turn is undone by the transposed matrix.
-/
namespace Sightline

/-- The highest floor below a point, with what the model there tells about itself. -/
structure Area where
  height : Single
  flags : UInt32
  terrain : Int32
  root : Int32
  group : Int32
deriving DecidableEq, Repr

/-- The highest floor below a point, with the placed model and the number of the group it is in. -/
structure Location where
  height : Single
  placement : Placement
  model : Model
  group : Nat
deriving DecidableEq, Repr

namespace Placement

/-- Takes directions of the map to directions of the model. -/
def turnBack (p : Placement) : Matrix := (Matrix.ofPlacement p.angles).transpose

/-- Takes lengths of the map to lengths of the model. -/
def shrink (p : Placement) : Single := 1 / p.scale

def toModel (p : Placement) (point : Vec) : Vec :=
  (p.turnBack.apply (point - p.position)).scale p.shrink

def ofModel (p : Placement) (point : Vec) : Vec :=
  (p.turnBack.applyTransposed point).scale p.scale + p.position

def down (p : Placement) : Vec := p.turnBack.apply ⟨0, 0, -1⟩

/-- Tells whether a ray hits the placed model within its reach, and how far it goes until then. -/
def castRay (p : Placement) (model : Model) (ray : Ray) (stop : Bool) (reach : Single) :
    Except Failure (Bool × Single) :=
  if (ray.entryTime p.bounds).Same .infinity then .ok (false, reach)
  else do
    let modelRay := Ray.ofDirection (p.toModel ray.origin) (p.turnBack.apply ray.direction)
    let (hit, distance) ← model.castRay modelRay stop (reach * p.shrink)
    return (hit, if hit then distance * p.scale else reach)

/-- Only models that are no doodads have areas, and only within their box. -/
def Covers (p : Placement) (point : Vec) : Prop := ¬p.Has doodad ∧ p.bounds.Contains point

instance (p : Placement) (point : Vec) : Decidable (p.Covers point) :=
  inferInstanceAs (Decidable (_ ∧ _))

/-- The height of the floor that lies at a distance below a point, both in the space of the model. -/
def floorHeight (p : Placement) (point : Vec) (distance : Single) : Single :=
  (p.ofModel (point.along distance p.down)).z

def area? (p : Placement) (model : Model) (point : Vec) : Except Failure (Option Area) :=
  if ¬p.Covers point then .ok none
  else do
    match ← model.floorBelow? (p.toModel point) p.down with
    | none => return none
    | some floor =>
      return some ⟨p.floorHeight (p.toModel point) floor.distance, floor.flags,
        p.terrain.toUInt32.toInt32, floor.root.toInt32, floor.group.toInt32⟩

def location? (p : Placement) (model : Model) (point : Vec) : Except Failure (Option Location) :=
  if ¬p.Covers point then .ok none
  else do
    match ← model.groupBelow? (p.toModel point) p.down with
    | none => return none
    | some (group, distance) =>
      return some ⟨p.floorHeight (p.toModel point) distance, p, model, group⟩

/-- The height of a group's liquid at a point. The model is taken to stand upright. -/
def liquidLevel? (p : Placement) (group : Group) (point : Vec) : Except Failure (Option Single) := do
  let level ← group.liquidLevel? (p.toModel point)
  return level.map fun level => level * p.scale + p.position.z

end Placement

/-- A floor exceeds the one found so far if it is higher. Before any is found it only has to be above
the lowest of all heights. -/
def Exceeds {α : Type} (height : α → Single) (candidate : α) (best : Option α) : Prop :=
  (best.map height).getD .negativeInfinity < height candidate

instance {α : Type} (height : α → Single) (candidate : α) (best : Option α) :
    Decidable (Exceeds height candidate best) :=
  inferInstanceAs (Decidable (_ < _))

/-- Keeps the higher of two floors, and the first one where neither is higher. -/
def higher {α : Type} (height : α → Single) (best new : Option α) : Option α :=
  match new with
  | none => best
  | some candidate => if Exceeds height candidate best then some candidate else best

end Sightline
