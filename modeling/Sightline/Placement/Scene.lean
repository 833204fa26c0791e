import Sightline.Placement.Query

/-!
# Scenes

A scene places models that are known by number, without files. Somebody holds each model at first and
may let go of it; a model that nobody holds any more is gone, except that the location found last
keeps its model. A placed model that is gone answers nothing.
-/
namespace Sightline

structure Scene where
  models : Array Model
  /-- The numbers of the models that are held. -/
  held : List Nat
  /-- Placements with the numbers of their models; a placement may lose its model. -/
  placed : Array (Placement × Option Nat)
  /-- The highest area asked for. -/
  area : Option Area := none
  /-- The highest location asked for, with the number of its model. -/
  location : Option (Location × Nat) := none
deriving DecidableEq, Repr

namespace Scene

def ofPlacements (models : List Model) (placements : List (Placement × Nat)) : Scene :=
  { models := models.toArray, held := List.range models.length,
    placed := (placements.map fun (p, model) => (p, some model)).toArray }

def model? (s : Scene) (number : Nat) : Option Model :=
  if number ∈ s.held ∨ s.location.map Prod.snd = some number then s.models[number]? else none

/-- A placement with its model and the model's number, unless the model is gone. -/
def present? (s : Scene) (index : Nat) : Option (Placement × Model × Nat) := do
  let (placement, number?) ← s.placed[index]?
  let number ← number?
  let model ← s.model? number
  return (placement, model, number)

def loaded (s : Scene) : List Bool :=
  (List.range s.placed.size).map fun index => (s.present? index).isSome

def castRay (s : Scene) (index : Nat) (ray : Ray) (stop : Bool) (reach : Single) :
    Except Failure (Bool × Single) :=
  match s.present? index with
  | none => .ok (false, reach)
  | some (placement, model, _) => placement.castRay model ray stop reach

/-- Asks for the area below a point, and keeps it if it is the highest. -/
def askArea (s : Scene) (index : Nat) (point : Vec) : Except Failure Scene :=
  match s.present? index with
  | none => .ok s
  | some (placement, model, _) => do
    let area ← placement.area? model point
    return { s with area := higher Area.height s.area area }

/-- Asks for the location below a point, and keeps it if it is the highest, which the answer tells. -/
def askLocation (s : Scene) (index : Nat) (point : Vec) : Except Failure (Bool × Scene) :=
  match s.present? index with
  | none => .ok (false, s)
  | some (placement, model, number) => do
    match ← placement.location? model point with
    | none => return (false, s)
    | some found =>
      if Exceeds Location.height found (s.location.map Prod.fst) then
        return (true, { s with location := some (found, number) })
      else return (false, s)

/-- The height at a point of the liquid of some group, as if the group were placed. -/
def liquidLevel? (s : Scene) (index : Nat) (point : Vec) (model group : Nat) :
    Except Failure (Option Single) := do
  let (placement, _) ← fetch s.placed index
  let group ← fetch (← fetch s.models model).groups group
  placement.liquidLevel? group point

def forget (s : Scene) : Scene := { s with area := none, location := none }

def unload (s : Scene) (index : Nat) : Scene :=
  { s with placed := s.placed.modify index fun (placement, _) => (placement, none) }

def release (s : Scene) (model : Nat) : Scene := { s with held := s.held.filter (· ≠ model) }

end Scene

end Sightline
