import Sightline.Fault
import Sightline.Geometry.Ray

/-!
# Triangles

A triangle names its corners by their numbers in a list of vertices.
-/
namespace Sightline

structure Triangle where
  a : Nat
  b : Nat
  c : Nat
deriving DecidableEq, Repr

/-- The corners of a triangle, as points. -/
structure Corners where
  a : Vec
  b : Vec
  c : Vec
deriving DecidableEq, Repr

/-- Looks an item up by its number. -/
def fetch {α : Type} (list : Array α) (index : Nat) : Except Failure α :=
  match list[index]? with
  | some item => .ok item
  | none => .error .outOfRange

namespace Triangle

def corners (t : Triangle) (vertices : Array Vec) : Except Failure Corners := do
  return ⟨← fetch vertices t.a, ← fetch vertices t.b, ← fetch vertices t.c⟩

end Triangle

namespace Corners

def bounds (t : Corners) : Box := ⟨min (min t.a t.b) t.c, max (max t.a t.b) t.c⟩

/-- A ray is parallel to a triangle if the determinant of the two is below this. -/
def parallel : Single := 0.00001

/-- The time at which a ray hits the triangle in front of its origin. The determinant with the two
edges at the first corner gives the place of the hit in units of the edges, and then its time. -/
def hitTime? (t : Corners) (ray : Ray) : Option Single :=
  let edge1 := t.b - t.a
  let edge2 := t.c - t.a
  let p := ray.direction.cross edge2
  let det := edge1.dot p
  if det.abs < parallel then none
  else
    let factor := 1 / det
    let s := ray.origin - t.a
    let u := factor * s.dot p
    if ¬(0 ≤ u ∧ u ≤ 1) then none
    else
      let q := s.cross edge1
      let v := factor * ray.direction.dot q
      if v < 0 ∨ 1 < u + v then none
      else
        let time := factor * edge2.dot q
        if 0 < time then some time else none

end Corners

namespace Triangle

/-- The time at which a ray hits the triangle before it has gone `reach` far. -/
def hitWithin? (t : Triangle) (vertices : Array Vec) (ray : Ray) (reach : Single) :
    Except Failure (Option Single) := do
  let corners ← t.corners vertices
  return (corners.hitTime? ray).filter fun time => decide (time < reach)

end Triangle

end Sightline
