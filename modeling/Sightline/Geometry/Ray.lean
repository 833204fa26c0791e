import Sightline.Geometry.Box

/-!
# Rays

A ray carries the reciprocals of its direction, infinite on axes where the direction is zero. The time
at which it enters a box comes from the three slabs between opposite faces: the ray is in the box
while it is in all of them.
-/
namespace Sightline

structure Ray where
  origin : Vec
  direction : Vec
  inverse : Vec
deriving DecidableEq, Repr

/-- A range of times along a ray. -/
structure Span where
  near : Single
  far : Single
deriving DecidableEq, Repr

namespace Ray

def ofDirection (origin direction : Vec) : Ray :=
  ⟨origin, direction, ⟨1 / direction.x, 1 / direction.y, 1 / direction.z⟩⟩

def pointAt (r : Ray) (time : Single) : Vec := r.origin.along time r.direction

def isFinite (r : Ray) : Bool := r.origin.isFinite && r.direction.isFinite

/-- The time at which the ray reaches a plane across an axis. -/
def timeTo (r : Ray) (axis : Axis) (plane : Single) : Single :=
  (plane - r.origin.get axis) * r.inverse.get axis

/-- Narrows a span to the time in the slab of one axis, or `none` if the ray misses the box. A ray
along the slab is in it for all time or never. -/
def clipToSlab (r : Ray) (b : Box) (span : Span) (axis : Axis) : Option Span :=
  if (r.direction.get axis).Same 0 then
    if r.origin.get axis < b.lo.get axis ∨ b.hi.get axis < r.origin.get axis then none
    else some span
  else
    let toLo := r.timeTo axis (b.lo.get axis)
    let toHi := r.timeTo axis (b.hi.get axis)
    let enter := if toLo < toHi then toLo else toHi
    let leave := if toLo < toHi then toHi else toLo
    let near := if span.near < enter then enter else span.near
    let far := if leave < span.far then leave else span.far
    if far < near then none else some ⟨near, far⟩

/-- The time at which the ray enters the box: zero from inside, infinity if it never does. -/
def entryTime (r : Ray) (b : Box) : Single :=
  match Axis.all.foldlM (r.clipToSlab b) ⟨.negativeInfinity, .infinity⟩ with
  | none => .infinity
  | some span => if span.far < 0 then .infinity else max span.near 0

end Ray

end Sightline
