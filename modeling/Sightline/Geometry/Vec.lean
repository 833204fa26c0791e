import Sightline.Single.Arithmetic

/-!
# Vectors

Points and directions in space, with components in single precision. Sums of products are taken from
left to right, which fixes every rounding.
-/
namespace Sightline

inductive Axis where
  | x
  | y
  | z
deriving DecidableEq, Repr

def Axis.all : List Axis := [.x, .y, .z]

def Axis.index : Axis → Nat
  | .x => 0
  | .y => 1
  | .z => 2

structure Vec where
  x : Single
  y : Single
  z : Single
deriving DecidableEq, Repr

namespace Vec

def get (v : Vec) : Axis → Single
  | .x => v.x
  | .y => v.y
  | .z => v.z

def set (v : Vec) (axis : Axis) (value : Single) : Vec :=
  match axis with
  | .x => { v with x := value }
  | .y => { v with y := value }
  | .z => { v with z := value }

def zero : Vec := ⟨0, 0, 0⟩

/-- Combines two vectors component by component. -/
def zipWith (f : Single → Single → Single) (v w : Vec) : Vec := ⟨f v.x w.x, f v.y w.y, f v.z w.z⟩

instance : Add Vec where
  add := zipWith (· + ·)

instance : Sub Vec where
  sub := zipWith (· - ·)

instance : Min Vec where
  min := zipWith min

instance : Max Vec where
  max := zipWith max

def scale (v : Vec) (factor : Single) : Vec := ⟨v.x * factor, v.y * factor, v.z * factor⟩

/-- The vector `v` moved `factor` times along `direction`. -/
def along (v : Vec) (factor : Single) (direction : Vec) : Vec :=
  ⟨v.x + factor * direction.x, v.y + factor * direction.y, v.z + factor * direction.z⟩

def dot (v w : Vec) : Single := v.x * w.x + v.y * w.y + v.z * w.z

def cross (v w : Vec) : Vec :=
  ⟨v.y * w.z - v.z * w.y, v.z * w.x - v.x * w.z, v.x * w.y - v.y * w.x⟩

def length (v : Vec) : Single := (v.dot v).sqrt

def isFinite (v : Vec) : Bool := v.x.isFinite && v.y.isFinite && v.z.isFinite

/-- Equality of the points that two vectors name, component by component. -/
def Same (v w : Vec) : Prop := v.x.Same w.x ∧ v.y.Same w.y ∧ v.z.Same w.z

instance (v w : Vec) : Decidable (v.Same w) :=
  inferInstanceAs (Decidable (v.x.Same w.x ∧ v.y.Same w.y ∧ v.z.Same w.z))

/-- The axis of the greatest component in absolute value; of equal ones the later axis. -/
def primaryAxis (v : Vec) : Axis :=
  if v.y.abs < v.x.abs then if v.z.abs < v.x.abs then .x else .z
  else if v.z.abs < v.y.abs then .y
  else .z

theorem get_set_self (v : Vec) (axis : Axis) (value : Single) :
    (v.set axis value).get axis = value := by
  cases axis <;> rfl

theorem get_set_of_ne (v : Vec) {axis other : Axis} (value : Single) (h : axis ≠ other) :
    (v.set axis value).get other = v.get other := by
  cases axis <;> cases other <;> first | rfl | contradiction

end Vec

namespace Single

/-- The share of its size by which a number may differ and still count as near. -/
def tolerance : Single := 0.00001

/-- Two numbers are near if they are the same or differ by at most `tolerance`, times one more than
the first in absolute value. -/
def Near (x y : Single) : Prop :=
  x.Same y ∨
    (x - y).abs ≤
      (if (x.abs + 1).isInfinite then tolerance else tolerance * (x.abs + 1))

instance (x y : Single) : Decidable (x.Near y) := inferInstanceAs (Decidable (_ ∨ _))

end Single

end Sightline
