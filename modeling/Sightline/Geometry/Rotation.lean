import Sightline.Geometry.Vec
import Sightline.Single.Trigonometry

/-!
# Rotations

Matrices of three rows. A placement is turned about `z`, then `y`, then `x`, by angles in degrees that
are stored in the order `y`, `z`, `x`.
-/
namespace Sightline

structure Matrix where
  row0 : Vec
  row1 : Vec
  row2 : Vec
deriving DecidableEq, Repr

namespace Matrix

def identity : Matrix := ⟨⟨1, 0, 0⟩, ⟨0, 1, 0⟩, ⟨0, 0, 1⟩⟩

def transpose (m : Matrix) : Matrix :=
  ⟨⟨m.row0.x, m.row1.x, m.row2.x⟩, ⟨m.row0.y, m.row1.y, m.row2.y⟩, ⟨m.row0.z, m.row1.z, m.row2.z⟩⟩

/-- The matrix times a column. -/
def apply (m : Matrix) (v : Vec) : Vec := ⟨m.row0.dot v, m.row1.dot v, m.row2.dot v⟩

/-- A row times the matrix. -/
def applyTransposed (m : Matrix) (v : Vec) : Vec :=
  ⟨v.dot m.transpose.row0, v.dot m.transpose.row1, v.dot m.transpose.row2⟩

def mul (m n : Matrix) : Matrix :=
  ⟨n.applyTransposed m.row0, n.applyTransposed m.row1, n.applyTransposed m.row2⟩

def aboutX (angle : Single) : Matrix :=
  ⟨⟨1, 0, 0⟩, ⟨0, angle.cos, -angle.sin⟩, ⟨0, angle.sin, angle.cos⟩⟩

def aboutY (angle : Single) : Matrix :=
  ⟨⟨angle.cos, 0, angle.sin⟩, ⟨0, 1, 0⟩, ⟨-angle.sin, 0, angle.cos⟩⟩

def aboutZ (angle : Single) : Matrix :=
  ⟨⟨angle.cos, -angle.sin, 0⟩, ⟨angle.sin, angle.cos, 0⟩, ⟨0, 0, 1⟩⟩

/-- The turn by `yaw` about `z`, of the turn by `pitch` about `y`, of the turn by `roll` about `x`. -/
def ofEuler (yaw pitch roll : Single) : Matrix :=
  (aboutZ yaw).mul ((aboutY pitch).mul (aboutX roll))

/-- One degree in radians. -/
def degree : Single := 3.14159265 / 180

/-- The turn of a placement from its angles in degrees. -/
def ofPlacement (angles : Vec) : Matrix :=
  ofEuler (angles.y * degree) (angles.x * degree) (angles.z * degree)

end Matrix

end Sightline
