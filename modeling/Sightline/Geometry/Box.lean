import Sightline.Geometry.Vec

/-!
# Boxes

A box has faces parallel to the axes and contains its faces.
-/
namespace Sightline

structure Box where
  lo : Vec
  hi : Vec
deriving DecidableEq, Repr

namespace Box

def zero : Box := ⟨Vec.zero, Vec.zero⟩

def ofPoint (p : Vec) : Box := ⟨p, p⟩

/-- The least box that covers this one and a point. -/
def insert (b : Box) (p : Vec) : Box := ⟨min b.lo p, max b.hi p⟩

/-- The least box that covers both boxes. -/
def merge (b c : Box) : Box := ⟨min b.lo c.lo, max b.hi c.hi⟩

/-- A point lies in a box if it lies between the faces on each axis, the faces included. -/
def Contains (b : Box) (p : Vec) : Prop :=
  ∀ axis ∈ Axis.all, b.lo.get axis ≤ p.get axis ∧ p.get axis ≤ b.hi.get axis

instance (b : Box) (p : Vec) : Decidable (b.Contains p) :=
  inferInstanceAs (Decidable (∀ axis ∈ Axis.all, _))

/-- A box covers another one if the other one's faces lie between its own. -/
def Covers (b c : Box) : Prop :=
  ∀ axis ∈ Axis.all, b.lo.get axis ≤ c.lo.get axis ∧ c.hi.get axis ≤ b.hi.get axis

instance (b c : Box) : Decidable (b.Covers c) :=
  inferInstanceAs (Decidable (∀ axis ∈ Axis.all, _))

def extent (b : Box) : Vec := b.hi - b.lo

def center (b : Box) : Vec := (b.lo + b.hi).scale 0.5

def translate (b : Box) (offset : Vec) : Box := ⟨b.lo + offset, b.hi + offset⟩

/-- Moves the upper face on one axis. -/
def setHi (b : Box) (axis : Axis) (value : Single) : Box := { b with hi := b.hi.set axis value }

/-- Moves the lower face on one axis. -/
def setLo (b : Box) (axis : Axis) (value : Single) : Box := { b with lo := b.lo.set axis value }

end Box

end Sightline
