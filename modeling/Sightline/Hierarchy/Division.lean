import Sightline.Hierarchy.Plan

/-!
# Dividing a group of boxes

A group of boxes is divided at the middle of a grid box, across the longest axis of the grid. A box
belongs to the left side if its own middle does. If one side stays empty, the grid is cut down to the
other side and the division tried again, until it succeeds, until the contents turn out to be much
narrower than the space for them, or until the grid does not get smaller any more.
-/
namespace Sightline.Hierarchy

/-- A numbered object and its box. -/
structure Item where
  object : Nat
  box : Box
deriving DecidableEq, Repr

/-- The middle of an item on an axis. -/
def Item.middle (item : Item) (axis : Axis) : Single :=
  (item.box.lo.get axis + item.box.hi.get axis) * 0.5

/-- Items sorted to both sides of a plane, and how far they reach on its axis. -/
structure Sorted where
  /-- The items of the left side, the last one first. -/
  left : List Item
  right : List Item
  /-- Where the left side ends and the right side begins. -/
  clipLeft : Single
  clipRight : Single
  /-- Where all items together begin and end. -/
  low : Single
  high : Single
deriving Repr

def Sorted.empty : Sorted := ⟨[], [], .negativeInfinity, .infinity, .infinity, .negativeInfinity⟩

def Sorted.addLeft (axis : Axis) (s : Sorted) (item : Item) : Sorted :=
  let lo := item.box.lo.get axis
  let hi := item.box.hi.get axis
  { s with
    left := item :: s.left
    clipLeft := if s.clipLeft < hi then hi else s.clipLeft
    low := min s.low lo
    high := max s.high hi }

def Sorted.addRight (axis : Axis) (s : Sorted) (item : Item) : Sorted :=
  let lo := item.box.lo.get axis
  let hi := item.box.hi.get axis
  { s with
    right := item :: s.right
    clipRight := if lo < s.clipRight then lo else s.clipRight
    low := min s.low lo
    high := max s.high hi }

/-- Sorts `count` items, which stand in `front` and, in reverse, in `back`. After an item of the left
side the next one comes from the front, after an item of the right side from the back. -/
def sortItems (axis : Axis) (plane : Single) :
    Nat → Bool → List Item → List Item → Sorted → Sorted
  | 0, _, _, _, s => s
  | count + 1, false, item :: front, back, s =>
    if item.middle axis ≤ plane then sortItems axis plane count false front back (s.addLeft axis item)
    else sortItems axis plane count true front back (s.addRight axis item)
  | count + 1, true, front, item :: back, s =>
    if item.middle axis ≤ plane then sortItems axis plane count false front back (s.addLeft axis item)
    else sortItems axis plane count true front back (s.addRight axis item)
  | _ + 1, _, _, _, s => s

/-- Sorts all items to the sides of a plane. -/
def sortAt (axis : Axis) (plane : Single) (items : List Item) : Sorted :=
  sortItems axis plane items.length false items items.reverse .empty

/-- A division that left one side empty. -/
structure Attempt where
  axis : Axis
  plane : Single
  /-- The side that holds everything, and where its contents end, if they stay within it. -/
  hole : Option (Side × Single)
deriving Repr

/-- How a group of items is to be divided. -/
inductive Division where
  | leaf (items : List Item)
  | narrow (axis : Axis) (low high : Single) (items : List Item) (grid : Box)
  | split (axis : Axis) (plane : Single) (sorted : Sorted) (grid : Box)
    (hole : Option (Axis × Side × Single))
deriving Repr

/-- The contents on an axis are much narrower than the space, with empty space on both ends. -/
def Sorted.MuchNarrower (s : Sorted) (space : Box) (axis : Axis) : Prop :=
  space.lo.get axis < s.low ∧ s.high < space.hi.get axis ∧
    1.3 * (s.high - s.low) < space.hi.get axis - space.lo.get axis

instance (s : Sorted) (space : Box) (axis : Axis) : Decidable (s.MuchNarrower space axis) :=
  inferInstanceAs (Decidable (_ ∧ _ ∧ _))

/-- The earlier attempt was made at the same place. -/
def Repeats (earlier : Option Attempt) (axis : Axis) (plane : Single) : Prop :=
  ∃ attempt ∈ earlier, attempt.axis = axis ∧ attempt.plane.Near plane

instance (earlier : Option Attempt) (axis : Axis) (plane : Single) :
    Decidable (Repeats earlier axis plane) :=
  inferInstanceAs (Decidable (∃ attempt ∈ earlier, _))

/-- The grid is in order, and the space overlaps it. -/
def checkGrid (space grid : Box) : Except Failure Unit :=
  let extent := grid.extent
  if ∃ axis ∈ Axis.all, extent.get axis < 0 then .error .negativeExtents
  else if ∃ axis ∈ Axis.all,
      space.hi.get axis < grid.lo.get axis ∨ grid.hi.get axis < space.lo.get axis then
    .error .invalidOverlap
  else .ok ()

/-- Divides a group of items within `space`, with at most the given number of attempts. -/
def divide (space : Box) :
    Nat → Option Attempt → List Item → Box → Except Failure Division
  | 0, _, _, _ => .error .endless
  | attempts + 1, earlier, items, grid => do
    checkGrid space grid
    let axis := grid.extent.primaryAxis
    let plane := 0.5 * (grid.lo.get axis + grid.hi.get axis)
    let s := sortAt axis plane items
    let left := s.left.reverse
    if s.MuchNarrower space axis then return .narrow axis s.low s.high (left ++ s.right) grid
    else if s.right.isEmpty then
      if Repeats earlier axis plane then return .leaf left
      else
        let hole := if s.clipLeft ≤ plane then some (.below, s.clipLeft) else none
        divide space attempts (some ⟨axis, plane, hole⟩) left (grid.setHi axis plane)
    else if left.isEmpty then
      if Repeats earlier axis plane then return .leaf s.right
      else
        let hole := if plane ≤ s.clipRight then some (.above, s.clipRight) else none
        divide space attempts (some ⟨axis, plane, hole⟩) s.right (grid.setLo axis plane)
    else
      let hole := earlier.bind fun attempt =>
        attempt.hole.map fun (side, clip) => (attempt.axis, side, clip)
      return .split axis plane s grid hole

/-- The distance between the faces of a box, in ranks, over all axes. -/
def rankDistance (b : Box) : Nat :=
  let along (axis : Axis) := ((b.hi.get axis).rank - (b.lo.get axis).rank).toNat
  along .x + along .y + along .z

/-- More attempts than a grid of numbers allows: an attempt that does not move a face of the grid by
a rank is the last but one. -/
def attemptLimit (grid : Box) : Nat := rankDistance grid + 8

end Sightline.Hierarchy
