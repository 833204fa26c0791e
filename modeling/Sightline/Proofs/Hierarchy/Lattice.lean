import Sightline.Proofs.Single.Whole
import Sightline.Proofs.Hierarchy.Termination

/-!
# Blocks of a lattice

The cells of a lattice are cubes with sides of two and corners at even places. A block of it has a power
of two of cells on each axis. The middle of the block on an axis lies between cells, and what lies on
either side of it is a block again, half as large.
-/
namespace Sightline

/-- The point with the given whole coordinates. -/
def Vec.whole (place : Axis → Nat) : Vec :=
  ⟨.ofNat (place .x), .ofNat (place .y), .ofNat (place .z)⟩

@[simp] theorem Vec.whole_get (place : Axis → Nat) (axis : Axis) :
    (Vec.whole place).get axis = .ofNat (place axis) := by
  cases axis <;> rfl

/-- One number for each axis. -/
def perAxis (x y z : Nat) : Axis → Nat
  | .x => x
  | .y => y
  | .z => z

/-- All places from the first one on, as many on each axis as are counted. -/
def places (first count : Axis → Nat) : List (Axis → Nat) :=
  (List.range' (first .x) (count .x)).flatMap fun x =>
    (List.range' (first .y) (count .y)).flatMap fun y =>
      (List.range' (first .z) (count .z)).map fun z => perAxis x y z

theorem mem_places {first count found : Axis → Nat} :
    found ∈ places first count ↔
      ∀ axis, first axis ≤ found axis ∧ found axis < first axis + count axis := by
  simp only [places, List.mem_flatMap, List.mem_map, List.mem_range'_1]
  constructor
  · rintro ⟨x, insideX, y, insideY, z, insideZ, rfl⟩ axis
    cases axis with
    | x => exact insideX
    | y => exact insideY
    | z => exact insideZ
  · intro inside
    refine ⟨_, inside .x, _, inside .y, _, inside .z, ?_⟩
    funext axis
    cases axis <;> rfl

theorem length_places (first count : Axis → Nat) :
    (places first count).length = count .x * (count .y * count .z) := by
  simp [places, List.length_flatMap]

/-- A cell of the lattice. -/
def Box.cell (place : Axis → Nat) : Box :=
  ⟨.whole fun axis => 2 * place axis, .whole fun axis => 2 * (place axis + 1)⟩

namespace Hierarchy

/-- The cells from the first one on, two to the power of `levels` on each axis. -/
structure Block where
  first : Axis → Nat
  levels : Axis → Nat

namespace Block

variable {b : Block} {axis other : Axis} {place : Axis → Nat} {items left right : List Item}

/-- The first cell behind the block. -/
def next (b : Block) (axis : Axis) : Nat := b.first axis + 2 ^ b.levels axis

/-- The first cell of the upper half. -/
def middle (b : Block) (axis : Axis) : Nat := b.first axis + 2 ^ (b.levels axis - 1)

/-- How often the block can be halved. -/
def depth (b : Block) : Nat := b.levels .x + b.levels .y + b.levels .z

def box (b : Block) : Box :=
  ⟨.whole fun axis => 2 * b.first axis, .whole fun axis => 2 * b.next axis⟩

theorem box_lo (b : Block) (axis : Axis) : b.box.lo.get axis = .ofNat (2 * b.first axis) := by
  simp only [box, Vec.whole_get]

theorem box_hi (b : Block) (axis : Axis) : b.box.hi.get axis = .ofNat (2 * b.next axis) := by
  simp only [box, Vec.whole_get]

def Has (b : Block) (place : Axis → Nat) : Prop :=
  ∀ axis, b.first axis ≤ place axis ∧ place axis < b.next axis

/-- All sums of two coordinates are whole numbers that need no rounding. -/
def Small (b : Block) : Prop := ∀ axis, b.next axis < 2 ^ 22

instance (b : Block) : Decidable b.Small := inferInstanceAs (Decidable (∀ axis, b.next axis < 2 ^ 22))

/-! ### Halves -/

/-- The half of a block below the middle on an axis. -/
def lower (b : Block) (axis : Axis) : Block :=
  { b with levels := Function.update b.levels axis (b.levels axis - 1) }

/-- The half of a block from the middle on. -/
def upper (b : Block) (axis : Axis) : Block :=
  ⟨Function.update b.first axis (b.middle axis), Function.update b.levels axis (b.levels axis - 1)⟩

theorem first_lt_middle (b : Block) (axis : Axis) : b.first axis < b.middle axis := by
  have positive := Nat.two_pow_pos (b.levels axis - 1)
  unfold middle
  omega

theorem first_lt_next (b : Block) (axis : Axis) : b.first axis < b.next axis := by
  have positive := Nat.two_pow_pos (b.levels axis)
  unfold next
  omega

theorem has_first (b : Block) : b.Has b.first := fun axis => ⟨Nat.le_refl _, b.first_lt_next axis⟩

/-- The halves are of the same size. -/
theorem add_next (thick : 0 < b.levels axis) : b.first axis + b.next axis = 2 * b.middle axis := by
  obtain ⟨levels, more⟩ := Nat.exists_eq_add_of_lt thick
  unfold next middle
  rw [more, Nat.zero_add, Nat.add_sub_cancel, Nat.pow_succ]
  omega

theorem lower_next : (b.lower axis).next other = if other = axis then b.middle axis else b.next other := by
  unfold lower next middle
  by_cases same : other = axis
  · subst same
    simp
  · simp [same]

theorem upper_next (thick : 0 < b.levels axis) : (b.upper axis).next other = b.next other := by
  have sizes := add_next thick
  by_cases same : other = axis
  · subst same
    unfold next middle at sizes
    simp only [upper, next, middle, Function.update_self]
    omega
  · simp [upper, next, same]

theorem lower_first : (b.lower axis).first other = b.first other := rfl

theorem upper_first :
    (b.upper axis).first other = if other = axis then b.middle axis else b.first other := by
  by_cases same : other = axis
  · subst same
    simp [upper]
  · simp [upper, same]

theorem lower_has (thick : 0 < b.levels axis) :
    (b.lower axis).Has place ↔ b.Has place ∧ place axis < b.middle axis := by
  have sizes := add_next thick
  have begins := b.first_lt_middle axis
  simp only [Has, lower_first, lower_next]
  grind

theorem upper_has (thick : 0 < b.levels axis) :
    (b.upper axis).Has place ↔ b.Has place ∧ b.middle axis ≤ place axis := by
  have begins := b.first_lt_middle axis
  simp only [Has, upper_first, upper_next thick]
  grind

theorem depth_lower (thick : 0 < b.levels axis) : (b.lower axis).depth + 1 = b.depth := by
  unfold depth lower
  cases axis <;> simp <;> omega

theorem depth_upper (thick : 0 < b.levels axis) : (b.upper axis).depth + 1 = b.depth :=
  depth_lower thick

theorem Small.lower (small : b.Small) (thick : 0 < b.levels axis) : (b.lower axis).Small := by
  intro other
  have sizes := add_next thick
  have begins := b.first_lt_middle axis
  have bound := small axis
  rw [lower_next]
  split
  · omega
  · exact small other

theorem Small.upper (small : b.Small) (thick : 0 < b.levels axis) : (b.upper axis).Small := by
  intro other
  rw [upper_next thick]
  exact small other

theorem box_lower : (b.lower axis).box = b.box.setHi axis (.ofNat (2 * b.middle axis)) := by
  refine Box.ext_get fun other => ⟨?_, ?_⟩
  · rw [Box.setHi_lo, box_lo, box_lo, lower_first]
  · rw [Box.setHi_hi]
    simp only [box_hi, lower_next, eq_comm (a := axis)]
    split <;> rfl

theorem box_upper (thick : 0 < b.levels axis) :
    (b.upper axis).box = b.box.setLo axis (.ofNat (2 * b.middle axis)) := by
  refine Box.ext_get fun other => ⟨?_, ?_⟩
  · rw [Box.setLo_lo]
    simp only [box_lo, upper_first, eq_comm (a := axis)]
    split <;> rfl
  · rw [Box.setLo_hi, box_hi, box_hi, upper_next thick]

/-! ### Cells -/

theorem Has.small (small : b.Small) (inside : b.Has place) (axis : Axis) : place axis + 1 < 2 ^ 22 :=
  Nat.lt_of_le_of_lt (inside axis).2 (small axis)

theorem proper_cell (small : b.Small) (inside : b.Has place) : (Box.cell place).Proper := by
  intro axis
  have bound := inside.small small axis
  constructor
  all_goals simp only [Box.cell, Vec.whole_get]
  · exact Single.isFinite_ofNat (by omega)
  · exact Single.isFinite_ofNat (by omega)
  · exact (Single.ofNat_le_iff (by omega) (by omega)).mpr (by omega)

theorem moderate_cell (small : b.Small) (inside : b.Has place) : (Box.cell place).Moderate := by
  intro axis
  have bound := inside.small small axis
  -- between zero and the greatest number of 24 bits all words are moderate
  have moderate {n : Nat} (small : n < 2 ^ 24) : (Single.ofNat n).Moderate := by
    have zero : (Single.ofNat 0).Moderate := by decide +kernel
    have most : (Single.ofNat (2 ^ 24 - 1)).Moderate := by decide +kernel
    exact Single.moderate_of_between zero most
      ((Single.ofNat_le_iff (by decide) small).mpr (Nat.zero_le n))
      ((Single.ofNat_le_iff small (by decide)).mpr (by omega))
  simp only [Box.cell, Vec.whole_get]
  exact ⟨moderate (by omega), moderate (by omega)⟩

/-- A cell is below an even plane or above it. -/
theorem middle_le_iff {item : Item} {plane : Nat} (small : b.Small) (inside : b.Has place)
    (smallPlane : plane < 2 ^ 22) (box : item.box = .cell place) :
    item.middle axis ≤ .ofNat (2 * plane) ↔ place axis < plane := by
  have bound := inside.small small axis
  have finite : (Single.ofNat (2 * place axis) + .ofNat (2 * (place axis + 1))).isFinite = true := by
    have sum : 2 * place axis + 2 * (place axis + 1) < 2 ^ 24 := by omega
    rw [Single.isFinite_iff, Single.rank_ofNat_add sum, ← Single.isFinite_iff]
    exact Single.isFinite_ofNat sum
  have rank : (item.middle axis).rank = (Single.ofNat (2 * place axis + 1)).rank := by
    rw [Item.middle, box]
    simp only [Box.cell, Vec.whole_get]
    rw [Single.rank_mul_comm finite Single.half_isFinite]
    exact Single.rank_middle_ofNat (by omega) (by omega)
  -- the middle is an odd number, and the plane an even one
  have same : item.middle axis ≤ .ofNat (2 * plane) ↔
      Single.ofNat (2 * place axis + 1) ≤ .ofNat (2 * plane) := by
    rw [Single.le_iff, Single.le_iff, Single.isNaN_congr rank, rank]
  rw [same, Single.ofNat_le_iff (by omega) (by omega)]
  omega

/-! ### Groups of cells -/

/-- The boxes of the items are the cells of the block. -/
structure Fills (items : List Item) (b : Block) : Prop where
  within : ∀ item ∈ items, ∃ place, b.Has place ∧ item.box = .cell place
  covers : ∀ place, b.Has place → ∃ item ∈ items, item.box = .cell place

namespace Fills

theorem ne_nil (fills : Fills items b) : items ≠ [] := by
  obtain ⟨item, member, -⟩ := fills.covers b.first b.has_first
  exact List.ne_nil_of_mem member

/-- Items whose cells are those of a part of the block fill this part. -/
theorem part {P : (Axis → Nat) → Prop} {half : Block} (fills : Fills items b)
    (perm : (left ++ right).Perm items) (has : ∀ place, half.Has place ↔ b.Has place ∧ P place)
    (inner : ∀ item ∈ left, ∀ place, b.Has place → item.box = .cell place → P place)
    (outer : ∀ item ∈ right, ∀ place, b.Has place → item.box = .cell place → ¬P place) :
    Fills left half := by
  constructor
  · intro item member
    obtain ⟨place, inside, box⟩ := fills.within item (perm.mem_iff.mp (List.mem_append_left _ member))
    exact ⟨place, (has place).mpr ⟨inside, inner item member place inside box⟩, box⟩
  · intro place inHalf
    obtain ⟨inside, inPart⟩ := (has place).mp inHalf
    obtain ⟨item, member, box⟩ := fills.covers place inside
    refine ⟨item, (List.mem_append.mp (perm.mem_iff.mpr member)).resolve_right fun other => ?_, box⟩
    exact outer item other place inside box inPart

/-- The items on both sides of the middle fill the halves of the block. -/
theorem sides (fills : Fills items b) (small : b.Small) (thick : 0 < b.levels axis)
    (perm : (left ++ right).Perm items)
    (lefts : ∀ item ∈ left, item.middle axis ≤ .ofNat (2 * b.middle axis))
    (rights : ∀ item ∈ right, ¬item.middle axis ≤ .ofNat (2 * b.middle axis)) :
    Fills left (b.lower axis) ∧ Fills right (b.upper axis) := by
  have sizes := add_next thick
  have begins := b.first_lt_middle axis
  have smallMiddle : b.middle axis < 2 ^ 22 := Nat.lt_of_le_of_lt (by omega) (small axis)
  have below (item : Item) (place : Axis → Nat) (inside : b.Has place) (box : item.box = .cell place) :
      item.middle axis ≤ .ofNat (2 * b.middle axis) ↔ place axis < b.middle axis :=
    middle_le_iff small inside smallMiddle box
  constructor
  · refine fills.part perm (fun place => lower_has thick) ?_ ?_
    · intro item member place inside box
      exact (below item place inside box).mp (lefts item member)
    · intro item member place inside box less
      exact rights item member ((below item place inside box).mpr less)
  · refine fills.part (List.perm_append_comm.trans perm) (fun place => upper_has thick) ?_ ?_
    · intro item member place inside box
      exact Nat.le_of_not_lt fun less => rights item member ((below item place inside box).mpr less)
    · intro item member place inside box atLeast
      exact Nat.not_lt_of_le atLeast ((below item place inside box).mp (lefts item member))

end Fills

theorem exists_thick (deep : 0 < b.depth) : ∃ axis, 0 < b.levels axis := by
  by_contra thin
  have none (axis : Axis) : b.levels axis = 0 := Nat.eq_zero_of_not_pos fun thick => thin ⟨axis, thick⟩
  unfold depth at deep
  rw [none, none, none] at deep
  exact Nat.lt_irrefl _ deep

/-- There are as many items as cells, or more. -/
theorem Fills.two_pow_le (fills : Fills items b) (small : b.Small) : 2 ^ b.depth ≤ items.length := by
  induction deep : b.depth generalizing b items with
  | zero => exact List.length_pos_iff.mpr fills.ne_nil
  | succ depth ih =>
    -- the items on each side of some middle are enough for a half
    obtain ⟨axis, thick⟩ : ∃ axis, 0 < b.levels axis := exists_thick (by omega)
    have perm := List.filter_append_perm (fun item => item.middle axis ≤ .ofNat (2 * b.middle axis)) items
    obtain ⟨lower, upper⟩ := fills.sides small thick perm (by simp) (by simp)
    have below := ih lower (small.lower thick) (Nat.add_right_cancel ((depth_lower thick).trans deep))
    have above := ih upper (small.upper thick) (Nat.add_right_cancel ((depth_upper thick).trans deep))
    have both := perm.length_eq
    rw [List.length_append] at both
    rw [Nat.pow_succ]
    omega

/-- The value is a whole number between the faces of the block. -/
def Reaches (b : Block) (axis : Axis) (value : Single) : Prop :=
  ∃ n, 2 * b.first axis ≤ n ∧ n ≤ 2 * b.next axis ∧ value = .ofNat n

theorem Fills.lo_eq (fills : Fills items b) (small : b.Small) {clip : Single}
    (begins : ∀ item ∈ items, clip ≤ item.box.lo.get axis) (whole : b.Reaches axis clip) :
    clip = .ofNat (2 * b.first axis) := by
  have bound := small axis
  have filled := b.first_lt_next axis
  obtain ⟨item, member, box⟩ := fills.covers b.first b.has_first
  obtain ⟨n, atLeast, inside, rfl⟩ := whole
  have atMost := begins item member
  rw [box] at atMost
  simp only [Box.cell, Vec.whole_get] at atMost
  rw [Single.ofNat_le_iff (by omega) (by omega)] at atMost
  rw [Nat.le_antisymm atMost atLeast]

theorem Fills.hi_eq (fills : Fills items b) (small : b.Small) {clip : Single}
    (ends : ∀ item ∈ items, item.box.hi.get axis ≤ clip) (whole : b.Reaches axis clip) :
    clip = .ofNat (2 * b.next axis) := by
  have bound := small axis
  have filled := b.first_lt_next axis
  -- the last cell on the axis
  let place := Function.update b.first axis (b.next axis - 1)
  have last : place axis = b.next axis - 1 := Function.update_self ..
  have inside : b.Has place := by
    intro other
    by_cases same : other = axis
    · subst same
      omega
    · have same : place other = b.first other := Function.update_of_ne same ..
      rw [same]
      exact b.has_first other
  obtain ⟨item, member, box⟩ := fills.covers place inside
  obtain ⟨n, -, atMost, rfl⟩ := whole
  have atLeast := ends item member
  rw [box] at atLeast
  simp only [Box.cell, Vec.whole_get, last] at atLeast
  rw [Single.ofNat_le_iff (by omega) (by omega)] at atLeast
  have same : n = 2 * b.next axis := by omega
  rw [same]

theorem Fills.faces (fills : Fills items b) {item : Item} (member : item ∈ items) (axis : Axis) :
    b.Reaches axis (item.box.lo.get axis) ∧ b.Reaches axis (item.box.hi.get axis) := by
  obtain ⟨place, inside, box⟩ := fills.within item member
  have bounds := inside axis
  rw [box]
  simp only [Box.cell, Vec.whole_get]
  exact ⟨⟨_, by omega, by omega, rfl⟩, ⟨_, by omega, by omega, rfl⟩⟩

end Block

end Hierarchy

end Sightline
