import Sightline.Proofs.Hierarchy.Lattice
import Sightline.Proofs.Hierarchy.Layout

/-!
# Hierarchies over blocks of a lattice

The grid of a block is cut in the middle of an axis on which the block can be halved, and the items on
both sides fill the halves. So the plan for a block is a perfect tree whose leaves have two cells each,
and the number of nodes of its hierarchy is known.
-/
namespace Sightline

/-- No component is greater than that of the primary axis. -/
theorem Vec.abs_le_primaryAxis {v : Vec} (numbers : ∀ axis, (v.get axis).isNaN = false) (axis : Axis) :
    (v.get axis).abs ≤ (v.get v.primaryAxis).abs := by
  have number (axis : Axis) : (v.get axis).abs.isNaN = false := by
    rw [Single.isNaN_abs, numbers axis]
  have self (axis : Axis) := Single.le_self (number axis)
  have above (one other : Axis) (notLess : ¬(v.get one).abs < (v.get other).abs) :
      (v.get other).abs ≤ (v.get one).abs :=
    Single.le_of_not_lt (number one) (number other) notLess
  unfold primaryAxis
  split
  next yx =>
    split
    next zx =>
      cases axis
      exacts [self .x, Single.le_of_lt yx, Single.le_of_lt zx]
    next xz =>
      have atLeast : v.x.abs ≤ v.z.abs := above .z .x xz
      cases axis
      exacts [atLeast, Single.le_of_lt (Single.lt_of_lt_of_le yx atLeast), self .z]
  next xy =>
    have atLeast : v.x.abs ≤ v.y.abs := above .y .x xy
    split
    next zy =>
      cases axis
      exacts [atLeast, self .y, Single.le_of_lt zy]
    next yz =>
      have most : v.y.abs ≤ v.z.abs := above .z .y yz
      cases axis
      exacts [Single.le_trans atLeast most, most, self .z]

namespace Hierarchy.Block

variable {b : Block} {axis : Axis} {items : List Item}

/-! ### Dividing a block -/

theorem rank_extent_box (small : b.Small) (axis : Axis) :
    2 * 2 ^ b.levels axis < 2 ^ 24 ∧
      (b.box.extent.get axis).rank = (Single.ofNat (2 * 2 ^ b.levels axis)).rank := by
  have behind := small axis
  have filled := b.first_lt_next axis
  have size : 2 * b.next axis - 2 * b.first axis = 2 * 2 ^ b.levels axis := by
    unfold next
    omega
  rw [Box.extent_get, box_lo, box_hi, Single.rank_ofNat_sub (by omega) (by omega), size]
  exact ⟨by omega, rfl⟩

/-- The axis of the greatest extent is one on which the block can be halved most often. -/
theorem levels_le_cutAxis (small : b.Small) (axis : Axis) :
    b.levels axis ≤ b.levels (cutAxis b.box) := by
  have number (axis : Axis) : (b.box.extent.get axis).isNaN = false := by
    rw [Single.isNaN_congr (rank_extent_box small axis).2, Single.isNaN_ofNat]
  have most : (b.box.extent.get axis).abs.rank ≤ (b.box.extent.get (cutAxis b.box)).abs.rank :=
    (Vec.abs_le_primaryAxis number axis).2.2
  obtain ⟨bound, extent⟩ := rank_extent_box small axis
  obtain ⟨mostBound, mostExtent⟩ := rank_extent_box small (cutAxis b.box)
  rw [Single.rank_abs, Single.rank_abs, extent, mostExtent] at most
  -- extents are positive, so that they are compared as their numbers are
  have positive : 0 < (Single.ofNat (2 * 2 ^ b.levels axis)).rank :=
    Single.rank_ofNat_pos (by positivity) bound
  have mostPositive : 0 < (Single.ofNat (2 * 2 ^ b.levels (cutAxis b.box))).rank :=
    Single.rank_ofNat_pos (by positivity) mostBound
  have notLess := (Single.rank_ofNat_lt_iff mostBound bound).not.mp (by omega)
  exact (Nat.pow_le_pow_iff_right Nat.one_lt_two).mp (by omega)

theorem cutPlane_box (small : b.Small) (thick : 0 < b.levels (cutAxis b.box)) :
    cutPlane b.box = .ofNat (2 * b.middle (cutAxis b.box)) := by
  have bound := small (cutAxis b.box)
  have sizes := add_next thick
  have begins := b.first_lt_middle (cutAxis b.box)
  have sum : 2 * b.first (cutAxis b.box) + 2 * b.next (cutAxis b.box) =
      2 * (2 * b.middle (cutAxis b.box)) := by omega
  have rank : (Single.ofNat (2 * b.middle (cutAxis b.box))).rank = (cutPlane b.box).rank := by
    rw [cutPlane, box_lo, box_hi, Single.rank_middle_ofNat sum (by omega)]
  have positive : 0 < (Single.ofNat (2 * b.middle (cutAxis b.box))).rank :=
    Single.rank_ofNat_pos (by omega) (by omega)
  exact (Single.eq_of_rank (by omega) rank).symm

/-- The items were sorted to the halves of a block. -/
structure Halves (items : List Item) (b : Block) (axis : Axis) (s : Sorted) : Prop where
  thick : 0 < b.levels axis
  perm : (s.left.reverse ++ s.right).Perm items
  left : Fills s.left.reverse (b.lower axis)
  right : Fills s.right (b.upper axis)
  clipLeft : s.clipLeft = .ofNat (2 * b.middle axis)
  clipRight : s.clipRight = .ofNat (2 * b.middle axis)
  low : s.low ≤ b.box.lo.get axis

theorem halves_sortAt (fills : Fills items b) (small : b.Small)
    (thick : 0 < b.levels (cutAxis b.box)) :
    Halves items b (cutAxis b.box) (sortAt (cutAxis b.box) (cutPlane b.box) items) := by
  have proper : ∀ item ∈ items, item.box.ProperOn (cutAxis b.box) := by
    intro item member
    obtain ⟨place, inside, box⟩ := fills.within item member
    rw [box]
    exact proper_cell small inside _
  have fits := sortAt_fits (cutPlane b.box) proper
  have perm := sortAt_perm (cutAxis b.box) (cutPlane b.box) items
  have plane := cutPlane_box small thick
  generalize cutAxis b.box = axis at thick fits perm plane ⊢
  rw [plane] at fits perm ⊢
  generalize sortAt axis (.ofNat (2 * b.middle axis)) items = s at fits perm ⊢
  obtain ⟨left, right⟩ := fills.sides small thick perm
    (fun item member => fits.leftMiddle item (List.mem_reverse.mp member)) fits.rightMiddle
  refine ⟨thick, perm, left, right, ?_, ?_, ?_⟩
  · -- the clips are faces of items, so that they are whole numbers
    have met : ∃ item ∈ s.left, item.box.hi.get axis = s.clipLeft :=
      fits.leftMet.resolve_left fun none => left.ne_nil (List.reverse_eq_nil_iff.mpr none.1)
    obtain ⟨item, member, same⟩ := met
    have ends : s.clipLeft = .ofNat (2 * (b.lower axis).next axis) :=
      left.hi_eq (small.lower thick)
        (fun other listed => fits.leftEnds other (List.mem_reverse.mp listed))
        (same ▸ (left.faces (List.mem_reverse.mpr member) axis).2)
    rwa [lower_next, if_pos rfl] at ends
  · have met : ∃ item ∈ s.right, item.box.lo.get axis = s.clipRight :=
      fits.rightMet.resolve_left fun none => right.ne_nil none.1
    obtain ⟨item, member, same⟩ := met
    have begins : s.clipRight = .ofNat (2 * (b.upper axis).first axis) :=
      right.lo_eq (small.upper thick) fits.rightBegins (same ▸ (right.faces member axis).1)
    rwa [upper_first, if_pos rfl] at begins
  · -- the first cell stands where the block begins
    obtain ⟨item, member, box⟩ := fills.covers b.first b.has_first
    have begins := fits.begins item (by simpa using perm.mem_iff.mpr member)
    rwa [box] at begins

/-- A block is cut into its halves. -/
theorem divide_block (fills : Fills items b) (small : b.Small)
    (thick : 0 < b.levels (cutAxis b.box)) {attempts : Nat} {division : Division}
    (returned : divide b.box attempts none items b.box = .ok division) :
    ∃ axis s, division = .split axis (.ofNat (2 * b.middle axis)) s b.box none ∧
      Halves items b axis s := by
  have halves := halves_sortAt fills small thick
  cases attempts with
  | zero => cases returned
  | succ attempts =>
    rw [divide_succ] at returned
    cases checked : checkGrid b.box b.box with
    | error failure =>
      rw [checked] at returned
      cases returned
    | ok =>
      rw [checked] at returned
      have tried := trial_tried b.box none items b.box
      generalize trial b.box none items b.box = result at tried returned
      -- neither side is empty, and the items reach to where the space begins
      cases tried with
      | narrow narrower => exact absurd narrower.1 (Single.not_lt_of_le halves.low)
      | leafLeft noRight => exact absurd noRight halves.right.ne_nil
      | againLeft noRight => exact absurd noRight halves.right.ne_nil
      | leafRight noLeft => exact absurd (List.reverse_eq_nil_iff.mpr noLeft) halves.left.ne_nil
      | againRight noLeft => exact absurd (List.reverse_eq_nil_iff.mpr noLeft) halves.left.ne_nil
      | split =>
        cases returned
        refine ⟨_, _, ?_, halves⟩
        rw [cutPlane_box small thick]
        rfl

/-- Each half has half of the items. -/
theorem Halves.length_sides {s : Sorted} {height : Nat} (halves : Halves items b axis s) (small : b.Small)
    (high : b.depth = height + 1) (count : items.length = 2 ^ (height + 1)) :
    s.left.reverse.length = 2 ^ height ∧ s.right.length = 2 ^ height := by
  have left := halves.left.two_pow_le (small.lower halves.thick)
  have right := halves.right.two_pow_le (small.upper halves.thick)
  have both := halves.perm.length_eq
  rw [List.length_append, count, Nat.pow_succ] at both
  rw [Nat.add_right_cancel ((depth_lower halves.thick).trans high)] at left
  rw [Nat.add_right_cancel ((depth_upper halves.thick).trans high)] at right
  omega

/-- A block of more cells than a leaf may have is planned as its halves are. -/
theorem planned_block {leafSize levels depth : Nat} {plan : Plan} (fills : Fills items b)
    (small : b.Small) (high : 0 < b.depth) (many : leafSize < items.length)
    (shallow : depth < deepest)
    (planned : planItems leafSize (levels + 1) depth items b.box b.box = .ok plan) :
    ∃ axis s left right, plan = .split axis s.clipLeft s.clipRight left right ∧
      Halves items b axis s ∧
      planItems leafSize levels (depth + 1) s.left.reverse (b.lower axis).box (b.lower axis).box =
        .ok left ∧
      planItems leafSize levels (depth + 1) s.right (b.upper axis).box (b.upper axis).box =
        .ok right := by
  obtain ⟨thickest, anyThick⟩ := exists_thick high
  have thick : 0 < b.levels (cutAxis b.box) :=
    Nat.lt_of_lt_of_le anyThick (levels_le_cutAxis small thickest)
  cases planItems_planned planned with
  | few tooFew => omega
  | leaf _ _ divided =>
    obtain ⟨axis, s, same, -⟩ := divide_block fills small thick divided
    cases same
  | narrow _ _ divided =>
    obtain ⟨axis, s, same, -⟩ := divide_block fills small thick divided
    cases same
  | oneSided _ _ divided =>
    obtain ⟨axis, s, same, -⟩ := divide_block fills small thick divided
    cases same
  | split _ _ divided plannedLeft plannedRight =>
    obtain ⟨axis, s, same, halves⟩ := divide_block fills small thick divided
    cases same
    rw [halves.clipLeft, ← box_lower] at plannedLeft
    rw [halves.clipRight, ← box_upper halves.thick] at plannedRight
    exact ⟨_, _, _, _, rfl, halves, plannedLeft, plannedRight⟩

/-- The plan for a block is a perfect tree whose leaves have two cells each. -/
theorem sizeBelow_planItems {leafSize levels depth height : Nat} {plan : Plan}
    (fills : Fills items b) (small : b.Small) (high : b.depth = height + 1)
    (count : items.length = 2 ^ (height + 1)) (two : 2 ≤ leafSize) (three : leafSize ≤ 3)
    (shallow : depth + height ≤ deepest) (enough : height < levels)
    (planned : planItems leafSize levels depth items b.box b.box = .ok plan) :
    plan.sizeBelow + 2 = 2 ^ (height + 1) := by
  -- the induction follows the planner, which gets one level deeper with each half
  induction levels generalizing height depth b items plan with
  | zero => cases enough
  | succ levels ih =>
    cases height with
    | zero =>
      -- two cells make a leaf
      rw [planItems, if_pos (.inl (by omega))] at planned
      cases planned
      rfl
    | succ height =>
      have many : leafSize < items.length := by
        have positive := Nat.two_pow_pos height
        rw [Nat.pow_succ, Nat.pow_succ] at count
        omega
      obtain ⟨axis, s, left, right, rfl, halves, plannedLeft, plannedRight⟩ :=
        planned_block fills small (by omega) many (by omega) planned
      obtain ⟨countLeft, countRight⟩ := halves.length_sides small high count
      have highLeft := Nat.add_right_cancel ((depth_lower halves.thick).trans high)
      have highRight := Nat.add_right_cancel ((depth_upper halves.thick).trans high)
      have sizeLeft := ih halves.left (small.lower halves.thick) highLeft countLeft (by omega)
        (by omega) plannedLeft
      have sizeRight := ih halves.right (small.upper halves.thick) highRight countRight (by omega)
        (by omega) plannedRight
      rw [Plan.sizeBelow, Nat.pow_succ]
      omega

/-! ### Hierarchies over blocks -/

/-- The cells of a block. -/
def cells (b : Block) : List Box := (places b.first fun axis => 2 ^ b.levels axis).map .cell

theorem mem_cells {box : Box} : box ∈ b.cells ↔ ∃ place, b.Has place ∧ .cell place = box := by
  simp only [cells, List.mem_map, mem_places]
  rfl

theorem length_cells (b : Block) : b.cells.length = 2 ^ b.depth := by
  rw [cells, List.length_map, length_places, depth, Nat.pow_add, Nat.pow_add, Nat.mul_assoc]

theorem fills_cells (b : Block) : Fills (itemsOf b.cells) b := by
  constructor
  · intro item member
    obtain ⟨place, inside, box⟩ := mem_cells.mp (box_mem_of_mem_itemsOf member)
    exact ⟨place, inside, box.symm⟩
  · intro place inside
    obtain ⟨object, found⟩ := List.mem_iff_getElem?.mp (mem_cells.mpr ⟨place, inside, rfl⟩)
    exact ⟨⟨object, .cell place⟩, mem_itemsOf.mpr found, rfl⟩

theorem cells_ne_nil (b : Block) : b.cells ≠ [] :=
  List.ne_nil_of_mem (mem_cells.mpr ⟨b.first, b.has_first, rfl⟩)

theorem cells_proper (small : b.Small) : ∀ box ∈ b.cells, box.Proper := by
  intro box listed
  obtain ⟨place, inside, rfl⟩ := mem_cells.mp listed
  exact proper_cell small inside

theorem cells_moderate (small : b.Small) : ∀ box ∈ b.cells, box.Moderate := by
  intro box listed
  obtain ⟨place, inside, rfl⟩ := mem_cells.mp listed
  exact moderate_cell small inside

theorem boundsOf_cells (small : b.Small) : boundsOf b.cells = b.box := by
  have covers (item : Item) (member : item ∈ itemsOf b.cells) (axis : Axis) :=
    Box.covers_iff.mp
      (boundsOf_covers (cells_proper small) item.box (box_mem_of_mem_itemsOf member)) axis
  refine Box.ext_get fun axis => ?_
  rw [box_lo, box_hi]
  have faces : b.Reaches axis ((boundsOf b.cells).lo.get axis) ∧
      b.Reaches axis ((boundsOf b.cells).hi.get axis) := by
    refine boundsOf_faces b.cells_ne_nil fun box listed => ?_
    obtain ⟨place, inside, rfl⟩ := mem_cells.mp listed
    obtain ⟨item, member, same⟩ := b.fills_cells.covers place inside
    rw [← same]
    exact b.fills_cells.faces member axis
  exact ⟨b.fills_cells.lo_eq small (fun item member => (covers item member axis).1) faces.1,
    b.fills_cells.hi_eq small (fun item member => (covers item member axis).2) faces.2⟩

/-- The hierarchy over a block that is halved down to leaves of two cells. -/
theorem exists_build_cells {height leafSize : Nat} (small : b.Small) (high : b.depth = height + 1)
    (limit : height < 28) (two : 2 ≤ leafSize) (three : leafSize ≤ 3) :
    ∃ h, build b.cells leafSize = .ok h ∧ h.nodes.size + 1 = 2 ^ (height + 1) := by
  obtain ⟨plan, planned⟩ : ∃ plan, planItems leafSize deepest 1 (itemsOf b.cells)
      (boundsOf b.cells) (boundsOf b.cells) = .ok plan :=
    planItems_ends (fitting_boundsOf b.cells_ne_nil (cells_proper small) (cells_moderate small))
  have built := buildCounted_of_planned b.cells_ne_nil planned
  have count : (itemsOf b.cells).length = 2 ^ (height + 1) := by
    rw [itemsOf, List.length_map, List.length_zipIdx, length_cells, high]
  rw [boundsOf_cells small] at planned
  have size := sizeBelow_planItems b.fills_cells small high count two three
    (by rw [deepest]; omega) (by rw [deepest]; omega) planned
  have few : ¬objectLimit ≤ b.cells.length := by
    -- there may be as many as `2 ^ 28` cells
    have less : 2 ^ (height + 1) < 2 ^ 29 := Nat.pow_lt_pow_right Nat.one_lt_two (by omega)
    rw [length_cells, high, objectLimit]
    omega
  refine ⟨plan.layOut (boundsOf b.cells), ?_, ?_⟩
  · rw [build, if_neg few, built]
    rfl
  · simp only [Plan.layOut, List.size_toArray, Plan.length_nodes]
    omega

end Hierarchy.Block

end Sightline
