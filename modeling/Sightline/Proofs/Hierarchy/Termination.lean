import Sightline.Proofs.Single.Halves
import Sightline.Proofs.Hierarchy.Building

/-!
# Every build ends

While a group of moderate boxes is divided, the middle of each box stays in the grid and each box in
the space. So the grid is always in order and overlaps the space, and no check of it fails. A trial
that has to be repeated either takes a rank off the grid or leaves all of its ranks as they are; in
the second case the next trial cuts at the same place and is the last one.
-/
namespace Sightline

/-! ### What depends on ranks only -/

namespace Single

variable {x y x' y' : Single}

theorem isNaN_congr (same : x.rank = y.rank) : x.isNaN = y.isNaN := by
  rw [Bool.eq_iff_iff, ← Bool.not_eq_false, ← Bool.not_eq_false, isNaN_eq_false_iff,
    isNaN_eq_false_iff, same]

theorem isFinite_congr (same : x.rank = y.rank) : x.isFinite = y.isFinite := by
  rw [Bool.eq_iff_iff, isFinite_iff, isFinite_iff, same]

theorem lt_congr (sameX : x.rank = x'.rank) (sameY : y.rank = y'.rank) : x < y ↔ x' < y' := by
  rw [lt_iff, lt_iff, isNaN_congr sameX, isNaN_congr sameY, sameX, sameY]

theorem signedUnits_congr (same : x.rank = y.rank) : x.signedUnits = y.signedUnits := by
  rw [signedUnits_eq, signedUnits_eq, same]

end Single

theorem Vec.primaryAxis_congr {v w : Vec} (same : ∀ axis, (v.get axis).rank = (w.get axis).rank) :
    v.primaryAxis = w.primaryAxis := by
  have sameAbs (axis : Axis) : (v.get axis).abs.rank = (w.get axis).abs.rank := by
    rw [Single.rank_abs, Single.rank_abs, same]
  have yx : v.y.abs < v.x.abs ↔ w.y.abs < w.x.abs := Single.lt_congr (sameAbs .y) (sameAbs .x)
  have zx : v.z.abs < v.x.abs ↔ w.z.abs < w.x.abs := Single.lt_congr (sameAbs .z) (sameAbs .x)
  have zy : v.z.abs < v.y.abs ↔ w.z.abs < w.y.abs := Single.lt_congr (sameAbs .z) (sameAbs .y)
  simp only [primaryAxis, yx, zx, zy]

namespace Box

@[simp] theorem extent_get (b : Box) (axis : Axis) :
    b.extent.get axis = b.hi.get axis - b.lo.get axis := by
  cases axis <;> rfl

/-- The faces of the box are words of which the sum of two is finite. -/
def Moderate (b : Box) : Prop := ∀ axis, (b.lo.get axis).Moderate ∧ (b.hi.get axis).Moderate

instance (b : Box) : Decidable b.Moderate :=
  inferInstanceAs (Decidable (∀ axis, (b.lo.get axis).Moderate ∧ (b.hi.get axis).Moderate))

/-- The faces of two boxes have the same ranks. -/
structure SameRanks (b c : Box) : Prop where
  lo : ∀ axis, (b.lo.get axis).rank = (c.lo.get axis).rank
  hi : ∀ axis, (b.hi.get axis).rank = (c.hi.get axis).rank

end Box

namespace Hierarchy

theorem cutAxis_congr {grid other : Box} (same : grid.SameRanks other) (moderate : grid.Moderate) :
    cutAxis grid = cutAxis other := by
  apply Vec.primaryAxis_congr
  intro axis
  have finiteLo := (moderate axis).1.isFinite
  have finiteHi := (moderate axis).2.isFinite
  rw [Box.extent_get, Box.extent_get, Single.rank_sub finiteHi finiteLo,
    Single.rank_sub (Single.isFinite_congr (same.hi axis) ▸ finiteHi)
      (Single.isFinite_congr (same.lo axis) ▸ finiteLo),
    Single.signedUnits_congr (same.hi axis), Single.signedUnits_congr (same.lo axis)]

theorem rank_cutPlane_congr {grid other : Box} (same : grid.SameRanks other)
    (moderate : grid.Moderate) : (cutPlane grid).rank = (cutPlane other).rank := by
  have sum (axis : Axis) : (grid.lo.get axis + grid.hi.get axis).rank =
      (other.lo.get axis + other.hi.get axis).rank := by
    have finiteLo := (moderate axis).1.isFinite
    have finiteHi := (moderate axis).2.isFinite
    rw [Single.rank_add finiteLo finiteHi,
      Single.rank_add (Single.isFinite_congr (same.lo axis) ▸ finiteLo)
        (Single.isFinite_congr (same.hi axis) ▸ finiteHi),
      Single.signedUnits_congr (same.hi axis), Single.signedUnits_congr (same.lo axis)]
  have finite := Single.isFinite_add (moderate (cutAxis grid)).1 (moderate (cutAxis grid)).2
  unfold cutPlane
  rw [← cutAxis_congr same moderate, Single.rank_mul Single.half_isFinite finite,
    Single.rank_mul Single.half_isFinite (Single.isFinite_congr (sum (cutAxis grid)) ▸ finite),
    Single.signedUnits_congr (sum (cutAxis grid))]

theorem Item.middle_between {item : Item} (proper : item.box.Proper)
    (moderate : item.box.Moderate) (axis : Axis) :
    item.box.lo.get axis ≤ item.middle axis ∧ item.middle axis ≤ item.box.hi.get axis := by
  obtain ⟨moderateLo, moderateHi⟩ := moderate axis
  have ordered := (proper axis).ordered
  have finite := Single.isFinite_add moderateLo moderateHi
  have rank := Single.rank_mul_comm finite Single.half_isFinite
  have number := Single.isNaN_mul finite Single.half_isFinite
  have lower := Single.le_middle moderateLo moderateHi moderateLo (Single.le_self ordered.1) ordered
  have upper := Single.middle_le moderateLo moderateHi moderateHi ordered
    (Single.le_self ordered.2.1)
  exact ⟨⟨ordered.1, number, rank ▸ lower.2.2⟩, ⟨number, ordered.2.1, rank ▸ upper.2.2⟩⟩

/-! ### What is kept while a group is divided -/

/-- A group of moderate boxes with its space and its grid: each box lies in the space, the middle of
each box in the grid. -/
structure Fitting (space : Box) (items : List Item) (grid : Box) : Prop where
  proper : ∀ item ∈ items, item.box.Proper
  moderate : ∀ item ∈ items, item.box.Moderate
  covers : ∀ item ∈ items, space.Covers item.box
  gridModerate : grid.Moderate
  begins : ∀ item ∈ items, ∀ axis, grid.lo.get axis ≤ item.middle axis
  ends : ∀ item ∈ items, ∀ axis, item.middle axis ≤ grid.hi.get axis

namespace Fitting

variable {space grid : Box} {items rest : List Item} {axis : Axis} {plane : Single}

theorem ordered (fitting : Fitting space items grid) (filled : items ≠ []) (axis : Axis) :
    grid.lo.get axis ≤ grid.hi.get axis := by
  obtain ⟨item, member⟩ := List.exists_mem_of_ne_nil items filled
  exact Single.le_trans (fitting.begins item member axis) (fitting.ends item member axis)

theorem plane_between (fitting : Fitting space items grid) (filled : items ≠ []) :
    grid.lo.get (cutAxis grid) ≤ cutPlane grid ∧ cutPlane grid ≤ grid.hi.get (cutAxis grid) := by
  obtain ⟨moderateLo, moderateHi⟩ := fitting.gridModerate (cutAxis grid)
  have ordered := fitting.ordered filled (cutAxis grid)
  exact ⟨Single.le_middle moderateLo moderateHi moderateLo (Single.le_self ordered.1) ordered,
    Single.middle_le moderateLo moderateHi moderateHi ordered (Single.le_self ordered.2.1)⟩

theorem checkGrid_eq (fitting : Fitting space items grid) (filled : items ≠ []) :
    checkGrid space grid = .ok () := by
  -- any item will do: its middle lies in the grid and in the space
  obtain ⟨item, member⟩ := List.exists_mem_of_ne_nil items filled
  have inSpace := Box.covers_iff.mp (fitting.covers item member)
  have middle := Item.middle_between (fitting.proper item member) (fitting.moderate item member)
  have noNegative : ¬∃ axis ∈ Axis.all, grid.extent.get axis < 0 := by
    rintro ⟨axis, -, negative⟩
    have below := negative.2.2
    have zero : (0 : Single).rank = 0 := by decide +kernel
    obtain ⟨moderateLo, moderateHi⟩ := fitting.gridModerate axis
    have units := Single.signedUnits_le_iff.mpr (fitting.ordered filled axis).2.2
    have atLeast := Single.roundedRank_mono 1 (Int.sub_nonneg_of_le units)
    rw [Box.extent_get, Single.rank_sub moderateHi.isFinite moderateLo.isFinite, zero] at below
    rw [Single.roundedRank_zero] at atLeast
    omega
  have overlaps : ¬∃ axis ∈ Axis.all,
      space.hi.get axis < grid.lo.get axis ∨ grid.hi.get axis < space.lo.get axis := by
    rintro ⟨axis, -, before | behind⟩
    · have reaches := Single.le_trans (fitting.begins item member axis)
        (Single.le_trans (middle axis).2 (inSpace axis).2)
      exact Single.not_lt_of_le reaches before
    · have reaches := Single.le_trans (inSpace axis).1
        (Single.le_trans (middle axis).1 (fitting.ends item member axis))
      exact Single.not_lt_of_le reaches behind
  unfold checkGrid
  rw [if_neg noNegative, if_neg overlaps]

theorem part (fitting : Fitting space items grid) (isPart : ∀ item ∈ rest, item ∈ items) :
    Fitting space rest grid where
  proper item member := fitting.proper item (isPart item member)
  moderate item member := fitting.moderate item (isPart item member)
  covers item member := fitting.covers item (isPart item member)
  gridModerate := fitting.gridModerate
  begins item member := fitting.begins item (isPart item member)
  ends item member := fitting.ends item (isPart item member)

/-- Items on one side of a plane fit the grid up to the plane. -/
theorem cutHi (fitting : Fitting space items grid) (moderate : plane.Moderate)
    (below : ∀ item ∈ items, item.middle axis ≤ plane) :
    Fitting space items (grid.setHi axis plane) :=
  { fitting with
    gridModerate := by
      intro other
      rw [Box.setHi_lo, Box.setHi_hi]
      refine ⟨(fitting.gridModerate other).1, ?_⟩
      split
      · exact moderate
      · exact (fitting.gridModerate other).2
    ends := by
      intro item member other
      rw [Box.setHi_hi]
      split
      next same => exact same ▸ below item member
      · exact fitting.ends item member other }

theorem cutLo (fitting : Fitting space items grid) (moderate : plane.Moderate)
    (above : ∀ item ∈ items, plane ≤ item.middle axis) :
    Fitting space items (grid.setLo axis plane) :=
  { fitting with
    gridModerate := by
      intro other
      rw [Box.setLo_lo, Box.setLo_hi]
      refine ⟨?_, (fitting.gridModerate other).2⟩
      split
      · exact moderate
      · exact (fitting.gridModerate other).1
    begins := by
      intro item member other
      rw [Box.setLo_lo]
      split
      next same => exact same ▸ above item member
      · exact fitting.begins item member other }

/-- The space may be cut down to where the items end. -/
theorem spaceHi (fitting : Fitting space items grid) {clip : Single}
    (below : ∀ item ∈ items, item.box.hi.get axis ≤ clip) :
    Fitting (space.setHi axis clip) items grid :=
  { fitting with
    covers := by
      intro item member
      have covers := Box.covers_iff.mp (fitting.covers item member)
      rw [Box.covers_iff]
      intro other
      rw [Box.setHi_lo, Box.setHi_hi]
      refine ⟨(covers other).1, ?_⟩
      split
      next same => exact same ▸ below item member
      · exact (covers other).2 }

theorem spaceLo (fitting : Fitting space items grid) {clip : Single}
    (above : ∀ item ∈ items, clip ≤ item.box.lo.get axis) :
    Fitting (space.setLo axis clip) items grid :=
  { fitting with
    covers := by
      intro item member
      have covers := Box.covers_iff.mp (fitting.covers item member)
      rw [Box.covers_iff]
      intro other
      rw [Box.setLo_lo, Box.setLo_hi]
      refine ⟨?_, (covers other).2⟩
      split
      next same => exact same ▸ above item member
      · exact (covers other).1 }

end Fitting

/-- The groups that a division leaves to be planned fit their spaces and grids. -/
def Division.Fitting (space : Box) : Division → Prop
  | .leaf _ => True
  | .narrow axis low high rest grid =>
    Hierarchy.Fitting ((space.setLo axis low).setHi axis high) rest grid
  | .split axis plane s grid _ =>
    Hierarchy.Fitting (space.setHi axis s.clipLeft) s.left.reverse (grid.setHi axis plane) ∧
      Hierarchy.Fitting (space.setLo axis s.clipRight) s.right (grid.setLo axis plane)

def Trial.Fitting (space : Box) : Trial → Prop
  | .done division => division.Fitting space
  | .again _ rest grid => Hierarchy.Fitting space rest grid

variable {space grid : Box} {items : List Item} {earlier : Option Attempt}

theorem Fitting.trial (fitting : Fitting space items grid) (filled : items ≠ [])
    (earlier : Option Attempt) :
    (trial space earlier items grid).Fitting space := by
  have fits : (sortAt (cutAxis grid) (cutPlane grid) items).Fits (cutAxis grid) (cutPlane grid) :=
    sortAt_fits (cutPlane grid) fun item member => fitting.proper item member (cutAxis grid)
  have perm := sortAt_perm (cutAxis grid) (cutPlane grid) items
  obtain ⟨lower, upper⟩ := fitting.plane_between filled
  have moderate : (cutPlane grid).Moderate :=
    Single.moderate_of_between (fitting.gridModerate _).1 (fitting.gridModerate _).2 lower upper
  have tried := trial_tried space earlier items grid
  generalize Hierarchy.trial space earlier items grid = result at tried ⊢
  generalize sortAt (cutAxis grid) (cutPlane grid) items = s at fits perm tried
  have partLeft : ∀ item ∈ s.left.reverse, item ∈ items := fun item member =>
    perm.mem_iff.mp (List.mem_append_left _ member)
  have partRight : ∀ item ∈ s.right, item ∈ items := fun item member =>
    perm.mem_iff.mp (List.mem_append_right _ member)
  have below : ∀ item ∈ s.left.reverse, item.middle (cutAxis grid) ≤ cutPlane grid :=
    fun item member => fits.leftMiddle item (List.mem_reverse.mp member)
  have above : ∀ item ∈ s.right, cutPlane grid ≤ item.middle (cutAxis grid) := by
    intro item member
    have number := (fitting.begins item (partRight item member) (cutAxis grid)).2.1
    exact Single.le_of_lt (Single.lt_of_not_le number lower.2.1 (fits.rightMiddle item member))
  have fittingLeft := (fitting.part partLeft).cutHi moderate below
  have fittingRight := (fitting.part partRight).cutLo moderate above
  cases tried with
  | narrow =>
    have whole : Fitting space (s.left.reverse ++ s.right) grid :=
      fitting.part fun item member => perm.mem_iff.mp member
    have sides (item : Item) (member : item ∈ s.left.reverse ++ s.right) :
        item ∈ s.left ∨ item ∈ s.right := by
      simpa using member
    have narrowed := whole.spaceLo fun item member => fits.begins item (sides item member)
    exact narrowed.spaceHi fun item member => fits.ends item (sides item member)
  | leafLeft => trivial
  | againLeft => exact fittingLeft
  | leafRight => trivial
  | againRight => exact fittingRight
  | split =>
    exact ⟨fittingLeft.spaceHi fun item member => fits.leftEnds item (List.mem_reverse.mp member),
      fittingRight.spaceLo fits.rightBegins⟩

/-! ### What a repeated trial gains -/

theorem trial_again_cases {attempt : Attempt} {rest : List Item} {cut : Box}
    (again : trial space earlier items grid = .again attempt rest cut) :
    ¬Repeats earlier (cutAxis grid) (cutPlane grid) ∧ rest.Perm items ∧
      attempt.axis = cutAxis grid ∧ attempt.plane = cutPlane grid ∧
      (cut = grid.setHi (cutAxis grid) (cutPlane grid) ∨
        cut = grid.setLo (cutAxis grid) (cutPlane grid)) := by
  have perm := sortAt_perm (cutAxis grid) (cutPlane grid) items
  have tried := trial_tried space earlier items grid
  rw [again] at tried
  cases tried with
  | againLeft noRight fresh =>
    rw [noRight, List.append_nil] at perm
    exact ⟨fresh, perm, rfl, rfl, .inl rfl⟩
  | againRight noLeft _ fresh =>
    rw [noLeft, List.reverse_nil, List.nil_append] at perm
    exact ⟨fresh, perm, rfl, rfl, .inr rfl⟩

theorem rankDistance_setHi {axis : Axis} {plane : Single}
    (lower : grid.lo.get axis ≤ plane) (upper : plane ≤ grid.hi.get axis) :
    rankDistance (grid.setHi axis plane) < rankDistance grid ∨
      grid.SameRanks (grid.setHi axis plane) := by
  have low := lower.2.2
  have high := upper.2.2
  by_cases still : plane.rank = (grid.hi.get axis).rank
  · refine .inr ⟨fun other => rfl, fun other => ?_⟩
    rw [Box.setHi_hi]
    split
    next same => rw [still, same]
    · rfl
  · refine .inl ?_
    have less : (plane.rank - (grid.lo.get axis).rank).toNat <
        ((grid.hi.get axis).rank - (grid.lo.get axis).rank).toNat := by omega
    cases axis <;> simpa [rankDistance, Box.setHi_hi] using less

theorem rankDistance_setLo {axis : Axis} {plane : Single}
    (lower : grid.lo.get axis ≤ plane) (upper : plane ≤ grid.hi.get axis) :
    rankDistance (grid.setLo axis plane) < rankDistance grid ∨
      grid.SameRanks (grid.setLo axis plane) := by
  have low := lower.2.2
  have high := upper.2.2
  by_cases still : plane.rank = (grid.lo.get axis).rank
  · refine .inr ⟨fun other => ?_, fun other => rfl⟩
    rw [Box.setLo_lo]
    split
    next same => rw [still, same]
    · rfl
  · refine .inl ?_
    have less : ((grid.hi.get axis).rank - plane.rank).toNat <
        ((grid.hi.get axis).rank - (grid.lo.get axis).rank).toNat := by omega
    cases axis <;> simpa [rankDistance, Box.setLo_lo] using less

/-- After a trial that moved no face by a rank, the next one cuts at the same place. -/
theorem repeats_of_sameRanks {other : Box} {attempt : Attempt} (same : grid.SameRanks other)
    (moderate : grid.Moderate) (number : (cutPlane grid).isNaN = false)
    (onAxis : attempt.axis = cutAxis grid) (atPlane : attempt.plane = cutPlane grid) :
    Repeats (some attempt) (cutAxis other) (cutPlane other) := by
  have sameRank := rank_cutPlane_congr same moderate
  refine ⟨attempt, rfl, onAxis.trans (cutAxis_congr same moderate), .inl ?_⟩
  rw [atPlane]
  exact ⟨number, Single.isNaN_congr sameRank ▸ number, sameRank⟩

/-- A division ends if there are more attempts than ranks to take off the grid, and also at once if it
would cut where the attempt before did. -/
theorem divide_ends {attempts : Nat} (fitting : Fitting space items grid) (filled : items ≠ [])
    (enough : rankDistance grid + 2 ≤ attempts ∨
      (1 ≤ attempts ∧ Repeats earlier (cutAxis grid) (cutPlane grid))) :
    ∃ division, divide space attempts earlier items grid = .ok division ∧
      division.Fitting space := by
  induction attempts generalizing earlier items grid with
  | zero => omega
  | succ attempts ih =>
    rw [divide_succ, fitting.checkGrid_eq filled]
    have after := fitting.trial filled earlier
    cases tried : trial space earlier items grid with
    | done division =>
      rw [tried] at after
      exact ⟨division, rfl, after⟩
    | again attempt rest cut =>
      rw [tried] at after
      obtain ⟨fresh, perm, onAxis, atPlane, moved⟩ := trial_again_cases tried
      obtain ⟨lower, upper⟩ := fitting.plane_between filled
      have gain : rankDistance cut < rankDistance grid ∨ grid.SameRanks cut := by
        rcases moved with rfl | rfl
        · exact rankDistance_setHi lower upper
        · exact rankDistance_setLo lower upper
      have restFilled : rest ≠ [] := by
        rintro rfl
        exact filled perm.nil_eq.symm
      -- a rank is gone from the grid, or the next attempt is sure to be the last
      apply ih after restFilled
      rcases enough with distance | ⟨-, repeats⟩
      · rcases gain with less | same
        · exact .inl (by omega)
        · exact .inr ⟨by omega, repeats_of_sameRanks same fitting.gridModerate lower.2.1 onAxis
            atPlane⟩
      · exact absurd repeats fresh

theorem planItems_ends {leafSize levels depth : Nat} (fitting : Fitting space items grid) :
    ∃ plan, planItems leafSize levels depth items grid space = .ok plan := by
  induction levels generalizing depth items grid space with
  | zero => exact ⟨_, rfl⟩
  | succ levels ih =>
    rw [planItems]
    split
    · exact ⟨_, rfl⟩
    next large =>
      have filled : items ≠ [] := by
        rintro rfl
        exact large (.inl (Nat.zero_le _))
      -- every division starts afresh, with attempts for all ranks of its grid
      have enough : rankDistance grid + 2 ≤ attemptLimit grid := by
        unfold attemptLimit
        omega
      obtain ⟨division, divided, parts⟩ := divide_ends fitting filled (.inl enough)
      rw [divided]
      simp only [bind, Except.bind, pure, Except.pure]
      cases division with
      | leaf rest => exact ⟨_, rfl⟩
      | narrow axis low high rest cut =>
        obtain ⟨inner, planned⟩ := ih parts
        dsimp only
        rw [planned]
        exact ⟨_, rfl⟩
      | split axis plane s cut hole =>
        obtain ⟨left, plannedLeft⟩ := ih parts.1
        obtain ⟨right, plannedRight⟩ := ih parts.2
        dsimp only
        rw [plannedLeft]
        dsimp only
        rw [plannedRight]
        exact ⟨_, rfl⟩

theorem fitting_boundsOf {boxes : List Box} (filled : boxes ≠ [])
    (proper : ∀ box ∈ boxes, box.Proper) (moderate : ∀ box ∈ boxes, box.Moderate) :
    Fitting (boundsOf boxes) (itemsOf boxes) (boundsOf boxes) := by
  have covers (item : Item) (member : item ∈ itemsOf boxes) :=
    Box.covers_iff.mp (boundsOf_covers proper item.box (box_mem_of_mem_itemsOf member))
  have middle (item : Item) (member : item ∈ itemsOf boxes) :=
    Item.middle_between (proper item.box (box_mem_of_mem_itemsOf member))
      (moderate item.box (box_mem_of_mem_itemsOf member))
  exact {
    proper := fun item member => proper item.box (box_mem_of_mem_itemsOf member)
    moderate := fun item member => moderate item.box (box_mem_of_mem_itemsOf member)
    covers := fun item member => boundsOf_covers proper item.box (box_mem_of_mem_itemsOf member)
    gridModerate := fun axis => boundsOf_faces filled fun box member => moderate box member axis
    begins := fun item member axis =>
      Single.le_trans (covers item member axis).1 (middle item member axis).1
    ends := fun item member axis =>
      Single.le_trans (middle item member axis).2 (covers item member axis).2 }

/-- Building over moderate boxes always gives a hierarchy. -/
theorem buildCounted_ends {boxes : List Box} (leafSize : Nat)
    (proper : ∀ box ∈ boxes, box.Proper) (moderate : ∀ box ∈ boxes, box.Moderate) :
    ∃ h stats, buildCounted boxes leafSize = .ok (h, stats) := by
  by_cases none : boxes = []
  · subst none
    exact ⟨_, _, rfl⟩
  · obtain ⟨plan, planned⟩ : ∃ plan,
        planItems leafSize deepest 1 (itemsOf boxes) (boundsOf boxes) (boundsOf boxes) = .ok plan :=
      planItems_ends (fitting_boundsOf none proper moderate)
    exact ⟨_, _, buildCounted_of_planned none planned⟩

theorem buildCounted_ends_apart :
    (∀ box ∈ apart, box.Proper) ∧ (∀ box ∈ apart, box.Moderate) ∧
      ∃ h stats, buildCounted apart 0 = .ok (h, stats) := by
  have moderate : ∀ box ∈ apart, box.Moderate := by decide +kernel
  exact ⟨apart_proper, moderate, buildCounted_ends 0 apart_proper moderate⟩

end Hierarchy

end Sightline
