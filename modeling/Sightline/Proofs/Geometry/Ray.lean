import Sightline.Geometry.Ray
import Sightline.Proofs.Geometry.Box
import Sightline.Proofs.Single.Scaling

/-!
# Times along a ray

On an axis along which a ray moves, the times at which it reaches planes follow the order in which it
meets them. On any other axis a time is infinite or no number, and says only on which side of the
plane the ray runs.
-/
namespace Sightline

/-- A time lies in the span. -/
def Span.Has (span : Span) (time : Single) : Prop := span.near ≤ time ∧ time ≤ span.far

namespace Ray

/-- The ray meets the second plane across an axis not before the first one. -/
def Ahead (r : Ray) (axis : Axis) (p q : Single) : Prop :=
  if (r.direction.get axis).negative then q ≤ p else p ≤ q

/-- The face through which a ray that moves along an axis enters a box. -/
def entryFace (r : Ray) (axis : Axis) (b : Box) : Single :=
  if (r.direction.get axis).negative then b.hi.get axis else b.lo.get axis

def exitFace (r : Ray) (axis : Axis) (b : Box) : Single :=
  if (r.direction.get axis).negative then b.lo.get axis else b.hi.get axis

/-- A time lies between the times at which the ray reaches the faces of a box across an axis; a ray
that does not move along the axis runs between the faces. -/
def InSlab (r : Ray) (b : Box) (time : Single) (axis : Axis) : Prop :=
  if (r.direction.get axis).rank = 0 then
    b.lo.get axis ≤ r.origin.get axis ∧ r.origin.get axis ≤ b.hi.get axis
  else
    min (r.timeTo axis (b.lo.get axis)) (r.timeTo axis (b.hi.get axis)) ≤ time ∧
      time ≤ max (r.timeTo axis (b.lo.get axis)) (r.timeTo axis (b.hi.get axis))

/-- The time lies in the span of the box, the range of times in all of its slabs. -/
def Crosses (r : Ray) (b : Box) (time : Single) : Prop := ∀ axis, r.InSlab b time axis

instance (r : Ray) (b : Box) (time : Single) (axis : Axis) : Decidable (r.InSlab b time axis) :=
  inferInstanceAs (Decidable (if (r.direction.get axis).rank = 0 then
      b.lo.get axis ≤ r.origin.get axis ∧ r.origin.get axis ≤ b.hi.get axis
    else
      min (r.timeTo axis (b.lo.get axis)) (r.timeTo axis (b.hi.get axis)) ≤ time ∧
        time ≤ max (r.timeTo axis (b.lo.get axis)) (r.timeTo axis (b.hi.get axis))))

instance (r : Ray) (b : Box) (time : Single) : Decidable (r.Crosses b time) :=
  inferInstanceAs (Decidable (∀ axis, r.InSlab b time axis))

/-- The inverse is a number other than zero with the sign of the direction. -/
structure SignedOn (r : Ray) (axis : Axis) : Prop where
  origin : (r.origin.get axis).isFinite = true
  number : (r.inverse.get axis).isNaN = false
  nonzero : (r.inverse.get axis).rank ≠ 0
  sign : (r.inverse.get axis).negative = (r.direction.get axis).negative

/-- The inverse is a number other than zero with the sign of the direction; it is infinite where the
ray does not move, and only there. -/
structure RegularOn (r : Ray) (axis : Axis) : Prop where
  origin : (r.origin.get axis).isFinite = true
  number : (r.inverse.get axis).isNaN = false
  nonzero : (r.inverse.get axis).rank ≠ 0
  sign : (r.inverse.get axis).negative = (r.direction.get axis).negative
  still : (r.direction.get axis).rank = 0 → (r.inverse.get axis).isInfinite = true
  moves : (r.direction.get axis).rank ≠ 0 → (r.inverse.get axis).isFinite = true

theorem get_inverse_ofDirection (origin direction : Vec) (axis : Axis) :
    (ofDirection origin direction).inverse.get axis = 1 / direction.get axis := by
  cases axis <;> rfl

theorem signedOn_ofDirection {origin direction : Vec} {axis : Axis}
    (finiteOrigin : (origin.get axis).isFinite = true)
    (finiteDirection : (direction.get axis).isFinite = true) :
    (ofDirection origin direction).SignedOn axis := by
  obtain ⟨number, nonzero, sign⟩ := Single.one_div finiteDirection
  rw [← get_inverse_ofDirection origin] at number nonzero sign
  exact ⟨finiteOrigin, number, nonzero, sign⟩

theorem regularOn_ofDirection {origin direction : Vec} {axis : Axis}
    (finiteOrigin : (origin.get axis).isFinite = true)
    (finiteDirection : (direction.get axis).isFinite = true)
    (inverse : (direction.get axis).rank = 0 ∨ (1 / direction.get axis).isFinite = true) :
    (ofDirection origin direction).RegularOn axis := by
  obtain ⟨-, number, nonzero, sign⟩ := signedOn_ofDirection finiteOrigin finiteDirection
  refine ⟨finiteOrigin, number, nonzero, sign, fun zero => ?_, fun moves => ?_⟩
  · rw [get_inverse_ofDirection]
    exact Single.one_div_zero finiteDirection zero
  · rw [get_inverse_ofDirection]
    exact inverse.resolve_left moves

theorem RegularOn.signed {r : Ray} {axis : Axis} (regular : r.RegularOn axis) : r.SignedOn axis :=
  ⟨regular.origin, regular.number, regular.nonzero, regular.sign⟩

variable {r : Ray} {axis : Axis} {p q time : Single} {b c : Box}

/-! ### Faces of a box -/

theorem ahead_faces (r : Ray) (above : b.lo.get axis ≤ p) (below : p ≤ b.hi.get axis) :
    r.Ahead axis (r.entryFace axis b) p ∧ r.Ahead axis p (r.exitFace axis b) := by
  unfold Ahead entryFace exitFace
  cases (r.direction.get axis).negative with
  | true => exact ⟨below, above⟩
  | false => exact ⟨above, below⟩

theorem isFinite_faces (r : Ray) (proper : b.ProperOn axis) :
    (r.entryFace axis b).isFinite = true ∧ (r.exitFace axis b).isFinite = true := by
  unfold entryFace exitFace
  cases (r.direction.get axis).negative with
  | true => exact ⟨proper.finiteHi, proper.finiteLo⟩
  | false => exact ⟨proper.finiteLo, proper.finiteHi⟩

theorem ahead_trans {third : Single} (first : r.Ahead axis p q) (second : r.Ahead axis q third) :
    r.Ahead axis p third := by
  unfold Ahead at first second ⊢
  split at first
  next negative =>
    rw [if_pos negative] at second ⊢
    exact Single.le_trans second first
  next positive =>
    rw [if_neg positive] at second ⊢
    exact Single.le_trans first second

/-! ### Times of planes -/

/-- An infinite plane is infinitely far, on the side to which the ray runs or on the other one. -/
theorem SignedOn.timeTo_infinite (signed : r.SignedOn axis) (infinite : p.isInfinite = true) :
    r.timeTo axis p =
      .ofRank (p.negative != (r.direction.get axis).negative) Single.infinityRank := by
  unfold timeTo
  rw [Single.infinite_sub infinite signed.origin,
    Single.infinite_mul infinite signed.number signed.nonzero, signed.sign]

namespace RegularOn

/-- Along a moving ray, times follow the planes. -/
theorem timeTo_le (regular : r.RegularOn axis) (moves : (r.direction.get axis).rank ≠ 0)
    (finiteP : p.isFinite = true) (finiteQ : q.isFinite = true) (ahead : r.Ahead axis p q) :
    r.timeTo axis p ≤ r.timeTo axis q := by
  have finite := regular.moves moves
  unfold Ahead at ahead
  split at ahead
  next negative =>
    have below := (Single.rank_neg_iff regular.nonzero).mpr (regular.sign.trans negative)
    exact Single.mul_le_mul_of_neg finite below
      (Single.sub_le_sub finiteQ finiteP regular.origin ahead)
  next positive =>
    have above := (Single.rank_pos_iff regular.nonzero).mpr
      (regular.sign.trans (Bool.eq_false_iff.mpr positive))
    exact Single.mul_le_mul finite above (Single.sub_le_sub finiteP finiteQ regular.origin ahead)

theorem isNaN_timeTo (regular : r.RegularOn axis) (moves : (r.direction.get axis).rank ≠ 0)
    (finite : p.isFinite = true) : (r.timeTo axis p).isNaN = false :=
  Single.isNaN_mul_number (Single.isNaN_sub finite regular.origin) (regular.moves moves)
    regular.nonzero

/-- A plane that the ray has on its side is infinitely far, if it does not lie in it. -/
theorem timeTo_still (regular : r.RegularOn axis) (still : (r.direction.get axis).rank = 0)
    (finite : p.isFinite = true) :
    (r.Ahead axis (r.origin.get axis) p →
        (r.timeTo axis p).isNaN = true ∨ r.timeTo axis p = .infinity) ∧
      (r.Ahead axis p (r.origin.get axis) →
        (r.timeTo axis p).isNaN = true ∨ r.timeTo axis p = .negativeInfinity) := by
  have number := Single.isNaN_sub finite regular.origin
  obtain ⟨inPlane, beside⟩ := Single.mul_infinite number (regular.still still)
  by_cases zero : (p - r.origin.get axis).rank = 0
  · exact ⟨fun _ => .inl (inPlane zero), fun _ => .inl (inPlane zero)⟩
  · have value : r.timeTo axis p = _ := beside zero
    have above (atLeast : r.origin.get axis ≤ p) : (p - r.origin.get axis).negative = false :=
      Single.negative_sub_of_le finite regular.origin zero atLeast
    have below (atMost : p ≤ r.origin.get axis) : (p - r.origin.get axis).negative = true :=
      Single.negative_sub_of_ge finite regular.origin zero atMost
    rw [value, regular.sign]
    unfold Ahead
    cases negative : (r.direction.get axis).negative with
    | true =>
      simp only [if_true]
      exact ⟨fun ahead => .inr (by rw [below ahead]; rfl), fun ahead => .inr (by rw [above ahead]; rfl)⟩
    | false =>
      simp only [Bool.false_eq_true, if_false]
      exact ⟨fun ahead => .inr (by rw [above ahead]; rfl), fun ahead => .inr (by rw [below ahead]; rfl)⟩

theorem timeTo_negativeInfinity (regular : r.RegularOn axis) :
    r.timeTo axis .negativeInfinity =
      if (r.direction.get axis).negative then .infinity else .negativeInfinity := by
  rw [regular.signed.timeTo_infinite rfl]
  cases (r.direction.get axis).negative <;> rfl

/-! ### Times in a box -/

/-- A moving ray reaches the planes between two faces between the times of the faces. -/
theorem timeTo_between (regular : r.RegularOn axis) (moves : (r.direction.get axis).rank ≠ 0)
    (proper : b.ProperOn axis) (above : b.lo.get axis ≤ p) (below : p ≤ b.hi.get axis) :
    r.timeTo axis (r.entryFace axis b) ≤ r.timeTo axis p ∧
      r.timeTo axis p ≤ r.timeTo axis (r.exitFace axis b) := by
  obtain ⟨finiteEntry, finiteExit⟩ := isFinite_faces r proper
  have finite := Single.isFinite_of_between proper.finiteLo proper.finiteHi above below
  obtain ⟨entered, left⟩ := ahead_faces r above below
  exact ⟨regular.timeTo_le moves finiteEntry finite entered,
    regular.timeTo_le moves finite finiteExit left⟩

/-- A moving ray is in a slab only while it is between the faces of a box around it. -/
theorem between_faces_around (regular : r.RegularOn axis)
    (moves : (r.direction.get axis).rank ≠ 0) (properB : b.ProperOn axis) (properC : c.ProperOn axis)
    (lower : b.lo.get axis ≤ c.lo.get axis) (upper : c.hi.get axis ≤ b.hi.get axis)
    (slab : r.InSlab c time axis) :
    r.timeTo axis (r.entryFace axis b) ≤ time ∧ time ≤ r.timeTo axis (r.exitFace axis b) := by
  -- the entry face is met before either face of the slab, the exit face after both
  obtain ⟨enteredLo, leftLo⟩ := regular.timeTo_between moves properB lower
    (Single.le_trans properC.ordered upper)
  obtain ⟨enteredHi, leftHi⟩ := regular.timeTo_between moves properB
    (Single.le_trans lower properC.ordered) upper
  rw [InSlab, if_neg moves] at slab
  exact ⟨Single.le_trans (Single.le_min (fun _ => enteredLo) enteredHi) slab.1,
    Single.le_trans slab.2 (Single.max_le (fun _ => leftLo) leftHi)⟩

/-- A moving ray is in a slab from the time of its entry face to that of its exit face. -/
theorem inSlab_iff (regular : r.RegularOn axis) (moves : (r.direction.get axis).rank ≠ 0)
    (proper : b.ProperOn axis) :
    r.InSlab b time axis ↔
      r.timeTo axis (r.entryFace axis b) ≤ time ∧ time ≤ r.timeTo axis (r.exitFace axis b) := by
  constructor
  · exact regular.between_faces_around moves proper proper (Single.le_self proper.ordered.1)
      (Single.le_self proper.ordered.2.1)
  · intro between
    have numberLo := regular.isNaN_timeTo moves proper.finiteLo
    have numberHi := regular.isNaN_timeTo moves proper.finiteHi
    rw [InSlab, if_neg moves, Single.min_le_iff numberLo numberHi,
      Single.le_max_iff numberLo numberHi]
    unfold entryFace exitFace at between
    cases negative : (r.direction.get axis).negative with
    | true =>
      simp only [negative, if_true] at between
      exact ⟨.inr between.1, .inl between.2⟩
    | false =>
      simp only [negative, Bool.false_eq_true, if_false] at between
      exact ⟨.inl between.1, .inr between.2⟩

/-- A moving ray is in a box only while it is between the faces of a box around it. -/
theorem between_faces_of_covers (regular : r.RegularOn axis)
    (moves : (r.direction.get axis).rank ≠ 0) (covers : b.Covers c) (properB : b.ProperOn axis)
    (properC : c.ProperOn axis) (slab : r.InSlab c time axis) :
    r.timeTo axis (r.entryFace axis b) ≤ time ∧ time ≤ r.timeTo axis (r.exitFace axis b) := by
  obtain ⟨lower, upper⟩ := Box.covers_iff.mp covers axis
  exact regular.between_faces_around moves properB properC lower upper slab

/-- A ray in a box does not meet a plane behind the box before. -/
theorem time_le_timeTo (regular : r.RegularOn axis) (proper : b.ProperOn axis)
    (slab : r.InSlab b time axis) (number : time.isNaN = false) (finite : p.isFinite = true)
    (ahead : r.Ahead axis (r.exitFace axis b) p) :
    (r.timeTo axis p).isNaN = true ∨ time ≤ r.timeTo axis p := by
  by_cases still : (r.direction.get axis).rank = 0
  · rw [InSlab, if_pos still] at slab
    have inside := (ahead_faces r slab.1 slab.2).2
    rcases (regular.timeTo_still still finite).1 (ahead_trans inside ahead) with none | far
    · exact .inl none
    · rw [far]
      exact .inr (Single.le_infinity number)
  · have finiteExit := (isFinite_faces r proper).2
    have reaches := ((regular.inSlab_iff still proper).mp slab).2
    exact .inr (Single.le_trans reaches (regular.timeTo_le still finiteExit finite ahead))

/-- A ray in a box has met the planes in front of the box. -/
theorem timeTo_le_time (regular : r.RegularOn axis) (proper : b.ProperOn axis)
    (slab : r.InSlab b time axis) (number : time.isNaN = false) (finite : p.isFinite = true)
    (ahead : r.Ahead axis p (r.entryFace axis b)) :
    (r.timeTo axis p).isNaN = true ∨ r.timeTo axis p ≤ time := by
  by_cases still : (r.direction.get axis).rank = 0
  · rw [InSlab, if_pos still] at slab
    have inside := (ahead_faces r slab.1 slab.2).1
    rcases (regular.timeTo_still still finite).2 (ahead_trans ahead inside) with none | past
    · exact .inl none
    · rw [past]
      exact .inr (Single.negativeInfinity_le number)
  · have finiteEntry := (isFinite_faces r proper).1
    have reached := ((regular.inSlab_iff still proper).mp slab).1
    exact .inr (Single.le_trans (regular.timeTo_le still finite finiteEntry ahead) reached)

/-- Before a ray reaches a plane above the box it is in, or after it if it runs backwards. -/
theorem time_above (regular : r.RegularOn axis) (proper : b.ProperOn axis)
    (slab : r.InSlab b time axis) (number : time.isNaN = false) (finite : p.isFinite = true)
    (above : b.hi.get axis ≤ p) :
    ((r.direction.get axis).negative = false →
        (r.timeTo axis p).isNaN = true ∨ time ≤ r.timeTo axis p) ∧
      ((r.direction.get axis).negative = true →
        (r.timeTo axis p).isNaN = true ∨ r.timeTo axis p ≤ time) := by
  refine ⟨fun positive => ?_, fun negative => ?_⟩
  · have ahead : r.Ahead axis (r.exitFace axis b) p := by
      simpa [Ahead, exitFace, positive] using above
    exact regular.time_le_timeTo proper slab number finite ahead
  · have ahead : r.Ahead axis p (r.entryFace axis b) := by
      simpa [Ahead, entryFace, negative] using above
    exact regular.timeTo_le_time proper slab number finite ahead

theorem time_below (regular : r.RegularOn axis) (proper : b.ProperOn axis)
    (slab : r.InSlab b time axis) (number : time.isNaN = false) (finite : p.isFinite = true)
    (below : p ≤ b.lo.get axis) :
    ((r.direction.get axis).negative = false →
        (r.timeTo axis p).isNaN = true ∨ r.timeTo axis p ≤ time) ∧
      ((r.direction.get axis).negative = true →
        (r.timeTo axis p).isNaN = true ∨ time ≤ r.timeTo axis p) := by
  refine ⟨fun positive => ?_, fun negative => ?_⟩
  · have ahead : r.Ahead axis p (r.entryFace axis b) := by
      simpa [Ahead, entryFace, positive] using below
    exact regular.timeTo_le_time proper slab number finite ahead
  · have ahead : r.Ahead axis (r.exitFace axis b) p := by
      simpa [Ahead, exitFace, negative] using below
    exact regular.time_le_timeTo proper slab number finite ahead

end RegularOn

/-- A ray in a box is in every box around it. -/
theorem Crosses.of_covers (crosses : r.Crosses c time) (regular : ∀ axis, r.RegularOn axis)
    (covers : b.Covers c) (properB : b.Proper) (properC : c.Proper) : r.Crosses b time := by
  intro axis
  have slab := crosses axis
  by_cases still : (r.direction.get axis).rank = 0
  · have onAxis := Box.covers_iff.mp covers axis
    rw [InSlab, if_pos still] at slab ⊢
    exact ⟨Single.le_trans onAxis.1 slab.1, Single.le_trans slab.2 onAxis.2⟩
  · rw [(regular axis).inSlab_iff still (properB axis)]
    exact (regular axis).between_faces_of_covers still covers (properB axis) (properC axis) slab

/-! ### Rays that come to planes in finite times -/

/-- A finite ray that moves, with a finite reciprocal on each axis where its direction is not zero. -/
structure Proper (r : Ray) : Prop where
  finite : r.isFinite = true
  regular : ∀ axis, r.RegularOn axis
  moves : ∃ axis, ¬(r.direction.get axis).Near 0

theorem proper_ofDirection {origin direction : Vec} (finiteOrigin : origin.isFinite = true)
    (finiteDirection : direction.isFinite = true)
    (inverse : ∀ axis, (direction.get axis).rank = 0 ∨ (1 / direction.get axis).isFinite = true)
    (moves : ∃ axis, ¬(direction.get axis).Near 0) : (ofDirection origin direction).Proper where
  finite := by simp [isFinite, ofDirection, finiteOrigin, finiteDirection]
  regular axis := regularOn_ofDirection (Vec.isFinite_get finiteOrigin axis)
    (Vec.isFinite_get finiteDirection axis) (inverse axis)
  moves := moves

end Ray

end Sightline
