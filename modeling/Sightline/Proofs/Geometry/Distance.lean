import Sightline.Geometry.Vec
import Sightline.Proofs.Single.NoValue

/-!
# The distance of a point from itself

Points at finite places have the distance zero from themselves. At infinity there is no distance, and
no direction to go on in.
-/
namespace Sightline

namespace Single

variable {x y : Single}

private theorem zero_mul_zero (finite : x.isFinite = true) (zero : x.rank = 0) :
    (x * x).isFinite = true ∧ (x * x).rank = 0 := by
  have rank : (x * x).rank = 0 := by
    rw [rank_mul finite finite, signedUnits_eq, zero, unitsAt_zero, Int.mul_zero, roundedRank_zero]
  exact ⟨finite_of_zero rank, rank⟩

private theorem zero_add_zero (finiteX : x.isFinite = true) (finiteY : y.isFinite = true)
    (zeroX : x.rank = 0) (zeroY : y.rank = 0) : (x + y).isFinite = true ∧ (x + y).rank = 0 := by
  have rank : (x + y).rank = 0 := by
    rw [rank_add finiteX finiteY, signedUnits_eq, signedUnits_eq, zeroX, zeroY, unitsAt_zero,
      Int.add_zero, roundedRank_zero]
  exact ⟨finite_of_zero rank, rank⟩

private theorem sqrt_zero (finite : x.isFinite = true) (zero : x.rank = 0) : x.sqrt = x := by
  rw [sqrt, if_neg (by simp [isNaN_of_isFinite finite]), if_pos (rank_eq_zero_iff.mp zero)]

end Single

namespace Vec

variable {v w : Vec}

theorem length_of_isNaN (noNumber : ∃ axis, (v.get axis).isNaN = true) : v.length.isNaN = true := by
  apply Single.isNaN_sqrt
  obtain ⟨axis, noNumber⟩ := noNumber
  have square : (v.get axis * v.get axis).isNaN = true := Single.isNaN_mul_of (.inl noNumber)
  cases axis with
  | x => exact Single.isNaN_add_of (.inl (Single.isNaN_add_of (.inl square)))
  | y => exact Single.isNaN_add_of (.inl (Single.isNaN_add_of (.inr square)))
  | z => exact Single.isNaN_add_of (.inr square)

theorem scale_of_isNaN (noNumber : ∃ axis, (v.get axis).isNaN = true) (factor : Single) :
    (v.scale factor).isFinite = false := by
  obtain ⟨axis, noNumber⟩ := noNumber
  have product : (v.get axis * factor).isFinite = false :=
    Single.isFinite_of_isNaN (Single.isNaN_mul_of (.inl noNumber))
  rw [isFinite, scale]
  cases axis with
  | x => simp [show (v.x * factor).isFinite = false from product]
  | y => simp [show (v.y * factor).isFinite = false from product]
  | z => simp [show (v.z * factor).isFinite = false from product]

theorem length_of_zero (zero : ∀ axis, (v.get axis).isFinite = true ∧ (v.get axis).rank = 0) :
    v.length.isNaN = false ∧ v.length.rank = 0 := by
  have squareX := Single.zero_mul_zero (zero .x).1 (zero .x).2
  have squareY := Single.zero_mul_zero (zero .y).1 (zero .y).2
  have squareZ := Single.zero_mul_zero (zero .z).1 (zero .z).2
  have sum := Single.zero_add_zero squareX.1 squareY.1 squareX.2 squareY.2
  have dot := Single.zero_add_zero sum.1 squareZ.1 sum.2 squareZ.2
  have root : v.length = v.dot v := Single.sqrt_zero dot.1 dot.2
  rw [root]
  exact ⟨Single.isNaN_of_isFinite dot.1, dot.2⟩

theorem Same.symm (same : v.Same w) : w.Same v :=
  ⟨Single.Same.symm same.1, Single.Same.symm same.2.1, Single.Same.symm same.2.2⟩

/-- Two points that are the same are zero apart, or there is no direction from one to the other. -/
theorem sub_same (same : v.Same w) :
    ((v - w).length.isNaN = false ∧ (v - w).length.rank = 0) ∨
      ((v - w).length.isNaN = true ∧ ∀ factor, ((v - w).scale factor).isFinite = false) := by
  have components (axis : Axis) : ((v - w).get axis).isNaN = true ∨
      (((v - w).get axis).isFinite = true ∧ ((v - w).get axis).rank = 0) := by
    cases axis with
    | x => exact Single.sub_same same.1
    | y => exact Single.sub_same same.2.1
    | z => exact Single.sub_same same.2.2
  by_cases noNumber : ∃ axis, ((v - w).get axis).isNaN = true
  · exact .inr ⟨length_of_isNaN noNumber, scale_of_isNaN noNumber⟩
  · left
    apply length_of_zero
    intro axis
    exact (components axis).resolve_left fun none => noNumber ⟨axis, none⟩

end Vec

end Sightline
