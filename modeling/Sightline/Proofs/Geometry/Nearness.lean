import Sightline.Proofs.Geometry.Ray
import Sightline.Proofs.Single.NoValue

/-!
# Numbers near zero

A number that is not near zero is greater than the tolerance, so its reciprocal is finite. A ray whose
direction is not near zero on an axis comes to the planes across the axis in their order.
-/
namespace Sightline

namespace Single

variable {x : Single}

theorem near_zero (zero : x.rank = 0) : x.Near 0 := .inl (same_zero_iff.mpr zero)

theorem isFinite_abs (finite : x.isFinite = true) : x.abs.isFinite = true := by
  have bound := isFinite_iff.mp finite
  rw [isFinite_iff, rank_abs]
  omega

theorem abs_sub_zero (finite : x.isFinite = true) : (x - 0).abs.rank = x.abs.rank := by
  have bound := isFinite_iff.mp finite
  have units : (0 : Single).signedUnits = 0 := by decide +kernel
  have same : roundedRank (unitsAt x.rank) 1 = x.rank := roundedRank_unitsAt_one (by omega)
  rw [rank_abs, rank_abs, rank_sub finite (by decide +kernel), units, Int.sub_zero,
    signedUnits_eq, same]

theorem one_le_abs_add_one (finite : x.isFinite = true) :
    (1 : Single).signedUnits ≤ (x.abs + 1).signedUnits := by
  have zero : (0 : Single).rank = 0 := by decide +kernel
  have units : (0 : Single).signedUnits = 0 := by decide +kernel
  have one : (1 : Single).rank = roundedRank (1 : Single).signedUnits 1 := by decide +kernel
  have above : (0 : Single).signedUnits ≤ x.abs.signedUnits := by
    rw [signedUnits_le_iff, rank_abs, zero]
    omega
  rw [signedUnits_le_iff, rank_add (isFinite_abs finite) (by decide +kernel), one]
  exact roundedRank_mono 1 (by omega)

/-- Numbers that are near may differ by the tolerance, whatever their size. -/
theorem tolerance_le (finite : x.isFinite = true) :
    tolerance ≤ if (x.abs + 1).isInfinite then tolerance else tolerance * (x.abs + 1) := by
  have finiteTolerance : tolerance.isFinite = true := by decide +kernel
  have numberTolerance := isNaN_of_isFinite finiteTolerance
  -- the factor is at least one unless the sum is infinite, and then it is left out
  split
  next => exact le_self numberTolerance
  next notInfinite =>
    have numberAbs := isNaN_of_isFinite (isFinite_abs finite)
    have numberSum : (x.abs + 1).isNaN = false := by
      rw [add_eq numberAbs (by decide +kernel)]
      exact isNaN_addNumbers (isFinite_abs finite) (by decide +kernel)
    have finiteSum := (isFinite_or_isInfinite numberSum).resolve_right notInfinite
    have once : tolerance.rank =
        roundedRank (tolerance.signedUnits * (1 : Single).signedUnits) unit := by decide +kernel
    refine ⟨numberTolerance, isNaN_mul finiteTolerance finiteSum, ?_⟩
    rw [rank_mul finiteTolerance finiteSum, once]
    have scaled := Int.mul_le_mul_of_nonneg_left (one_le_abs_add_one finite)
      (show 0 ≤ tolerance.signedUnits by decide +kernel)
    exact roundedRank_mono unit scaled

theorem tolerance_lt_abs (finite : x.isFinite = true) (far : ¬x.Near 0) : tolerance < x.abs := by
  have number : (x - 0).abs.isNaN = false :=
    (isNaN_abs _).trans (isNaN_sub finite (by decide +kernel))
  have least := tolerance_le finite
  have beyond := lt_of_not_le number least.2.1 fun within => far (.inr within)
  have bounded := lt_of_le_of_lt least beyond
  exact ⟨bounded.1, isNaN_of_isFinite (isFinite_abs finite), abs_sub_zero finite ▸ bounded.2.2⟩

theorem isFinite_one_div_of_not_near (finite : x.isFinite = true) (far : ¬x.Near 0) :
    ((1 : Single) / x).isFinite = true := by
  have ranks := (tolerance_lt_abs finite far).2.2
  have positive : tolerance.rank = tolerance.magnitude := by decide +kernel
  rw [rank_abs, natAbs_rank, positive] at ranks
  -- a reciprocal is largest at the tolerance, and even there far from an overflow
  have units : tolerance.units ≤ x.units := gridUnits_le_iff.mpr (by omega)
  have enough : (1 : Single).units * unit ≤ gridUnits greatestRank * tolerance.units := by
    decide +kernel
  exact isFinite_one_div finite (Nat.le_trans enough (Nat.mul_le_mul_left _ units))

end Single

theorem Ray.regularOn_of_not_near {origin direction : Vec} {axis : Axis}
    (finite : (ofDirection origin direction).isFinite = true) (far : ¬(direction.get axis).Near 0) :
    (ofDirection origin direction).RegularOn axis := by
  simp only [Ray.isFinite, ofDirection, Bool.and_eq_true] at finite
  have finiteDirection := Vec.isFinite_get finite.2 axis
  exact regularOn_ofDirection (Vec.isFinite_get finite.1 axis) finiteDirection
    (.inr (Single.isFinite_one_div_of_not_near finiteDirection far))

end Sightline
