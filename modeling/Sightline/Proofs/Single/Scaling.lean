import Sightline.Proofs.Single.Arithmetic

/-!
# Products with a fixed word

A product with a fixed finite factor other than zero is a number and keeps the order of the words that
are scaled, or turns it around if the factor is negative. With an infinite factor only the sign is
left, and nothing of a word that is zero. Reciprocals of finite words are such factors.
-/
namespace Sightline.Single

variable {x y z : Single}

theorem rank_pos_iff (nonzero : z.rank ≠ 0) : 0 < z.rank ↔ z.negative = false := by
  unfold rank at nonzero ⊢
  cases z.negative with
  | true =>
    simp only [if_true] at nonzero ⊢
    simp only [Bool.true_eq_false, iff_false]
    omega
  | false =>
    simp only [Bool.false_eq_true, if_false] at nonzero ⊢
    simp only [iff_true]
    omega

theorem rank_neg_iff (nonzero : z.rank ≠ 0) : z.rank < 0 ↔ z.negative = true := by
  have positive := rank_pos_iff nonzero
  rw [← Bool.not_eq_false, ← positive]
  omega

theorem negative_sub_of_le (finiteX : x.isFinite = true) (finiteY : y.isFinite = true)
    (nonzero : (x - y).rank ≠ 0) (atLeast : y ≤ x) : (x - y).negative = false := by
  have units := signedUnits_le_iff.mpr atLeast.2.2
  have rounded := roundedRank_mono 1 (Int.sub_nonneg_of_le units)
  rw [roundedRank_zero, ← rank_sub finiteX finiteY] at rounded
  exact (rank_pos_iff nonzero).mp (by omega)

theorem negative_sub_of_ge (finiteX : x.isFinite = true) (finiteY : y.isFinite = true)
    (nonzero : (x - y).rank ≠ 0) (atMost : x ≤ y) : (x - y).negative = true := by
  have units := signedUnits_le_iff.mpr atMost.2.2
  have rounded := roundedRank_mono 1 (Int.sub_nonpos_of_le units)
  rw [roundedRank_zero, ← rank_sub finiteX finiteY] at rounded
  exact (rank_neg_iff nonzero).mp (by omega)

theorem bits_toNat (x : Single) :
    x.bits.toNat = x.magnitude + if x.negative then 0x80000000 else 0 := by
  have bound := x.bits.toNat_lt
  have sign := negative_iff x
  unfold magnitude
  cases negative : x.negative with
  | true =>
    have large := sign.mp negative
    simp only [if_true]
    omega
  | false =>
    have small : ¬0x80000000 ≤ x.bits.toNat := by
      rw [← sign, negative]
      exact Bool.false_ne_true
    simp only [Bool.false_eq_true, if_false]
    omega

/-- Only zero has two words of the same rank. -/
theorem eq_of_rank (nonzero : x.rank ≠ 0) (same : x.rank = y.rank) : x = y := by
  have magnitudes : x.magnitude = y.magnitude := by
    rw [← natAbs_rank, ← natAbs_rank, same]
  have signs : x.negative = y.negative := by
    have positive := rank_pos_iff nonzero
    rw [same, rank_pos_iff (same ▸ nonzero)] at positive
    rw [Bool.eq_iff_iff, ← Bool.not_eq_false, ← Bool.not_eq_false, positive]
  have bits : x.bits.toNat = y.bits.toNat := by
    rw [bits_toNat, bits_toNat, magnitudes, signs]
  cases x
  cases y
  exact congrArg Single.mk (UInt32.toNat_inj.mp bits)

theorem eq_infinity (number : x.isNaN = false) (unbounded : ¬x < infinity) : x = infinity := by
  have above := le_of_not_lt number isNaN_infinity unbounded
  have rank := above.2.2
  have bound := isNaN_eq_false_iff.mp number
  rw [rank_infinity] at rank
  have same : x.rank = infinity.rank := by
    rw [rank_infinity]
    omega
  exact eq_of_rank (by rw [same]; decide) same

theorem eq_negativeInfinity (number : x.isNaN = false) (unbounded : ¬negativeInfinity < x) :
    x = negativeInfinity := by
  have below := le_of_not_lt isNaN_negativeInfinity number unbounded
  have rank := below.2.2
  have bound := isNaN_eq_false_iff.mp number
  rw [rank_negativeInfinity] at rank
  have same : x.rank = negativeInfinity.rank := by
    rw [rank_negativeInfinity]
    omega
  exact eq_of_rank (by rw [same]; decide) same

/-! ### Turning the sign of a factor -/

theorem units_neg (z : Single) : (-z).units = z.units := by
  unfold units
  rw [magnitude_neg]

private theorem rank_ofRank_not (negative : Bool) (m : Nat) :
    (ofRank (!negative) m).rank = -(ofRank negative m).rank := by
  rw [rank_ofRank, rank_ofRank]
  cases negative <;> simp

theorem mul_neg (numberX : x.isNaN = false) (numberZ : z.isNaN = false)
    (number : (x * z).isNaN = false) :
    (x * -z).isNaN = false ∧ (x * -z).rank = -(x * z).rank := by
  -- which branch a product takes does not depend on signs
  have turned : (x.negative != !z.negative) = !(x.negative != z.negative) := by
    cases x.negative <;> cases z.negative <;> rfl
  have numberNeg : (-z).isNaN = false := by rw [isNaN_neg, numberZ]
  rw [mul_eq numberX numberZ] at number ⊢
  rw [mul_eq numberX numberNeg]
  unfold mulNumbers at number ⊢
  simp only [isInfinite_neg, magnitude_neg, negative_neg, units_neg, turned] at number ⊢
  split at number
  next infinite =>
    rw [if_pos infinite, if_pos infinite]
    split at number
    · exact absurd number (by decide)
    next nonzero =>
      rw [if_neg nonzero, if_neg nonzero]
      exact ⟨isNaN_ofRank _ _, rank_ofRank_not _ _⟩
  next finite =>
    rw [if_neg finite, if_neg finite]
    exact ⟨isNaN_ofUnits _ _ _, rank_ofRank_not _ _⟩

/-! ### Order -/

/-- The product of an infinity with a positive word. -/
theorem infinity_mul (numberZ : z.isNaN = false) (positive : 0 < z.rank) :
    infinity * z = infinity := by
  have nonzero : z.rank ≠ 0 := by omega
  rw [infinite_mul rfl numberZ nonzero, (rank_pos_iff nonzero).mp positive]
  rfl

theorem negativeInfinity_mul (numberZ : z.isNaN = false) (positive : 0 < z.rank) :
    negativeInfinity * z = negativeInfinity := by
  have nonzero : z.rank ≠ 0 := by omega
  rw [infinite_mul rfl numberZ nonzero, (rank_pos_iff nonzero).mp positive]
  rfl

theorem isNaN_mul_number (numberX : x.isNaN = false) (finiteZ : z.isFinite = true)
    (nonzero : z.rank ≠ 0) : (x * z).isNaN = false := by
  rcases isFinite_or_isInfinite numberX with finite | infinite
  · exact isNaN_mul finite finiteZ
  · rw [infinite_mul infinite (isNaN_of_isFinite finiteZ) nonzero]
    exact isNaN_ofRank _ _

/-- Products with a positive word keep the order. -/
theorem mul_le_mul (finiteZ : z.isFinite = true) (positive : 0 < z.rank) (atMost : x ≤ y) :
    x * z ≤ y * z := by
  have nonzero : z.rank ≠ 0 := by omega
  have numberZ := isNaN_of_isFinite finiteZ
  obtain ⟨numberX, numberY, ranks⟩ := atMost
  have numberXZ := isNaN_mul_number numberX finiteZ nonzero
  have numberYZ := isNaN_mul_number numberY finiteZ nonzero
  by_cases low : x = negativeInfinity
  · rw [low, negativeInfinity_mul numberZ positive]
    exact negativeInfinity_le numberYZ
  by_cases high : y = infinity
  · rw [high, infinity_mul numberZ positive]
    exact le_infinity numberXZ
  -- what is left between the two infinities is finite
  have aboveLow : x.rank ≠ -(infinityRank : Int) := fun same =>
    low (eq_of_rank (by rw [same]; decide) same)
  have belowHigh : y.rank ≠ (infinityRank : Int) := fun same =>
    high (eq_of_rank (by rw [same]; decide) same)
  have boundX := isNaN_eq_false_iff.mp numberX
  have boundY := isNaN_eq_false_iff.mp numberY
  have finiteX : x.isFinite = true := by
    rw [isFinite_iff]
    omega
  have finiteY : y.isFinite = true := by
    rw [isFinite_iff]
    omega
  refine ⟨numberXZ, numberYZ, ?_⟩
  rw [rank_mul finiteX finiteZ, rank_mul finiteY finiteZ]
  apply roundedRank_mono
  have units : 0 ≤ z.signedUnits := by
    rw [signedUnits_eq, ← unitsAt_zero, unitsAt_le_iff]
    omega
  exact Int.mul_le_mul_of_nonneg_right (signedUnits_le_iff.mpr ranks) units

/-- Products with a negative word turn the order around. -/
theorem mul_le_mul_of_neg (finiteZ : z.isFinite = true) (negative : z.rank < 0) (atMost : x ≤ y) :
    y * z ≤ x * z := by
  have nonzero : z.rank ≠ 0 := by omega
  have numberZ := isNaN_of_isFinite finiteZ
  have numberXZ := isNaN_mul_number atMost.1 finiteZ nonzero
  have numberYZ := isNaN_mul_number atMost.2.1 finiteZ nonzero
  have turned := mul_le_mul (isFinite_neg finiteZ) (by rw [rank_neg]; omega) atMost
  have ranks := turned.2.2
  rw [(mul_neg atMost.1 numberZ numberXZ).2, (mul_neg atMost.2.1 numberZ numberYZ).2] at ranks
  exact ⟨numberYZ, numberXZ, by omega⟩

/-- With an infinite factor nothing is left of zero, and only the sign of any other number. -/
theorem mul_infinite (numberX : x.isNaN = false) (infiniteZ : z.isInfinite = true) :
    (x.rank = 0 → (x * z).isNaN = true) ∧
      (x.rank ≠ 0 → x * z = ofRank (x.negative != z.negative) infinityRank) := by
  have numberZ : z.isNaN = false := by
    rw [isInfinite_iff] at infiniteZ
    rw [isNaN_eq_false_iff]
    omega
  have magnitudeZ : z.magnitude ≠ 0 := by
    rw [isInfinite, decide_eq_true_eq] at infiniteZ
    rw [infiniteZ]
    decide
  rw [mul_eq numberX numberZ]
  unfold mulNumbers
  rw [infiniteZ, rank_eq_zero_iff, Ne, rank_eq_zero_iff]
  simp only [Bool.or_true, if_true]
  constructor
  · intro zero
    simp only [zero, decide_true, Bool.true_or, if_true]
    decide
  · intro nonzero
    simp [nonzero, magnitudeZ]

/-! ### Reciprocals -/

theorem units_pos (nonzero : z.rank ≠ 0) : 0 < z.units := by
  have magnitude : z.magnitude ≠ 0 := fun zero => nonzero (rank_eq_zero_iff.mpr zero)
  have above : gridUnits 0 < gridUnits z.magnitude := gridUnits_lt_iff.mpr (by omega)
  exact above

theorem one_div_eq (finite : z.isFinite = true) : (1 : Single) / z =
    if z.rank = 0 then ofRank z.negative infinityRank
    else ofUnits z.negative ((1 : Single).units * unit) z.units := by
  have number := isNaN_of_isFinite finite
  have finiteOne : (1 : Single).isInfinite = false := by decide +kernel
  have numberOne : (1 : Single).isNaN = false := by decide +kernel
  have positiveOne : (1 : Single).negative = false := by decide +kernel
  have magnitudeOne : (1 : Single).magnitude ≠ 0 := by decide +kernel
  change binary divNumbers 1 z = _
  unfold binary divNumbers
  rw [number, numberOne, finiteOne, isInfinite_of_isFinite finite, positiveOne, Bool.false_bne]
  simp only [Bool.false_eq_true, if_false, magnitudeOne, rank_eq_zero_iff]

/-- A reciprocal is a number other than zero with the sign of what it was taken of. -/
theorem one_div (finite : z.isFinite = true) : ((1 : Single) / z).isNaN = false ∧
    ((1 : Single) / z).rank ≠ 0 ∧ ((1 : Single) / z).negative = z.negative := by
  rw [one_div_eq finite]
  split
  · refine ⟨isNaN_ofRank _ _, ?_, negative_ofRank _ _⟩
    rw [rank_ofRank]
    cases z.negative <;> decide
  next nonzero =>
    refine ⟨isNaN_ofUnits _ _ _, ?_, negative_ofRank _ _⟩
    -- the reciprocal of the greatest finite word is still more than one unit
    have large : z.units ≤ (1 : Single).units * unit := by
      have greatest : gridUnits infinityRank ≤ (1 : Single).units * unit := by decide +kernel
      have bound := isFinite_iff.mp finite
      rw [natAbs_rank] at bound
      have below : z.units < gridUnits infinityRank := gridUnits_lt_iff.mpr bound
      omega
    have positive := nearestRank_pos (units_pos nonzero) large
    have limit : 0 < infinityRank := by decide
    rw [ofUnits, rank_ofRank]
    cases z.negative
    · simp only [Bool.false_eq_true, if_false]
      omega
    · simp only [if_true]
      omega

/-- The reciprocal of a word is finite if the greatest finite word times it is one or more. -/
theorem isFinite_one_div (finite : z.isFinite = true)
    (large : (1 : Single).units * unit ≤ gridUnits greatestRank * z.units) :
    ((1 : Single) / z).isFinite = true := by
  have positive : 0 < z.units := by
    by_contra zero
    have none : z.units = 0 := by omega
    have one : 0 < (1 : Single).units * unit := by decide +kernel
    rw [none] at large
    omega
  have nonzero : z.rank ≠ 0 := by
    intro zero
    have none : z.units = 0 := by rw [units, rank_eq_zero_iff.mp zero, gridUnits_zero]
    omega
  have rounded := nearestRank_mono z.units large
  rw [nearestRank_gridUnits greatestRank positive] at rounded
  have limit : greatestRank < infinityRank := by decide
  rw [one_div_eq finite, if_neg nonzero, isFinite, ofUnits, magnitude_ofRank, decide_eq_true_eq]
  omega

theorem one_div_zero (finite : z.isFinite = true) (zero : z.rank = 0) :
    ((1 : Single) / z).isInfinite = true := by
  rw [one_div_eq finite, if_pos zero, isInfinite, magnitude_ofRank]
  decide

end Sightline.Single
