import Sightline.Proofs.Single.Halves
import Sightline.Proofs.Single.Scaling

/-!
# Whole numbers

A whole number of at most 24 bits is a word. So sums, differences and middles of such numbers are not
rounded as long as they are whole numbers of this kind themselves.
-/
namespace Sightline.Single

variable {m n : Nat}

/-- Units can be doubled any number of times. -/
theorem exists_gridUnits_shift (rank steps : Nat) :
    ∃ shifted, gridUnits shifted = gridUnits rank * 2 ^ steps := by
  induction steps with
  | zero => exact ⟨rank, (Nat.mul_one _).symm⟩
  | succ steps ih =>
    obtain ⟨shifted, units⟩ := ih
    obtain ⟨double, twice⟩ := exists_gridUnits_double shifted
    refine ⟨double, ?_⟩
    rw [twice, units, Nat.pow_succ]
    ring

/-- Below `2 ^ 24` a rank is its own number of units. -/
theorem gridUnits_self (small : n < 2 ^ 24) : gridUnits n = n := by
  by_cases low : n < 2 ^ 23
  · exact gridUnits_of_lt low
  · have exponent : n / 2 ^ 23 - 1 = 0 := by omega
    rw [gridUnits_of_le (by omega), exponent]
    omega

theorem exists_rank_whole (small : n < 2 ^ 24) :
    ∃ rank : Nat, rank < infinityRank ∧ unitsAt rank = n * unit := by
  obtain ⟨rank, units⟩ := exists_gridUnits_shift n 149
  rw [gridUnits_self small] at units
  have one : unit = 2 ^ 149 := by decide
  have greatest : 2 ^ 24 * 2 ^ 149 < gridUnits infinityRank := by decide +kernel
  have atMost : n * 2 ^ 149 ≤ 2 ^ 24 * 2 ^ 149 := Nat.mul_le_mul_right _ (Nat.le_of_lt small)
  refine ⟨rank, gridUnits_lt_iff.mp ?_, ?_⟩
  · omega
  · rw [unitsAt_natCast, units, one, Int.natCast_mul]

theorem isNaN_ofNat (n : Nat) : (ofNat n).isNaN = false := isNaN_ofUnits _ _ _

/-- A whole number is rounded to a rank that has just its units. -/
theorem roundedRank_whole (small : n < 2 ^ 24) {den : Nat} (positive : 0 < den) :
    roundedRank (n * unit * den) den = (ofNat n).rank := by
  obtain ⟨rank, finite, value⟩ := exists_rank_whole small
  have rounded {den : Nat} (positive : 0 < den) : roundedRank (unitsAt rank * den) den = rank :=
    roundedRank_unitsAt positive (by omega)
  have whole : (ofNat n).rank = rank := by
    have exact := rounded Nat.one_pos
    rw [ofNat, rank_ofUnits, if_neg Bool.false_ne_true, Int.natCast_mul, ← value]
    simpa using exact
  rw [← value, rounded positive, whole]

theorem signedUnits_ofNat (small : n < 2 ^ 24) : (ofNat n).signedUnits = n * unit := by
  obtain ⟨rank, finite, value⟩ := exists_rank_whole small
  have exact := roundedRank_whole small Nat.one_pos
  rw [← value, roundedRank_unitsAt Nat.one_pos (by omega)] at exact
  rw [signedUnits_eq, ← exact, value]

theorem rank_ofNat_lt_iff (smallM : m < 2 ^ 24) (smallN : n < 2 ^ 24) :
    (ofNat m).rank < (ofNat n).rank ↔ m < n := by
  have positive : 0 < unit := by decide
  rw [← unitsAt_lt_iff, ← signedUnits_eq, ← signedUnits_eq, signedUnits_ofNat smallM,
    signedUnits_ofNat smallN, Int.mul_lt_mul_right (Int.natCast_pos.mpr positive), Int.ofNat_lt]

theorem rank_ofNat_pos (positive : 0 < n) (small : n < 2 ^ 24) : 0 < (ofNat n).rank := by
  have zero : (ofNat 0).rank = 0 := by decide +kernel
  rw [← zero]
  exact (rank_ofNat_lt_iff (by decide) small).mpr positive

theorem ofNat_le_iff (smallM : m < 2 ^ 24) (smallN : n < 2 ^ 24) : ofNat m ≤ ofNat n ↔ m ≤ n := by
  rw [le_iff, isNaN_ofNat, isNaN_ofNat, ← Int.not_lt, rank_ofNat_lt_iff smallN smallM, Nat.not_lt]
  simp

theorem ofNat_lt_iff (smallM : m < 2 ^ 24) (smallN : n < 2 ^ 24) : ofNat m < ofNat n ↔ m < n := by
  rw [lt_iff, isNaN_ofNat, isNaN_ofNat, rank_ofNat_lt_iff smallM smallN]
  simp

theorem min_ofNat (smallM : m < 2 ^ 24) (smallN : n < 2 ^ 24) :
    min (ofNat m) (ofNat n) = ofNat (min m n) := by
  rw [min_eq, isNaN_ofNat, if_neg Bool.false_ne_true]
  simp only [ofNat_lt_iff smallN smallM]
  split
  next less => rw [Nat.min_eq_right less.le]
  next notLess => rw [Nat.min_eq_left (Nat.le_of_not_lt notLess)]

theorem max_ofNat (smallM : m < 2 ^ 24) (smallN : n < 2 ^ 24) :
    max (ofNat m) (ofNat n) = ofNat (max m n) := by
  rw [max_eq, isNaN_ofNat, if_neg Bool.false_ne_true]
  simp only [ofNat_lt_iff smallM smallN]
  split
  next less => rw [Nat.max_eq_right less.le]
  next notLess => rw [Nat.max_eq_left (Nat.le_of_not_lt notLess)]

theorem isFinite_ofNat (small : n < 2 ^ 24) : (ofNat n).isFinite = true := by
  have moderate : (ofNat (2 ^ 24 - 1)).isFinite = true := by decide +kernel
  have zero : (ofNat 0).isFinite = true := by decide +kernel
  exact isFinite_of_between zero moderate ((ofNat_le_iff (by decide) small).mpr (Nat.zero_le n))
    ((ofNat_le_iff small (by decide)).mpr (by omega))

theorem rank_ofNat_add (small : m + n < 2 ^ 24) :
    (ofNat m + ofNat n).rank = (ofNat (m + n)).rank := by
  have smallM : m < 2 ^ 24 := by omega
  have smallN : n < 2 ^ 24 := by omega
  rw [rank_add (isFinite_ofNat smallM) (isFinite_ofNat smallN), signedUnits_ofNat smallM,
    signedUnits_ofNat smallN, ← roundedRank_whole small Nat.one_pos]
  congr 1
  push_cast
  ring

theorem rank_ofNat_sub (ordered : m ≤ n) (small : n < 2 ^ 24) :
    (ofNat n - ofNat m).rank = (ofNat (n - m)).rank := by
  have smallM : m < 2 ^ 24 := by omega
  rw [rank_sub (isFinite_ofNat small) (isFinite_ofNat smallM), signedUnits_ofNat small,
    signedUnits_ofNat smallM, ← roundedRank_whole (by omega : n - m < 2 ^ 24) Nat.one_pos]
  congr 1
  push_cast [ordered]
  ring

/-- The middle of two whole numbers with an even sum. -/
theorem rank_middle_ofNat {middle : Nat} (sum : m + n = 2 * middle) (small : m + n < 2 ^ 24) :
    (0.5 * (ofNat m + ofNat n)).rank = (ofNat middle).rank := by
  have units : (ofNat m + ofNat n).signedUnits = (m + n : Nat) * unit := by
    rw [signedUnits_eq, rank_ofNat_add small, ← signedUnits_eq, signedUnits_ofNat small]
  have finite : (ofNat m + ofNat n).isFinite = true := by
    rw [isFinite_iff, rank_ofNat_add small, ← isFinite_iff]
    exact isFinite_ofNat small
  have value : (0.5 : Single).signedUnits * ((m + n : Nat) * unit) = middle * unit * unit := by
    rw [sum, ← half_units]
    push_cast
    ring
  rw [rank_mul half_isFinite finite, units, value,
    roundedRank_whole (by omega : middle < 2 ^ 24) (by decide)]

end Sightline.Single
