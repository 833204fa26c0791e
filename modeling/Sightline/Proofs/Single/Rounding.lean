import Sightline.Single.Rounding
import Sightline.Proofs.Single.Order
import Mathlib.Tactic.Ring
import Mathlib.Tactic.Linarith
import Mathlib.Data.Int.Order.Basic
import Mathlib.Algebra.Order.Ring.Int

/-!
# Rounding keeps the order

Rounding to single precision is monotone and leaves alone what a word can hold. Everything that is
known about the order of computed words follows from these two facts.
-/
namespace Sightline.Single

variable {x y : Single}

/-! ### Quotients rounded to whole numbers -/

/-- The whole number nearest to a quotient, of two equally near ones the even one. -/
def roundQuotient (num spacing : Nat) : Nat :=
  num / spacing +
    if spacing < 2 * (num % spacing) ∨ (2 * (num % spacing) = spacing ∧ num / spacing % 2 = 1)
    then 1 else 0

/-- The power of two that is the spacing of words around a quotient of units. -/
def spacingStep (num den : Nat) : Nat := (num / den).log2 - 23

theorem nearestRank_eq (num den : Nat) :
    nearestRank num den =
      spacingStep num den * 2 ^ 23 + roundQuotient num (den * 2 ^ spacingStep num den) := by
  have fraction : 2 ^ 23 = 0x800000 := rfl
  simp only [nearestRank, roundQuotient, spacingStep, Nat.shiftLeft_eq, Nat.add_assoc, fraction]
  rfl

theorem div_le_roundQuotient (num spacing : Nat) : num / spacing ≤ roundQuotient num spacing :=
  Nat.le_add_right _ _

theorem roundQuotient_le (num spacing : Nat) : roundQuotient num spacing ≤ num / spacing + 1 := by
  unfold roundQuotient
  split <;> omega

theorem roundQuotient_mono {num other : Nat} (spacing : Nat) (atMost : num ≤ other) :
    roundQuotient num spacing ≤ roundQuotient other spacing := by
  have quotients : num / spacing ≤ other / spacing := Nat.div_le_div_right atMost
  rcases Nat.lt_or_eq_of_le quotients with less | same
  · exact Nat.le_trans (roundQuotient_le num spacing)
      (Nat.le_trans less (div_le_roundQuotient other spacing))
  · -- with the same whole part the rests decide, and ties are broken alike
    have rests : num % spacing ≤ other % spacing := by
      have left := Nat.div_add_mod num spacing
      have right := Nat.div_add_mod other spacing
      rw [← same] at right
      omega
    unfold roundQuotient
    rw [← same]
    split <;> split <;> omega

theorem roundQuotient_mul (n : Nat) {spacing : Nat} (positive : 0 < spacing) :
    roundQuotient (n * spacing) spacing = n := by
  unfold roundQuotient
  rw [Nat.mul_div_cancel n positive, Nat.mul_mod_left, if_neg (by omega), Nat.add_zero]

/-! ### Ranks rounded to -/

theorem spacingStep_mono {num other : Nat} (den : Nat) (atMost : num ≤ other) :
    spacingStep num den ≤ spacingStep other den := by
  have quotients : num / den ≤ other / den := Nat.div_le_div_right atMost
  unfold spacingStep
  by_cases zero : num / den = 0
  · simp [zero]
  · have still : other / den ≠ 0 :=
      Nat.ne_of_gt (Nat.lt_of_lt_of_le (Nat.pos_of_ne_zero zero) quotients)
    have logs : (num / den).log2 ≤ (other / den).log2 :=
      (Nat.le_log2 still).mpr (Nat.le_trans (Nat.log2_self_le zero) quotients)
    omega

/-- In units of the spacing around it a quotient has at most 24 bits. -/
private theorem quotient_lt (num den : Nat) : num / (den * 2 ^ spacingStep num den) < 2 ^ 24 := by
  rw [← Nat.div_div_eq_div_mul, Nat.div_lt_iff_lt_mul (Nat.two_pow_pos _), ← Nat.pow_add]
  refine Nat.lt_of_lt_of_le Nat.lt_log2_self (Nat.pow_le_pow_right (by decide) ?_)
  unfold spacingStep
  omega

/-- Where words are more than one unit apart, the quotient has all 24 bits. -/
private theorem le_quotient (num den : Nat) (coarse : 0 < spacingStep num den) :
    2 ^ 23 ≤ num / (den * 2 ^ spacingStep num den) := by
  rw [← Nat.div_div_eq_div_mul, Nat.le_div_iff_mul_le (Nat.two_pow_pos _), ← Nat.pow_add]
  have exponent : 23 + spacingStep num den = (num / den).log2 := by
    unfold spacingStep at coarse ⊢
    omega
  rw [exponent]
  apply Nat.log2_self_le
  intro zero
  simp [spacingStep, zero] at coarse

theorem nearestRank_mono {num other : Nat} (den : Nat) (atMost : num ≤ other) :
    nearestRank num den ≤ nearestRank other den := by
  rw [nearestRank_eq, nearestRank_eq]
  have steps := spacingStep_mono den atMost
  -- one step more is worth 2 ^ 23 ranks, and no quotient makes up for that
  rcases Nat.lt_or_eq_of_le steps with less | same
  · have above := roundQuotient_le num (den * 2 ^ spacingStep num den)
    have below := div_le_roundQuotient other (den * 2 ^ spacingStep other den)
    have small := quotient_lt num den
    have large := le_quotient other den (by omega)
    omega
  · rw [same]
    exact Nat.add_le_add_left (roundQuotient_mono _ atMost) _

@[simp] theorem nearestRank_zero (den : Nat) : nearestRank 0 den = 0 := by
  simp [nearestRank, Nat.log2_zero]

theorem gridUnits_of_lt {rank : Nat} (small : rank < 2 ^ 23) : gridUnits rank = rank := by
  exact if_pos small

theorem gridUnits_of_le {rank : Nat} (large : 2 ^ 23 ≤ rank) :
    gridUnits rank = (2 ^ 23 + rank % 2 ^ 23) * 2 ^ (rank / 2 ^ 23 - 1) := by
  have fraction : 2 ^ 23 = 0x800000 := rfl
  rw [gridUnits, if_neg (by omega), Nat.shiftLeft_eq, fraction]

/-- The units of a rank round to that rank. -/
theorem nearestRank_gridUnits (rank : Nat) {den : Nat} (positive : 0 < den) :
    nearestRank (gridUnits rank * den) den = rank := by
  rw [nearestRank_eq]
  have quotient : gridUnits rank * den / den = gridUnits rank := Nat.mul_div_cancel _ positive
  by_cases small : rank < 2 ^ 23
  · -- a small rank is its own number of units
    have step : spacingStep (gridUnits rank * den) den = 0 := by
      rw [spacingStep, quotient, gridUnits_of_lt small]
      by_cases zero : rank = 0
      · simp [zero]
      · have := (Nat.log2_lt zero).mpr small
        omega
    rw [step, gridUnits_of_lt small, Nat.pow_zero, Nat.mul_one, roundQuotient_mul rank positive]
    omega
  · -- above, the low 23 bits are the fraction, the others count the doublings
    have large : 2 ^ 23 ≤ rank := by omega
    have fraction : rank % 2 ^ 23 < 2 ^ 23 := Nat.mod_lt _ (by decide)
    have logarithm : (gridUnits rank).log2 = 23 + (rank / 2 ^ 23 - 1) := by
      rw [gridUnits_of_le large]
      have scale := Nat.two_pow_pos (rank / 2 ^ 23 - 1)
      apply (Nat.log2_eq_iff (by positivity)).mpr
      constructor
      · rw [Nat.pow_add]
        exact Nat.mul_le_mul_right _ (by omega)
      · rw [show 23 + (rank / 2 ^ 23 - 1) + 1 = 24 + (rank / 2 ^ 23 - 1) by omega, Nat.pow_add]
        exact Nat.mul_lt_mul_of_pos_right (by omega) scale
    have step : spacingStep (gridUnits rank * den) den = rank / 2 ^ 23 - 1 := by
      rw [spacingStep, quotient, logarithm]
      omega
    have units : gridUnits rank * den =
        (2 ^ 23 + rank % 2 ^ 23) * (den * 2 ^ (rank / 2 ^ 23 - 1)) := by
      rw [gridUnits_of_le large]
      ring
    rw [step, units, roundQuotient_mul _ (Nat.mul_pos positive (Nat.two_pow_pos _))]
    have whole := Nat.div_add_mod rank (2 ^ 23)
    have exponent : 1 ≤ rank / 2 ^ 23 := (Nat.one_le_div_iff (by decide)).mpr large
    omega

theorem gridUnits_le_iff {rank other : Nat} : gridUnits rank ≤ gridUnits other ↔ rank ≤ other := by
  have rounded (a b : Nat) (atMost : gridUnits a ≤ gridUnits b) : a ≤ b := by
    have := nearestRank_mono 1 (Nat.mul_le_mul_right 1 atMost)
    rwa [nearestRank_gridUnits a Nat.one_pos, nearestRank_gridUnits b Nat.one_pos] at this
  constructor
  · exact rounded rank other
  · intro atMost
    -- ranks with the same units are the same, since both round back from them
    by_contra greater
    have same : other = rank := Nat.le_antisymm (rounded other rank (by omega)) atMost
    exact greater (same ▸ Nat.le_refl _)

theorem gridUnits_lt_iff {rank other : Nat} : gridUnits rank < gridUnits other ↔ rank < other := by
  rw [← Nat.not_le, ← Nat.not_le, gridUnits_le_iff]

@[simp] theorem gridUnits_zero : gridUnits 0 = 0 := rfl

/-- Twice the units of a rank are the units of a rank. -/
theorem exists_gridUnits_double (rank : Nat) : ∃ double, gridUnits double = 2 * gridUnits rank := by
  by_cases small : rank < 2 ^ 23
  · refine ⟨2 * rank, ?_⟩
    rw [gridUnits_of_lt small]
    by_cases still : 2 * rank < 2 ^ 23
    · exact gridUnits_of_lt still
    · have exponent : 2 * rank / 2 ^ 23 - 1 = 0 := by omega
      rw [gridUnits_of_le (by omega), exponent]
      omega
  · -- one doubling more, with the same fraction
    refine ⟨rank + 2 ^ 23, ?_⟩
    have fraction : (rank + 2 ^ 23) % 2 ^ 23 = rank % 2 ^ 23 := Nat.add_mod_right _ _
    have exponent : (rank + 2 ^ 23) / 2 ^ 23 - 1 = rank / 2 ^ 23 - 1 + 1 := by omega
    rw [gridUnits_of_le (by omega), gridUnits_of_le (by omega), fraction, exponent, Nat.pow_succ]
    ring

/-- A quotient of at least one unit does not round to zero. -/
theorem nearestRank_pos {num den : Nat} (positive : 0 < den) (unit : den ≤ num) :
    0 < nearestRank num den := by
  have one : nearestRank (gridUnits 1 * den) den = 1 := nearestRank_gridUnits 1 positive
  have atLeast := nearestRank_mono den (show gridUnits 1 * den ≤ num by simpa [gridUnits] using unit)
  omega

/-! ### Units of a rank, with its sign -/

/-- The units of the words at a rank. -/
def unitsAt (rank : Int) : Int := rank.sign * gridUnits rank.natAbs

/-- The rank that a quotient of units rounds to; past the greatest finite word that of infinity. -/
def roundedRank (value : Int) (den : Nat) : Int :=
  value.sign * (min (nearestRank value.natAbs den) infinityRank : Nat)

theorem signedUnits_eq (x : Single) : x.signedUnits = unitsAt x.rank := by
  unfold signedUnits units unitsAt rank
  split
  · rw [Int.natAbs_neg, Int.natAbs_natCast, Int.sign_neg]
    by_cases zero : x.magnitude = 0
    · simp [zero]
    · rw [Int.sign_eq_one_of_pos (by omega)]
      omega
  · rw [Int.natAbs_natCast]
    by_cases zero : x.magnitude = 0
    · simp [zero]
    · rw [Int.sign_eq_one_of_pos (by omega)]
      omega

theorem unitsAt_natCast (n : Nat) : unitsAt n = gridUnits n := by
  unfold unitsAt
  rw [Int.natAbs_natCast]
  by_cases zero : n = 0
  · simp [zero]
  · rw [Int.sign_eq_one_of_pos (by omega), Int.one_mul]

theorem unitsAt_neg (rank : Int) : unitsAt (-rank) = -unitsAt rank := by
  unfold unitsAt
  rw [Int.natAbs_neg, Int.sign_neg, Int.neg_mul]

theorem unitsAt_le_iff {rank other : Int} : unitsAt rank ≤ unitsAt other ↔ rank ≤ other := by
  -- by the signs of both ranks, where zero has either sign
  have natural (m n : Nat) : unitsAt m ≤ unitsAt n ↔ (m : Int) ≤ n := by
    rw [unitsAt_natCast, unitsAt_natCast, Int.ofNat_le, Int.ofNat_le, gridUnits_le_iff]
  have positive (n : Nat) (h : n ≠ 0) : 0 < unitsAt n := by
    rw [unitsAt_natCast]
    have above : gridUnits 0 < gridUnits n := gridUnits_lt_iff.mpr (by omega)
    rw [gridUnits_zero] at above
    omega
  have nonneg (n : Nat) : 0 ≤ unitsAt n := by
    rw [unitsAt_natCast]
    omega
  rcases Int.eq_nat_or_neg rank with ⟨m, rfl | rfl⟩ <;>
    rcases Int.eq_nat_or_neg other with ⟨n, rfl | rfl⟩
  · exact natural m n
  · rw [unitsAt_neg]
    by_cases zero : n = 0
    · subst zero
      simpa [unitsAt] using natural m 0
    · have := positive n zero
      have := nonneg m
      omega
  · rw [unitsAt_neg]
    have := nonneg m
    have := nonneg n
    omega
  · rw [unitsAt_neg, unitsAt_neg]
    have := natural n m
    omega

theorem unitsAt_lt_iff {rank other : Int} : unitsAt rank < unitsAt other ↔ rank < other := by
  rw [← Int.not_le, ← Int.not_le, unitsAt_le_iff]

@[simp] theorem unitsAt_zero : unitsAt 0 = 0 := rfl

theorem signedUnits_le_iff : x.signedUnits ≤ y.signedUnits ↔ x.rank ≤ y.rank := by
  rw [signedUnits_eq, signedUnits_eq, unitsAt_le_iff]

/-! ### Rounding with a sign -/

theorem roundedRank_natCast (n den : Nat) :
    roundedRank n den = (min (nearestRank n den) infinityRank : Nat) := by
  unfold roundedRank
  rw [Int.natAbs_natCast]
  by_cases zero : n = 0
  · simp [zero]
  · rw [Int.sign_eq_one_of_pos (by omega), Int.one_mul]

theorem roundedRank_neg (value : Int) (den : Nat) :
    roundedRank (-value) den = -roundedRank value den := by
  unfold roundedRank
  rw [Int.natAbs_neg, Int.sign_neg, Int.neg_mul]

theorem roundedRank_mono {value other : Int} (den : Nat) (atMost : value ≤ other) :
    roundedRank value den ≤ roundedRank other den := by
  -- by the signs of both values, as rounding treats both alike
  have natural (m n : Nat) (h : m ≤ n) : roundedRank m den ≤ roundedRank n den := by
    rw [roundedRank_natCast, roundedRank_natCast]
    have := nearestRank_mono den h
    omega
  have nonneg (n : Nat) : 0 ≤ roundedRank n den := by
    rw [roundedRank_natCast]
    omega
  rcases Int.eq_nat_or_neg value with ⟨m, rfl | rfl⟩ <;>
    rcases Int.eq_nat_or_neg other with ⟨n, rfl | rfl⟩
  · exact natural m n (by omega)
  · have zeroM : m = 0 := by omega
    have zeroN : n = 0 := by omega
    simp [zeroM, zeroN]
  · rw [roundedRank_neg]
    have := nonneg m
    have := nonneg n
    omega
  · rw [roundedRank_neg, roundedRank_neg]
    have := natural n m (by omega)
    omega

/-- The units of a rank round to that rank. -/
theorem roundedRank_unitsAt {rank : Int} {den : Nat} (positive : 0 < den)
    (bound : rank.natAbs ≤ infinityRank) : roundedRank (unitsAt rank * den) den = rank := by
  have natural (n : Nat) (h : n ≤ infinityRank) : roundedRank (unitsAt n * den) den = n := by
    rw [unitsAt_natCast, ← Int.natCast_mul, roundedRank_natCast,
      nearestRank_gridUnits n positive, Nat.min_eq_left h]
  rcases Int.eq_nat_or_neg rank with ⟨n, rfl | rfl⟩
  · exact natural n (by omega)
  · rw [unitsAt_neg, Int.neg_mul, roundedRank_neg, natural n (by omega)]

theorem roundedRank_unitsAt_one {rank : Int} (bound : rank.natAbs ≤ infinityRank) :
    roundedRank (unitsAt rank) 1 = rank := by
  simpa using roundedRank_unitsAt Nat.one_pos bound

@[simp] theorem roundedRank_zero (den : Nat) : roundedRank 0 den = 0 := by
  simp [roundedRank]

end Sightline.Single
