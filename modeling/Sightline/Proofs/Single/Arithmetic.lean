import Sightline.Single.Arithmetic
import Sightline.Proofs.Single.Rounding

/-!
# Computed words in order

Each operation on finite words rounds the exact result, so its rank is a monotone function of exact
units. The operations of this module are the ones that place boxes and times of rays: differences,
products with a fixed number, halves.
-/
namespace Sightline.Single

variable {x y z : Single}

theorem negative_iff (x : Single) : x.negative = true ↔ 0x80000000 ≤ x.bits.toNat := by
  unfold negative
  rw [decide_eq_true_eq, UInt32.le_iff_toNat_le]
  rfl

/-! ### Words made from ranks -/

private theorem toNat_ofRank (negative : Bool) (m : Nat) :
    (ofRank negative m).bits.toNat = min m infinityRank + if negative then 0x80000000 else 0 := by
  unfold ofRank infinityRank
  rw [UInt32.toNat_ofNat']
  apply Nat.mod_eq_of_lt
  split <;> omega

theorem magnitude_ofRank (negative : Bool) (m : Nat) :
    (ofRank negative m).magnitude = min m infinityRank := by
  unfold magnitude
  rw [toNat_ofRank]
  unfold infinityRank
  split <;> omega

theorem negative_ofRank (negative : Bool) (m : Nat) : (ofRank negative m).negative = negative := by
  rw [Bool.eq_iff_iff, negative_iff, toNat_ofRank]
  unfold infinityRank
  cases negative
  · simp only [Bool.false_eq_true, if_false, iff_false]
    omega
  · simp only [if_true, iff_true]
    omega

theorem rank_ofRank (negative : Bool) (m : Nat) :
    (ofRank negative m).rank =
      if negative then -((min m infinityRank : Nat) : Int) else (min m infinityRank : Nat) := by
  rw [rank, negative_ofRank, magnitude_ofRank]

theorem isNaN_ofRank (negative : Bool) (m : Nat) : (ofRank negative m).isNaN = false := by
  rw [isNaN, magnitude_ofRank]
  simp

/-- The word nearest to a number of units with a sign. -/
theorem rank_ofUnits (negative : Bool) (num den : Nat) :
    (ofUnits negative num den).rank =
      roundedRank (if negative then -(num : Int) else num) den := by
  rw [ofUnits, rank_ofRank]
  cases negative
  · simp only [Bool.false_eq_true, if_false]
    rw [roundedRank_natCast]
  · simp only [if_true]
    rw [roundedRank_neg, roundedRank_natCast]

theorem isNaN_ofUnits (negative : Bool) (num den : Nat) :
    (ofUnits negative num den).isNaN = false := isNaN_ofRank _ _

/-! ### Signs -/

private theorem toNat_neg (x : Single) : (-x).bits.toNat = x.bits.toNat ^^^ 2 ^ 31 := by
  change (x.bits ^^^ 0x80000000).toNat = _
  rw [UInt32.toNat_xor]
  rfl

@[simp] theorem magnitude_neg (x : Single) : (-x).magnitude = x.magnitude := by
  unfold magnitude
  rw [toNat_neg]
  change (_ ^^^ 2 ^ 31) % 2 ^ 31 = _ % 2 ^ 31
  rw [Nat.xor_mod_two_pow, Nat.mod_self, Nat.xor_zero]

@[simp] theorem negative_neg (x : Single) : (-x).negative = !x.negative := by
  -- the sign is the topmost bit, the only one that changes
  have top (n : Nat) (bound : n < 2 ^ 32) : 0x80000000 ≤ n ↔ n / 2 ^ 31 = 1 := by omega
  have bound : x.bits.toNat / 2 ^ 31 = 0 ∨ x.bits.toNat / 2 ^ 31 = 1 := by
    have := x.bits.toNat_lt
    omega
  rw [Bool.eq_iff_iff, Bool.not_eq_true', Bool.eq_false_iff, Ne, negative_iff, negative_iff,
    top _ (UInt32.toNat_lt _), top _ (UInt32.toNat_lt _), toNat_neg, Nat.xor_div_two_pow,
    Nat.div_self (by decide)]
  rcases bound with zero | one
  · rw [zero]
    decide
  · rw [one]
    decide

@[simp] theorem rank_neg (x : Single) : (-x).rank = -x.rank := by
  unfold rank
  rw [negative_neg, magnitude_neg]
  cases x.negative <;> simp

@[simp] theorem isInfinite_neg (x : Single) : (-x).isInfinite = x.isInfinite := by
  simp [isInfinite]

@[simp] theorem isNaN_neg (x : Single) : (-x).isNaN = x.isNaN := by
  simp [isNaN]

theorem rank_abs (x : Single) : x.abs.rank = x.rank.natAbs := by
  have bits : x.abs.bits.toNat = x.magnitude := by
    unfold abs magnitude
    change (x.bits &&& 0x7fffffff).toNat = _
    rw [UInt32.toNat_and]
    exact Nat.and_two_pow_sub_one_eq_mod x.bits.toNat 31
  have bound : x.magnitude < 0x80000000 := Nat.mod_lt _ (by decide)
  have positive : x.abs.negative = false := by
    rw [Bool.eq_false_iff, Ne, negative_iff, bits]
    omega
  rw [natAbs_rank, rank, positive]
  simp only [Bool.false_eq_true, if_false]
  rw [magnitude, bits, Nat.mod_eq_of_lt bound]

theorem isNaN_abs (x : Single) : x.abs.isNaN = x.isNaN := by
  rw [isNaN, isNaN, ← natAbs_rank, ← natAbs_rank, rank_abs, Int.natAbs_natCast]

/-! ### Sums and differences -/

theorem signedUnits_neg (x : Single) : (-x).signedUnits = -x.signedUnits := by
  rw [signedUnits_eq, signedUnits_eq, rank_neg, unitsAt_neg]

theorem isNaN_addNumbers (finiteX : x.isFinite = true) (numberY : y.isNaN = false) :
    (addNumbers x y).isNaN = false := by
  unfold addNumbers
  rw [isInfinite_of_isFinite finiteX]
  simp only [Bool.false_eq_true, if_false]
  split
  · exact numberY
  · split
    · exact isNaN_ofRank _ _
    · exact isNaN_ofUnits _ _ _

/-- The sum of finite words is the exact sum, rounded once. -/
theorem rank_addNumbers (finiteX : x.isFinite = true) (finiteY : y.isFinite = true) :
    (addNumbers x y).rank = roundedRank (x.signedUnits + y.signedUnits) 1 := by
  unfold addNumbers
  rw [isInfinite_of_isFinite finiteX, isInfinite_of_isFinite finiteY]
  simp only [Bool.false_eq_true, if_false]
  split
  -- an exact sum of zero is a zero, whatever its sign
  next zero => simp [rank_ofRank, zero]
  · rw [rank_ofUnits]
    congr 1
    split
    next less =>
      have := of_decide_eq_true less
      omega
    next notLess =>
      rw [decide_eq_true_eq] at notLess
      omega

theorem add_eq (numberX : x.isNaN = false) (numberY : y.isNaN = false) :
    x + y = addNumbers x y := by
  change binary addNumbers x y = _
  unfold binary
  simp [numberX, numberY]

theorem sub_eq (numberX : x.isNaN = false) (numberY : y.isNaN = false) :
    x - y = addNumbers x (-y) := by
  change binary (fun x y => addNumbers x (-y)) x y = _
  unfold binary
  simp [numberX, numberY]

theorem rank_add (finiteX : x.isFinite = true) (finiteY : y.isFinite = true) :
    (x + y).rank = roundedRank (x.signedUnits + y.signedUnits) 1 := by
  rw [add_eq (isNaN_of_isFinite finiteX) (isNaN_of_isFinite finiteY),
    rank_addNumbers finiteX finiteY]

theorem isFinite_neg (finite : x.isFinite = true) : (-x).isFinite = true := by
  rw [isFinite_iff] at finite ⊢
  rw [rank_neg]
  omega

theorem neg_lt_neg_iff : -x < -y ↔ y < x := by
  have parts (a b : Single) : a < b ↔ a.isNaN = false ∧ b.isNaN = false ∧ a.rank < b.rank := Iff.rfl
  rw [parts, parts, isNaN_neg, isNaN_neg, rank_neg, rank_neg, Int.neg_lt_neg_iff]
  exact and_left_comm

theorem neg_le_neg_iff : -x ≤ -y ↔ y ≤ x := by
  have parts (a b : Single) : a ≤ b ↔ a.isNaN = false ∧ b.isNaN = false ∧ a.rank ≤ b.rank := Iff.rfl
  rw [parts, parts, isNaN_neg, isNaN_neg, rank_neg, rank_neg, Int.neg_le_neg_iff]
  exact and_left_comm

theorem rank_sub (finiteX : x.isFinite = true) (finiteY : y.isFinite = true) :
    (x - y).rank = roundedRank (x.signedUnits - y.signedUnits) 1 := by
  rw [sub_eq (isNaN_of_isFinite finiteX) (isNaN_of_isFinite finiteY),
    rank_addNumbers finiteX (isFinite_neg finiteY), signedUnits_neg, Int.sub_eq_add_neg]

theorem isNaN_sub (finiteX : x.isFinite = true) (finiteY : y.isFinite = true) :
    (x - y).isNaN = false := by
  rw [sub_eq (isNaN_of_isFinite finiteX) (isNaN_of_isFinite finiteY)]
  exact isNaN_addNumbers finiteX (isNaN_of_isFinite (isFinite_neg finiteY))

/-- The difference of two words lies between the first one and the second one turned round, if neither
of them is negative. -/
theorem isFinite_sub (finiteX : x.isFinite = true) (finiteY : y.isFinite = true)
    (positiveX : 0 ≤ x.rank) (positiveY : 0 ≤ y.rank) : (x - y).isFinite = true := by
  have unitsX := signedUnits_eq x
  have unitsY := signedUnits_eq y
  have nonnegX : unitsAt 0 ≤ unitsAt x.rank := unitsAt_le_iff.mpr positiveX
  have nonnegY : unitsAt 0 ≤ unitsAt y.rank := unitsAt_le_iff.mpr positiveY
  rw [unitsAt_zero] at nonnegX nonnegY
  rw [isFinite_iff] at finiteX finiteY ⊢
  rw [rank_sub (isFinite_iff.mpr finiteX) (isFinite_iff.mpr finiteY), unitsX, unitsY]
  have above : roundedRank (unitsAt x.rank - unitsAt y.rank) 1 ≤ x.rank := by
    have rounded : roundedRank (unitsAt x.rank) 1 = x.rank := roundedRank_unitsAt_one (by omega)
    calc roundedRank (unitsAt x.rank - unitsAt y.rank) 1
        ≤ roundedRank (unitsAt x.rank) 1 := roundedRank_mono 1 (by omega)
      _ = x.rank := rounded
  have below : -y.rank ≤ roundedRank (unitsAt x.rank - unitsAt y.rank) 1 := by
    have rounded : roundedRank (unitsAt (-y.rank)) 1 = -y.rank := roundedRank_unitsAt_one (by omega)
    rw [unitsAt_neg] at rounded
    calc -y.rank = roundedRank (-unitsAt y.rank) 1 := rounded.symm
      _ ≤ roundedRank (unitsAt x.rank - unitsAt y.rank) 1 := roundedRank_mono 1 (by omega)
  omega

/-- An infinity stays what it is when a finite word is taken away. -/
theorem infinite_sub (infiniteX : x.isInfinite = true) (finiteY : y.isFinite = true) :
    x - y = x := by
  have numberX : x.isNaN = false := by
    rw [isInfinite_iff] at infiniteX
    rw [isNaN_eq_false_iff]
    omega
  rw [sub_eq numberX (isNaN_of_isFinite finiteY)]
  unfold addNumbers
  simp [infiniteX, isInfinite_of_isFinite finiteY]

/-- Differences from one finite word keep the order. -/
theorem sub_le_sub (finiteX : x.isFinite = true) (finiteY : y.isFinite = true)
    (finiteZ : z.isFinite = true) (atMost : x ≤ y) : x - z ≤ y - z := by
  refine ⟨isNaN_sub finiteX finiteZ, isNaN_sub finiteY finiteZ, ?_⟩
  rw [rank_sub finiteX finiteZ, rank_sub finiteY finiteZ]
  apply roundedRank_mono
  have := signedUnits_le_iff.mpr atMost.2.2
  omega

/-- An infinity stays what it is when a finite word is added. -/
theorem infinite_add (infiniteX : x.isInfinite = true) (finiteY : y.isFinite = true) :
    x + y = x := by
  have numberX : x.isNaN = false := by
    rw [isInfinite_iff] at infiniteX
    rw [isNaN_eq_false_iff]
    omega
  rw [add_eq numberX (isNaN_of_isFinite finiteY)]
  unfold addNumbers
  simp [infiniteX, isInfinite_of_isFinite finiteY]

theorem isNaN_add_number (numberX : x.isNaN = false) (finiteY : y.isFinite = true) :
    (x + y).isNaN = false := by
  rcases isFinite_or_isInfinite numberX with finiteX | infiniteX
  · rw [add_eq numberX (isNaN_of_isFinite finiteY)]
    exact isNaN_addNumbers finiteX (isNaN_of_isFinite finiteY)
  · rw [infinite_add infiniteX finiteY]
    exact numberX

/-- Sums with one finite word keep the order. -/
theorem add_le_add (finiteZ : z.isFinite = true) (atMost : x ≤ y) : x + z ≤ y + z := by
  obtain ⟨numberX, numberY, ranks⟩ := atMost
  have numbers : (x + z).isNaN = false ∧ (y + z).isNaN = false :=
    ⟨isNaN_add_number numberX finiteZ, isNaN_add_number numberY finiteZ⟩
  refine ⟨numbers.1, numbers.2, ?_⟩
  simp only [isNaN_eq_false_iff] at numbers
  -- sums of finite words are rounded alike, and infinite words stay below or above all others
  rcases isFinite_or_isInfinite numberX with finiteX | infiniteX
  · rcases isFinite_or_isInfinite numberY with finiteY | infiniteY
    · rw [rank_add finiteX finiteZ, rank_add finiteY finiteZ]
      have units := signedUnits_le_iff.mpr ranks
      exact roundedRank_mono 1 (by omega)
    · rw [infinite_add infiniteY finiteZ]
      rw [isInfinite_iff] at infiniteY
      rw [isFinite_iff] at finiteX
      omega
  · rw [infinite_add infiniteX finiteZ]
    rcases isFinite_or_isInfinite numberY with finiteY | infiniteY
    · rw [isInfinite_iff] at infiniteX
      rw [isFinite_iff] at finiteY
      omega
    · rw [infinite_add infiniteY finiteZ]
      exact ranks

/-! ### Products -/

theorem mul_eq (numberX : x.isNaN = false) (numberY : y.isNaN = false) :
    x * y = mulNumbers x y := by
  change binary mulNumbers x y = _
  unfold binary
  simp [numberX, numberY]

theorem rank_mul (finiteX : x.isFinite = true) (finiteY : y.isFinite = true) :
    (x * y).rank = roundedRank (x.signedUnits * y.signedUnits) unit := by
  rw [mul_eq (isNaN_of_isFinite finiteX) (isNaN_of_isFinite finiteY)]
  unfold mulNumbers
  rw [isInfinite_of_isFinite finiteX, isInfinite_of_isFinite finiteY]
  simp only [Bool.or_false, Bool.false_eq_true, if_false]
  rw [rank_ofUnits]
  congr 1
  unfold signedUnits
  cases x.negative <;> cases y.negative <;> simp

theorem isNaN_mul (finiteX : x.isFinite = true) (finiteY : y.isFinite = true) :
    (x * y).isNaN = false := by
  rw [mul_eq (isNaN_of_isFinite finiteX) (isNaN_of_isFinite finiteY)]
  unfold mulNumbers
  rw [isInfinite_of_isFinite finiteX, isInfinite_of_isFinite finiteY]
  exact isNaN_ofUnits _ _ _

/-- The product of an infinity and a word other than zero is an infinity, with the sign of both. -/
theorem infinite_mul (infiniteX : x.isInfinite = true) (numberY : y.isNaN = false)
    (nonzero : y.rank ≠ 0) :
    x * y = ofRank (x.negative != y.negative) infinityRank := by
  have numberX : x.isNaN = false := by
    rw [isInfinite_iff] at infiniteX
    rw [isNaN_eq_false_iff]
    omega
  have magnitudeX : x.magnitude ≠ 0 := by
    rw [isInfinite, decide_eq_true_eq] at infiniteX
    rw [infiniteX]
    decide
  have magnitudeY : y.magnitude ≠ 0 := fun zero => nonzero (rank_eq_zero_iff.mpr zero)
  rw [mul_eq numberX numberY]
  unfold mulNumbers
  simp [infiniteX, magnitudeX, magnitudeY]

end Sightline.Single
