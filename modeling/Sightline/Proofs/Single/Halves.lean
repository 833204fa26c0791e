import Sightline.Proofs.Single.Arithmetic

/-!
# The middle of two words

The middle of two words is half of their rounded sum. As long as neither word is so great that the sum
overflows, the middle lies between them: doubling a word is exact, so rounding the sum does not carry
it past the double of either of them.
-/
namespace Sightline.Single

variable {x y z : Single}

/-- Words of which the sum of two is finite. -/
def Moderate (x : Single) : Prop := x.abs ≤ .ofNat (2 ^ 126)

instance (x : Single) : Decidable x.Moderate := inferInstanceAs (Decidable (_ ≤ _))

def moderateRank : Nat := 0x7e800000

theorem moderate_iff : x.Moderate ↔ x.rank.natAbs ≤ moderateRank := by
  have bound : (Single.ofNat (2 ^ 126)).rank = moderateRank := by decide +kernel
  have number : (Single.ofNat (2 ^ 126)).isNaN = false := by decide +kernel
  unfold Moderate
  rw [le_iff, number, isNaN_abs, rank_abs, bound, isNaN_eq_false_iff]
  constructor
  · intro ⟨_, _, atMost⟩
    omega
  · intro atMost
    refine ⟨?_, rfl, by omega⟩
    unfold moderateRank at atMost
    unfold infinityRank
    omega

theorem Moderate.isFinite (moderate : x.Moderate) : x.isFinite = true := by
  rw [moderate_iff] at moderate
  rw [isFinite_iff]
  unfold moderateRank at moderate
  unfold infinityRank
  omega

theorem moderate_of_between (moderateX : x.Moderate) (moderateZ : z.Moderate) (lower : x ≤ y)
    (upper : y ≤ z) : y.Moderate := by
  rw [moderate_iff] at moderateX moderateZ ⊢
  have low := lower.2.2
  have high := upper.2.2
  omega

/-- The double of a moderate rank is a finite one. -/
private theorem exists_rank_double {rank : Int} (moderate : rank.natAbs ≤ moderateRank) :
    ∃ double : Int, double.natAbs < infinityRank ∧ unitsAt double = 2 * unitsAt rank := by
  have natural (n : Nat) (small : n ≤ moderateRank) :
      ∃ double : Nat, double < infinityRank ∧ gridUnits double = 2 * gridUnits n := by
    obtain ⟨double, units⟩ := exists_gridUnits_double n
    refine ⟨double, ?_, units⟩
    -- doubling is monotone, so it is enough to double the greatest moderate rank
    have greatest : 2 * gridUnits moderateRank < gridUnits infinityRank := by decide +kernel
    have atMost := gridUnits_le_iff.mpr small
    apply gridUnits_lt_iff.mp
    omega
  rcases Int.eq_nat_or_neg rank with ⟨n, rfl | rfl⟩
  · obtain ⟨double, finite, units⟩ := natural n (by omega)
    refine ⟨double, by omega, ?_⟩
    rw [unitsAt_natCast, unitsAt_natCast, units]
    omega
  · obtain ⟨double, finite, units⟩ := natural n (by omega)
    refine ⟨-double, by omega, ?_⟩
    rw [unitsAt_neg, unitsAt_neg, unitsAt_natCast, unitsAt_natCast, units]
    omega

/-- The sum of two words stays on the same side of the double of a third one as they do of that. -/
private theorem double_le_add (moderateX : x.Moderate) (moderateY : y.Moderate)
    (moderateZ : z.Moderate) :
    (z ≤ x → z ≤ y → 2 * z.signedUnits ≤ (x + y).signedUnits) ∧
      (x ≤ z → y ≤ z → (x + y).signedUnits ≤ 2 * z.signedUnits) := by
  -- the double of z is a word, and rounding carries nothing past a word
  obtain ⟨double, finite, units⟩ := exists_rank_double (moderate_iff.mp moderateZ)
  have exact : roundedRank (unitsAt double) 1 = double :=
    roundedRank_unitsAt_one (Nat.le_of_lt finite)
  rw [signedUnits_eq z, ← units, signedUnits_eq (x + y), unitsAt_le_iff, unitsAt_le_iff,
    rank_add moderateX.isFinite moderateY.isFinite, ← exact]
  constructor
  · intro lowerX lowerY
    have unitsX := signedUnits_le_iff.mpr lowerX.2.2
    have unitsY := signedUnits_le_iff.mpr lowerY.2.2
    rw [signedUnits_eq z] at unitsX unitsY
    apply roundedRank_mono
    rw [units]
    omega
  · intro upperX upperY
    have unitsX := signedUnits_le_iff.mpr upperX.2.2
    have unitsY := signedUnits_le_iff.mpr upperY.2.2
    rw [signedUnits_eq z] at unitsX unitsY
    apply roundedRank_mono
    rw [units]
    omega

theorem Moderate.between (moderate : x.Moderate) :
    -.ofNat (2 ^ 126) ≤ x ∧ x ≤ .ofNat (2 ^ 126) := by
  have rank : (Single.ofNat (2 ^ 126)).rank = moderateRank := by decide +kernel
  have number := isNaN_of_isFinite moderate.isFinite
  rw [moderate_iff] at moderate
  refine ⟨⟨by decide +kernel, number, ?_⟩, ⟨number, by decide +kernel, ?_⟩⟩
  · rw [rank_neg, rank]
    omega
  · rw [rank]
    omega

theorem isFinite_add (moderateX : x.Moderate) (moderateY : y.Moderate) :
    (x + y).isFinite = true := by
  have below : (x + y).signedUnits ≤ 2 * (Single.ofNat (2 ^ 126)).signedUnits :=
    (double_le_add moderateX moderateY (by decide +kernel)).2 moderateX.between.2
      moderateY.between.2
  have above : 2 * (-Single.ofNat (2 ^ 126)).signedUnits ≤ (x + y).signedUnits :=
    (double_le_add moderateX moderateY (by decide +kernel)).1 moderateX.between.1
      moderateY.between.1
  -- even the doubles of the extremes are finite
  have greatest : 2 * (Single.ofNat (2 ^ 126)).signedUnits < unitsAt infinityRank := by
    decide +kernel
  have least : unitsAt (-infinityRank) < 2 * (-Single.ofNat (2 ^ 126)).signedUnits := by
    decide +kernel
  rw [signedUnits_eq (x + y)] at below above
  have under := unitsAt_lt_iff.mp (Int.lt_of_le_of_lt below greatest)
  have aboveLeast := unitsAt_lt_iff.mp (Int.lt_of_lt_of_le least above)
  rw [isFinite_iff]
  omega

theorem half_isFinite : (0.5 : Single).isFinite = true := by decide +kernel

theorem half_units : (0.5 : Single).signedUnits * 2 = unit := by decide +kernel

/-- Half of a finite word is on the same side of a word as the whole is of its double. -/
private theorem rank_half (finite : y.isFinite = true) (numberZ : z.isNaN = false) :
    (2 * z.signedUnits ≤ y.signedUnits → z.rank ≤ (0.5 * y).rank) ∧
      (y.signedUnits ≤ 2 * z.signedUnits → (0.5 * y).rank ≤ z.rank) := by
  -- half of the double of z is z, which needs no rounding
  have exact : roundedRank (z.signedUnits * unit) unit = z.rank := by
    rw [signedUnits_eq]
    exact roundedRank_unitsAt (by decide) (isNaN_eq_false_iff.mp numberZ)
  have double : z.signedUnits * unit = (0.5 : Single).signedUnits * (2 * z.signedUnits) := by
    rw [← half_units]
    ring
  rw [rank_mul half_isFinite finite, ← exact, double]
  have positive : (0 : Int) ≤ (0.5 : Single).signedUnits := by decide +kernel
  exact ⟨fun lower => roundedRank_mono unit (Int.mul_le_mul_of_nonneg_left lower positive),
    fun upper => roundedRank_mono unit (Int.mul_le_mul_of_nonneg_left upper positive)⟩

/-- The middle of two words is not below what both are above of. -/
theorem le_middle (moderateX : x.Moderate) (moderateY : y.Moderate) (moderateZ : z.Moderate)
    (lowerX : z ≤ x) (lowerY : z ≤ y) : z ≤ 0.5 * (x + y) := by
  have finite := isFinite_add moderateX moderateY
  refine ⟨lowerX.1, isNaN_mul half_isFinite finite, (rank_half finite lowerX.1).1 ?_⟩
  exact (double_le_add moderateX moderateY moderateZ).1 lowerX lowerY

theorem middle_le (moderateX : x.Moderate) (moderateY : y.Moderate) (moderateZ : z.Moderate)
    (upperX : x ≤ z) (upperY : y ≤ z) : 0.5 * (x + y) ≤ z := by
  have finite := isFinite_add moderateX moderateY
  refine ⟨isNaN_mul half_isFinite finite, upperX.2.1, (rank_half finite upperX.2.1).2 ?_⟩
  exact (double_le_add moderateX moderateY moderateZ).2 upperX upperY

theorem rank_mul_comm (finiteX : x.isFinite = true) (finiteY : y.isFinite = true) :
    (x * y).rank = (y * x).rank := by
  rw [rank_mul finiteX finiteY, rank_mul finiteY finiteX, Int.mul_comm]

end Sightline.Single
