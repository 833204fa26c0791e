import Sightline.Proofs.Single.Scaling

/-!
# Words that are not a number

Every operation passes on an operand that is not a number. A number differs from itself by zero, unless
it is infinite: then the difference has no value.
-/
namespace Sightline.Single

variable {x y : Single}

theorem isNaN_quiet (noNumber : x.isNaN = true) : x.quiet.isNaN = true := by
  have kept : x.magnitude ≤ x.quiet.magnitude := by
    rw [magnitude, quiet]
    change _ % 2 ^ 31 ≤ (x.bits ||| 0x00400000).toNat % 2 ^ 31
    rw [UInt32.toNat_or, Nat.or_mod_two_pow]
    exact Nat.left_le_or
  rw [isNaN, decide_eq_true_eq] at noNumber ⊢
  omega

theorem isNaN_binary {compute : Single → Single → Single}
    (noNumber : x.isNaN = true ∨ y.isNaN = true) : (binary compute x y).isNaN = true := by
  rw [binary]
  cases first : x.isNaN with
  | true =>
    simp only [if_true]
    exact isNaN_quiet first
  | false =>
    have second : y.isNaN = true := by simpa [first] using noNumber
    simp only [second, Bool.false_eq_true, if_false, if_true]
    exact isNaN_quiet second

theorem isNaN_add_of (noNumber : x.isNaN = true ∨ y.isNaN = true) : (x + y).isNaN = true :=
  isNaN_binary noNumber

theorem isNaN_mul_of (noNumber : x.isNaN = true ∨ y.isNaN = true) : (x * y).isNaN = true :=
  isNaN_binary noNumber

theorem isNaN_sqrt (noNumber : x.isNaN = true) : x.sqrt.isNaN = true := by
  rw [sqrt, if_pos noNumber]
  exact isNaN_quiet noNumber

theorem isFinite_of_isNaN (noNumber : x.isNaN = true) : x.isFinite = false := by
  cases finite : x.isFinite with
  | true => rw [isNaN_of_isFinite finite] at noNumber; cases noNumber
  | false => rfl

theorem finite_of_zero (zero : x.rank = 0) : x.isFinite = true := by
  rw [isFinite_iff, zero]
  decide

theorem same_zero_iff : x.Same 0 ↔ x.rank = 0 := by
  have zero : (0 : Single).isNaN = false ∧ (0 : Single).rank = 0 := by decide +kernel
  constructor
  · intro same
    exact same.2.2.trans zero.2
  · intro rank
    exact ⟨isNaN_of_isFinite (finite_of_zero rank), zero.1, rank.trans zero.2.symm⟩

theorem Same.symm (same : x.Same y) : y.Same x := ⟨same.2.1, same.1, same.2.2.symm⟩

theorem Same.le (same : x.Same y) : x ≤ y := ⟨same.1, same.2.1, Int.le_of_eq same.2.2⟩

theorem same_of_le (first : x ≤ y) (second : y ≤ x) : x.Same y :=
  ⟨first.1, first.2.1, Int.le_antisymm first.2.2 second.2.2⟩

/-- The difference of two equal words is zero or has no value. -/
theorem sub_same (same : x.Same y) :
    (x - y).isNaN = true ∨ ((x - y).isFinite = true ∧ (x - y).rank = 0) := by
  obtain ⟨numberX, numberY, ranks⟩ := same
  rcases isFinite_or_isInfinite numberX with finiteX | infiniteX
  · right
    have finiteY : y.isFinite = true := by rwa [isFinite_iff, ← ranks, ← isFinite_iff]
    have zero : (x - y).rank = 0 := by
      rw [rank_sub finiteX finiteY, signedUnits_eq, signedUnits_eq, ranks, Int.sub_self,
        roundedRank_zero]
    exact ⟨finite_of_zero zero, zero⟩
  · left
    -- an infinity is determined by its rank
    obtain rfl : x = y := by
      refine eq_of_rank ?_ ranks
      intro zero
      rw [isInfinite_iff, zero] at infiniteX
      cases infiniteX
    rw [sub_eq numberX numberX]
    have turned : (x.negative != !x.negative) = true := by cases x.negative <;> rfl
    simp only [addNumbers, isInfinite_neg, negative_neg, infiniteX, turned, Bool.and_self, if_true]
    decide

end Sightline.Single
