import Sightline.Single.Basic
import Mathlib.Order.Basic
import Mathlib.Data.Nat.Bitwise

/-!
# The order of single precision words

Comparison of words is comparison of ranks wherever both words are numbers. The lemmas of this module
turn questions about words into questions about integers, where `omega` answers them.
-/
namespace Sightline.Single

variable {x y z : Single}

/-! ### Ranks -/

theorem natAbs_rank (x : Single) : x.rank.natAbs = x.magnitude := by
  unfold rank
  split <;> omega

theorem rank_eq_zero_iff : x.rank = 0 ↔ x.magnitude = 0 := by
  rw [← natAbs_rank]
  omega

theorem isNaN_eq_false_iff : x.isNaN = false ↔ x.rank.natAbs ≤ infinityRank := by
  rw [natAbs_rank]
  simp [isNaN]

theorem isFinite_iff : x.isFinite = true ↔ x.rank.natAbs < infinityRank := by
  rw [natAbs_rank]
  simp [isFinite]

theorem isInfinite_iff : x.isInfinite = true ↔ x.rank.natAbs = infinityRank := by
  rw [natAbs_rank]
  simp [isInfinite]

theorem isNaN_of_isFinite (finite : x.isFinite = true) : x.isNaN = false := by
  rw [isFinite_iff] at finite
  rw [isNaN_eq_false_iff]
  omega

theorem isInfinite_of_isFinite (finite : x.isFinite = true) : x.isInfinite = false := by
  rw [isFinite_iff] at finite
  rw [Bool.eq_false_iff, Ne, isInfinite_iff]
  omega

theorem isFinite_or_isInfinite (number : x.isNaN = false) :
    x.isFinite = true ∨ x.isInfinite = true := by
  rw [isNaN_eq_false_iff] at number
  rw [isFinite_iff, isInfinite_iff]
  omega

@[simp] theorem rank_infinity : infinity.rank = infinityRank := rfl

@[simp] theorem rank_negativeInfinity : negativeInfinity.rank = -(infinityRank : Int) := rfl

@[simp] theorem isNaN_infinity : infinity.isNaN = false := rfl

@[simp] theorem isNaN_negativeInfinity : negativeInfinity.isNaN = false := rfl

theorem ne_infinity_of_isFinite (finite : x.isFinite = true) : x ≠ infinity := by
  rintro rfl
  exact absurd finite (by decide)

theorem ne_negativeInfinity_of_isFinite (finite : x.isFinite = true) : x ≠ negativeInfinity := by
  rintro rfl
  exact absurd finite (by decide)

/-! ### Comparison -/

theorem le_self (number : x.isNaN = false) : x ≤ x := ⟨number, number, Int.le_refl _⟩

theorem le_trans (first : x ≤ y) (second : y ≤ z) : x ≤ z :=
  ⟨first.1, second.2.1, Int.le_trans first.2.2 second.2.2⟩

theorem lt_of_lt_of_le (first : x < y) (second : y ≤ z) : x < z :=
  ⟨first.1, second.2.1, Int.lt_of_lt_of_le first.2.2 second.2.2⟩

theorem lt_of_le_of_lt (first : x ≤ y) (second : y < z) : x < z :=
  ⟨first.1, second.2.1, Int.lt_of_le_of_lt first.2.2 second.2.2⟩

theorem le_of_lt (less : x < y) : x ≤ y := ⟨less.1, less.2.1, Int.le_of_lt less.2.2⟩

theorem not_lt_of_le (atMost : x ≤ y) : ¬y < x := fun less =>
  absurd less.2.2 (Int.not_lt.mpr atMost.2.2)

theorem le_of_not_lt (numberX : x.isNaN = false) (numberY : y.isNaN = false) (notLess : ¬x < y) :
    y ≤ x := by
  refine ⟨numberY, numberX, ?_⟩
  by_contra greater
  exact notLess ⟨numberX, numberY, Int.not_le.mp greater⟩

theorem lt_of_not_le (numberX : x.isNaN = false) (numberY : y.isNaN = false) (notLe : ¬x ≤ y) :
    y < x := by
  refine ⟨numberY, numberX, ?_⟩
  by_contra less
  exact notLe ⟨numberX, numberY, Int.not_lt.mp less⟩

theorem le_infinity (number : x.isNaN = false) : x ≤ infinity := by
  refine ⟨number, isNaN_infinity, ?_⟩
  have bound := isNaN_eq_false_iff.mp number
  rw [rank_infinity]
  omega

theorem negativeInfinity_le (number : x.isNaN = false) : negativeInfinity ≤ x := by
  refine ⟨isNaN_negativeInfinity, number, ?_⟩
  have bound := isNaN_eq_false_iff.mp number
  rw [rank_negativeInfinity]
  omega

theorem lt_infinity (finite : x.isFinite = true) : x < infinity := by
  refine ⟨isNaN_of_isFinite finite, isNaN_infinity, ?_⟩
  have bound := isFinite_iff.mp finite
  rw [rank_infinity]
  omega

theorem negativeInfinity_lt (finite : x.isFinite = true) : negativeInfinity < x := by
  refine ⟨isNaN_negativeInfinity, isNaN_of_isFinite finite, ?_⟩
  have bound := isFinite_iff.mp finite
  rw [rank_negativeInfinity]
  omega

/-- A number between two finite ones is finite. -/
theorem isFinite_of_between (finiteX : x.isFinite = true) (finiteZ : z.isFinite = true)
    (lower : x ≤ y) (upper : y ≤ z) : y.isFinite = true := by
  rw [isFinite_iff] at finiteX finiteZ ⊢
  have low := lower.2.2
  have high := upper.2.2
  omega

/-! ### Minima and maxima -/

theorem min_of_number (number : x.isNaN = false) : min x y = if y < x then y else x := by
  rw [min_eq, if_neg (by simp [number])]

theorem max_of_number (number : x.isNaN = false) : max x y = if x < y then y else x := by
  rw [max_eq, if_neg (by simp [number])]

theorem min_eq_or (x y : Single) : min x y = x ∨ min x y = y := by
  rw [min_eq]
  split
  · exact .inr rfl
  · split
    · exact .inr rfl
    · exact .inl rfl

theorem max_eq_or (x y : Single) : max x y = x ∨ max x y = y := by
  rw [max_eq]
  split
  · exact .inr rfl
  · split
    · exact .inr rfl
    · exact .inl rfl

theorem min_le_left (number : x.isNaN = false) : min x y ≤ x := by
  rw [min_of_number number]
  split
  next less => exact le_of_lt less
  · exact le_self number

theorem min_le_right (number : y.isNaN = false) : min x y ≤ y := by
  rw [min_eq]
  split
  · exact le_self number
  next numberX =>
    split
    · exact le_self number
    next notLess => exact le_of_not_lt number (by simpa using numberX) notLess

theorem le_max_left (number : x.isNaN = false) : x ≤ max x y := by
  rw [max_of_number number]
  split
  next less => exact le_of_lt less
  · exact le_self number

theorem le_max_right (number : y.isNaN = false) : y ≤ max x y := by
  rw [max_eq]
  split
  · exact le_self number
  next numberX =>
    split
    · exact le_self number
    next notLess => exact le_of_not_lt (by simpa using numberX) number notLess

/-- A word that is not a number has no influence on a maximum. -/
theorem max_le (left : x.isNaN = false → x ≤ z) (right : y ≤ z) : max x y ≤ z := by
  rcases max_eq_or x y with same | same
  · cases number : x.isNaN with
    | false =>
      rw [same]
      exact left number
    | true =>
      rw [max_eq, if_pos number]
      exact right
  · rw [same]
    exact right

theorem le_min (left : x.isNaN = false → z ≤ x) (right : z ≤ y) : z ≤ min x y := by
  rcases min_eq_or x y with same | same
  · cases number : x.isNaN with
    | false =>
      rw [same]
      exact left number
    | true =>
      rw [min_eq, if_pos number]
      exact right
  · rw [same]
    exact right

theorem min_le_iff (numberX : x.isNaN = false) (numberY : y.isNaN = false) :
    min x y ≤ z ↔ x ≤ z ∨ y ≤ z := by
  constructor
  · intro atMost
    rcases min_eq_or x y with same | same
    · exact .inl (same ▸ atMost)
    · exact .inr (same ▸ atMost)
  · rintro (first | second)
    · exact le_trans (min_le_left numberX) first
    · exact le_trans (min_le_right numberY) second

theorem le_max_iff (numberX : x.isNaN = false) (numberY : y.isNaN = false) :
    z ≤ max x y ↔ z ≤ x ∨ z ≤ y := by
  constructor
  · intro atLeast
    rcases max_eq_or x y with same | same
    · exact .inl (same ▸ atLeast)
    · exact .inr (same ▸ atLeast)
  · rintro (first | second)
    · exact le_trans first (le_max_left numberX)
    · exact le_trans second (le_max_right numberY)

/-- A bound that is raised to what it does not reach yet. -/
theorem le_raise (numberX : x.isNaN = false) (numberY : y.isNaN = false) :
    x ≤ (if x < y then y else x) ∧ y ≤ if x < y then y else x := by
  split
  next less => exact ⟨le_of_lt less, le_self numberY⟩
  next notLess => exact ⟨le_self numberX, le_of_not_lt numberX numberY notLess⟩

/-- A bound that is lowered to what is still below it. -/
theorem lower_le (numberX : x.isNaN = false) (numberY : y.isNaN = false) :
    (if y < x then y else x) ≤ x ∧ (if y < x then y else x) ≤ y := by
  split
  next less => exact ⟨le_of_lt less, le_self numberY⟩
  next notLess => exact ⟨le_self numberX, le_of_not_lt numberY numberX notLess⟩

theorem raise_le_iff (numberY : y.isNaN = false) :
    (if x < y then y else x) ≤ z ↔ x ≤ z ∧ y ≤ z := by
  split
  next less => exact ⟨fun atMost => ⟨le_trans (le_of_lt less) atMost, atMost⟩, And.right⟩
  next notLess =>
    exact ⟨fun atMost => ⟨atMost, le_trans (le_of_not_lt atMost.1 numberY notLess) atMost⟩, And.left⟩

theorem le_lower_iff (numberY : y.isNaN = false) :
    z ≤ (if y < x then y else x) ↔ z ≤ x ∧ z ≤ y := by
  split
  next less => exact ⟨fun atLeast => ⟨le_trans atLeast (le_of_lt less), atLeast⟩, And.right⟩
  next notLess =>
    exact ⟨fun atLeast => ⟨atLeast, le_trans atLeast (le_of_not_lt numberY atLeast.2.1 notLess)⟩,
      And.left⟩

end Sightline.Single
