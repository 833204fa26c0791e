import Sightline.Proofs.Single.Order

/-!
# Least and greatest words of a list

The minimum of a list, taken word by word, is one of its words and at most each of them that is a number,
whatever words of it are none; and so is the maximum, turned round.
-/
namespace Sightline.Single

/-- A selection of one of two words: the one that comes before the other, or the one that is a number. -/
structure Selects (select : Single → Single → Single) (Before : Single → Single → Prop) : Prop where
  eq_or : ∀ x y, select x y = x ∨ select x y = y
  left : ∀ x y, x.isNaN = false → Before (select x y) x
  right : ∀ x y, y.isNaN = false → Before (select x y) y
  trans : ∀ x y z, Before x y → Before y z → Before x z
  number : ∀ x y, Before x y → x.isNaN = false

theorem selects_min : Selects min (· ≤ ·) where
  eq_or := min_eq_or
  left _ _ := min_le_left
  right _ _ := min_le_right
  trans _ _ _ := le_trans
  number _ _ atMost := atMost.1

theorem selects_max : Selects max fun x y => y ≤ x where
  eq_or := max_eq_or
  left _ _ := le_max_left
  right _ _ := le_max_right
  trans _ _ _ first second := le_trans second first
  number _ _ atLeast := atLeast.2.1

variable {select : Single → Single → Single} {Before : Single → Single → Prop} {x y : Single}
  {xs : List Single}

theorem Selects.foldl_mem (selects : Selects select Before) (x : Single) (xs : List Single) :
    xs.foldl select x ∈ x :: xs := by
  induction xs generalizing x with
  | nil => exact .head _
  | cons y rest ih =>
    rw [List.foldl_cons]
    rcases List.mem_cons.mp (ih (select x y)) with first | later
    · rw [first]
      rcases selects.eq_or x y with same | same
      · rw [same]
        exact .head _
      · rw [same]
        exact .tail _ (.head _)
    · exact .tail _ (.tail _ later)

theorem Selects.foldl_before (selects : Selects select Before) (number : y.isNaN = false)
    (listed : y ∈ x :: xs) : Before (xs.foldl select x) y := by
  induction xs generalizing x y with
  | nil =>
    rw [List.mem_singleton] at listed
    rw [listed] at number ⊢
    have first := selects.left x x number
    rwa [(selects.eq_or x x).elim id id] at first
  | cons z rest ih =>
    rw [List.foldl_cons]
    -- what is selected of the first two words is a number if one of them is
    have selected (before : Before (select x z) y) : Before (rest.foldl select (select x z)) y :=
      selects.trans _ _ _ (ih (selects.number _ _ before) (.head _)) before
    rcases List.mem_cons.mp listed with rfl | listed
    · exact selected (selects.left y z number)
    rcases List.mem_cons.mp listed with rfl | later
    · exact selected (selects.right x y number)
    · exact ih number (.tail _ later)

end Sightline.Single
