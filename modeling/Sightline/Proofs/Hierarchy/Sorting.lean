import Sightline.Hierarchy.Division
import Sightline.Proofs.Geometry.Box
import Mathlib.Data.List.Perm.Basic

/-!
# Sorting items to the sides of a plane

Sorting takes items from the front and from the back of one list in turn, and still meets each item
once. What it reports of the two sides is exact: the clips and the reach are those of the items.
-/
namespace Sightline.Hierarchy

variable {axis : Axis} {plane : Single}

/-! ### Every item once -/

theorem Sorted.addLeft_perm (axis : Axis) (s : Sorted) {item : Item} {others rest : List Item}
    (taken : (item :: others).Perm rest) :
    ((s.addLeft axis item).left ++ ((s.addLeft axis item).right ++ others)).Perm
      (s.left ++ (s.right ++ rest)) := by
  have moved : (s.left ++ s.right ++ item :: others).Perm (item :: (s.left ++ s.right ++ others)) :=
    List.perm_middle
  simpa [Sorted.addLeft] using moved.symm.trans (taken.append_left (s.left ++ s.right))

theorem Sorted.addRight_perm (axis : Axis) (s : Sorted) {item : Item} {others rest : List Item}
    (taken : (item :: others).Perm rest) :
    ((s.addRight axis item).left ++ ((s.addRight axis item).right ++ others)).Perm
      (s.left ++ (s.right ++ rest)) := by
  have moved : (s.right ++ item :: others).Perm (item :: (s.right ++ others)) := List.perm_middle
  simpa [Sorted.addRight] using (moved.symm.trans (taken.append_left s.right)).append_left s.left

/-- The items that are left to sort stand at the head of the front list and, in reverse, at the head
of the back list. -/
private theorem sortItems_perm (axis : Axis) (plane : Single) (count : Nat) (rest : List Item)
    (fromBack : Bool) (afterFront afterBack : List Item) (s : Sorted)
    (length : rest.length = count) :
    let result := sortItems axis plane count fromBack (rest ++ afterFront)
      (rest.reverse ++ afterBack) s
    (result.left ++ result.right).Perm (s.left ++ (s.right ++ rest)) := by
  -- on the number of items left, since they leave the list at both ends
  induction count generalizing rest fromBack afterFront afterBack s with
  | zero =>
    rw [List.length_eq_zero_iff.mp length]
    simp [sortItems]
  | succ count ih =>
    cases fromBack with
    | false =>
      obtain ⟨item, others, rfl⟩ := List.exists_cons_of_length_eq_add_one length
      have shorter : others.length = count := by simpa using length
      simp only [List.cons_append, List.reverse_cons, List.append_assoc, sortItems]
      split
      · exact (ih others false afterFront ([item] ++ afterBack) _ shorter).trans
          (s.addLeft_perm axis (.refl _))
      · exact (ih others true afterFront ([item] ++ afterBack) _ shorter).trans
          (s.addRight_perm axis (.refl _))
    | true =>
      obtain rfl | ⟨others, item, rfl⟩ := List.eq_nil_or_concat rest
      · simp at length
      have shorter : others.length = count := by simpa using length
      have taken : (item :: others).Perm (others ++ [item]) :=
        (List.perm_append_singleton item others).symm
      simp only [List.concat_eq_append, List.append_assoc, List.reverse_append,
        List.reverse_cons, List.reverse_nil, List.nil_append,
        List.cons_append, sortItems]
      split
      · exact (ih others false (item :: afterFront) afterBack _ shorter).trans
          (s.addLeft_perm axis taken)
      · exact (ih others true (item :: afterFront) afterBack _ shorter).trans
          (s.addRight_perm axis taken)

theorem sortAt_perm (axis : Axis) (plane : Single) (items : List Item) :
    ((sortAt axis plane items).left.reverse ++ (sortAt axis plane items).right).Perm items := by
  have sorted := sortItems_perm axis plane items.length items false [] [] .empty rfl
  simp only [List.append_nil, Sorted.empty, List.nil_append] at sorted
  exact ((List.reverse_perm _).append_right _).trans sorted

/-! ### What is known of the sides -/

/-- Sorting keeps what holds at the start and is kept by each item that goes to its side. -/
theorem sortItems_keeps {P : Sorted → Prop} {Q : Item → Prop}
    (left : ∀ s item, Q item → item.middle axis ≤ plane → P s → P (s.addLeft axis item))
    (right : ∀ s item, Q item → ¬item.middle axis ≤ plane → P s → P (s.addRight axis item))
    (count : Nat) (fromBack : Bool) (front back : List Item) (s : Sorted)
    (fronts : ∀ item ∈ front, Q item) (backs : ∀ item ∈ back, Q item) (initial : P s) :
    P (sortItems axis plane count fromBack front back s) := by
  fun_induction sortItems axis plane count fromBack front back s with
  | case1 => exact initial
  | case2 count item front back s atMost ih =>
    exact ih (fun other member => fronts other (List.mem_cons_of_mem _ member)) backs
      (left s item (fronts item List.mem_cons_self) atMost initial)
  | case3 count item front back s beyond ih =>
    exact ih (fun other member => fronts other (List.mem_cons_of_mem _ member)) backs
      (right s item (fronts item List.mem_cons_self) beyond initial)
  | case4 count front item back s atMost ih =>
    exact ih fronts (fun other member => backs other (List.mem_cons_of_mem _ member))
      (left s item (backs item List.mem_cons_self) atMost initial)
  | case5 count front item back s beyond ih =>
    exact ih fronts (fun other member => backs other (List.mem_cons_of_mem _ member))
      (right s item (backs item List.mem_cons_self) beyond initial)
  | case6 => exact initial

/-- What holds of items while they are sorted at a plane: each lies with its middle on its side, the
clips bound the sides, all lie between the low and the high end, and each bound is met. -/
structure Sorted.Fits (axis : Axis) (plane : Single) (s : Sorted) : Prop where
  proper : ∀ item, item ∈ s.left ∨ item ∈ s.right → item.box.ProperOn axis
  leftMiddle : ∀ item ∈ s.left, item.middle axis ≤ plane
  rightMiddle : ∀ item ∈ s.right, ¬item.middle axis ≤ plane
  leftEnds : ∀ item ∈ s.left, item.box.hi.get axis ≤ s.clipLeft
  rightBegins : ∀ item ∈ s.right, s.clipRight ≤ item.box.lo.get axis
  begins : ∀ item, item ∈ s.left ∨ item ∈ s.right → s.low ≤ item.box.lo.get axis
  ends : ∀ item, item ∈ s.left ∨ item ∈ s.right → item.box.hi.get axis ≤ s.high
  leftMet : (s.left = [] ∧ s.clipLeft = .negativeInfinity) ∨
    ∃ item ∈ s.left, item.box.hi.get axis = s.clipLeft
  rightMet : (s.right = [] ∧ s.clipRight = .infinity) ∨
    ∃ item ∈ s.right, item.box.lo.get axis = s.clipRight
  lowMet : s.low = .infinity ∨
    ∃ item, (item ∈ s.left ∨ item ∈ s.right) ∧ item.box.lo.get axis = s.low
  highMet : s.high = .negativeInfinity ∨
    ∃ item, (item ∈ s.left ∨ item ∈ s.right) ∧ item.box.hi.get axis = s.high

namespace Sorted.Fits

theorem empty (axis : Axis) (plane : Single) : Sorted.empty.Fits axis plane := by
  constructor <;> simp [Sorted.empty]

variable {s : Sorted} {item : Item}

theorem isNaN_clipLeft (fits : s.Fits axis plane) : s.clipLeft.isNaN = false := by
  rcases fits.leftMet with ⟨-, same⟩ | ⟨item, member, same⟩
  · rw [same]
    rfl
  · rw [← same]
    exact Single.isNaN_of_isFinite (fits.proper item (.inl member)).finiteHi

theorem isNaN_clipRight (fits : s.Fits axis plane) : s.clipRight.isNaN = false := by
  rcases fits.rightMet with ⟨-, same⟩ | ⟨item, member, same⟩
  · rw [same]
    rfl
  · rw [← same]
    exact Single.isNaN_of_isFinite (fits.proper item (.inr member)).finiteLo

theorem isNaN_low (fits : s.Fits axis plane) : s.low.isNaN = false := by
  rcases fits.lowMet with same | ⟨item, member, same⟩
  · rw [same]
    rfl
  · rw [← same]
    exact Single.isNaN_of_isFinite (fits.proper item member).finiteLo

theorem isNaN_high (fits : s.Fits axis plane) : s.high.isNaN = false := by
  rcases fits.highMet with same | ⟨item, member, same⟩
  · rw [same]
    rfl
  · rw [← same]
    exact Single.isNaN_of_isFinite (fits.proper item member).finiteHi

/-! One more item moves the ends alike whichever side it goes to. -/

private theorem begins_step (fits : s.Fits axis plane) (proper : item.box.ProperOn axis)
    {other : Item} (member : other = item ∨ other ∈ s.left ∨ other ∈ s.right) :
    min s.low (item.box.lo.get axis) ≤ other.box.lo.get axis := by
  rcases member with rfl | old
  · exact Single.min_le_right (Single.isNaN_of_isFinite proper.finiteLo)
  · exact Single.le_trans (Single.min_le_left fits.isNaN_low) (fits.begins other old)

private theorem ends_step (fits : s.Fits axis plane) (proper : item.box.ProperOn axis)
    {other : Item} (member : other = item ∨ other ∈ s.left ∨ other ∈ s.right) :
    other.box.hi.get axis ≤ max s.high (item.box.hi.get axis) := by
  rcases member with rfl | old
  · exact Single.le_max_right (Single.isNaN_of_isFinite proper.finiteHi)
  · exact Single.le_trans (fits.ends other old) (Single.le_max_left fits.isNaN_high)

private theorem lowMet_step (fits : s.Fits axis plane) (item : Item) :
    min s.low (item.box.lo.get axis) = .infinity ∨
      ∃ other, (other = item ∨ other ∈ s.left ∨ other ∈ s.right) ∧
        other.box.lo.get axis = min s.low (item.box.lo.get axis) := by
  rcases Single.min_eq_or s.low (item.box.lo.get axis) with same | same
  · rw [same]
    exact fits.lowMet.imp_right fun ⟨other, member, met⟩ => ⟨other, .inr member, met⟩
  · exact .inr ⟨item, .inl rfl, same.symm⟩

private theorem highMet_step (fits : s.Fits axis plane) (item : Item) :
    max s.high (item.box.hi.get axis) = .negativeInfinity ∨
      ∃ other, (other = item ∨ other ∈ s.left ∨ other ∈ s.right) ∧
        other.box.hi.get axis = max s.high (item.box.hi.get axis) := by
  rcases Single.max_eq_or s.high (item.box.hi.get axis) with same | same
  · rw [same]
    exact fits.highMet.imp_right fun ⟨other, member, met⟩ => ⟨other, .inr member, met⟩
  · exact .inr ⟨item, .inl rfl, same.symm⟩

private theorem mem_addLeft {other : Item} :
    (other ∈ (s.addLeft axis item).left ∨ other ∈ (s.addLeft axis item).right) ↔
      (other = item ∨ other ∈ s.left ∨ other ∈ s.right) := by
  simp [Sorted.addLeft, or_assoc]

private theorem mem_addRight {other : Item} :
    (other ∈ (s.addRight axis item).left ∨ other ∈ (s.addRight axis item).right) ↔
      (other = item ∨ other ∈ s.left ∨ other ∈ s.right) := by
  simp [Sorted.addRight, or_left_comm]

theorem addLeft (fits : s.Fits axis plane) (proper : item.box.ProperOn axis)
    (atMost : item.middle axis ≤ plane) : (s.addLeft axis item).Fits axis plane where
  proper other member := by
    rcases mem_addLeft.mp member with rfl | old
    · exact proper
    · exact fits.proper other old
  leftMiddle other member := by
    rcases List.mem_cons.mp member with rfl | old
    · exact atMost
    · exact fits.leftMiddle other old
  rightMiddle := fits.rightMiddle
  leftEnds other member := by
    have raised := Single.le_raise fits.isNaN_clipLeft (Single.isNaN_of_isFinite proper.finiteHi)
    rcases List.mem_cons.mp member with rfl | old
    · exact raised.2
    · exact Single.le_trans (fits.leftEnds other old) raised.1
  rightBegins := fits.rightBegins
  begins other member := fits.begins_step proper (mem_addLeft.mp member)
  ends other member := fits.ends_step proper (mem_addLeft.mp member)
  leftMet := by
    right
    change ∃ other ∈ item :: s.left, _ = if s.clipLeft < item.box.hi.get axis then _ else _
    split
    · exact ⟨item, List.mem_cons_self, rfl⟩
    next reached =>
      -- a finite face is above the clip of an empty side, so the side had items before
      rcases fits.leftMet with ⟨-, none⟩ | ⟨other, member, met⟩
      · have above := Single.isFinite_iff.mp proper.finiteHi
        refine absurd ⟨none ▸ rfl, Single.isNaN_of_isFinite proper.finiteHi, ?_⟩ reached
        rw [none, Single.rank_negativeInfinity]
        omega
      · exact ⟨other, List.mem_cons_of_mem _ member, met⟩
  rightMet := fits.rightMet
  lowMet := by
    simp only [mem_addLeft]
    exact fits.lowMet_step item
  highMet := by
    simp only [mem_addLeft]
    exact fits.highMet_step item

theorem addRight (fits : s.Fits axis plane) (proper : item.box.ProperOn axis)
    (beyond : ¬item.middle axis ≤ plane) : (s.addRight axis item).Fits axis plane where
  proper other member := by
    rcases mem_addRight.mp member with rfl | old
    · exact proper
    · exact fits.proper other old
  leftMiddle := fits.leftMiddle
  rightMiddle other member := by
    rcases List.mem_cons.mp member with rfl | old
    · exact beyond
    · exact fits.rightMiddle other old
  leftEnds := fits.leftEnds
  rightBegins other member := by
    have lowered := Single.lower_le fits.isNaN_clipRight (Single.isNaN_of_isFinite proper.finiteLo)
    rcases List.mem_cons.mp member with rfl | old
    · exact lowered.2
    · exact Single.le_trans lowered.1 (fits.rightBegins other old)
  begins other member := fits.begins_step proper (mem_addRight.mp member)
  ends other member := fits.ends_step proper (mem_addRight.mp member)
  leftMet := fits.leftMet
  rightMet := by
    right
    change ∃ other ∈ item :: s.right, _ = if item.box.lo.get axis < s.clipRight then _ else _
    split
    · exact ⟨item, List.mem_cons_self, rfl⟩
    next reached =>
      rcases fits.rightMet with ⟨-, none⟩ | ⟨other, member, met⟩
      · have below := Single.isFinite_iff.mp proper.finiteLo
        refine absurd ⟨Single.isNaN_of_isFinite proper.finiteLo, none ▸ rfl, ?_⟩ reached
        rw [none, Single.rank_infinity]
        omega
      · exact ⟨other, List.mem_cons_of_mem _ member, met⟩
  lowMet := by
    simp only [mem_addRight]
    exact fits.lowMet_step item
  highMet := by
    simp only [mem_addRight]
    exact fits.highMet_step item

theorem isFinite_clipLeft (fits : s.Fits axis plane) (filled : s.left ≠ []) :
    s.clipLeft.isFinite = true := by
  rcases fits.leftMet with ⟨none, -⟩ | ⟨item, member, same⟩
  · exact absurd none filled
  · rw [← same]
    exact (fits.proper item (.inl member)).finiteHi

theorem isFinite_clipRight (fits : s.Fits axis plane) (filled : s.right ≠ []) :
    s.clipRight.isFinite = true := by
  rcases fits.rightMet with ⟨none, -⟩ | ⟨item, member, same⟩
  · exact absurd none filled
  · rw [← same]
    exact (fits.proper item (.inr member)).finiteLo

/-- The low end is finite as soon as there is an item. -/
theorem isFinite_low (fits : s.Fits axis plane) (member : item ∈ s.left ∨ item ∈ s.right) :
    s.low.isFinite = true := by
  rcases fits.lowMet with same | ⟨other, otherMember, same⟩
  · have atMost := (fits.begins item member).2.2
    have bound := Single.isFinite_iff.mp (fits.proper item member).finiteLo
    rw [same, Single.rank_infinity] at atMost
    omega
  · rw [← same]
    exact (fits.proper other otherMember).finiteLo

theorem isFinite_high (fits : s.Fits axis plane) (member : item ∈ s.left ∨ item ∈ s.right) :
    s.high.isFinite = true := by
  rcases fits.highMet with same | ⟨other, otherMember, same⟩
  · have atLeast := (fits.ends item member).2.2
    have bound := Single.isFinite_iff.mp (fits.proper item member).finiteHi
    rw [same, Single.rank_negativeInfinity] at atLeast
    omega
  · rw [← same]
    exact (fits.proper other otherMember).finiteHi

end Sorted.Fits

theorem sortAt_fits (plane : Single) {items : List Item}
    (proper : ∀ item ∈ items, item.box.ProperOn axis) :
    (sortAt axis plane items).Fits axis plane :=
  sortItems_keeps (fun _ _ known atMost fits => fits.addLeft known atMost)
    (fun _ _ known beyond fits => fits.addRight known beyond) items.length false items items.reverse
    .empty proper (fun item member => proper item (List.mem_reverse.mp member))
    (Sorted.Fits.empty axis plane)

end Sightline.Hierarchy
