import Sightline.Proofs.Hierarchy.Sorting

/-!
# Dividing a group of items

A division is a loop of trials. A trial either settles the division or cuts the grid down to one side
of its plane and is followed by another one. What a division reports is then shown trial by trial: it
keeps every item, and every clip in it bounds the items it is about.
-/
namespace Sightline.Hierarchy

/-! ### Trials -/

abbrev cutAxis (grid : Box) : Axis := grid.extent.primaryAxis

abbrev cutPlane (grid : Box) : Single :=
  0.5 * (grid.lo.get (cutAxis grid) + grid.hi.get (cutAxis grid))

inductive Trial where
  | done (division : Division)
  | again (attempt : Attempt) (items : List Item) (grid : Box)

/-- One trial to divide items, on a grid that is in order. -/
def trial (space : Box) (earlier : Option Attempt) (items : List Item) (grid : Box) : Trial :=
  let axis := cutAxis grid
  let plane := cutPlane grid
  let s := sortAt axis plane items
  let left := s.left.reverse
  if s.MuchNarrower space axis then .done (.narrow axis s.low s.high (left ++ s.right) grid)
  else if s.right.isEmpty then
    if Repeats earlier axis plane then .done (.leaf left)
    else .again ⟨axis, plane, if s.clipLeft ≤ plane then some (.below, s.clipLeft) else none⟩ left
      (grid.setHi axis plane)
  else if left.isEmpty then
    if Repeats earlier axis plane then .done (.leaf s.right)
    else .again ⟨axis, plane, if plane ≤ s.clipRight then some (.above, s.clipRight) else none⟩
      s.right (grid.setLo axis plane)
  else .done (.split axis plane s grid (earlier.bind fun attempt =>
    attempt.hole.map fun (side, clip) => (attempt.axis, side, clip)))

theorem divide_succ (space : Box) (attempts : Nat) (earlier : Option Attempt) (items : List Item)
    (grid : Box) :
    divide space (attempts + 1) earlier items grid =
      (checkGrid space grid).bind fun _ =>
        match trial space earlier items grid with
        | .done division => .ok division
        | .again attempt items grid => divide space attempts (some attempt) items grid := by
  rw [divide]
  cases checkGrid space grid with
  | error failure => rfl
  | ok =>
    simp only [bind, Except.bind, pure, Except.pure, trial]
    split
    · rfl
    · split
      · split <;> rfl
      · split
        · split <;> rfl
        · rfl

/-- What a trial can come to, with the items sorted to both sides of its plane. -/
inductive Tried (space : Box) (earlier : Option Attempt) (grid : Box) (s : Sorted) : Trial → Prop
  | narrow : s.MuchNarrower space (cutAxis grid) →
      Tried space earlier grid s
        (.done (.narrow (cutAxis grid) s.low s.high (s.left.reverse ++ s.right) grid))
  | leafLeft : s.right = [] → Repeats earlier (cutAxis grid) (cutPlane grid) →
      Tried space earlier grid s (.done (.leaf s.left.reverse))
  | againLeft : s.right = [] → ¬Repeats earlier (cutAxis grid) (cutPlane grid) →
      Tried space earlier grid s
        (.again ⟨cutAxis grid, cutPlane grid,
            if s.clipLeft ≤ cutPlane grid then some (.below, s.clipLeft) else none⟩
          s.left.reverse (grid.setHi (cutAxis grid) (cutPlane grid)))
  | leafRight : s.left = [] → s.right ≠ [] → Repeats earlier (cutAxis grid) (cutPlane grid) →
      Tried space earlier grid s (.done (.leaf s.right))
  | againRight : s.left = [] → s.right ≠ [] → ¬Repeats earlier (cutAxis grid) (cutPlane grid) →
      Tried space earlier grid s
        (.again ⟨cutAxis grid, cutPlane grid,
            if cutPlane grid ≤ s.clipRight then some (.above, s.clipRight) else none⟩
          s.right (grid.setLo (cutAxis grid) (cutPlane grid)))
  | split : s.left ≠ [] → s.right ≠ [] →
      Tried space earlier grid s
        (.done (.split (cutAxis grid) (cutPlane grid) s grid (earlier.bind fun attempt =>
          attempt.hole.map fun (side, clip) => (attempt.axis, side, clip))))

theorem trial_tried (space : Box) (earlier : Option Attempt) (items : List Item) (grid : Box) :
    Tried space earlier grid (sortAt (cutAxis grid) (cutPlane grid) items)
      (trial space earlier items grid) := by
  simp only [trial, List.isEmpty_iff, List.reverse_eq_nil_iff]
  split
  next narrower => exact .narrow narrower
  · split
    next noRight =>
      split
      next repeats => exact .leafLeft noRight repeats
      next fresh => exact .againLeft noRight fresh
    next someRight =>
      split
      next noLeft =>
        split
        next repeats => exact .leafRight noLeft someRight repeats
        next fresh => exact .againRight noLeft someRight fresh
      next someLeft => exact .split someLeft someRight

/-! ### What a division keeps -/

/-- A box lies on its side of a clip plane. -/
def Side.Keeps (axis : Axis) (clip : Single) (box : Box) : Side → Prop
  | .below => box.hi.get axis ≤ clip
  | .above => clip ≤ box.lo.get axis

/-- What an attempt reports as the end of the contents is one. -/
def Attempt.Sound (items : List Item) (attempt : Attempt) : Prop :=
  ∀ side clip, attempt.hole = some (side, clip) →
    clip.isFinite = true ∧ ∀ item ∈ items, side.Keeps attempt.axis clip item.box

/-- A division holds the items it was made of, and all of its planes bound them. -/
def Division.Sound (items : List Item) : Division → Prop
  | .leaf result => result.Perm items
  | .narrow axis low high result _ =>
    result.Perm items ∧ low.isFinite = true ∧ high.isFinite = true ∧
      ∀ item ∈ items, low ≤ item.box.lo.get axis ∧ item.box.hi.get axis ≤ high
  | .split axis plane s _ hole =>
    (s.left.reverse ++ s.right).Perm items ∧ s.left ≠ [] ∧ s.right ≠ [] ∧ s.Fits axis plane ∧
      ∀ holeAxis side clip, hole = some (holeAxis, side, clip) →
        clip.isFinite = true ∧ ∀ item ∈ items, side.Keeps holeAxis clip item.box

/-- A trial that has to be repeated goes on with the same items. -/
def Trial.Sound (items : List Item) : Trial → Prop
  | .done division => division.Sound items
  | .again attempt rest _ => rest.Perm items ∧ attempt.Sound rest

variable {space grid : Box} {earlier : Option Attempt} {items : List Item}

theorem Division.Sound.perm {division : Division} {others : List Item}
    (sound : division.Sound items) (same : items.Perm others) : division.Sound others := by
  cases division with
  | leaf result => exact List.Perm.trans sound same
  | narrow axis low high result grid =>
    obtain ⟨perm, finiteLow, finiteHigh, bounds⟩ := sound
    exact ⟨perm.trans same, finiteLow, finiteHigh,
      fun item member => bounds item (same.mem_iff.mpr member)⟩
  | split axis plane s grid hole =>
    obtain ⟨perm, leftFilled, rightFilled, fits, holes⟩ := sound
    refine ⟨perm.trans same, leftFilled, rightFilled, fits, fun holeAxis side clip found => ?_⟩
    obtain ⟨finite, keeps⟩ := holes holeAxis side clip found
    exact ⟨finite, fun item member => keeps item (same.mem_iff.mpr member)⟩

theorem trial_sound (space grid : Box) (filled : items ≠ [])
    (proper : ∀ item ∈ items, item.box.Proper) (known : ∀ attempt ∈ earlier, attempt.Sound items) :
    (trial space earlier items grid).Sound items := by
  have fits : (sortAt (cutAxis grid) (cutPlane grid) items).Fits (cutAxis grid) (cutPlane grid) :=
    sortAt_fits (cutPlane grid) fun item member => proper item member (cutAxis grid)
  have perm := sortAt_perm (cutAxis grid) (cutPlane grid) items
  have tried := trial_tried space earlier items grid
  generalize trial space earlier items grid = result at tried ⊢
  generalize sortAt (cutAxis grid) (cutPlane grid) items = s at fits perm tried
  cases tried with
  | narrow =>
    have sides (item : Item) (member : item ∈ items) : item ∈ s.left ∨ item ∈ s.right := by
      simpa using perm.mem_iff.mpr member
    obtain ⟨item, member⟩ := List.exists_mem_of_ne_nil items filled
    refine ⟨perm, fits.isFinite_low (sides item member), fits.isFinite_high (sides item member),
      fun other otherMember => ?_⟩
    exact ⟨fits.begins other (sides other otherMember), fits.ends other (sides other otherMember)⟩
  | leafLeft noRight =>
    rw [noRight, List.append_nil] at perm
    exact perm
  | againLeft noRight =>
    rw [noRight, List.append_nil] at perm
    refine ⟨perm, fun side clip hole => ?_⟩
    have someLeft : s.left ≠ [] := by
      intro noLeft
      rw [noLeft] at perm
      exact filled perm.nil_eq.symm
    simp only [Option.ite_none_right_eq_some, Option.some.injEq, Prod.mk.injEq] at hole
    obtain ⟨-, rfl, rfl⟩ := hole
    exact ⟨fits.isFinite_clipLeft someLeft,
      fun item member => fits.leftEnds item (List.mem_reverse.mp member)⟩
  | leafRight noLeft =>
    rw [noLeft, List.reverse_nil, List.nil_append] at perm
    exact perm
  | againRight noLeft someRight =>
    rw [noLeft, List.reverse_nil, List.nil_append] at perm
    refine ⟨perm, fun side clip hole => ?_⟩
    simp only [Option.ite_none_right_eq_some, Option.some.injEq, Prod.mk.injEq] at hole
    obtain ⟨-, rfl, rfl⟩ := hole
    exact ⟨fits.isFinite_clipRight someRight, fits.rightBegins⟩
  | split someLeft someRight =>
    refine ⟨perm, someLeft, someRight, fits, fun holeAxis side clip hole => ?_⟩
    -- the hole is the one that the attempt before reported
    simp only [Option.bind_eq_some_iff, Option.map_eq_some_iff, Prod.exists, Prod.mk.injEq] at hole
    obtain ⟨attempt, made, side, clip, found, rfl, rfl, rfl⟩ := hole
    exact known attempt made side clip found

theorem divide_sound {attempts : Nat} {division : Division}
    (returned : divide space attempts earlier items grid = .ok division) (filled : items ≠ [])
    (proper : ∀ item ∈ items, item.box.Proper) (known : ∀ attempt ∈ earlier, attempt.Sound items) :
    division.Sound items := by
  induction attempts generalizing earlier items grid with
  | zero => cases returned
  | succ attempts ih =>
    rw [divide_succ] at returned
    cases checked : checkGrid space grid with
    | error failure =>
      rw [checked] at returned
      cases returned
    | ok =>
      rw [checked] at returned
      have sound := trial_sound space grid filled proper known
      cases tried : trial space earlier items grid with
      | done found =>
        rw [tried] at returned sound
        cases returned
        exact sound
      | again attempt rest cut =>
        rw [tried] at returned sound
        obtain ⟨perm, attemptSound⟩ := sound
        -- the next trial is about the same items in another order
        have restFilled : rest ≠ [] := by
          rintro rfl
          exact filled perm.nil_eq.symm
        have restSound := ih returned restFilled
          (fun item member => proper item (perm.mem_iff.mp member))
          (by simpa using attemptSound)
        exact restSound.perm perm

end Sightline.Hierarchy
