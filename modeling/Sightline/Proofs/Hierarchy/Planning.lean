import Sightline.Hierarchy.Build
import Sightline.Proofs.Hierarchy.Dividing
import Sightline.Proofs.Outcome

/-!
# Planning a hierarchy

A plan made for a group of items holds each of them once, its clips bound what lies below them, and
it is not deeper than `deepest` allows.
-/
namespace Sightline.Hierarchy

namespace Plan

/-- Every clip of the plan is finite and bounds the boxes of all objects on its side. -/
def Respects (box : Nat → Box) : Plan → Prop
  | leaf _ => True
  | split axis clipLeft clipRight left right =>
    (clipLeft.isFinite = true ∧ ∀ object ∈ left.objects, Side.Keeps axis clipLeft (box object) .below) ∧
    (clipRight.isFinite = true ∧
      ∀ object ∈ right.objects, Side.Keeps axis clipRight (box object) .above) ∧
    left.Respects box ∧ right.Respects box
  | narrow axis low high inner =>
    (low.isFinite = true ∧ ∀ object ∈ inner.objects, Side.Keeps axis low (box object) .above) ∧
    (high.isFinite = true ∧ ∀ object ∈ inner.objects, Side.Keeps axis high (box object) .below) ∧
    inner.Respects box
  | oneSided axis side clip inner =>
    (clip.isFinite = true ∧ ∀ object ∈ inner.objects, side.Keeps axis clip (box object)) ∧
    inner.Respects box

/-- The most inner nodes on a way from the top node to a leaf. -/
def height : Plan → Nat
  | leaf _ => 0
  | split _ _ _ left right => max left.height right.height + 1
  | narrow _ _ _ inner => inner.height + 1
  | oneSided _ _ _ inner => inner.height + 1

/-- What stands behind a one-sided node is divided further. -/
def Solid : Plan → Prop
  | leaf _ => True
  | split _ _ _ left right => left.Solid ∧ right.Solid
  | narrow _ _ _ inner => inner.Solid
  | oneSided _ _ _ inner => inner.sizeBelow ≠ 0 ∧ inner.Solid

/-- What planning at some depth makes of the boxes of numbered objects. -/
structure Made (box : Nat → Box) (depth : Nat) (objects : List Nat) (plan : Plan) : Prop where
  perm : plan.objects.Perm objects
  respects : plan.Respects box
  solid : plan.Solid
  height_le : plan.height ≤ deepest + 1 - depth

namespace Made

variable {box : Nat → Box} {depth : Nat} {objects others : List Nat} {axis : Axis}

theorem leaf (box : Nat → Box) (depth : Nat) (perm : objects.Perm others) :
    (Plan.leaf objects).Made box depth others :=
  ⟨perm, trivial, trivial, Nat.zero_le _⟩

theorem trans {plan : Plan} (made : plan.Made box depth objects) (perm : objects.Perm others) :
    plan.Made box depth others :=
  ⟨made.perm.trans perm, made.respects, made.solid, made.height_le⟩

theorem keeps {plan : Plan} {side : Side} {clip : Single} (made : plan.Made box depth objects)
    (known : ∀ object ∈ objects, side.Keeps axis clip (box object)) :
    ∀ object ∈ plan.objects, side.Keeps axis clip (box object) :=
  fun object member => known object (made.perm.mem_iff.mp member)

theorem narrow {inner : Plan} {low high : Single} (made : inner.Made box (depth + 1) objects)
    (shallow : depth ≤ deepest) (finiteLow : low.isFinite = true) (finiteHigh : high.isFinite = true)
    (begins : ∀ object ∈ objects, Side.Keeps axis low (box object) .above)
    (ends : ∀ object ∈ objects, Side.Keeps axis high (box object) .below) :
    (Plan.narrow axis low high inner).Made box depth objects := by
  refine ⟨made.perm, ⟨⟨finiteLow, made.keeps begins⟩, ⟨finiteHigh, made.keeps ends⟩,
    made.respects⟩, made.solid, ?_⟩
  have below := made.height_le
  simp only [height] at below ⊢
  omega

theorem oneSided {inner : Plan} {side : Side} {clip : Single}
    (made : inner.Made box (depth + 1) objects) (divided : inner.sizeBelow ≠ 0)
    (shallow : depth ≤ deepest) (finite : clip.isFinite = true)
    (keeps : ∀ object ∈ objects, side.Keeps axis clip (box object)) :
    (Plan.oneSided axis side clip inner).Made box depth objects := by
  refine ⟨made.perm, ⟨⟨finite, made.keeps keeps⟩, made.respects⟩, ⟨divided, made.solid⟩, ?_⟩
  have below := made.height_le
  simp only [height] at below ⊢
  omega

theorem split {left right : Plan} {clipLeft clipRight : Single}
    (madeLeft : left.Made box (depth + 1) objects) (madeRight : right.Made box (depth + 1) others)
    (shallow : depth ≤ deepest) (finiteLeft : clipLeft.isFinite = true)
    (finiteRight : clipRight.isFinite = true)
    (ends : ∀ object ∈ objects, Side.Keeps axis clipLeft (box object) .below)
    (begins : ∀ object ∈ others, Side.Keeps axis clipRight (box object) .above) :
    (Plan.split axis clipLeft clipRight left right).Made box depth (objects ++ others) := by
  refine ⟨madeLeft.perm.append madeRight.perm, ⟨⟨finiteLeft, madeLeft.keeps ends⟩,
    ⟨finiteRight, madeRight.keeps begins⟩, madeLeft.respects, madeRight.respects⟩,
    ⟨madeLeft.solid, madeRight.solid⟩, ?_⟩
  have belowLeft := madeLeft.height_le
  have belowRight := madeRight.height_le
  simp only [height] at belowLeft belowRight ⊢
  omega

end Made

end Plan

/-- Items carry the boxes of their objects. -/
def Carries (box : Nat → Box) (items : List Item) : Prop :=
  ∀ item ∈ items, item.box = box item.object

theorem Carries.keeps {box : Nat → Box} {items : List Item} (carries : Carries box items)
    {side : Side} {axis : Axis} {clip : Single}
    (known : ∀ item ∈ items, side.Keeps axis clip item.box) :
    ∀ object ∈ items.map Item.object, side.Keeps axis clip (box object) := by
  intro object found
  obtain ⟨item, member, rfl⟩ := List.mem_map.mp found
  rw [← carries item member]
  exact known item member

theorem Carries.of_subset {box : Nat → Box} {items part : List Item} (carries : Carries box items)
    (subset : ∀ item ∈ part, item ∈ items) : Carries box part :=
  fun item member => carries item (subset item member)

namespace Division.Sound

variable {box : Nat → Box} {items result : List Item} {cut : Box} {axis : Axis} {depth : Nat}

theorem narrow_made {low high : Single} {inner : Plan}
    (sound : (Division.narrow axis low high result cut).Sound items) (carries : Carries box items)
    (shallow : depth ≤ deepest) (made : inner.Made box (depth + 1) (result.map Item.object)) :
    (Plan.narrow axis low high inner).Made box depth (items.map Item.object) := by
  obtain ⟨perm, finiteLow, finiteHigh, bounds⟩ := sound
  have begins : ∀ item ∈ items, Side.Keeps axis low item.box .above :=
    fun item member => (bounds item member).1
  have ends : ∀ item ∈ items, Side.Keeps axis high item.box .below :=
    fun item member => (bounds item member).2
  exact (made.trans (perm.map _)).narrow shallow finiteLow finiteHigh (carries.keeps begins)
    (carries.keeps ends)

variable {plane : Single} {s : Sorted} {hole : Option (Axis × Side × Single)}

theorem mem_of_left (sound : (Division.split axis plane s cut hole).Sound items) :
    ∀ item ∈ s.left.reverse, item ∈ items :=
  fun _ member => sound.1.mem_iff.mp (List.mem_append_left _ member)

theorem mem_of_right (sound : (Division.split axis plane s cut hole).Sound items) :
    ∀ item ∈ s.right, item ∈ items :=
  fun _ member => sound.1.mem_iff.mp (List.mem_append_right _ member)

theorem split_made {left right : Plan} (sound : (Division.split axis plane s cut hole).Sound items)
    (carries : Carries box items) (shallow : depth ≤ deepest)
    (madeLeft : left.Made box (depth + 1) (s.left.reverse.map Item.object))
    (madeRight : right.Made box (depth + 1) (s.right.map Item.object)) :
    (Plan.split axis s.clipLeft s.clipRight left right).Made box depth (items.map Item.object) := by
  have carriesLeft := carries.of_subset sound.mem_of_left
  have carriesRight := carries.of_subset sound.mem_of_right
  obtain ⟨perm, leftFilled, rightFilled, fits, -⟩ := sound
  have ends : ∀ item ∈ s.left.reverse, Side.Keeps axis s.clipLeft item.box .below :=
    fun item member => fits.leftEnds item (List.mem_reverse.mp member)
  have made := madeLeft.split madeRight shallow (fits.isFinite_clipLeft leftFilled)
    (fits.isFinite_clipRight rightFilled) (carriesLeft.keeps ends)
    (carriesRight.keeps fits.rightBegins)
  rw [← List.map_append] at made
  exact made.trans (perm.map _)

end Division.Sound

/-! ### What is planned -/

/-- What a group can be planned as, with the plans of its parts. -/
inductive Planned (leafSize levels depth : Nat) (items : List Item) (grid space : Box) : Plan → Prop
  | few : items.length ≤ leafSize ∨ deepest ≤ depth →
      Planned leafSize levels depth items grid space (.leaf (items.map Item.object))
  | leaf {result} : items ≠ [] → depth < deepest →
      divide space (attemptLimit grid) none items grid = .ok (.leaf result) →
      Planned leafSize levels depth items grid space (.leaf (result.map Item.object))
  | narrow {axis low high result cut inner} : items ≠ [] → depth < deepest →
      divide space (attemptLimit grid) none items grid = .ok (.narrow axis low high result cut) →
      planItems leafSize levels (depth + 1) result cut
        ((space.setLo axis low).setHi axis high) = .ok inner →
      Planned leafSize levels depth items grid space (.narrow axis low high inner)
  | split {axis plane s cut left right} : items ≠ [] → depth < deepest →
      divide space (attemptLimit grid) none items grid = .ok (.split axis plane s cut none) →
      planItems leafSize levels (depth + 1) s.left.reverse (cut.setHi axis plane)
        (space.setHi axis s.clipLeft) = .ok left →
      planItems leafSize levels (depth + 1) s.right (cut.setLo axis plane)
        (space.setLo axis s.clipRight) = .ok right →
      Planned leafSize levels depth items grid space
        (.split axis s.clipLeft s.clipRight left right)
  /-- The split stands one level lower, behind the hole of an earlier attempt. -/
  | oneSided {axis plane s cut holeAxis side clip left right} : items ≠ [] → depth < deepest →
      divide space (attemptLimit grid) none items grid =
        .ok (.split axis plane s cut (some (holeAxis, side, clip))) →
      planItems leafSize levels (depth + 2) s.left.reverse (cut.setHi axis plane)
        (space.setHi axis s.clipLeft) = .ok left →
      planItems leafSize levels (depth + 2) s.right (cut.setLo axis plane)
        (space.setLo axis s.clipRight) = .ok right →
      Planned leafSize levels depth items grid space
        (.oneSided holeAxis side clip (.split axis s.clipLeft s.clipRight left right))

theorem planItems_planned {leafSize levels depth : Nat} {items : List Item} {grid space : Box}
    {plan : Plan} (returned : planItems leafSize (levels + 1) depth items grid space = .ok plan) :
    Planned leafSize levels depth items grid space plan := by
  rw [planItems] at returned
  split at returned
  next small =>
    cases returned
    exact .few small
  next large =>
    have filled : items ≠ [] := by
      rintro rfl
      exact large (.inl (Nat.zero_le _))
    have shallow : depth < deepest := by omega
    obtain ⟨division, divided, returned⟩ := bind_eq_ok.mp returned
    cases division with
    | leaf result =>
      cases returned
      exact .leaf filled shallow divided
    | narrow axis low high result cut =>
      obtain ⟨inner, planned, returned⟩ := bind_eq_ok.mp returned
      cases returned
      exact .narrow filled shallow divided planned
    | split axis plane s cut hole =>
      obtain ⟨left, plannedLeft, returned⟩ := bind_eq_ok.mp returned
      obtain ⟨right, plannedRight, returned⟩ := bind_eq_ok.mp returned
      cases hole with
      | none =>
        cases returned
        exact .split filled shallow divided plannedLeft plannedRight
      | some found =>
        cases returned
        exact .oneSided filled shallow divided plannedLeft plannedRight

theorem planItems_made {leafSize levels depth : Nat} {items : List Item} {grid space : Box}
    {plan : Plan} {box : Nat → Box}
    (returned : planItems leafSize levels depth items grid space = .ok plan)
    (proper : ∀ item ∈ items, item.box.Proper) (carries : Carries box items) :
    plan.Made box depth (items.map Item.object) := by
  induction levels generalizing depth items grid space plan with
  | zero =>
    cases returned
    exact .leaf box depth (.refl _)
  | succ levels ih =>
    cases planItems_planned returned with
    | few => exact .leaf box depth (.refl _)
    | leaf filled _ divided =>
      have sound := divide_sound divided filled proper (by simp)
      exact .leaf box depth (List.Perm.map _ sound)
    | narrow filled shallow divided planned =>
      have sound := divide_sound divided filled proper (by simp)
      have subset : ∀ item ∈ _, item ∈ items := fun item => sound.1.mem_iff.mp
      have made := ih planned (fun item member => proper item (subset item member))
        (carries.of_subset subset)
      exact sound.narrow_made carries (Nat.le_of_lt shallow) made
    | split filled shallow divided plannedLeft plannedRight =>
      have sound := divide_sound divided filled proper (by simp)
      have madeLeft := ih plannedLeft
        (fun item member => proper item (sound.mem_of_left item member))
        (carries.of_subset sound.mem_of_left)
      have madeRight := ih plannedRight
        (fun item member => proper item (sound.mem_of_right item member))
        (carries.of_subset sound.mem_of_right)
      exact sound.split_made carries (Nat.le_of_lt shallow) madeLeft madeRight
    | oneSided filled shallow divided plannedLeft plannedRight =>
      have sound := divide_sound divided filled proper (by simp)
      have madeLeft := ih plannedLeft
        (fun item member => proper item (sound.mem_of_left item member))
        (carries.of_subset sound.mem_of_left)
      have madeRight := ih plannedRight
        (fun item member => proper item (sound.mem_of_right item member))
        (carries.of_subset sound.mem_of_right)
      obtain ⟨finite, keeps⟩ := sound.2.2.2.2 _ _ _ rfl
      have made := sound.split_made carries shallow madeLeft madeRight
      refine made.oneSided ?_ (Nat.le_of_lt shallow) finite (carries.keeps keeps)
      simp only [Plan.sizeBelow]
      omega

end Sightline.Hierarchy
