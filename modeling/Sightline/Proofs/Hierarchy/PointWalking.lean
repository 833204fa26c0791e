import Sightline.Hierarchy.PointWalk
import Sightline.Proofs.Hierarchy.Building
import Sightline.Proofs.Hierarchy.Layout
import Sightline.Proofs.Outcome

/-!
# What a walk at a point visits

On a laid out plan the walk with its list of nodes kept for later does what a recursion over the plan
does: the list never gets longer than the plan is high, so no node is lost. The recursion leaves out
only parts whose clips keep their boxes away from the point.
-/
namespace Sightline.Hierarchy

namespace Plan

variable {root plan : Plan} {place : Place} {bounds : Box} {box : Nat → Box} {p : Vec}

/-- The objects of the leaves at a point, left before right. -/
def objectsAt (p : Vec) : Plan → List Nat
  | leaf objects => objects
  | split axis clipLeft clipRight left right =>
    if clipLeft < p.get axis ∧ p.get axis < clipRight then []
    else if clipLeft < p.get axis then right.objectsAt p
    else if p.get axis < clipRight then left.objectsAt p
    else left.objectsAt p ++ right.objectsAt p
  | narrow axis low high inner =>
    if p.get axis < low ∨ high < p.get axis then [] else inner.objectsAt p
  | oneSided axis .below clip inner => if clip < p.get axis then [] else inner.objectsAt p
  | oneSided axis .above clip inner => if p.get axis < clip then [] else inner.objectsAt p

theorem objectsAt_sublist (p : Vec) (plan : Plan) : (plan.objectsAt p).Sublist plan.objects := by
  induction plan with
  | leaf objects => exact .refl _
  | split axis clipLeft clipRight left right ihLeft ihRight =>
    simp only [objectsAt, objects]
    split
    · exact List.nil_sublist _
    · split
      · exact ihRight.trans (List.sublist_append_right _ _)
      · split
        · exact ihLeft.trans (List.sublist_append_left _ _)
        · exact ihLeft.append ihRight
  | narrow axis low high inner ih =>
    simp only [objectsAt, objects]
    split
    · exact List.nil_sublist _
    · exact ih
  | oneSided axis side clip inner ih =>
    cases side
    all_goals
      simp only [objectsAt, objects]
      split
      · exact List.nil_sublist _
      · exact ih

/-- A point in the box of an object is not beyond a clip that bounds the box. -/
theorem not_beyond_of_keeps {b : Box} {axis : Axis} {clip : Single} (inside : b.Contains p) :
    (Side.below.Keeps axis clip b → ¬clip < p.get axis) ∧
      (Side.above.Keeps axis clip b → ¬p.get axis < clip) := by
  have onAxis := Box.contains_iff.mp inside axis
  exact ⟨fun keeps => Single.not_lt_of_le (Single.le_trans onAxis.2 keeps),
    fun keeps => Single.not_lt_of_le (Single.le_trans keeps onAxis.1)⟩

theorem mem_objectsAt (respects : plan.Respects box) {object : Nat} (member : object ∈ plan.objects)
    (inside : (box object).Contains p) : object ∈ plan.objectsAt p := by
  induction plan with
  | leaf objects => exact member
  | split axis clipLeft clipRight left right ihLeft ihRight =>
    obtain ⟨⟨-, ends⟩, ⟨-, begins⟩, respectsLeft, respectsRight⟩ := respects
    simp only [objectsAt]
    rcases List.mem_append.mp member with onLeft | onRight
    · have before := (not_beyond_of_keeps inside).1 (ends object onLeft)
      have found := ihLeft respectsLeft onLeft
      simp only [before, false_and, if_false]
      split
      · exact found
      · exact List.mem_append_left _ found
    · have behind := (not_beyond_of_keeps inside).2 (begins object onRight)
      have found := ihRight respectsRight onRight
      simp only [behind, and_false, if_false]
      split
      · exact found
      · exact List.mem_append_right _ found
  | narrow axis low high inner ih =>
    obtain ⟨⟨-, begins⟩, ⟨-, ends⟩, respectsInner⟩ := respects
    have behind := (not_beyond_of_keeps inside).2 (begins object member)
    have before := (not_beyond_of_keeps inside).1 (ends object member)
    simp only [objectsAt, behind, before, or_self, if_false]
    exact ih respectsInner member
  | oneSided axis side clip inner ih =>
    obtain ⟨⟨-, keeps⟩, respectsInner⟩ := respects
    cases side with
    | below =>
      simp only [objectsAt, (not_beyond_of_keeps inside).1 (keeps object member), if_false]
      exact ih respectsInner member
    | above =>
      simp only [objectsAt, (not_beyond_of_keeps inside).2 (keeps object member), if_false]
      exact ih respectsInner member

end Plan

section

variable {σ : Type} {h : Hierarchy} {p : Vec} {visit : PointVisitor σ} {walk : PointWalk σ}

theorem runPoint_next {next : PointWalk σ} (steps : Nat)
    (step : h.pointStep p visit walk = .ok (.inl next)) :
    h.runPoint p visit (steps + 1) walk = h.runPoint p visit steps next := by
  rw [runPoint, step]
  rfl

theorem runPoint_return {index : Nat} {later : List Nat} {memo : σ} (steps : Nat) :
    h.runPoint p visit (steps + 1) ⟨none, index :: later, memo⟩ =
      h.runPoint p visit steps ⟨some index, later, memo⟩ :=
  runPoint_next steps rfl

theorem visitEach_append (first second : List Nat) (memo : σ) :
    visitEach visit (first ++ second) memo =
      (visitEach visit first memo).bind (visitEach visit second) := by
  induction first generalizing memo with
  | nil => rfl
  | cons object rest ih =>
    simp only [List.cons_append, visitEach, bind, Except.bind]
    cases visit object memo with
    | error failure => rfl
    | ok memo => exact ih memo

end

namespace Plan

section

theorem Within.leafObjects {root : Plan} {place : Place} {bounds : Box} {objects : List Nat}
    (within : root.Within (leaf objects) place) :
    (root.layOut bounds).leafObjects place.first objects.length = .ok objects := by
  have fits := within.last_le
  obtain ⟨rest, same⟩ := within.stands.contents
  simp only [Plan.objects] at fits same
  simp [Hierarchy.leafObjects, layOut, fits, ← same]

variable {σ : Type} {root plan : Plan} {place : Place} {bounds : Box} {p : Vec}
  (visit : PointVisitor σ)

/-- The walk from the top of a part visits the part and returns to what it keeps for later, after
some number of steps. -/
def Visited (h : Hierarchy) (p : Vec) (visit : PointVisitor σ) (plan : Plan) (index : Nat)
    (later : List Nat) (cost : Nat) : Prop :=
  ∀ steps memo, h.runPoint p visit (cost + steps) ⟨some index, later, memo⟩ =
    (visitEach visit (plan.objectsAt p) memo).bind fun memo =>
      h.runPoint p visit steps ⟨none, later, memo⟩

/-- Where the walk goes on from a part to one of its parts, it visits what there is in that part. -/
theorem Visited.down {h : Hierarchy} {inner : Plan} {index child cost : Nat} {later : List Nat}
    (visited : Visited h p visit inner child later cost)
    (step : ∀ memo, h.pointStep p visit ⟨some index, later, memo⟩ = .ok (.inl ⟨some child, later, memo⟩))
    (same : plan.objectsAt p = inner.objectsAt p) :
    Visited h p visit plan index later (cost + 1) := by
  intro steps memo
  rw [Nat.add_right_comm, runPoint_next _ (step memo), visited steps memo, same]

/-- A part that is left out holds nothing at the point. -/
theorem visited_skip {h : Hierarchy} {index : Nat} {later : List Nat}
    (step : ∀ memo, h.pointStep p visit ⟨some index, later, memo⟩ = .ok (.inl ⟨none, later, memo⟩))
    (same : plan.objectsAt p = []) : Visited h p visit plan index later 1 := by
  intro steps memo
  rw [Nat.add_comm, runPoint_next _ (step memo), same]
  rfl

theorem Visited.both {h : Hierarchy} {left right : Plan} {index child costLeft costRight : Nat}
    {later : List Nat}
    (visitedLeft : Visited h p visit left child ((child + 1) :: later) costLeft)
    (visitedRight : Visited h p visit right (child + 1) later costRight)
    (step : ∀ memo, h.pointStep p visit ⟨some index, later, memo⟩ =
      .ok (.inl ⟨some child, (child + 1) :: later, memo⟩))
    (same : plan.objectsAt p = left.objectsAt p ++ right.objectsAt p) :
    Visited h p visit plan index later (costLeft + costRight + 2) := by
  intro steps memo
  have count : costLeft + costRight + 2 + steps = costLeft + (costRight + steps + 1) + 1 := by omega
  rw [count, runPoint_next _ (step memo), visitedLeft, same, visitEach_append]
  cases visitEach visit (left.objectsAt p) memo with
  | error failure => rfl
  | ok memo =>
    -- back from the left part, the walk turns to the right one, which it kept
    simp only [Except.bind]
    rw [runPoint_return, visitedRight]
    rfl

theorem Within.visited_leaf {objects : List Nat} (within : root.Within (leaf objects) place)
    (later : List Nat) :
    Visited (root.layOut bounds) p visit (leaf objects) place.index later 1 := by
  intro steps memo
  rw [Nat.add_comm, runPoint, pointStep]
  simp only [within.node, top, within.leafObjects, bind, Except.bind, objectsAt]
  cases visitEach visit objects memo with
  | error failure => rfl
  | ok memo => rfl

/-- The walk from the top of a part visits the objects of the part at the point, if the part is not
too high for what is kept for later. -/
theorem Within.visited (within : root.Within plan place)
    (finite : ∀ axis, (p.get axis).isFinite = true) {later : List Nat}
    (room : later.length + plan.height ≤ stackSize) :
    ∃ cost ≤ 2 * plan.sizeBelow + 1,
      Visited (root.layOut bounds) p visit plan place.index later cost := by
  -- over the plan, with any list kept for later: the left part is walked with the right one on it
  induction plan generalizing place later with
  | leaf objects => exact ⟨1, Nat.le_refl _, within.visited_leaf visit later⟩
  | split axis clipLeft clipRight left right ihLeft ihRight =>
    simp only [height] at room
    simp only [sizeBelow]
    have roomLeft : ((place.next + 1) :: later).length + left.height ≤ stackSize := by
      rw [List.length_cons]
      omega
    have roomRight : later.length + right.height ≤ stackSize := by omega
    by_cases before : clipLeft < p.get axis
    · by_cases behind : p.get axis < clipRight
      · refine ⟨1, by omega, visited_skip visit (fun memo => ?_) ?_⟩
        · simp [pointStep, within.node, top, before, behind]
        · simp [objectsAt, before, behind]
      · obtain ⟨cost, atMost, visited⟩ := ihRight within.right roomRight
        refine ⟨cost + 1, by omega, visited.down visit (fun memo => ?_) ?_⟩
        · simp [pointStep, within.node, top, before, behind]
        · simp [objectsAt, before, behind]
    · by_cases behind : p.get axis < clipRight
      · have roomOnly : later.length + left.height ≤ stackSize := by omega
        obtain ⟨cost, atMost, visited⟩ := ihLeft within.left roomOnly
        refine ⟨cost + 1, by omega, visited.down visit (fun memo => ?_) ?_⟩
        · simp [pointStep, within.node, top, before, behind]
        · simp [objectsAt, before, behind]
      · obtain ⟨costLeft, atMostLeft, visitedLeft⟩ := ihLeft within.left roomLeft
        obtain ⟨costRight, atMostRight, visitedRight⟩ := ihRight within.right roomRight
        -- the split itself is part of the height, so there is room to keep the right child
        have space : later.length ≠ stackSize := by omega
        refine ⟨costLeft + costRight + 2, by omega,
          visitedLeft.both visit visitedRight (fun memo => ?_) ?_⟩
        · simp [pointStep, within.node, top, before, behind, space]
        · simp [objectsAt, before, behind]
  | narrow axis low high inner ih =>
    simp only [height] at room
    simp only [sizeBelow]
    by_cases outside : p.get axis < low ∨ high < p.get axis
    · refine ⟨1, by omega, visited_skip visit (fun memo => ?_) ?_⟩
      · simp [pointStep, within.node, top, outside]
      · simp [objectsAt, outside]
    · obtain ⟨cost, atMost, visited⟩ := ih within.narrow (Nat.le_of_succ_le room)
      refine ⟨cost + 1, by omega, visited.down visit (fun memo => ?_) ?_⟩
      · simp [pointStep, within.node, top, outside]
      · simp [objectsAt, outside]
  | oneSided axis side clip inner ih =>
    simp only [height] at room
    simp only [sizeBelow]
    obtain ⟨cost, atMost, visited⟩ := ih within.oneSided (Nat.le_of_succ_le room)
    -- the infinite clip of the empty side never keeps the point out of the other side
    cases side with
    | below =>
      have reaches : p.get axis < .infinity := Single.lt_infinity (finite axis)
      by_cases beyond : clip < p.get axis
      · refine ⟨1, by omega, visited_skip visit (fun memo => ?_) ?_⟩
        · simp [pointStep, within.node, top, beyond, reaches]
        · simp [objectsAt, beyond]
      · refine ⟨cost + 1, by omega, visited.down visit (fun memo => ?_) ?_⟩
        · simp [pointStep, within.node, top, beyond, reaches]
        · simp [objectsAt, beyond]
    | above =>
      have reaches : .negativeInfinity < p.get axis := Single.negativeInfinity_lt (finite axis)
      have back : place.next - 1 + 1 = place.next :=
        Nat.sub_add_cancel (Nat.zero_lt_of_lt within.index_lt_next)
      by_cases beyond : p.get axis < clip
      · refine ⟨1, by omega, visited_skip visit (fun memo => ?_) ?_⟩
        · simp [pointStep, within.node, top, beyond, reaches]
        · simp [objectsAt, beyond]
      · refine ⟨cost + 1, by omega, visited.down visit (fun memo => ?_) ?_⟩
        · simp [pointStep, within.node, top, beyond, reaches, back]
        · simp [objectsAt, beyond]

end

end Plan

variable {boxes : List Box} {h : Hierarchy} {plan : Plan} {p : Vec}

theorem stepLimit_layOut (plan : Plan) (bounds : Box) :
    2 * plan.sizeBelow + 2 < (plan.layOut bounds).stepLimit := by
  have size : (plan.layOut bounds).nodes.size = plan.sizeBelow + 1 := by simp [Plan.layOut]
  rw [stepLimit, size, Nat.one_shiftLeft]
  have large : 64 + 2 * (plan.sizeBelow + 1) < 2 ^ (64 + 2 * (plan.sizeBelow + 1)) :=
    Nat.lt_two_pow_self
  omega

/-- The walk at a point within the bounds visits what the recursion over the plan finds. -/
theorem BuiltFrom.walkPoint_eq (built : BuiltFrom boxes h plan)
    (inside : (boundsOf boxes).Contains p) {σ : Type} (visit : PointVisitor σ) (memo : σ) :
    h.walkPoint p visit memo = visitEach visit (plan.objectsAt p) memo := by
  obtain ⟨rfl, made, proper, -⟩ := built
  have finite (axis : Axis) : (p.get axis).isFinite = true := by
    have onAxis := Box.contains_iff.mp inside axis
    exact Single.isFinite_of_between (proper axis).finiteLo (proper axis).finiteHi onAxis.1 onAxis.2
  have room : ([] : List Nat).length + plan.height ≤ stackSize := by
    simpa [stackSize, deepest] using made.height_le
  obtain ⟨cost, atMost, visited⟩ : ∃ cost ≤ 2 * plan.sizeBelow + 1,
      Plan.Visited (plan.layOut (boundsOf boxes)) p visit plan 0 [] cost :=
    Plan.Within.visited visit .root finite room
  have enough := stepLimit_layOut plan (boundsOf boxes)
  obtain ⟨steps, split⟩ : ∃ steps,
      (plan.layOut (boundsOf boxes)).stepLimit = cost + (steps + 1) :=
    ⟨(plan.layOut (boundsOf boxes)).stepLimit - cost - 1, by omega⟩
  have filled : (plan.layOut (boundsOf boxes)).isEmpty = false := by
    simp [isEmpty, Plan.layOut, Plan.nodes]
  have starts : decide ((plan.layOut (boundsOf boxes)).bounds.Contains p) = true :=
    decide_eq_true inside
  rw [walkPoint, filled, starts]
  simp only [Bool.not_true, Bool.or_self, Bool.false_eq_true, if_false]
  rw [split, visited]
  cases visitEach visit (plan.objectsAt p) memo with
  | error failure => rfl
  | ok memo => rfl

/-- A walk at a point meets the objects of some list, in order, and no object twice; no object is left
out whose box contains the point. -/
theorem walkPoint_complete {leafSize : Nat} {stats : Statistics} (proper : ∀ box ∈ boxes, box.Proper)
    (built : buildCounted boxes leafSize = .ok (h, stats)) (p : Vec) :
    ∃ visited : List Nat, visited.Nodup ∧
      (∀ object box, boxes[object]? = some box → box.Contains p → object ∈ visited) ∧
      ∀ {σ : Type} (visit : PointVisitor σ) (memo : σ),
        h.walkPoint p visit memo = visitEach visit visited memo := by
  rcases buildCounted_cases proper built with ⟨rfl, rfl⟩ | ⟨plan, from_plan⟩
  · exact ⟨[], List.nodup_nil, by simp, fun _ _ => rfl⟩
  · by_cases inside : (boundsOf boxes).Contains p
    · refine ⟨plan.objectsAt p, ?_, ?_, fun visit memo => from_plan.walkPoint_eq inside visit memo⟩
      · have all := from_plan.made.perm.nodup_iff.mpr List.nodup_range
        exact all.sublist (plan.objectsAt_sublist p)
      · intro object box found contains
        have member : object ∈ plan.objects := by
          rw [from_plan.made.perm.mem_iff, List.mem_range]
          exact (List.getElem?_eq_some_iff.mp found).1
        rw [← boxAt_eq found] at contains
        exact Plan.mem_objectsAt from_plan.made.respects member contains
    · -- outside the bounds there is nothing to visit
      refine ⟨[], List.nodup_nil, fun object box found contains => ?_, fun visit memo => ?_⟩
      · have covers := from_plan.boundsCover box (List.mem_of_getElem? found)
        exact absurd (covers.contains contains) inside
      · rw [from_plan.layout, walkPoint]
        simp [Plan.layOut, inside, visitEach]

theorem walkPoint_complete_apart :
    (∀ box ∈ apart, box.Proper) ∧ ∃ h stats, buildCounted apart 1 = .ok (h, stats) ∧
      ∃ visited : List Nat, visited.Nodup ∧
        (∀ object box, apart[object]? = some box → box.Contains ⟨1, 0.5, 0⟩ → object ∈ visited) ∧
        ∀ {σ : Type} (visit : PointVisitor σ) (memo : σ),
          h.walkPoint ⟨1, 0.5, 0⟩ visit memo = visitEach visit visited memo := by
  have built : buildCounted apart 1 = .ok (_, _) := rfl
  exact ⟨apart_proper, _, _, built, walkPoint_complete apart_proper built ⟨1, 0.5, 0⟩⟩

/-! ### Bounded visits -/

theorem BuiltFrom.mem_objectsAt (built : BuiltFrom boxes h plan) {object : Nat} {box : Box}
    (found : boxes[object]? = some box) (contains : box.Contains p) : object ∈ plan.objectsAt p := by
  have member : object ∈ plan.objects := by
    rw [built.made.perm.mem_iff, List.mem_range]
    exact (List.getElem?_eq_some_iff.mp found).1
  rw [← boxAt_eq found] at contains
  exact Plan.mem_objectsAt built.made.respects member contains

theorem BuiltFrom.lt_of_mem_objectsAt (built : BuiltFrom boxes h plan) {object : Nat}
    (listed : object ∈ plan.objectsAt p) : object < boxes.length :=
  List.mem_range.mp (built.made.perm.mem_iff.mp ((plan.objectsAt_sublist p).subset listed))

theorem BuiltFrom.walkPoint_outside (built : BuiltFrom boxes h plan)
    (outside : ¬(boundsOf boxes).Contains p) {σ : Type} (visit : PointVisitor σ) (memo : σ) :
    h.walkPoint p visit memo = .ok memo := by
  rw [built.layout, walkPoint]
  simp [Plan.layOut, outside]

/-- A walk at a point in a built hierarchy goes through numbers of boxes, and leaves out no box that
contains the point. -/
theorem build_visits {leafSize : Nat} (proper : ∀ box ∈ boxes, box.Proper)
    (built : build boxes leafSize = .ok h) (p : Vec) :
    ∃ visited : List Nat, (∀ object ∈ visited, object < boxes.length) ∧
      (∀ (object : Nat) (box : Box), boxes[object]? = some box → box.Contains p → object ∈ visited) ∧
      ∀ {σ : Type} (visit : PointVisitor σ) (memo : σ),
        h.walkPoint p visit memo = visitEach visit visited memo := by
  rcases build_cases_of_proper proper built with ⟨rfl, rfl⟩ | ⟨plan, fromPlan⟩
  · exact ⟨[], nofun, nofun, fun _ _ => rfl⟩
  by_cases inside : (boundsOf boxes).Contains p
  · exact ⟨plan.objectsAt p, fun object => fromPlan.lt_of_mem_objectsAt,
      fun object box => fromPlan.mem_objectsAt, fromPlan.walkPoint_eq inside⟩
  · refine ⟨[], nofun, fun object box found contains => ?_, fromPlan.walkPoint_outside inside⟩
    have covers := fromPlan.boundsCover box (List.mem_of_getElem? found)
    exact absurd (covers.contains contains) inside

end Sightline.Hierarchy
