import Sightline.Proofs.Hierarchy.Planning
import Sightline.Proofs.Outcome

/-!
# What is built

A hierarchy over proper boxes is laid out from a plan made for all of them, within bounds that cover
each of them.
-/
namespace Sightline.Hierarchy

/-- The box of an object. -/
def boxAt (boxes : List Box) (object : Nat) : Box := boxes.getD object .zero

theorem boxAt_eq {boxes : List Box} {object : Nat} {box : Box}
    (found : boxes[object]? = some box) : boxAt boxes object = box := by
  rw [boxAt, List.getD_eq_getElem?_getD, found]
  rfl

theorem mem_itemsOf {boxes : List Box} {item : Item} :
    item ∈ itemsOf boxes ↔ boxes[item.object]? = some item.box := by
  simp only [itemsOf, List.mem_map, Prod.exists, List.mk_mem_zipIdx_iff_getElem?]
  constructor
  · rintro ⟨box, object, found, rfl⟩
    exact found
  · intro found
    exact ⟨item.box, item.object, found, rfl⟩

theorem objects_itemsOf (boxes : List Box) :
    (itemsOf boxes).map Item.object = List.range boxes.length := by
  rw [itemsOf, List.map_map, List.range_eq_range']
  exact List.zipIdx_map_snd 0 boxes

theorem carries_itemsOf (boxes : List Box) : Carries (boxAt boxes) (itemsOf boxes) :=
  fun _ member => (boxAt_eq (mem_itemsOf.mp member)).symm

theorem box_mem_of_mem_itemsOf {boxes : List Box} {item : Item} (member : item ∈ itemsOf boxes) :
    item.box ∈ boxes :=
  List.mem_of_getElem? (mem_itemsOf.mp member)

/-! ### The bounds -/

private theorem foldl_merge {rest : List Box} {start : Box} (proper : start.Proper)
    (others : ∀ box ∈ rest, box.Proper) :
    (rest.foldl Box.merge start).Proper ∧ (rest.foldl Box.merge start).Covers start ∧
      ∀ box ∈ rest, (rest.foldl Box.merge start).Covers box := by
  induction rest generalizing start with
  | nil => exact ⟨proper, proper.covers_self, nofun⟩
  | cons first rest ih =>
    have properFirst := others first List.mem_cons_self
    obtain ⟨properAll, covers, coversRest⟩ := ih (proper.merge properFirst) fun box member =>
      others box (List.mem_cons_of_mem _ member)
    refine ⟨properAll, covers.trans (Box.merge_covers_left proper), fun box member => ?_⟩
    rcases List.mem_cons.mp member with rfl | inRest
    · exact covers.trans (Box.merge_covers_right properFirst)
    · exact coversRest box inRest

theorem boundsOf_proper {boxes : List Box} (filled : boxes ≠ [])
    (proper : ∀ box ∈ boxes, box.Proper) : (boundsOf boxes).Proper := by
  cases boxes with
  | nil => exact absurd rfl filled
  | cons first rest => exact (foldl_merge (proper first List.mem_cons_self) proper).1

theorem boundsOf_covers {boxes : List Box} (proper : ∀ box ∈ boxes, box.Proper) :
    ∀ box ∈ boxes, (boundsOf boxes).Covers box := by
  cases boxes with
  | nil => nofun
  | cons first rest => exact (foldl_merge (proper first List.mem_cons_self) proper).2.2

private theorem foldl_faces {P : Single → Prop} {axis : Axis} {rest : List Box} {start : Box}
    (known : P (start.lo.get axis) ∧ P (start.hi.get axis))
    (others : ∀ box ∈ rest, P (box.lo.get axis) ∧ P (box.hi.get axis)) :
    P ((rest.foldl Box.merge start).lo.get axis) ∧
      P ((rest.foldl Box.merge start).hi.get axis) := by
  induction rest generalizing start with
  | nil => exact known
  | cons first rest ih =>
    obtain ⟨knownLo, knownHi⟩ := others first List.mem_cons_self
    refine ih ?_ fun box member => others box (List.mem_cons_of_mem _ member)
    rw [Box.merge_lo, Box.merge_hi]
    -- a face of the box around two boxes is one of theirs
    constructor
    · rcases Single.min_eq_or (start.lo.get axis) (first.lo.get axis) with same | same
      · rw [same]
        exact known.1
      · rw [same]
        exact knownLo
    · rcases Single.max_eq_or (start.hi.get axis) (first.hi.get axis) with same | same
      · rw [same]
        exact known.2
      · rw [same]
        exact knownHi

/-- The faces of the bounds are faces of the boxes. -/
theorem boundsOf_faces {P : Single → Prop} {boxes : List Box} {axis : Axis} (filled : boxes ≠ [])
    (faces : ∀ box ∈ boxes, P (box.lo.get axis) ∧ P (box.hi.get axis)) :
    P ((boundsOf boxes).lo.get axis) ∧ P ((boundsOf boxes).hi.get axis) := by
  cases boxes with
  | nil => exact absurd rfl filled
  | cons first rest => exact foldl_faces (faces first List.mem_cons_self) faces

/-! ### Built hierarchies -/

/-- A hierarchy is laid out from a plan for all boxes. -/
structure BuiltFrom (boxes : List Box) (h : Hierarchy) (plan : Plan) : Prop where
  layout : h = plan.layOut (boundsOf boxes)
  made : plan.Made (boxAt boxes) 1 (List.range boxes.length)
  boundsProper : (boundsOf boxes).Proper
  boundsCover : ∀ box ∈ boxes, (boundsOf boxes).Covers box

theorem buildCounted_of_planned {boxes : List Box} {leafSize : Nat} {plan : Plan} (filled : boxes ≠ [])
    (planned : planItems leafSize deepest 1 (itemsOf boxes) (boundsOf boxes) (boundsOf boxes) =
      .ok plan) :
    buildCounted boxes leafSize =
      .ok (plan.layOut (boundsOf boxes), Statistics.addPlan 1 plan {}) := by
  have some : boxes.isEmpty = false := by simpa using filled
  simp only [buildCounted, plan?, some, planned, bind, Except.bind, pure, Except.pure,
    Bool.false_eq_true, if_false]

/-- What is built and counted comes from one plan. -/
theorem buildCounted_planned {boxes : List Box} {leafSize : Nat} {h : Hierarchy} {stats : Statistics}
    (built : buildCounted boxes leafSize = .ok (h, stats)) :
    (boxes = [] ∧ h = .empty ∧ stats = {}) ∨ boxes ≠ [] ∧ ∃ plan,
      planItems leafSize deepest 1 (itemsOf boxes) (boundsOf boxes) (boundsOf boxes) = .ok plan ∧
        h = plan.layOut (boundsOf boxes) ∧ stats = Statistics.addPlan 1 plan {} := by
  by_cases none : boxes = []
  · subst none
    cases built
    exact .inl ⟨rfl, rfl, rfl⟩
  · have filled : boxes.isEmpty = false := by simpa using none
    simp only [buildCounted, plan?, filled, bind, Except.bind, pure, Except.pure, Bool.false_eq_true,
      if_false] at built
    cases planned : planItems leafSize deepest 1 (itemsOf boxes) (boundsOf boxes) (boundsOf boxes) with
    | error failure =>
      rw [planned] at built
      cases built
    | ok plan =>
      rw [planned] at built
      cases built
      exact .inr ⟨none, plan, rfl, rfl, rfl⟩

theorem made_of_planned {boxes : List Box} {leafSize : Nat} {plan : Plan}
    (proper : ∀ box ∈ boxes, box.Proper)
    (planned : planItems leafSize deepest 1 (itemsOf boxes) (boundsOf boxes) (boundsOf boxes) =
      .ok plan) : plan.Made (boxAt boxes) 1 (List.range boxes.length) := by
  rw [← objects_itemsOf]
  exact planItems_made planned
    (fun item member => proper item.box (box_mem_of_mem_itemsOf member)) (carries_itemsOf boxes)

theorem buildCounted_cases {boxes : List Box} {leafSize : Nat} {h : Hierarchy} {stats : Statistics}
    (proper : ∀ box ∈ boxes, box.Proper)
    (built : buildCounted boxes leafSize = .ok (h, stats)) :
    (boxes = [] ∧ h = .empty) ∨ ∃ plan, BuiltFrom boxes h plan := by
  obtain ⟨none, empty, -⟩ | ⟨filled, plan, planned, layout, -⟩ := buildCounted_planned built
  · exact .inl ⟨none, empty⟩
  · exact .inr ⟨plan, layout, made_of_planned proper planned, boundsOf_proper filled proper,
      boundsOf_covers proper⟩

theorem build_cases_of_proper {boxes : List Box} {leafSize : Nat} {h : Hierarchy}
    (proper : ∀ box ∈ boxes, box.Proper) (built : build boxes leafSize = .ok h) :
    (boxes = [] ∧ h = .empty) ∨ ∃ plan, BuiltFrom boxes h plan := by
  rw [build] at built
  split at built
  next => cases built
  next =>
    obtain ⟨⟨found, stats⟩, counted, returned⟩ := bind_eq_ok.mp built
    cases returned
    exact buildCounted_cases proper counted

/-- Two boxes apart on the first axis. -/
def apart : List Box :=
  [⟨⟨0, 0, 0⟩, ⟨1, 1, 1⟩⟩, ⟨⟨3.0, 0, 0⟩, ⟨4.0, 1, 1⟩⟩]

theorem apart_proper : ∀ box ∈ apart, box.Proper := by decide +kernel

end Sightline.Hierarchy
