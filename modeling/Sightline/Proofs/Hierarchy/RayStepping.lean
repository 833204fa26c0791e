import Sightline.Proofs.Hierarchy.Keeping
import Sightline.Proofs.Hierarchy.RayPlaces
import Sightline.Proofs.Single.Earliest

/-!
# Steps of a walk along a ray

The walk carries a list of parts, the current one and those kept for later. Each step takes the first
part off the list and puts the parts of its route in its place. Each part on the list stands deeper in
the plan than there are parts behind it, so that no list is longer than the stack; and where no ray
turns, each step leaves fewer steps.
-/
namespace Sightline.Hierarchy

variable {σ : Type}

/-! ### Fixed hits -/

/-- Hits each object at a fixed time, or never, and moves the reach to the time if that is nearer. -/
def meet (hits : Nat → Option Single) : Visitor σ := fun object progress =>
  match hits object with
  | none => .ok (false, progress)
  | some time =>
    if time < progress.reach then .ok (true, { progress with reach := time })
    else .ok (false, progress)

/-- The reach after an object is met. -/
def shorten (hits : Nat → Option Single) (reach : Single) (object : Nat) : Single :=
  match hits object with
  | none => reach
  | some time => if time < reach then time else reach

variable {hits : Nat → Option Single} {objects : List Nat} {reach : Single}

theorem shorten_eq_getD (hits : Nat → Option Single) (reach : Single) (object : Nat) :
    shorten hits reach object =
      ((hits object).filter fun time => decide (time < reach)).getD reach := by
  unfold shorten
  cases hits object with
  | none => rfl
  | some time => by_cases nearer : time < reach <;> simp [Option.filter, nearer]

/-- Only the reach is changed. -/
theorem meet_keeps_memo (hits : Nat → Option Single) (memo : σ) :
    VisitsKeep (meet hits) fun progress : Progress σ => progress.memo = memo := by
  intro object progress hit next met same
  unfold meet at met
  split at met
  · cases met
    exact same
  · split at met
    · cases met
      exact same
    · cases met
      exact same

/-- What is left of the reach is the earliest of it and the times of the objects. -/
theorem shortened_eq (objects : List Nat) (reach : Single) :
    objects.foldl (shorten hits) reach = Single.earliest (objects.filterMap hits) reach := by
  induction objects generalizing reach with
  | nil => rfl
  | cons object rest ih =>
    rw [List.foldl_cons, ih, shorten]
    cases hit : hits object with
    | none => rw [List.filterMap_cons_none hit]
    | some time =>
      rw [List.filterMap_cons_some hit]
      rfl

theorem shortened_le (number : reach.isNaN = false) :
    objects.foldl (shorten hits) reach ≤ reach := by
  rw [shortened_eq]
  exact Single.earliest_le number

theorem shortened_le_time (number : reach.isNaN = false) {object : Nat} {time : Single}
    (member : object ∈ objects) (hit : hits object = some time) (numberTime : time.isNaN = false) :
    objects.foldl (shorten hits) reach ≤ time := by
  have listed : time ∈ objects.filterMap hits := List.mem_filterMap.mpr ⟨object, member, hit⟩
  rw [shortened_eq]
  exact Single.earliest_le_of_mem number numberTime listed

/-- The reach stays the one of the start or becomes the time of a hit. -/
theorem shortened_found {start : Single}
    (before : reach = start ∨ ∃ object, hits object = some reach) :
    objects.foldl (shorten hits) reach = start ∨
      ∃ object, hits object = some (objects.foldl (shorten hits) reach) := by
  rw [shortened_eq]
  rcases Single.earliest_eq_or_mem (objects.filterMap hits) reach with same | member
  · rwa [same]
  · obtain ⟨object, -, hit⟩ := List.mem_filterMap.mp member
    exact .inr ⟨object, hit⟩

/-! ### Visits that hit at fixed times -/

/-- A visit that does not end. -/
def Stuck (visit : Visitor σ) (start : Single) (object : Nat) : Prop :=
  ∃ progress, progress.reach ≤ start ∧ visit object progress = .error .endless

/-- A visit shortens every reach up to some start to the time of its object, unless it does not
end. -/
def Shortens (visit : Visitor σ) (hits : Nat → Option Single) (start : Single) (object : Nat) :
    Prop :=
  ∀ progress, progress.reach ≤ start → visit object progress = .error .endless ∨
    ∃ hit memo, visit object progress = .ok (hit, ⟨shorten hits progress.reach object, memo⟩)

variable {visit : Visitor σ} {start : Single}

theorem shortens_meet (hits : Nat → Option Single) (start : Single) (object : Nat) :
    Shortens (meet hits : Visitor σ) hits start object := by
  intro progress _
  refine .inr ?_
  unfold meet shorten
  cases hits object with
  | none => exact ⟨false, progress.memo, rfl⟩
  | some time =>
    by_cases nearer : time < progress.reach
    · exact ⟨true, progress.memo, by simp [nearer]⟩
    · exact ⟨false, progress.memo, by simp [nearer]⟩

theorem not_stuck_meet (hits : Nat → Option Single) (start : Single) (object : Nat) :
    ¬Stuck (meet hits : Visitor σ) start object := by
  rintro ⟨progress, -, endless⟩
  unfold meet at endless
  split at endless
  · cases endless
  · split at endless <;> cases endless

theorem visitAll_shortens {progress : Progress σ}
    (shortens : ∀ object ∈ objects, Shortens visit hits start object)
    (within : progress.reach ≤ start) :
    (∃ memo, visitAll visit false objects progress =
        .ok (false, ⟨objects.foldl (shorten hits) progress.reach, memo⟩)) ∨
      visitAll visit false objects progress = .error .endless ∧
        ∃ object ∈ objects, Stuck visit start object := by
  induction objects generalizing progress with
  | nil => exact .inl ⟨progress.memo, rfl⟩
  | cons object rest ih =>
    rw [visitAll]
    rcases shortens object List.mem_cons_self progress within with stuck | ⟨hit, memo, met⟩
    · rw [stuck]
      exact .inr ⟨rfl, object, List.mem_cons_self, progress, within, stuck⟩
    · have lowered : [object].foldl (shorten hits) progress.reach ≤ progress.reach :=
        shortened_le within.1
      have withinNext : (⟨shorten hits progress.reach object, memo⟩ : Progress σ).reach ≤ start :=
        Single.le_trans lowered within
      rw [met]
      rcases ih (fun other listed => shortens other (List.mem_cons_of_mem _ listed)) withinNext with
        ends | ⟨stuck, other, listed, why⟩
      · exact .inl ends
      · exact .inr ⟨stuck, other, List.mem_cons_of_mem _ listed, why⟩

/-! ### Steps -/

namespace RayWalk

/-- The parts still to look at, the current one first. -/
def pending (walk : RayWalk σ) : List Part := walk.current.toList ++ walk.later

end RayWalk

variable {h : Hierarchy} {ray : Ray} {part : Part} {later : List Part} {progress : Progress σ}

/-- The walk after a part: it goes on to the parts of the route. -/
def afterPart (h : Hierarchy) (ray : Ray) (part : Part) (later : List Part)
    (progress : Progress σ) : RayWalk σ :=
  ⟨(h.routeFrom ray part).parts.head?, (h.routeFrom ray part).parts.tail ++ later, progress⟩

/-- The walk back at the part that was kept last, or without a part if that one begins beyond the
reach. -/
def afterReturn (part : Part) (later : List Part) (progress : Progress σ) : RayWalk σ :=
  ⟨if progress.reach < part.span.near then none else some part, later, progress⟩

theorem pending_afterPart : (afterPart h ray part later progress).pending =
    (h.routeFrom ray part).parts ++ later := by
  unfold RayWalk.pending afterPart
  cases h.routeFrom ray part <;> rfl

theorem mem_pending_afterReturn {other : Part}
    (member : other ∈ (afterReturn part later progress).pending) : other ∈ part :: later := by
  unfold RayWalk.pending afterReturn at member
  split at member
  · exact List.mem_cons_of_mem _ member
  · exact member

theorem follow_eq (route : Route)
    (room : ∀ first second, route.parts = [first, second] → later.length ≠ stackSize) :
    follow later progress route =
      .inl ⟨route.parts.head?, route.parts.tail ++ later, progress⟩ := by
  cases route with
  | nowhere => rfl
  | one next => rfl
  | both next kept => exact if_neg (room next kept rfl)

/-- A step at a part visits the objects of a leaf and goes on to the parts of the route. -/
theorem rayStep_part (visit : Visitor σ)
    (leaves : ∀ first count, h.nodes[part.node]? = some (.leaf first count) →
      first + count ≤ h.objects.size)
    (room : ∀ first second, (h.routeFrom ray part).parts = [first, second] →
      later.length ≠ stackSize) :
    h.rayStep ray visit false ⟨some part, later, progress⟩ =
      (visitAll visit false (h.objectsIn part.node) progress).map fun result =>
        .inl (afterPart h ray part later result.2) := by
  unfold routeFrom at room
  simp only [rayStep, afterPart, routeFrom, objectsIn]
  cases found : h.nodes[part.node]? with
  | none => rfl
  | some node =>
    rw [found] at room
    cases node with
    | leaf first count =>
      simp only [leafObjects, if_pos (leaves first count found), bind, Except.bind]
      cases visited : visitAll visit false _ progress with
      | error failure => rfl
      | ok result =>
        obtain ⟨stopped, next⟩ := result
        obtain rfl : stopped = false := visitAll_false visited
        rfl
    | split axis child left right =>
      dsimp only at room ⊢
      rw [follow_eq _ room]
      rfl
    | narrow axis child low high =>
      dsimp only at room ⊢
      rw [follow_eq _ room]
      rfl

theorem rayStep_return {visit : Visitor σ} {stop : Bool} :
    h.rayStep ray visit stop ⟨none, part :: later, progress⟩ =
      .ok (.inl (afterReturn part later progress)) :=
  rfl

/-! ### Room for parts -/

/-- Each part stands deeper in the plan than there are parts behind it on the list. -/
def Kept (root : Plan) : List Part → Prop
  | [] => True
  | part :: rest => root.Located part.node (rest.length + 1) ∧ Kept root rest

variable {root : Plan}

/-- The parts of a route may stand in the place of the part they come from. -/
theorem Kept.route {depth : Nat} {rest : List Part} (kept : Kept root rest)
    (leads : Leads h root ray part depth) (deep : rest.length + 1 ≤ depth) :
    Kept root ((h.routeFrom ray part).parts ++ rest) := by
  obtain ⟨located, -, first⟩ := leads
  cases route : h.routeFrom ray part with
  | nowhere => exact kept
  | one next =>
    have inRoute : next ∈ (h.routeFrom ray part).parts := by simp [route, Route.parts]
    exact ⟨(located next inRoute).weaken deep, kept⟩
  | both next other =>
    have inRoute : other ∈ (h.routeFrom ray part).parts := by simp [route, Route.parts]
    -- the first of two parts has one more part behind it, and stands one level lower
    have lower := first next other (by rw [route]; rfl)
    exact ⟨lower.weaken (Nat.succ_le_succ deep), (located other inRoute).weaken deep, kept⟩

/-- No part of a plan is so deep that two parts of its route do not fit on the stack. -/
theorem Leads.room {depth : Nat} {rest : List Part} (leads : Leads h root ray part depth)
    (deep : rest.length + 1 ≤ depth) (low : root.height ≤ stackSize) (first second : Part)
    (pair : (h.routeFrom ray part).parts = [first, second]) : rest.length ≠ stackSize := by
  -- the plan goes on below, so this is not yet its greatest depth
  obtain ⟨plan, place, within, -, lower⟩ := leads.first first second pair
  have bound := within.depth_add_height_le
  omega

/-! ### Steps that are left -/

/-- More steps than a walk takes below a node at some place, if the places of children are greater. -/
def weight (h : Hierarchy) (index : Nat) : Nat := 2 ^ (h.nodes.size + 2 - index) - 2

/-- More steps than a walk takes, one of them to return to each part that it keeps. -/
def RayWalk.weight (h : Hierarchy) (walk : RayWalk σ) : Nat :=
  (walk.current.toList.map fun part => h.weight part.node).sum +
    (walk.later.map fun part => h.weight part.node + 1).sum

theorem weight_afterReturn : (afterReturn part later progress).weight h <
    (⟨none, part :: later, progress⟩ : RayWalk σ).weight h := by
  unfold RayWalk.weight afterReturn
  split <;> simp

theorem two_weights {index first second : Nat} (inside : index < h.nodes.size) (one : index < first)
    (other : index < second) : h.weight first + h.weight second + 1 < h.weight index := by
  unfold weight
  obtain ⟨rest, size⟩ : ∃ rest, h.nodes.size + 2 - index = rest + 3 :=
    ⟨h.nodes.size - 1 - index, by omega⟩
  have below (place : Nat) (behind : index < place) :
      2 ^ (h.nodes.size + 2 - place) ≤ 2 ^ (rest + 2) :=
    Nat.pow_le_pow_right Nat.two_pos (by omega)
  have belowFirst := below first one
  have belowSecond := below second other
  have least : 2 ^ 2 ≤ 2 ^ (rest + 2) := Nat.pow_le_pow_right Nat.two_pos (Nat.le_add_left 2 rest)
  rw [size, Nat.pow_succ 2 (rest + 2)]
  omega

/-! ### Walks through a built hierarchy -/

/-- The leaves of a built hierarchy name objects with boxes only. -/
theorem BuiltFrom.lt_of_mem_objectsIn {boxes : List Box} {h : Hierarchy} {plan : Plan}
    (built : BuiltFrom boxes h plan) {object index : Nat} (member : object ∈ h.objectsIn index) :
    object < boxes.length := by
  have listed : object ∈ h.objects.toList := by
    unfold objectsIn at member
    split at member
    next first count _ =>
      rw [Array.toList_extract] at member
      exact List.mem_of_mem_drop (List.mem_of_mem_take member)
    next => cases member
  rw [built.layout] at listed
  have inPlan : object ∈ plan.objects := listed
  rwa [built.made.perm.mem_iff, List.mem_range] at inPlan

/-- A hierarchy built from a plan, and a ray that looks a given way into it. -/
structure Shot (boxes : List Box) (h : Hierarchy) (root : Plan) (ray : Ray) (reach : Single) :
    Prop where
  built : BuiltFrom boxes h root
  proper : ∀ box ∈ boxes, box.Proper
  regular : ∀ axis, ray.RegularOn axis
  number : reach.isNaN = false

/-- The parts on the list of a walk are parts that it may come to, and there is room for them. -/
structure Tracks (h : Hierarchy) (root : Plan) (ray : Ray) (reach : Single) (walk : RayWalk σ) :
    Prop where
  kept : Kept root walk.pending
  reached : ∀ part ∈ walk.pending, h.Reached ray reach part

theorem Tracks.afterReturn
    (tracks : Tracks h root ray reach (⟨none, part :: later, progress⟩ : RayWalk σ)) :
    Tracks h root ray reach (afterReturn part later progress) where
  kept := by
    unfold Hierarchy.afterReturn RayWalk.pending
    split
    · exact tracks.kept.2
    · exact tracks.kept
  reached other member := tracks.reached other (mem_pending_afterReturn member)

namespace Shot

variable {boxes : List Box} {root : Plan}

theorem represents (shot : Shot boxes h root ray reach) : h.Represents boxes := by
  rw [shot.built.layout]
  exact shot.built.made.represents fun _ _ => boxAt_eq

/-- Where the route of a part on the list leads. -/
theorem leads (shot : Shot boxes h root ray reach) {rest : List Part}
    (located : root.Located part.node (rest.length + 1)) (reached : h.Reached ray reach part) :
    part.node < h.nodes.size ∧
      ∃ depth, rest.length + 1 ≤ depth ∧ Leads h root ray part depth := by
  obtain ⟨layout, made, -, -⟩ := shot.built
  subst layout
  obtain ⟨plan, place, within, stands, deep⟩ := located
  have begins := (reached.within shot.number).begins
  refine ⟨?_, place.depth, deep, within.leads made.solid shot.regular stands begins⟩
  rw [← stands]
  exact (Array.getElem?_eq_some_iff.mp within.node).1

/-- A step at a part of the list. -/
theorem step (shot : Shot boxes h root ray reach) (visit : Visitor σ)
    (tracks : Tracks h root ray reach (⟨some part, later, progress⟩ : RayWalk σ)) :
    h.rayStep ray visit false ⟨some part, later, progress⟩ =
      (visitAll visit false (h.objectsIn part.node) progress).map fun result =>
        .inl (afterPart h ray part later result.2) := by
  obtain ⟨⟨located, -⟩, reached⟩ := tracks
  obtain ⟨-, depth, deep, leads⟩ := shot.leads located (reached part List.mem_cons_self)
  have low : root.height ≤ stackSize := by
    simpa [stackSize, deepest] using shot.built.made.height_le
  refine rayStep_part visit (fun first count stands => ?_) (leads.room deep low)
  have layout := shot.built.layout
  subst layout
  exact Plan.last_le_of_leaf stands

/-- The parts of the route may be looked at next, whatever the visits found. -/
theorem tracks_afterPart (shot : Shot boxes h root ray reach)
    (tracks : Tracks h root ray reach (⟨some part, later, progress⟩ : RayWalk σ))
    (next : Progress σ) : Tracks h root ray reach (afterPart h ray part later next) := by
  obtain ⟨⟨located, kept⟩, reached⟩ := tracks
  have here := reached part List.mem_cons_self
  obtain ⟨-, depth, deep, leads⟩ := shot.leads located here
  constructor
  case kept =>
    rw [pending_afterPart]
    exact Kept.route kept leads deep
  case reached =>
    rw [pending_afterPart]
    intro other member
    rcases List.mem_append.mp member with entered | waiting
    · exact .next here entered
    · exact reached other (List.mem_cons_of_mem _ waiting)

/-- A step leaves fewer steps where no ray turns. -/
theorem weight_afterPart (shot : Shot boxes h root ray reach)
    (tracks : Tracks h root ray reach (⟨some part, later, progress⟩ : RayWalk σ))
    (ends : ∀ next, h.Reached ray reach next → ¬h.Turns ray next) (next : Progress σ) :
    (afterPart h ray part later next).weight h <
      (⟨some part, later, progress⟩ : RayWalk σ).weight h := by
  obtain ⟨⟨located, -⟩, reached⟩ := tracks
  have here := reached part List.mem_cons_self
  obtain ⟨inside, depth, -, leads⟩ := shot.leads located here
  have forward (next : Part) (entered : next ∈ (h.routeFrom ray part).parts) :
      part.node < next.node :=
    (leads.forward next entered).resolve_right (ends part here)
  have one (next : Nat) (further : part.node < next) : h.weight next < h.weight part.node := by
    have := two_weights inside further further
    omega
  have none : 0 < h.weight part.node := by
    have := one (part.node + 1) (Nat.lt_succ_self _)
    omega
  unfold afterPart RayWalk.weight
  cases route : h.routeFrom ray part with
  | nowhere => simpa [Route.parts] using none
  | one next =>
    have further := forward next (by simp [route, Route.parts])
    simpa [Route.parts] using one next.node further
  | both next other =>
    have further := forward next (by simp [route, Route.parts])
    have furtherOther := forward other (by simp [route, Route.parts])
    -- both walks below and the return to the second one
    have both := two_weights inside further furtherOther
    simp only [Route.parts, List.head?_cons, Option.toList_some, List.map_cons, List.map_nil,
      List.sum_cons, List.sum_nil, List.tail_cons, List.cons_append, List.nil_append]
    omega

end Shot

end Sightline.Hierarchy
