import Sightline.Hierarchy.PointWalk
import Sightline.Proofs.Hierarchy.RayStepping
import Sightline.Proofs.Hierarchy.Rewriting

/-!
# Where walks turn back

A reader sees to it that children stand behind their parents, but it does not look at the place of an
empty side, so that any node may stand there, also the parent itself. A walk goes forward from node to
node, unless it goes on to an empty side: a ray without an end does so where it runs towards the side,
and a point where it lies at infinity.
-/
namespace Sightline.Hierarchy

/-! ### Sides of a split -/

namespace Side

/-- The clip that marks the side as empty. -/
def emptyClip : Side → Single
  | below => .negativeInfinity
  | above => .infinity

def clip (side : Side) (left right : Single) : Single :=
  match side with
  | below => left
  | above => right

/-- The place of the child on the side. -/
def child (side : Side) (first : Nat) : Nat :=
  match side with
  | below => first
  | above => first + 1

/-- The side that a ray meets last. -/
def far (ray : Ray) (axis : Axis) : Side :=
  if (ray.direction.get axis).negative then below else above

def near (ray : Ray) (axis : Axis) : Side :=
  if (ray.direction.get axis).negative then above else below

end Side

/-- The side of a split is empty, and in its place stands a node that is not behind the split. -/
def LeadsBack (h : Hierarchy) (index : Nat) (axis : Axis) (side : Side) : Prop :=
  ∃ child left right, h.nodes[index]? = some (.split axis child left right) ∧
    side.clip left right = side.emptyClip ∧ side.child child ≤ index

/-- Children stand behind their parents, but for those in the place of an empty side. -/
structure Forward (h : Hierarchy) : Prop where
  split : ∀ {index child : Nat} {axis : Axis} {left right : Single},
    h.nodes[index]? = some (.split axis child left right) →
      ∀ side : Side, side.clip left right ≠ side.emptyClip → index < side.child child
  narrow : ∀ {index child : Nat} {axis : Axis} {low high : Single},
    h.nodes[index]? = some (.narrow axis child low high) → index < child

theorem checkNode_of_checkNodes {size objects index : Nat} {nodes : List Node}
    (checked : checkNodes size objects index nodes = .ok ()) {i : Nat} {node : Node}
    (stands : nodes[i]? = some node) : checkNode size objects (index + i) node = .ok () := by
  induction nodes generalizing index i with
  | nil => cases stands
  | cons first rest ih =>
    obtain ⟨_, passed, others⟩ := bind_eq_ok.mp checked
    cases i with
    | zero =>
      cases stands
      exact passed
    | succ i =>
      rw [Nat.add_comm i, ← Nat.add_assoc]
      exact ih others stands

theorem lt_of_checkChild {nodes index child : Nat} (checked : checkChild nodes index child = .ok ()) :
    index < child := by
  rw [checkChild] at checked
  split at checked
  next inside => exact inside.1
  next => cases checked

theorem lt_of_checkNode {nodes objects index child : Nat} {axis : Axis} {left right : Single}
    (checked : checkNode nodes objects index (.split axis child left right) = .ok ()) :
    (left ≠ .negativeInfinity → index < child) ∧ (right ≠ .infinity → index < child + 1) := by
  simp only [checkNode] at checked
  by_cases filledLeft : left ≠ .negativeInfinity
  · rw [if_pos filledLeft] at checked
    obtain ⟨_, first, -⟩ := bind_eq_ok.mp checked
    have less := lt_of_checkChild first
    exact ⟨fun _ => less, fun _ => Nat.lt_succ_of_lt less⟩
  · rw [if_neg filledLeft] at checked
    refine ⟨fun filled => absurd filled filledLeft, fun filled => ?_⟩
    rw [if_pos filled] at checked
    exact lt_of_checkChild checked

theorem forward_of_read {input rest : List UInt8} {h : Hierarchy}
    (read : reader.run input = .ok (h, rest)) : h.Forward := by
  obtain ⟨words, taken⟩ := reader_eq_ok read
  have passed {index : Nat} {node : Node} (stands : h.nodes[index]? = some node) :
      checkNode h.nodes.size h.objects.size index node = .ok () := by
    have checked := checkNode_of_checkNodes taken.checked ((Array.getElem?_toList ..).trans stands)
    rwa [Nat.zero_add] at checked
  constructor
  · intro index child axis left right stands side filled
    obtain ⟨first, second⟩ := lt_of_checkNode (passed stands)
    cases side with
    | below => exact first filled
    | above => exact second filled
  · intro index child axis low high stands
    exact lt_of_checkChild (passed stands)

variable {h : Hierarchy}

/-- A child on a side that does not lead back is behind its parent, whether the side is empty or not. -/
theorem Forward.lt_child (forward : h.Forward) {index child : Nat} {axis : Axis} {left right : Single}
    (stands : h.nodes[index]? = some (.split axis child left right)) {side : Side}
    (ahead : ¬h.LeadsBack index axis side) : index < side.child child := by
  by_contra back
  by_cases empty : side.clip left right = side.emptyClip
  · exact ahead ⟨child, left, right, stands, empty, Nat.not_lt.mp back⟩
  · exact back (forward.split stands side empty)

/-! ### Steps that are left -/

/-- More steps than a walk takes, one of them to leave each part and one to return to each part that
it keeps. -/
def stepsLeft (h : Hierarchy) (current : Option Nat) (later : List Nat) : Nat :=
  2 * ((current.toList.map h.weight).sum + (later.map fun index => h.weight index + 1).sum) +
    current.toList.length

theorem stepsLeft_none (later : List Nat) :
    h.stepsLeft none later = 2 * (later.map fun index => h.weight index + 1).sum := by
  simp [stepsLeft]

theorem stepsLeft_some (index : Nat) (later : List Nat) :
    h.stepsLeft (some index) later =
      2 * (h.weight index + (later.map fun index => h.weight index + 1).sum) + 1 := by
  simp [stepsLeft]

theorem stepsLeft_return {index : Nat} {later : List Nat} {current : Option Nat}
    (returned : current = none ∨ current = some index) :
    h.stepsLeft current later < h.stepsLeft none (index :: later) := by
  rw [stepsLeft_none (index :: later), List.map_cons, List.sum_cons]
  rcases returned with rfl | rfl
  · rw [stepsLeft_none]
    omega
  · rw [stepsLeft_some]
    omega

/-- A step to at most two places that are further on leaves fewer steps. -/
theorem stepsLeft_route {index : Nat} {route : List Nat} (short : route.length ≤ 2)
    (ahead : ∀ next ∈ route, index < h.nodes.size ∧ index < next) (later : List Nat) :
    h.stepsLeft route.head? (route.tail ++ later) < h.stepsLeft (some index) later := by
  rw [stepsLeft_some]
  match route with
  | [] =>
    rw [List.head?_nil, List.tail_nil, List.nil_append, stepsLeft_none]
    omega
  | [next] =>
    obtain ⟨inside, further⟩ := ahead next (.head _)
    have less := two_weights inside further further
    rw [List.head?_cons, List.tail_cons, List.nil_append, stepsLeft_some]
    omega
  | [first, second] =>
    obtain ⟨inside, further⟩ := ahead first (.head _)
    have less := two_weights inside further (ahead second (.tail _ (.head _))).2
    rw [List.head?_cons, List.tail_cons, List.singleton_append, stepsLeft_some, List.map_cons,
      List.sum_cons]
    omega

theorem stepsLeft_start : h.stepsLeft (some 0) [] < h.stepLimit := by
  have limit : h.stepLimit = 2 ^ (2 * h.nodes.size + 64) := by
    rw [stepLimit, Nat.one_shiftLeft, Nat.add_comm]
  have more : 2 * 2 ^ (h.nodes.size + 2) ≤ 2 ^ (2 * h.nodes.size + 64) := by
    rw [← Nat.pow_succ']
    exact Nat.pow_le_pow_right Nat.two_pos (by omega)
  have least : 2 ^ 2 ≤ 2 ^ (h.nodes.size + 2) := Nat.pow_le_pow_right Nat.two_pos (by omega)
  rw [limit, stepsLeft_some, List.map_nil, List.sum_nil, weight, Nat.sub_zero]
  omega

/-! ### Along a ray -/

section

variable {ray : Ray} {axis : Axis} {child : Nat} {left right : Single} {part next : Part}

theorem frontTime_eq : frontTime ray axis left right =
    ray.timeTo axis ((Side.near ray axis).clip left right) := by
  unfold frontTime Side.near
  split <;> rfl

theorem backTime_eq : backTime ray axis left right =
    ray.timeTo axis ((Side.far ray axis).clip left right) := by
  unfold backTime Side.far
  split <;> rfl

theorem node_nearPart (span : Span) :
    (nearPart ray span axis child left right).node = (Side.near ray axis).child child := by
  unfold nearPart Side.near
  split <;> rfl

theorem node_farPart (span : Span) :
    (farPart ray span axis child left right).node = (Side.far ray axis).child child := by
  unfold farPart Side.far
  split <;> rfl

/-- The ray has the empty side that it meets first behind it all the time. -/
theorem frontTime_of_empty (signed : ray.SignedOn axis)
    (empty : (Side.near ray axis).clip left right = (Side.near ray axis).emptyClip) :
    frontTime ray axis left right = .negativeInfinity := by
  have infinite : ((Side.near ray axis).emptyClip).isInfinite = true := by
    cases Side.near ray axis <;> decide
  rw [frontTime_eq, empty, signed.timeTo_infinite infinite, Side.near]
  cases (ray.direction.get axis).negative <;> rfl

/-- The ray comes to the empty side that it meets last only at infinity. -/
theorem backTime_of_empty (signed : ray.SignedOn axis)
    (empty : (Side.far ray axis).clip left right = (Side.far ray axis).emptyClip) :
    backTime ray axis left right = .infinity := by
  have infinite : ((Side.far ray axis).emptyClip).isInfinite = true := by
    cases Side.far ray axis <;> decide
  rw [backTime_eq, empty, signed.timeTo_infinite infinite, Side.far]
  cases (ray.direction.get axis).negative <;> rfl

/-- The span of the part has no end, and the empty side towards which the ray runs leads back. -/
def Part.TurnsBack (h : Hierarchy) (ray : Ray) (part : Part) : Prop :=
  ¬part.span.far < .infinity ∧ ∃ axis, h.LeadsBack part.node axis (Side.far ray axis)

/-- A route goes forward, unless the ray turns back there. -/
theorem Forward.lt_of_entered (forward : h.Forward) (signed : ∀ axis, ray.SignedOn axis)
    (begins : 0 ≤ part.span.near) (ahead : ¬part.TurnsBack h ray)
    (entered : next ∈ (h.routeFrom ray part).parts) : part.node < next.node := by
  unfold routeFrom at entered
  split at entered
  next axis child left right stands =>
    rcases mem_parts_routeSplit.mp entered with ⟨reached, rfl⟩ | ⟨reached, rfl⟩
    · rw [node_nearPart]
      refine forward.split stands _ fun empty => reached ?_
      have zero : Single.negativeInfinity < 0 := by decide +kernel
      rw [frontTime_of_empty (signed axis) empty]
      exact Single.lt_of_lt_of_le zero begins
    · rw [node_farPart]
      by_cases empty : (Side.far ray axis).clip left right = (Side.far ray axis).emptyClip
      · rw [backTime_of_empty (signed axis) empty] at reached
        exact forward.lt_child stands fun back => ahead ⟨reached, axis, back⟩
      · exact forward.split stands _ empty
  next axis child low high stands =>
    obtain ⟨-, rfl⟩ := mem_parts_routeNarrow.mp entered
    exact forward.narrow stands
  next => cases entered

theorem length_parts_le (route : Route) : route.parts.length ≤ 2 := by
  cases route <;> simp [Route.parts]

theorem inside_of_entered (entered : next ∈ (h.routeFrom ray part).parts) :
    part.node < h.nodes.size := by
  cases found : h.nodes[part.node]? with
  | none => simp [routeFrom, found, Route.parts] at entered
  | some node => exact (Array.getElem?_eq_some_iff.mp found).1

/-- The span of a part begins with the ray or later, and where the ray has an end so has the span. -/
structure Part.Aims (bounded : Prop) (part : Part) : Prop where
  begins : 0 ≤ part.span.near
  ends : bounded → part.span.far < .infinity

theorem Part.Aims.onward {bounded : Prop} (aims : part.Aims bounded)
    (entered : next ∈ (h.routeFrom ray part).parts) : next.Aims bounded := by
  have ends (x : Single) (within : bounded) : min x part.span.far < .infinity :=
    Single.lt_of_le_of_lt (Single.min_le_right (aims.ends within).1) (aims.ends within)
  unfold routeFrom at entered
  split at entered
  · rcases mem_parts_routeSplit.mp entered with ⟨-, rfl⟩ | ⟨-, rfl⟩
    · exact ⟨aims.begins, ends _⟩
    · exact ⟨nonneg_max aims.begins, aims.ends⟩
  · obtain ⟨-, rfl⟩ := mem_parts_routeNarrow.mp entered
    exact ⟨nonneg_max aims.begins, ends _⟩
  · cases entered

theorem aims_of_startSpan {reach : Single} {span : Span} (starts : h.startSpan ray reach = some span)
    (index : Nat) : (⟨index, span⟩ : Part).Aims (reach < .infinity) := by
  have zero : (0 : Single).isNaN = false := by decide +kernel
  obtain ⟨clipped, -, -, rfl⟩ := startSpan_eq_some.mp starts
  refine ⟨Single.le_max_right zero, fun within => ?_⟩
  exact Single.lt_of_le_of_lt (Single.min_le_right within.1) within

end

/-! ### At a point -/

section

variable {p : Vec}

/-- The places that a walk at a point goes on to from a node, in their order. -/
def pointRoute (h : Hierarchy) (p : Vec) (index : Nat) : List Nat :=
  match h.nodes[index]? with
  | some (.split axis child left right) =>
    (if left < p.get axis then [] else [child]) ++ if p.get axis < right then [] else [child + 1]
  | some (.narrow axis child low high) =>
    if p.get axis < low ∨ high < p.get axis then [] else [child]
  | _ => []

/-- The point lies at infinity on an axis, and the empty side there leads back. -/
def PointTurnsBack (h : Hierarchy) (p : Vec) (index : Nat) : Prop :=
  ∃ axis side, p.get axis = side.emptyClip ∧ h.LeadsBack index axis side

theorem Forward.lt_of_pointRoute (forward : h.Forward) (number : ∀ axis, (p.get axis).isNaN = false)
    {index next : Nat} (ahead : ¬h.PointTurnsBack p index) (entered : next ∈ h.pointRoute p index) :
    index < next := by
  -- a point on an empty side lies at infinity, and then the side would lead back
  have entersSide (axis : Axis) (side : Side) (child : Nat) (left right : Single)
      (stands : h.nodes[index]? = some (.split axis child left right))
      (atInfinity : side.clip left right = side.emptyClip → p.get axis = side.emptyClip) :
      index < side.child child := by
    by_cases empty : side.clip left right = side.emptyClip
    · exact forward.lt_child stands fun back => ahead ⟨axis, side, atInfinity empty, back⟩
    · exact forward.split stands side empty
  unfold pointRoute at entered
  split at entered
  next axis child left right stands =>
    rcases List.mem_append.mp entered with onLeft | onRight
    · split at onLeft
      · cases onLeft
      next reached =>
        cases List.mem_singleton.mp onLeft
        refine entersSide axis .below next left right stands fun empty => ?_
        obtain rfl : left = .negativeInfinity := empty
        exact Single.eq_negativeInfinity (number axis) reached
    · split at onRight
      · cases onRight
      next reached =>
        cases List.mem_singleton.mp onRight
        refine entersSide axis .above child left right stands fun empty => ?_
        obtain rfl : right = .infinity := empty
        exact Single.eq_infinity (number axis) reached
  next axis child low high stands =>
    split at entered
    · cases entered
    · cases List.mem_singleton.mp entered
      exact forward.narrow stands
  next => cases entered

theorem length_pointRoute_le (h : Hierarchy) (p : Vec) (index : Nat) :
    (h.pointRoute p index).length ≤ 2 := by
  unfold pointRoute
  split
  · split <;> split <;> simp
  · split <;> simp
  · simp

theorem inside_of_pointRoute {index next : Nat} (entered : next ∈ h.pointRoute p index) :
    index < h.nodes.size := by
  cases found : h.nodes[index]? with
  | none => simp [pointRoute, found] at entered
  | some node => exact (Array.getElem?_eq_some_iff.mp found).1

end

end Sightline.Hierarchy
