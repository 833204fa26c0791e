import Sightline.Hierarchy.RayWalk
import Sightline.Proofs.Geometry.Ray
import Sightline.Proofs.Hierarchy.Representation

/-!
# Routes of a ray

Which children a ray goes on to is decided by two comparisons: it enters the near child unless the
front plane comes before its span, and the far child unless the back plane comes behind it. A time at
which the ray is in a box stays in the span of the child that holds the box. Which parts a walk may
come to does not depend on what it finds there.
-/
namespace Sightline

namespace Span

/-- The span does not begin before the ray and does not end beyond its reach. -/
structure Within (span : Span) (reach : Single) : Prop where
  begins : 0 ≤ span.near
  ends : span.far ≤ reach

end Span

namespace Hierarchy

/-- The parts that a route goes on to, in their order. -/
def Route.parts : Route → List Part
  | .nowhere => []
  | .one next => [next]
  | .both next later => [next, later]

/-- Where a ray goes on from a part. -/
def routeFrom (h : Hierarchy) (ray : Ray) (part : Part) : Route :=
  match h.nodes[part.node]? with
  | some (.split axis child left right) => routeSplit ray part.span axis child left right
  | some (.narrow axis child low high) => routeNarrow ray part.span axis child low high
  | _ => .nowhere

/-- The parts that a walk may come to within its reach. -/
inductive Reached (h : Hierarchy) (ray : Ray) (reach : Single) : Part → Prop
  | start {span} : h.startSpan ray reach = some span → Reached h ray reach ⟨0, span⟩
  | next {part next} : Reached h ray reach part → next ∈ (h.routeFrom ray part).parts →
      Reached h ray reach next

/-- A walk comes to something only if it has a start. -/
theorem Reached.starts {h : Hierarchy} {ray : Ray} {reach : Single} {part : Part}
    (reached : h.Reached ray reach part) : ∃ span, h.startSpan ray reach = some span := by
  induction reached with
  | start starts => exact ⟨_, starts⟩
  | next _ _ ih => exact ih

variable {ray : Ray} {span : Span} {axis : Axis} {child : Nat} {left right low high time : Single}

/-! ### Both sides of a node in the order of the ray -/

/-- When the ray comes to the plane that it meets first. -/
def frontTime (ray : Ray) (axis : Axis) (left right : Single) : Single :=
  ray.timeTo axis (if (ray.direction.get axis).negative then right else left)

def backTime (ray : Ray) (axis : Axis) (left right : Single) : Single :=
  ray.timeTo axis (if (ray.direction.get axis).negative then left else right)

/-- The part up to the front plane, in the child that the ray meets first. -/
def nearPart (ray : Ray) (span : Span) (axis : Axis) (child : Nat) (left right : Single) : Part :=
  ⟨if (ray.direction.get axis).negative then child + 1 else child,
    ⟨span.near, min (frontTime ray axis left right) span.far⟩⟩

/-- The part from the back plane on, in the other child. -/
def farPart (ray : Ray) (span : Span) (axis : Axis) (child : Nat) (left right : Single) : Part :=
  ⟨if (ray.direction.get axis).negative then child else child + 1,
    ⟨max (backTime ray axis left right) span.near, span.far⟩⟩

theorem routeSplit_eq (ray : Ray) (span : Span) (axis : Axis) (child : Nat) (left right : Single) :
    routeSplit ray span axis child left right =
      if frontTime ray axis left right < span.near ∧ span.far < backTime ray axis left right then
        .nowhere
      else if frontTime ray axis left right < span.near then
        .one (farPart ray span axis child left right)
      else if span.far < backTime ray axis left right then
        .one (nearPart ray span axis child left right)
      else .both (nearPart ray span axis child left right) (farPart ray span axis child left right) :=
  rfl

/-- The near part is left out if the front plane comes before the span, the far part if the back
plane comes behind it. -/
theorem mem_parts_routeSplit {next : Part} :
    next ∈ (routeSplit ray span axis child left right).parts ↔
      (¬frontTime ray axis left right < span.near ∧
        next = nearPart ray span axis child left right) ∨
      (¬span.far < backTime ray axis left right ∧
        next = farPart ray span axis child left right) := by
  rw [routeSplit_eq]
  by_cases before : frontTime ray axis left right < span.near <;>
    by_cases behind : span.far < backTime ray axis left right <;>
    simp [before, behind, Route.parts]

/-- Of two parts the near one comes first. -/
theorem parts_routeSplit_pair {first second : Part}
    (pair : (routeSplit ray span axis child left right).parts = [first, second]) :
    ¬frontTime ray axis left right < span.near ∧ first = nearPart ray span axis child left right := by
  rw [routeSplit_eq] at pair
  by_cases before : frontTime ray axis left right < span.near
  · by_cases behind : span.far < backTime ray axis left right <;>
      simp [before, behind, Route.parts] at pair
  · refine ⟨before, ?_⟩
    by_cases behind : span.far < backTime ray axis left right
    · simp [before, behind, Route.parts] at pair
    · simp only [before, behind, false_and, if_false, Route.parts, List.cons.injEq] at pair
      exact pair.1.symm

/-- The part between both planes. -/
def betweenPart (ray : Ray) (span : Span) (axis : Axis) (child : Nat) (low high : Single) : Part :=
  ⟨child, max (frontTime ray axis low high) span.near, min (backTime ray axis low high) span.far⟩

theorem parts_routeNarrow : (routeNarrow ray span axis child low high).parts =
    if min (backTime ray axis low high) span.far < max (frontTime ray axis low high) span.near then []
    else [betweenPart ray span axis child low high] := by
  change (if min (backTime ray axis low high) span.far <
      max (frontTime ray axis low high) span.near then Route.nowhere
    else .one (betweenPart ray span axis child low high)).parts = _
  split <;> rfl

theorem mem_parts_routeNarrow {next : Part} :
    next ∈ (routeNarrow ray span axis child low high).parts ↔
      ¬min (backTime ray axis low high) span.far < max (frontTime ray axis low high) span.near ∧
        next = betweenPart ray span axis child low high := by
  rw [parts_routeNarrow]
  split
  next empty => simp [empty]
  next filled => simp [filled]

/-! ### Spans -/

theorem nonneg_max {x : Single} (nonneg : 0 ≤ span.near) : 0 ≤ max x span.near :=
  Single.le_trans nonneg (Single.le_max_right nonneg.2.1)

theorem min_le_reach {x reach : Single} (ends : span.far ≤ reach) : min x span.far ≤ reach :=
  Single.le_trans (Single.min_le_right ends.1) ends

theorem routeSplit_within {reach : Single} (within : span.Within reach) {next : Part}
    (entered : next ∈ (routeSplit ray span axis child left right).parts) :
    next.span.Within reach := by
  rcases mem_parts_routeSplit.mp entered with ⟨-, rfl⟩ | ⟨-, rfl⟩
  · exact ⟨within.begins, min_le_reach within.ends⟩
  · exact ⟨nonneg_max within.begins, within.ends⟩

theorem routeFrom_within {h : Hierarchy} {reach : Single} {part next : Part}
    (within : part.span.Within reach) (entered : next ∈ (h.routeFrom ray part).parts) :
    next.span.Within reach := by
  unfold routeFrom at entered
  split at entered
  · exact routeSplit_within within entered
  · obtain ⟨-, rfl⟩ := mem_parts_routeNarrow.mp entered
    exact ⟨nonneg_max within.begins, min_le_reach within.ends⟩
  · cases entered

/-- A walk starts with what the axes leave of its span, unless that is reversed. -/
theorem startSpan_eq_some {h : Hierarchy} {reach : Single} : h.startSpan ray reach = some span ↔
    ∃ clipped, Axis.all.foldlM (h.clipStart ray reach) ⟨-1, -1⟩ = some clipped ∧
      ¬clipped.far < clipped.near ∧ ⟨max clipped.near 0, min clipped.far reach⟩ = span := by
  simp only [startSpan, Option.bind_eq_bind, Option.bind_eq_some_iff, Option.ite_none_left_eq_some,
    Option.some.injEq]

theorem startSpan_within {h : Hierarchy} {reach : Single} (number : reach.isNaN = false)
    (starts : h.startSpan ray reach = some span) : span.Within reach := by
  have zero : (0 : Single).isNaN = false := by decide +kernel
  obtain ⟨clipped, -, -, rfl⟩ := startSpan_eq_some.mp starts
  exact ⟨Single.le_max_right zero, Single.min_le_right number⟩

theorem Reached.within {h : Hierarchy} {reach : Single} {part : Part}
    (number : reach.isNaN = false) (reached : h.Reached ray reach part) :
    part.span.Within reach := by
  induction reached with
  | start starts => exact startSpan_within number starts
  | next _ entered ih => exact routeFrom_within ih entered

/-! ### Times in the parts -/

/-- A time up to the front plane stays in the span that ends there. -/
theorem has_front {plane : Single} (inside : span.Has time)
    (upTo : plane.isNaN = true ∨ time ≤ plane) :
    ¬plane < span.near ∧ time ≤ min plane span.far := by
  -- a plane without a time changes nothing: comparisons with it are false
  rcases upTo with none | atMost
  · constructor
    · intro before
      exact absurd before.1 (by simp [none])
    · rw [Single.min_eq, if_pos none]
      exact inside.2
  · exact ⟨Single.not_lt_of_le (Single.le_trans inside.1 atMost),
      Single.le_min (fun _ => atMost) inside.2⟩

/-- A time from the back plane on stays in the span that begins there. -/
theorem has_back {plane : Single} (inside : span.Has time)
    (fromThere : plane.isNaN = true ∨ plane ≤ time) :
    ¬span.far < plane ∧ max plane span.near ≤ time := by
  rcases fromThere with none | atLeast
  · constructor
    · intro behind
      exact absurd behind.2.1 (by simp [none])
    · rw [Single.max_eq, if_pos none]
      exact inside.1
  · exact ⟨Single.not_lt_of_le (Single.le_trans atLeast inside.2),
      Single.max_le (fun _ => atLeast) inside.1⟩

/-- The objects of the leaf at a place. -/
def objectsIn (h : Hierarchy) (index : Nat) : List Nat :=
  match h.nodes[index]? with
  | some (.leaf first count) => (h.objects.extract first (first + count)).toList
  | _ => []

theorem mem_objectsIn {h : Hierarchy} {index object k : Nat} {node : Node}
    (stands : h.nodes[index]? = some node) (inRange : k ∈ node.range)
    (found : h.objects[k]? = some object) : object ∈ h.objectsIn index := by
  cases node with
  | leaf first count =>
    -- the range of the leaf, counted from its first object
    obtain ⟨i, less, rfl⟩ := List.mem_range'.mp inRange
    rw [Nat.one_mul] at found
    obtain ⟨inside, same⟩ := Array.getElem?_eq_some_iff.mp found
    have inExtract : (h.objects.extract first (first + count))[i]? = some object := by
      rw [Array.getElem?_extract_of_lt (by omega), same]
    rw [objectsIn, stands]
    exact List.mem_of_getElem? ((Array.getElem?_toList ..).trans inExtract)
  | split axis child left right => cases inRange
  | narrow axis child low high => cases inRange

/-- The ray enters the near child if its front plane is not passed. -/
theorem near_entered (inside : span.Has time)
    (upTo : (frontTime ray axis left right).isNaN = true ∨ time ≤ frontTime ray axis left right) :
    nearPart ray span axis child left right ∈
        (routeSplit ray span axis child left right).parts ∧
      (nearPart ray span axis child left right).span.Has time := by
  obtain ⟨reached, ends⟩ := has_front inside upTo
  exact ⟨mem_parts_routeSplit.mpr (.inl ⟨reached, rfl⟩), inside.1, ends⟩

theorem far_entered (inside : span.Has time)
    (fromThere : (backTime ray axis left right).isNaN = true ∨
      backTime ray axis left right ≤ time) :
    farPart ray span axis child left right ∈
        (routeSplit ray span axis child left right).parts ∧
      (farPart ray span axis child left right).span.Has time := by
  obtain ⟨reached, begins⟩ := has_back inside fromThere
  exact ⟨mem_parts_routeSplit.mpr (.inr ⟨reached, rfl⟩), begins, inside.2⟩

variable {h : Hierarchy} {boxes : List Box} {object : Nat} {box : Box}

theorem mem_children_split {below : Nat} :
    below ∈ (Node.split axis child left right).children ↔
      (left ≠ .negativeInfinity ∧ below = child) ∨ (right ≠ .infinity ∧ below = child + 1) := by
  simp only [Node.children, List.mem_append]
  by_cases noLeft : left = .negativeInfinity <;> by_cases noRight : right = .infinity <;>
    simp [noLeft, noRight]

/-- A time in the span of a box below a split stays in the part of the side that holds the box. -/
theorem covered_split (represents : h.Represents boxes) (proper : box.Proper)
    (found : boxes[object]? = some box) (regular : ray.RegularOn axis)
    (crosses : ray.Crosses box time) (inside : span.Has time) {index below : Nat}
    (stands : h.nodes[index]? = some (.split axis child left right))
    (isChild : below ∈ (Node.split axis child left right).children) (holds : h.Holds object below) :
    ∃ next ∈ (routeSplit ray span axis child left right).parts,
      next.node = below ∧ next.span.Has time := by
  have number := inside.1.2.1
  -- an infinite clip bounds nothing, but then its side has no contents
  obtain ⟨boundsLeft, boundsRight⟩ := represents.split index axis child left right stands
  rcases mem_children_split.mp isChild with ⟨marked, rfl⟩ | ⟨marked, rfl⟩
  · obtain ⟨finite, keeps⟩ := boundsLeft marked
    have ends : box.hi.get axis ≤ left := keeps object box holds found
    obtain ⟨upTo, fromThere⟩ :=
      regular.time_above (proper axis) (crosses axis) number finite ends
    -- the left side comes first unless the ray runs backwards
    cases negative : (ray.direction.get axis).negative with
    | false =>
      have entered : nearPart ray span axis below left right ∈ _ ∧ _ := near_entered inside
        (by simpa [frontTime, negative] using upTo negative)
      exact ⟨_, entered.1, by simp [nearPart, negative], entered.2⟩
    | true =>
      have entered : farPart ray span axis below left right ∈ _ ∧ _ := far_entered inside
        (by simpa [backTime, negative] using fromThere negative)
      exact ⟨_, entered.1, by simp [farPart, negative], entered.2⟩
  · obtain ⟨finite, keeps⟩ := boundsRight marked
    have begins : right ≤ box.lo.get axis := keeps object box holds found
    obtain ⟨fromThere, upTo⟩ :=
      regular.time_below (proper axis) (crosses axis) number finite begins
    cases negative : (ray.direction.get axis).negative with
    | false =>
      have entered : farPart ray span axis child left right ∈ _ ∧ _ := far_entered inside
        (by simpa [backTime, negative] using fromThere negative)
      exact ⟨_, entered.1, by simp [farPart, negative], entered.2⟩
    | true =>
      have entered : nearPart ray span axis child left right ∈ _ ∧ _ := near_entered inside
        (by simpa [frontTime, negative] using upTo negative)
      exact ⟨_, entered.1, by simp [nearPart, negative], entered.2⟩

theorem covered_narrow (represents : h.Represents boxes) (proper : box.Proper)
    (found : boxes[object]? = some box) (regular : ray.RegularOn axis)
    (crosses : ray.Crosses box time) (inside : span.Has time) {index : Nat}
    (stands : h.nodes[index]? = some (.narrow axis child low high)) (holds : h.Holds object child) :
    ∃ next ∈ (routeNarrow ray span axis child low high).parts,
      next.node = child ∧ next.span.Has time := by
  have number := inside.1.2.1
  obtain ⟨⟨finiteLow, keepsLow⟩, ⟨finiteHigh, keepsHigh⟩⟩ :=
    represents.narrow index axis child low high stands
  have timeLow := regular.time_below (proper axis) (crosses axis) number finiteLow
    (keepsLow object box holds found)
  have timeHigh := regular.time_above (proper axis) (crosses axis) number finiteHigh
    (keepsHigh object box holds found)
  have between : ((frontTime ray axis low high).isNaN = true ∨ frontTime ray axis low high ≤ time) ∧
      ((backTime ray axis low high).isNaN = true ∨ time ≤ backTime ray axis low high) := by
    unfold frontTime backTime
    cases negative : (ray.direction.get axis).negative with
    | false => exact ⟨timeLow.1 negative, timeHigh.1 negative⟩
    | true => exact ⟨timeHigh.2 negative, timeLow.2 negative⟩
  have near := (has_back inside between.1).2
  have far := (has_front inside between.2).2
  exact ⟨_, mem_parts_routeNarrow.mpr ⟨Single.not_lt_of_le (Single.le_trans near far), rfl⟩, rfl,
    near, far⟩

/-- A time in the span of a box that a part holds stays in one of the parts that the ray goes on to,
unless the part is the leaf of the box. -/
theorem covered_next (represents : h.Represents boxes) (proper : box.Proper)
    (found : boxes[object]? = some box) (regular : ∀ axis, ray.RegularOn axis)
    (crosses : ray.Crosses box time) {part : Part} (inside : part.span.Has time)
    (holds : h.Holds object part.node) :
    object ∈ h.objectsIn part.node ∨ ∃ next ∈ (h.routeFrom ray part).parts,
      h.Holds object next.node ∧ next.span.Has time := by
  cases holds with
  | leaf stands inRange object_at => exact .inl (mem_objectsIn stands inRange object_at)
  | @child _ node below stands isChild holds =>
    refine .inr ?_
    cases node with
    | leaf first count => cases isChild
    | split axis child left right =>
      obtain ⟨next, entered, rfl, has⟩ := covered_split represents proper found (regular axis)
        crosses inside stands isChild holds
      exact ⟨next, by simpa [routeFrom, stands] using entered, holds, has⟩
    | narrow axis child low high =>
      obtain rfl : below = child := by simpa [Node.children] using isChild
      obtain ⟨next, entered, rfl, has⟩ := covered_narrow represents proper found (regular axis)
        crosses inside stands holds
      exact ⟨next, by simpa [routeFrom, stands] using entered, holds, has⟩

end Hierarchy

end Sightline
