import Sightline.Proofs.Hierarchy.RayRoutes

/-!
# Where routes lead in a plan

The far side of a one-sided node has no contents, but a ray whose span has no end is not kept out of
it: its infinite plane is not behind the span. What stands at the place of the missing child is then
another part of the plan, no higher and no earlier in the array. It may be the node itself, and then the ray
turns there for ever.
-/
namespace Sightline.Hierarchy

namespace Plan

/-- Some part of the plan has its top at a node, at least at the given depth. -/
def Located (root : Plan) (node depth : Nat) : Prop :=
  ∃ plan place, root.Within plan place ∧ place.index = node ∧ depth ≤ place.depth

theorem Located.weaken {root : Plan} {node depth less : Nat} (located : root.Located node depth)
    (atMost : less ≤ depth) : root.Located node less := by
  obtain ⟨plan, place, within, stands, deep⟩ := located
  exact ⟨plan, place, within, stands, Nat.le_trans atMost deep⟩

end Plan

theorem node_routeSplit {ray : Ray} {span : Span} {axis : Axis} {child : Nat} {left right : Single}
    {next : Part} (entered : next ∈ (routeSplit ray span axis child left right).parts) :
    next.node = child ∨ next.node = child + 1 := by
  rcases mem_parts_routeSplit.mp entered with ⟨-, rfl⟩ | ⟨-, rfl⟩
  · unfold nearPart
    cases (ray.direction.get axis).negative with
    | true => exact .inr rfl
    | false => exact .inl rfl
  · unfold farPart
    cases (ray.direction.get axis).negative with
    | true => exact .inl rfl
    | false => exact .inr rfl

variable {ray : Ray} {span : Span} {axis : Axis} {child : Nat} {clip : Single}

theorem max_infinity (x : Single) : max .infinity x = .infinity := by
  rw [Single.max_eq]
  split
  next none => exact absurd none (by decide)
  · split
    next less =>
      have bound := Single.isNaN_eq_false_iff.mp less.2.1
      have above := less.2.2
      rw [Single.rank_infinity] at above
      omega
    · rfl

/-- The near child is never on the empty side on the left: its plane lies before every span. -/
theorem near_ne_left (regular : ray.RegularOn axis) (begins : 0 ≤ span.near)
    (entered : ¬frontTime ray axis .negativeInfinity clip < span.near) :
    (ray.direction.get axis).negative = true := by
  by_contra positive
  apply entered
  have zero : Single.negativeInfinity < 0 := by decide +kernel
  unfold frontTime
  rw [if_neg positive, regular.timeTo_negativeInfinity, if_neg positive]
  exact Single.lt_of_lt_of_le zero begins

theorem backTime_left (regular : ray.RegularOn axis)
    (negative : (ray.direction.get axis).negative = true) :
    backTime ray axis .negativeInfinity clip = .infinity := by
  unfold backTime
  rw [if_pos negative, regular.timeTo_negativeInfinity, if_pos negative]

/-- A far part on the empty side on the left, where it comes back to its own node, is its own
successor. -/
theorem farPart_again (child : Nat) (regular : ray.RegularOn axis)
    (negative : (ray.direction.get axis).negative = true)
    (entered : ¬span.far < backTime ray axis .negativeInfinity clip) :
    farPart ray span axis child .negativeInfinity clip ∈
      (routeSplit ray (farPart ray span axis child .negativeInfinity clip).span axis child
        .negativeInfinity clip).parts := by
  refine mem_parts_routeSplit.mpr (.inr ⟨entered, ?_⟩)
  simp only [farPart, backTime_left regular negative, max_infinity]

/-- The ray looks from a one-sided node towards the empty side on the left, in whose place the node
itself stands, and the span has no end. -/
def Turns (h : Hierarchy) (ray : Ray) (part : Part) : Prop :=
  ∃ axis clip, h.nodes[part.node]? = some (.split axis part.node .negativeInfinity clip) ∧
    (ray.direction.get axis).negative = true ∧ ¬part.span.far < .infinity

/-- Where a ray turns it comes to a part that is its own successor. -/
theorem Turns.again {h : Hierarchy} {part : Part} (turns : h.Turns ray part)
    (regular : ∀ axis, ray.RegularOn axis) :
    ∃ next ∈ (h.routeFrom ray part).parts, next ∈ (h.routeFrom ray next).parts := by
  obtain ⟨axis, clip, node, negative, endless⟩ := turns
  have entered : ¬part.span.far < backTime ray axis .negativeInfinity clip := by
    rwa [backTime_left (regular axis) negative]
  have stays : (farPart ray part.span axis part.node .negativeInfinity clip).node = part.node := by
    simp [farPart, negative]
  refine ⟨farPart ray part.span axis part.node .negativeInfinity clip, ?_, ?_⟩
  · simp only [routeFrom, node]
    exact mem_parts_routeSplit.mpr (.inr ⟨entered, rfl⟩)
  · simp only [routeFrom, stays, node]
    exact farPart_again part.node (regular axis) negative entered

/-- What the route from a part of a plan may lead to: parts that stand no higher and, unless the ray
turns, further on in the array; the first of two parts stands lower. -/
structure Leads (h : Hierarchy) (root : Plan) (ray : Ray) (part : Part) (depth : Nat) : Prop where
  located : ∀ next ∈ (h.routeFrom ray part).parts, root.Located next.node depth
  forward : ∀ next ∈ (h.routeFrom ray part).parts,
    part.node < next.node ∨ h.Turns ray part
  first : ∀ first second, (h.routeFrom ray part).parts = [first, second] →
    root.Located first.node (depth + 1)

theorem leads_of_deeper {h : Hierarchy} {root : Plan} {part : Part} {depth : Nat}
    (deeper : ∀ next ∈ (h.routeFrom ray part).parts,
      root.Located next.node (depth + 1) ∧ part.node < next.node) :
    Leads h root ray part depth where
  located next entered := (deeper next entered).1.weaken (Nat.le_succ _)
  forward next entered := .inl (deeper next entered).2
  first first _ pair := (deeper first (pair ▸ List.mem_cons_self)).1

namespace Plan

variable {root plan inner : Plan} {place : Place} {bounds : Box} {part : Part}

theorem Within.leads_below {axis : Axis}
    (within : root.Within (Plan.oneSided axis .below clip inner) place) (divided : inner.sizeBelow ≠ 0)
    (stands : place.index = part.node) : Leads (root.layOut bounds) root ray part place.depth := by
  have later := within.index_lt_next
  have node : (root.layOut bounds).nodes[part.node]? = some (.split axis place.next clip .infinity) :=
    stands ▸ within.node
  refine leads_of_deeper fun next entered => ?_
  have split : next ∈ (routeSplit ray part.span axis place.next clip .infinity).parts := by
    simpa [routeFrom, node] using entered
  rcases node_routeSplit split with content | empty
  · exact ⟨⟨inner, _, within.oneSided, content.symm, Nat.le_refl _⟩, by omega⟩
  · -- the first part below the contents stands in the place of the missing child
    have less : place.next + 1 < place.next + 1 + inner.sizeBelow := by omega
    obtain ⟨below, belowPlace, inside, found, deep⟩ :=
      within.oneSided.exists_below (Nat.le_refl _) less
    exact ⟨⟨below, belowPlace, inside, found.trans empty.symm, Nat.le_of_lt deep⟩, by omega⟩

theorem Within.leads_above {axis : Axis}
    (within : root.Within (Plan.oneSided axis .above clip inner) place) (regular : ray.RegularOn axis)
    (stands : place.index = part.node) (begins : 0 ≤ part.span.near) :
    Leads (root.layOut bounds) root ray part place.depth := by
  have later := within.index_lt_next
  have back : place.next - 1 + 1 = place.next := by omega
  have node : (root.layOut bounds).nodes[part.node]? =
      some (.split axis (place.next - 1) .negativeInfinity clip) := stands ▸ within.node
  have route : (root.layOut bounds).routeFrom ray part =
      routeSplit ray part.span axis (place.next - 1) .negativeInfinity clip := by
    simp [routeFrom, node]
  have content : root.Located (place.next - 1 + 1) (place.depth + 1) :=
    ⟨inner, _, within.oneSided, back.symm, Nat.le_refl _⟩
  refine ⟨fun next entered => ?_, fun next entered => ?_, fun first second pair => ?_⟩
  · rw [route] at entered
    rcases node_routeSplit entered with empty | full
    · obtain ⟨before, beforePlace, inside, found, deep⟩ := within.exists_before_next
      exact ⟨before, beforePlace, inside, found.trans empty.symm, deep⟩
    · rw [full]
      exact content.weaken (Nat.le_succ _)
  · rw [route] at entered
    rcases mem_parts_routeSplit.mp entered with ⟨reached, rfl⟩ | ⟨reached, rfl⟩
    · -- the near part is never the empty one, which the ray leaves at once
      have negative := near_ne_left regular begins reached
      have node : (nearPart ray part.span axis (place.next - 1) .negativeInfinity clip).node =
          place.next - 1 + 1 := by simp [nearPart, negative]
      exact .inl (by omega)
    · cases negative : (ray.direction.get axis).negative with
      | false =>
        have node : (farPart ray part.span axis (place.next - 1) .negativeInfinity clip).node =
            place.next - 1 + 1 := by simp [farPart, negative]
        exact .inl (by omega)
      | true =>
        have empty : (farPart ray part.span axis (place.next - 1) .negativeInfinity clip).node =
            place.next - 1 := by simp [farPart, negative]
        by_cases further : part.node < place.next - 1
        · exact .inl (by omega)
        · have itself : place.next - 1 = part.node := by omega
          rw [backTime_left regular negative] at reached
          rw [itself] at node
          exact .inr ⟨axis, clip, node, negative, reached⟩
  · rw [route] at pair
    obtain ⟨reached, rfl⟩ := parts_routeSplit_pair pair
    have negative := near_ne_left regular begins reached
    simpa [nearPart, negative] using content

/-- Where a ray goes on from a part of a plan. -/
theorem Within.leads (within : root.Within plan place) (solid : root.Solid)
    (regular : ∀ axis, ray.RegularOn axis) (stands : place.index = part.node)
    (begins : 0 ≤ part.span.near) : Leads (root.layOut bounds) root ray part place.depth := by
  have later := within.index_lt_next
  have node : (root.layOut bounds).nodes[part.node]? = some (plan.top place.next place.first) :=
    stands ▸ within.node
  cases plan with
  | leaf objects =>
    refine leads_of_deeper fun next entered => ?_
    simp [routeFrom, node, top, Route.parts] at entered
  | split axis clipLeft clipRight left right =>
    refine leads_of_deeper fun next entered => ?_
    have split : next ∈ (routeSplit ray part.span axis place.next clipLeft clipRight).parts := by
      simpa [routeFrom, node, top] using entered
    rcases node_routeSplit split with onLeft | onRight
    · exact ⟨⟨left, _, within.left, onLeft.symm, Nat.le_refl _⟩, by omega⟩
    · exact ⟨⟨right, _, within.right, onRight.symm, Nat.le_refl _⟩, by omega⟩
  | narrow axis low high inner =>
    refine leads_of_deeper fun next entered => ?_
    have between : next ∈ (routeNarrow ray part.span axis place.next low high).parts := by
      simpa [routeFrom, node, top] using entered
    obtain ⟨-, rfl⟩ := mem_parts_routeNarrow.mp between
    exact ⟨⟨inner, _, within.narrow, rfl, Nat.le_refl _⟩, stands ▸ later⟩
  | oneSided axis side clip inner =>
    cases side with
    | below => exact within.leads_below (within.solid solid).1 stands
    -- only here may the ray turn: the empty side stands before its node
    | above => exact within.leads_above (regular axis) stands begins

end Plan

end Sightline.Hierarchy
