import Sightline.Proofs.Hierarchy.Counting
import Sightline.Proofs.Hierarchy.Representation

/-!
# How deep hierarchies are

A group at the depth `deepest` becomes a leaf. Only the split behind a one-sided node is not a group of
its own, and its depth is not looked at: behind a one-sided node right above `deepest`, leaves stand one
level deeper than anywhere else.
-/
namespace Sightline.Hierarchy

/-- The ways down from the top node: the place where one ends, and how many nodes are on it. -/
inductive Way (h : Hierarchy) : Nat → Nat → Prop
  | top {index} : index ∈ h.roots → Way h index 1
  | down {index nodes node child} :
      Way h index nodes → h.nodes[index]? = some node → child ∈ node.children →
      Way h child (nodes + 1)

/-- A one-sided node stands right above the depth at which groups become leaves. -/
def Overhangs (h : Hierarchy) : Prop :=
  ∃ index node, h.Way index (deepest - 1) ∧ h.nodes[index]? = some node ∧ node.isOneSided = true

/-! ### Depths of parts -/

namespace Plan

/-- The parts of a plan and how many levels below its top they stand. -/
inductive Below : Plan → Nat → Plan → Prop
  | self {plan} : Below plan 0 plan
  | left {axis clipLeft clipRight left right levels part} :
      Below left levels part → Below (split axis clipLeft clipRight left right) (levels + 1) part
  | right {axis clipLeft clipRight left right levels part} :
      Below right levels part → Below (split axis clipLeft clipRight left right) (levels + 1) part
  | narrow {axis low high inner levels part} :
      Below inner levels part → Below (narrow axis low high inner) (levels + 1) part
  | oneSided {axis side clip inner levels part} :
      Below inner levels part → Below (oneSided axis side clip inner) (levels + 1) part

variable {root plan part : Plan} {place : Place} {bounds : Box} {box : Nat → Box} {levels : Nat}

theorem Within.of_below (within : root.Within plan place) (below : plan.Below levels part) :
    ∃ partPlace, root.Within part partPlace ∧ partPlace.depth = place.depth + levels := by
  induction below generalizing place with
  | self => exact ⟨place, within, rfl⟩
  | left _ ih =>
    obtain ⟨partPlace, inside, deep⟩ := ih within.left
    exact ⟨partPlace, inside, by rw [deep]; dsimp only; omega⟩
  | right _ ih =>
    obtain ⟨partPlace, inside, deep⟩ := ih within.right
    exact ⟨partPlace, inside, by rw [deep]; dsimp only; omega⟩
  | narrow _ ih =>
    obtain ⟨partPlace, inside, deep⟩ := ih within.narrow
    exact ⟨partPlace, inside, by rw [deep]; dsimp only; omega⟩
  | oneSided _ ih =>
    obtain ⟨partPlace, inside, deep⟩ := ih within.oneSided
    exact ⟨partPlace, inside, by rw [deep]; dsimp only; omega⟩

/-- Some leaf stands as far below the top as the plan is high. -/
theorem exists_lowest (plan : Plan) : ∃ objects, plan.Below plan.height (.leaf objects) := by
  induction plan with
  | leaf objects => exact ⟨objects, .self⟩
  | split axis clipLeft clipRight left right ihLeft ihRight =>
    rw [height]
    obtain higher | higher := Nat.le_total left.height right.height
    · obtain ⟨objects, below⟩ := ihRight
      rw [Nat.max_eq_right higher]
      exact ⟨objects, .right below⟩
    · obtain ⟨objects, below⟩ := ihLeft
      rw [Nat.max_eq_left higher]
      exact ⟨objects, .left below⟩
  | narrow axis low high inner ih =>
    obtain ⟨objects, below⟩ := ih
    exact ⟨objects, .narrow below⟩
  | oneSided axis side clip inner ih =>
    obtain ⟨objects, below⟩ := ih
    exact ⟨objects, .oneSided below⟩

/-! ### Ways to parts -/

theorem Within.way (within : root.Within plan place) (respects : root.Respects box) :
    (root.layOut bounds).Way place.index place.depth := by
  induction within with
  | root => exact .top (.head _)
  | left above ih =>
    exact .down ih above.node (by simp [above.children respects, branches, List.range'])
  | right above ih =>
    exact .down ih above.node (by simp [above.children respects, branches, List.range'])
  | narrow above ih => exact .down ih above.node (by simp [above.children respects, branches])
  | oneSided above ih => exact .down ih above.node (by simp [above.children respects, branches])

theorem exists_within_of_way {index nodes : Nat} (respects : root.Respects box)
    (way : (root.layOut bounds).Way index nodes) :
    ∃ part place, root.Within part place ∧ place.index = index ∧ place.depth = nodes := by
  induction way with
  | top start =>
    obtain rfl : _ = 0 := List.mem_singleton.mp start
    exact ⟨root, _, .root, rfl, rfl⟩
  | down _ stands isChild ih =>
    obtain ⟨part, place, within, rfl, rfl⟩ := ih
    have isTop := within.node_eq stands
    subst isTop
    obtain ⟨below, belowPlace, inside, index, depth, -⟩ := within.exists_child respects isChild
    exact ⟨below, belowPlace, inside, index, depth⟩

/-- What is divided is at least one level high. -/
theorem height_pos (divided : plan.sizeBelow ≠ 0) : 0 < plan.height := by
  cases plan with
  | leaf objects => exact absurd rfl divided
  | split axis clipLeft clipRight left right => exact Nat.succ_pos _
  | narrow axis low high inner => exact Nat.succ_pos _
  | oneSided axis side clip inner => exact Nat.succ_pos _

end Plan

/-- A plan that is too deep has a one-sided part right above `deepest`. -/
theorem planItems_oneSided {leafSize levels depth : Nat} {items : List Item} {grid space : Box}
    {plan : Plan} (returned : planItems leafSize levels depth items grid space = .ok plan)
    (shallow : depth ≤ deepest) (deep : deepest < depth + plan.height) :
    ∃ above part, depth + above + 1 = deepest ∧ plan.Below above part ∧ part.isOneSided = true := by
  induction levels generalizing depth items grid space plan with
  | zero =>
    cases returned
    exact absurd deep (Nat.not_lt.mpr shallow)
  | succ levels ih =>
    cases planItems_planned returned with
    | few => exact absurd deep (Nat.not_lt.mpr shallow)
    | leaf => exact absurd deep (Nat.not_lt.mpr shallow)
    | narrow _ less _ planned =>
      rw [Plan.height] at deep
      obtain ⟨above, part, right, below, kind⟩ := ih planned less (by omega)
      exact ⟨above + 1, part, by omega, .narrow below, kind⟩
    | @split axis plane s cut left right _ less _ plannedLeft plannedRight =>
      rw [Plan.height] at deep
      obtain deeper | deeper :
          deepest < depth + 1 + left.height ∨ deepest < depth + 1 + right.height := by omega
      · obtain ⟨above, part, right, below, kind⟩ := ih plannedLeft less deeper
        exact ⟨above + 1, part, by omega, .left below, kind⟩
      · obtain ⟨above, part, right, below, kind⟩ := ih plannedRight less deeper
        exact ⟨above + 1, part, by omega, .right below, kind⟩
    | @oneSided axis plane s cut holeAxis side clip left right _ less _ plannedLeft plannedRight =>
      by_cases last : depth + 1 = deepest
      · exact ⟨0, _, last, .self, rfl⟩
      · have further : depth + 2 ≤ deepest := by omega
        rw [Plan.height, Plan.height] at deep
        obtain deeper | deeper :
            deepest < depth + 2 + left.height ∨ deepest < depth + 2 + right.height := by omega
        · obtain ⟨above, part, right, below, kind⟩ := ih plannedLeft further deeper
          exact ⟨above + 2, part, by omega, .oneSided (.left below), kind⟩
        · obtain ⟨above, part, right, below, kind⟩ := ih plannedRight further deeper
          exact ⟨above + 2, part, by omega, .oneSided (.right below), kind⟩

theorem overhangs_iff {box : Nat → Box} {bounds : Box} {objects : List Nat} {leafSize : Nat}
    {items : List Item} {grid space : Box} {plan : Plan} (made : plan.Made box 1 objects)
    (planned : planItems leafSize deepest 1 items grid space = .ok plan) :
    (plan.layOut bounds).Overhangs ↔ deepest < 1 + plan.height := by
  constructor
  · rintro ⟨index, node, way, stands, kind⟩
    obtain ⟨part, place, within, rfl, deep⟩ := Plan.exists_within_of_way made.respects way
    rw [within.node_eq stands, Plan.isOneSided_top (within.respects made.respects)] at kind
    have total := within.depth_add_height_le
    have solid := within.solid made.solid
    -- the split behind a one-sided part is another level, and its leaves are one more
    cases part with
    | oneSided axis side clip inner =>
      have divided := Plan.height_pos solid.1
      rw [Plan.height] at total
      rw [deepest] at deep ⊢
      omega
    | leaf objects => cases kind
    | split axis clipLeft clipRight left right => cases kind
    | narrow axis low high inner => cases kind
  · intro deep
    obtain ⟨above, part, level, below, kind⟩ := planItems_oneSided planned (by decide) deep
    obtain ⟨place, within, depth⟩ := Plan.Within.of_below .root below
    have way : (plan.layOut bounds).Way _ _ := within.way made.respects
    refine ⟨place.index, _, ?_, within.node, ?_⟩
    · rwa [depth, show 1 + above = deepest - 1 by omega] at way
    · rwa [Plan.isOneSided_top (within.respects made.respects)]

/-! ### Depths that are counted -/

namespace Statistics

theorem greatestDepth_addPlan (plan : Plan) (depth : Nat) (s : Statistics) :
    (addPlan depth plan s).greatestDepth = max s.greatestDepth (depth + plan.height) := by
  induction plan generalizing depth s with
  | leaf objects => rfl
  | split axis clipLeft clipRight left right ihLeft ihRight =>
    have own : s.addNode.greatestDepth = s.greatestDepth := rfl
    rw [addPlan, ihRight, ihLeft, own, Plan.height]
    omega
  | narrow axis low high inner ih =>
    refine (ih (depth + 1) _).trans ?_
    rw [Plan.height, Nat.add_right_comm, ← Nat.add_assoc]
    rfl
  | oneSided axis side clip inner ih =>
    -- the empty side is no deeper than the other one
    have own : (s.addNode.addLeaf (depth + 1) 0).greatestDepth = max s.greatestDepth (depth + 1) := rfl
    rw [addPlan, ih, own, Plan.height]
    omega

end Statistics

theorem greatestDepth_of_planned {plan : Plan} :
    (Statistics.addPlan 1 plan {}).greatestDepth = 1 + plan.height := by
  rw [Statistics.greatestDepth_addPlan]
  exact Nat.zero_max _

variable {boxes : List Box} {leafSize : Nat} {h : Hierarchy} {stats : Statistics}

/-- No way has more nodes than the greatest depth that was counted. -/
theorem buildCounted_way_le (proper : ∀ box ∈ boxes, box.Proper)
    (built : buildCounted boxes leafSize = .ok (h, stats)) {index nodes : Nat}
    (way : h.Way index nodes) : nodes ≤ stats.greatestDepth := by
  obtain ⟨rfl, rfl, rfl⟩ | ⟨-, plan, planned, rfl, rfl⟩ := buildCounted_planned built
  · induction way with
    | top start => cases start
    | down _ stands => simp [empty] at stands
  · have made := made_of_planned proper planned
    obtain ⟨part, place, within, rfl, rfl⟩ := Plan.exists_within_of_way made.respects way
    have total := within.depth_add_height_le
    rw [greatestDepth_of_planned]
    omega

/-- The way down to some leaf has as many nodes as the greatest depth that was counted. -/
theorem buildCounted_exists_way (proper : ∀ box ∈ boxes, box.Proper)
    (built : buildCounted boxes leafSize = .ok (h, stats)) (filled : boxes ≠ []) :
    ∃ index first count, h.Way index stats.greatestDepth ∧
      h.nodes[index]? = some (.leaf first count) := by
  obtain ⟨none, -⟩ | ⟨-, plan, planned, rfl, rfl⟩ := buildCounted_planned built
  · exact absurd none filled
  · have made := made_of_planned proper planned
    obtain ⟨objects, below⟩ := plan.exists_lowest
    obtain ⟨place, within, deep⟩ := Plan.Within.of_below .root below
    have way : (plan.layOut (boundsOf boxes)).Way _ _ := within.way made.respects
    rw [deep] at way
    refine ⟨place.index, place.first, objects.length, ?_, within.node⟩
    rwa [greatestDepth_of_planned]

theorem buildCounted_deep_iff (proper : ∀ box ∈ boxes, box.Proper)
    (built : buildCounted boxes leafSize = .ok (h, stats)) :
    h.Overhangs ↔ deepest < stats.greatestDepth := by
  obtain ⟨-, rfl, rfl⟩ | ⟨-, plan, planned, rfl, rfl⟩ := buildCounted_planned built
  · constructor
    · rintro ⟨index, node, -, stands, -⟩
      simp [empty] at stands
    · intro deep
      exact absurd deep (Nat.not_lt_zero _)
  · rw [greatestDepth_of_planned]
    exact overhangs_iff (made_of_planned proper planned) planned

/-- No way down is longer than the greatest depth that was counted, and that is the length of one. It is
at most `deepest`, unless a one-sided node stands right above that: then it is one more. -/
theorem buildCounted_depth (proper : ∀ box ∈ boxes, box.Proper)
    (built : buildCounted boxes leafSize = .ok (h, stats)) :
    ((∀ index nodes, h.Way index nodes → nodes ≤ deepest) ∧ stats.greatestDepth ≤ deepest ↔
      ¬h.Overhangs) ∧
    (∀ index nodes, h.Way index nodes → nodes ≤ stats.greatestDepth) ∧
    (boxes ≠ [] → ∃ index first count, h.Way index stats.greatestDepth ∧
      h.nodes[index]? = some (.leaf first count)) ∧
    stats.greatestDepth ≤ deepest + 1 := by
  have within (index nodes : Nat) (way : h.Way index nodes) : nodes ≤ stats.greatestDepth :=
    buildCounted_way_le proper built way
  refine ⟨?_, within, buildCounted_exists_way proper built, ?_⟩
  · rw [buildCounted_deep_iff proper built, Nat.not_lt]
    constructor
    · exact And.right
    · intro least
      exact ⟨fun index nodes way => Nat.le_trans (within index nodes way) least, least⟩
  · obtain ⟨-, -, rfl⟩ | ⟨-, plan, planned, -, rfl⟩ := buildCounted_planned built
    · exact Nat.zero_le _
    · have most := (made_of_planned proper planned).height_le
      rw [greatestDepth_of_planned]
      omega

theorem buildCounted_depth_apart :
    (∀ box ∈ apart, box.Proper) ∧ apart ≠ [] ∧
      ∃ h stats, buildCounted apart 1 = .ok (h, stats) ∧ stats.greatestDepth = 2 ∧ ¬h.Overhangs := by
  have built : buildCounted apart 1 = .ok (_, _) := rfl
  have depth := buildCounted_depth apart_proper built
  refine ⟨apart_proper, nofun, _, _, built, rfl, depth.1.mp ⟨?_, by decide⟩⟩
  exact fun index nodes way => Nat.le_trans (depth.2.1 index nodes way) (by decide)

/-- Points on a line, each four times as far as the one before, and a last one twice as far. -/
def telescope : List Box :=
  (0 :: (List.range 32).map (4 ^ ·) ++ [2 ^ 63]).map fun distance =>
    ⟨⟨.ofNat distance, 0, 0⟩, ⟨.ofNat distance, 0, 0⟩⟩

/-- Every group of the points but the first two leaves a side empty before it is divided, so that every
other node is one-sided, down to the one right above `deepest`. -/
theorem buildCounted_telescope :
    (∀ box ∈ telescope, box.Proper) ∧
      ∃ h stats, buildCounted telescope 1 = .ok (h, stats) ∧ ¬stats.greatestDepth ≤ deepest ∧
        ¬∀ index nodes, h.Way index nodes → nodes ≤ deepest := by
  have proper : ∀ box ∈ telescope, box.Proper := by decide +kernel
  have depth : ((buildCounted telescope 1).map fun built => built.2.greatestDepth) = .ok 65 := by
    decide +kernel
  cases built : buildCounted telescope 1 with
  | error failure =>
    rw [built] at depth
    cases depth
  | ok result =>
    rw [built] at depth
    have deep : result.2.greatestDepth = 65 := Except.ok.inj depth
    refine ⟨proper, result.1, result.2, rfl, by rw [deep]; decide, fun all => ?_⟩
    obtain ⟨index, -, -, way, -⟩ := buildCounted_exists_way proper built nofun
    rw [deep] at way
    exact absurd (all index 65 way) (by decide)

end Sightline.Hierarchy
