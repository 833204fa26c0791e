import Sightline.Proofs.Hierarchy.OneLeaf
import Sightline.Proofs.Mesh.NearestInGroup

/-!
# The nearest hit of a model

A cast goes on two levels: a walk over the groups casts the ray into each group that it comes to, with
the reach that is left. The hits of a group lie in its bounds, so to the walk over the groups the first
hit of a group is the hit of one object. It ends at the nearest hit of all, or does not end: where the ray
turns in the tree of the groups, or in a group.
-/
namespace Sightline

open Hierarchy

/-! ### Groups as objects -/

namespace Model

variable {m start : Model} {groups : List Group} {g : Group} {ray : Ray} {reach : Single}

/-- A cast ends with the least of the reach and the times of all triangles, and tells of a hit exactly
if one of them is nearer than the reach. -/
def FindsNearest (m : Model) (ray : Ray) (reach : Single) : Prop :=
  ∃ hit rest, m.castRay ray false reach = .ok (hit, rest) ∧
    Single.IsEarliest (m.hitTimes ray) reach rest ∧
    (hit = true ↔ ∃ time ∈ m.hitTimes ray, time < reach)

/-- The time at which the ray hits the group with some number. -/
def groupTime? (m : Model) (ray : Ray) (entry : Nat) : Option Single :=
  m.groups[entry]?.bind fun g => Single.earliest? (g.hitTimes ray)

theorem lt_infinity_of_mem {time : Single} (member : time ∈ g.hitTimes ray) : time < .infinity :=
  (Group.hitTimes_pos time member).2

theorem mem_of_groupTime? {entry : Nat} {time : Single} (hit : m.groupTime? ray entry = some time) :
    ∃ g, m.groups[entry]? = some g ∧ time ∈ g.hitTimes ray := by
  obtain ⟨g, stands, found⟩ := Option.bind_eq_some_iff.mp hit
  exact ⟨g, stands, Single.mem_of_earliest? (fun _ => lt_infinity_of_mem) found⟩

/-- A cast that goes as far as the nearest hit also tells of it. -/
theorem findsNearest_of_isEarliest (number : reach.isNaN = false)
    (ends : ∃ hit rest, m.castRay ray false reach = .ok (hit, rest) ∧
      Single.IsEarliest (m.hitTimes ray) reach rest) : m.FindsNearest ray reach := by
  obtain ⟨hit, rest, cast, least⟩ := ends
  have told := (castRay_tells cast).hit_iff number
  exact ⟨hit, rest, cast, least, told.trans (least.lt_iff number)⟩

/-- The walk over the groups may come to a part where the ray turns, or to a group in which it may. -/
def TreeTurns (m : Model) (ray : Ray) (reach : Single) : Prop :=
  ∃ part, m.tree.Reached ray reach part ∧
    (m.tree.Turns ray part ∨ ∃ entry ∈ m.tree.objectsIn part.node,
      ∃ g, m.groups[entry]? = some g ∧ g.Turns ray reach)

/-- A cast may come to a part where the ray turns. A group that is alone is not walked to. -/
def Turns (m : Model) (ray : Ray) (reach : Single) : Prop :=
  match m.groups.toList with
  | [g] => g.Turns ray reach
  | _ => m.TreeTurns ray reach

/-- What is asked of a model and a ray with some reach. -/
structure Aimed (m : Model) (ray : Ray) (reach : Single) : Prop where
  tree : build (m.groups.toList.map Group.bounds) 1 = .ok m.tree
  enclosed : ∀ g ∈ m.groups.toList, g.Enclosed
  proper : ray.Proper
  inBoxes : ∀ g ∈ m.groups.toList, g.HitsInBoxes ray
  number : reach.isNaN = false

theorem Aimed.group (aimed : m.Aimed ray reach) (listed : g ∈ m.groups.toList) {left : Single}
    (number : left.isNaN = false) : g.Aimed ray left :=
  ⟨aimed.enclosed g listed, aimed.proper, aimed.inBoxes g listed, number⟩

/-- The first hits of the groups, as hits of their bounds. -/
def hitsOf (aimed : m.Aimed ray reach) : Hits (m.groups.toList.map Group.bounds) ray where
  time := m.groupTime? ray
  positive entry time hit := by
    obtain ⟨g, -, member⟩ := mem_of_groupTime? hit
    exact (Group.hitTimes_pos time member).1
  inBox entry time hit := by
    obtain ⟨g, stands, member⟩ := mem_of_groupTime? hit
    have listed := (Array.mem_of_getElem? stands).val
    have enclosed := aimed.enclosed g listed
    -- the triangle that is hit has its box in the bounds of the group
    obtain ⟨boxes, boxed⟩ := enclosed.boxed
    obtain ⟨place, timed⟩ := Group.mem_hitTimes_iff.mp member
    obtain ⟨t, triangle, hit⟩ := Option.bind_eq_some_iff.mp timed
    obtain ⟨corners, known, box⟩ := boxed.box place t triangle
    have owned := (Array.mem_of_getElem? triangle).val
    have crosses : ray.Crosses g.bounds time :=
      (aimed.inBoxes g listed t owned corners time known hit).of_covers aimed.proper.regular
        (enclosed.covers t owned corners known) enclosed.proper
        (boxed.proper _ (List.mem_of_getElem? box))
    exact ⟨g.bounds, by simp [List.getElem?_map, stands], crosses⟩

/-- The visit of a group shortens the reach to its first hit, or the ray turns in the group. -/
theorem Aimed.visitGroup_shortens (aimed : m.Aimed ray reach) {entry : Nat}
    (inside : entry < m.groups.size) {progress : Progress Bool}
    (number : progress.reach.isNaN = false) :
    (∃ hit memo, m.visitGroup ray false entry progress =
        .ok (hit, ⟨shorten (m.groupTime? ray) progress.reach entry, memo⟩)) ∨
      m.visitGroup ray false entry progress = .error .endless ∧
        ∃ g, m.groups[entry]? = some g ∧ g.Turns ray progress.reach := by
  obtain ⟨g, stands⟩ : ∃ g, m.groups[entry]? = some g := ⟨_, Array.getElem?_eq_getElem inside⟩
  have listed := (Array.mem_of_getElem? stands).val
  have fetched : fetch m.groups entry = .ok g := fetch_eq_ok.mpr stands
  rcases (aimed.group listed number).castRay_finds_or with
    ⟨hit, rest, cast, least⟩ | ⟨endless, turns⟩
  · have positive : ∀ time ∈ g.hitTimes ray, 0 < time := fun time member =>
      (Group.hitTimes_pos time member).1
    have same : rest = shorten (m.groupTime? ray) progress.reach entry := by
      rw [shorten_eq_getD, groupTime?, stands, Option.bind_some]
      -- both are the earliest of the reach and the times in the group
      exact least.unique positive
        (Single.isEarliest_earliest? (fun _ => lt_infinity_of_mem) number)
    refine .inl ⟨progress.memo || hit, progress.memo || hit, ?_⟩
    simp only [visitGroup, fetched, cast, bind, Except.bind, same]
    rfl
  · refine .inr ⟨?_, g, stands, turns⟩
    simp only [visitGroup, fetched, endless, bind, Except.bind]

/-- A model has no groups, or the walk over them is one through a built hierarchy. -/
theorem Aimed.shot (aimed : m.Aimed ray reach) : (m.groups.toList = [] ∧ m.tree = .empty) ∨
    ∃ plan, Shot (m.groups.toList.map Group.bounds) m.tree plan ray reach := by
  have properBounds : ∀ box ∈ m.groups.toList.map Group.bounds, box.Proper := by
    intro box listed
    obtain ⟨g, member, rfl⟩ := List.mem_map.mp listed
    exact (aimed.enclosed g member).proper
  rcases build_cases_of_proper properBounds aimed.tree with ⟨none, empty⟩ | ⟨plan, fromPlan⟩
  · exact .inl ⟨List.map_eq_nil_iff.mp none, empty⟩
  · exact .inr ⟨plan, fromPlan, properBounds, aimed.proper.regular, aimed.number⟩

theorem TreeTurns.shot (turns : m.TreeTurns ray reach) (aimed : m.Aimed ray reach) :
    ∃ plan, Shot (m.groups.toList.map Group.bounds) m.tree plan ray reach := by
  rcases aimed.shot with ⟨-, empty⟩ | shot
  · obtain ⟨part, -, ⟨axis, clip, node, -⟩ | ⟨entry, listed, -⟩⟩ := turns
    · rw [empty] at node
      simp [Hierarchy.empty] at node
    · rw [empty] at listed
      simp [Hierarchy.empty, objectsIn] at listed
  · exact shot

theorem TreeTurns.unbounded (turns : m.TreeTurns ray reach) (aimed : m.Aimed ray reach) :
    ¬reach < .infinity := by
  obtain ⟨plan, shot⟩ := turns.shot aimed
  obtain ⟨part, reached, turning | ⟨entry, -, g, stands, turning⟩⟩ := turns
  · exact shot.unbounded_of_turns reached turning
  · exact turning.unbounded (aimed.group (Array.mem_of_getElem? stands).val aimed.number)

/-- The leaves of the tree name groups that the model has. -/
theorem lt_size_of_shot {plan : Plan}
    (shot : Shot (m.groups.toList.map Group.bounds) m.tree plan ray reach) {index entry : Nat}
    (listed : entry ∈ m.tree.objectsIn index) : entry < m.groups.size := by
  simpa using shot.built.lt_of_mem_objectsIn listed

/-- The first hits of the groups are the nearest hits of the triangles. -/
theorem isEarliest_of_least (aimed : m.Aimed ray reach) {least : Single}
    (found : (hitsOf aimed).Least reach least) : Single.IsEarliest (m.hitTimes ray) reach least := by
  constructor
  case origin =>
    -- what is left of the reach is the first hit of some group, and so that of a triangle
    refine found.found.imp_right fun ⟨entry, hit⟩ => ?_
    obtain ⟨g, stands, member⟩ := mem_of_groupTime? hit
    exact hitTimes_of_group (Array.mem_of_getElem? stands).val _ member
  case le_reach => exact found.le_start
  case le_time =>
    intro time member
    obtain ⟨g, listed, inGroup⟩ := List.mem_flatMap.mp member
    obtain ⟨entry, stands⟩ := Array.mem_iff_getElem?.mp ⟨listed⟩
    obtain ⟨first, firstHit, before⟩ := Single.earliest?_le (fun _ => lt_infinity_of_mem) inGroup
    have hit : m.groupTime? ray entry = some first := by
      rw [groupTime?, stands, Option.bind_some, firstHit]
    exact Single.le_trans (found.le_time entry first hit) before

/-- A walk over the groups finds the nearest hit of them all, or does not end. -/
theorem Aimed.castRayByTree_finds_or (aimed : m.Aimed ray reach) :
    (∃ hit rest, m.castRayByTree ray false reach = .ok (hit, rest) ∧
        Single.IsEarliest (m.hitTimes ray) reach rest) ∨
      m.castRayByTree ray false reach = .error .endless ∧ m.TreeTurns ray reach := by
  rcases aimed.shot with ⟨none, empty⟩ | ⟨plan, shot⟩
  · have nothing : m.hitTimes ray = [] := by rw [hitTimes, none, List.flatMap_nil]
    rw [castRayByTree, empty, nothing]
    exact .inl ⟨false, reach, rfl, Single.isEarliest_nil aimed.number⟩
  · have shortens (part : Part) (entry : Nat) (listed : entry ∈ m.tree.objectsIn part.node) :
        Shortens (m.visitGroup ray false) (m.groupTime? ray) reach entry := by
      intro progress within
      have inside := lt_size_of_shot shot listed
      exact (aimed.visitGroup_shortens inside within.1).symm.imp_left And.left
    rw [castRayByTree]
    rcases shot.walkRay_finds_or aimed.proper.finite aimed.proper.moves (hitsOf aimed)
      (fun part _ entry => shortens part entry) false with
      ⟨final, walked, least⟩ | ⟨endless, part, reached, turning⟩
    · exact .inl ⟨final.memo, final.reach, by rw [walked]; rfl, isEarliest_of_least aimed least⟩
    · refine .inr ⟨by rw [endless]; rfl, part, reached, turning.imp_right ?_⟩
      rintro ⟨entry, listed, progress, within, stuck⟩
      refine ⟨entry, listed, ?_⟩
      rcases aimed.visitGroup_shortens (lt_size_of_shot shot listed) within.1 with
        ⟨hit, memo, visited⟩ | ⟨-, g, stands, turns⟩
      · rw [stuck] at visited
        cases visited
      · -- the ray turns in a group only if there is no end to the reach, and then it is the whole one
        have unbounded := turns.unbounded (aimed.group (Array.mem_of_getElem? stands).val within.1)
        have whole : ¬reach < .infinity := fun finite =>
          unbounded (Single.lt_of_le_of_lt within finite)
        have same : progress.reach = reach :=
          (Single.eq_infinity within.1 unbounded).trans (Single.eq_infinity aimed.number whole).symm
        exact ⟨g, stands, same ▸ turns⟩

/-- A walk over groups that hits nothing does not end where the ray turns. -/
theorem Aimed.castRayByTree_endless (aimed : m.Aimed ray reach) (none : m.hitTimes ray = [])
    (turns : m.TreeTurns ray reach) : m.castRayByTree ray false reach = .error .endless := by
  have unbounded := turns.unbounded aimed
  obtain ⟨plan, shot⟩ := turns.shot aimed
  have idle (part : Part) (entry : Nat) (listed : entry ∈ m.tree.objectsIn part.node) :
      Idle (m.visitGroup ray false) reach entry := by
    intro progress within
    rcases aimed.visitGroup_shortens (lt_size_of_shot shot listed) within.1 with
      ⟨hit, memo, visited⟩ | ⟨endless, -⟩
    · have unchanged := unchanged_of_tells (none ▸ visitGroup_tells visited)
      rw [unchanged] at visited
      exact .inr ⟨hit, visited⟩
    · exact .inl endless
  obtain ⟨part, reached, turning⟩ := turns
  have walk := shot.walkRay_endless_of_idle aimed.proper.finite unbounded
    (fun part _ entry => idle part entry) false reached (turning.imp_right ?_)
  · rw [castRayByTree, walk]
    rfl
  · -- a group in which the ray turns takes the walk over the groups with it
    rintro ⟨entry, listed, g, stands, turns⟩
    have member := (Array.mem_of_getElem? stands).val
    have noHit : g.hitTimes ray = [] := List.flatMap_eq_nil_iff.mp none g member
    have cast := (aimed.group member aimed.number).castRay_endless noHit turns
    have fetched : fetch m.groups entry = .ok g := fetch_eq_ok.mpr stands
    refine ⟨entry, listed, ?_⟩
    simp only [visitGroup, fetched, cast, bind, Except.bind]

/-! ### Casts -/

/-- A cast into a model of one group is one into the group, any other one a walk. -/
theorem castRay_cases (m : Model) (ray : Ray) (reach : Single) :
    (∃ g ∈ m.groups.toList, m.castRay ray false reach = g.castRay ray false reach ∧
        m.hitTimes ray = g.hitTimes ray ∧ (m.Turns ray reach ↔ g.Turns ray reach)) ∨
      m.castRay ray false reach = m.castRayByTree ray false reach ∧
        (m.Turns ray reach ↔ m.TreeTurns ray reach) := by
  by_cases alone : ∃ g, m.groups.toList = [g]
  · obtain ⟨g, alone⟩ := alone
    refine .inl ⟨g, by simp [alone], ?_, ?_, ?_⟩
    · rw [castRay, alone]
    · rw [hitTimes, alone, List.flatMap_singleton]
    · rw [Turns, alone]
  · -- the list of groups is not a single one, so the last branch of each match is taken
    refine .inr ⟨?_, ?_⟩
    · rw [castRay]
      split
      next g one => exact absurd ⟨g, one⟩ alone
      next => rfl
    · rw [Turns]
      split
      next g one => exact absurd ⟨g, one⟩ alone
      next => rfl

theorem Aimed.castRay_finds_or (aimed : m.Aimed ray reach) :
    m.FindsNearest ray reach ∨ m.castRay ray false reach = .error .endless ∧ m.Turns ray reach := by
  rcases m.castRay_cases ray reach with ⟨g, listed, cast, times, turns⟩ | ⟨cast, turns⟩
  · rcases (aimed.group listed aimed.number).castRay_finds_or with finds | ⟨endless, turning⟩
    · rw [← cast, ← times] at finds
      exact .inl (findsNearest_of_isEarliest aimed.number finds)
    · exact .inr ⟨cast.trans endless, turns.mpr turning⟩
  · rcases aimed.castRayByTree_finds_or with finds | ⟨endless, turning⟩
    · rw [← cast] at finds
      exact .inl (findsNearest_of_isEarliest aimed.number finds)
    · exact .inr ⟨cast.trans endless, turns.mpr turning⟩

theorem Turns.eq_infinity (turns : m.Turns ray reach) (aimed : m.Aimed ray reach) :
    reach = .infinity := by
  apply Single.eq_infinity aimed.number
  rcases m.castRay_cases ray reach with ⟨g, listed, -, -, same⟩ | ⟨-, same⟩
  · exact (same.mp turns).unbounded (aimed.group listed aimed.number)
  · exact (same.mp turns).unbounded aimed

theorem Aimed.castRay_endless (aimed : m.Aimed ray reach) (none : m.hitTimes ray = [])
    (turns : m.Turns ray reach) : m.castRay ray false reach = .error .endless := by
  rcases m.castRay_cases ray reach with ⟨g, listed, cast, times, same⟩ | ⟨cast, same⟩
  · have inGroup := aimed.group listed aimed.number
    exact cast.trans (inGroup.castRay_endless (times ▸ none) (same.mp turns))
  · exact cast.trans (aimed.castRayByTree_endless none (same.mp turns))

/-- A cast finds the nearest hit of a model, whatever its groups, unless its walks may come to a part
where the ray turns. If they may, there is no end to the reach, and no end to the cast if there is
nothing to hit. -/
theorem castRay_nearest (built : start.withGroups groups = .ok m)
    (enclosed : ∀ g ∈ groups, g.Enclosed) {origin direction : Vec}
    (finiteOrigin : origin.isFinite = true) (finiteDirection : direction.isFinite = true)
    (inverse : ∀ axis, (direction.get axis).rank = 0 ∨ (1 / direction.get axis).isFinite = true)
    (moves : ∃ axis, ¬(direction.get axis).Near 0) {reach : Single} (number : reach.isNaN = false)
    (inBoxes : ∀ g ∈ groups, g.HitsInBoxes (.ofDirection origin direction)) :
    (¬m.Turns (.ofDirection origin direction) reach →
        m.FindsNearest (.ofDirection origin direction) reach) ∧
      (m.Turns (.ofDirection origin direction) reach →
        reach = .infinity ∧
          (m.FindsNearest (.ofDirection origin direction) reach ∨
            m.castRay (.ofDirection origin direction) false reach = .error .endless) ∧
          (m.hitTimes (.ofDirection origin direction) = [] →
            m.castRay (.ofDirection origin direction) false reach = .error .endless)) := by
  have proper := Ray.proper_ofDirection finiteOrigin finiteDirection inverse moves
  obtain ⟨rfl, tree⟩ := withGroups_built built
  have aimed : m.Aimed (.ofDirection origin direction) reach :=
    ⟨tree, enclosed, proper, inBoxes, number⟩
  have finds := aimed.castRay_finds_or
  constructor
  · intro straight
    exact finds.resolve_right fun endless => straight endless.2
  · intro turns
    refine ⟨turns.eq_infinity aimed, finds.imp_right And.left, fun none => ?_⟩
    exact aimed.castRay_endless none turns

end Model

/-! ### Panels -/

/-- A triangle on the front of a box, across the y axis. -/
def panelCorners (b : Box) : Corners :=
  ⟨b.lo, ⟨b.hi.x, b.lo.y, b.lo.z⟩, ⟨b.lo.x, b.lo.y, b.hi.z⟩⟩

/-- A group of one triangle, in the bounds of a box. -/
def panel (b : Box) : Group :=
  { bounds := b
    flags := 0
    id := 0
    vertices := #[(panelCorners b).a, (panelCorners b).b, (panelCorners b).c]
    triangles := #[⟨0, 1, 2⟩]
    tree := single (panelCorners b).bounds }

/-- A point with a face of a proper box on each axis is a finite point of the box. -/
theorem Box.Proper.corner {b : Box} (proper : b.Proper) {v : Vec}
    (faces : ∀ axis, v.get axis = b.lo.get axis ∨ v.get axis = b.hi.get axis) :
    v.isFinite = true ∧ b.Contains v := by
  have on (axis : Axis) : (v.get axis).isFinite = true ∧ b.lo.get axis ≤ v.get axis ∧
      v.get axis ≤ b.hi.get axis := by
    obtain ⟨finiteLo, finiteHi, ordered⟩ := proper axis
    rcases faces axis with same | same
    · rw [same]
      exact ⟨finiteLo, Single.le_self ordered.1, ordered⟩
    · rw [same]
      exact ⟨finiteHi, ordered, Single.le_self ordered.2.1⟩
  refine ⟨?_, contains_iff.mpr fun axis => (on axis).2⟩
  rw [Vec.isFinite, Bool.and_eq_true, Bool.and_eq_true]
  exact ⟨⟨(on .x).1, (on .y).1⟩, (on .z).1⟩

theorem panel_faces {b : Box} {v : Vec} (listed : v ∈ (panel b).vertices.toList) (axis : Axis) :
    v.get axis = b.lo.get axis ∨ v.get axis = b.hi.get axis := by
  have corners : v = (panelCorners b).a ∨ v = (panelCorners b).b ∨ v = (panelCorners b).c := by
    simpa [panel] using listed
  rcases corners with rfl | rfl | rfl <;> cases axis <;> simp [panelCorners, Vec.get]

theorem panel_corners {b : Box} {t : Triangle} (listed : t ∈ (panel b).triangles.toList)
    {corners : Corners} (known : t.corners (panel b).vertices = .ok corners) :
    t = ⟨0, 1, 2⟩ ∧ corners = panelCorners b := by
  obtain rfl := List.mem_singleton.mp listed
  exact ⟨rfl, (Except.ok.inj known).symm⟩

theorem panel_made (b : Box) :
    ({ bounds := b, flags := 0, id := 0 } : Group).withMesh
      [(panelCorners b).a, (panelCorners b).b, (panelCorners b).c] [⟨0, 1, 2⟩] = .ok (panel b) := by
  have boxes : Group.triangleBoxes #[(panelCorners b).a, (panelCorners b).b, (panelCorners b).c]
      [⟨0, 1, 2⟩] = .ok [(panelCorners b).bounds] := rfl
  have tree := build_one (panelCorners b).bounds (show 1 ≤ defaultLeafSize by decide)
  rw [Group.withMesh, boxes]
  dsimp only [bind, Except.bind]
  rw [tree]
  rfl

theorem panel_enclosed {b : Box} (proper : b.Proper) : (panel b).Enclosed where
  made := ⟨_, _, _, panel_made b⟩
  finite v listed := (proper.corner (panel_faces listed)).1
  proper := proper
  covers := by
    intro t listed corners known
    obtain ⟨-, rfl⟩ := panel_corners listed known
    have covers (v : Vec) (vertex : v ∈ (panel b).vertices.toList) : b.Covers (.ofPoint v) :=
      (proper.corner (panel_faces vertex)).2
    have coversA := covers (panelCorners b).a (by simp [panel])
    have coversB := covers (panelCorners b).b (by simp [panel])
    have coversC := covers (panelCorners b).c (by simp [panel])
    rw [Corners.bounds_eq_merge]
    exact (coversA.merge coversB).merge coversC

/-- A panel is hit in its box if the one time at which it is hit lies there. -/
theorem panel_hitsInBoxes {b : Box} {ray : Ray}
    (inBox : ∀ time ∈ (panelCorners b).hitTime? ray, ray.Crosses (panelCorners b).bounds time) :
    (panel b).HitsInBoxes ray := by
  intro t listed corners time known hit
  obtain ⟨rfl, rfl⟩ := panel_corners listed known
  have tested := Triangle.hitWithin?_of_corners known ray .infinity
  rw [Triangle.hitTime?, tested] at hit
  exact inBox time (Option.filter_eq_some_iff.mp hit).1

/-- Two panels, one behind the other. -/
def panels : List Group := [panel ⟨⟨0, 2, 0⟩, ⟨1, 2, 1⟩⟩, panel ⟨⟨0, 1, 0⟩, ⟨1, 1.5, 1⟩⟩]

namespace Model

theorem castRay_nearest_panels :
    ∃ m, ({ root := 7 } : Model).withGroups panels = .ok m ∧
      m.hitTimes (.ofDirection ⟨0.25, -1, 0.25⟩ ⟨0, 1, 0⟩) = [3, 2] ∧
      m.FindsNearest (.ofDirection ⟨0.25, -1, 0.25⟩ ⟨0, 1, 0⟩) 100 := by
  have built : ({ root := 7 } : Model).withGroups panels = .ok ⟨7, panels.toArray,
      ⟨#[.split .y 1 1.5 2, .leaf 0 1, .leaf 1 1], #[1, 0], ⟨⟨0, 1, 0⟩, ⟨1, 2, 1⟩⟩⟩⟩ := by
    decide +kernel
  have proper : Box.Proper ⟨⟨0, 2, 0⟩, ⟨1, 2, 1⟩⟩ ∧ Box.Proper ⟨⟨0, 1, 0⟩, ⟨1, 1.5, 1⟩⟩ := by
    decide +kernel
  have enclosed : ∀ g ∈ panels, g.Enclosed := by
    simpa [panels] using And.intro (panel_enclosed proper.1) (panel_enclosed proper.2)
  have finiteOrigin : Vec.isFinite ⟨0.25, -1, 0.25⟩ = true := by decide +kernel
  have finiteDirection : Vec.isFinite ⟨0, 1, 0⟩ = true := by decide +kernel
  have inverse (axis : Axis) : ((⟨0, 1, 0⟩ : Vec).get axis).rank = 0 ∨
      (1 / (⟨0, 1, 0⟩ : Vec).get axis).isFinite = true := by
    cases axis <;> decide +kernel
  have moves : ∃ axis, ¬((⟨0, 1, 0⟩ : Vec).get axis).Near 0 := ⟨.y, by decide +kernel⟩
  have number : Single.isNaN 100 = false := by decide +kernel
  have inBoxes : ∀ g ∈ panels, g.HitsInBoxes (.ofDirection ⟨0.25, -1, 0.25⟩ ⟨0, 1, 0⟩) := by
    have first : (panel ⟨⟨0, 2, 0⟩, ⟨1, 2, 1⟩⟩).HitsInBoxes
        (.ofDirection ⟨0.25, -1, 0.25⟩ ⟨0, 1, 0⟩) := panel_hitsInBoxes (by decide +kernel)
    have second : (panel ⟨⟨0, 1, 0⟩, ⟨1, 1.5, 1⟩⟩).HitsInBoxes
        (.ofDirection ⟨0.25, -1, 0.25⟩ ⟨0, 1, 0⟩) := panel_hitsInBoxes (by decide +kernel)
    simpa [panels] using And.intro first second
  obtain ⟨straight, turning⟩ :=
    castRay_nearest built enclosed finiteOrigin finiteDirection inverse moves number inBoxes
  refine ⟨_, built, by decide +kernel, straight fun turns => ?_⟩
  have endlessReach := (turning turns).1
  revert endlessReach
  decide +kernel

/-- A ray comes to a part of the tree of the distant boxes where it turns. -/
theorem distantTree_turns :
    ∃ part, distantTree.Reached lowered .infinity part ∧ distantTree.Turns lowered part := by
  have top : distantTree.Reached lowered .infinity ⟨0, ⟨0, .infinity⟩⟩ := .start (by decide +kernel)
  have third : distantTree.Reached lowered .infinity ⟨2, ⟨0, .infinity⟩⟩ :=
    .next top (by decide +kernel)
  exact ⟨_, third, .y, 8e37, by decide +kernel, by decide +kernel, by decide +kernel⟩

/-- The distant boxes with a panel in each. -/
def distantPanels : Model := ⟨7, (distant.map panel).toArray, distantTree⟩

theorem castRay_endless_distant :
    (∀ g ∈ distant.map panel, g.Enclosed) ∧ lowered.Proper ∧
      (∀ g ∈ distant.map panel, g.HitsInBoxes lowered) ∧
      ({ root := 7 } : Model).withGroups (distant.map panel) = .ok distantPanels ∧
      distantPanels.hitTimes lowered = [] ∧ ¬distantPanels.FindsNearest lowered .infinity := by
  have properBoxes : ∀ box ∈ distant, box.Proper := by decide +kernel
  have enclosed : ∀ g ∈ distant.map panel, g.Enclosed := by
    intro g listed
    obtain ⟨box, member, rfl⟩ := List.mem_map.mp listed
    exact panel_enclosed (properBoxes box member)
  have properRay : lowered.Proper :=
    Ray.proper_ofDirection (by decide +kernel) (by decide +kernel)
      (fun axis => by cases axis <;> decide +kernel) ⟨.x, by decide +kernel⟩
  have misses : ∀ box ∈ distant, (panelCorners box).hitTime? lowered = none := by decide +kernel
  have inBoxes : ∀ g ∈ distant.map panel, g.HitsInBoxes lowered := by
    intro g listed
    obtain ⟨box, member, rfl⟩ := List.mem_map.mp listed
    refine panel_hitsInBoxes fun time hit => ?_
    rw [misses box member] at hit
    cases hit
  have tree : build ((distant.map panel).map Group.bounds) 1 = .ok distantTree := by decide +kernel
  have built : ({ root := 7 } : Model).withGroups (distant.map panel) = .ok distantPanels := by
    rw [withGroups, tree]
    rfl
  have nothing : distantPanels.hitTimes lowered = [] := by decide +kernel
  obtain ⟨part, reached, turning⟩ := distantTree_turns
  have turns : distantPanels.Turns lowered .infinity := ⟨part, reached, .inl turning⟩
  have aimed : distantPanels.Aimed lowered .infinity :=
    ⟨tree, enclosed, properRay, inBoxes, Single.isNaN_infinity⟩
  have endless := aimed.castRay_endless nothing turns
  refine ⟨enclosed, properRay, inBoxes, built, nothing, ?_⟩
  rintro ⟨hit, rest, cast, -⟩
  cases cast.symm.trans endless

end Model

end Sightline
