import Sightline.Proofs.Hierarchy.RayWalking
import Sightline.Proofs.Mesh.HitTimes
import Sightline.Proofs.Mesh.Stored

/-!
# The nearest hit of a group

A walk over the triangles of a group tests each triangle that it comes to and shortens its reach to the
hit. If the ray hits triangles only while it is in their boxes, the walk ends at the nearest hit, or else
it does not end: where the ray turns in the tree, and then the reach had no end.
-/
namespace Sightline

open Hierarchy

theorem Corners.bounds_eq_merge (t : Corners) :
    t.bounds = ((Box.ofPoint t.a).merge (.ofPoint t.b)).merge (.ofPoint t.c) := rfl

theorem Corners.bounds_proper {t : Corners} (finiteA : t.a.isFinite = true)
    (finiteB : t.b.isFinite = true) (finiteC : t.c.isFinite = true) : t.bounds.Proper := by
  have point (v : Vec) (finite : v.isFinite = true) : (Box.ofPoint v).Proper := fun axis =>
    have finiteOn := Vec.isFinite_get finite axis
    ⟨finiteOn, finiteOn, Single.le_self (Single.isNaN_of_isFinite finiteOn)⟩
  rw [bounds_eq_merge]
  exact ((point t.a finiteA).merge (point t.b finiteB)).merge (point t.c finiteC)

theorem Triangle.bounds_proper {t : Triangle} {vertices : Array Vec} {corners : Corners}
    (finite : ∀ v ∈ vertices.toList, v.isFinite = true) (known : t.corners vertices = .ok corners) :
    corners.bounds.Proper := by
  obtain ⟨a, foundA, rest⟩ := bind_eq_ok.mp known
  obtain ⟨b, foundB, rest⟩ := bind_eq_ok.mp rest
  obtain ⟨c, foundC, result⟩ := bind_eq_ok.mp rest
  cases result
  exact Corners.bounds_proper (finite a (mem_of_fetch foundA)) (finite b (mem_of_fetch foundB))
    (finite c (mem_of_fetch foundC))

namespace Group

variable {g : Group} {ray : Ray} {reach : Single}

/-- A group made from a mesh, in proper bounds around all its triangles. -/
structure Enclosed (g : Group) : Prop where
  made : ∃ (start : Group) (vertices : List Vec) (triangles : List Triangle),
    start.withMesh vertices triangles = .ok g
  finite : ∀ v ∈ g.vertices.toList, v.isFinite = true
  proper : g.bounds.Proper
  covers : ∀ t ∈ g.triangles.toList, ∀ corners, t.corners g.vertices = .ok corners →
    g.bounds.Covers corners.bounds

/-- The ray hits each triangle only while it is in the triangle's box. -/
def HitsInBoxes (g : Group) (ray : Ray) : Prop :=
  ∀ t ∈ g.triangles.toList, ∀ corners time, t.corners g.vertices = .ok corners →
    t.hitTime? g.vertices ray = some time → ray.Crosses corners.bounds time

/-- The walk over the triangles may come to a part where the ray turns. -/
def Turns (g : Group) (ray : Ray) (reach : Single) : Prop :=
  ∃ part, g.tree.Reached ray reach part ∧ g.tree.Turns ray part

/-- The time at which the ray hits the triangle with some number. -/
def triangleTime? (g : Group) (ray : Ray) (entry : Nat) : Option Single :=
  g.triangles[entry]?.bind fun t => t.hitTime? g.vertices ray

theorem mem_hitTimes_iff {time : Single} :
    time ∈ g.hitTimes ray ↔ ∃ entry, g.triangleTime? ray entry = some time := by
  constructor
  · intro member
    obtain ⟨t, listed, hit⟩ := List.mem_filterMap.mp member
    obtain ⟨entry, stands⟩ := Array.mem_iff_getElem?.mp ⟨listed⟩
    exact ⟨entry, Option.bind_eq_some_iff.mpr ⟨t, stands, hit⟩⟩
  · rintro ⟨entry, known⟩
    obtain ⟨t, stands, hit⟩ := Option.bind_eq_some_iff.mp known
    have listed := (Array.mem_of_getElem? stands).val
    exact List.mem_filterMap.mpr ⟨t, listed, hit⟩

/-- The boxes of the triangles, over which the tree is built. -/
structure Boxed (g : Group) (boxes : List Box) : Prop where
  built : build boxes defaultLeafSize = .ok g.tree
  size : boxes.length = g.triangles.size
  proper : ∀ box ∈ boxes, box.Proper
  box : ∀ (entry : Nat) (t : Triangle), g.triangles[entry]? = some t →
    ∃ corners, t.corners g.vertices = .ok corners ∧ boxes[entry]? = some corners.bounds

theorem Enclosed.boxed (enclosed : g.Enclosed) : ∃ boxes, g.Boxed boxes := by
  obtain ⟨start, vertices, triangles, made⟩ := enclosed.made
  obtain ⟨boxes, known, built⟩ := withMesh_built made
  have pairs := mapM_eq_ok.mp known
  have cornersOf {entry : Nat} (known : entry < g.triangles.toList.length) :
      ∃ corners, g.triangles.toList[entry].corners g.vertices = .ok corners ∧
        boxes[entry]? = some corners.bounds := by
    have inside : entry < boxes.length := pairs.length_eq ▸ known
    obtain ⟨corners, found, same⟩ := bind_eq_ok.mp (pairs.get known inside)
    have box := congrArg some (Except.ok.inj same).symm
    exact ⟨corners, found, (List.getElem?_eq_getElem inside).trans box⟩
  refine ⟨boxes, ?_⟩
  -- the boxes were computed from the triangles one by one, so they stand at the same places
  constructor
  case built => exact built
  case size => simpa using pairs.length_eq.symm
  case proper =>
    intro box member
    obtain ⟨entry, inside, rfl⟩ := List.mem_iff_getElem.mp member
    obtain ⟨corners, found, same⟩ := cornersOf (pairs.length_eq ▸ inside)
    rw [List.getElem?_eq_getElem inside, Option.some.injEq] at same
    rw [same]
    exact Triangle.bounds_proper enclosed.finite found
  case box =>
    intro entry t stands
    rw [← Array.getElem?_toList, List.getElem?_eq_some_iff] at stands
    obtain ⟨inside, rfl⟩ := stands
    exact cornersOf inside

/-- The times of the triangles, as hits of the boxes. -/
def hitsOf {boxes : List Box} (boxed : g.Boxed boxes) (inBoxes : g.HitsInBoxes ray) :
    Hits boxes ray where
  time := g.triangleTime? ray
  positive entry time hit := (hitTimes_pos time (mem_hitTimes_iff.mpr ⟨entry, hit⟩)).1
  inBox entry time hit := by
    obtain ⟨t, stands, timed⟩ := Option.bind_eq_some_iff.mp hit
    obtain ⟨corners, known, box⟩ := boxed.box entry t stands
    have listed := (Array.mem_of_getElem? stands).val
    exact ⟨corners.bounds, box, inBoxes t listed corners time known timed⟩

/-- The visit of a triangle ends and shortens the reach to its time. -/
theorem visitTriangle_shortens (ray : Ray) {boxes : List Box} (boxed : g.Boxed boxes) {entry : Nat}
    (inside : entry < boxes.length) (progress : Progress Bool) :
    ∃ hit memo, g.visitTriangle ray entry progress =
      .ok (hit, ⟨shorten (g.triangleTime? ray) progress.reach entry, memo⟩) := by
  obtain ⟨t, stands⟩ : ∃ t, g.triangles[entry]? = some t :=
    ⟨_, Array.getElem?_eq_getElem (boxed.size ▸ inside)⟩
  obtain ⟨corners, known, -⟩ := boxed.box entry t stands
  have fetched : fetch g.triangles entry = .ok t := fetch_eq_ok.mpr stands
  obtain ⟨time?, tested⟩ : ∃ time?, t.hitWithin? g.vertices ray progress.reach = .ok time? :=
    ⟨_, Triangle.hitWithin?_of_corners known ray progress.reach⟩
  -- the test finds the time of the triangle exactly if it is nearer than the reach
  have shortened : shorten (g.triangleTime? ray) progress.reach entry =
      time?.getD progress.reach := by
    rw [shorten_eq_getD, triangleTime?, stands, Option.bind_some,
      Triangle.hitWithin?_eq_filter tested]
  rw [shortened]
  cases time? with
  | none =>
    refine ⟨progress.memo, progress.memo, ?_⟩
    simp only [visitTriangle, fetched, tested, bind, Except.bind]
    rfl
  | some time =>
    refine ⟨true, true, ?_⟩
    simp only [visitTriangle, fetched, tested, bind, Except.bind]
    rfl

/-- What is asked of a group and a ray with some reach. -/
structure Aimed (g : Group) (ray : Ray) (reach : Single) : Prop where
  enclosed : g.Enclosed
  proper : ray.Proper
  inBoxes : g.HitsInBoxes ray
  number : reach.isNaN = false

/-- A group has no triangles, or the walk over them is one through a built hierarchy. -/
theorem Aimed.shot (aimed : g.Aimed ray reach) :
    (g.triangles.isEmpty = true ∧ g.tree = .empty) ∨ g.triangles.isEmpty = false ∧
      ∃ boxes plan, g.Boxed boxes ∧ Shot boxes g.tree plan ray reach := by
  obtain ⟨boxes, boxed⟩ := aimed.enclosed.boxed
  have sizes := boxed.size
  cases filled : g.triangles.isEmpty with
  | true =>
    rw [Array.isEmpty_iff.mp filled] at sizes
    have built := boxed.built
    rw [List.eq_nil_of_length_eq_zero sizes] at built
    exact .inl ⟨rfl, (Except.ok.inj built).symm⟩
  | false =>
    rcases build_cases_of_proper boxed.proper boxed.built with ⟨rfl, -⟩ | ⟨plan, fromPlan⟩
    · have none : g.triangles.isEmpty = true := by simpa [Array.isEmpty] using sizes.symm
      rw [none] at filled
      cases filled
    · exact .inr ⟨rfl, boxes, plan, boxed, fromPlan, boxed.proper, aimed.proper.regular, aimed.number⟩

theorem Turns.shot (turns : g.Turns ray reach) (aimed : g.Aimed ray reach) :
    g.triangles.isEmpty = false ∧
      ∃ boxes plan, g.Boxed boxes ∧ Shot boxes g.tree plan ray reach := by
  rcases aimed.shot with ⟨-, empty⟩ | shot
  · obtain ⟨part, -, axis, clip, node, -⟩ := turns
    rw [empty] at node
    simp [Hierarchy.empty] at node
  · exact shot

theorem Turns.unbounded (turns : g.Turns ray reach) (aimed : g.Aimed ray reach) :
    ¬reach < .infinity := by
  obtain ⟨-, boxes, plan, -, shot⟩ := turns.shot aimed
  obtain ⟨part, reached, turning⟩ := turns
  exact shot.unbounded_of_turns reached turning

/-- A cast finds the nearest hit of the group, or does not end where the ray turns. -/
theorem Aimed.castRay_finds_or (aimed : g.Aimed ray reach) :
    (∃ hit rest, g.castRay ray false reach = .ok (hit, rest) ∧
        Single.IsEarliest (g.hitTimes ray) reach rest) ∨
      g.castRay ray false reach = .error .endless ∧ g.Turns ray reach := by
  rw [castRay]
  split
  next empty =>
    -- without triangles there is no walk and nothing to hit
    have none : g.hitTimes ray = [] := by
      rw [hitTimes, Array.isEmpty_iff.mp empty]
      rfl
    rw [none]
    exact .inl ⟨false, reach, rfl, Single.isEarliest_nil aimed.number⟩
  next filled =>
    obtain ⟨-, boxes, plan, boxed, shot⟩ := aimed.shot.resolve_left fun none => filled none.1
    have visits {part : Part} {entry : Nat} (listed : entry ∈ g.tree.objectsIn part.node) :=
      visitTriangle_shortens ray boxed (shot.built.lt_of_mem_objectsIn listed)
    rcases shot.walkRay_finds_or aimed.proper.finite aimed.proper.moves (hitsOf boxed aimed.inBoxes)
      (fun part _ entry listed progress _ => .inr (visits listed progress)) false with
      ⟨final, walked, least⟩ | ⟨endless, part, reached, turning | ⟨entry, listed, stuck⟩⟩
    · have earliest : Single.IsEarliest (g.hitTimes ray) reach final.reach := by
        constructor
        case origin => exact least.found.imp_right mem_hitTimes_iff.mpr
        case le_reach => exact least.le_start
        case le_time =>
          intro time member
          obtain ⟨entry, hit⟩ := mem_hitTimes_iff.mp member
          exact least.le_time entry time hit
      exact .inl ⟨final.memo, final.reach, by rw [walked]; rfl, earliest⟩
    · exact .inr ⟨by rw [endless]; rfl, part, reached, turning⟩
    · -- the test of a triangle always ends
      obtain ⟨progress, -, endless⟩ := stuck
      obtain ⟨hit, memo, visited⟩ := visits listed progress
      rw [endless] at visited
      cases visited

/-- A cast that hits nothing does not end where the ray turns. -/
theorem Aimed.castRay_endless (aimed : g.Aimed ray reach) (none : g.hitTimes ray = [])
    (turns : g.Turns ray reach) : g.castRay ray false reach = .error .endless := by
  have unbounded := turns.unbounded aimed
  obtain ⟨filled, boxes, plan, boxed, shot⟩ := turns.shot aimed
  obtain ⟨part, reached, turning⟩ := turns
  have idle (entry : Nat) (inside : entry < boxes.length) :
      Idle (g.visitTriangle ray) reach entry := by
    intro progress _
    obtain ⟨hit, memo, visited⟩ := visitTriangle_shortens ray boxed inside progress
    have unchanged := unchanged_of_tells (none ▸ visitTriangle_tells visited)
    rw [unchanged] at visited
    exact .inr ⟨hit, visited⟩
  have walk := shot.walkRay_endless_of_idle aimed.proper.finite unbounded
    (fun part _ entry listed => idle entry (shot.built.lt_of_mem_objectsIn listed)) false reached
    (.inl turning)
  rw [castRay, if_neg (by simp [filled]), walk]
  rfl

end Group

end Sightline
