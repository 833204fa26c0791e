import Sightline.Proofs.Geometry.Distance
import Sightline.Proofs.Hierarchy.StoppingEarly
import Sightline.Proofs.Outcome
import Sightline.World.Atlas

/-!
# Sight and hits

Whether a point is seen and where the way to it hits something are asked with different walks: the one
stops at the first hit on each of its levels, the other one goes on for the nearest. They agree on
whether there is a hit, level by level: triangles in a group, groups in a model, the placed model, and
the slots of a map.
-/
namespace Sightline

open Hierarchy

/-! ### Casts -/

/-- A cast that is content with any hit agrees with one for the nearest hit on whether there is one,
and without a hit both leave the reach as it was. -/
def FirstLikeNearest (cast : Bool → Single → Except Failure (Bool × Single)) : Prop :=
  ∀ {reach hit rest}, cast false reach = .ok (hit, rest) →
    ∃ other, cast true reach = .ok (hit, other) ∧ (hit = false → rest = reach ∧ other = reach)

/-- A cast whose answer is the memo of a walk. -/
def castByWalk (h : Hierarchy) (ray : Ray) (visit : Visitor Bool) (stop : Bool) (reach : Single) :
    Except Failure (Bool × Single) := do
  let progress ← h.walkRay ray visit stop ⟨reach, false⟩
  return (progress.memo, progress.reach)

theorem castByWalk_first {h : Hierarchy} {ray : Ray} {nearest first : Visitor Bool}
    (alike : HitAlike nearest first) {reach rest : Single} {hit : Bool}
    (returned : castByWalk h ray nearest false reach = .ok (hit, rest)) :
    ∃ other, castByWalk h ray first true reach = .ok (hit, other) ∧
      (hit = false → rest = reach ∧ other = reach) := by
  obtain ⟨next, walked, result⟩ := bind_eq_ok.mp returned
  cases result
  obtain ⟨other, walkedFirst, told, missed⟩ := alike.walkRay walked
  refine ⟨other.reach, ?_, fun none => ?_⟩
  · rw [castByWalk, walkedFirst, told]
    rfl
  · obtain ⟨same, sameFirst⟩ := missed none
    exact ⟨congrArg Progress.reach same, congrArg Progress.reach sameFirst⟩

theorem Group.hitAlike_visitTriangle (g : Group) (ray : Ray) :
    HitAlike (g.visitTriangle ray) (g.visitTriangle ray) where
  visit := by
    intro object reach hit next visited
    obtain ⟨triangle, fetched, tested⟩ := bind_eq_ok.mp visited
    obtain ⟨time?, timed, result⟩ := bind_eq_ok.mp tested
    cases time? with
    | none =>
      cases result
      exact ⟨rfl, _, visited, rfl, fun _ => ⟨rfl, rfl⟩⟩
    | some time =>
      cases result
      exact ⟨rfl, _, visited, rfl, nofun⟩
  remembers := by
    intro object progress hit next visited before
    obtain ⟨triangle, fetched, tested⟩ := bind_eq_ok.mp visited
    obtain ⟨time?, timed, result⟩ := bind_eq_ok.mp tested
    cases time? with
    | none =>
      cases result
      exact before
    | some time =>
      cases result
      rfl

theorem Group.firstLikeNearest (g : Group) (ray : Ray) : FirstLikeNearest (g.castRay ray) := by
  intro reach hit rest returned
  rw [castRay] at returned ⊢
  split at returned
  next none =>
    cases returned
    exact ⟨reach, if_pos none, fun _ => ⟨rfl, rfl⟩⟩
  next filled =>
    rw [if_neg filled]
    exact castByWalk_first (g.hitAlike_visitTriangle ray) returned

theorem Model.hitAlike_visitGroup (m : Model) (ray : Ray) :
    HitAlike (m.visitGroup ray false) (m.visitGroup ray true) where
  visit := by
    intro object reach hit next visited
    obtain ⟨group, fetched, tested⟩ := bind_eq_ok.mp visited
    obtain ⟨⟨found, rest⟩, cast, result⟩ := bind_eq_ok.mp tested
    obtain ⟨other, castFirst, missed⟩ := group.firstLikeNearest ray cast
    cases result
    refine ⟨rfl, ⟨other, found⟩, ?_, rfl, fun none => ?_⟩
    · simp only [visitGroup, fetched, castFirst, bind, Except.bind, Bool.false_or]
      rfl
    · obtain rfl : found = false := none
      obtain ⟨rfl, rfl⟩ := missed rfl
      exact ⟨rfl, rfl⟩
  remembers := by
    intro object progress hit next visited before
    obtain ⟨group, fetched, tested⟩ := bind_eq_ok.mp visited
    obtain ⟨⟨found, rest⟩, cast, result⟩ := bind_eq_ok.mp tested
    cases result
    simp [before]

theorem Model.firstLikeNearest (m : Model) (ray : Ray) : FirstLikeNearest (m.castRay ray) := by
  intro reach hit rest returned
  rw [castRay] at returned ⊢
  split at returned
  next group alone => exact group.firstLikeNearest ray returned
  · exact castByWalk_first (m.hitAlike_visitGroup ray) returned

theorem Placement.firstLikeNearest (p : Placement) (model : Model) (ray : Ray) :
    FirstLikeNearest (p.castRay model ray) := by
  intro reach hit rest returned
  rw [castRay] at returned ⊢
  split at returned
  next apart =>
    cases returned
    exact ⟨reach, if_pos apart, fun _ => ⟨rfl, rfl⟩⟩
  next near =>
    rw [if_neg near]
    obtain ⟨⟨found, distance⟩, cast, result⟩ := bind_eq_ok.mp returned
    obtain ⟨other, castFirst, -⟩ := model.firstLikeNearest _ cast
    cases result
    refine ⟨if hit then other * p.scale else reach, ?_, fun missed => ?_⟩
    · simp only [castFirst, bind, Except.bind]
      rfl
    · simp [missed]

/-! ### Maps -/

theorem MapTree.hitAlike_visitSlot (t : MapTree) (library : Library) (ray : Ray) :
    HitAlike (t.visitSlot library ray false) (t.visitSlot library ray true) where
  visit := by
    intro slot reach hit next visited
    obtain ⟨present?, asked, tested⟩ := bind_eq_ok.mp visited
    cases present? with
    | none =>
      cases tested
      refine ⟨rfl, ⟨reach, false⟩, ?_, rfl, fun _ => ⟨rfl, rfl⟩⟩
      simp only [visitSlot, asked, bind, Except.bind]
      rfl
    | some present =>
      obtain ⟨⟨found, rest⟩, cast, result⟩ := bind_eq_ok.mp tested
      obtain ⟨other, castFirst, missed⟩ := present.1.firstLikeNearest present.2 ray cast
      cases result
      refine ⟨rfl, ⟨other, hit⟩, ?_, rfl, fun none => ?_⟩
      · simp only [visitSlot, asked, castFirst, bind, Except.bind, Bool.false_or]
        rfl
      · obtain rfl : hit = false := none
        obtain ⟨rfl, rfl⟩ := missed rfl
        exact ⟨rfl, rfl⟩
  remembers := by
    intro slot progress hit next visited before
    obtain ⟨present?, asked, tested⟩ := bind_eq_ok.mp visited
    cases present? with
    | none =>
      cases tested
      exact before
    | some present =>
      obtain ⟨⟨found, rest⟩, cast, result⟩ := bind_eq_ok.mp tested
      cases result
      simp [before]

theorem MapTree.castRay?_first (t : MapTree) (library : Library) (ray : Ray) {reach : Single}
    {time? : Option Single} (returned : t.castRay? library ray false reach = .ok time?) :
    ∃ other, t.castRay? library ray true reach = .ok other ∧ other.isNone = time?.isNone := by
  obtain ⟨next, walked, result⟩ := bind_eq_ok.mp returned
  obtain ⟨other, walkedFirst, told, -⟩ := (t.hitAlike_visitSlot library ray).walkRay walked
  cases result
  refine ⟨if other.memo then some other.reach else none, ?_, ?_⟩
  · simp only [castRay?, walkedFirst, bind, Except.bind]
    rfl
  · rw [told]
    cases other.memo <;> rfl

theorem MapTree.hitBetween?_sees (t : MapTree) (library : Library) {start goal : Vec}
    {shift : Single} {hit : Option Vec}
    (ends : t.hitBetween? library start goal shift = .ok hit) :
    t.sees library start goal = .ok hit.isNone := by
  rw [hitBetween?] at ends
  rw [sees]
  dsimp only at ends ⊢
  split at ends
  next one =>
    cases ends
    exact if_pos one
  next apart =>
    rw [if_neg apart]
    obtain ⟨time?, cast, result⟩ := bind_eq_ok.mp ends
    obtain ⟨other, castFirst, same⟩ := t.castRay?_first library _ cast
    rw [castFirst]
    change Except.ok other.isNone = _
    rw [same]
    cases time? with
    | none =>
      cases result
      rfl
    | some time =>
      dsimp only at result
      split at result <;> (cases result; rfl)

/-- There is nothing to hit on the way from a point to itself. -/
theorem MapTree.hitBetween?_same (t : MapTree) (library : Library) {start goal : Vec}
    (shift : Single) (same : start.Same goal) :
    t.hitBetween? library start goal shift = .ok none := by
  have back : goal.Same start := same.symm
  rw [hitBetween?, way]
  dsimp only
  rcases Vec.sub_same back with ⟨number, zero⟩ | ⟨noNumber, noWay⟩
  · -- at a finite place the length is zero
    have near : (goal - start).length < leastDistance := by
      refine ⟨number, by decide +kernel, ?_⟩
      rw [zero]
      decide +kernel
    exact if_pos near
  · -- at infinity there is no length, and the walk does not begin without a direction
    have far : ¬(goal - start).length < leastDistance := by
      rintro ⟨number, -⟩
      rw [noNumber] at number
      cases number
    rw [if_neg far]
    have still : (Ray.ofDirection start
        ((goal - start).scale (1 / (goal - start).length))).isFinite = false := by
      rw [Ray.isFinite, Ray.ofDirection, noWay, Bool.and_false]
    simp only [castRay?, Hierarchy.walkRay, still, Bool.not_false, Bool.or_true, if_true]
    rfl

namespace Atlas

/-- A point is seen exactly if nothing is hit on the way to it, whatever maps are loaded, switched off
or missing. If the walk for the nearest hit ends, then so does the one for any hit. -/
theorem sees_of_hitBetween? (a : Atlas) (map : UInt32) (start goal : Vec) (shift : Single)
    {hit : Option Vec} (ends : a.hitBetween? map start goal shift = .ok hit) :
    a.sees map start goal = .ok hit.isNone := by
  rw [hitBetween?] at ends
  rw [sees]
  split at ends
  next =>
    cases ends
    rfl
  next tree _ =>
    obtain ⟨found, walked, result⟩ := bind_eq_ok.mp ends
    cases result
    split
    next same =>
      rw [tree.hitBetween?_same a.library shift same] at walked
      cases walked
      rfl
    next =>
      rw [tree.hitBetween?_sees a.library walked]
      cases found <;> rfl

/-- A wall of one triangle across the way along the first axis. -/
def wall : Group :=
  { bounds := ⟨⟨0, -4, -4⟩, ⟨0, 4, 4⟩⟩, flags := 0, id := 1,
    vertices := #[⟨0, -4, -4⟩, ⟨0, 4, -4⟩, ⟨0, 0, 4⟩], triangles := #[⟨0, 1, 2⟩],
    tree := ⟨#[.leaf 0 1], #[0], ⟨⟨0, -4, -4⟩, ⟨0, 4, 4⟩⟩⟩ }

/-- One map, with the wall in its middle. -/
def walled : Atlas :=
  { maps := (∅ : Std.TreeMap UInt32 MapTree).insert 0
      { map := 0, tree := wall.tree,
        slots := #[some ⟨{ bounds := wall.bounds, model := "wall" }, some ⟨"wall", 0⟩⟩] }
    library := ⟨(∅ : Std.TreeMap String Loaded).insert "wall"
      ⟨{ root := 1, groups := #[wall], tree := wall.tree }, 0, 1⟩, 1⟩ }

theorem sees_of_hitBetween?_walled :
    walled.hitBetween? 0 (reflect ⟨-5, 0, 0⟩) (reflect ⟨5, 0, 0⟩) 0 = .ok (some (reflect .zero)) ∧
      walled.sees 0 (reflect ⟨-5, 0, 0⟩) (reflect ⟨5, 0, 0⟩) = .ok false := by
  have hit : walled.hitBetween? 0 (reflect ⟨-5, 0, 0⟩) (reflect ⟨5, 0, 0⟩) 0 =
      .ok (some (reflect .zero)) := by decide +kernel
  exact ⟨hit, sees_of_hitBetween? walled 0 _ _ 0 hit⟩

end Atlas

end Sightline
