import Sightline.Mesh.Model
import Sightline.Proofs.Hierarchy.Keeping
import Sightline.Proofs.Lookups
import Sightline.Proofs.Outcome
import Sightline.Proofs.Single.Earliest

/-!
# Casts tell of triangles only

A cast leaves its reach as it is or shortens it to the time of a triangle, and its answer says which of
the two. That is kept by each visit of a walk, so it holds for a walk through any hierarchy, whatever
leaves it comes to, in whatever order and how often.
-/
namespace Sightline

open Hierarchy

/-! ### Times of triangles -/

theorem Corners.hitTime?_pos {t : Corners} {ray : Ray} {time : Single}
    (hit : t.hitTime? ray = some time) : 0 < time := by
  unfold hitTime? at hit
  simp only [Option.ite_none_left_eq_some, Option.ite_none_right_eq_some, Option.some.injEq] at hit
  obtain ⟨-, -, -, positive, rfl⟩ := hit
  exact positive

namespace Triangle

variable {t : Triangle} {vertices : Array Vec} {ray : Ray} {reach time : Single}

/-- The time at which a ray without end hits the triangle, if its corners exist. -/
def hitTime? (t : Triangle) (vertices : Array Vec) (ray : Ray) : Option Single :=
  match t.hitWithin? vertices ray .infinity with
  | .ok time? => time?
  | .error _ => none

theorem hitWithin?_of_corners {corners : Corners} (known : t.corners vertices = .ok corners)
    (ray : Ray) (reach : Single) :
    t.hitWithin? vertices ray reach =
      .ok ((corners.hitTime? ray).filter fun time => decide (time < reach)) := by
  rw [hitWithin?, known]
  rfl

/-- A test within some reach finds the time at which the triangle is hit, if that is before. -/
theorem hitWithin?_eq_filter {time? : Option Single}
    (tested : t.hitWithin? vertices ray reach = .ok time?) :
    time? = (t.hitTime? vertices ray).filter fun time => decide (time < reach) := by
  obtain ⟨corners, known, -⟩ := bind_eq_ok.mp tested
  rw [hitWithin?_of_corners known] at tested
  rw [hitTime?, hitWithin?_of_corners known, ← Except.ok.inj tested]
  cases corners.hitTime? ray with
  | none => rfl
  | some time =>
    -- the test with a reach is stricter than the one without: nothing is beyond infinity
    by_cases nearer : time < reach
    · have finite : time < .infinity := Single.lt_of_lt_of_le nearer (Single.le_infinity nearer.2.1)
      simp [Option.filter, nearer, finite]
    · by_cases finite : time < .infinity
      · simp [Option.filter, nearer, finite]
      · simp [Option.filter, nearer, finite]

theorem hitWithin?_eq_some :
    t.hitWithin? vertices ray reach = .ok (some time) ↔
      t.hitTime? vertices ray = some time ∧ time < reach := by
  constructor
  · intro tested
    have filtered := (hitWithin?_eq_filter tested).symm
    simpa [Option.filter_eq_some_iff] using filtered
  · rintro ⟨hit, nearer⟩
    unfold hitTime? at hit
    split at hit
    next found tested =>
      obtain ⟨corners, known, -⟩ := bind_eq_ok.mp tested
      have within := hitWithin?_of_corners known ray reach
      have filtered := hitWithin?_eq_filter within
      rw [within, filtered, hitTime?, tested]
      simp [hit, Option.filter, nearer]
    · cases hit

theorem hitTime?_pos (hit : t.hitTime? vertices ray = some time) : 0 < time ∧ time < .infinity := by
  have tested : t.hitWithin? vertices ray .infinity = .ok (some time) := by
    unfold hitTime? at hit
    split at hit
    next found tested => rw [tested, hit]
    · cases hit
  obtain ⟨corners, known, -⟩ := bind_eq_ok.mp tested
  rw [hitWithin?_of_corners known, Except.ok.injEq, Option.filter_eq_some_iff] at tested
  exact ⟨Corners.hitTime?_pos tested.1, by simpa using tested.2⟩

end Triangle

/-- The times at which a ray without end hits the triangles of the group. -/
def Group.hitTimes (g : Group) (ray : Ray) : List Single :=
  g.triangles.toList.filterMap fun t => t.hitTime? g.vertices ray

/-- The times at which a ray without end hits the triangles of all groups. -/
def Model.hitTimes (m : Model) (ray : Ray) : List Single :=
  m.groups.toList.flatMap fun g => g.hitTimes ray

theorem Group.hitTimes_pos {g : Group} {ray : Ray} :
    ∀ time ∈ g.hitTimes ray, 0 < time ∧ time < .infinity := by
  intro time member
  obtain ⟨t, -, hit⟩ := List.mem_filterMap.mp member
  exact Triangle.hitTime?_pos hit

theorem Model.hitTimes_pos {m : Model} {ray : Ray} :
    ∀ time ∈ m.hitTimes ray, 0 < time ∧ time < .infinity := by
  intro time member
  obtain ⟨g, -, inGroup⟩ := List.mem_flatMap.mp member
  exact Group.hitTimes_pos time inGroup

/-! ### Answers of casts -/

/-- Without a hit the reach is as it was, with a hit it is one of the times and shorter. -/
structure Tells (times : List Single) (reach : Single) (hit : Bool) (rest : Single) : Prop where
  missed : hit = false → rest = reach
  met : hit = true → rest ∈ times ∧ rest < reach

variable {times : List Single} {reach middle rest : Single} {hit later : Bool}

theorem tells_none (times : List Single) (reach : Single) : Tells times reach false reach :=
  ⟨fun _ => rfl, nofun⟩

/-- Two answers, one after the other, are an answer. -/
theorem Tells.trans (first : Tells times reach hit middle) (second : Tells times middle later rest) :
    Tells times reach (hit || later) rest := by
  cases later with
  | false =>
    obtain rfl : rest = middle := second.missed rfl
    simpa using first
  | true =>
    obtain ⟨member, shorter⟩ := second.met rfl
    refine ⟨by simp, fun _ => ⟨member, ?_⟩⟩
    cases hit with
    | false => exact first.missed rfl ▸ shorter
    | true => exact Single.lt_of_lt_of_le shorter (Single.le_of_lt (first.met rfl).2)

theorem Tells.mono {others : List Single} (tells : Tells times reach hit rest)
    (more : ∀ time ∈ times, time ∈ others) : Tells others reach hit rest :=
  ⟨tells.missed, fun isHit => ⟨more rest (tells.met isHit).1, (tells.met isHit).2⟩⟩

/-- A hit shortens the reach, and nothing else does. -/
theorem Tells.hit_iff (tells : Tells times reach hit rest) (number : reach.isNaN = false) :
    hit = true ↔ rest < reach := by
  refine ⟨fun isHit => (tells.met isHit).2, fun shorter => ?_⟩
  cases hit with
  | false =>
    rw [tells.missed rfl] at shorter
    exact absurd shorter (Single.not_lt_of_le (Single.le_self number))
  | true => rfl

/-- Where there is nothing to hit, nothing is hit. -/
theorem Tells.nothing (tells : Tells [] reach hit rest) : hit = false ∧ rest = reach := by
  cases hit with
  | false => exact ⟨rfl, tells.missed rfl⟩
  | true => cases (tells.met rfl).1

/-- A visit that finds nothing to hit leaves everything as it is. -/
theorem unchanged_of_tells {progress next : Progress Bool}
    (told : ∃ found, next.memo = (progress.memo || found) ∧
      Tells [] progress.reach found next.reach) : next = progress := by
  obtain ⟨found, memo, tells⟩ := told
  obtain ⟨rfl, reach⟩ := tells.nothing
  rw [Bool.or_false] at memo
  exact congr (congrArg Progress.mk reach) memo

/-- A walk tells what its visits do. -/
theorem tells_walkRay {h : Hierarchy} {ray : Ray} {visit : Visitor Bool} {stop : Bool}
    {next : Progress Bool}
    (tells : ∀ {object progress hit next}, visit object progress = .ok (hit, next) →
      ∃ found, next.memo = (progress.memo || found) ∧
        Tells times progress.reach found next.reach)
    (walked : h.walkRay ray visit stop ⟨reach, false⟩ = .ok next) :
    Tells times reach next.memo next.reach := by
  have keeps : VisitsKeep visit fun progress => Tells times reach progress.memo progress.reach := by
    intro object progress hit next visited before
    obtain ⟨found, memo, after⟩ := tells visited
    rw [memo]
    exact before.trans after
  exact walkRay_keeps keeps walked (tells_none times reach)

theorem Group.visitTriangle_tells {g : Group} {ray : Ray} {object : Nat} {progress next : Progress Bool}
    (visited : g.visitTriangle ray object progress = .ok (hit, next)) :
    ∃ found, next.memo = (progress.memo || found) ∧
      Tells (g.hitTimes ray) progress.reach found next.reach := by
  obtain ⟨t, fetched, tested⟩ := bind_eq_ok.mp visited
  obtain ⟨time?, timed, result⟩ := bind_eq_ok.mp tested
  cases time? with
  | none =>
    cases result
    exact ⟨false, by simp, tells_none _ _⟩
  | some time =>
    cases result
    obtain ⟨hit, nearer⟩ := Triangle.hitWithin?_eq_some.mp timed
    have member : time ∈ g.hitTimes ray := List.mem_filterMap.mpr ⟨t, mem_of_fetch fetched, hit⟩
    exact ⟨true, by simp, nofun, fun _ => ⟨member, nearer⟩⟩

theorem Group.castRay_tells {g : Group} {ray : Ray} {stop : Bool}
    (returned : g.castRay ray stop reach = .ok (hit, rest)) :
    Tells (g.hitTimes ray) reach hit rest := by
  rw [castRay] at returned
  split at returned
  next none =>
    cases returned
    exact tells_none _ _
  next filled =>
    obtain ⟨next, walked, result⟩ := bind_eq_ok.mp returned
    cases result
    exact tells_walkRay visitTriangle_tells walked

theorem Model.hitTimes_of_group {m : Model} {g : Group} {ray : Ray} (member : g ∈ m.groups.toList) :
    ∀ time ∈ g.hitTimes ray, time ∈ m.hitTimes ray :=
  fun _ inGroup => List.mem_flatMap.mpr ⟨g, member, inGroup⟩

theorem Model.visitGroup_tells {m : Model} {ray : Ray} {stop : Bool} {object : Nat}
    {progress next : Progress Bool}
    (visited : m.visitGroup ray stop object progress = .ok (hit, next)) :
    ∃ found, next.memo = (progress.memo || found) ∧
      Tells (m.hitTimes ray) progress.reach found next.reach := by
  obtain ⟨g, fetched, tested⟩ := bind_eq_ok.mp visited
  obtain ⟨⟨found, rest⟩, cast, result⟩ := bind_eq_ok.mp tested
  cases result
  exact ⟨found, rfl, (Group.castRay_tells cast).mono (hitTimes_of_group (mem_of_fetch fetched))⟩

theorem Model.castRay_tells {m : Model} {ray : Ray} {stop : Bool}
    (returned : m.castRay ray stop reach = .ok (hit, rest)) :
    Tells (m.hitTimes ray) reach hit rest := by
  rw [castRay] at returned
  split at returned
  next g alone =>
    -- without a walk, the answer is that of the only group
    have member : g ∈ m.groups.toList := by simp [alone]
    exact (Group.castRay_tells returned).mono (hitTimes_of_group member)
  next =>
    obtain ⟨next, walked, result⟩ := bind_eq_ok.mp returned
    cases result
    exact tells_walkRay visitGroup_tells walked

/-- A cast that ends leaves the reach as it was, or goes as far as some triangle is away. That is never
nearer than the nearest of all triangles. -/
theorem Model.castRay_origin {m : Model} {ray : Ray} {stop : Bool} {reach rest : Single} {hit : Bool}
    (number : reach.isNaN = false) (returned : m.castRay ray stop reach = .ok (hit, rest)) :
    (hit = false → rest = reach) ∧
      (hit = true → 0 < rest ∧ rest < reach ∧ ∃ g ∈ m.groups.toList, ∃ t ∈ g.triangles.toList,
        t.hitWithin? g.vertices ray reach = .ok (some rest)) ∧
      Single.earliest (m.hitTimes ray) reach ≤ rest := by
  have tells := castRay_tells returned
  refine ⟨tells.missed, fun isHit => ?_, ?_⟩
  · obtain ⟨member, shorter⟩ := tells.met isHit
    obtain ⟨g, listed, inGroup⟩ := List.mem_flatMap.mp member
    obtain ⟨t, owned, time⟩ := List.mem_filterMap.mp inGroup
    exact ⟨(hitTimes_pos rest member).1, shorter, g, listed, t, owned,
      Triangle.hitWithin?_eq_some.mpr ⟨time, shorter⟩⟩
  · cases hit with
    | false =>
      rw [tells.missed rfl]
      exact Single.earliest_le number
    | true =>
      obtain ⟨member, shorter⟩ := tells.met rfl
      exact Single.earliest_le_of_mem number shorter.1 member

/-- A triangle across the x axis, which its leaf names twice. -/
def facing : Group :=
  { bounds := ⟨⟨0, 0, 0⟩, ⟨0, 1, 1⟩⟩
    flags := 0
    id := 1
    vertices := #[⟨0, 0, 0⟩, ⟨0, 1, 0⟩, ⟨0, 0, 1⟩]
    triangles := #[⟨0, 1, 2⟩]
    tree := ⟨#[.leaf 0 2], #[0, 0], ⟨⟨0, 0, 0⟩, ⟨0, 1, 1⟩⟩⟩ }

theorem Model.castRay_origin_facing :
    ∃ m : Model, m.groups = #[facing, facing] ∧
      m.castRay (.ofDirection ⟨-1, 0.25, 0.25⟩ ⟨1, 0, 0⟩) false .infinity = .ok (true, 1) ∧
        ∃ g ∈ m.groups.toList, ∃ t ∈ g.triangles.toList,
          t.hitWithin? g.vertices (.ofDirection ⟨-1, 0.25, 0.25⟩ ⟨1, 0, 0⟩) .infinity =
            .ok (some 1) := by
  have returned : (⟨7, #[facing, facing], ⟨#[.leaf 0 2], #[1, 0], facing.bounds⟩⟩ : Model).castRay
      (.ofDirection ⟨-1, 0.25, 0.25⟩ ⟨1, 0, 0⟩) false .infinity = .ok (true, 1) := by
    decide +kernel
  have origin := castRay_origin Single.isNaN_infinity returned
  exact ⟨_, rfl, returned, (origin.2.1 rfl).2.2⟩

end Sightline
