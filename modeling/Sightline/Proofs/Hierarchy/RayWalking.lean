import Sightline.Proofs.Hierarchy.RayStepping
import Sightline.Proofs.Hierarchy.Starting

/-!
# What a walk along a ray finds

While a walk runs, every hit that is nearer than the reach has its time in a part on the list that holds
the object; where the list ends, no hit is nearer. The walk ends unless it comes to a part where the
ray turns: a walk that ended there would have ended there in fewer steps before.
-/
namespace Sightline.Hierarchy

variable {σ : Type} {boxes : List Box} {h : Hierarchy} {root : Plan} {ray : Ray} {reach : Single}

variable {part : Part} {later : List Part} {progress : Progress σ} {visit : Visitor σ}

/-! ### What is found -/

/-- Times at which objects are hit, each while the ray is in the box of the object. -/
structure Hits (boxes : List Box) (ray : Ray) where
  time : Nat → Option Single
  positive : ∀ object t, time object = some t → 0 < t
  inBox : ∀ object t, time object = some t →
    ∃ box, boxes[object]? = some box ∧ ray.Crosses box t

/-- No time is hit. -/
def Hits.none (boxes : List Box) (ray : Ray) : Hits boxes ray :=
  ⟨fun _ => .none, nofun, nofun⟩

/-- The least of the reach at the start and all times of hits. -/
structure Hits.Least {boxes : List Box} (hits : Hits boxes ray) (start least : Single) : Prop where
  found : least = start ∨ ∃ object, hits.time object = some least
  le_start : least ≤ start
  le_time : ∀ object t, hits.time object = some t → least ≤ t

/-- What is kept while a walk looks for hits: each hit nearer than the reach has its time in a part on
the list that holds the object. -/
structure Seeks (h : Hierarchy) (hits : Nat → Option Single) (start : Single) (walk : RayWalk σ) :
    Prop where
  covered : ∀ object t, hits object = some t → t < walk.progress.reach →
    ∃ part ∈ walk.pending, h.Holds object part.node ∧ part.span.Has t
  found : walk.progress.reach = start ∨ ∃ object, hits object = some walk.progress.reach
  le_start : walk.progress.reach ≤ start

namespace Shot

theorem seeks_afterPart (shot : Shot boxes h root ray reach) (hits : Hits boxes ray)
    (seeks : Seeks h hits.time reach (⟨some part, later, progress⟩ : RayWalk σ)) (memo : σ) :
    Seeks h hits.time reach (afterPart h ray part later
      ⟨(h.objectsIn part.node).foldl (shorten hits.time) progress.reach, memo⟩) := by
  have number := seeks.le_start.1
  have atMost : (h.objectsIn part.node).foldl (shorten hits.time) progress.reach ≤ progress.reach :=
    shortened_le number
  refine ⟨fun object t hit nearer => ?_, shortened_found seeks.found,
    Single.le_trans atMost seeks.le_start⟩
  have numberTime := nearer.1
  obtain ⟨box, found, crosses⟩ := hits.inBox object t hit
  obtain ⟨holder, waiting, holds, has⟩ :=
    seeks.covered object t hit (Single.lt_of_lt_of_le nearer atMost)
  rw [pending_afterPart]
  rcases List.mem_cons.mp waiting with rfl | later
  · rcases covered_next shot.represents (shot.proper box (List.mem_of_getElem? found)) found
      shot.regular crosses has holds with inLeaf | ⟨next, entered, holdsNext, hasNext⟩
    · -- the object was met, so the reach is not beyond its hit
      have met := shortened_le_time number inLeaf hit numberTime
      exact absurd nearer (Single.not_lt_of_le met)
    · exact ⟨next, List.mem_append_left _ entered, holdsNext, hasNext⟩
  · exact ⟨holder, List.mem_append_right _ later, holds, has⟩

/-- A part that begins beyond the reach holds no hit nearer than the reach. -/
theorem seeks_return {hits : Nat → Option Single}
    (seeks : Seeks h hits reach (⟨none, part :: later, progress⟩ : RayWalk σ)) :
    Seeks h hits reach (afterReturn part later progress) := by
  refine ⟨fun object t hit nearer => ?_, seeks.found, seeks.le_start⟩
  obtain ⟨holder, waiting, holds, has⟩ := seeks.covered object t hit nearer
  refine ⟨holder, ?_, holds, has⟩
  unfold afterReturn RayWalk.pending
  split
  next skipped =>
    rcases List.mem_cons.mp waiting with rfl | kept
    · have beyond := Single.lt_of_lt_of_le skipped has.1
      exact absurd nearer (Single.not_lt_of_le (Single.le_of_lt beyond))
    · exact kept
  · exact waiting

/-- A walk finds the least of all times or does not end; and it ends if there are enough steps, no ray
turns and each visit ends. -/
theorem runRay_finds (shot : Shot boxes h root ray reach) (hits : Hits boxes ray)
    (shortens : ∀ next, h.Reached ray reach next → ∀ object ∈ h.objectsIn next.node,
      Shortens visit hits.time reach object)
    {steps : Nat} {walk : RayWalk σ} (tracks : Tracks h root ray reach walk)
    (seeks : Seeks h hits.time reach walk) :
    (∃ final, h.runRay ray visit false steps walk = .ok final ∧ hits.Least reach final.reach) ∨
      h.runRay ray visit false steps walk = .error .endless ∧
        ((∀ next, h.Reached ray reach next → ¬h.Turns ray next) → walk.weight h < steps →
          ∃ next, h.Reached ray reach next ∧ ∃ object ∈ h.objectsIn next.node,
            Stuck visit reach object) := by
  induction steps generalizing walk with
  | zero => exact .inr ⟨rfl, fun _ enough => absurd enough (Nat.not_lt_zero _)⟩
  | succ steps ih =>
    obtain ⟨current, later, progress⟩ := walk
    cases current with
    | some part =>
      have here := tracks.reached part List.mem_cons_self
      rw [runRay, shot.step visit tracks]
      rcases visitAll_shortens (shortens part here) seeks.le_start with
        ⟨memo, visited⟩ | ⟨stuck, object, listed, why⟩
      · rw [visited]
        rcases ih (shot.tracks_afterPart tracks _) (shot.seeks_afterPart hits seeks memo) with
          finds | ⟨endless, why⟩
        · exact .inl finds
        · refine .inr ⟨endless, fun ends enough => why ends ?_⟩
          have fewer := shot.weight_afterPart tracks ends
            ⟨(h.objectsIn part.node).foldl (shorten hits.time) progress.reach, memo⟩
          omega
      · rw [stuck]
        exact .inr ⟨rfl, fun _ _ => ⟨part, here, object, listed, why⟩⟩
    | none =>
      cases later with
      | nil =>
        -- no part is left that could cover a hit nearer than the reach
        refine .inl ⟨progress, rfl, seeks.found, seeks.le_start, fun object t hit => ?_⟩
        have numberTime := (hits.positive object t hit).2.1
        refine Single.le_of_not_lt numberTime seeks.le_start.1 fun nearer => ?_
        obtain ⟨part, waiting, -⟩ := seeks.covered object t hit nearer
        cases waiting
      | cons part rest =>
        rw [runRay, rayStep_return]
        rcases ih tracks.afterReturn (seeks_return seeks) with finds | ⟨endless, why⟩
        · exact .inl finds
        · refine .inr ⟨endless, fun ends enough => why ends ?_⟩
          have fewer : (afterReturn part rest progress).weight h <
              (⟨none, part :: rest, progress⟩ : RayWalk σ).weight h := weight_afterReturn
          omega

end Shot

/-! ### Walks without an end -/

/-- A visit leaves everything as it is within some reach, unless it does not end. -/
def Idle (visit : Visitor σ) (start : Single) (object : Nat) : Prop :=
  ∀ progress, progress.reach ≤ start → visit object progress = .error .endless ∨
    ∃ hit, visit object progress = .ok (hit, progress)

/-- The walk ends within some steps. -/
def Ends (h : Hierarchy) (ray : Ray) (visit : Visitor σ) (steps : Nat) (walk : RayWalk σ) : Prop :=
  ∃ final, h.runRay ray visit false steps walk = .ok final

theorem Idle.shortens {object : Nat} {start : Single} (idle : Idle visit start object) :
    Shortens visit (fun _ => none) start object := by
  intro progress within
  rcases idle progress within with stuck | ⟨hit, met⟩
  · exact .inl stuck
  · exact .inr ⟨hit, progress.memo, met⟩

theorem idle_meet (start : Single) (object : Nat) :
    Idle (meet fun _ => none : Visitor σ) start object :=
  fun _ _ => .inr ⟨false, rfl⟩

/-- Idle visits of a leaf that end all end, and nothing has changed. -/
theorem visitAll_idle {objects : List Nat} {stopped : Bool} {next : Progress σ} {start : Single}
    (idle : ∀ object ∈ objects, Idle visit start object) (within : progress.reach ≤ start)
    (visited : visitAll visit false objects progress = .ok (stopped, next)) :
    next = progress ∧ ∀ object ∈ objects, visit object progress ≠ .error .endless := by
  induction objects with
  | nil =>
    cases visited
    exact ⟨rfl, nofun⟩
  | cons object rest ih =>
    obtain ⟨hit, after, met, further⟩ := visitAll_step visited
    rcases idle object List.mem_cons_self progress within with stuck | ⟨same, unchanged⟩
    · rw [stuck] at met
      cases met
    · rw [unchanged] at met
      cases met
      obtain ⟨last, ended⟩ := ih (fun other listed => idle other (List.mem_cons_of_mem _ listed)) further
      refine ⟨last, List.forall_mem_cons.mpr ⟨?_, ended⟩⟩
      rw [unchanged]
      nofun

/-- Nothing begins beyond a reach without end. -/
theorem afterReturn_eq (unbounded : ¬progress.reach < .infinity) :
    afterReturn part later progress = ⟨some part, later, progress⟩ := by
  unfold afterReturn
  rw [if_neg]
  intro beyond
  exact unbounded (Single.lt_of_lt_of_le beyond (Single.le_infinity beyond.2.1))

namespace Shot

section

variable (shot : Shot boxes h root ray reach)
  (idle : ∀ next, h.Reached ray reach next → ∀ object ∈ h.objectsIn next.node,
    Idle visit reach object)
  (within : progress.reach ≤ reach)

include shot idle within

/-- The first step of a walk that ends, at a part. -/
theorem ends_afterPart {steps : Nat}
    (tracks : Tracks h root ray reach (⟨some part, later, progress⟩ : RayWalk σ))
    (ends : Ends h ray visit (steps + 1) (⟨some part, later, progress⟩ : RayWalk σ)) :
    Ends h ray visit steps (afterPart h ray part later progress) ∧
      ∀ object ∈ h.objectsIn part.node, visit object progress ≠ .error .endless := by
  obtain ⟨final, runs⟩ := ends
  have here := tracks.reached part List.mem_cons_self
  rw [runRay, shot.step visit tracks] at runs
  cases visited : visitAll visit false (h.objectsIn part.node) progress with
  | error failure =>
    rw [visited] at runs
    cases runs
  | ok result =>
    obtain ⟨rfl, ended⟩ := visitAll_idle (idle part here) within visited
    rw [visited] at runs
    exact ⟨⟨final, runs⟩, ended⟩

/-- A walk that ends comes back to every part on its list. -/
theorem ends_kept (unbounded : ¬progress.reach < .infinity)
    {steps : Nat} {current : Option Part} {earlier rest : List Part} {kept : Part}
    (tracks : Tracks h root ray reach
      (⟨current, earlier ++ kept :: rest, progress⟩ : RayWalk σ))
    (ends : Ends h ray visit steps (⟨current, earlier ++ kept :: rest, progress⟩ : RayWalk σ)) :
    ∃ fewer < steps, Tracks h root ray reach (⟨some kept, rest, progress⟩ : RayWalk σ) ∧
      Ends h ray visit fewer (⟨some kept, rest, progress⟩ : RayWalk σ) := by
  induction steps generalizing current earlier with
  | zero =>
    obtain ⟨final, runs⟩ := ends
    cases runs
  | succ steps ih =>
    cases current with
    | some part =>
      have tracksNext := shot.tracks_afterPart tracks progress
      have endsNext := (shot.ends_afterPart idle within tracks ends).1
      rw [afterPart, ← List.append_assoc] at tracksNext endsNext
      obtain ⟨fewer, less, found⟩ := ih tracksNext endsNext
      exact ⟨fewer, Nat.lt_succ_of_lt less, found⟩
    | none =>
      obtain ⟨final, runs⟩ := ends
      -- with nothing to hit, the reach never gets less and no part is left out
      cases earlier with
      | nil =>
        refine ⟨steps, Nat.lt_succ_self _, ⟨tracks.kept, tracks.reached⟩, final, ?_⟩
        rw [List.nil_append, runRay, rayStep_return, afterReturn_eq unbounded] at runs
        exact runs
      | cons first earlier =>
        rw [List.cons_append, runRay, rayStep_return, afterReturn_eq unbounded] at runs
        have tracksNext : Tracks h root ray reach
            (⟨some first, earlier ++ kept :: rest, progress⟩ : RayWalk σ) :=
          ⟨tracks.kept, tracks.reached⟩
        obtain ⟨fewer, less, found⟩ := ih tracksNext ⟨final, runs⟩
        exact ⟨fewer, Nat.lt_succ_of_lt less, found⟩

/-- A walk that ends comes to every part of the route it takes. -/
theorem ends_next (unbounded : ¬progress.reach < .infinity)
    {steps : Nat} (tracks : Tracks h root ray reach (⟨some part, later, progress⟩ : RayWalk σ))
    (ends : Ends h ray visit steps (⟨some part, later, progress⟩ : RayWalk σ)) {next : Part}
    (entered : next ∈ (h.routeFrom ray part).parts) :
    ∃ fewer < steps, ∃ rest, Tracks h root ray reach (⟨some next, rest, progress⟩ : RayWalk σ) ∧
      Ends h ray visit fewer (⟨some next, rest, progress⟩ : RayWalk σ) := by
  cases steps with
  | zero =>
    obtain ⟨final, runs⟩ := ends
    cases runs
  | succ steps =>
    have tracksNext := shot.tracks_afterPart tracks progress
    have endsNext := (shot.ends_afterPart idle within tracks ends).1
    rw [afterPart] at tracksNext endsNext
    cases route : h.routeFrom ray part with
    | nowhere =>
      rw [route] at entered
      cases entered
    | one only =>
      rw [route] at entered tracksNext endsNext
      obtain rfl := List.mem_singleton.mp entered
      exact ⟨steps, Nat.lt_succ_self _, later, tracksNext, endsNext⟩
    | both first second =>
      rw [route] at entered tracksNext endsNext
      rcases List.mem_cons.mp entered with rfl | isSecond
      · exact ⟨steps, Nat.lt_succ_self _, second :: later, tracksNext, endsNext⟩
      · obtain rfl := List.mem_singleton.mp isSecond
        have onList : Tracks h root ray reach
            (⟨some first, [] ++ next :: later, progress⟩ : RayWalk σ) := tracksNext
        obtain ⟨fewer, less, found⟩ := shot.ends_kept idle within unbounded onList endsNext
        exact ⟨fewer, Nat.lt_succ_of_lt less, later, found⟩

omit within in
/-- A walk that ends comes to every part that it may come to. -/
theorem ends_reached (unbounded : ¬reach < .infinity)
    {span : Span} (starts : h.startSpan ray reach = some span) {steps : Nat} {memo : σ}
    (ends : Ends h ray visit steps (⟨some ⟨0, span⟩, [], ⟨reach, memo⟩⟩ : RayWalk σ))
    (reached : h.Reached ray reach part) :
    ∃ fewer rest, Tracks h root ray reach (⟨some part, rest, ⟨reach, memo⟩⟩ : RayWalk σ) ∧
      Ends h ray visit fewer (⟨some part, rest, ⟨reach, memo⟩⟩ : RayWalk σ) := by
  induction reached with
  | start here =>
    obtain rfl := Option.some.inj (starts.symm.trans here)
    refine ⟨steps, [], ⟨⟨⟨root, _, .root, rfl, Nat.le_refl _⟩, trivial⟩, fun other member => ?_⟩, ends⟩
    obtain rfl := List.mem_singleton.mp member
    exact .start here
  | next _ entered ih =>
    obtain ⟨fewer, rest, tracks, endsPart⟩ := ih
    have whole := Single.le_self shot.number
    obtain ⟨evenFewer, -, found⟩ := shot.ends_next idle whole unbounded tracks endsPart entered
    exact ⟨evenFewer, found⟩

/-- No walk ends at a part that is its own successor. -/
theorem not_ends_again
    (unbounded : ¬progress.reach < .infinity) (again : part ∈ (h.routeFrom ray part).parts)
    (steps : Nat) : ∀ later,
      Tracks h root ray reach (⟨some part, later, progress⟩ : RayWalk σ) →
        ¬Ends h ray visit steps (⟨some part, later, progress⟩ : RayWalk σ) := by
  -- a walk that ends there comes back to the same part before, with fewer steps left
  induction steps using Nat.strongRecOn with
  | _ steps ih =>
    intro later tracks ends
    obtain ⟨fewer, less, rest, tracksNext, endsNext⟩ :=
      shot.ends_next idle within unbounded tracks ends again
    exact ih fewer less rest tracksNext endsNext

end

theorem located_of_reached (shot : Shot boxes h root ray reach)
    (reached : h.Reached ray reach part) : root.Located part.node 1 := by
  induction reached with
  | start _ => exact ⟨root, _, .root, rfl, Nat.le_refl _⟩
  | next before entered ih =>
    have inList : root.Located _ (([] : List Part).length + 1) := ih
    obtain ⟨-, depth, deep, leads⟩ := shot.leads inList before
    exact (leads.located _ entered).weaken deep

/-- A ray turns only if there is no end to the reach. -/
theorem unbounded_of_turns (shot : Shot boxes h root ray reach)
    (reached : h.Reached ray reach part) (turns : h.Turns ray part) : ¬reach < .infinity := by
  obtain ⟨-, -, -, -, endless⟩ := turns
  have ends := (reached.within shot.number).ends
  exact fun finite => endless (Single.lt_of_le_of_lt ends finite)

theorem tracks_start (shot : Shot boxes h root ray reach) (first : h.Reached ray reach part) :
    Tracks h root ray reach (⟨some part, [], progress⟩ : RayWalk σ) := by
  refine ⟨⟨shot.located_of_reached first, trivial⟩, fun other member => ?_⟩
  obtain rfl := List.mem_singleton.mp member
  exact first

/-! ### Whole walks -/

theorem isEmpty_eq (shot : Shot boxes h root ray reach) : h.isEmpty = false := by
  rw [shot.built.layout]
  simp [isEmpty, Plan.layOut, Plan.nodes]

theorem walkRay_some (shot : Shot boxes h root ray reach) (finite : ray.isFinite = true)
    {span : Span} (starts : h.startSpan ray reach = some span) (visit : Visitor σ) (memo : σ) :
    h.walkRay ray visit false ⟨reach, memo⟩ =
      h.runRay ray visit false h.stepLimit ⟨some ⟨0, span⟩, [], ⟨reach, memo⟩⟩ := by
  simp only [walkRay, shot.isEmpty_eq, finite, starts, Bool.not_true, Bool.or_self,
    Bool.false_eq_true, if_false]

theorem walkRay_none (shot : Shot boxes h root ray reach) (finite : ray.isFinite = true)
    (misses : h.startSpan ray reach = none) (visit : Visitor σ) (memo : σ) :
    h.walkRay ray visit false ⟨reach, memo⟩ = .ok ⟨reach, memo⟩ := by
  simp only [walkRay, shot.isEmpty_eq, finite, misses, Bool.not_true, Bool.or_self,
    Bool.false_eq_true, if_false]

/-- Every hit within the reach has its time in the span that the walk starts with. -/
theorem hit_in_start (shot : Shot boxes h root ray reach) (hits : Hits boxes ray)
    (moves : ∃ axis, ¬(ray.direction.get axis).Near 0) {object : Nat} {t : Single}
    (hit : hits.time object = some t) (nearer : t < reach) :
    (∃ span, h.startSpan ray reach = some span ∧ span.Has t) ∧ h.Holds object 0 := by
  obtain ⟨box, found, crosses⟩ := hits.inBox object t hit
  have member := List.mem_of_getElem? found
  obtain ⟨layout, made, boundsProper, boundsCover⟩ := shot.built
  subst layout
  refine ⟨startSpan_covers (boundsCover box member) boundsProper (shot.proper box member)
    shot.regular moves crosses (hits.positive object t hit) nearer, ?_⟩
  have inPlan : object ∈ root.objects := by
    rw [made.perm.mem_iff, List.mem_range]
    exact (List.getElem?_eq_some_iff.mp found).1
  exact Plan.Within.holds_of_mem .root made.respects inPlan

theorem seeks_start (shot : Shot boxes h root ray reach) (hits : Hits boxes ray)
    (moves : ∃ axis, ¬(ray.direction.get axis).Near 0) {span : Span}
    (starts : h.startSpan ray reach = some span) (memo : σ) :
    Seeks h hits.time reach (⟨some ⟨0, span⟩, [], ⟨reach, memo⟩⟩ : RayWalk σ) := by
  refine ⟨fun object t hit nearer => ?_, .inl rfl, Single.le_self shot.number⟩
  obtain ⟨⟨other, some_span, has⟩, holds⟩ := shot.hit_in_start hits moves hit nearer
  rw [starts] at some_span
  cases some_span
  exact ⟨_, List.mem_cons_self, holds, has⟩

theorem weight_start (h : Hierarchy) (span : Span) (progress : Progress σ) :
    (⟨some ⟨0, span⟩, [], progress⟩ : RayWalk σ).weight h < h.stepLimit := by
  have limit : 2 ^ (h.nodes.size + 2 - 0) ≤ h.stepLimit := by
    rw [stepLimit, Nat.one_shiftLeft]
    exact Nat.pow_le_pow_right Nat.two_pos (by omega)
  have positive := Nat.two_pow_pos (h.nodes.size + 2 - 0)
  simp only [RayWalk.weight, Hierarchy.weight, Option.toList_some, List.map_cons, List.map_nil,
    List.sum_cons, List.sum_nil]
  omega

/-- A walk whose visits shorten the reach to fixed hits finds the least of them all, unless it comes to
a part where the ray turns or makes a visit that does not end. -/
theorem walkRay_finds_or (shot : Shot boxes h root ray reach) (finite : ray.isFinite = true)
    (moves : ∃ axis, ¬(ray.direction.get axis).Near 0) (hits : Hits boxes ray)
    (shortens : ∀ next, h.Reached ray reach next → ∀ object ∈ h.objectsIn next.node,
      Shortens visit hits.time reach object) (memo : σ) :
    (∃ final, h.walkRay ray visit false ⟨reach, memo⟩ = .ok final ∧
        hits.Least reach final.reach) ∨
      h.walkRay ray visit false ⟨reach, memo⟩ = .error .endless ∧
        ∃ next, h.Reached ray reach next ∧
          (h.Turns ray next ∨ ∃ object ∈ h.objectsIn next.node, Stuck visit reach object) := by
  cases starts : h.startSpan ray reach with
  | none =>
    refine .inl ⟨⟨reach, memo⟩, shot.walkRay_none finite starts _ memo, .inl rfl,
      Single.le_self shot.number, fun object t hit => ?_⟩
    -- a hit nearer than the reach would have given the walk a start
    refine Single.le_of_not_lt (hits.positive object t hit).2.1 shot.number fun nearer => ?_
    obtain ⟨⟨span, some_span, -⟩, -⟩ := shot.hit_in_start hits moves hit nearer
    rw [starts] at some_span
    cases some_span
  | some span =>
    rw [shot.walkRay_some finite starts]
    rcases shot.runRay_finds hits shortens (shot.tracks_start (.start starts))
      (shot.seeks_start hits moves starts memo) with finds | ⟨endless, why⟩
    · exact .inl finds
    · refine .inr ⟨endless, ?_⟩
      by_cases turns : ∃ next, h.Reached ray reach next ∧ h.Turns ray next
      · obtain ⟨next, reached, turning⟩ := turns
        exact ⟨next, reached, .inl turning⟩
      · have ends (next : Part) (reached : h.Reached ray reach next) : ¬h.Turns ray next :=
          fun turning => turns ⟨next, reached, turning⟩
        obtain ⟨next, reached, stuck⟩ := why ends (weight_start h span _)
        exact ⟨next, reached, .inr stuck⟩

theorem walkRay_finds (shot : Shot boxes h root ray reach) (finite : ray.isFinite = true)
    (moves : ∃ axis, ¬(ray.direction.get axis).Near 0)
    (ends : ∀ next, h.Reached ray reach next → ¬h.Turns ray next)
    (hits : Hits boxes ray) (memo : σ) :
    ∃ least, h.walkRay ray (meet hits.time) false ⟨reach, memo⟩ = .ok ⟨least, memo⟩ ∧
      hits.Least reach least := by
  have shortens (object : Nat) : Shortens (meet hits.time : Visitor σ) hits.time reach object :=
    shortens_meet _ _ object
  rcases shot.walkRay_finds_or finite moves hits (fun _ _ object _ => shortens object) memo with
    ⟨final, walked, least⟩ | ⟨-, next, reached, turns | ⟨object, -, stuck⟩⟩
  · have same : final.memo = memo :=
      walkRay_keeps (P := fun progress => progress.memo = memo) (meet_keeps_memo hits.time memo)
        walked rfl
    exact ⟨final.reach, same ▸ walked, least⟩
  · exact absurd turns (ends next reached)
  · exact absurd stuck (not_stuck_meet _ _ object)

/-- A walk that never changes its reach does not end if it may come to a part where the ray turns or to
an object whose visit does not end. -/
theorem walkRay_endless_of_idle (shot : Shot boxes h root ray reach) (finite : ray.isFinite = true)
    (unbounded : ¬reach < .infinity)
    (idle : ∀ next, h.Reached ray reach next → ∀ object ∈ h.objectsIn next.node,
      Idle visit reach object)
    (memo : σ) (reached : h.Reached ray reach part)
    (endless : h.Turns ray part ∨
      ∃ object ∈ h.objectsIn part.node, visit object ⟨reach, memo⟩ = .error .endless) :
    h.walkRay ray visit false ⟨reach, memo⟩ = .error .endless := by
  obtain ⟨span, starts⟩ := reached.starts
  have whole := Single.le_self shot.number
  have seeks : Seeks h (Hits.none boxes ray).time reach
      (⟨some ⟨0, span⟩, [], ⟨reach, memo⟩⟩ : RayWalk σ) :=
    ⟨nofun, .inl rfl, whole⟩
  rw [shot.walkRay_some finite starts]
  rcases shot.runRay_finds (.none boxes ray)
    (fun next known object listed => (idle next known object listed).shortens)
    (shot.tracks_start (.start starts)) seeks with ⟨final, walked, -⟩ | ⟨walked, -⟩
  · rcases endless with turns | ⟨object, listed, stuck⟩
    · obtain ⟨next, entered, again⟩ := turns.again shot.regular
      obtain ⟨fewer, rest, tracks, ends⟩ :=
        shot.ends_reached idle unbounded starts ⟨final, walked⟩ (.next reached entered)
      exact absurd ends (shot.not_ends_again idle whole unbounded again fewer rest tracks)
    · obtain ⟨fewer, rest, tracks, ends⟩ :=
        shot.ends_reached idle unbounded starts ⟨final, walked⟩ reached
      cases fewer with
      | zero =>
        obtain ⟨other, runs⟩ := ends
        cases runs
      | succ fewer => exact absurd stuck ((shot.ends_afterPart idle whole tracks ends).2 object listed)
  · exact walked

theorem walkRay_endless (shot : Shot boxes h root ray reach) (finite : ray.isFinite = true)
    (reached : h.Reached ray reach part) (turns : h.Turns ray part) (memo : σ) :
    h.walkRay ray (meet fun _ => none) false ⟨reach, memo⟩ = .error .endless :=
  shot.walkRay_endless_of_idle finite (shot.unbounded_of_turns reached turns)
    (fun _ _ object _ => idle_meet reach object) memo reached (.inl turns)

end Shot

/-- The walk along a ray ends at the least of its reach and the times of all hits, whatever they are,
exactly if it may not come to a part where the ray turns. If it may, there is no end to the reach, and
without hits no end to the walk. -/
theorem walkRay_least_iff {boxes : List Box} {leafSize : Nat} {h : Hierarchy} {stats : Statistics}
    (proper : ∀ box ∈ boxes, box.Proper) (built : buildCounted boxes leafSize = .ok (h, stats))
    {origin direction : Vec} (finiteOrigin : origin.isFinite = true)
    (finiteDirection : direction.isFinite = true)
    (inverse : ∀ axis, (direction.get axis).rank = 0 ∨ (1 / direction.get axis).isFinite = true)
    (moves : ∃ axis, ¬(direction.get axis).Near 0) {reach : Single} (number : reach.isNaN = false)
    (memo : σ) :
    ((∀ hits : Hits boxes (.ofDirection origin direction),
        ∃ least, h.walkRay (.ofDirection origin direction) (meet hits.time) false ⟨reach, memo⟩ =
            .ok ⟨least, memo⟩ ∧ hits.Least reach least) ↔
      ¬∃ part, h.Reached (.ofDirection origin direction) reach part ∧
        h.Turns (.ofDirection origin direction) part) ∧
    ((∃ part, h.Reached (.ofDirection origin direction) reach part ∧
        h.Turns (.ofDirection origin direction) part) →
      reach = .infinity ∧
        h.walkRay (.ofDirection origin direction) (meet fun _ => none) false ⟨reach, memo⟩ =
          .error .endless) := by
  have finite : (Ray.ofDirection origin direction).isFinite = true := by
    simp [Ray.isFinite, Ray.ofDirection, finiteOrigin, finiteDirection]
  have regular (axis : Axis) : (Ray.ofDirection origin direction).RegularOn axis :=
    Ray.regularOn_ofDirection (Vec.isFinite_get finiteOrigin axis)
      (Vec.isFinite_get finiteDirection axis) (inverse axis)
  rcases buildCounted_cases proper built with ⟨rfl, rfl⟩ | ⟨plan, from_plan⟩
  · -- without nodes there is nothing to come to and nothing to hit
    have nowhere : ¬∃ part, empty.Reached (.ofDirection origin direction) reach part ∧
        empty.Turns (.ofDirection origin direction) part := by
      rintro ⟨part, -, turns⟩
      simp [Turns, empty] at turns
    refine ⟨iff_of_true (fun hits => ?_) nowhere, fun turns => absurd turns nowhere⟩
    refine ⟨reach, rfl, .inl rfl, Single.le_self number, fun object t hit => ?_⟩
    obtain ⟨box, found, -⟩ := hits.inBox object t hit
    cases found
  · have shot : Shot boxes h plan (.ofDirection origin direction) reach :=
      ⟨from_plan, proper, regular, number⟩
    have endless : (∃ part, h.Reached (.ofDirection origin direction) reach part ∧
        h.Turns (.ofDirection origin direction) part) →
        reach = .infinity ∧
          h.walkRay (.ofDirection origin direction) (meet fun _ => none) false ⟨reach, memo⟩ =
            .error .endless := by
      rintro ⟨part, reached, turns⟩
      have unbounded := shot.unbounded_of_turns reached turns
      exact ⟨Single.eq_infinity number unbounded, shot.walkRay_endless finite reached turns memo⟩
    refine ⟨⟨fun finds turns => ?_, fun ends hits => ?_⟩, endless⟩
    · obtain ⟨least, returned, -⟩ := finds (Hits.none boxes _)
      cases returned.symm.trans (endless turns).2
    · exact shot.walkRay_finds finite moves
        (fun next reached turns => ends ⟨next, reached, turns⟩) hits memo

theorem walkRay_least_iff_apart :
    (∀ box ∈ apart, box.Proper) ∧
      ∃ h stats, buildCounted apart 1 = .ok (h, stats) ∧
        ((∀ hits : Hits apart (.ofDirection ⟨-1, 0.5, 0.5⟩ ⟨1, 0, 0⟩),
          ∃ least, h.walkRay (.ofDirection ⟨-1, 0.5, 0.5⟩ ⟨1, 0, 0⟩) (meet hits.time) false
              ⟨.infinity, ()⟩ = .ok ⟨least, ()⟩ ∧ hits.Least .infinity least) ↔
          ¬∃ part, h.Reached (.ofDirection ⟨-1, 0.5, 0.5⟩ ⟨1, 0, 0⟩) .infinity part ∧
            h.Turns (.ofDirection ⟨-1, 0.5, 0.5⟩ ⟨1, 0, 0⟩) part) := by
  have built : buildCounted apart 1 = .ok (_, _) := rfl
  have inverse (axis : Axis) : ((⟨1, 0, 0⟩ : Vec).get axis).rank = 0 ∨
      (1 / (⟨1, 0, 0⟩ : Vec).get axis).isFinite = true := by
    cases axis <;> decide +kernel
  have moves : ∃ axis, ¬((⟨1, 0, 0⟩ : Vec).get axis).Near 0 := ⟨.x, by decide +kernel⟩
  exact ⟨apart_proper, _, _, built, (walkRay_least_iff apart_proper built (by decide +kernel)
    (by decide +kernel) inverse moves (by decide +kernel) ()).1⟩

/-- Boxes so wide that a slow ray along them does not leave them in a finite time. -/
def distant : List Box :=
  [⟨⟨-1e36, 0, 0⟩, ⟨1e36, 1e36, 1e37⟩⟩, ⟨⟨-1e36, 8e37, 4e36⟩, ⟨1e36, 8.1e37, 5e36⟩⟩,
    ⟨⟨-1e36, 8e37, 4e36⟩, ⟨1e36, 8.1e37, 5e36⟩⟩, ⟨⟨-1e36, 9e37, 0⟩, ⟨1e36, 9.1e37, 1e37⟩⟩]

/-- A slow ray between the boxes that looks down, if only by the sign of a zero. -/
def lowered : Ray := .ofDirection ⟨0, 8.5e37, 8e36⟩ ⟨0.001, -0, 0⟩

/-- The tree of the boxes. The third node stands on its own empty side. -/
def distantTree : Hierarchy :=
  ⟨#[.split .y 1 1e36 8e37, .leaf 0 1, .split .y 2 .negativeInfinity 8e37, .split .y 4 8.1e37 9e37,
    .narrow .z 6 4e36 5e36, .leaf 3 1, .leaf 1 2], #[0, 2, 1, 3], boundsOf distant⟩

theorem distantTree_built : ∃ stats, buildCounted distant 1 = .ok (distantTree, stats) := by
  have tree : (buildCounted distant 1).map Prod.fst = .ok distantTree := by decide +kernel
  cases returned : buildCounted distant 1 with
  | error failure =>
    rw [returned] at tree
    cases tree
  | ok result =>
    rw [returned] at tree
    have same : result.1 = distantTree := Except.ok.inj tree
    exact ⟨result.2, congrArg Except.ok (Prod.ext same rfl)⟩

theorem walkRay_endless_distant :
    (∀ box ∈ distant, box.Proper) ∧ lowered.isFinite = true ∧
      (∀ axis, (lowered.direction.get axis).rank = 0 ∨
        (1 / lowered.direction.get axis).isFinite = true) ∧
      (∃ axis, ¬(lowered.direction.get axis).Near 0) ∧
      ∃ stats, buildCounted distant 1 = .ok (distantTree, stats) ∧
        ¬∀ hits : Hits distant lowered,
          ∃ least, distantTree.walkRay lowered (meet hits.time) false ⟨.infinity, ()⟩ =
              .ok ⟨least, ()⟩ ∧ hits.Least .infinity least := by
  have proper : ∀ box ∈ distant, box.Proper := by decide +kernel
  have finite : lowered.isFinite = true := by decide +kernel
  have inverse (axis : Axis) : (lowered.direction.get axis).rank = 0 ∨
      (1 / lowered.direction.get axis).isFinite = true := by
    cases axis <;> decide +kernel
  have moves : ∃ axis, ¬(lowered.direction.get axis).Near 0 := ⟨.x, by decide +kernel⟩
  obtain ⟨stats, built⟩ := distantTree_built
  refine ⟨proper, finite, inverse, moves, stats, built, fun finds => ?_⟩
  obtain ⟨least, returned, -⟩ := finds (Hits.none distant lowered)
  have regular (axis : Axis) : lowered.RegularOn axis :=
    Ray.regularOn_ofDirection (by cases axis <;> decide +kernel) (by cases axis <;> decide +kernel)
      (inverse axis)
  obtain ⟨none, -⟩ | ⟨plan, from_plan⟩ := buildCounted_cases proper built
  · cases none
  · have shot : Shot distant distantTree plan lowered .infinity := ⟨from_plan, proper, regular, rfl⟩
    have top : distantTree.Reached lowered .infinity ⟨0, ⟨0, .infinity⟩⟩ :=
      .start (by decide +kernel)
    have third : distantTree.Reached lowered .infinity ⟨2, ⟨0, .infinity⟩⟩ :=
      .next top (by decide +kernel)
    have turns : distantTree.Turns lowered ⟨2, ⟨0, .infinity⟩⟩ :=
      ⟨.y, 8e37, by decide +kernel, by decide +kernel, by decide +kernel⟩
    cases returned.symm.trans (shot.walkRay_endless finite third turns ())

end Sightline.Hierarchy
