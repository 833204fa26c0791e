import Sightline.Proofs.Finishing
import Sightline.Proofs.Hierarchy.TurningBack

/-!
# The end of walks through hierarchies that were read

Each step of a walk that does not turn back leaves fewer steps, so that a walk ends exactly if it turns
back only finitely often. A ray of bounded reach never turns back, and neither does a point with finite
components.
-/
namespace Sightline.Hierarchy

variable {h : Hierarchy}

/-! ### Along a ray -/

section

variable {σ : Type} {ray : Ray} {visit : Visitor σ} {stop : Bool} {progress : Progress σ}

theorem follow_eq_inl {later : List Part} {route : Route} {walk : RayWalk σ}
    (goesOn : follow later progress route = .inl walk) :
    walk.current = route.parts.head? ∧ walk.later = route.parts.tail ++ later := by
  cases route with
  | nowhere =>
    cases goesOn
    exact ⟨rfl, rfl⟩
  | one next =>
    cases goesOn
    exact ⟨rfl, rfl⟩
  | both next kept =>
    rw [follow] at goesOn
    split at goesOn
    · cases goesOn
    · cases goesOn
      exact ⟨rfl, rfl⟩

/-- Whatever is met at a part, a walk that goes on from there goes on to the parts of its route. -/
theorem rayStep_goesOn {part : Part} {later : List Part} {next : RayWalk σ}
    (goesOn : h.rayStep ray visit stop ⟨some part, later, progress⟩ = .ok (.inl next)) :
    next.current = (h.routeFrom ray part).parts.head? ∧
      next.later = (h.routeFrom ray part).parts.tail ++ later := by
  simp only [rayStep] at goesOn
  unfold routeFrom
  split at goesOn
  next found =>
    cases goesOn
    simp [found, Route.parts]
  next found =>
    simp only [found]
    exact follow_eq_inl (Except.ok.inj goesOn)
  next found =>
    simp only [found]
    exact follow_eq_inl (Except.ok.inj goesOn)
  next found =>
    obtain ⟨objects, -, visiting⟩ := bind_eq_ok.mp goesOn
    obtain ⟨⟨stopped, after⟩, -, result⟩ := bind_eq_ok.mp visiting
    cases stopped <;> cases result
    simp [found, Route.parts]

theorem pending_of_goesOn {part : Part} {later : List Part} {next : RayWalk σ}
    (goesOn : h.rayStep ray visit stop ⟨some part, later, progress⟩ = .ok (.inl next)) :
    next.pending = (h.routeFrom ray part).parts ++ later := by
  obtain ⟨onward, kept⟩ := rayStep_goesOn goesOn
  rw [RayWalk.pending, onward, kept]
  cases (h.routeFrom ray part).parts <;> rfl

namespace RayWalk

/-- The walk as it begins, where there is anything to walk through. -/
def start (h : Hierarchy) (ray : Ray) (progress : Progress σ) : Option (RayWalk σ) :=
  if h.isEmpty || !ray.isFinite then none
  else (h.startSpan ray progress.reach).map fun span => ⟨some ⟨0, span⟩, [], progress⟩

/-- The walk looks at a part from which it turns back. -/
def TurnsBack (h : Hierarchy) (ray : Ray) (walk : RayWalk σ) : Prop :=
  ∃ part, walk.current = some part ∧ part.TurnsBack h ray

/-- All parts that the walk has before it aim ahead. -/
def Aims (bounded : Prop) (walk : RayWalk σ) : Prop := ∀ part ∈ walk.pending, part.Aims bounded

def stepsLeft (h : Hierarchy) (walk : RayWalk σ) : Nat :=
  h.stepsLeft (walk.current.map Part.node) (walk.later.map Part.node)

end RayWalk

theorem runRay_eq (steps : Nat) (walk : RayWalk σ) :
    h.runRay ray visit stop steps walk = runFor (h.rayStep ray visit stop) .endless steps walk := by
  induction steps generalizing walk with
  | zero => rfl
  | succ steps ih =>
    rw [runRay, runFor]
    cases h.rayStep ray visit stop walk with
    | error failure => rfl
    | ok outcome =>
      cases outcome with
      | inl next => exact ih next
      | inr progress => rfl

theorem walkRay_eq : h.walkRay ray visit stop progress =
    (RayWalk.start h ray progress).elim (Except.ok progress)
      (h.runRay ray visit stop h.stepLimit) := by
  unfold walkRay RayWalk.start
  split
  · rfl
  · cases h.startSpan ray progress.reach <;> rfl

theorem aims_start {walk : RayWalk σ} (starts : RayWalk.start h ray progress = some walk) :
    walk.Aims (progress.reach < .infinity) := by
  unfold RayWalk.start at starts
  split at starts
  · cases starts
  · obtain ⟨span, found, rfl⟩ := Option.map_eq_some_iff.mp starts
    intro part member
    cases List.mem_singleton.mp member
    exact aims_of_startSpan found 0

theorem stepsLeft_rayStart {walk : RayWalk σ} (starts : RayWalk.start h ray progress = some walk) :
    walk.stepsLeft h < h.stepLimit := by
  unfold RayWalk.start at starts
  split at starts
  · cases starts
  · obtain ⟨span, -, rfl⟩ := Option.map_eq_some_iff.mp starts
    exact stepsLeft_start

/-- The steps of a walk along a ray leave fewer steps, but for those that turn back. -/
theorem Forward.descends_ray (forward : h.Forward) (signed : ∀ axis, ray.SignedOn axis)
    (bounded : Prop) :
    Descends (h.rayStep ray visit stop) (RayWalk.Aims bounded) (RayWalk.TurnsBack h ray)
      (RayWalk.stepsLeft h) where
  keeps := by
    rintro ⟨current, later, progress⟩ next aims goesOn other member
    cases current with
    | some part =>
      have here : part.Aims bounded := aims part (.head _)
      rw [pending_of_goesOn goesOn] at member
      rcases List.mem_append.mp member with entered | waiting
      · exact here.onward entered
      · exact aims other (.tail _ waiting)
    | none =>
      cases later with
      | nil => cases goesOn
      | cons part later =>
        cases goesOn
        exact aims other (mem_pending_afterReturn member)
  lessens := by
    rintro ⟨current, later, progress⟩ next aims ahead goesOn
    cases current with
    | some part =>
      obtain ⟨onward, kept⟩ := rayStep_goesOn goesOn
      have here : part.Aims bounded := aims part (.head _)
      have straight : ¬part.TurnsBack h ray := fun turns => ahead ⟨part, rfl, turns⟩
      have further (index : Nat) (listed : index ∈ (h.routeFrom ray part).parts.map Part.node) :
          part.node < h.nodes.size ∧ part.node < index := by
        obtain ⟨other, entered, rfl⟩ := List.mem_map.mp listed
        exact ⟨inside_of_entered entered,
          forward.lt_of_entered signed here.begins straight entered⟩
      have short : ((h.routeFrom ray part).parts.map Part.node).length ≤ 2 := by
        simpa using length_parts_le (h.routeFrom ray part)
      have less := stepsLeft_route short further (later.map Part.node)
      simpa [RayWalk.stepsLeft, onward, kept] using less
    | none =>
      cases later with
      | nil => cases goesOn
      | cons part later =>
        cases goesOn
        refine stepsLeft_return ?_
        dsimp only
        split
        · exact .inl rfl
        · exact .inr rfl

theorem visitAll_ne_endless (visits : ∀ object progress, visit object progress ≠ .error .endless)
    (objects : List Nat) (progress : Progress σ) :
    visitAll visit stop objects progress ≠ .error .endless := by
  induction objects generalizing progress with
  | nil => exact ok_ne_error
  | cons object rest ih =>
    rw [visitAll]
    refine bind_ne_error (visits object progress) fun result => ?_
    dsimp only
    split
    · exact ok_ne_error
    · exact ih result.2

theorem leafObjects_ne_endless (first count : Nat) : h.leafObjects first count ≠ .error .endless := by
  rw [leafObjects]
  split
  · exact ok_ne_error
  · intro same
    cases same

theorem rayStep_ne_endless (visits : ∀ object progress, visit object progress ≠ .error .endless)
    (walk : RayWalk σ) : h.rayStep ray visit stop walk ≠ .error .endless := by
  rw [rayStep]
  split
  · split <;> exact ok_ne_error
  · split
    · exact ok_ne_error
    · exact ok_ne_error
    · exact ok_ne_error
    next first count found =>
      refine bind_ne_error (leafObjects_ne_endless first count) fun objects => ?_
      exact bind_ne_error (visitAll_ne_endless visits objects walk.progress) fun result => ok_ne_error

/-- The ray has an end, or no empty side towards which it runs leads back. -/
def StaysAhead (h : Hierarchy) (ray : Ray) (reach : Single) : Prop :=
  reach < .infinity ∨ ∀ index axis, ¬h.LeadsBack index axis (Side.far ray axis)

/-- When a walk along a ray ends. -/
structure RayEnds (h : Hierarchy) (ray : Ray) (visit : Visitor σ) (stop : Bool)
    (progress : Progress σ) : Prop where
  /-- A walk ends exactly if it turns back only finitely often. -/
  iff : ∀ walk, RayWalk.start h ray progress = some walk →
    (Finishes (h.rayStep ray visit stop) walk ↔
      FinallyAvoids (h.rayStep ray visit stop) (RayWalk.TurnsBack h ray) walk)
  /-- Where it cannot turn back it takes less than the greatest number of steps. -/
  soon : h.StaysAhead ray progress.reach → ∀ walk, RayWalk.start h ray progress = some walk →
    stateAfter (h.rayStep ray visit stop) h.stepLimit walk = none
  /-- So its steps are not used up. -/
  returns : h.StaysAhead ray progress.reach →
    (∀ object progress, visit object progress ≠ .error .endless) →
      h.walkRay ray visit stop progress ≠ .error .endless

theorem Forward.never_turnsBack (forward : h.Forward) (signed : ∀ axis, ray.SignedOn axis)
    (ahead : h.StaysAhead ray progress.reach) {walk later : RayWalk σ}
    (starts : RayWalk.start h ray progress = some walk) {steps : Nat}
    (reached : stateAfter (h.rayStep ray visit stop) steps walk = some later) :
    ¬later.TurnsBack h ray := by
  rintro ⟨part, current, endless, axis, back⟩
  rcases ahead with bounded | nowhere
  · have aims := (forward.descends_ray signed _).kept_after (aims_start starts) reached
    have here : part ∈ later.pending := by simp [RayWalk.pending, current]
    exact endless ((aims part here).ends bounded)
  · exact nowhere part.node axis back

theorem Forward.rayEnds (forward : h.Forward) (signed : ∀ axis, ray.SignedOn axis) :
    h.RayEnds ray visit stop progress := by
  have soon (ahead : h.StaysAhead ray progress.reach) (walk : RayWalk σ)
      (starts : RayWalk.start h ray progress = some walk) :
      stateAfter (h.rayStep ray visit stop) h.stepLimit walk = none :=
    (forward.descends_ray signed _).ended (aims_start starts)
      (fun _ _ reached => forward.never_turnsBack signed ahead starts reached)
      (stepsLeft_rayStart starts)
  refine ⟨fun walk starts => ?_, soon, fun ahead visits => ?_⟩
  · exact (forward.descends_ray signed _).finishes_iff (aims_start starts)
  · rw [walkRay_eq]
    cases starts : RayWalk.start h ray progress with
    | none => nofun
    | some walk =>
      rw [Option.elim_some, runRay_eq]
      exact runFor_ne_exhausted (rayStep_ne_endless visits) (soon ahead walk starts)

end

/-! ### At a point -/

section

variable {σ : Type} {p : Vec} {visit : PointVisitor σ} {memo : σ}

/-- Whatever is met at a node, a walk that goes on from there goes on to the places of its route. -/
theorem pointStep_goesOn {index : Nat} {later : List Nat} {next : PointWalk σ}
    (goesOn : h.pointStep p visit ⟨some index, later, memo⟩ = .ok (.inl next)) :
    next.current = (h.pointRoute p index).head? ∧
      next.later = (h.pointRoute p index).tail ++ later := by
  simp only [pointStep] at goesOn
  unfold pointRoute
  split at goesOn
  next found =>
    cases goesOn
    simp [found]
  next axis child left right found =>
    simp only [found]
    by_cases before : left < p.get axis
    · by_cases behind : p.get axis < right
      · simp only [before, behind, and_self, if_true] at goesOn
        cases goesOn
        simp [before, behind]
      · simp only [before, behind, and_false, if_false, if_true] at goesOn
        cases goesOn
        simp [before, behind]
    · by_cases behind : p.get axis < right
      · simp only [before, behind, false_and, if_false, if_true] at goesOn
        cases goesOn
        simp [before, behind]
      · simp only [before, behind, false_and, if_false] at goesOn
        split at goesOn
        · cases goesOn
        · cases goesOn
          simp [before, behind]
  next axis child low high found =>
    simp only [found]
    split at goesOn
    next outside =>
      cases goesOn
      simp [outside]
    next inside =>
      cases goesOn
      simp [inside]
  next found =>
    obtain ⟨objects, -, visiting⟩ := bind_eq_ok.mp goesOn
    obtain ⟨after, -, result⟩ := bind_eq_ok.mp visiting
    cases result
    simp [found]

namespace PointWalk

def start (h : Hierarchy) (p : Vec) (memo : σ) : Option (PointWalk σ) :=
  if h.isEmpty || !decide (h.bounds.Contains p) then none else some ⟨some 0, [], memo⟩

/-- The walk looks at a node from which it turns back. -/
def TurnsBack (h : Hierarchy) (p : Vec) (walk : PointWalk σ) : Prop :=
  ∃ index, walk.current = some index ∧ h.PointTurnsBack p index

def stepsLeft (h : Hierarchy) (walk : PointWalk σ) : Nat := h.stepsLeft walk.current walk.later

end PointWalk

theorem runPoint_eq (steps : Nat) (walk : PointWalk σ) :
    h.runPoint p visit steps walk = runFor (h.pointStep p visit) .endless steps walk := by
  induction steps generalizing walk with
  | zero => rfl
  | succ steps ih =>
    rw [runPoint, runFor]
    cases h.pointStep p visit walk with
    | error failure => rfl
    | ok outcome =>
      cases outcome with
      | inl next => exact ih next
      | inr memo => rfl

theorem walkPoint_eq : h.walkPoint p visit memo =
    (PointWalk.start h p memo).elim (Except.ok memo) (h.runPoint p visit h.stepLimit) := by
  unfold walkPoint PointWalk.start
  split <;> rfl

theorem stepsLeft_pointStart {walk : PointWalk σ} (starts : PointWalk.start h p memo = some walk) :
    walk.stepsLeft h < h.stepLimit := by
  unfold PointWalk.start at starts
  split at starts
  · cases starts
  · cases starts
    exact stepsLeft_start

/-- A walk has a start only at points of the bounds, whose components are numbers. -/
theorem number_of_pointStart {walk : PointWalk σ} (starts : PointWalk.start h p memo = some walk)
    (axis : Axis) : (p.get axis).isNaN = false := by
  unfold PointWalk.start at starts
  split at starts
  · cases starts
  next inside =>
    simp only [Bool.or_eq_true, Bool.not_eq_true', decide_eq_false_iff_not, not_or, not_not]
      at inside
    exact (Box.contains_iff.mp inside.2 axis).1.2.1

/-- The steps of a walk at a point leave fewer steps, but for those that turn back. -/
theorem Forward.descends_point (forward : h.Forward)
    (number : ∀ axis, (p.get axis).isNaN = false) :
    Descends (h.pointStep p visit) (fun _ => True) (PointWalk.TurnsBack h p)
      (PointWalk.stepsLeft h) where
  keeps _ _ := trivial
  lessens := by
    rintro ⟨current, later, memo⟩ next - ahead goesOn
    cases current with
    | some index =>
      obtain ⟨onward, kept⟩ := pointStep_goesOn goesOn
      have straight : ¬h.PointTurnsBack p index := fun turns => ahead ⟨index, rfl, turns⟩
      have further (place : Nat) (entered : place ∈ h.pointRoute p index) :
          index < h.nodes.size ∧ index < place :=
        ⟨inside_of_pointRoute entered, forward.lt_of_pointRoute number straight entered⟩
      have less := stepsLeft_route (length_pointRoute_le h p index) further later
      rwa [← onward, ← kept] at less
    | none =>
      cases later with
      | nil => cases goesOn
      | cons index later =>
        cases goesOn
        exact stepsLeft_return (.inr rfl)

theorem visitEach_ne_endless (visits : ∀ object memo, visit object memo ≠ .error .endless)
    (objects : List Nat) (memo : σ) : visitEach visit objects memo ≠ .error .endless := by
  induction objects generalizing memo with
  | nil => exact ok_ne_error
  | cons object rest ih => exact bind_ne_error (visits object memo) ih

theorem pointStep_ne_endless (visits : ∀ object memo, visit object memo ≠ .error .endless)
    (walk : PointWalk σ) : h.pointStep p visit walk ≠ .error .endless := by
  rw [pointStep]
  split
  · split <;> exact ok_ne_error
  · split
    · exact ok_ne_error
    · dsimp only
      repeat' split
      all_goals exact ok_ne_error
    · dsimp only
      split <;> exact ok_ne_error
    next first count found =>
      refine bind_ne_error (leafObjects_ne_endless first count) fun objects => ?_
      exact bind_ne_error (visitEach_ne_endless visits objects walk.memo) fun memo => ok_ne_error

/-- Where an empty side leads back, the point is not at infinity there. -/
def PointStaysAhead (h : Hierarchy) (p : Vec) : Prop := ∀ index, ¬h.PointTurnsBack p index

theorem pointStaysAhead_of_isFinite (finite : p.isFinite = true) : h.PointStaysAhead p := by
  rintro index ⟨axis, side, atInfinity, -⟩
  have component := Vec.isFinite_get finite axis
  rw [atInfinity] at component
  cases side <;> cases component

/-- When a walk at a point ends. -/
structure PointEnds (h : Hierarchy) (p : Vec) (visit : PointVisitor σ) (memo : σ) : Prop where
  /-- A walk ends exactly if it turns back only finitely often. -/
  iff : ∀ walk, PointWalk.start h p memo = some walk →
    (Finishes (h.pointStep p visit) walk ↔
      FinallyAvoids (h.pointStep p visit) (PointWalk.TurnsBack h p) walk)
  soon : p.isFinite = true ∨ h.PointStaysAhead p → ∀ walk, PointWalk.start h p memo = some walk →
    stateAfter (h.pointStep p visit) h.stepLimit walk = none
  returns : p.isFinite = true ∨ h.PointStaysAhead p →
    (∀ object memo, visit object memo ≠ .error .endless) →
      h.walkPoint p visit memo ≠ .error .endless

theorem Forward.pointEnds (forward : h.Forward) : h.PointEnds p visit memo := by
  have soon (ahead : p.isFinite = true ∨ h.PointStaysAhead p) (walk : PointWalk σ)
      (starts : PointWalk.start h p memo = some walk) :
      stateAfter (h.pointStep p visit) h.stepLimit walk = none := by
    have straight : h.PointStaysAhead p := ahead.elim pointStaysAhead_of_isFinite id
    refine (forward.descends_point (number_of_pointStart starts)).ended trivial
      (fun _ _ _ => ?_) (stepsLeft_pointStart starts)
    rintro ⟨index, -, turns⟩
    exact straight index turns
  refine ⟨fun walk starts => ?_, soon, fun ahead visits => ?_⟩
  · exact (forward.descends_point (number_of_pointStart starts)).finishes_iff trivial
  · rw [walkPoint_eq]
    cases starts : PointWalk.start h p memo with
    | none => nofun
    | some walk =>
      rw [Option.elim_some, runPoint_eq]
      exact runFor_ne_exhausted (pointStep_ne_endless visits) (soon ahead walk starts)

end

/-! ### Hierarchies that were read -/

/-- Walks through a hierarchy that was read end, unless they turn back again and again. -/
theorem read_walks_end {input rest : List UInt8} {h : Hierarchy} {σ : Type}
    (read : reader.run input = .ok (h, rest)) :
    (∀ (origin direction : Vec) (visit : Visitor σ) (stop : Bool) (progress : Progress σ),
      h.RayEnds (.ofDirection origin direction) visit stop progress) ∧
    ∀ (p : Vec) (visit : PointVisitor σ) (memo : σ), h.PointEnds p visit memo := by
  have forward := forward_of_read read
  refine ⟨fun origin direction visit stop progress => ?_, fun p visit memo => forward.pointEnds⟩
  by_cases finite : (Ray.ofDirection origin direction).isFinite = true
  · have both := (Bool.and_eq_true ..).mp finite
    exact forward.rayEnds fun axis =>
      Ray.signedOn_ofDirection (Vec.isFinite_get both.1 axis) (Vec.isFinite_get both.2 axis)
  · -- there is no walk along a ray that is not finite
    have none : RayWalk.start h (.ofDirection origin direction) progress = none := by
      simp [RayWalk.start, finite]
    refine ⟨?_, ?_, ?_⟩
    · intro walk starts
      rw [none] at starts
      cases starts
    · intro _ walk starts
      rw [none] at starts
      cases starts
    · intro _ _
      rw [walkRay_eq, none]
      nofun

/-- A hierarchy whose empty side leads back to the node itself. -/
def turning : Hierarchy :=
  ⟨#[.split .x 0 .negativeInfinity 1, .leaf 0 0], #[], ⟨⟨.negativeInfinity, -1, -1⟩, ⟨1, 1, 1⟩⟩⟩

def turningFile : List UInt8 :=
  fileOf turning.bounds [0, 0xff800000, 0x3f800000, 0xc0000000, 0, 0] #[]

/-- A ray that runs to the empty side. -/
def leftward : Ray := .ofDirection ⟨0, 0, 0⟩ ⟨-1, 0, 0⟩

theorem read_walks_end_turning : reader.run turningFile = .ok (turning, []) ∧
    (∀ (origin direction : Vec) (visit : Visitor Unit) (stop : Bool) (progress : Progress Unit),
      turning.RayEnds (.ofDirection origin direction) visit stop progress) ∧
    ∀ (p : Vec) (visit : PointVisitor Unit) (memo : Unit), turning.PointEnds p visit memo := by
  have read : reader.run turningFile = .ok (turning, []) := by rfl
  exact ⟨read, read_walks_end read⟩

/-- At infinity the ray comes back to the node in the same way, and so does a point that lies there. -/
theorem read_walks_endless :
    reader.run turningFile = .ok (turning, []) ∧
      (∃ walk, RayWalk.start turning leftward ⟨.infinity, ()⟩ = some walk ∧
        ¬Finishes (turning.rayStep leftward (fun _ progress => .ok (false, progress)) false) walk) ∧
      ∃ walk, PointWalk.start turning ⟨.negativeInfinity, 0, 0⟩ () = some walk ∧
        ¬Finishes (turning.pointStep ⟨.negativeInfinity, 0, 0⟩ fun _ memo => .ok memo) walk := by
  have atInfinity : turning.rayStep leftward (fun _ progress => .ok (false, progress)) false
      ⟨some ⟨0, ⟨.infinity, .infinity⟩⟩, [], ⟨.infinity, ()⟩⟩ =
        .ok (.inl ⟨some ⟨0, ⟨.infinity, .infinity⟩⟩, [], ⟨.infinity, ()⟩⟩) := by rfl
  refine ⟨by rfl, ⟨⟨some ⟨0, ⟨0, .infinity⟩⟩, [], ⟨.infinity, ()⟩⟩, by rfl, ?_⟩,
    ⟨some 0, [], ()⟩, by rfl, not_finishes_of_again (by rfl)⟩
  exact not_finishes_of_next (by rfl) (not_finishes_of_again atInfinity)

end Sightline.Hierarchy
