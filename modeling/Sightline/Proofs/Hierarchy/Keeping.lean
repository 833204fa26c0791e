import Sightline.Hierarchy.RayWalk

/-!
# What visits keep along a walk

A walk along a ray changes its progress by visits only. So what every visit keeps of the progress, the
whole walk keeps, whatever the hierarchy is like and wherever the walk ends.
-/
namespace Sightline.Hierarchy

variable {σ : Type} {visit : Visitor σ} {stop : Bool} {P : Progress σ → Prop} {h : Hierarchy}
  {ray : Ray} {objects : List Nat} {progress next : Progress σ}

/-! ### Single steps -/

theorem visitAll_step {object : Nat} {result : Bool × Progress σ}
    (visited : visitAll visit stop (object :: objects) progress = .ok result) :
    ∃ hit after, visit object progress = .ok (hit, after) ∧
      (if stop && hit then .ok (true, after) else visitAll visit stop objects after) =
        (.ok result : Except Failure (Bool × Progress σ)) := by
  cases met : visit object progress with
  | error failure =>
    rw [visitAll, met] at visited
    cases visited
  | ok found =>
    obtain ⟨hit, after⟩ := found
    rw [visitAll, met] at visited
    exact ⟨hit, after, rfl, visited⟩

/-- Without the order to stop, all objects are visited. -/
theorem visitAll_false {stopped : Bool}
    (visited : visitAll visit false objects progress = .ok (stopped, next)) : stopped = false := by
  induction objects generalizing progress with
  | nil =>
    cases visited
    rfl
  | cons object rest ih =>
    obtain ⟨hit, after, -, further⟩ := visitAll_step visited
    exact ih further

theorem runRay_step {steps : Nat} {walk : RayWalk σ}
    (ran : h.runRay ray visit stop (steps + 1) walk = .ok next) :
    ∃ after, h.rayStep ray visit stop walk = .ok after ∧
      match after with
      | .inl walk => h.runRay ray visit stop steps walk = .ok next
      | .inr progress => progress = next := by
  cases step : h.rayStep ray visit stop walk with
  | error failure =>
    rw [runRay, step] at ran
    cases ran
  | ok after =>
    rw [runRay, step] at ran
    refine ⟨after, rfl, ?_⟩
    cases after with
    | inl walk => exact ran
    | inr progress => exact Except.ok.inj ran

/-- The progress after a step, whether the walk goes on or ends. -/
def reached : RayWalk σ ⊕ Progress σ → Progress σ
  | .inl walk => walk.progress
  | .inr progress => progress

theorem reached_follow (later : List Part) (progress : Progress σ) (route : Route) :
    reached (follow later progress route) = progress := by
  cases route with
  | nowhere => rfl
  | one next => rfl
  | both next kept =>
    simp only [follow]
    split <;> rfl

/-- A step at a leaf visits its objects. Any other step is the same for all visits. -/
theorem rayStep_cases (h : Hierarchy) (ray : Ray) (walk : RayWalk σ) :
    (∃ objects later, ∀ (visit : Visitor σ) (stop : Bool), h.rayStep ray visit stop walk =
      (visitAll visit stop objects walk.progress).map fun result =>
        if result.1 then .inr result.2 else .inl ⟨none, later, result.2⟩) ∨
    ∃ result : Except Failure (RayWalk σ ⊕ Progress σ),
      (∀ (visit : Visitor σ) (stop : Bool), h.rayStep ray visit stop walk = result) ∧
        ∀ after, result = .ok after → reached after = walk.progress := by
  obtain ⟨current, later, progress⟩ := walk
  cases current with
  | none =>
    -- a step back to a part that was kept visits nothing
    right
    cases later with
    | nil => exact ⟨_, fun _ _ => rfl, fun _ same => by cases same; rfl⟩
    | cons part later => exact ⟨_, fun _ _ => rfl, fun _ same => by cases same; rfl⟩
  | some part =>
    cases found : h.nodes[part.node]? with
    | none =>
      right
      refine ⟨.ok (.inl ⟨none, later, progress⟩), fun _ _ => ?_, fun _ same => by cases same; rfl⟩
      simp only [rayStep, found]
    | some node =>
      cases node with
      | leaf first count =>
        cases named : h.leafObjects first count with
        | error failure =>
          right
          refine ⟨.error failure, fun visit stop => ?_, nofun⟩
          simp only [rayStep, found, named]
          rfl
        | ok objects =>
          left
          refine ⟨objects, later, fun visit stop => ?_⟩
          simp only [rayStep, found, named, bind, Except.bind]
          cases visitAll visit stop objects progress <;> rfl
      | split axis child left right =>
        right
        refine ⟨.ok (follow later progress (routeSplit ray part.span axis child left right)),
          fun _ _ => by simp only [rayStep, found], fun _ same => ?_⟩
        cases same
        exact reached_follow _ _ _
      | narrow axis child low high =>
        right
        refine ⟨.ok (follow later progress (routeNarrow ray part.span axis child low high)),
          fun _ _ => by simp only [rayStep, found], fun _ same => ?_⟩
        cases same
        exact reached_follow _ _ _

/-! ### What is kept -/

/-- Each visit that ends keeps what is known of the progress. -/
def VisitsKeep (visit : Visitor σ) (P : Progress σ → Prop) : Prop :=
  ∀ {object progress hit next}, visit object progress = .ok (hit, next) → P progress → P next

theorem visitAll_keeps (keeps : VisitsKeep visit P) {stopped : Bool}
    (visited : visitAll visit stop objects progress = .ok (stopped, next)) (known : P progress) :
    P next := by
  induction objects generalizing progress with
  | nil =>
    cases visited
    exact known
  | cons object rest ih =>
    obtain ⟨hit, after, met, further⟩ := visitAll_step visited
    have knownAfter := keeps met known
    -- a hit may end the visits here, and then this is already the progress at the end
    split at further
    · cases further
      exact knownAfter
    · exact ih further knownAfter

theorem rayStep_keeps (keeps : VisitsKeep visit P) {walk : RayWalk σ}
    {after : RayWalk σ ⊕ Progress σ} (step : h.rayStep ray visit stop walk = .ok after)
    (known : P walk.progress) : P (reached after) := by
  rcases h.rayStep_cases ray walk with ⟨objects, later, leaf⟩ | ⟨result, other, same⟩
  · rw [leaf] at step
    cases visited : visitAll visit stop objects walk.progress with
    | error failure =>
      rw [visited] at step
      cases step
    | ok result =>
      obtain ⟨stopped, next⟩ := result
      have knownAfter : P next := visitAll_keeps keeps visited known
      rw [visited] at step
      cases step
      cases stopped <;> exact knownAfter
  · rw [other] at step
    rw [same after step]
    exact known

theorem runRay_keeps (keeps : VisitsKeep visit P) {steps : Nat} {walk : RayWalk σ}
    (ran : h.runRay ray visit stop steps walk = .ok next) (known : P walk.progress) : P next := by
  induction steps generalizing walk with
  | zero => cases ran
  | succ steps ih =>
    obtain ⟨after, step, further⟩ := runRay_step ran
    have knownAfter := rayStep_keeps keeps step known
    cases after with
    | inl walk => exact ih further knownAfter
    | inr progress => exact further ▸ knownAfter

theorem walkRay_keeps (keeps : VisitsKeep visit P)
    (walked : h.walkRay ray visit stop progress = .ok next) (known : P progress) : P next := by
  rw [walkRay] at walked
  split at walked
  next still =>
    cases walked
    exact known
  next moves =>
    cases starts : h.startSpan ray progress.reach with
    | none =>
      simp only [starts] at walked
      cases walked
      exact known
    | some span =>
      simp only [starts] at walked
      exact runRay_keeps keeps walked known

end Sightline.Hierarchy
