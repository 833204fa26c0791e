import Sightline.Proofs.Hierarchy.Keeping

/-!
# Walks that stop at the first hit

A walk that stops at its first hit and a walk that goes on for the nearest one go the same way until
something is hit. The visits of the two walks may differ, as long as they hit the same objects while
nothing was hit before; afterwards the second walk only has to remember that there was a hit.
-/
namespace Sightline.Hierarchy

/-- Both results tell of a hit, or both left everything as it was. -/
def SameHit (reach : Single) (nearest first : Progress Bool) : Prop :=
  nearest.memo = first.memo ∧
    (nearest.memo = false → nearest = ⟨reach, false⟩ ∧ first = ⟨reach, false⟩)

/-- Two ways of visiting: one looks for the nearest hit, the other one is content with the first. -/
structure HitAlike (nearest first : Visitor Bool) : Prop where
  visit : ∀ {object reach hit next}, nearest object ⟨reach, false⟩ = .ok (hit, next) →
    next.memo = hit ∧
      ∃ other, first object ⟨reach, false⟩ = .ok (hit, other) ∧ SameHit reach next other
  remembers : ∀ {object progress hit next}, nearest object progress = .ok (hit, next) →
    progress.memo = true → next.memo = true

variable {nearest first : Visitor Bool} {reach : Single} {progress next : Progress Bool}
  {h : Hierarchy} {ray : Ray} {objects : List Nat}

/-! ### One leaf -/

/-- A hit is not forgotten. -/
theorem HitAlike.keepsHit (alike : HitAlike nearest first) :
    VisitsKeep nearest fun progress => progress.memo = true :=
  fun met before => alike.remembers met before

theorem HitAlike.visitAll (alike : HitAlike nearest first) {stopped : Bool}
    (visited : visitAll nearest false objects ⟨reach, false⟩ = .ok (stopped, next)) :
    ∃ other, Hierarchy.visitAll first true objects ⟨reach, false⟩ = .ok (next.memo, other) ∧
      SameHit reach next other := by
  induction objects with
  | nil =>
    cases visited
    exact ⟨_, rfl, rfl, fun _ => ⟨rfl, rfl⟩⟩
  | cons object rest ih =>
    obtain ⟨hit, after, met, further⟩ := visitAll_step visited
    obtain ⟨told, other, metFirst, same⟩ := alike.visit met
    rw [Hierarchy.visitAll, metFirst]
    cases hit with
    | false =>
      obtain ⟨rfl, rfl⟩ := same.2 told
      exact ih further
    | true =>
      -- the first walk ends here; the other one goes on and does not forget
      have remembered : next.memo = true := visitAll_keeps alike.keepsHit further told
      refine ⟨other, ?_, ?_, fun missed => ?_⟩
      · rw [remembered]
        rfl
      · exact remembered.trans (told.symm.trans same.1)
      · rw [remembered] at missed
        cases missed

/-! ### Whole walks -/

/-- While nothing was hit both walks take the same step, and they hit something in the same step. -/
theorem HitAlike.rayStep (alike : HitAlike nearest first) {walk : RayWalk Bool}
    {after : RayWalk Bool ⊕ Progress Bool} (unhit : walk.progress = ⟨reach, false⟩)
    (step : h.rayStep ray nearest false walk = .ok after) :
    (h.rayStep ray first true walk = .ok after ∧ reached after = ⟨reach, false⟩) ∨
      ((reached after).memo = true ∧
        ∃ other, h.rayStep ray first true walk = .ok (.inr other) ∧ other.memo = true) := by
  rcases h.rayStep_cases ray walk with ⟨objects, later, leaf⟩ | ⟨result, other, same⟩
  · rw [leaf, unhit] at step
    rw [leaf, unhit]
    cases visited : Hierarchy.visitAll nearest false objects ⟨reach, false⟩ with
    | error failure =>
      rw [visited] at step
      cases step
    | ok result =>
      obtain ⟨stopped, next⟩ := result
      obtain rfl : stopped = false := visitAll_false visited
      obtain ⟨other, visitedFirst, told, missed⟩ := alike.visitAll visited
      rw [visited] at step
      cases step
      rw [visitedFirst]
      cases hit : next.memo with
      | false =>
        obtain ⟨rfl, rfl⟩ := missed hit
        exact .inl ⟨rfl, rfl⟩
      | true => exact .inr ⟨hit, other, rfl, told.symm.trans hit⟩
  · rw [other] at step
    rw [other]
    exact .inl ⟨step, (same after step).trans unhit⟩

theorem HitAlike.runRay (alike : HitAlike nearest first) {steps : Nat} {walk : RayWalk Bool}
    (unhit : walk.progress = ⟨reach, false⟩)
    (ran : h.runRay ray nearest false steps walk = .ok next) :
    ∃ other, h.runRay ray first true steps walk = .ok other ∧ SameHit reach next other := by
  induction steps generalizing walk with
  | zero => cases ran
  | succ steps ih =>
    obtain ⟨after, step, further⟩ := runRay_step ran
    rw [Hierarchy.runRay]
    rcases alike.rayStep unhit step with ⟨stepFirst, unhitAfter⟩ | ⟨hit, other, stepFirst, told⟩
    · rw [stepFirst]
      cases after with
      | inl walk => exact ih unhitAfter further
      | inr progress =>
        obtain rfl : progress = next := further
        obtain rfl : progress = ⟨reach, false⟩ := unhitAfter
        exact ⟨_, rfl, rfl, fun _ => ⟨rfl, rfl⟩⟩
    · rw [stepFirst]
      have remembered : next.memo = true := by
        cases after with
        | inl walk => exact runRay_keeps alike.keepsHit further hit
        | inr progress => exact further ▸ hit
      refine ⟨other, rfl, remembered.trans told.symm, fun missed => ?_⟩
      rw [remembered] at missed
      cases missed

/-- If the walk for the nearest hit ends, so does the one that stops at the first hit, and both tell
whether there is a hit. -/
theorem HitAlike.walkRay (alike : HitAlike nearest first)
    (walked : h.walkRay ray nearest false ⟨reach, false⟩ = .ok next) :
    ∃ other, h.walkRay ray first true ⟨reach, false⟩ = .ok other ∧ SameHit reach next other := by
  rw [Hierarchy.walkRay] at walked ⊢
  split at walked
  next still =>
    cases walked
    rw [if_pos still]
    exact ⟨_, rfl, rfl, fun _ => ⟨rfl, rfl⟩⟩
  next moves =>
    rw [if_neg moves]
    cases starts : h.startSpan ray reach with
    | none =>
      simp only [starts] at walked ⊢
      cases walked
      exact ⟨_, rfl, rfl, fun _ => ⟨rfl, rfl⟩⟩
    | some span =>
      simp only [starts] at walked ⊢
      exact alike.runRay rfl walked

end Sightline.Hierarchy
