import Sightline.Hierarchy.PointWalk
import Sightline.Proofs.Outcome

/-!
# Walks side by side

The way of a walk at a point does not depend on what is visited. So two walks of one hierarchy at one
point make the same visits in the same order, whatever their memos are made of: if related memos are
related after every visit, they are when the walks end, and a failure of one walk is a failure of the
other.
-/
namespace Sightline.Hierarchy

variable {σ τ : Type} {R : σ → τ → Prop} {visit : PointVisitor σ} {other : PointVisitor τ}

/-- Visits of the same object come out alike, and leave related memos related. -/
def Alongside (R : σ → τ → Prop) (visit : PointVisitor σ) (other : PointVisitor τ) : Prop :=
  ∀ object a b, R a b → SameOutcome R (visit object a) (other object b)

/-- Two walks are at the same part, have kept the same nodes, and their memos are related. -/
structure PointWalk.Beside (R : σ → τ → Prop) (first : PointWalk σ) (second : PointWalk τ) : Prop where
  current : first.current = second.current
  later : first.later = second.later
  memo : R first.memo second.memo

/-- Two walks go on side by side, or both end. -/
abbrev StepBeside (R : σ → τ → Prop) : PointWalk σ ⊕ σ → PointWalk τ ⊕ τ → Prop :=
  Sum.LiftRel (PointWalk.Beside R) R

theorem sameOutcome_visitEach (alongside : Alongside R visit other) (objects : List Nat) {a : σ}
    {b : τ} (related : R a b) :
    SameOutcome R (visitEach visit objects a) (visitEach other objects b) := by
  induction objects generalizing a b with
  | nil => exact .returned related
  | cons object rest ih => exact (alongside object a b related).bind fun _ _ kept => ih kept

theorem sameOutcome_pointStep (alongside : Alongside R visit other) (h : Hierarchy) (point : Vec)
    {first : PointWalk σ} {second : PointWalk τ} (beside : first.Beside R second) :
    SameOutcome (StepBeside R) (h.pointStep point visit first) (h.pointStep point other second) := by
  obtain ⟨current, later, a⟩ := first
  obtain ⟨_, _, b⟩ := second
  obtain ⟨rfl, rfl, related⟩ := beside
  have goOn (current : Option Nat) (later : List Nat) : SameOutcome (ε := Failure) (StepBeside R)
      (.ok (.inl ⟨current, later, a⟩)) (.ok (.inl ⟨current, later, b⟩)) :=
    .returned (.inl ⟨rfl, rfl, related⟩)
  have finish : SameOutcome (ε := Failure) (StepBeside R) (.ok (.inr a)) (.ok (.inr b)) :=
    .returned (.inr related)
  simp only [pointStep]
  split
  · cases later with
    | nil => exact finish
    | cons node later => exact goOn _ _
  next node =>
    -- which way it goes is a matter of the nodes and the point alone
    split
    next => exact goOn _ _
    next => split_ifs <;> first | exact goOn _ _ | exact finish
    next => split_ifs <;> exact goOn _ _
    next first count _ =>
      refine (SameOutcome.refl (fun _ => rfl) (h.leafObjects first count)).bind ?_
      rintro objects _ rfl
      exact (sameOutcome_visitEach alongside objects related).bind
        fun _ _ kept => .returned (.inl ⟨rfl, rfl, kept⟩)

theorem sameOutcome_runPoint (alongside : Alongside R visit other) (h : Hierarchy) (point : Vec)
    (steps : Nat) {first : PointWalk σ} {second : PointWalk τ} (beside : first.Beside R second) :
    SameOutcome R (h.runPoint point visit steps first) (h.runPoint point other steps second) := by
  induction steps generalizing first second with
  | zero => exact .failed _
  | succ steps ih =>
    refine (sameOutcome_pointStep alongside h point beside).bind ?_
    rintro _ _ (⟨goOn⟩ | ⟨related⟩)
    · exact ih goOn
    · exact .returned related

/-- Two walks of a hierarchy at a point come out alike if their visits do. -/
theorem sameOutcome_walkPoint (alongside : Alongside R visit other) (h : Hierarchy) (point : Vec)
    {a : σ} {b : τ} (related : R a b) :
    SameOutcome R (h.walkPoint point visit a) (h.walkPoint point other b) := by
  simp only [walkPoint]
  split
  · exact .returned related
  · exact sameOutcome_runPoint alongside h point _ ⟨rfl, rfl, related⟩

/-- What every visit keeps, a walk keeps. -/
theorem walkPoint_keeps {P : σ → Prop} {h : Hierarchy} {point : Vec}
    (keeps : ∀ object before after, P before → visit object before = .ok after → P after)
    {before after : σ} (known : P before) (done : h.walkPoint point visit before = .ok after) :
    P after := by
  -- a walk beside itself
  have alongside : Alongside (fun a b => a = b ∧ P a) visit visit := by
    rintro object memo _ ⟨rfl, knownHere⟩
    cases visited : visit object memo with
    | error failure => exact .failed failure
    | ok next => exact .returned ⟨rfl, keeps object memo next knownHere visited⟩
  obtain ⟨_, -, -, knownAfter⟩ := (sameOutcome_walkPoint alongside h point ⟨rfl, known⟩).left done
  exact knownAfter

end Sightline.Hierarchy
