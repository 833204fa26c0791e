import Sightline.Hierarchy.Build
import Sightline.Hierarchy.RayWalk
import Sightline.Proofs.Geometry.Box

/-!
# Hierarchies of one leaf

The hierarchy over a single box is a leaf, and a walk through it visits the one object in it.
-/
namespace Sightline.Hierarchy

variable {σ : Type}

/-- The hierarchy over one object: a leaf. -/
def single (b : Box) : Hierarchy := ⟨#[.leaf 0 1], #[0], b⟩

theorem build_one (b : Box) {leafSize : Nat} (room : 1 ≤ leafSize) :
    build [b] leafSize = .ok (single b) := by
  have bounds : boundsOf [b] = b := b.merge_self
  have small : (itemsOf [b]).length ≤ leafSize := room
  have plan : buildCounted [b] leafSize =
      .ok (⟨#[.leaf 0 1], #[0], boundsOf [b]⟩, Statistics.addPlan 1 (.leaf [0]) {}) := by
    have leaf : planItems leafSize deepest 1 (itemsOf [b]) (boundsOf [b]) (boundsOf [b]) =
        .ok (.leaf [0]) := if_pos (.inl small)
    have planned : plan? [b] leafSize = .ok (some (.leaf [0])) := by
      simp only [plan?, leaf, List.isEmpty_cons, Bool.false_eq_true, if_false]
      rfl
    simp only [buildCounted, planned]
    rfl
  have few : ¬objectLimit ≤ [b].length := by simp [objectLimit]
  rw [build, if_neg few, plan, bounds]
  rfl

/-- The walk through the leaf visits its object and ends, whether it stops there or goes on. -/
theorem runRay_single {b : Box} {ray : Ray} {visit : Visitor σ} {stop : Bool} {steps : Nat}
    {span : Span} {progress : Progress σ} :
    (single b).runRay ray visit stop (steps + 2) ⟨some ⟨0, span⟩, [], progress⟩ =
      (visit 0 progress).map Prod.snd := by
  have leaf : (single b).rayStep ray visit stop ⟨some ⟨0, span⟩, [], progress⟩ =
      (visitAll visit stop [0] progress).map fun result =>
        if result.1 then .inr result.2 else .inl ⟨none, [], result.2⟩ := by
    have found : (single b).nodes[0]? = some (.leaf 0 1) := rfl
    have named : (single b).leafObjects 0 1 = .ok [0] := rfl
    simp only [rayStep, found, named, bind, Except.bind]
    cases visitAll visit stop [0] progress <;> rfl
  -- a visit that stops ends the walk in this step, any other one in the next
  rw [runRay, leaf, visitAll]
  cases visit 0 progress with
  | error failure => rfl
  | ok result =>
    obtain ⟨hit, next⟩ := result
    cases stopped : stop && hit with
    | true => simp [bind, Except.bind, Except.map, stopped, pure, Except.pure]
    | false =>
      simp [visitAll, bind, Except.bind, Except.map, stopped, runRay, rayStep, pure, Except.pure]

theorem walkRay_single {b : Box} {ray : Ray} {visit : Visitor σ} {stop : Bool} {span : Span}
    {reach : Single} {memo : σ} (finite : ray.isFinite = true)
    (starts : (single b).startSpan ray reach = some span) :
    (single b).walkRay ray visit stop ⟨reach, memo⟩ = (visit 0 ⟨reach, memo⟩).map Prod.snd := by
  have filled : (single b).isEmpty = false := rfl
  have many : 2 ^ 1 ≤ (single b).stepLimit := by
    rw [stepLimit, Nat.one_shiftLeft]
    exact Nat.pow_le_pow_right Nat.two_pos (by omega)
  obtain ⟨steps, limit⟩ := Nat.exists_eq_add_of_le' many
  simp only [walkRay, filled, finite, Bool.not_true, Bool.or_self, Bool.false_eq_true, if_false,
    starts, limit]
  exact runRay_single

end Sightline.Hierarchy
