import Mathlib.Data.Nat.Basic

/-!
# Systems that take steps until they end

A step leads to another state, to a result or to a failure; the system ends with either of the last
two. A system whose steps leave less to do, except for the steps of some marked states, ends if it
comes to marked states only finitely often, and not otherwise.
-/
namespace Sightline

section

variable {ε ω ρ : Type} (step : ω → Except ε (ω ⊕ ρ))

/-- The state after a number of steps, if the system has not ended by then. -/
def stateAfter : Nat → ω → Option ω
  | 0, state => some state
  | steps + 1, state =>
    match step state with
    | .ok (.inl next) => stateAfter steps next
    | _ => none

/-- The system ends after some number of steps. -/
def Finishes (state : ω) : Prop := ∃ steps, stateAfter step steps state = none

/-- From some step on, the system does not come to a marked state any more. -/
def FinallyAvoids (marked : ω → Prop) (state : ω) : Prop :=
  ∃ last, ∀ steps later, last ≤ steps → stateAfter step steps state = some later → ¬marked later

/-- Takes at most the given number of steps. -/
def runFor (exhausted : ε) : Nat → ω → Except ε ρ
  | 0, _ => .error exhausted
  | steps + 1, state =>
    match step state with
    | .error failure => .error failure
    | .ok (.inl next) => runFor exhausted steps next
    | .ok (.inr result) => .ok result

/-- Each step keeps what is known of the states, and if it does not start from a marked state it
leaves less to do. -/
structure Descends (kept marked : ω → Prop) (weight : ω → Nat) : Prop where
  keeps : ∀ {state next}, kept state → step state = .ok (.inl next) → kept next
  lessens : ∀ {state next}, kept state → ¬marked state → step state = .ok (.inl next) →
    weight next < weight state

end

variable {ε ω ρ : Type} {step : ω → Except ε (ω ⊕ ρ)} {kept marked : ω → Prop} {weight : ω → Nat}
  {state : ω}

/-! ### States on the way -/

theorem stateAfter_add (first second : Nat) (state : ω) :
    stateAfter step (first + second) state =
      (stateAfter step first state).bind (stateAfter step second) := by
  induction first generalizing state with
  | zero =>
    rw [Nat.zero_add]
    rfl
  | succ first ih =>
    rw [Nat.add_right_comm]
    simp only [stateAfter]
    split
    · exact ih _
    · rfl

/-- A system that has ended does not go on. -/
theorem stateAfter_of_le {steps more : Nat} (ended : stateAfter step steps state = none)
    (atMost : steps ≤ more) : stateAfter step more state = none := by
  obtain ⟨rest, rfl⟩ := Nat.exists_eq_add_of_le atMost
  rw [stateAfter_add, ended]
  rfl

/-- A state that is its own successor is there for ever. -/
theorem not_finishes_of_again (again : step state = .ok (.inl state)) : ¬Finishes step state := by
  rintro ⟨steps, ended⟩
  induction steps with
  | zero => cases ended
  | succ steps ih =>
    rw [stateAfter, again] at ended
    exact ih ended

theorem not_finishes_of_next {next : ω} (leads : step state = .ok (.inl next))
    (endless : ¬Finishes step next) : ¬Finishes step state := by
  rintro ⟨steps, ended⟩
  cases steps with
  | zero => cases ended
  | succ steps =>
    rw [stateAfter, leads] at ended
    exact endless ⟨steps, ended⟩

/-- A system that ends has its result within as many steps. -/
theorem runFor_ne_exhausted {exhausted : ε} (others : ∀ state, step state ≠ .error exhausted)
    {steps : Nat} (ended : stateAfter step steps state = none) :
    runFor step exhausted steps state ≠ .error exhausted := by
  induction steps generalizing state with
  | zero => cases ended
  | succ steps ih =>
    rw [stateAfter] at ended
    rw [runFor]
    cases taken : step state with
    | error failure =>
      intro same
      obtain rfl : failure = exhausted := Except.error.inj same
      exact others state taken
    | ok outcome =>
      cases outcome with
      | inl next =>
        rw [taken] at ended
        exact ih ended
      | inr result => nofun

/-! ### What leaves less to do -/

namespace Descends

theorem kept_after (descends : Descends step kept marked weight) (start : kept state) {steps : Nat}
    {later : ω} (reached : stateAfter step steps state = some later) : kept later := by
  induction steps generalizing state with
  | zero =>
    cases reached
    exact start
  | succ steps ih =>
    rw [stateAfter] at reached
    split at reached
    next next leads => exact ih (descends.keeps start leads) reached
    next => cases reached

/-- Away from marked states the system ends before its weight is used up. -/
theorem ended (descends : Descends step kept marked weight) (start : kept state)
    (never : ∀ steps later, stateAfter step steps state = some later → ¬marked later) {limit : Nat}
    (enough : weight state < limit) : stateAfter step limit state = none := by
  induction limit generalizing state with
  | zero => cases enough
  | succ limit ih =>
    rw [stateAfter]
    split
    next next leads =>
      have less := descends.lessens start (never 0 state rfl) leads
      refine ih (descends.keeps start leads) (fun steps later reached => ?_) (by omega)
      refine never (steps + 1) later ?_
      rw [stateAfter, leads]
      exact reached
    next => rfl

theorem finishes_iff (descends : Descends step kept marked weight) (start : kept state) :
    Finishes step state ↔ FinallyAvoids step marked state := by
  constructor
  · rintro ⟨last, ended⟩
    refine ⟨last, fun steps later atLeast reached => ?_⟩
    rw [stateAfter_of_le ended atLeast] at reached
    cases reached
  · rintro ⟨last, settled⟩
    cases reached : stateAfter step last state with
    | none => exact ⟨last, reached⟩
    | some middle =>
      -- from here on no state is marked
      have never (steps : Nat) (later : ω) (further : stateAfter step steps middle = some later) :
          ¬marked later := by
        refine settled (last + steps) later (Nat.le_add_right _ _) ?_
        rw [stateAfter_add, reached]
        exact further
      refine ⟨last + (weight middle + 1), ?_⟩
      rw [stateAfter_add, reached]
      exact descends.ended (descends.kept_after start reached) never (Nat.lt_succ_self _)

end Descends

end Sightline
