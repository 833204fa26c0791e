import Mathlib.Data.List.Forall2
import Sightline.Fault

/-!
# Outcomes of computations

How a computation made of parts came to its result.
-/
namespace Sightline

variable {ε α β : Type}

theorem bind_eq_ok {x : Except ε α} {f : α → Except ε β} {b : β} :
    x >>= f = .ok b ↔ ∃ a, x = .ok a ∧ f a = .ok b := by
  cases x with
  | error e =>
    constructor
    · nofun
    · rintro ⟨a, same, -⟩
      cases same
  | ok a =>
    constructor
    · intro result
      exact ⟨a, rfl, result⟩
    · rintro ⟨b, same, result⟩
      cases same
      exact result

theorem ok_ne_error {a : α} {e : ε} : (.ok a : Except ε α) ≠ .error e := by
  intro same
  cases same

/-- A computation does not fail in some way if no part of it does. -/
theorem bind_ne_error {x : Except ε α} {f : α → Except ε β} {e : ε} (first : x ≠ .error e)
    (next : ∀ a, f a ≠ .error e) : x >>= f ≠ .error e := by
  cases x with
  | error failure =>
    intro same
    cases same
    exact first rfl
  | ok a => exact next a

theorem map_eq_ok {x : Except ε α} {f : α → β} {b : β} :
    x.map f = .ok b ↔ ∃ a, x = .ok a ∧ f a = b := by
  cases x <;> simp [Except.map]

/-- A computation over a list succeeds if it does for every item. -/
theorem mapM_eq_ok {f : α → Except ε β} {xs : List α} {ys : List β} :
    xs.mapM f = .ok ys ↔ List.Forall₂ (fun x y => f x = .ok y) xs ys := by
  induction xs generalizing ys with
  | nil =>
    constructor
    · intro result
      cases result
      exact .nil
    · intro pairs
      cases pairs
      rfl
  | cons x xs ih =>
    rw [List.mapM_cons, bind_eq_ok]
    constructor
    · rintro ⟨y, first, following⟩
      obtain ⟨rest, others, result⟩ := bind_eq_ok.mp following
      cases result
      exact .cons first (ih.mp others)
    · rintro (_ | ⟨first, others⟩)
      exact ⟨_, first, bind_eq_ok.mpr ⟨_, ih.mpr others, rfl⟩⟩

/-! ### Two computations -/

/-- Two computations fail in the same way, or both return, and their results are related. -/
inductive SameOutcome (R : α → β → Prop) : Except ε α → Except ε β → Prop
  | failed (e : ε) : SameOutcome R (.error e) (.error e)
  | returned {a : α} {b : β} (related : R a b) : SameOutcome R (.ok a) (.ok b)

namespace SameOutcome

variable {α' β' : Type} {R : α → β → Prop} {x : Except ε α} {y : Except ε β}

theorem refl {P : α → α → Prop} (same : ∀ a, P a a) (x : Except ε α) : SameOutcome P x x := by
  cases x with
  | error e => exact .failed e
  | ok a => exact .returned (same a)

theorem bind {S : α' → β' → Prop} {f : α → Except ε α'} {g : β → Except ε β'}
    (first : SameOutcome R x y) (next : ∀ a b, R a b → SameOutcome S (f a) (g b)) :
    SameOutcome S (x >>= f) (y >>= g) := by
  cases first with
  | failed e => exact .failed e
  | returned related => exact next _ _ related

theorem left {a : α} (alike : SameOutcome R x y) (returns : x = .ok a) : ∃ b, y = .ok b ∧ R a b := by
  cases alike with
  | failed e => cases returns
  | returned related =>
    cases returns
    exact ⟨_, rfl, related⟩

theorem right {b : β} (alike : SameOutcome R x y) (returns : y = .ok b) : ∃ a, x = .ok a ∧ R a b := by
  cases alike with
  | failed e => cases returns
  | returned related =>
    cases returns
    exact ⟨_, rfl, related⟩

end SameOutcome

/-! ### Computations with a state -/

variable {σ : Type} {x : StateT σ (Except ε) α} {f : α → StateT σ (Except ε) β}

theorem run_bind_eq_ok {start final : σ} {b : β} :
    (x >>= f).run start = .ok (b, final) ↔
      ∃ a between, x.run start = .ok (a, between) ∧ (f a).run between = .ok (b, final) := by
  rw [StateT.run_bind, bind_eq_ok]
  constructor
  · rintro ⟨⟨a, between⟩, first, second⟩
    exact ⟨a, between, first, second⟩
  · rintro ⟨a, between, first, second⟩
    exact ⟨(a, between), first, second⟩

/-- A check leaves the state alone. -/
theorem run_check_eq_ok {checked : Except ε α} {start final : σ} {b : β} :
    ((liftM checked : StateT σ (Except ε) α) >>= f).run start = .ok (b, final) ↔
      ∃ a, checked = .ok a ∧ (f a).run start = .ok (b, final) := by
  rw [run_bind_eq_ok]
  cases checked with
  | error fault =>
    constructor
    · rintro ⟨a, between, first, -⟩
      cases first
    · rintro ⟨a, passed, -⟩
      cases passed
  | ok value =>
    constructor
    · rintro ⟨a, between, first, second⟩
      cases first
      exact ⟨value, rfl, second⟩
    · rintro ⟨a, passed, second⟩
      cases passed
      exact ⟨value, start, rfl, second⟩

end Sightline
