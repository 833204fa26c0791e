import Sightline.Mesh.Triangle

/-!
# Computations that look up what exists

A computation is safe if no look-up in it goes outside of a list. It may fail otherwise. The rules follow
the parts of a computation, and carry what is known of its results from one part to the next.
-/
namespace Sightline

variable {α β : Type} {P : α → Prop} {Q : β → Prop}

/-- No look-up goes outside of a list, and what is returned satisfies `P`. -/
def Safely (P : α → Prop) : Except Failure α → Prop
  | .ok a => P a
  | .error failure => failure ≠ .outOfRange

/-- Without a condition on the results. -/
abbrev Safe (x : Except Failure α) : Prop := Safely (fun _ => True) x

namespace Safely

variable {x : Except Failure α} {f : α → Except Failure β}

theorem ne_outOfRange (safely : Safely P x) : x ≠ .error .outOfRange := by
  rintro rfl
  exact safely rfl

theorem mono {R : α → Prop} (safely : Safely P x) (weaker : ∀ a, P a → R a) : Safely R x := by
  cases x with
  | ok a => exact weaker a safely
  | error failure => exact safely

theorem safe (safely : Safely P x) : Safe x := safely.mono fun _ _ => trivial

theorem bind (first : Safely P x) (next : ∀ a, P a → Safely Q (f a)) : Safely Q (x >>= f) := by
  cases x with
  | ok a => exact next a first
  | error failure => exact first

end Safely

/-- An item at a number below the size of the list is found. -/
theorem safely_fetch {list : Array α} {index : Nat} (inside : index < list.size) :
    Safely (fun item => list[index]? = some item) (fetch list index) := by
  rw [fetch, Array.getElem?_eq_getElem inside]
  rfl

theorem fetch_eq_ok {list : Array α} {index : Nat} {item : α} :
    fetch list index = .ok item ↔ list[index]? = some item := by
  rw [fetch]
  split
  next found => rw [found, Except.ok.injEq, Option.some.injEq]
  next missing =>
    rw [missing]
    constructor <;> nofun

theorem mem_of_fetch {list : Array α} {index : Nat} {item : α}
    (found : fetch list index = .ok item) : item ∈ list.toList := by
  rw [fetch_eq_ok, ← Array.getElem?_toList] at found
  exact List.mem_of_getElem? found

end Sightline
