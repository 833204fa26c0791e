import Sightline.Placement.Query
import Sightline.Proofs.Hierarchy.PointWalking
import Sightline.Proofs.Single.Order

/-!
# The highest floor

A scan goes from slot to slot and keeps the higher of two floors. It ends with the highest of all floors
that slots tell of alone, whichever way it goes; only between floors of the same height the first one
counts. A floor that is not a number, or as low as any can be, is never told.
-/
namespace Sightline

open Hierarchy

variable {α : Type} {height : α → Single} {told : α → Prop} {best new : Option α}

/-- A floor is found if any was told of, and then it is one of those and none of them is higher. -/
structure IsHighest (height : α → Single) (told : α → Prop) (best : Option α) : Prop where
  none_iff : best = none ↔ ∀ floor, ¬told floor
  origin : ∀ floor ∈ best, told floor
  highest : ∀ floor ∈ best, ∀ other, told other → height other ≤ height floor

theorem isHighest_none : IsHighest height (fun _ => False) none := ⟨by simp, nofun, nofun⟩

namespace IsHighest

theorem congr {others : α → Prop} (found : IsHighest height told best)
    (same : ∀ floor, told floor ↔ others floor) : IsHighest height others best := by
  have sets : told = others := funext fun floor => propext (same floor)
  exact sets ▸ found

/-- What is found is a number, since it is as high as itself. -/
theorem isNaN_height {floor : α} (found : IsHighest height told (some floor)) :
    (height floor).isNaN = false :=
  (found.highest floor rfl floor (found.origin floor rfl)).1

/-- One more floor, above the lowest of all heights. -/
theorem higher (found : IsHighest height told best)
    (above : ∀ floor ∈ new, .negativeInfinity < height floor) :
    IsHighest height (fun floor => told floor ∨ floor ∈ new) (Sightline.higher height best new) := by
  cases new with
  | none => exact found.congr fun floor => by simp
  | some candidate =>
    have candidateAbove := above candidate rfl
    simp only [Sightline.higher, Option.mem_some_iff]
    split
    next exceeds =>
      constructor
      case none_iff =>
        simp only [reduceCtorEq, false_iff, not_forall, not_not]
        exact ⟨candidate, .inr rfl⟩
      case origin =>
        intro floor isFound
        exact .inr (Option.mem_some_iff.mp isFound)
      case highest =>
        intro floor isFound other known
        obtain rfl := Option.mem_some_iff.mp isFound
        rcases known with known | rfl
        · -- nothing was told of before, or what was found is below the new floor
          cases best with
          | none => exact absurd known (found.none_iff.mp rfl other)
          | some before =>
            have below : height before < height candidate := exceeds
            exact Single.le_trans (found.highest before rfl other known) (Single.le_of_lt below)
        · exact Single.le_self candidateAbove.2.1
    next notAbove =>
      cases best with
      | none => exact absurd candidateAbove notAbove
      | some before =>
        constructor
        case none_iff =>
          simp only [reduceCtorEq, false_iff, not_forall, not_not]
          exact ⟨candidate, .inr rfl⟩
        case origin =>
          intro floor isFound
          exact .inl (found.origin floor isFound)
        case highest =>
          intro floor isFound other known
          rcases known with known | rfl
          · exact found.highest floor isFound other known
          · obtain rfl := Option.mem_some_iff.mp isFound
            exact Single.le_of_not_lt found.isNaN_height candidateAbove.2.1 notAbove

end IsHighest

/-! ### Scans -/

/-- A floor that is kept where there was none exceeds the lowest of all heights. -/
theorem above_of_higher_none {floor : α} (kept : higher height none new = some floor) :
    .negativeInfinity < height floor := by
  cases new with
  | none => cases kept
  | some candidate =>
    rw [higher, Option.ite_none_right_eq_some] at kept
    obtain ⟨exceeds, same⟩ := kept
    cases same
    exact exceeds

/-- What a slot tells alone can stand for all it tells. -/
theorem higher_higher_none (height : α → Single) (best new : Option α) :
    higher height best (higher height none new) = higher height best new := by
  cases new with
  | none => rfl
  | some candidate =>
    by_cases above : Exceeds height candidate none
    · simp only [higher, if_pos above]
    · -- it is not even kept alone, so it exceeds no other floor either
      have low : ¬Exceeds height candidate best := by
        cases best with
        | none => exact above
        | some floor =>
          intro exceeds
          exact above (Single.lt_of_le_of_lt (Single.negativeInfinity_le exceeds.1) exceeds)
      simp only [higher, if_neg above, if_neg low]

/-- A visit of the slot keeps the higher of what was found and what the slot tells alone. -/
def KeepsHigher (height : α → Single) (visit : PointVisitor (Option α)) (slot : Nat) : Prop :=
  ∀ best, visit slot best = (visit slot none).map (higher height best)

/-- A visit that keeps the higher of what was found and of what the slot answers. -/
theorem keepsHigher_of_answer {visit : PointVisitor (Option α)} {slot : Nat}
    {answer : Except Failure (Option α)}
    (visits : ∀ best, visit slot best = answer.map (higher height best)) :
    KeepsHigher height visit slot := by
  intro best
  rw [visits best, visits none]
  cases answer with
  | error failure => rfl
  | ok new => exact congrArg Except.ok (higher_higher_none height best new).symm

variable {visit : PointVisitor (Option α)} {slots : List Nat} {after : Option α}

/-- A scan ends if every slot of it answers alone. -/
theorem exists_visitEach (keeps : ∀ slot ∈ slots, KeepsHigher height visit slot) (best : Option α) :
    (∃ after, visitEach visit slots best = .ok after) ↔
      ∀ slot ∈ slots, ∃ own, visit slot none = .ok own := by
  -- whether a slot answers does not depend on what was found before it
  induction slots generalizing best with
  | nil => exact ⟨nofun, fun _ => ⟨best, rfl⟩⟩
  | cons slot rest ih =>
    have others := ih fun other listed => keeps other (.tail _ listed)
    rw [List.forall_mem_cons, visitEach, keeps slot (.head _) best]
    cases answer : visit slot none with
    | error failure =>
      constructor
      · rintro ⟨after, impossible⟩
        cases impossible
      · rintro ⟨⟨own, impossible⟩, -⟩
        cases impossible
    | ok own =>
      refine (others (higher height best own)).trans ⟨fun all => ⟨⟨own, rfl⟩, all⟩, And.right⟩

/-- A scan finds the highest of the floors found before and of those that its slots tell alone. -/
theorem isHighest_visitEach (keeps : ∀ slot ∈ slots, KeepsHigher height visit slot)
    (found : IsHighest height told best) (done : visitEach visit slots best = .ok after) :
    IsHighest height
      (fun floor => told floor ∨ ∃ slot ∈ slots, visit slot none = .ok (some floor)) after := by
  -- the induction is on the slots to come; what was told of so far carries it
  induction slots generalizing told best with
  | nil =>
    cases done
    exact found.congr fun floor => by simp
  | cons slot rest ih =>
    obtain ⟨between, first, done⟩ := bind_eq_ok.mp done
    rw [keeps slot (.head _) best, map_eq_ok] at first
    obtain ⟨own, alone, rfl⟩ := first
    have above : ∀ floor ∈ own, .negativeInfinity < height floor := by
      rintro floor ⟨⟩
      have kept := keeps slot (.head _) none
      rw [alone] at kept
      exact above_of_higher_none (Except.ok.inj kept).symm
    have all := ih (fun other listed => keeps other (.tail _ listed)) (found.higher above) done
    refine all.congr fun floor => ?_
    simp only [List.mem_cons, exists_eq_or_imp, alone, Except.ok.injEq, or_assoc, Option.mem_def]

/-! ### Walks through hierarchies -/

/-- A walk at a point answers if all objects do alone, and finds the highest of their floors, if those
with boxes that do not contain the point have none. -/
theorem isHighest_walkPoint {boxes : List Box} {leafSize : Nat} {h : Hierarchy} {p : Vec}
    (proper : ∀ box ∈ boxes, box.Proper) (built : build boxes leafSize = .ok h)
    (keeps : ∀ object < boxes.length, KeepsHigher height visit object)
    (silent : ∀ object box, boxes[object]? = some box → ¬box.Contains p →
      visit object none = .ok none) :
    ((∃ after, h.walkPoint p visit none = .ok after) ↔
        ∀ object < boxes.length, ∃ own, visit object none = .ok own) ∧
      ∀ after, h.walkPoint p visit none = .ok after → IsHighest height
        (fun floor => ∃ object < boxes.length, visit object none = .ok (some floor)) after := by
  obtain ⟨visited, inside, complete, walks⟩ := build_visits proper built p
  have unvisited {object : Nat} (known : object < boxes.length) (left : object ∉ visited) :
      visit object none = .ok none := by
    have box : boxes[object]? = some boxes[object] := List.getElem?_eq_getElem known
    exact silent object _ box fun contains => left (complete object _ box contains)
  have keepsVisited : ∀ object ∈ visited, KeepsHigher height visit object :=
    fun object listed => keeps object (inside object listed)
  rw [walks]
  constructor
  · rw [exists_visitEach keepsVisited none]
    constructor
    · intro all object known
      by_cases listed : object ∈ visited
      · exact all object listed
      · exact ⟨none, unvisited known listed⟩
    · intro all object listed
      exact all object (inside object listed)
  · intro after done
    refine (isHighest_visitEach keepsVisited isHighest_none done).congr fun floor => ?_
    rw [false_or]
    constructor
    · rintro ⟨object, listed, tells⟩
      exact ⟨object, inside object listed, tells⟩
    · rintro ⟨object, known, tells⟩
      refine ⟨object, by_contra fun left => ?_, tells⟩
      rw [unvisited known left] at tells
      cases tells

end Sightline
