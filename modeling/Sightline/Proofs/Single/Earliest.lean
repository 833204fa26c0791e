import Sightline.Proofs.Single.Scaling

/-!
# The earliest of some times

A reach is shortened to the times before it, one after the other. What is left is the least of the reach
and all times, and where the times are positive there is only one such word.
-/
namespace Sightline.Single

/-- Shortens a reach to a time before it. -/
def sooner (reach time : Single) : Single := if time < reach then time else reach

/-- The least of a reach and some times, found by looking at each time in turn. -/
def earliest (times : List Single) (reach : Single) : Single := times.foldl sooner reach

structure IsEarliest (times : List Single) (reach least : Single) : Prop where
  origin : least = reach ∨ least ∈ times
  le_reach : least ≤ reach
  le_time : ∀ time ∈ times, least ≤ time

variable {times : List Single} {reach time least other : Single}

theorem sooner_le (numberReach : reach.isNaN = false) : sooner reach time ≤ reach := by
  unfold sooner
  split
  next before => exact le_of_lt before
  next => exact le_self numberReach

theorem sooner_le_time (numberReach : reach.isNaN = false) (numberTime : time.isNaN = false) :
    sooner reach time ≤ time :=
  (lower_le numberReach numberTime).2

theorem sooner_eq_or (reach time : Single) : sooner reach time = reach ∨ sooner reach time = time := by
  unfold sooner
  split
  next => exact .inr rfl
  next => exact .inl rfl

theorem earliest_le (number : reach.isNaN = false) : earliest times reach ≤ reach := by
  induction times generalizing reach with
  | nil => exact le_self number
  | cons first rest ih =>
    have step : sooner reach first ≤ reach := sooner_le number
    exact le_trans (ih step.1) step

theorem earliest_le_of_mem (number : reach.isNaN = false) (numberTime : time.isNaN = false)
    (member : time ∈ times) : earliest times reach ≤ time := by
  induction times generalizing reach with
  | nil => cases member
  | cons first rest ih =>
    -- what one step leaves is a number again, so the rest of the times can only lower it
    have step : sooner reach first ≤ reach := sooner_le number
    rcases List.mem_cons.mp member with rfl | later
    · have below : earliest rest (sooner reach time) ≤ sooner reach time := earliest_le step.1
      exact le_trans below (sooner_le_time number numberTime)
    · exact ih step.1 later

theorem earliest_eq_or_mem (times : List Single) (reach : Single) :
    earliest times reach = reach ∨ earliest times reach ∈ times := by
  induction times generalizing reach with
  | nil => exact .inl rfl
  | cons first rest ih =>
    rcases ih (sooner reach first) with stays | later
    · rcases sooner_eq_or reach first with same | same
      · exact .inl (stays.trans same)
      · exact .inr (List.mem_cons.mpr (.inl (stays.trans same)))
    · exact .inr (List.mem_cons_of_mem _ later)

theorem isEarliest_nil (number : reach.isNaN = false) : IsEarliest [] reach reach where
  origin := .inl rfl
  le_reach := le_self number
  le_time _ member := absurd member List.not_mem_nil

/-- Of words between which neither is less only the zeros differ, and no time is zero. -/
theorem IsEarliest.unique (positive : ∀ time ∈ times, 0 < time)
    (first : IsEarliest times reach least) (second : IsEarliest times reach other) :
    least = other := by
  have below : least ≤ other := by
    rcases second.origin with rfl | member
    · exact first.le_reach
    · exact first.le_time other member
  have above : other ≤ least := by
    rcases first.origin with rfl | member
    · exact second.le_reach
    · exact second.le_time least member
  have ranks : least.rank = other.rank := Int.le_antisymm below.2.2 above.2.2
  have zero : (0 : Single).rank = 0 := by decide +kernel
  rcases first.origin with rfl | member
  · rcases second.origin with rfl | member
    · rfl
    · have above := (positive other member).2.2
      exact eq_of_rank (by omega) ranks
  · have above := (positive least member).2.2
    exact eq_of_rank (by omega) ranks

/-- The reach is shortened exactly if something is earlier. -/
theorem IsEarliest.lt_iff (earliest : IsEarliest times reach least) (number : reach.isNaN = false) :
    least < reach ↔ ∃ time ∈ times, time < reach := by
  constructor
  · intro shortened
    rcases earliest.origin with rfl | member
    · exact absurd shortened (not_lt_of_le (le_self number))
    · exact ⟨least, member, shortened⟩
  · rintro ⟨time, member, before⟩
    exact lt_of_le_of_lt (earliest.le_time time member) before

/-- The earliest of some times, if there are any. -/
def earliest? (times : List Single) : Option Single :=
  if times.isEmpty then none else some (earliest times infinity)

section

variable (finite : ∀ time ∈ times, time < infinity)

include finite

theorem mem_of_earliest? (found : earliest? times = some time) : time ∈ times := by
  unfold earliest? at found
  split at found
  next => cases found
  next filled =>
    cases found
    refine (earliest_eq_or_mem times infinity).resolve_left fun same => ?_
    -- any of the times is before infinity
    cases times with
    | nil => exact filled rfl
    | cons first rest =>
      have before := finite first List.mem_cons_self
      have below := earliest_le_of_mem isNaN_infinity before.1 (List.mem_cons_self (l := rest))
      rw [same] at below
      exact not_lt_of_le below before

theorem earliest?_le (member : time ∈ times) : ∃ least, earliest? times = some least ∧ least ≤ time := by
  have filled : ¬times.isEmpty = true := by
    rw [List.isEmpty_iff]
    exact List.ne_nil_of_mem member
  exact ⟨_, if_neg filled, earliest_le_of_mem isNaN_infinity (finite time member).1 member⟩

/-- The reach and all times have the same least as the reach and the earliest of the times. -/
theorem isEarliest_earliest? (number : reach.isNaN = false) :
    IsEarliest times reach
      (((earliest? times).filter fun time => decide (time < reach)).getD reach) := by
  cases first : earliest? times with
  | none =>
    refine ⟨.inl rfl, le_self number, fun time member => ?_⟩
    obtain ⟨least, found, -⟩ := earliest?_le finite member
    rw [first] at found
    cases found
  | some least =>
    have member := mem_of_earliest? finite first
    have least_le (time : Single) (other : time ∈ times) : least ≤ time := by
      obtain ⟨same, found, below⟩ := earliest?_le finite other
      rw [first] at found
      cases found
      exact below
    by_cases nearer : least < reach
    · simp only [Option.filter, nearer, decide_true, if_true, Option.getD_some]
      exact ⟨.inr member, le_of_lt nearer, least_le⟩
    · simp only [Option.filter, nearer, decide_false, Bool.false_eq_true, if_false, Option.getD_none]
      have before := le_of_not_lt (finite least member).1 number nearer
      exact ⟨.inl rfl, le_self number, fun time other => le_trans before (least_le time other)⟩

end

end Sightline.Single
