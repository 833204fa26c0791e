import Mathlib
import Sightline.Proofs.World.Tiles

/-!
# Clearing a map

Where all records of a slot name one model, the uses of a slot are uses of that model. Then a map can
give back everything it took from the library without its files: each slot gives back the model in it,
once for each use.
-/
namespace Sightline

/-- Counts a list by classes: each item is in the class of its key. -/
theorem countP_eq_sum {α κ : Type} [DecidableEq κ] (key : α → κ) {keys : List κ}
    (nodup : keys.Nodup) {items : List α} (covered : ∀ item ∈ items, key item ∈ keys)
    (marked : α → Prop) [DecidablePred marked] :
    items.countP (fun item => marked item) =
      (keys.map fun k => items.countP fun item => key item = k ∧ marked item).sum := by
  induction items with
  | nil => simp
  | cons item rest ih =>
    have own : (keys.map fun k => if key item = k ∧ marked item then 1 else 0).sum =
        if marked item then 1 else 0 := by
      rw [List.sum_map_eq_nsmul_single (key item), nodup.count, if_pos (covered item (.head _))]
      · simp
      · intro k differs listed
        simp [differs.symm]
    rw [List.countP_cons, ih fun other listed => covered other (.tail _ listed)]
    simp only [List.countP_cons, decide_eq_true_eq, List.sum_map_add, own]

namespace MapTree

variable {d : Directory} {t : MapTree} {library : Library} {tile : Tile}
  {records : Tile → List Record} {loaded : List Tile} {left held : List Record}
  {others : List String} {modelOf : Nat → String} {state : MapTree × Library}

/-- Every record names the model of its slot. -/
def Named (modelOf : Nat → String) (held : List Record) : Prop :=
  ∀ record ∈ held, record.model = modelOf record.slot

/-- The uses of a slot are the users of its model: for a list of slots with all that are held. -/
theorem count_models (named : Named modelOf held) {slots : List Nat} (nodup : slots.Nodup)
    (covered : ∀ record ∈ held, record.slot ∈ slots) (name : String) :
    (held.map Record.model).count name = (slots.map fun slot =>
      if modelOf slot = name then held.countP (fun record => record.slot = slot) else 0).sum := by
  rw [List.count_eq_countP, List.countP_map]
  have classes := countP_eq_sum Record.slot nodup covered fun record => record.model = name
  refine Eq.trans ?_ (classes.trans (congrArg List.sum (List.map_congr_left fun slot _ => ?_)))
  · simp [Function.comp_def, beq_eq_decide]
  · split
    next same =>
      apply List.countP_congr
      intro record listed
      have model := named record listed
      simp only [decide_eq_true_eq, and_iff_left_iff_imp]
      rintro rfl
      rw [model, same]
    next differs =>
      rw [List.countP_eq_zero]
      intro record listed
      have model := named record listed
      simp only [decide_eq_true_eq, not_and]
      rintro rfl
      rwa [model]

/-- A slot that is cleared gives back its model, once for each use. -/
theorem serves_foldl_clearSlot {uses : List (Nat × Nat)} {slots : Array (Option Occupant)}
    (distinct : (uses.map Prod.fst).Nodup)
    (filled : ∀ use ∈ uses, ∃ occupant, slots[use.1]?.join = some occupant ∧
      occupant.placement.model = modelOf use.1)
    (serves : library.Serves d
      (uses.flatMap (fun use => List.replicate use.2 (modelOf use.1)) ++ others)) :
    (uses.foldl clearSlot (slots, library)).2.Serves d others := by
  -- the library serves the slots that are left and the others, however many are cleared
  induction uses generalizing slots library with
  | nil => exact serves
  | cons use rest ih =>
    obtain ⟨occupant, found, model⟩ := filled use (.head _)
    have cleared : clearSlot (slots, library) use =
        (slots.setIfInBounds use.1 none, library.releaseTimes (modelOf use.1) use.2) := by
      simp only [clearSlot, found, model]
    rw [List.map_cons, List.nodup_cons] at distinct
    rw [List.flatMap_cons, List.append_assoc] at serves
    rw [List.foldl_cons, cleared]
    apply ih distinct.2
    · intro other listed
      have differs : use.1 ≠ other.1 := by
        intro same
        exact distinct.1 (List.mem_map.mpr ⟨other, listed, same.symm⟩)
      rw [Array.getElem?_setIfInBounds_ne differs]
      exact filled other (.tail _ listed)
    · exact serves.releaseTimes

/-- A map whose slots are used for one model each gives back all it holds. -/
theorem Account.unloadAll (account : Account d held others (t, library))
    (named : Named modelOf held) (occupied : Occupied (fun slot p => p.model = modelOf slot) t) :
    (t.unloadAll library).2.Serves d others := by
  rw [MapTree.unloadAll]
  have holds := account.holds
  have found : ∀ use ∈ t.uses.toList, t.uses[use.1]? = some use.2 := by
    intro use listed
    exact Std.TreeMap.mem_toList_iff_getElem?_eq_some.mp listed
  have count : ∀ use ∈ t.uses.toList,
      use.2 = held.countP fun record => record.slot = use.1 := by
    intro use listed
    rw [← holds.uses use.1, useCount, found use listed]
    rfl
  have distinct := nodup_fst_toList t.uses
  apply serves_foldl_clearSlot distinct
  · intro use listed
    have used : 0 < t.useCount use.1 := by
      rw [useCount, found use listed, Option.getD_some]
      apply Nat.pos_of_ne_zero
      intro none
      exact holds.used use.1 (none ▸ found use listed)
    obtain ⟨occupant, present⟩ := Option.isSome_iff_exists.mp ((holds.filled use.1).mpr used)
    exact ⟨occupant, present, occupied use.1 occupant present⟩
  · -- name by name, the models of the slots are those of the records
    apply account.serves.perm
    apply List.Perm.append_right
    rw [List.perm_iff_count]
    intro name
    rw [count_models named distinct]
    · rw [List.map_map, List.count_flatMap]
      congr 1
      apply List.map_congr_left
      intro use listed
      simp [count use listed, List.count_replicate]
    · intro record listed
      have used : 0 < t.useCount record.slot := by
        rw [holds.uses record.slot, List.countP_pos_iff]
        exact ⟨record, listed, by simp⟩
      cases noted : t.uses[record.slot]? with
      | none => simp [useCount, noted] at used
      | some count =>
        exact List.mem_map.mpr
          ⟨(record.slot, count), Std.TreeMap.mem_toList_iff_getElem?_eq_some.mpr noted, rfl⟩

/-- The uses of the slots that a model is in. -/
def usesOf (t : MapTree) (name : String) : Nat :=
  ((List.range t.slots.size).map fun slot =>
    if (t.occupant? slot).any fun occupant => occupant.placement.model = name then t.useCount slot
    else 0).sum

/-- The uses of a map's slots that hold a model are the records of that model. -/
theorem Holds.usesOf (holds : Holds held t) (named : Named modelOf held)
    (occupied : Occupied (fun slot p => p.model = modelOf slot) t) (name : String) :
    t.usesOf name = (held.map Record.model).count name := by
  have covered : ∀ record ∈ held, record.slot ∈ List.range t.slots.size := by
    intro record listed
    exact List.mem_range.mpr (holds.inRange record listed)
  rw [count_models named List.nodup_range covered]
  apply congrArg List.sum
  apply List.map_congr_left
  intro slot _
  have filled := holds.filled slot
  rw [← holds.uses slot]
  cases found : t.occupant? slot with
  | none =>
    rw [found] at filled
    have unused : t.useCount slot = 0 := by simpa using filled
    simp [unused]
  | some occupant => simp [occupied slot occupant found]

end MapTree

end Sightline
