import Mathlib.Data.List.Basic
import Sightline.Proofs.Entries
import Sightline.Proofs.Outcome
import Sightline.World.Assembly

/-!
# Settled placements and their slots

Settling gives each placement of a map its box and keeps all of its other data. The slots of a map number
its placements in the order of their ids, and so do the boxes for its tree. Maps are settled and written
one after the other.
-/
namespace Sightline

/-! ### Settling -/

namespace Placement

/-- A mark that is there can be set again. -/
theorem or_eq_self {flags mark : UInt32} (has : flags &&& mark = mark) : flags ||| mark = flags := by
  have bits := congrArg UInt32.toBitVec has
  apply UInt32.eq_of_toBitVec_eq
  rw [UInt32.toBitVec_and] at bits
  rw [UInt32.toBitVec_or, ← bits]
  ext i inside
  simp
  grind

theorem or_and_self (flags mark : UInt32) : (flags ||| mark) &&& mark = mark := by
  apply UInt32.eq_of_toBitVec_eq
  ext i inside
  simp
  grind

/-- Setting one mark does not change another one. -/
theorem or_and_of_disjoint {flags mark other : UInt32} (disjoint : mark &&& other = 0) :
    (flags ||| mark) &&& other = flags &&& other := by
  have bits := congrArg UInt32.toBitVec disjoint
  apply UInt32.eq_of_toBitVec_eq
  rw [UInt32.toBitVec_and] at bits
  rw [UInt32.toBitVec_and, UInt32.toBitVec_and, UInt32.toBitVec_or, BitVec.and_comm,
    BitVec.and_or_distrib_left, BitVec.and_comm _ mark.toBitVec, bits, BitVec.and_comm]
  exact BitVec.or_zero

end Placement

namespace Assembly

variable {models : Std.TreeMap String RawModel} {p q : Placement}

theorem settle_eq (settled : settle models p = .ok q) :
    q = { p with bounds := q.bounds, flags := p.flags ||| Placement.bounded } := by
  rw [settle] at settled
  split at settled
  next unsettled =>
    -- the box comes from the model, if there is one
    split at settled
    · cases settled
    next raw found =>
      rw [boundByModel] at settled
      split at settled
      · cases settled
      · cases settled
        rfl
  next given =>
    -- the box was given, and is at most moved
    have has : p.Has Placement.bounded := not_not.mp fun missing => given (.inr missing)
    rw [Placement.or_eq_self has]
    split at settled
    · cases settled
      rfl
    · cases settled
      rfl

theorem settle_has (settled : settle models p = .ok q) : q.Has Placement.bounded := by
  rw [settle_eq settled]
  exact Placement.or_and_self p.flags Placement.bounded

theorem settle_has_mapWide (settled : settle models p = .ok q) :
    q.Has Placement.mapWide ↔ p.Has Placement.mapWide := by
  have disjoint : Placement.bounded &&& Placement.mapWide = 0 := by decide
  rw [settle_eq settled, Placement.Has, Placement.or_and_of_disjoint disjoint]
  rfl

theorem settle_id (settled : settle models p = .ok q) : q.id = p.id := by rw [settle_eq settled]

theorem settle_model (settled : settle models p = .ok q) : q.model = p.model := by
  rw [settle_eq settled]

theorem settle_scale (settled : settle models p = .ok q) : q.scale = p.scale := by
  rw [settle_eq settled]

/-- Settling goes on after placements that can be settled. -/
theorem exists_settleAll_append {earlier rest : List Placement} (before : Std.TreeMap UInt32 Placement)
    (settled : ∀ e ∈ earlier, ∃ q, settle models e = .ok q) :
    ∃ between, settleAll models (earlier ++ rest) before = settleAll models rest between := by
  induction earlier generalizing before with
  | nil => exact ⟨before, rfl⟩
  | cons e earlier ih =>
    obtain ⟨q, made⟩ := settled e (.head _)
    rw [List.cons_append, settleAll, made]
    exact ih _ fun e listed => settled e (.tail _ listed)

/-- Other placements stay as they are, also if one of the list cannot be settled. -/
theorem settleAll_getElem?_of_not_mem {ps : List Placement} {id : UInt32}
    (before : Std.TreeMap UInt32 Placement) (missing : id ∉ ps.map Placement.id) :
    (settleAll models ps before).2[id]? = before[id]? := by
  induction ps generalizing before with
  | nil => rfl
  | cons p rest ih =>
    rw [List.map_cons, List.mem_cons, not_or] at missing
    rw [settleAll]
    split
    · rfl
    · rw [ih _ missing.2, getElem?_insert, if_neg fun same => missing.1 same.symm]

/-- Settling the placements of a list that has each number once. -/
theorem settleAll_ok {ps : List Placement} {before after : Std.TreeMap UInt32 Placement}
    (distinct : (ps.map Placement.id).Nodup)
    (settled : settleAll models ps before = (Except.ok (), after)) :
    (∀ p ∈ ps, ∃ q, settle models p = .ok q ∧ after[p.id]? = some q) ∧
      ∀ id : UInt32, id ∉ ps.map Placement.id → after[id]? = before[id]? := by
  refine ⟨?_, fun id missing => by rw [← settleAll_getElem?_of_not_mem before missing, settled]⟩
  induction ps generalizing before with
  | nil => nofun
  | cons p rest ih =>
    rw [List.map_cons, List.nodup_cons] at distinct
    obtain ⟨new, distinct⟩ := distinct
    rw [settleAll] at settled
    split at settled
    · cases settled
    next q found =>
      intro other listed
      cases listed with
      | head =>
        refine ⟨q, found, ?_⟩
        -- no other placement has this number, so it keeps its entry
        have kept : after[p.id]? = (before.insert p.id q)[p.id]? := by
          rw [← settleAll_getElem?_of_not_mem (before.insert p.id q) new, settled]
        exact kept.trans Std.TreeMap.getElem?_insert_self
      | tail _ listed => exact ih distinct settled other listed

end Assembly

namespace MapPlan

variable {models : Std.TreeMap String RawModel} {m settled : MapPlan} {p : Placement} {id : UInt32}

/-- Placements stand under their own numbers. -/
def Keyed (m : MapPlan) : Prop := ∀ (id : UInt32) (p : Placement), m.placements[id]? = some p → p.id = id

theorem Keyed.map_id (keyed : m.Keyed) : m.placements.values.map Placement.id = m.placements.keys := by
  rw [values_eq_map, ← Std.TreeMap.map_fst_toList_eq_keys, List.map_map]
  refine List.map_congr_left ?_
  rintro ⟨id, p⟩ listed
  exact keyed id p (Std.TreeMap.mem_toList_iff_getElem?_eq_some.mp listed)

/-- The same map with all of its placements settled. -/
structure Settles (models : Std.TreeMap String RawModel) (m settled : MapPlan) : Prop where
  tiles : settled.tiles = m.tiles
  found : ∀ (id : UInt32) (p : Placement), m.placements[id]? = some p →
    ∃ q, Assembly.settle models p = .ok q ∧ settled.placements[id]? = some q
  missing : ∀ id : UInt32, m.placements[id]? = none → settled.placements[id]? = none

/-- Every settled placement was settled from one of the map. -/
theorem Settles.origin {q : Placement} (settles : Settles models m settled)
    (stands : settled.placements[id]? = some q) :
    ∃ p, m.placements[id]? = some p ∧ Assembly.settle models p = .ok q := by
  cases before : m.placements[id]? with
  | none =>
    rw [settles.missing id before] at stands
    cases stands
  | some p =>
    obtain ⟨q', found, after⟩ := settles.found id p before
    rw [stands] at after
    cases after
    exact ⟨p, rfl, found⟩

theorem Settles.isSome (settles : Settles models m settled) (id : UInt32) :
    (settled.placements[id]?).isSome = (m.placements[id]?).isSome := by
  cases before : m.placements[id]? with
  | none => rw [settles.missing id before]
  | some p =>
    obtain ⟨q, -, after⟩ := settles.found id p before
    rw [after]
    rfl

theorem Settles.keyed (settles : Settles models m settled) (keyed : m.Keyed) : settled.Keyed := by
  intro id q stands
  obtain ⟨p, before, made⟩ := settles.origin stands
  rw [Assembly.settle_id made]
  exact keyed id p before

/-- All settled placements have boxes. -/
theorem Settles.boxed (settles : Settles models m settled) (stands : settled.placements[id]? = some p) :
    p.Has Placement.bounded := by
  obtain ⟨q, before, made⟩ := settles.origin stands
  exact Assembly.settle_has made

/-- Where the settling of all placements leads to. -/
def settledBy (models : Std.TreeMap String RawModel) (m : MapPlan) : MapPlan :=
  { m with placements := (Assembly.settleAll models m.placements.values m.placements).2 }

theorem settles_of_settleAll (keyed : m.Keyed) {placements : Std.TreeMap UInt32 Placement}
    (settled : Assembly.settleAll models m.placements.values m.placements = (Except.ok (), placements)) :
    Settles models m { m with placements } := by
  have distinct : (m.placements.values.map Placement.id).Nodup := by
    rw [keyed.map_id]
    exact Std.TreeMap.nodup_keys
  obtain ⟨each, others⟩ := Assembly.settleAll_ok distinct settled
  constructor
  case tiles => rfl
  case found =>
    intro id p stands
    obtain ⟨q, settles, found⟩ := each p ((mem_values _).mpr ⟨id, stands⟩)
    rw [keyed id p stands] at found
    exact ⟨q, settles, found⟩
  case missing =>
    intro id missing
    refine (others id ?_).trans missing
    rw [keyed.map_id, mem_keys_iff, missing]
    nofun

/-! ### Slots -/

theorem slotOf_eq {slot : Nat} (known : (m.placements[id]?).isSome = true) :
    m.slotOf id = slot ↔ m.placements.keys[slot]? = some id := by
  have listed : id ∈ m.placements.keys := (mem_keys_iff _).mpr known
  constructor
  · rintro rfl
    exact List.getElem?_idxOf listed
  · intro stands
    obtain ⟨inside, rfl⟩ := List.getElem?_eq_some_iff.mp stands
    exact Std.TreeMap.nodup_keys.idxOf_getElem slot inside

/-- The boxes for the tree of the map stand in the order of the slots. -/
theorem bounds_eq {slot : Nat} (stands : m.placements.keys[slot]? = some id)
    (found : m.placements[id]? = some p) :
    (m.placements.values.map Placement.bounds)[slot]? = some p.bounds := by
  rw [List.getElem?_map, getElem?_values, stands, Option.bind_some, found]
  rfl

end MapPlan

/-! ### Maps after each other -/

namespace Assembly

variable {a a' : Assembly} {d d' : Directory} {map : UInt32} {m : MapPlan}

/-- Writing goes on after a map that can be settled and written. -/
theorem writeMaps_cons (settled : (settleAll a.models m.placements.values m.placements).1 = .ok ())
    (first : writeMap map (m.settledBy a.models) d = .ok (.ok (), d'))
    (rest : List (UInt32 × MapPlan)) : a.writeMaps d ((map, m) :: rest) =
      writeMaps { a with maps := a.maps.insert map (m.settledBy a.models) } d' rest := by
  rw [writeMaps]
  dsimp only
  rw [settled]
  dsimp only
  rw [← MapPlan.settledBy, first]
  rfl

theorem exists_writeMap_of_cons {rest : List (UInt32 × MapPlan)}
    (written : a.writeMaps d ((map, m) :: rest) = .ok (.ok (), a', d')) :
    (settleAll a.models m.placements.values m.placements).1 = .ok () ∧
      ∃ between, writeMap map (m.settledBy a.models) d = .ok (.ok (), between) ∧
        writeMaps { a with maps := a.maps.insert map (m.settledBy a.models) } between rest =
          .ok (.ok (), a', d') := by
  rw [writeMaps] at written
  dsimp only at written
  split at written
  · cases written
  next settled =>
    obtain ⟨⟨outcome, between⟩, first, following⟩ := bind_eq_ok.mp written
    cases outcome with
    | error fault => cases following
    | ok => exact ⟨settled, between, first, following⟩

end Assembly

end Sightline
