import Sightline.Proofs.Outcome
import Sightline.Proofs.World.Uses

/-!
# Records held by a map

Every use of a slot is a use of a model. A map with its library holds a list of records: a slot is used
by the records that name it and filled while there are any, and the library serves the models of all
records. The library may serve others besides. Loading a tile adds its records to those that are held,
and unloading the tile takes them off again.
-/
namespace Sightline

def Record.model (record : Record) : String := record.placement.model

namespace MapTree

variable {d : Directory} {state : MapTree × Library} {record : Record} {records held : List Record}
  {others : List String} {t u : MapTree} {tile : Tile}

/-! ### What loading leaves as it is -/

/-- The same map, whatever is in its slots and whichever tiles are loaded. -/
structure Alike (t u : MapTree) : Prop where
  map : u.map = t.map
  isTiled : u.isTiled = t.isTiled
  isReady : u.isReady = t.isReady
  tree : u.tree = t.tree
  size : u.slots.size = t.slots.size

theorem Alike.refl (t : MapTree) : Alike t t := ⟨rfl, rfl, rfl, rfl, rfl⟩

theorem Alike.symm (alike : Alike t u) : Alike u t :=
  ⟨alike.map.symm, alike.isTiled.symm, alike.isReady.symm, alike.tree.symm, alike.size.symm⟩

theorem Alike.trans {v : MapTree} (first : Alike t u) (second : Alike u v) : Alike t v :=
  ⟨second.map.trans first.map, second.isTiled.trans first.isTiled,
    second.isReady.trans first.isReady, second.tree.trans first.tree,
    second.size.trans first.size⟩

theorem Alike.tileRecords (alike : Alike t u) (d : Directory) (tile : Tile) :
    u.tileRecords d tile = t.tileRecords d tile := by
  simp only [MapTree.tileRecords]
  rw [alike.map, alike.size]

theorem alike_attach (d : Directory) (state : MapTree × Library) (record : Record) :
    Alike state.1 (attach d state record).1 := by
  refine ⟨rfl, rfl, rfl, rfl, ?_⟩
  simp only [attach]
  split <;> simp

theorem alike_detach (state : MapTree × Library) (record : Record) :
    Alike state.1 (detach state record).1 := by
  simp only [detach]
  split
  · refine ⟨rfl, rfl, rfl, rfl, ?_⟩
    dsimp only
    split <;> simp
  · exact ⟨rfl, rfl, rfl, rfl, rfl⟩

theorem tiles_attach (d : Directory) (state : MapTree × Library) (record : Record) :
    (attach d state record).1.tiles = state.1.tiles := rfl

theorem tiles_detach (state : MapTree × Library) (record : Record) :
    (detach state record).1.tiles = state.1.tiles := by
  simp only [detach]
  split <;> rfl

theorem library_detach (state : MapTree × Library) (record : Record) :
    (detach state record).2 = state.2.release record.model := by
  simp only [detach]
  split <;> rfl

theorem alike_foldl_attach (d : Directory) (records : List Record) (state : MapTree × Library) :
    Alike state.1 (records.foldl (attach d) state).1 ∧
      (records.foldl (attach d) state).1.tiles = state.1.tiles := by
  induction records generalizing state with
  | nil => exact ⟨Alike.refl _, rfl⟩
  | cons record rest ih =>
    obtain ⟨alike, tiles⟩ := ih (attach d state record)
    exact ⟨(alike_attach d state record).trans alike, tiles.trans (tiles_attach d state record)⟩

theorem alike_foldl_detach (records : List Record) (state : MapTree × Library) :
    Alike state.1 (records.foldl detach state).1 ∧
      (records.foldl detach state).1.tiles = state.1.tiles := by
  induction records generalizing state with
  | nil => exact ⟨Alike.refl _, rfl⟩
  | cons record rest ih =>
    obtain ⟨alike, tiles⟩ := ih (detach state record)
    exact ⟨(alike_detach state record).trans alike, tiles.trans (tiles_detach state record)⟩

/-! ### One record -/

theorem useCount_attach (d : Directory) (state : MapTree × Library) (record : Record) (slot : Nat) :
    (attach d state record).1.useCount slot =
      state.1.useCount slot + if record.slot = slot then 1 else 0 := by
  simp only [attach, useCount]
  rw [getElem?_insert]
  by_cases same : record.slot = slot
  · subst same
    simp
  · simp [same]

theorem useCount_detach (state : MapTree × Library) (record : Record) (slot : Nat) :
    (detach state record).1.useCount slot =
      state.1.useCount slot - if record.slot = slot then 1 else 0 := by
  simp only [detach]
  by_cases same : record.slot = slot
  · subst same
    split
    · simp only [useCount, getElem?_erase] at *
      simp
      omega
    · simp only [useCount, getElem?_insert] at *
      simp
  · split <;> simp [useCount, getElem?_erase, getElem?_insert, same]

theorem occupant?_attach (d : Directory) (fits : record.slot < state.1.slots.size) (slot : Nat) :
    (attach d state record).1.occupant? slot =
      if record.slot = slot ∧ state.1.useCount slot = 0 then
        some ⟨record.placement, (state.2.acquire d record.model).1.toOption⟩
      else state.1.occupant? slot := by
  simp only [attach, occupant?]
  by_cases same : record.slot = slot
  · subst same
    split
    next unused => simp [unused, fits, Record.model]
    next used => simp [used]
  · split <;> simp [same, Array.getElem?_setIfInBounds_ne]

theorem occupant?_detach (state : MapTree × Library) (record : Record) (slot : Nat) :
    (detach state record).1.occupant? slot =
      if record.slot = slot ∧ state.1.useCount slot = 1 then none
      else state.1.occupant? slot := by
  simp only [detach, occupant?]
  by_cases same : record.slot = slot
  · subst same
    split
    · split
      next unused => simp [unused]
      next last =>
        have one : state.1.useCount record.slot = 1 := by omega
        simp only [one, and_self, if_true, Array.getElem?_setIfInBounds]
        split <;> rfl
    next more =>
      have : state.1.useCount record.slot ≠ 1 := by omega
      simp [this]
  · split
    · split <;> simp [same, Array.getElem?_setIfInBounds_ne]
    · simp [same]

/-! ### What fills the slots -/

/-- What is in a slot after records were taken off was there before. -/
theorem occupant_of_foldl_detach (records : List Record) {slot : Nat} {occupant : Occupant}
    (found : (records.foldl detach state).1.occupant? slot = some occupant) :
    state.1.occupant? slot = some occupant := by
  induction records generalizing state with
  | nil => exact found
  | cons record rest ih =>
    have before := ih found
    rw [occupant?_detach] at before
    split at before
    · cases before
    · exact before

/-- Every placement in a slot is one that belongs there. -/
def Occupied (belongs : Nat → Placement → Prop) (t : MapTree) : Prop :=
  ∀ slot occupant, t.occupant? slot = some occupant → belongs slot occupant.placement

namespace Occupied

variable {belongs : Nat → Placement → Prop}

theorem foldl_attach (occupied : Occupied belongs state.1)
    (fit : ∀ record ∈ records, record.slot < state.1.slots.size)
    (belong : ∀ record ∈ records, belongs record.slot record.placement) :
    Occupied belongs (records.foldl (attach d) state).1 := by
  induction records generalizing state with
  | nil => exact occupied
  | cons record rest ih =>
    apply ih
    · intro slot occupant found
      rw [occupant?_attach d (fit record (.head _))] at found
      split at found
      next first =>
        cases found
        rw [← first.1]
        exact belong record (.head _)
      next => exact occupied slot occupant found
    · intro other listed
      rw [(alike_attach d state record).size]
      exact fit other (.tail _ listed)
    · intro other listed
      exact belong other (.tail _ listed)

end Occupied

/-! ### The records that are held -/

/-- A slot is used by the records that name it, and filled while there are any. -/
structure Holds (held : List Record) (t : MapTree) : Prop where
  uses : ∀ slot : Nat, t.useCount slot = held.countP fun record => record.slot = slot
  used : ∀ slot : Nat, t.uses[slot]? ≠ some 0
  filled : ∀ slot : Nat, (t.occupant? slot).isSome = true ↔ 0 < t.useCount slot
  inRange : ∀ record ∈ held, record.slot < t.slots.size

namespace Holds

theorem perm {more : List Record} (holds : Holds held t) (same : held.Perm more) :
    Holds more t where
  uses slot := by rw [holds.uses slot, same.countP_eq]
  used := holds.used
  filled := holds.filled
  inRange := by
    intro record listed
    exact holds.inRange record (same.mem_iff.mpr listed)

theorem congr (holds : Holds held t) (slots : u.slots = t.slots) (uses : u.uses = t.uses) :
    Holds held u where
  uses slot := by rw [useCount, uses]; exact holds.uses slot
  used slot := by rw [uses]; exact holds.used slot
  filled slot := by rw [occupant?, useCount, slots, uses]; exact holds.filled slot
  inRange := by rw [slots]; exact holds.inRange

theorem attach (holds : Holds held state.1) (fits : record.slot < state.1.slots.size) :
    Holds (record :: held) (attach d state record).1 where
  uses slot := by
    rw [useCount_attach, holds.uses slot, List.countP_cons]
    simp
  used slot := by
    simp only [MapTree.attach, getElem?_insert]
    split
    · simp
    · exact holds.used slot
  filled slot := by
    have before := holds.filled slot
    rw [useCount_attach, occupant?_attach d fits]
    by_cases same : record.slot = slot
    · by_cases unused : state.1.useCount slot = 0
      · simp [same, unused]
      · have used := before.mpr (Nat.pos_of_ne_zero unused)
        simp [unused, used]
        omega
    · simp [same, before]
  inRange := by
    rw [(alike_attach d state record).size]
    intro other listed
    cases listed with
    | head => exact fits
    | tail _ listed => exact holds.inRange other listed

theorem detach (holds : Holds (record :: held) state.1) : Holds held (detach state record).1 where
  uses slot := by
    rw [useCount_detach, holds.uses slot, List.countP_cons]
    by_cases same : record.slot = slot <;> simp [same]
  used slot := by
    simp only [MapTree.detach]
    split
    · simp only [getElem?_erase]
      split
      · nofun
      · exact holds.used slot
    next more =>
      simp only [getElem?_insert]
      split
      · simp
        omega
      · exact holds.used slot
  filled slot := by
    have before := holds.filled slot
    rw [useCount_detach, occupant?_detach]
    by_cases same : record.slot = slot
    · -- the record itself is a use, so the count does not end below zero
      have used : 0 < state.1.useCount slot := by
        rw [holds.uses slot, List.countP_cons]
        simp [same]
      by_cases last : state.1.useCount slot = 1
      · simp [same, last]
      · have filled := before.mpr used
        simp [same, last, filled]
        omega
    · simp [same, before]
  inRange := by
    rw [(alike_detach state record).size]
    intro other listed
    exact holds.inRange other (.tail _ listed)

end Holds

/-- A map holds records, and its library serves their models and the others'. -/
structure Account (d : Directory) (held : List Record) (others : List String)
    (state : MapTree × Library) : Prop where
  holds : Holds held state.1
  serves : state.2.Serves d (held.map Record.model ++ others)

namespace Account

theorem perm {more : List Record} (account : Account d held others state) (same : held.Perm more) :
    Account d more others state :=
  ⟨account.holds.perm same, account.serves.perm ((same.map _).append_right _)⟩

theorem foldl_attach (account : Account d held others state)
    (fit : ∀ record ∈ records, record.slot < state.1.slots.size) :
    Account d (records ++ held) others (records.foldl (attach d) state) := by
  induction records generalizing state held with
  | nil => exact account
  | cons record rest ih =>
    have next : Account d (record :: held) others (attach d state record) :=
      ⟨account.holds.attach (fit record (.head _)), account.serves.acquire record.model⟩
    apply (ih next _).perm List.perm_middle
    intro other listed
    rw [(alike_attach d state record).size]
    exact fit other (.tail _ listed)

theorem foldl_detach (account : Account d (records ++ held) others state) :
    Account d held others (records.foldl detach state) := by
  induction records generalizing state with
  | nil => exact account
  | cons record rest ih =>
    apply ih
    refine ⟨account.holds.detach, ?_⟩
    rw [library_detach]
    exact account.serves.release

end Account

/-! ### Tiles -/

theorem readRecords_inRange {slots count : Nat} {bytes : List UInt8} :
    ∀ record ∈ (readRecords slots count bytes).1, record.slot < slots := by
  induction count generalizing bytes with
  | zero => nofun
  | succ count ih =>
    rw [readRecords]
    split
    · nofun
    next record rest read =>
      intro other listed
      cases listed with
      | tail _ listed => exact ih other listed
      | head =>
        obtain ⟨placement?, after, placed, checked⟩ := run_bind_eq_ok.mp read
        cases placement? with
        | none => cases checked
        | some placement =>
          obtain ⟨slot, after, counted, guarded⟩ := run_bind_eq_ok.mp checked
          split at guarded
          · cases guarded
          next fits =>
            cases guarded
            exact Nat.lt_of_not_le fits

/-- A record that fits few slots is read in the same way where all slots fit that can be named. -/
theorem recordReader_widen {slots limit : Nat} (all : UInt32.size ≤ limit)
    {bytes rest : List UInt8} {record : Record}
    (read : (recordReader slots).run bytes = .ok (record, rest)) :
    (recordReader limit).run bytes = .ok (record, rest) := by
  obtain ⟨placement?, after, placed, checked⟩ := run_bind_eq_ok.mp read
  refine run_bind_eq_ok.mpr ⟨placement?, after, placed, ?_⟩
  cases placement? with
  | none => cases checked
  | some placement =>
    obtain ⟨slot, after, counted, guarded⟩ := run_bind_eq_ok.mp checked
    refine run_bind_eq_ok.mpr ⟨slot, after, counted, ?_⟩
    obtain ⟨word, after, worded, same⟩ := run_bind_eq_ok.mp counted
    have fits : ¬limit ≤ slot := by
      cases same
      exact Nat.not_le_of_lt (Nat.lt_of_lt_of_le word.toNat_lt all)
    split at guarded
    · cases guarded
    · rw [if_neg fits]
      exact guarded

theorem tileRecords_inRange (t : MapTree) (d : Directory) (tile : Tile) :
    ∀ record ∈ (t.tileRecords d tile).1, record.slot < t.slots.size := by
  rw [tileRecords]
  split
  · nofun
  · exact readRecords_inRange

/-- A tile that cannot be found has no records. -/
theorem tileRecords_of_find {fault : Fault}
    (missing : d.find (tileFileName t.map tile) = .error fault) : (t.tileRecords d tile).1 = [] := by
  have unread : d.read (tileFileName t.map tile) = .error fault := by
    rw [Directory.read, missing]
    rfl
  rw [tileRecords, unread]
  rfl

end MapTree

end Sightline
