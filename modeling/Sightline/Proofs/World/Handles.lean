import Sightline.Proofs.World.Tiles

/-!
# Handles that lead to models

A library that only gains users keeps every model it has, so that the handles of the placements in the
slots lead to the models in their files as long as tiles are loaded. A placement whose model cannot be
read has no handle. A library that loses users keeps the handles to all models that are left.
-/
namespace Sightline

namespace Library

variable {d : Directory} {l k : Library} {name : String} {model : Model}

/-- Every model of the library is the one in its file. -/
def Faithful (d : Directory) (l : Library) : Prop :=
  ∀ (name : String) (entry : Loaded), l.models[name]? = some entry →
    readModel d (modelFileName name) = .ok entry.model

theorem faithful_empty (d : Directory) : Faithful d {} := by
  intro name entry found
  simp at found

theorem model?_eq_some {handle : Handle} :
    l.model? handle = some model ↔ ∃ entry : Loaded, l.models[handle.name]? = some entry ∧
      entry.serial = handle.serial ∧ entry.model = model := by
  simp [model?, Option.filter_eq_some_iff, and_assoc]

theorem Faithful.insert (faithful : l.Faithful d) (entry : Loaded)
    (readable : readModel d (modelFileName name) = .ok entry.model) (loads : Nat) :
    Faithful d ⟨l.models.insert name entry, loads⟩ := by
  intro other loaded stands
  rw [getElem?_insert] at stands
  split at stands
  next same =>
    subst same
    cases stands
    exact readable
  next => exact faithful other loaded stands

/-- All handles lead on to where they did. -/
def Extends (l k : Library) : Prop :=
  ∀ (handle : Handle) (model : Model), l.model? handle = some model → k.model? handle = some model

/-- Handles lead on to where they did, if the entry of their name stays the same load of its model. -/
theorem model?_insert {entry : Loaded} (stays : ∀ old : Loaded, l.models[name]? = some old →
      entry.serial = old.serial ∧ entry.model = old.model) (loads : Nat) {other : Handle}
    (leads : l.model? other = some model) :
    model? ⟨l.models.insert name entry, loads⟩ other = some model := by
  obtain ⟨loaded, stands, serial, rfl⟩ := model?_eq_some.mp leads
  refine model?_eq_some.mpr ?_
  rw [getElem?_insert]
  split
  next same =>
    obtain ⟨sameSerial, sameModel⟩ := stays loaded (same ▸ stands)
    exact ⟨entry, rfl, sameSerial.trans serial, sameModel⟩
  next => exact ⟨loaded, stands, serial, rfl⟩

/-- Acquiring a model that can be read gives a handle to it, and all other handles lead where they did
before. -/
theorem acquire_readable (faithful : l.Faithful d)
    (readable : readModel d (modelFileName name) = .ok model) :
    ∃ handle after, l.acquire d name = (.ok handle, after) ∧ handle.name = name ∧
      after.model? handle = some model ∧ after.Faithful d ∧ l.Extends after := by
  have leadsToNew (entry : Loaded) (loads : Nat) :
      model? ⟨l.models.insert name entry, loads⟩ ⟨name, entry.serial⟩ = some entry.model :=
    model?_eq_some.mpr ⟨entry, Std.TreeMap.getElem?_insert_self, rfl, rfl⟩
  rw [acquire]
  split
  next entry found =>
    -- one more user does not change the load of a model
    obtain rfl : entry.model = model :=
      Except.ok.inj ((faithful name entry found).symm.trans readable)
    let another : Loaded := { entry with users := entry.users + 1 }
    have still : Faithful d { l with models := l.models.insert name another } :=
      faithful.insert another readable l.loads
    refine ⟨_, _, rfl, rfl, leadsToNew another l.loads, still, ?_⟩
    refine fun other known leads => model?_insert ?_ l.loads leads
    intro old stands
    rw [found] at stands
    cases stands
    exact ⟨rfl, rfl⟩
  next missing =>
    -- no handle leads to a model that is not there
    rw [readable]
    let first : Loaded := ⟨model, l.loads, 1⟩
    have still : Faithful d ⟨l.models.insert name first, l.loads + 1⟩ :=
      faithful.insert first readable (l.loads + 1)
    refine ⟨_, _, rfl, rfl, leadsToNew first (l.loads + 1), still, ?_⟩
    refine fun other known leads => model?_insert ?_ (l.loads + 1) leads
    intro old stands
    rw [missing] at stands
    cases stands

theorem Faithful.canRead (faithful : l.Faithful d) {entry : Loaded}
    (found : l.models[name]? = some entry) : CanRead d name :=
  canRead_of_ok (faithful name entry found)

theorem exists_model_of_canRead (readable : CanRead d name) :
    ∃ model, readModel d (modelFileName name) = .ok model := by
  rw [CanRead] at readable
  cases read : readModel d (modelFileName name) with
  | error fault =>
    rw [read] at readable
    cases readable
  | ok model => exact ⟨model, rfl⟩

/-- A model that cannot be read is not in the library, and acquiring it changes nothing. -/
theorem acquire_unreadable (faithful : l.Faithful d) (unread : ¬CanRead d name) :
    l.acquire d name = (.error (.modelNotLoaded name), l) := by
  have absent : l.models[name]? = none := by
    by_contra present
    obtain ⟨entry, found⟩ := Option.ne_none_iff_exists'.mp present
    exact unread (faithful.canRead found)
  rw [acquire, absent]
  cases read : readModel d (modelFileName name) with
  | error fault => rfl
  | ok model => exact absurd (canRead_of_ok read) unread

theorem acquire_extends (faithful : l.Faithful d) (name : String) :
    (l.acquire d name).2.Faithful d ∧ l.Extends (l.acquire d name).2 := by
  by_cases readable : CanRead d name
  · obtain ⟨model, read⟩ := exists_model_of_canRead readable
    obtain ⟨handle, after, acquired, -, -, still, others⟩ := acquire_readable faithful read
    rw [acquired]
    exact ⟨still, others⟩
  · rw [acquire_unreadable faithful readable]
    exact ⟨faithful, fun _ _ leads => leads⟩

theorem Extends.trans {m : Library} (first : l.Extends k) (second : k.Extends m) : l.Extends m :=
  fun handle model leads => second handle model (first handle model leads)

/-! ### Releasing -/

/-- What is in the later library are loads of the earlier one that stay, with fewer users or not. -/
def Sheds (l k : Library) : Prop :=
  ∀ (name : String) (entry : Loaded), k.models[name]? = some entry →
    ∃ old : Loaded, l.models[name]? = some old ∧ old.serial = entry.serial ∧ old.model = entry.model

/-- Handles lead to the same models in the later library as long as it has models of their names. -/
def Carries (l k : Library) : Prop :=
  ∀ (handle : Handle) (model : Model), l.model? handle = some model →
    (∃ entry : Loaded, k.models[handle.name]? = some entry) → k.model? handle = some model

theorem Extends.carries (longer : l.Extends k) : l.Carries k :=
  fun handle model leads _ => longer handle model leads

namespace Sheds

theorem refl (l : Library) : l.Sheds l := fun _ entry found => ⟨entry, found, rfl, rfl⟩

theorem trans {m : Library} (first : l.Sheds k) (second : k.Sheds m) : l.Sheds m := by
  intro name entry found
  obtain ⟨between, stands, serial, model⟩ := second name entry found
  obtain ⟨old, stood, oldSerial, oldModel⟩ := first name between stands
  exact ⟨old, stood, oldSerial.trans serial, oldModel.trans model⟩

theorem release (l : Library) (name : String) : l.Sheds (l.release name) := by
  rw [Library.release]
  split
  · exact .refl l
  next loaded found =>
    split
    · intro other entry stands
      rw [getElem?_erase] at stands
      split at stands
      · cases stands
      · exact ⟨entry, stands, rfl, rfl⟩
    · intro other entry stands
      rw [getElem?_insert] at stands
      split at stands
      next same =>
        cases stands
        exact ⟨loaded, same ▸ found, rfl, rfl⟩
      · exact ⟨entry, stands, rfl, rfl⟩

theorem releaseTimes (l : Library) (name : String) (times : Nat) :
    l.Sheds (l.releaseTimes name times) := by
  induction times generalizing l with
  | zero => exact .refl l
  | succ times ih => exact (release l name).trans (ih (l.release name))

theorem faithful (sheds : l.Sheds k) (faithful : l.Faithful d) : k.Faithful d := by
  intro name entry found
  obtain ⟨old, stood, -, model⟩ := sheds name entry found
  rw [← model]
  exact faithful name old stood

theorem carries (sheds : l.Sheds k) : l.Carries k := by
  rintro handle model leads ⟨entry, stands⟩
  obtain ⟨loaded, found, serial, rfl⟩ := model?_eq_some.mp leads
  obtain ⟨old, stood, oldSerial, oldModel⟩ := sheds handle.name entry stands
  obtain rfl : loaded = old := Option.some.inj (found.symm.trans stood)
  exact model?_eq_some.mpr ⟨entry, stands, oldSerial.symm.trans serial, oldModel.symm⟩

end Sheds

end Library

open Library

namespace MapTree

variable {d : Directory} {state : MapTree × Library} {record : Record} {records : List Record}
  {library after : Library} {occupant : Occupant} {t : MapTree} {tile : Tile}

/-- The placement has a handle, which leads to the model in its file. -/
def Provided (d : Directory) (library : Library) (occupant : Occupant) : Prop :=
  ∃ handle model, occupant.handle = some handle ∧ handle.name = occupant.placement.model ∧
    readModel d (modelFileName occupant.placement.model) = .ok model ∧
    library.model? handle = some model

/-- The library holds what its files do, and all placements in the slots have their models. -/
structure Provides (d : Directory) (state : MapTree × Library) : Prop where
  faithful : state.2.Faithful d
  provided : ∀ (slot : Nat) (occupant : Occupant), state.1.occupant? slot = some occupant →
    Provided d state.2 occupant

/-- The placement has its model, or none if the file of the model cannot be read. -/
def Furnished (d : Directory) (library : Library) (occupant : Occupant) : Prop :=
  Provided d library occupant ∨
    (occupant.handle = none ∧ ¬CanRead d occupant.placement.model)

namespace Furnished

theorem found (furnished : Furnished d library occupant) :
    occupant.handle.bind library.model? =
      (readModel d (modelFileName occupant.placement.model)).toOption := by
  rcases furnished with ⟨handle, model, holds, -, read, leads⟩ | ⟨none, unread⟩
  · rw [holds, read]
    exact leads
  · rw [none]
    cases read : readModel d (modelFileName occupant.placement.model) with
    | error fault => rfl
    | ok model => exact absurd (canRead_of_ok read) unread

/-- A placement keeps its model as long as the library has one of that name. -/
theorem carry (furnished : Furnished d library occupant) (carries : library.Carries after)
    (kept : CanRead d occupant.placement.model →
      ∃ entry : Loaded, after.models[occupant.placement.model]? = some entry) :
    Furnished d after occupant := by
  rcases furnished with ⟨handle, model, holds, named, read, leads⟩ | none
  · refine .inl ⟨handle, model, holds, named, read, carries handle model leads ?_⟩
    rw [named]
    exact kept (canRead_of_ok read)
  · exact .inr none

theorem extend (furnished : Furnished d library occupant) (longer : library.Extends after) :
    Furnished d after occupant := by
  rcases furnished with ⟨handle, model, holds, named, read, leads⟩ | none
  · exact .inl ⟨handle, model, holds, named, read, longer handle model leads⟩
  · exact .inr none

end Furnished

/-- The library holds what its files do, and all placements of the map are furnished. -/
structure Furnishes (d : Directory) (state : MapTree × Library) : Prop where
  faithful : state.2.Faithful d
  furnished : ∀ (slot : Nat) (occupant : Occupant), state.1.occupant? slot = some occupant →
    Furnished d state.2 occupant

/-- What acquiring a model gives to a placement. -/
theorem furnished_acquired (faithful : library.Faithful d) (p : Placement) :
    Furnished d (library.acquire d p.model).2 ⟨p, (library.acquire d p.model).1.toOption⟩ := by
  by_cases readable : CanRead d p.model
  · obtain ⟨model, read⟩ := exists_model_of_canRead readable
    obtain ⟨handle, after, acquired, named, leads, -⟩ := acquire_readable faithful read
    rw [acquired]
    exact .inl ⟨handle, model, rfl, named, read, leads⟩
  · rw [acquire_unreadable faithful readable]
    exact .inr ⟨rfl, readable⟩

namespace Furnishes

theorem attach (furnishes : Furnishes d state) (fits : record.slot < state.1.slots.size) :
    Furnishes d (attach d state record) ∧ state.2.Extends (MapTree.attach d state record).2 := by
  obtain ⟨faithful, longer⟩ := acquire_extends furnishes.faithful record.model
  refine ⟨⟨faithful, fun slot occupant found => ?_⟩, longer⟩
  rw [occupant?_attach d fits] at found
  split at found
  next first =>
    cases found
    exact furnished_acquired furnishes.faithful record.placement
  next => exact (furnishes.furnished slot occupant found).extend longer

theorem foldl_attach (furnishes : Furnishes d state)
    (fit : ∀ record ∈ records, record.slot < state.1.slots.size) :
    Furnishes d (records.foldl (MapTree.attach d) state) ∧
      state.2.Extends (records.foldl (MapTree.attach d) state).2 := by
  induction records generalizing state with
  | nil => exact ⟨furnishes, fun _ _ leads => leads⟩
  | cons record rest ih =>
    obtain ⟨next, longer⟩ := furnishes.attach (fit record (.head _))
    obtain ⟨last, longest⟩ := ih next fun other listed => by
      rw [(alike_attach d state record).size]
      exact fit other (.tail _ listed)
    exact ⟨last, longer.trans longest⟩

theorem loadTile (furnishes : Furnishes d (t, library)) (tile : Tile) :
    Furnishes d (t.loadTile library d tile).2 ∧
      library.Extends (t.loadTile library d tile).2.2 := by
  rcases loadTile_cases library d tile with same | ⟨hasFile, result⟩
  · rw [same]
    exact ⟨furnishes, fun _ _ leads => leads⟩
  · obtain ⟨after, longer⟩ := furnishes.foldl_attach (recordsOf_inRange t d tile)
    rw [result]
    exact ⟨⟨after.faithful, after.furnished⟩, longer⟩

end Furnishes

theorem Fresh.furnishes {map : UInt32} (fresh : Fresh map t) (faithful : library.Faithful d) :
    Furnishes d (t, library) := by
  refine ⟨faithful, fun slot occupant found => ?_⟩
  exact (fresh.occupied (fun _ _ => False) slot occupant found).elim

/-- If all placements of the map have models that can be read, then they are provided. -/
theorem Furnishes.provides (furnishes : Furnishes d state)
    (readable : ∀ (slot : Nat) (occupant : Occupant), state.1.occupant? slot = some occupant →
      CanRead d occupant.placement.model) : Provides d state := by
  refine ⟨furnishes.faithful, fun slot occupant found => ?_⟩
  rcases furnishes.furnished slot occupant found with provided | ⟨-, unread⟩
  · exact provided
  · exact absurd (readable slot occupant found) unread

theorem Provides.furnishes (provides : Provides d state) : Furnishes d state :=
  ⟨provides.faithful, fun slot occupant found => .inl (provides.provided slot occupant found)⟩

end MapTree

end Sightline
