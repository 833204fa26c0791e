import Sightline.Proofs.World.Handles

/-!
# What becomes of a map

A map may load and unload tiles as often as it likes, from files that may change meanwhile, and share its
library with others. Its tree and the number of its slots stay, and what gets into a slot came from a
file.
-/
namespace Sightline

/-! ### Libraries -/

namespace Library

variable {l k : Library}

/-- All models of the library were read from files. -/
def FromFiles (l : Library) : Prop :=
  ∀ (name : String) (entry : Loaded), l.models[name]? = some entry →
    ∃ bytes rest, Model.reader.run bytes = .ok (entry.model, rest)

theorem fromFiles_empty : FromFiles {} := by
  intro name entry found
  simp at found

namespace FromFiles

theorem insert (fromFiles : l.FromFiles) (entry : Loaded) {bytes rest : List UInt8}
    (read : Model.reader.run bytes = .ok (entry.model, rest)) (loads : Nat) :
    FromFiles ⟨l.models.insert name entry, loads⟩ := by
  intro other loaded found
  rw [getElem?_insert] at found
  split at found
  · cases found
    exact ⟨bytes, rest, read⟩
  · exact fromFiles other loaded found

theorem acquire (fromFiles : l.FromFiles) (d : Directory) (name : String) :
    (l.acquire d name).2.FromFiles := by
  rw [Library.acquire]
  split
  next loaded found =>
    obtain ⟨bytes, rest, read⟩ := fromFiles name loaded found
    exact fromFiles.insert { loaded with users := loaded.users + 1 } read l.loads
  next =>
    split
    · exact fromFiles
    next model known =>
      obtain ⟨bytes, -, known⟩ := bind_eq_ok.mp known
      obtain ⟨⟨found, rest⟩, read, same⟩ := bind_eq_ok.mp known
      cases same
      exact fromFiles.insert ⟨found, l.loads, 1⟩ read (l.loads + 1)

theorem of_sheds (fromFiles : l.FromFiles) (sheds : l.Sheds k) : k.FromFiles := by
  intro name entry found
  obtain ⟨old, stood, -, model⟩ := sheds name entry found
  rw [← model]
  exact fromFiles name old stood

end FromFiles

end Library

/-! ### Maps -/

namespace MapTree

variable {d : Directory} {start state : MapTree × Library} {records : List Record}
  {files : Directory → Prop} {libraries : Library → Prop}

/-- Where a map and its library come to. The files are those that are allowed, and others may leave the
library as one that is allowed. -/
inductive Later (files : Directory → Prop) (libraries : Library → Prop)
    (start : MapTree × Library) : MapTree × Library → Prop
  | start : Later files libraries start start
  | load {state : MapTree × Library} {d : Directory} (tile : Tile) : files d →
    Later files libraries start state →
      Later files libraries start (state.1.loadTile state.2 d tile).2
  | unload {state : MapTree × Library} {d : Directory} (tile : Tile) : files d →
    Later files libraries start state →
      Later files libraries start (state.1.unloadTile state.2 d tile)
  | clear {state : MapTree × Library} : Later files libraries start state →
      Later files libraries start (state.1.unloadAll state.2)
  | shared {state : MapTree × Library} {library : Library} : libraries library →
    Later files libraries start state → Later files libraries start (state.1, library)

/-- Clearing slots leaves their number, and empties some of them. -/
theorem foldl_clearSlot (uses : List (Nat × Nat)) (slots : Array (Option Occupant))
    (library : Library) :
    (uses.foldl clearSlot (slots, library)).1.size = slots.size ∧
      ∀ (slot : Nat) (occupant : Occupant),
        (uses.foldl clearSlot (slots, library)).1[slot]?.join = some occupant →
          slots[slot]?.join = some occupant := by
  induction uses generalizing slots library with
  | nil => exact ⟨rfl, fun _ _ found => found⟩
  | cons use rest ih =>
    rw [List.foldl_cons, clearSlot]
    split
    · exact ih slots library
    next occupant present =>
      obtain ⟨size, kept⟩ := ih (slots.setIfInBounds use.1 none)
        (library.releaseTimes occupant.placement.model use.2)
      refine ⟨size.trans (Array.size_setIfInBounds ..), ?_⟩
      intro slot other found
      have before := kept slot other found
      rw [Array.getElem?_setIfInBounds] at before
      split at before
      · split at before <;> cases before
      · exact before

theorem alike_unloadAll (t : MapTree) (library : Library) : Alike t (t.unloadAll library).1 :=
  ⟨rfl, rfl, rfl, rfl, (foldl_clearSlot t.uses.toList t.slots library).1⟩

/-- The tree, the number of slots and what the file of the map said stay. -/
theorem Later.alike (later : Later files libraries start state) : Alike start.1 state.1 := by
  induction later with
  | start => exact Alike.refl _
  | load tile allowed later ih => exact ih.trans (alike_loadTile _ _ tile)
  | unload tile allowed later ih => exact ih.trans (alike_unloadTile _ _ tile)
  | clear later ih => exact ih.trans (alike_unloadAll _ _)
  | shared allowed later ih => exact ih

/-- What is in the slots belongs there if that is true of all records in the files. -/
theorem Later.occupied {belongs : Nat → Placement → Prop}
    (later : Later files libraries start state) (occupied : Occupied belongs start.1)
    (belong : ∀ d, files d → ∀ tile, ∀ record ∈ start.1.recordsOf d tile,
      belongs record.slot record.placement) : Occupied belongs state.1 := by
  -- which records a tile has depends on parts of the map that stay, so it can be asked of the start
  induction later with
  | start => exact occupied
  | load tile allowed later ih =>
    refine ih.loadTile fun record listed => belong _ allowed tile record ?_
    rwa [later.alike.recordsOf] at listed
  | unload tile allowed later ih => exact ih.unloadTile
  | @clear state later ih =>
    intro slot occupant found
    exact ih slot occupant
      ((foldl_clearSlot state.1.uses.toList state.1.slots state.2).2 slot occupant found)
  | shared allowed later ih => exact ih

/-! ### What becomes of the library -/

theorem sheds_foldl_detach (records : List Record) (state : MapTree × Library) :
    state.2.Sheds (records.foldl detach state).2 := by
  induction records generalizing state with
  | nil => exact .refl _
  | cons record rest ih =>
    have first : state.2.Sheds (detach state record).2 := by
      rw [library_detach]
      exact .release _ _
    exact first.trans (ih _)

theorem sheds_unloadTile (t : MapTree) (library : Library) (d : Directory) (tile : Tile) :
    library.Sheds (t.unloadTile library d tile).2 := by
  rcases unloadTile_cases library d tile with same | ⟨records, result⟩
  · rw [same]
    exact .refl _
  · rw [result]
    exact sheds_foldl_detach records (t, library)

theorem sheds_unloadAll (t : MapTree) (library : Library) :
    library.Sheds (t.unloadAll library).2 := by
  have each (uses : List (Nat × Nat)) (slots : Array (Option Occupant)) (l : Library) :
      l.Sheds (uses.foldl clearSlot (slots, l)).2 := by
    induction uses generalizing slots l with
    | nil => exact .refl l
    | cons use rest ih =>
      rw [List.foldl_cons, clearSlot]
      split
      · exact ih _ l
      next occupant present =>
        exact (Library.Sheds.releaseTimes l occupant.placement.model use.2).trans (ih _ _)
  exact each t.uses.toList t.slots library

theorem fromFiles_foldl_attach (fromFiles : state.2.FromFiles) :
    (records.foldl (attach d) state).2.FromFiles := by
  induction records generalizing state with
  | nil => exact fromFiles
  | cons record rest ih => exact ih (fromFiles.acquire d record.model)

theorem fromFiles_openFile {map : UInt32} {before after : Library} {opened : MapTree}
    (fromFiles : before.FromFiles) (opens : openFile { map } before d = (.ok (), opened, after)) :
    after.FromFiles := by
  rcases openFile_cases map before d with ⟨fault, t, refused, -⟩ | ⟨t, global, read, -⟩
  · rw [refused] at opens
    cases opens
  · rw [read] at opens
    have kept : (global.foldl (attach d) (t, before)).2.FromFiles := fromFiles_foldl_attach fromFiles
    rwa [congrArg (fun result => result.2.2) opens] at kept

/-- A library of models from files stays one. -/
theorem Later.fromFiles (later : Later files Library.FromFiles start state)
    (fromFiles : start.2.FromFiles) : state.2.FromFiles := by
  induction later with
  | start => exact fromFiles
  | @load state d tile allowed later ih =>
    rcases loadTile_cases (t := state.1) state.2 d tile with same | ⟨hasFile, result⟩
    · rw [same]
      exact ih
    · rw [result]
      exact fromFiles_foldl_attach ih
  | unload tile allowed later ih => exact ih.of_sheds (sheds_unloadTile _ _ _ tile)
  | clear later ih => exact ih.of_sheds (sheds_unloadAll _ _)
  | shared allowed later ih => exact allowed

end MapTree

end Sightline
