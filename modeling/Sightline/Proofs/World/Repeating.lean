import Sightline.Proofs.World.Loading
import Sightline.Proofs.World.TileRuns
import Sightline.Proofs.World.Twins

/-!
# Tiles that are loaded again

A map notes a tile once, however often it is loaded, but counts the uses of its slots at every load. So
a tile that is loaded while it is loaded leaves uses behind that no unloading takes off. On a map that was
written with its tiles, the uses of a slot are the loaded tiles that list it together with all such
loads, and they are the loaded tiles alone exactly if no tile that lists the slot was loaded again.
-/
namespace Sightline.MapTree

variable {d : Directory} {opened t : MapTree} {library : Library} {slot : Nat}
  {loaded again : List Tile} {map : UInt32}

/-! ### Runs with repeated loads -/

/-- Any loads and unloads, each with the library as it is by then. The lists are the tiles that are
loaded and, for each load of a tile that was loaded already, this tile. -/
inductive RepeatRun (d : Directory) (opened : MapTree) : List Tile → List Tile → MapTree → Prop
  | start : RepeatRun d opened [] [] opened
  | load {loaded again : List Tile} {t : MapTree} (tile : Tile) (library : Library) :
    RepeatRun d opened loaded again t → tile.Small → t.hasTile tile = false →
      RepeatRun d opened (tile :: loaded) again (t.loadTile library d tile).2.1
  | loadAgain {loaded again : List Tile} {t : MapTree} (tile : Tile) (library : Library) :
    RepeatRun d opened loaded again t → tile.Small → t.hasTile tile = true →
      RepeatRun d opened loaded (tile :: again) (t.loadTile library d tile).2.1
  | unload {loaded again : List Tile} {t : MapTree} (tile : Tile) (library : Library) :
    RepeatRun d opened loaded again t → tile.Small →
      RepeatRun d opened (loaded.erase tile) again (t.unloadTile library d tile).1

/-- Each repeated load leaves the records of its tile. -/
theorem RepeatRun.mirrors (fresh : Fresh map opened) (run : RepeatRun d opened loaded again t) :
    Mirrors d (opened.recordsOf d) loaded (again.flatMap (opened.recordsOf d)) t := by
  induction run with
  | start => exact .of_fresh fresh d
  | load tile library run small absent ih =>
    refine ih.loadNew small ?_ (.refl _ d) library
    rw [← ih.hasTile small, absent]
    nofun
  | loadAgain tile library run small present ih =>
    exact ih.loadAgain small ((ih.hasTile small).mp present) (.refl _ d) library
  | unload tile library run small ih => exact ih.unloadTile small (.refl _ d) library

/-! ### Tiles that list a slot -/

/-- The file of the tile has a record for the slot. -/
def Lists (t : MapTree) (d : Directory) (slot : Nat) (tile : Tile) : Prop :=
  ∃ record ∈ (t.tileRecords d tile).1, record.slot = slot

instance (t : MapTree) (d : Directory) (slot : Nat) (tile : Tile) :
    Decidable (t.Lists d slot tile) := inferInstanceAs (Decidable (∃ record ∈ _, _))

/-- If tiles list a slot at most once, then their records for it are as many as the tiles that do. -/
theorem countP_lists (once : ∀ tile : Tile, ((t.tileRecords d tile).1.map Record.slot).Nodup)
    (tiles : List Tile) (slot : Nat) :
    (t.loadedRecords d tiles).countP (fun record => record.slot = slot) =
      tiles.countP fun tile => t.Lists d slot tile := by
  induction tiles with
  | nil => rfl
  | cons tile rest ih =>
    have one : (t.tileRecords d tile).1.countP (fun record => record.slot = slot) =
        if t.Lists d slot tile then 1 else 0 := by
      have listed : slot ∈ (t.tileRecords d tile).1.map Record.slot ↔ t.Lists d slot tile := List.mem_map
      rw [← if_congr listed rfl rfl, ← (once tile).count, List.count_eq_countP, List.countP_map]
      simp only [Function.comp_def, beq_eq_decide]
    rw [loadedRecords, List.flatMap_cons, List.countP_append, ← loadedRecords, ih, one,
      List.countP_cons, Nat.add_comm]
    simp only [decide_eq_true_eq]

/-- A map that was opened has a file. -/
theorem exists_treeFile {before : Library}
    (opens : openFile { map } before d = (.ok (), opened, library)) :
    ∃ entry, d.lookup? (treeFileName map) = some entry := by
  rw [openFile] at opens
  split at opens
  · cases opens
  next head =>
    obtain ⟨bytes, read, -⟩ := bind_eq_ok.mp head
    obtain ⟨entry, found, -⟩ := bind_eq_ok.mp read
    exact ⟨entry, Directory.lookup?_eq_some.mpr found⟩

/-- The tiles of a written map list each slot at most once. -/
theorem nodup_of_written {calls : List Call} {a : Assembly} {before : Library}
    (written : (Assembly.ofCalls calls).write {} = .ok (.ok (), a, d))
    (opens : openFile { map } before d = (.ok (), opened, library)) (tiled : opened.isTiled = true)
    (tile : Tile) : ((opened.tileRecords d tile).1.map Record.slot).Nodup := by
  have keyed (map : UInt32) (m : MapPlan) (known : (Assembly.ofCalls calls).maps[map]? = some m) :
      m.Keyed := (Assembly.follows_of_plan known).keyed
  obtain ⟨entry, stands⟩ := exists_treeFile opens
  obtain ⟨settled, known⟩ := Assembly.exists_plan_of_write keyed written stands
  obtain ⟨m, planned, settles, files⟩ := Assembly.mapFiles_of_write keyed written known
  refine nodup_tileRecords files (settles.keyed (keyed map m planned)) (fun _ _ => settles.boxed)
    (fresh_of_tiled opens tiled).1.map ?_
  rw [MapPlan.idsOn, settles.tiles]
  exact (Assembly.follows_of_plan planned).nodup tile.packed

/-! ### What the slots count -/

/-- The slots of a map count the loaded tiles and the repeated loads. -/
structure CountsLoads (d : Directory) (opened : MapTree) (loaded again : List Tile) (t : MapTree) :
    Prop where
  hasTile : ∀ tile : Tile, tile.Small → (t.hasTile tile = true ↔ tile ∈ loaded)
  once : loaded.Nodup
  uses : ∀ slot : Nat, t.useCount slot =
    (loaded.countP fun tile => opened.Lists d slot tile) +
      again.countP fun tile => opened.Lists d slot tile
  filled : ∀ slot : Nat, (t.occupant? slot).isSome = true ↔
    ∃ tile, (tile ∈ loaded ∨ tile ∈ again) ∧ opened.Lists d slot tile
  /-- The uses are the loaded tiles exactly if no repeated load was of a tile that lists the slot. -/
  exact : ∀ slot : Nat,
    (t.useCount slot = loaded.countP fun tile => opened.Lists d slot tile) ↔
      ∀ tile ∈ again, ¬opened.Lists d slot tile

/-- After any loads and unloads, a map that was written with its tiles counts all loads that were not
unloaded. -/
theorem RepeatRun.countsLoads {calls : List Call} {a : Assembly} {before : Library}
    (written : (Assembly.ofCalls calls).write {} = .ok (.ok (), a, d))
    (opens : openFile { map } before d = (.ok (), opened, library)) (tiled : opened.isTiled = true)
    (run : RepeatRun d opened loaded again t) : CountsLoads d opened loaded again t := by
  have once (tile : Tile) : ((opened.tileRecords d tile).1.map Record.slot).Nodup :=
    nodup_of_written written opens tiled tile
  -- what is left over are the records of the repeated loads
  have mirrors := run.mirrors (fresh_of_tiled opens tiled).1
  have records : opened.recordsOf d = fun tile => (opened.tileRecords d tile).1 := by
    funext tile
    exact if_pos tiled
  rw [records] at mirrors
  have uses (slot : Nat) : t.useCount slot =
      (loaded.countP fun tile => opened.Lists d slot tile) +
        again.countP fun tile => opened.Lists d slot tile := by
    rw [mirrors.useCount, List.countP_append, ← countP_lists once, ← countP_lists once]
    rfl
  constructor
  case hasTile => exact fun tile small => mirrors.hasTile small
  case once => exact mirrors.nodup
  case uses => exact uses
  case filled =>
    intro slot
    rw [mirrors.filled, uses, Nat.add_pos_iff_pos_or_pos, List.countP_pos_iff, List.countP_pos_iff]
    simp only [decide_eq_true_eq, or_and_right, exists_or]
  case exact =>
    intro slot
    rw [uses, Nat.add_eq_left, List.countP_eq_zero]
    simp only [decide_eq_true_eq]

/-! ### A tile of the quarry -/

/-- The map of the quarry as it was opened, with its library. -/
def openedQuarry : MapTree × Library := (openFile { map := 0 } {} writtenQuarry.2).2

theorem open_quarry :
    openFile { map := 0 } {} writtenQuarry.2 = (.ok (), openedQuarry.1, openedQuarry.2) := by
  have outcome : (openFile { map := 0 } {} writtenQuarry.2).1 = .ok () := by decide +kernel
  exact Prod.ext outcome rfl

theorem tiled_openedQuarry : openedQuarry.1.isTiled = true := by decide +kernel

/-- The quarry with one of its tiles loaded twice. -/
def twiceLoaded : MapTree × Library :=
  let first := (openedQuarry.1.loadTile openedQuarry.2 writtenQuarry.2 ⟨32, 32⟩).2
  (first.1.loadTile first.2 writtenQuarry.2 ⟨32, 32⟩).2

theorem run_twiceLoaded :
    RepeatRun writtenQuarry.2 openedQuarry.1 [⟨32, 32⟩] [⟨32, 32⟩] twiceLoaded.1 := by
  have none : RepeatRun writtenQuarry.2 openedQuarry.1 [] [] openedQuarry.1 := .start
  have first := none.load ⟨32, 32⟩ openedQuarry.2 (by decide) (by decide +kernel)
  exact first.loadAgain ⟨32, 32⟩ _ (by decide) (by decide +kernel)

theorem countsLoads_quarry : ∃ a d opened library loaded again t,
    (Assembly.ofCalls quarry).write {} = .ok (.ok (), a, d) ∧
      openFile { map := 0 } {} d = (.ok (), opened, library) ∧ opened.isTiled = true ∧
      RepeatRun d opened loaded again t ∧ again ≠ [] ∧ CountsLoads d opened loaded again t := by
  have run := run_twiceLoaded.load ⟨32, 33⟩ {} (by decide) (by decide +kernel)
  exact ⟨_, _, _, _, _, _, _, write_quarry, open_quarry, tiled_openedQuarry, run, by decide,
    run.countsLoads write_quarry open_quarry tiled_openedQuarry⟩

/-- A boulder on a tile that was loaded twice counts two tiles, and stays when none is left. -/
theorem useCount_twiceLoaded : ∃ a d opened library,
    (Assembly.ofCalls quarry).write {} = .ok (.ok (), a, d) ∧
      openFile { map := 0 } {} d = (.ok (), opened, library) ∧ opened.isTiled = true ∧
      (∃ t again, RepeatRun d opened [⟨32, 32⟩] again t ∧ t.useCount 1 = 2 ∧
        ([⟨32, 32⟩] : List Tile).countP (fun tile => opened.Lists d 1 tile) = 1) ∧
      ∃ t again, RepeatRun d opened [] again t ∧ t.hasTile ⟨32, 32⟩ = false ∧ t.useCount 1 = 1 ∧
        (t.occupant? 1).isSome = true := by
  have unloaded := run_twiceLoaded.unload ⟨32, 32⟩ twiceLoaded.2 (by decide)
  refine ⟨_, _, _, _, write_quarry, open_quarry, tiled_openedQuarry, ⟨_, _, run_twiceLoaded, ?_, ?_⟩,
    _, _, unloaded, ?_, ?_, ?_⟩ <;> decide +kernel

end Sightline.MapTree
