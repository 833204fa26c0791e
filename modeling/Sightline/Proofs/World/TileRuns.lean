import Sightline.Proofs.World.Tiles

/-!
# Runs of loads and unloads

What a map and its library hold depends on the tiles that are loaded, and not on the order in which
they came or on what was loaded before. Files of tiles may be missing, cut off or broken: their records
count up to the first fault.
-/
namespace Sightline.MapTree

variable {d : Directory} {start state : MapTree × Library} {loaded : List Tile}

/-- Loads and unloads from a start, with the tiles that are loaded in the end. -/
inductive TileRun (d : Directory) (start : MapTree × Library) :
    List Tile → MapTree × Library → Prop
  | start : TileRun d start [] start
  | load {loaded : List Tile} {state : MapTree × Library} (tile : Tile) :
    TileRun d start loaded state → tile.Small → state.1.hasTile tile = false →
      TileRun d start (tile :: loaded) (state.1.loadTile state.2 d tile).2
  | unload {loaded : List Tile} {state : MapTree × Library} (tile : Tile) :
    TileRun d start loaded state → tile.Small →
      TileRun d start (loaded.erase tile) (state.1.unloadTile state.2 d tile)

theorem TileRun.keeps {records : Tile → List Record} {left : List Record} {others : List String}
    (opened : Keeps d records [] left others start) (run : TileRun d start loaded state) :
    Keeps d records loaded left others state := by
  induction run with
  | start => exact opened
  | load tile run small absent ih =>
    have new := mt (ih.hasTile tile small).mpr (by simp [absent])
    exact ih.loadNew small new
  | unload tile run small ih => exact ih.unloadTile small

theorem keeps_of_tiled {map : UInt32} {opened : MapTree} {before after : Library}
    {others : List String} (opens : openFile { map } before d = (.ok (), opened, after))
    (tiled : opened.isTiled = true) (serves : before.Serves d others) :
    Keeps d (opened.recordsOf d) [] [] others (opened, after) := by
  obtain ⟨fresh, rfl⟩ := fresh_of_tiled opens tiled
  exact fresh.keeps serves nofun

/-- The records of loaded tiles as the map `t` reads them, up to the first fault in each file. -/
def loadedRecords (t : MapTree) (d : Directory) (loaded : List Tile) : List Record :=
  loaded.flatMap fun tile => (t.tileRecords d tile).1

/-- What a map and its library count for the tiles that are loaded, if there is no other map. -/
structure Counts (d : Directory) (opened : MapTree) (loaded : List Tile)
    (state : MapTree × Library) : Prop where
  hasTile : ∀ tile : Tile, tile.Small → (state.1.hasTile tile = true ↔ tile ∈ loaded)
  once : loaded.Nodup
  uses : ∀ slot : Nat, state.1.useCount slot =
    (opened.loadedRecords d loaded).countP fun record => record.slot = slot
  filled : ∀ slot : Nat, (state.1.occupant? slot).isSome = true ↔ 0 < state.1.useCount slot
  users : ∀ name : String, state.2.users name =
    if Library.CanRead d name then
      (opened.loadedRecords d loaded).countP fun record => record.placement.model = name
    else 0
  cleared : loaded = [] → state.1.uses.isEmpty = true ∧
    (∀ slot : Nat, state.1.occupant? slot = none) ∧ state.2.size = 0

/-- After any loads and unloads of tiles, a map with tiles counts what the loaded tiles hold. -/
theorem TileRun.counts {map : UInt32} {opened : MapTree} {library : Library}
    (opens : openFile { map } {} d = (.ok (), opened, library)) (tiled : opened.isTiled = true)
    (run : TileRun d (opened, library) loaded state) : Counts d opened loaded state := by
  have start : Keeps d (opened.recordsOf d) [] [] [] (opened, library) :=
    keeps_of_tiled opens tiled (Library.serves_empty d)
  have keeps := run.keeps start
  have records : opened.recordsOf d = fun tile => (opened.tileRecords d tile).1 := by
    funext tile
    exact if_pos tiled
  rw [records] at keeps
  have holds := keeps.account.holds
  have serves := keeps.account.serves
  simp only [List.append_nil] at holds serves
  constructor
  case hasTile => exact keeps.hasTile
  case once => exact keeps.nodup
  case uses => exact holds.uses
  case filled => exact holds.filled
  case users =>
    intro name
    rw [serves.users name, List.count_eq_countP, List.countP_map]
    rfl
  case cleared =>
    rintro rfl
    have unused (slot : Nat) : state.1.useCount slot = 0 := holds.uses slot
    refine ⟨?_, ?_, serves.size_eq_zero⟩
    · rw [Std.TreeMap.isEmpty_iff_forall_not_mem]
      intro slot listed
      have found := Std.TreeMap.getElem?_eq_some_getElem listed
      have zero := unused slot
      rw [useCount, found] at zero
      exact holds.used slot (found.trans (congrArg some zero))
    · intro slot
      have filled := holds.filled slot
      rw [unused slot] at filled
      simpa using filled

/-- A record of a rock, for the first slot. -/
def rockRecord : List UInt8 :=
  (Placement.toBytes? { id := 7, model := "rock" }).toOption.getD [] ++ Bytes.ofNat 0

/-- The files of a map with one rock on two tiles. The file of one tile ends before its last record. -/
def rocks : Directory :=
  let tree : Hierarchy := ⟨#[.leaf 0 1], #[0], .zero⟩
  let head := Text.toBytes Model.magic
  { entries := Std.TreeMap.ofList
      [(["000.vmtree"], Entry.file (head ++ [1] ++ Text.toBytes "NODE" ++ tree.toBytes ++
          Text.toBytes "GOBJ")),
        (["000_02_01.vmtile"], .file (head ++ Bytes.ofNat 2 ++ rockRecord ++ rockRecord.take 9)),
        (["000_03_01.vmtile"], .file (head ++ Bytes.ofNat 1 ++ rockRecord)),
        (["rock.vmo"], .file (Model.toBytes { root := 1 }))] }

theorem TileRun.counts_rocks : ∃ opened library state,
    openFile { map := 0 } {} rocks = (.ok (), opened, library) ∧ opened.isTiled = true ∧
      TileRun rocks (opened, library) [⟨1, 2⟩] state ∧ Counts rocks opened [⟨1, 2⟩] state := by
  have outcome : (openFile { map := 0 } {} rocks).1 = .ok () := by decide +kernel
  have opens : openFile { map := 0 } {} rocks = (.ok (), (openFile { map := 0 } {} rocks).2) :=
    Prod.ext outcome rfl
  have tiled : (openFile { map := 0 } {} rocks).2.1.isTiled = true := by decide +kernel
  have none : TileRun rocks (openFile { map := 0 } {} rocks).2 [] _ := .start
  have first := none.load ⟨1, 3⟩ (by decide) (by decide +kernel)
  have second := first.load ⟨1, 2⟩ (by decide) (by decide +kernel)
  have third := second.unload ⟨1, 3⟩ (by decide)
  exact ⟨_, _, _, opens, tiled, third, third.counts opens tiled⟩

end Sightline.MapTree
