import Sightline.Proofs.World.Tiles
import Sightline.Proofs.World.Writing

/-!
# Maps with the same tiles

Two maps are twins if they have loaded the same, whatever became of the models. Which tiles are loaded
and what is in the slots depends on the files of the tiles alone: loading and unloading a tile makes twins
of twins, with any two libraries and from any two directories in which the tile has the same file. So a
map mirrors one whose models are all as they are in a directory, and what is known of that one is true
of it.
-/
namespace Sightline.MapTree

variable {d d' : Directory} {t u : MapTree} {record : Record} {records : List Record} {tile : Tile}
  {map : UInt32}

/-- The same map with the same tiles and the same placements in its slots. Their handles may differ. -/
structure Twins (t u : MapTree) : Prop where
  alike : Alike t u
  tiles : u.tiles = t.tiles
  uses : u.uses = t.uses
  placements : ∀ slot, (u.occupant? slot).map Occupant.placement =
    (t.occupant? slot).map Occupant.placement

theorem Twins.refl (t : MapTree) : Twins t t := ⟨.refl t, rfl, rfl, fun _ => rfl⟩

/-! ### Files of tiles -/

/-- The tiles of the map have the same files in both directories. -/
def SameTiles (map : UInt32) (d d' : Directory) : Prop :=
  ∀ tile : Tile, d'.lookup? (tileFileName map tile) = d.lookup? (tileFileName map tile)

theorem SameTiles.refl (map : UInt32) (d : Directory) : SameTiles map d d := fun _ => rfl

theorem tileRecords_same (same : SameTiles t.map d d') (tile : Tile) :
    (t.tileRecords d' tile).1 = (t.tileRecords d tile).1 := by
  rcases Directory.find_same (same tile) with ⟨fault, other, missing, there⟩ | ⟨entry, -, -, read⟩
  · rw [tileRecords_of_find missing, tileRecords_of_find there]
  · rw [tileRecords, tileRecords, read]

/-! ### Loading and unloading -/

namespace Twins

theorem useCount (twins : Twins t u) (slot : Nat) : u.useCount slot = t.useCount slot := by
  rw [MapTree.useCount, MapTree.useCount, twins.uses]

theorem attach (twins : Twins t u) (d d' : Directory) (fits : record.slot < t.slots.size)
    (l k : Library) : Twins (attach d (t, l) record).1 (MapTree.attach d' (u, k) record).1 where
  alike := ((alike_attach d (t, l) record).symm.trans twins.alike).trans
    (alike_attach d' (u, k) record)
  tiles := twins.tiles
  uses := by
    simp only [MapTree.attach]
    rw [twins.uses, twins.useCount]
  placements slot := by
    have fitsToo : record.slot < u.slots.size := by rwa [twins.alike.size]
    rw [occupant?_attach d' (show record.slot < (u, k).1.slots.size from fitsToo),
      occupant?_attach d (show record.slot < (t, l).1.slots.size from fits), twins.useCount]
    split
    · rfl
    · exact twins.placements slot

theorem foldl_attach (twins : Twins t u) (d d' : Directory)
    (fit : ∀ record ∈ records, record.slot < t.slots.size) (l k : Library) :
    Twins (records.foldl (MapTree.attach d) (t, l)).1 (records.foldl (MapTree.attach d') (u, k)).1 := by
  induction records generalizing t u l k with
  | nil => exact twins
  | cons record rest ih =>
    refine ih (twins.attach d d' (fit record (.head _)) l k) ?_ _ _
    intro other listed
    rw [(alike_attach d (t, l) record).size]
    exact fit other (.tail _ listed)

theorem detach (twins : Twins t u) (record : Record) (l k : Library) :
    Twins (MapTree.detach (t, l) record).1 (MapTree.detach (u, k) record).1 where
  alike := ((alike_detach (t, l) record).symm.trans twins.alike).trans (alike_detach (u, k) record)
  tiles := by rw [tiles_detach, tiles_detach, twins.tiles]
  uses := by
    simp only [MapTree.detach, twins.useCount]
    split
    · exact congrArg (Std.TreeMap.erase · record.slot) twins.uses
    · exact congrArg (Std.TreeMap.insert · record.slot _) twins.uses
  placements slot := by
    rw [occupant?_detach, occupant?_detach, twins.useCount]
    split
    · rfl
    · exact twins.placements slot

theorem foldl_detach (twins : Twins t u) (records : List Record) (l k : Library) :
    Twins (records.foldl MapTree.detach (t, l)).1 (records.foldl MapTree.detach (u, k)).1 := by
  induction records generalizing t u l k with
  | nil => exact twins
  | cons record rest ih => exact ih (twins.detach record l k) _ _

theorem withTiles (twins : Twins t u) {tiles more : Std.TreeMap UInt32 Bool} (same : more = tiles) :
    Twins { t with tiles } { u with tiles := more } where
  alike := ⟨twins.alike.map, twins.alike.isTiled, twins.alike.isReady, twins.alike.tree,
    twins.alike.size⟩
  tiles := same
  uses := twins.uses
  placements := twins.placements

/-- Loading a tile has the same outcome for twins, and leaves twins. -/
theorem loadTile (twins : Twins t u) (l k : Library) (files : SameTiles t.map d d') (tile : Tile) :
    (u.loadTile k d' tile).1 = (t.loadTile l d tile).1 ∧
      Twins (t.loadTile l d tile).2.1 (u.loadTile k d' tile).2.1 := by
  have same := twins.alike
  have named : tileFileName u.map tile = tileFileName t.map tile := by rw [same.map]
  have added (hasFile : Bool) :
      u.tiles.insert tile.packed hasFile = t.tiles.insert tile.packed hasFile :=
    congrArg (Std.TreeMap.insert · tile.packed hasFile) twins.tiles
  rw [MapTree.loadTile, MapTree.loadTile]
  by_cases tiled : t.isTiled = true
  · rw [if_neg (not_not.mpr tiled), if_neg (not_not.mpr (same.isTiled.trans tiled))]
    by_cases ready : t.isReady = true
    · rw [if_neg (not_not.mpr ready), if_neg (not_not.mpr (same.isReady.trans ready)), named,
        same.tileRecords]
      -- the file is missing in both directories, or the same records are read from it
      rcases Directory.find_same (files tile) with
        ⟨fault, other, missing, there⟩ | ⟨entry, found, there, read⟩
      · rw [missing, there]
        exact ⟨rfl, twins.withTiles (added false)⟩
      · have records : t.tileRecords d' tile = t.tileRecords d tile := by
          rw [tileRecords, tileRecords, read]
        have after := twins.foldl_attach d d' (tileRecords_inRange t d tile) l k
        rw [found, there, records]
        exact ⟨rfl, after.withTiles (congrArg (Std.TreeMap.insert · tile.packed true) after.tiles)⟩
    · rw [if_pos ready, if_pos (same.isReady ▸ ready), same.map]
      exact ⟨rfl, twins⟩
  · rw [if_pos tiled, if_pos (same.isTiled ▸ tiled)]
    exact ⟨rfl, twins.withTiles (added false)⟩

theorem unloadTile (twins : Twins t u) (l k : Library) (files : SameTiles t.map d d') (tile : Tile) :
    Twins (t.unloadTile l d tile).1 (u.unloadTile k d' tile).1 := by
  simp only [MapTree.unloadTile, twins.tiles, twins.alike.tileRecords, tileRecords_same files tile]
  split
  · exact twins
  next hasFile loaded =>
    have after := twins.foldl_detach (if hasFile then (t.tileRecords d tile).1 else []) l k
    exact after.withTiles (congrArg (Std.TreeMap.erase · tile.packed) after.tiles)

end Twins

/-! ### Mirrors -/

/-- The map is the twin of one whose models are all as they are in the directory. -/
def Mirrors (d : Directory) (recordsOn : Tile → List Record) (loaded : List Tile) (left : List Record)
    (t : MapTree) : Prop :=
  ∃ u k, Twins u t ∧ Keeps d recordsOn loaded left [] (u, k)

namespace Mirrors

variable {recordsOn : Tile → List Record} {loaded : List Tile} {left : List Record}

theorem of_fresh (fresh : Fresh map t) (d : Directory) : Mirrors d (t.recordsOf d) [] [] t :=
  ⟨t, {}, .refl t, fresh.keeps (Library.serves_empty d) nofun⟩

/-- Which records a tile has does not depend on the models either. -/
theorem recordsOf (mirrors : Mirrors d recordsOn loaded left t) (same : SameTiles t.map d d')
    (tile : Tile) : t.recordsOf d' tile = recordsOn tile := by
  obtain ⟨u, k, twins, keeps⟩ := mirrors
  rw [← keeps.reads tile, ← twins.alike.recordsOf]
  simp only [MapTree.recordsOf, tileRecords_same same tile]

theorem loadNew (mirrors : Mirrors d recordsOn loaded left t) (small : tile.Small)
    (new : tile ∉ loaded) (same : SameTiles t.map d d') (library : Library) :
    Mirrors d recordsOn (tile :: loaded) left (t.loadTile library d' tile).2.1 := by
  obtain ⟨u, k, twins, keeps⟩ := mirrors
  rw [twins.alike.map] at same
  exact ⟨_, _, (twins.loadTile k library same tile).2, keeps.loadNew small new⟩

theorem loadAgain (mirrors : Mirrors d recordsOn loaded left t) (small : tile.Small)
    (listed : tile ∈ loaded) (same : SameTiles t.map d d') (library : Library) :
    Mirrors d recordsOn loaded (recordsOn tile ++ left) (t.loadTile library d' tile).2.1 := by
  obtain ⟨u, k, twins, keeps⟩ := mirrors
  rw [twins.alike.map] at same
  exact ⟨_, _, (twins.loadTile k library same tile).2, keeps.loadAgain small listed⟩

theorem unloadTile (mirrors : Mirrors d recordsOn loaded left t) (small : tile.Small)
    (same : SameTiles t.map d d') (library : Library) :
    Mirrors d recordsOn (loaded.erase tile) left (t.unloadTile library d' tile).1 := by
  obtain ⟨u, k, twins, keeps⟩ := mirrors
  rw [twins.alike.map] at same
  exact ⟨_, _, twins.unloadTile k library same tile, keeps.unloadTile small⟩

theorem isReady (mirrors : Mirrors d recordsOn loaded left t) : t.isReady = true := by
  obtain ⟨u, k, twins, keeps⟩ := mirrors
  exact twins.alike.isReady.trans keeps.isReady

/-- Unloading a tile takes off its records, if it is loaded. -/
theorem detached (mirrors : Mirrors d recordsOn loaded left t) (small : tile.Small)
    (same : SameTiles t.map d d') (library : Library) :
    (t.unloadTile library d' tile).2 =
      if tile ∈ loaded then ((recordsOn tile).foldl detach (t, library)).2 else library := by
  obtain ⟨u, k, twins, keeps⟩ := mirrors
  have listed := keeps.mem_tiles small
  rw [MapTree.unloadTile, twins.tiles]
  split
  next absent =>
    rw [absent] at listed
    rw [if_neg (by simp [← listed])]
  next hasFile present =>
    rw [if_pos (listed.mp ⟨hasFile, present⟩)]
    -- the twin has noted for the tile where its records are, and reads the same ones
    have noted := keeps.notes tile hasFile small present
    rw [Notes, keeps.reads tile, ← twins.alike.tileRecords d] at noted
    rw [← noted, tileRecords_same same tile]

theorem nodup (mirrors : Mirrors d recordsOn loaded left t) : loaded.Nodup := by
  obtain ⟨u, k, twins, keeps⟩ := mirrors
  exact keeps.nodup

theorem hasTile (mirrors : Mirrors d recordsOn loaded left t) (small : tile.Small) :
    t.hasTile tile = true ↔ tile ∈ loaded := by
  obtain ⟨u, k, twins, keeps⟩ := mirrors
  rw [← keeps.hasTile tile small, MapTree.hasTile, twins.tiles, MapTree.hasTile]

theorem useCount (mirrors : Mirrors d recordsOn loaded left t) (slot : Nat) :
    t.useCount slot =
      (loaded.flatMap recordsOn ++ left).countP fun record => record.slot = slot := by
  obtain ⟨u, k, twins, keeps⟩ := mirrors
  rw [twins.useCount, keeps.account.holds.uses slot]

theorem filled (mirrors : Mirrors d recordsOn loaded left t) (slot : Nat) :
    (t.occupant? slot).isSome = true ↔ 0 < t.useCount slot := by
  obtain ⟨u, k, twins, keeps⟩ := mirrors
  have placement := congrArg Option.isSome (twins.placements slot)
  rw [Option.isSome_map, Option.isSome_map] at placement
  rw [placement, keeps.account.holds.filled slot, twins.useCount]

end Mirrors

end Sightline.MapTree
