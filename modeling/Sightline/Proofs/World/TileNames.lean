import Sightline.Proofs.World.FileNames
import Sightline.Proofs.World.Tiles
import Mathlib.Logic.Function.Basic

/-!
# Tiles have names of their own

A tile is named twice: by the name of its file, for the whole folder, and by its word, on its map. No two
tiles share the name of a file, whatever their numbers. The word keeps the low halves of the coordinates,
so it gives back exactly those coordinates that are below 65536.
-/
namespace Sightline

theorem treeFileName_injective : Function.Injective treeFileName := by
  intro map map' same
  have files : FileName.tree map = .tree map' := FileName.text_injective same
  cases files
  rfl

theorem tileFileName_injective : Function.Injective2 tileFileName := by
  intro map map' tile tile' same
  have files : FileName.tile map tile = .tile map' tile' := FileName.text_injective same
  cases files
  exact ⟨rfl, rfl⟩

theorem treeFileName_ne_tileFileName (map map' : UInt32) (tile : Tile) :
    treeFileName map ≠ tileFileName map' tile := by
  intro same
  have files : FileName.tree map = .tile map' tile := FileName.text_injective same
  cases files

namespace Tile

theorem ofPacked_packed_iff {tile : Tile} : ofPacked tile.packed = tile ↔ tile.Small :=
  ⟨fun same => same ▸ small_ofPacked tile.packed, ofPacked_packed⟩

/-- Names of files tell maps, their trees and their tiles apart, and words the tiles of a map that have
coordinates below 65536. -/
theorem names_apart :
    Function.Injective2 tileFileName ∧ Function.Injective treeFileName ∧
    (∀ map map' tile, treeFileName map ≠ tileFileName map' tile) ∧
    (∀ tile : Tile, ofPacked tile.packed = tile ↔ tile.Small) ∧
    ∀ (map : UInt32) (tile tile' : Tile), tile.Small → tile'.Small → tile ≠ tile' →
      tile.packed ≠ tile'.packed ∧ tileFileName map tile ≠ tileFileName map tile' := by
  refine ⟨tileFileName_injective, treeFileName_injective, treeFileName_ne_tileFileName,
    fun tile => ofPacked_packed_iff, fun map tile tile' small small' differ => ⟨?_, ?_⟩⟩
  · intro same
    exact differ ((packed_inj small small').mp same)
  · intro same
    exact differ (tileFileName_injective same).2

/-- Two tiles whose names have the same digits in the same order. -/
theorem names_apart_sameDigits :
    tileFileName 4294967295 ⟨345, 12⟩ = "4294967295_12_345.vmtile" ∧
    tileFileName 4294967295 ⟨45, 123⟩ = "4294967295_123_45.vmtile" ∧
    ofPacked (packed ⟨345, 12⟩) = ⟨345, 12⟩ ∧
    packed ⟨345, 12⟩ ≠ packed ⟨45, 123⟩ ∧
    tileFileName 4294967295 ⟨345, 12⟩ ≠ tileFileName 4294967295 ⟨45, 123⟩ := by
  obtain ⟨-, -, -, backs, apart⟩ := names_apart
  have first : Small ⟨345, 12⟩ := by decide
  refine ⟨by decide +kernel, by decide +kernel, (backs _).mpr first, ?_⟩
  exact apart 4294967295 ⟨345, 12⟩ ⟨45, 123⟩ first (by decide) (by decide)

end Tile

end Sightline
