import Sightline.Bytes.Reader
import Sightline.Bytes.Writer
import Sightline.Mesh.Triangle

/-!
# Liquids

The surface of a liquid is given over a grid of square tiles: a height at every corner, row by row, and
a byte of flags for every tile. A tile whose four low flags are all set has no liquid.
-/
namespace Sightline

structure Liquid where
  tilesX : UInt32
  tilesY : UInt32
  corner : Vec
  kind : UInt32
  heights : Array Single
  flags : Array UInt8
deriving DecidableEq, Repr

namespace Liquid

/-- The length of a tile's side. -/
def tileSize : Single := 533.333 / 128

def cornerCount (tilesX tilesY : UInt32) : Nat := (tilesX.toNat + 1) * (tilesY.toNat + 1)

def tileCount (tilesX tilesY : UInt32) : Nat := tilesX.toNat * tilesY.toNat

/-- A liquid of height zero on all tiles. -/
def flat (tilesX tilesY : UInt32) (corner : Vec) (kind : UInt32) : Liquid :=
  ⟨tilesX, tilesY, corner, kind, Array.replicate (cornerCount tilesX tilesY) 0,
    Array.replicate (tileCount tilesX tilesY) 0⟩

/-- Puts the given values in the place of the first ones. -/
def overlay {α : Type} (given : List α) (list : Array α) : Array α :=
  (given.take list.size ++ list.toList.drop given.length).toArray

/-- Sets the first heights and flags. -/
def withSurface (l : Liquid) (heights : List Single) (flags : List UInt8) : Liquid :=
  { l with heights := overlay heights l.heights, flags := overlay flags l.flags }

/-- A place on one axis of the grid, in tiles, if it is on the grid. -/
def place? (position start : Single) (tiles : UInt32) : Option Single :=
  let place := (position - start) / tileSize
  if place.isNaN ∨ place < 0 ∨ tiles ≤ place.toWord then none else some place

/-- The height of the surface in a tile, at a place in it. The diagonal from the first corner parts a
tile in two planes. -/
def heightInTile (l : Liquid) (x y : Nat) (dx dy : Single) : Except Failure Single := do
  let row := l.tilesX.toNat + 1
  let height (x y : Nat) : Except Failure Single := fetch l.heights (x + y * row)
  let h00 ← height x y
  let h11 ← height (x + 1) (y + 1)
  if dy < dx then
    let h10 ← height (x + 1) y
    return h00 + dx * (h10 - h00) + dy * (h11 - h10)
  else
    let h01 ← height x (y + 1)
    return h00 + dx * (h11 - h01) + dy * (h01 - h00)

/-- The height of the surface at a point, unless the point is off the grid or its tile is empty. -/
def surfaceAt? (l : Liquid) (p : Vec) : Except Failure (Option Single) :=
  match place? p.x l.corner.x l.tilesX, place? p.y l.corner.y l.tilesY with
  | some placeX, some placeY => do
    let x := placeX.toWord.toNat
    let y := placeY.toWord.toNat
    let flags ← fetch l.flags (x + y * l.tilesX.toNat)
    if flags &&& 0x0F = 0x0F then return none
    else
      return some (← l.heightInTile x y (placeX - Single.ofNat x) (placeY - Single.ofNat y))
  | _, _ => .ok none

/-- The size that is stored before a liquid. It leaves the word of the kind out. -/
def storedSize (l : Liquid) : Nat :=
  min (20 + 4 * cornerCount l.tilesX l.tilesY + tileCount l.tilesX l.tilesY) 0xffffffff

def toBytes (l : Liquid) : List UInt8 :=
  Bytes.ofWord l.tilesX ++ Bytes.ofWord l.tilesY ++ Bytes.ofVec l.corner ++ Bytes.ofWord l.kind ++
    l.heights.toList.flatMap Bytes.ofSingle ++ l.flags.toList

def reader : Reader Liquid := do
  let tilesX ← Reader.word
  let tilesY ← Reader.word
  let corner ← Reader.vec
  let kind ← Reader.word
  let corners := cornerCount tilesX tilesY
  if UInt64.size ≤ corners then throw (.corruptModel (.liquidTooLarge tilesX.toNat tilesY.toNat))
  let heights ← Reader.array corners Reader.single
  let flags ← Reader.bytes (tileCount tilesX tilesY)
  return ⟨tilesX, tilesY, corner, kind, heights.toArray, flags.toArray⟩

end Liquid

end Sightline
