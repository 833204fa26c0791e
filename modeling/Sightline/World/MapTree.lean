import Sightline.Hierarchy.File
import Sightline.Placement.Basic
import Sightline.World.Library

/-!
# Maps

The tree of a map knows the boxes of all placements by the numbers of their slots. The placements
themselves come with the tiles: a loaded tile fills the slots it needs and shares them with other
tiles. Each slot counts its uses and is cleared with the last one. A tile that cannot be read to its
end is loaded as far as it can be, and unloading reads it again just as far.
-/
namespace Sightline

/-- A placement with the handle of its model; the handle is missing if the model could not be loaded. -/
structure Occupant where
  placement : Placement
  handle : Option Handle
deriving DecidableEq, Repr

structure MapTree where
  map : UInt32
  isTiled : Bool := false
  isReady : Bool := false
  tree : Hierarchy := .empty
  slots : Array (Option Occupant) := #[]
  /-- The words of the loaded tiles, and whether each of them has a file. -/
  tiles : Std.TreeMap UInt32 Bool := ∅
  uses : Std.TreeMap Nat Nat := ∅

/-- One entry of a tile: a placement and the slot it belongs in. -/
structure Record where
  placement : Placement
  slot : Nat
deriving DecidableEq, Repr

namespace MapTree

def useCount (t : MapTree) (slot : Nat) : Nat := t.uses[slot]?.getD 0

def occupant? (t : MapTree) (slot : Nat) : Option Occupant := t.slots[slot]?.join

def hasTile (t : MapTree) (tile : Tile) : Bool := t.tiles.contains tile.packed

/-! ### The file of the map -/

/-- Tells whether the map has tiles. -/
def headReader : Reader Bool := do
  Reader.label Model.magic
  return (← Reader.byte) ≠ 0

def treeReader : Reader Hierarchy := do
  Reader.label "NODE"
  let tree ← Hierarchy.reader
  tree.checkObjects tree.objects.size
  return tree

/-- The placement that covers a map without tiles. -/
def globalReader (isTiled : Bool) : Reader (Option Placement) := do
  Reader.label "GOBJ"
  if isTiled then return none else Placement.reader?

/-- Fills the first slot, which belongs to the placement that covers the map. -/
def placeGlobal (t : MapTree) (library : Library) (d : Directory) (p : Placement) :
    Except Fault Unit × MapTree × Library :=
  if t.slots.isEmpty then (.error (.slotOutOfRange 0 0), t, library)
  else
    match library.acquire d p.model with
    | (.error fault, library) => (.error fault, t, library)
    | (.ok handle, library) =>
      let slots := t.slots.setIfInBounds 0 (some ⟨p, some handle⟩)
      (.ok (), { t with slots, uses := t.uses.insert 0 1 }, library)

/-- Reads the file of the map. What was read before a fault is kept. -/
def openFile (t : MapTree) (library : Library) (d : Directory) :
    Except Fault Unit × MapTree × Library :=
  match d.read (treeFileName t.map) >>= headReader.run with
  | .error fault => (.error fault, t, library)
  | .ok (isTiled, rest) =>
    let t := { t with isTiled }
    match treeReader.run rest with
    | .error fault => (.error fault, t, library)
    | .ok (tree, rest) =>
      let slots := Array.replicate tree.objects.size none
      let t := { t with tree, slots, isReady := true }
      match (globalReader isTiled).run rest with
      | .error fault => (.error fault, t, library)
      | .ok (none, _) => (.ok (), t, library)
      | .ok (some p, _) => t.placeGlobal library d p

/-! ### The files of the tiles -/

def recordReader (slots : Nat) : Reader Record := do
  match ← Placement.reader? with
  | none => throw .truncated
  | some placement =>
    let slot ← Reader.count
    if slots ≤ slot then throw (.slotOutOfRange slot slots)
    return ⟨placement, slot⟩

/-- The records up to the first fault, and the fault. -/
def readRecords (slots : Nat) : Nat → List UInt8 → List Record × Except Fault Unit
  | 0, _ => ([], .ok ())
  | count + 1, bytes =>
    match (recordReader slots).run bytes with
    | .error fault => ([], .error fault)
    | .ok (record, rest) =>
      let (records, outcome) := readRecords slots count rest
      (record :: records, outcome)

def tileHeadReader : Reader Nat := do
  Reader.label Model.magic
  Reader.count

/-- The records in the file of a tile, up to the first fault, and the fault. -/
def tileRecords (t : MapTree) (d : Directory) (tile : Tile) : List Record × Except Fault Unit :=
  match d.read (tileFileName t.map tile) >>= tileHeadReader.run with
  | .error fault => ([], .error fault)
  | .ok (count, rest) => readRecords t.slots.size count rest

/-- Adds one use to the slot of a record; the first use fills the slot. -/
def attach (d : Directory) (state : MapTree × Library) (record : Record) : MapTree × Library :=
  let (t, library) := state
  let (acquired, library) := library.acquire d record.placement.model
  let count := t.useCount record.slot
  let slots :=
    if count = 0 then
      t.slots.setIfInBounds record.slot (some ⟨record.placement, acquired.toOption⟩)
    else t.slots
  ({ t with slots, uses := t.uses.insert record.slot (count + 1) }, library)

/-- Takes one use from the slot of a record; the last use clears the slot. -/
def detach (state : MapTree × Library) (record : Record) : MapTree × Library :=
  let (t, library) := state
  let library := library.release record.placement.model
  let count := t.useCount record.slot
  if count ≤ 1 then
    let slots := if count = 0 then t.slots else t.slots.setIfInBounds record.slot none
    ({ t with slots, uses := t.uses.erase record.slot }, library)
  else ({ t with uses := t.uses.insert record.slot (count - 1) }, library)

/-- Loads a tile. Tiles without a file, and all tiles of a map without tiles, only count as loaded. -/
def loadTile (t : MapTree) (library : Library) (d : Directory) (tile : Tile) :
    Except Fault Unit × MapTree × Library :=
  if ¬t.isTiled then (.ok (), { t with tiles := t.tiles.insert tile.packed false }, library)
  else if ¬t.isReady then (.error (.notInitialized t.map.toNat), t, library)
  else
    match d.find (tileFileName t.map tile) with
    | .error _ => (.ok (), { t with tiles := t.tiles.insert tile.packed false }, library)
    | .ok _ =>
      let (records, outcome) := t.tileRecords d tile
      let (t, library) := records.foldl (attach d) (t, library)
      (outcome, { t with tiles := t.tiles.insert tile.packed true }, library)

def unloadTile (t : MapTree) (library : Library) (d : Directory) (tile : Tile) :
    MapTree × Library :=
  match t.tiles[tile.packed]? with
  | none => (t, library)
  | some hasFile =>
    let records := if hasFile then (t.tileRecords d tile).1 else []
    let (t, library) := records.foldl detach (t, library)
    ({ t with tiles := t.tiles.erase tile.packed }, library)

/-- Clears a slot and takes all its uses from the model. -/
def clearSlot (state : Array (Option Occupant) × Library) (use : Nat × Nat) :
    Array (Option Occupant) × Library :=
  match state.1[use.1]?.join with
  | none => state
  | some occupant =>
    (state.1.setIfInBounds use.1 none, state.2.releaseTimes occupant.placement.model use.2)

def unloadAll (t : MapTree) (library : Library) : MapTree × Library :=
  let (slots, library) := t.uses.toList.foldl clearSlot (t.slots, library)
  ({ t with slots, tiles := ∅, uses := ∅ }, library)

/-- Tells whether the files begin as those of a map and of a tile. A map without tiles needs no file
of a tile. -/
def canLoad (d : Directory) (map : UInt32) (tile : Tile) : Bool :=
  match d.read (treeFileName map) >>= headReader.run with
  | .error _ => false
  | .ok (false, _) => true
  | .ok (true, _) =>
    match d.read (tileFileName map tile) >>= (Reader.label Model.magic).run with
    | .error _ => false
    | .ok _ => true

end MapTree

end Sightline
