import Sightline.Geometry.Rotation
import Sightline.Hierarchy.Build
import Sightline.Hierarchy.File
import Sightline.Mesh.Raw
import Sightline.Placement.Basic
import Sightline.World.Directory
import Sightline.World.Names

/-!
# Assembling maps

An assembly collects placements by map and tile, and raw models by name, and writes the files of maps,
tiles and models. The slots of a map are numbered in the order of its placements' numbers, which is
also the order of the boxes in its tree.
-/
namespace Sightline

structure MapPlan where
  placements : Std.TreeMap UInt32 Placement := ∅
  /-- The numbers of the placements on each tile, in the order in which they were added. -/
  tiles : Std.TreeMap UInt32 (List UInt32) := ∅

structure Assembly where
  maps : Std.TreeMap UInt32 MapPlan := ∅
  models : Std.TreeMap String RawModel := ∅

namespace MapPlan

/-- Puts a placement on a tile. Of several placements of one number the first one counts. -/
def add (m : MapPlan) (tile : Tile) (p : Placement) : MapPlan :=
  let ids := m.tiles[tile.packed]?.getD []
  { placements := m.placements.insertIfNew p.id p,
    tiles := m.tiles.insert tile.packed (if p.id ∈ ids then ids else ids ++ [p.id]) }

/-- The word of the tile that holds the placement of a map without terrain. -/
def globalTile : UInt32 := Tile.packed ⟨65, 65⟩

def onTile (m : MapPlan) (ids : List UInt32) : List Placement :=
  ids.filterMap fun id => m.placements[id]?

def slotOf (m : MapPlan) (id : UInt32) : Nat := m.placements.keys.idxOf id

end MapPlan

/-- Writes a file. What was written before a fault stays. -/
def Output.save (output : Output) (d : Directory) (name : String) :
    Except Fault Unit × Directory :=
  match d.write name output.1 with
  | .error fault => (.error fault, d)
  | .ok d => (output.2, d)

namespace Assembly

def addPlacement (a : Assembly) (map : UInt32) (tile : Tile) (p : Placement) : Assembly :=
  { a with maps := a.maps.insert map ((a.maps[map]?.getD {}).add tile p) }

def addModel (a : Assembly) (name : String) (model : RawModel) : Assembly :=
  { a with models := a.models.insert name model }

/-! ### Boxes of placements -/

/-- The offset of placements that are not on a tile: from the corner of a map to its middle. -/
def middle : Single := 533.33333 * 32

def hull? : List Vec → Option Box
  | [] => none
  | first :: rest => some (rest.foldl Box.insert (.ofPoint first))

/-- Gives a placement the box around its model, turned, scaled and moved to its position. -/
def boundByModel (p : Placement) (model : RawModel) : Except Fault Placement :=
  let turn := Matrix.ofPlacement p.angles
  match hull? (model.vertices.map fun v => turn.apply (v.scale p.scale)) with
  | none => .error (.corruptModel (.noGeometry p.model))
  | some box =>
    .ok { p with bounds := box.translate p.position, flags := p.flags ||| Placement.bounded }

/-- Settles the box of a placement. Doodads, and placements without a box, get one from their model;
boxes given from the corner of the map are moved to the middle. -/
def settle (models : Std.TreeMap String RawModel) (p : Placement) : Except Fault Placement :=
  if p.Has Placement.doodad ∨ ¬p.Has Placement.bounded then
    match models[p.model]? with
    | none => .error (.modelNotLoaded p.model)
    | some model => boundByModel p model
  else if p.Has Placement.mapWide then
    .ok { p with bounds := p.bounds.translate ⟨middle, middle, 0⟩ }
  else .ok p

def settleAll (models : Std.TreeMap String RawModel) :
    List Placement → Std.TreeMap UInt32 Placement →
      Except Fault Unit × Std.TreeMap UInt32 Placement
  | [], placements => (.ok (), placements)
  | p :: rest, placements =>
    match settle models p with
    | .error fault => (.error fault, placements)
    | .ok settled => settleAll models rest (placements.insert p.id settled)

/-! ### Files -/

/-- The file of a map's tree. The placements of a map without terrain follow the tree. -/
def treeOutput (m : MapPlan) (tree : Hierarchy) : Output :=
  let globals := m.tiles[MapPlan.globalTile]?
  .ofPieces (.ok (Text.toBytes Model.magic ++ [if globals.isNone then 1 else 0] ++
      Text.toBytes "NODE") ::
    (tree.pieces ++ .ok (Text.toBytes "GOBJ") ::
      (m.onTile (globals.getD [])).map Placement.toBytes?))

def recordBytes? (m : MapPlan) (p : Placement) : Piece := do
  return (← p.toBytes?) ++ Bytes.ofNat (m.slotOf p.id)

/-- The file of a tile; there is none for a tile without placements of its own. -/
def tileOutput? (m : MapPlan) (ids : List UInt32) : Option Output :=
  match (m.onTile ids).filter fun p => ¬p.Has Placement.mapWide with
  | [] => none
  | own =>
    some (.ofPieces (.ok (Text.toBytes Model.magic) :: Bytes.counted own.length [] ::
      own.map (recordBytes? m)))

def writeTiles (map : UInt32) (m : MapPlan) :
    List (UInt32 × List UInt32) → Directory → Except Fault Unit × Directory
  | [], d => (.ok (), d)
  | (word, ids) :: rest, d =>
    match tileOutput? m ids with
    | none => writeTiles map m rest d
    | some output =>
      match output.save d (tileFileName map (.ofPacked word)) with
      | (.error fault, d) => (.error fault, d)
      | (.ok (), d) => writeTiles map m rest d

def writeMap (map : UInt32) (m : MapPlan) (d : Directory) :
    Except Failure (Except Fault Unit × Directory) := do
  let tree ← Hierarchy.build (m.placements.values.map Placement.bounds) Hierarchy.defaultLeafSize
  match (treeOutput m tree).save d (treeFileName map) with
  | (.error fault, d) => return (.error fault, d)
  | (.ok (), d) => return writeTiles map m m.tiles.toList d

def writeMaps (a : Assembly) (d : Directory) :
    List (UInt32 × MapPlan) → Except Failure (Except Fault Unit × Assembly × Directory)
  | [] => .ok (.ok (), a, d)
  | (map, m) :: rest => do
    let (settled, placements) := settleAll a.models m.placements.values m.placements
    let m := { m with placements }
    let a := { a with maps := a.maps.insert map m }
    match settled with
    | .error fault => return (.error fault, a, d)
    | .ok () =>
      match ← writeMap map m d with
      | (.error fault, d) => return (.error fault, a, d)
      | (.ok (), d) => a.writeMaps d rest

def writeModels (models : Std.TreeMap String RawModel) :
    List String → Directory → Except Failure (Except Fault Unit × Directory)
  | [], d => .ok (.ok (), d)
  | name :: rest, d =>
    match models[name]? with
    | none => .ok (.error (.modelNotLoaded name), d)
    | some raw => do
      match (Output.ofPieces (← raw.toModel).pieces).save d (modelFileName name) with
      | (.error fault, d) => return (.error fault, d)
      | (.ok (), d) => writeModels models rest d

/-- The names of all placed models, in order and each once. -/
def placedModels (a : Assembly) : List String :=
  let names := a.maps.values.flatMap fun m => m.placements.values.map Placement.model
  (names.foldl (fun (set : Std.TreeMap String Unit) name => set.insert name ()) ∅).keys

/-- Writes the files of all maps, then those of all placed models. The boxes settled and the files
written before a fault stay. -/
def write (a : Assembly) (d : Directory) :
    Except Failure (Except Fault Unit × Assembly × Directory) := do
  match ← a.writeMaps d a.maps.toList with
  | (.error fault, a, d) => return (.error fault, a, d)
  | (.ok (), a, d) =>
    let (outcome, d) ← writeModels a.models a.placedModels d
    return (outcome, a, d)

end Assembly

end Sightline
