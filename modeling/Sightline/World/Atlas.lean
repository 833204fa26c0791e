import Sightline.World.MapQuery

/-!
# The atlas

The atlas holds the maps in use and one library for all of them. A map is opened with its first tile
and closed with its last one. Points come in the coordinates of the world, which run against those of
the maps in `x` and `y`. Questions can be switched off, for all maps or for a single one.
-/
namespace Sightline

structure Atlas where
  maps : Std.TreeMap UInt32 MapTree := ∅
  library : Library := {}
  /-- The questions that are switched off, for each map. -/
  disabled : Std.TreeMap UInt32 UInt32 := ∅
  /-- Questions about sight are answered. -/
  sight : Bool := true
  /-- Questions about height are answered. -/
  height : Bool := true

inductive LoadResult where
  | ok
  | error
  /-- Nothing was loaded, since no question would be answered. -/
  | ignored
deriving DecidableEq, Repr

/-- A surface of liquid at a point, and the floor below the point. -/
structure LiquidLevel where
  level : Single
  floor : Single
  /-- The kind of liquid as one bit. -/
  mask : UInt32
deriving DecidableEq, Repr

namespace Atlas

/-- Half the length of a map's side: 64 tiles, from the middle to one end. -/
def halfSide : Single := 0.5 * 64 * 533.33333

/-- Takes points of the world to points of a map, and back. -/
def reflect (p : Vec) : Vec := ⟨halfSide - p.x, halfSide - p.y, p.z⟩

/-! ### Switches -/

/-- The bits of the questions about a map. -/
def areaQuestion : UInt32 := 1

def heightQuestion : UInt32 := 2

def sightQuestion : UInt32 := 4

def liquidQuestion : UInt32 := 8

def disable (a : Atlas) (map flags : UInt32) : Atlas :=
  if flags = 0 then { a with disabled := a.disabled.erase map }
  else { a with disabled := a.disabled.insert map flags }

def isDisabled (a : Atlas) (map question : UInt32) : Bool :=
  a.disabled[map]?.getD 0 &&& question ≠ 0

/-- Maps are loaded only if a question about them may be answered. -/
def loadsMaps (a : Atlas) : Bool := a.sight || a.height

/-! ### Loading -/

/-- Opens a map unless it is open. A map that cannot be opened gives back what it took, and only the
library is left. -/
def openMap (a : Atlas) (d : Directory) (map : UInt32) :
    Except Library (MapTree × Library) :=
  match a.maps[map]? with
  | some tree => .ok (tree, a.library)
  | none =>
    match MapTree.openFile { map } a.library d with
    | (.error _, tree, library) => .error (tree.unloadAll library).2
    | (.ok (), tree, library) => .ok (tree, library)

def loadTile (a : Atlas) (d : Directory) (map : UInt32) (tile : Tile) : LoadResult × Atlas :=
  if ¬a.loadsMaps then (.ignored, a)
  else
    match a.openMap d map with
    | .error library => (.error, { a with library })
    | .ok (tree, library) =>
      let (outcome, tree, library) := tree.loadTile library d tile
      (if outcome.isOk then .ok else .error,
        { a with maps := a.maps.insert map tree, library })

/-- Keeps a map that has tiles, and closes one that has none left. -/
def keepOrClose (a : Atlas) (map : UInt32) (tree : MapTree) (library : Library) : Atlas :=
  if tree.tiles.isEmpty then
    { a with maps := a.maps.erase map, library := (tree.unloadAll library).2 }
  else { a with maps := a.maps.insert map tree, library }

def unloadTile (a : Atlas) (d : Directory) (map : UInt32) (tile : Tile) : Atlas :=
  match a.maps[map]? with
  | none => a
  | some tree =>
    let (tree, library) := tree.unloadTile a.library d tile
    a.keepOrClose map tree library

def unloadMap (a : Atlas) (map : UInt32) : Atlas :=
  match a.maps[map]? with
  | none => a
  | some tree =>
    let (tree, library) := tree.unloadAll a.library
    a.keepOrClose map tree library

/-! ### Questions -/

/-- The map that a question goes to, unless the question is switched off or the map is not open. -/
def asked? (a : Atlas) (map question : UInt32) : Option MapTree :=
  if a.isDisabled map question then none else a.maps[map]?

def sees (a : Atlas) (map : UInt32) (start goal : Vec) : Except Failure Bool :=
  match if a.sight then a.asked? map sightQuestion else none with
  | none => .ok true
  | some tree =>
    if (reflect start).Same (reflect goal) then .ok true
    else tree.sees a.library (reflect start) (reflect goal)

/-- The answer where no height is known. -/
def noHeight : Single := -200000

def leastHeight : Single := -100000

def heightBelow (a : Atlas) (map : UInt32) (point : Vec) (reach : Single) :
    Except Failure Single :=
  match if a.height then a.asked? map heightQuestion else none with
  | none => .ok noHeight
  | some tree => do
    let height ← tree.heightBelow a.library (reflect point) reach
    return if height < .infinity then height else noHeight

/-- The first hit on the way from one point to another, moved along the way by `shift`. -/
def hitBetween? (a : Atlas) (map : UInt32) (start goal : Vec) (shift : Single) :
    Except Failure (Option Vec) :=
  match if a.sight then a.asked? map sightQuestion else none with
  | none => .ok none
  | some tree => do
    let hit ← tree.hitBetween? a.library (reflect start) (reflect goal) shift
    return hit.map reflect

def area? (a : Atlas) (map : UInt32) (point : Vec) : Except Failure (Option Area) :=
  match a.asked? map areaQuestion with
  | none => .ok none
  | some tree => tree.area? a.library (reflect point)

/-- The area at a point, and the point moved to the height of its floor. A point without an area stays. -/
def land (a : Atlas) (map : UInt32) (point : Vec) : Except Failure (Option Area × Vec) := do
  let area ← a.area? map point
  return (area, { point with z := (area.map Area.height).getD point.z })

/-- The liquid at a point, in the group of the highest floor below the point. If kinds are asked for,
others are passed over. -/
def liquid? (a : Atlas) (map : UInt32) (point : Vec) (kinds : UInt8) :
    Except Failure (Option LiquidLevel) :=
  match a.asked? map liquidQuestion with
  | none => .ok none
  | some tree => do
    match ← tree.location? a.library (reflect point) with
    | none => return none
    | some location =>
      let group ← fetch location.model.groups location.group
      let mask := group.liquidMask
      if kinds ≠ 0 ∧ mask &&& kinds.toUInt32 = 0 then return none
      else
        let level ← location.placement.liquidLevel? group (reflect point)
        return level.map fun level => ⟨level, location.height, mask⟩

end Atlas

end Sightline
