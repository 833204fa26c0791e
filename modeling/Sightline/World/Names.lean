/-!
# Names of files

Maps and tiles are numbered. A map has one file for its tree and one for each tile; a model has the
file of its name. Numbers are padded with zeros to a least width. A map knows its tiles by one word,
which holds the low halves of both coordinates.
-/
namespace Sightline

structure Tile where
  x : UInt32
  y : UInt32
deriving DecidableEq, Repr

/-- A number in decimal digits, with zeros in front up to the given width. -/
def padded (width : Nat) (n : UInt32) : String :=
  let digits := Nat.toDigits 10 n.toNat
  String.ofList (List.replicate (width - digits.length) '0' ++ digits)

def treeFileName (map : UInt32) : String := padded 3 map ++ ".vmtree"

def tileFileName (map : UInt32) (tile : Tile) : String :=
  padded 3 map ++ "_" ++ padded 2 tile.y ++ "_" ++ padded 2 tile.x ++ ".vmtile"

def modelFileName (model : String) : String := model ++ ".vmo"

/-- The name of a model's file seen from outside its folder. A name that begins with a slash does not
depend on the folder. -/
def modelPath (folder model : String) : String :=
  if model.toList.head? = some '/' then modelFileName model
  else folder ++ "/" ++ modelFileName model

namespace Tile

/-- The word by which a map knows the tile. -/
def packed (t : Tile) : UInt32 := t.x <<< 16 ||| t.y

def ofPacked (word : UInt32) : Tile := ⟨word >>> 16, word &&& 0xFFFF⟩

end Tile

end Sightline
