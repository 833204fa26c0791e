import Sightline.Bytes.Reader
import Sightline.Bytes.Writer

/-!
# Placements

A placement puts the model of a file at a position of a map, turned and scaled. Its flags tell what
the placement is and whether its record has a box.
-/
namespace Sightline

structure Placement where
  flags : UInt32 := 0
  /-- The tile of terrain that the placement belongs to. -/
  terrain : UInt16 := 0
  id : UInt32 := 0
  position : Vec := .zero
  /-- Angles in degrees. -/
  angles : Vec := .zero
  scale : Single := 1
  /-- The box around the placed model, in the space of the map. -/
  bounds : Box := .zero
  model : String := ""
deriving DecidableEq, Repr

namespace Placement

/-- Marks small models, which have no area of their own. -/
def doodad : UInt32 := 1

/-- Marks models that stand in the file of the map and not in one of its tiles. -/
def mapWide : UInt32 := 2

/-- Marks records with a box. -/
def bounded : UInt32 := 4

/-- Tells whether the flags of a placement include a mark. -/
def Has (p : Placement) (mark : UInt32) : Prop := p.flags &&& mark = mark

instance (p : Placement) (mark : UInt32) : Decidable (p.Has mark) :=
  inferInstanceAs (Decidable (_ = _))

/-- The greatest length of a name in a record, in bytes. -/
def longestName : Nat := 500

def fixedBytes (p : Placement) : List UInt8 :=
  Bytes.ofWord p.flags ++ Bytes.ofHalf p.terrain ++ Bytes.ofWord p.id ++ Bytes.ofVec p.position ++
    Bytes.ofVec p.angles ++ Bytes.ofSingle p.scale

/-- The record of a placement. One whose name is too long has no record. -/
def toBytes? (p : Placement) : Piece := do
  let length ← Bytes.count? (Text.byteLength p.model)
  if longestName < length.toNat then throw (.nameRefused p.model)
  return p.fixedBytes ++ (if p.Has bounded then Bytes.ofBox p.bounds else []) ++
    Bytes.ofWord length ++ Text.toBytes p.model

def checkScale (id : UInt32) (scale : Single) : Except Fault Unit :=
  if scale.isFinite ∧ 0 < scale then .ok ()
  else .error (.corruptModel (.invalidScale id.toNat scale))

def nameReader : Reader String := do
  let length ← Reader.count
  if longestName < length then throw (.nameTooLong length)
  return Text.ofBytes (← Reader.bytes length)

def reader : Reader Placement := do
  let flags ← Reader.word
  let terrain ← Reader.half
  let id ← Reader.word
  let position ← Reader.vec
  let angles ← Reader.vec
  let scale ← Reader.single
  checkScale id scale
  let start : Placement := { flags, terrain, id, position, angles, scale }
  let bounds ← if start.Has bounded then Reader.box else pure .zero
  return { start with bounds, model := ← nameReader }

/-- Reads the next record of a list that ends with the bytes. -/
def reader? : Reader (Option Placement) := Reader.orEnd? reader

end Placement

end Sightline
