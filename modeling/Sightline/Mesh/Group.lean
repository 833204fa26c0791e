import Sightline.Hierarchy.Build
import Sightline.Hierarchy.File
import Sightline.Hierarchy.PointWalk
import Sightline.Mesh.Liquid

/-!
# Groups

A group is a mesh of triangles with a hierarchy over them, a box, an identity, and perhaps a liquid.
-/
namespace Sightline

structure Group where
  bounds : Box
  flags : UInt32
  id : UInt32
  vertices : Array Vec := #[]
  triangles : Array Triangle := #[]
  tree : Hierarchy := .empty
  liquid : Option Liquid := none
deriving DecidableEq, Repr

namespace Group

/-- The boxes of triangles over a list of vertices. -/
def triangleBoxes (vertices : Array Vec) (triangles : List Triangle) : Except Failure (List Box) :=
  triangles.mapM fun t => do return (← t.corners vertices).bounds

/-- Gives the group a mesh and builds the hierarchy over its triangles. -/
def withMesh (g : Group) (vertices : List Vec) (triangles : List Triangle) :
    Except Failure Group := do
  let boxes ← triangleBoxes vertices.toArray triangles
  let tree ← Hierarchy.build boxes Hierarchy.defaultLeafSize
  return { g with vertices := vertices.toArray, triangles := triangles.toArray, tree }

/-- Tests one triangle; the memo tells whether any triangle was hit so far, and so does the answer. -/
def visitTriangle (g : Group) (ray : Ray) : Hierarchy.Visitor Bool := fun entry progress => do
  let triangle ← fetch g.triangles entry
  match ← triangle.hitWithin? g.vertices ray progress.reach with
  | some time => return (true, ⟨time, true⟩)
  | none => return (progress.memo, progress)

/-- Tells whether a ray hits the group within its reach, and how far it goes until then. With `stop`
any hit will do, otherwise it is the first one. -/
def castRay (g : Group) (ray : Ray) (stop : Bool) (reach : Single) :
    Except Failure (Bool × Single) :=
  if g.triangles.isEmpty then .ok (false, reach)
  else do
    let progress ← g.tree.walkRay ray (g.visitTriangle ray) stop ⟨reach, false⟩
    return (progress.memo, progress.reach)

/-- Downward rays start this much above their point, so that they meet a floor at the point. -/
def lift : Single := 0.1

/-- The distance from a point in the box of the group down to its nearest triangle. -/
def floorBelow? (g : Group) (p down : Vec) : Except Failure (Option Single) :=
  if g.triangles.isEmpty || !decide (g.bounds.Contains p) then .ok none
  else do
    let ray := Ray.ofDirection (p.along (-lift) down) down
    let (hit, distance) ← g.castRay ray false .infinity
    return if hit then some (distance - lift) else none

def liquidLevel? (g : Group) (p : Vec) : Except Failure (Option Single) :=
  match g.liquid with
  | some liquid => liquid.surfaceAt? p
  | none => .ok none

/-- The kind of liquid as one bit of a word; no bit without liquid, or for kinds above 31. -/
def liquidMask (g : Group) : UInt32 :=
  match g.liquid with
  | some liquid => if liquid.kind < 32 then 1 <<< liquid.kind else 0
  | none => 0

/-! ### Stored groups -/

/-- The size of a list that is stored after its length. -/
def listSize (items : Nat) : Nat := 4 + 12 * items

/-- The size and the length of a list, which stand before it. -/
def listHead (items : Nat) : Piece :=
  (Bytes.count? items).map fun count => Bytes.ofNat (listSize items) ++ Bytes.ofWord count

def triangleBytes (t : Triangle) : List UInt8 :=
  Bytes.ofNat t.a ++ Bytes.ofNat t.b ++ Bytes.ofNat t.c

def liquidBytes : Option Liquid → List UInt8
  | none => Bytes.ofNat 0
  | some liquid => Bytes.ofNat liquid.storedSize ++ liquid.toBytes

/-- A group without vertices ends after their number. -/
def pieces (g : Group) : List Piece :=
  .ok (Bytes.ofBox g.bounds ++ Bytes.ofWord g.flags ++ Bytes.ofWord g.id ++ Text.toBytes "VERT") ::
    listHead g.vertices.size ::
    if g.vertices.isEmpty then []
    else
      .ok (g.vertices.toList.flatMap Bytes.ofVec ++ Text.toBytes "TRIM") ::
      listHead g.triangles.size ::
      .ok (g.triangles.toList.flatMap triangleBytes ++ Text.toBytes "MBIH") ::
      (g.tree.pieces ++ [.ok (Text.toBytes "LIQU" ++ liquidBytes g.liquid)])

def toBytes (g : Group) : List UInt8 := (Output.ofPieces g.pieces).1

def triangleReader : Reader Triangle := do
  return ⟨← Reader.count, ← Reader.count, ← Reader.count⟩

/-- Checks that triangles name existing vertices. -/
def checkVertices (id : UInt32) (vertices : Nat) (triangles : List Triangle) : Except Fault Unit :=
  match (triangles.flatMap fun t => [t.a, t.b, t.c]).find? fun vertex => vertices ≤ vertex with
  | some vertex => .error (.corruptModel (.vertexOutOfRange id.toNat vertex vertices))
  | none => .ok ()

def reader : Reader Group := do
  let bounds ← Reader.box
  let flags ← Reader.word
  let id ← Reader.word
  Reader.label "VERT"
  let _ ← Reader.word
  let vertexCount ← Reader.count
  if vertexCount = 0 then return { bounds, flags, id }
  let vertices ← Reader.array vertexCount Reader.vec
  Reader.label "TRIM"
  let _ ← Reader.word
  let triangleCount ← Reader.count
  let triangles ← Reader.array triangleCount triangleReader
  checkVertices id vertexCount triangles
  Reader.label "MBIH"
  let tree ← Hierarchy.reader
  tree.checkObjects triangleCount
  Reader.label "LIQU"
  let size ← Reader.word
  let liquid ← if 0 < size then some <$> Liquid.reader else pure none
  return { bounds, flags, id, vertices := vertices.toArray, triangles := triangles.toArray, tree, liquid }

end Group

end Sightline
