import Sightline.Mesh.Group

/-!
# Models

A model is made of groups, with a hierarchy over their boxes, one group to a leaf.
-/
namespace Sightline

structure Model where
  root : UInt32
  groups : Array Group := #[]
  tree : Hierarchy := .empty
deriving DecidableEq, Repr

/-- What lies below a point of a model. -/
structure ModelFloor where
  root : UInt32
  group : UInt32
  flags : UInt32
  distance : Single
deriving DecidableEq, Repr

namespace Model

/-- Gives the model its groups and builds the hierarchy over them. -/
def withGroups (m : Model) (groups : List Group) : Except Failure Model := do
  let tree ← Hierarchy.build (groups.map Group.bounds) 1
  return { m with groups := groups.toArray, tree }

/-- Tests one group; the memo tells whether any group was hit so far, and so does the answer. -/
def visitGroup (m : Model) (ray : Ray) (stop : Bool) : Hierarchy.Visitor Bool :=
  fun entry progress => do
    let group ← fetch m.groups entry
    let (hit, reach) ← group.castRay ray stop progress.reach
    let hit := progress.memo || hit
    return (hit, ⟨reach, hit⟩)

/-- Walks the hierarchy over the groups along a ray. -/
def castRayByTree (m : Model) (ray : Ray) (stop : Bool) (reach : Single) :
    Except Failure (Bool × Single) := do
  let progress ← m.tree.walkRay ray (m.visitGroup ray stop) stop ⟨reach, false⟩
  return (progress.memo, progress.reach)

/-- Tells whether a ray hits the model within its reach, and how far it goes until then. A group that
is alone is tested without a walk. -/
def castRay (m : Model) (ray : Ray) (stop : Bool) (reach : Single) :
    Except Failure (Bool × Single) :=
  match m.groups.toList with
  | [group] => group.castRay ray stop reach
  | _ => m.castRayByTree ray stop reach

/-- Keeps the nearer of the floor found so far and that of one group. -/
def visitFloor (m : Model) (p down : Vec) : Hierarchy.PointVisitor (Option (Nat × Single)) :=
  fun entry best => do
    let group ← fetch m.groups entry
    match ← group.floorBelow? p down, best with
    | none, _ => return best
    | some distance, none => return some (entry, distance)
    | some distance, some (_, least) =>
      return if distance < least then some (entry, distance) else best

/-- The number of the group whose floor is the nearest below a point, and the distance down to it. -/
def groupBelow? (m : Model) (p down : Vec) : Except Failure (Option (Nat × Single)) :=
  if m.groups.isEmpty then .ok none else m.tree.walkPoint p (m.visitFloor p down) none

/-- The floor below a point. -/
def floorBelow? (m : Model) (p down : Vec) : Except Failure (Option ModelFloor) := do
  match ← m.groupBelow? p down with
  | none => return none
  | some (index, distance) =>
    let group ← fetch m.groups index
    return some ⟨m.root, group.id, group.flags, distance⟩

/-! ### Stored models -/

/-- The bytes that every file begins with. -/
def magic : String := "VMAP_4.0"

/-- A model without groups ends after its number. -/
def pieces (m : Model) : List Piece :=
  .ok (Text.toBytes magic ++ Text.toBytes "WMOD" ++ Bytes.ofNat 8 ++ Bytes.ofWord m.root) ::
    if m.groups.isEmpty then []
    else
      .ok (Text.toBytes "GMOD") :: Bytes.counted m.groups.size [] ::
      (m.groups.toList.flatMap Group.pieces ++ .ok (Text.toBytes "GBIH") :: m.tree.pieces)

def toBytes (m : Model) : List UInt8 := (Output.ofPieces m.pieces).1

def reader : Reader Model := do
  Reader.label magic
  Reader.label "WMOD"
  let _ ← Reader.word
  let root ← Reader.word
  if ¬(← Reader.label? "GMOD") then return { root }
  let count ← Reader.count
  let groups ← Reader.array count Group.reader
  Reader.label "GBIH"
  let tree ← Hierarchy.reader
  tree.checkObjects groups.length
  return { root, groups := groups.toArray, tree }

end Model

end Sightline
