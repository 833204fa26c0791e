import Sightline.Bytes.Reader
import Sightline.Bytes.Writer
import Sightline.Hierarchy.Basic

/-!
# Stored hierarchies

A node is stored in three words. The first holds the axis in its two highest bits, three for a leaf,
then a bit for `narrow` nodes, then 29 bits: the first object of a leaf, or the place of the child,
counted in words. The second word of a leaf is its number of objects; inner nodes have their two
clips there. A reader accepts a hierarchy only if every leaf lies within the objects and every child
behind a finite clip stands later in the array than its parent.
-/
namespace Sightline

namespace Node

/-- The bits of the first word below axis and mark. -/
def offsetBits : Nat := 0x20000000

/-- The first word of a node. An offset of more than 29 bits runs into the other fields. -/
def header (axisBits : Nat) (isNarrow : Bool) (offset : Nat) : UInt32 :=
  UInt32.ofNat (axisBits * 0x40000000 + if isNarrow then offsetBits else 0) ||| UInt32.ofNat offset

def toWords : Node → List UInt32
  | leaf first count => [header 3 false first, UInt32.ofNat count, 0]
  | split axis child left right => [header axis.index false (3 * child), left.bits, right.bits]
  | narrow axis child low high => [header axis.index true (3 * child), low.bits, high.bits]

def axisOfBits : Nat → Option Axis
  | 0 => some .x
  | 1 => some .y
  | 2 => some .z
  | _ => none

/-- The node at place `index` from its words. -/
def ofWords (index : Nat) (head second third : UInt32) : Except Fault Node :=
  let isNarrow := head.toNat / offsetBits % 2 = 1
  let offset := head.toNat % offsetBits
  match axisOfBits (head.toNat / 0x40000000) with
  | none =>
    if isNarrow then .error (.corruptTree (.flaggedLeaf index))
    else .ok (leaf offset second.toNat)
  | some axis =>
    if offset % 3 ≠ 0 then .error (.corruptTree (.misalignedChild index offset))
    else if isNarrow then .ok (narrow axis (offset / 3) ⟨second⟩ ⟨third⟩)
    else .ok (split axis (offset / 3) ⟨second⟩ ⟨third⟩)

/-- The nodes from place `index` on. -/
def listOfWords (index : Nat) : List UInt32 → Except Fault (List Node)
  | head :: second :: third :: rest => do
    let node ← ofWords index head second third
    let nodes ← listOfWords (index + 1) rest
    return node :: nodes
  | _ => .ok []

end Node

namespace Hierarchy

def words (h : Hierarchy) : List UInt32 := h.nodes.toList.flatMap Node.toWords

def pieces (h : Hierarchy) : List Piece :=
  [.ok (Bytes.ofBox h.bounds),
    Bytes.counted h.words.length (h.words.flatMap Bytes.ofWord),
    Bytes.counted h.objects.size (h.objects.toList.flatMap Bytes.ofNat)]

def toBytes (h : Hierarchy) : List UInt8 := (Output.ofPieces h.pieces).1

/-- Children stand behind their parents, within the array. -/
def checkChild (nodes index child : Nat) : Except Fault Unit :=
  if index < child ∧ child < nodes then .ok ()
  else .error (.corruptTree (.childOutOfRange index child nodes))

/-- Checks the places that a node names. A child behind an infinite clip is not looked at. -/
def checkNode (nodes objects index : Nat) : Node → Except Fault Unit
  | .leaf first count =>
    if first + count ≤ objects then .ok ()
    else .error (.corruptTree (.leafOutOfRange index first (first + count) objects))
  | .split _ child left right => do
    if left ≠ .negativeInfinity then checkChild nodes index child
    if right ≠ .infinity then checkChild nodes index (child + 1)
  | .narrow _ child _ _ => checkChild nodes index child

def checkNodes (nodes objects : Nat) : Nat → List Node → Except Fault Unit
  | _, [] => .ok ()
  | index, node :: rest => do
    checkNode nodes objects index node
    checkNodes nodes objects (index + 1) rest

/-- Checks that every object is the number of one of `limit` things. -/
def checkObjects (h : Hierarchy) (limit : Nat) : Except Fault Unit :=
  match h.objects.toList.find? fun object => limit ≤ object with
  | some object => .error (.corruptTree (.objectOutOfRange object limit))
  | none => .ok ()

def reader : Reader Hierarchy := do
  let bounds ← Reader.box
  let size ← Reader.count
  if size % 3 ≠ 0 then throw (.corruptTree (.sizeNotMultiple size))
  let words ← Reader.array size Reader.word
  let count ← Reader.count
  let objects ← Reader.array count Reader.count
  let nodes ← Node.listOfWords 0 words
  checkNodes nodes.length objects.length 0 nodes
  return ⟨nodes.toArray, objects.toArray, bounds⟩

end Hierarchy

end Sightline
