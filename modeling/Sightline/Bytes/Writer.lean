import Sightline.Fault
import Sightline.Geometry.Box
import Sightline.Text.Utf8

/-!
# Writing bytes

The bytes of numbers, with the least byte first, and of what is made of numbers. A file is written piece
by piece, and a piece that cannot be written ends it.
-/
namespace Sightline

namespace Bytes

def ofHalf (n : UInt16) : List UInt8 := [n.toUInt8, (n >>> 8).toUInt8]

def ofWord (n : UInt32) : List UInt8 :=
  [n.toUInt8, (n >>> 8).toUInt8, (n >>> 16).toUInt8, (n >>> 24).toUInt8]

/-- A number that fits a word: a length, an index or an offset. -/
def ofNat (n : Nat) : List UInt8 := ofWord (UInt32.ofNat n)

def ofSingle (x : Single) : List UInt8 := ofWord x.bits

def ofVec (v : Vec) : List UInt8 := ofSingle v.x ++ ofSingle v.y ++ ofSingle v.z

def ofBox (b : Box) : List UInt8 := ofVec b.lo ++ ofVec b.hi

/-- A length as it is stored before a list, unless it does not fit. -/
def count? (length : Nat) : Except Fault UInt32 :=
  if length < UInt32.size then .ok (UInt32.ofNat length) else .error .tooManyItems

/-- A length and the bytes of the list behind it. -/
def counted (length : Nat) (items : List UInt8) : Except Fault (List UInt8) :=
  (count? length).map fun count => ofWord count ++ items

end Bytes

/-- A piece of a file, unless it cannot be written. -/
abbrev Piece := Except Fault (List UInt8)

/-- Bytes for a file, up to a fault that ended the writing. -/
abbrev Output := List UInt8 × Except Fault Unit

/-- Writes one piece after another until there is a fault. -/
def Output.ofPieces : List Piece → Output
  | [] => ([], .ok ())
  | .error fault :: _ => ([], .error fault)
  | .ok bytes :: rest =>
    let (following, outcome) := ofPieces rest
    (bytes ++ following, outcome)

end Sightline
