import Sightline.Fault
import Sightline.Geometry.Box
import Sightline.Text.Utf8

/-!
# Reading bytes

A reader takes what it needs from the front of the bytes and leaves the rest, or fails. Numbers are
stored with the least byte first. Readers whose name ends in a question mark tell the clean end of
the bytes, before anything is read, from an end in the middle.
-/
namespace Sightline

abbrev Reader := StateT (List UInt8) (Except Fault)

namespace Reader

variable {α : Type}

/-- Exactly the given number of bytes. -/
def bytes (count : Nat) : Reader (List UInt8) := fun input =>
  let front := input.take count
  if front.length = count then .ok (front, input.drop count) else .error .truncated

def byte : Reader UInt8
  | b :: rest => .ok (b, rest)
  | [] => .error .truncated

def half : Reader UInt16
  | a :: b :: rest => .ok (a.toUInt16 ||| b.toUInt16 <<< 8, rest)
  | _ => .error .truncated

def word : Reader UInt32
  | a :: b :: c :: d :: rest =>
    .ok (a.toUInt32 ||| b.toUInt32 <<< 8 ||| c.toUInt32 <<< 16 ||| d.toUInt32 <<< 24, rest)
  | _ => .error .truncated

/-- A word that gives the length of what follows. -/
def count : Reader Nat := do return (← word).toNat

def single : Reader Single := do return ⟨← word⟩

def vec : Reader Vec := do return ⟨← single, ← single, ← single⟩

def box : Reader Box := do return ⟨← vec, ← vec⟩

def array (count : Nat) (item : Reader α) : Reader (List α) :=
  match count with
  | 0 => return []
  | count + 1 => do
    let first ← item
    let rest ← array count item
    return first :: rest

/-- Runs a reader unless the bytes are at their end. -/
def orEnd? (reader : Reader α) : Reader (Option α) := fun input =>
  match input with
  | [] => .ok (none, [])
  | _ => (reader.run input).map fun (a, rest) => (some a, rest)

def word? : Reader (Option UInt32) := orEnd? word

/-- The bytes of a tag, which every section of a file begins with. -/
def tag (expected : List UInt8) : Reader Unit := do
  let found ← bytes expected.length
  if found = expected then return ()
  else throw (.wrongTag (Text.ofBytes expected) (Text.ofBytes found))

/-- A section that may be missing at the end of a file. The empty tag is never found. -/
def tag? (expected : List UInt8) : Reader Bool :=
  if expected.isEmpty then return false
  else do return (← orEnd? (tag expected)).isSome

/-- A tag of plain letters, as the sections of the files have. -/
def label (name : String) : Reader Unit := tag (Text.toBytes name)

def label? (name : String) : Reader Bool := tag? (Text.toBytes name)

end Reader

end Sightline
