/-!
# Text in bytes

Names are stored in UTF-8. Stored bytes need not be valid: `ofBytes` puts the replacement character
in the place of every longest run of bytes that begins a character and does not complete it, and of
every byte that begins none.
-/
namespace Sightline.Text

def toBytes (text : String) : List UInt8 := text.toList.flatMap String.utf8EncodeChar

def byteLength (text : String) : Nat := (toBytes text).length

def replacement : Char := '\uFFFD'

/-- Bytes after the first of a character. -/
def isContinuation (b : UInt8) : Bool := 0x80 ≤ b && b ≤ 0xBF

/-- Bytes that may stand second after a given first byte. -/
def mayFollow (first second : UInt8) : Bool :=
  isContinuation second &&
    (first != 0xE0 || 0xA0 ≤ second) && (first != 0xED || second ≤ 0x9F) &&
    (first != 0xF0 || 0x90 ≤ second) && (first != 0xF4 || second ≤ 0x8F)

/-- How many bytes a character with this first byte takes; zero if none begins so. -/
def widthOf (first : UInt8) : Nat :=
  if first < 0x80 then 1
  else if first < 0xC2 then 0
  else if first < 0xE0 then 2
  else if first < 0xF0 then 3
  else if first < 0xF5 then 4
  else 0

/-- The length of the run to replace where no character can be read. -/
def faultLength : List UInt8 → Nat
  | first :: second :: third :: _ =>
    if widthOf first < 3 || !mayFollow first second then 1
    else if widthOf first < 4 || !isContinuation third then 2
    else 3
  | [first, second] => if widthOf first < 3 || !mayFollow first second then 1 else 2
  | _ => 1

/-- The character at the front of the bytes, if there is a valid one. -/
def front? (bytes : List UInt8) : Option Char := (bytes.take 4).toByteArray.utf8DecodeChar? 0

/-- Reads characters until the bytes end; every character takes at least one byte. -/
def charsOfBytes : Nat → List UInt8 → List Char
  | 0, _ => []
  | _, [] => []
  | most + 1, bytes =>
    match front? bytes with
    | some c => c :: charsOfBytes most (bytes.drop c.utf8Size)
    | none => replacement :: charsOfBytes most (bytes.drop (faultLength bytes))

def ofBytes (bytes : List UInt8) : String := String.ofList (charsOfBytes bytes.length bytes)

end Sightline.Text
