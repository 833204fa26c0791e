import Std.Data.TreeMap
import Sightline.Fault
import Sightline.Text.Split
import Sightline.Text.Utf8

/-!
# Directories

A directory holds files and folders at places. A place is the list of the names that lead to it from
the directory; places outside of the directory begin with `..`, or with `/` for the root. A path is
read part by part: each part is looked for in the folder where the parts before it led. Nothing is
known outside of the directory but the folders on the way up.
-/
namespace Sightline

abbrev Place := List String

inductive Entry where
  | file (bytes : List UInt8)
  | folder
deriving DecidableEq, Repr

structure Directory where
  entries : Std.TreeMap Place Entry := ∅

namespace Place

/-- The folder on the way up from a place. The root is above itself. -/
def up (place : Place) : Place :=
  match place.getLast? with
  | none | some ".." => place ++ [".."]
  | some "/" => place
  | some _ => place.dropLast

/-- The place to which a part of a path leads. Empty parts and single dots stay where they are. -/
def move (place : Place) (part : String) : Place :=
  if part = "" ∨ part = "." then place else if part = ".." then place.up else place ++ [part]

/-- The folders on the way up, which are always there. -/
def IsAbove (place : Place) : Prop := ∀ name ∈ place, name = ".." ∨ name = "/"

instance (place : Place) : Decidable place.IsAbove :=
  inferInstanceAs (Decidable (∀ name ∈ place, _))

end Place

namespace Directory

def parts (path : String) : List String := (Text.split '/' path.toList).map String.ofList

/-- Where a path begins: in the directory, or at the root if it begins with a slash. -/
def start (path : String) : Place := if path.toList.head? = some '/' then ["/"] else []

def contents? (d : Directory) (place : Place) : Option Entry :=
  if place.IsAbove then some .folder else d.entries[place]?

/-- The greatest length of one part of a path, in bytes. -/
def longestPart : Nat := 255

/-- The greatest length of a path, in bytes. -/
def longestPath : Nat := 4095

/-- Goes on from a place, which has to be a folder for each part. -/
def follow (d : Directory) : Place → List String → Except Fault Place
  | place, [] => .ok place
  | place, part :: rest =>
    match d.contents? place with
    | none => .error .notFound
    | some (.file _) => .error .notFolder
    | some .folder =>
      if longestPart < Text.byteLength part then .error .pathRefused
      else d.follow (place.move part) rest

/-- The place to which a path leads. Only the last part may be missing. -/
def locate (d : Directory) (path : String) : Except Fault Place :=
  if '\x00' ∈ path.toList then .error .zeroInPath
  else if longestPath < Text.byteLength path then .error .pathRefused
  else d.follow (start path) (parts path)

def find (d : Directory) (path : String) : Except Fault Entry := do
  match d.contents? (← d.locate path) with
  | none => throw .notFound
  | some entry => return entry

def read (d : Directory) (path : String) : Except Fault (List UInt8) := do
  match ← d.find path with
  | .folder => throw .isFolder
  | .file bytes => return bytes

def put (d : Directory) (place : Place) (entry : Entry) : Directory :=
  ⟨d.entries.insert place entry⟩

/-- Gives a file new bytes; the file need not exist before. -/
def write (d : Directory) (path : String) (bytes : List UInt8) : Except Fault Directory := do
  let place ← d.locate path
  if d.contents? place = some .folder then throw .isFolder
  return d.put place (.file bytes)

def remove (d : Directory) (path : String) : Directory :=
  match d.locate path with
  | .error _ => d
  | .ok place => if d.contents? place = some .folder then d else ⟨d.entries.erase place⟩

def makeFolder (d : Directory) (path : String) : Directory :=
  let enter (state : Directory × Place) (part : String) : Directory × Place :=
    let place := state.2.move part
    (if (state.1.contents? place).isSome then state.1 else state.1.put place .folder, place)
  ((parts path).foldl enter (d, start path)).1

/-- The names and sizes of the files in no other folder, in the order of their names. -/
def files (d : Directory) : List (String × Nat) :=
  d.entries.toList.filterMap fun
    | ([name], .file bytes) => some (name, bytes.length)
    | _ => none

/-- Applies a change to the bytes of a file, if there is one. -/
def modify (d : Directory) (path : String) (change : List UInt8 → List UInt8) : Directory :=
  match d.locate path, d.read path with
  | .ok place, .ok bytes => d.put place (.file (change bytes))
  | _, _ => d

/-- Puts bytes in the place of those that begin at an offset. -/
def overwrite (d : Directory) (path : String) (offset : Nat) (bytes : List UInt8) : Directory :=
  d.modify path fun old =>
    old.take offset ++ List.replicate (offset - old.length) 0 ++ bytes ++
      old.drop (offset + bytes.length)

def cutOff (d : Directory) (path : String) (count : Nat) : Directory :=
  d.modify path fun old => old.take (old.length - count)

end Directory

end Sightline
