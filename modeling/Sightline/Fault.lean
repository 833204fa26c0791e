import Sightline.Single.Decimal
import Sightline.Text.Characters

/-!
# Faults

`Fault` lists why a file or a map cannot be used, with the message for each cause. `Failure` lists why
a computation on data already in memory stops without a result.
-/
namespace Sightline

/-- What is wrong with a stored hierarchy. -/
inductive TreeFlaw where
  | sizeNotMultiple (size : Nat)
  | flaggedLeaf (node : Nat)
  | misalignedChild (node offset : Nat)
  | leafOutOfRange (node first last objects : Nat)
  | childOutOfRange (node child nodes : Nat)
  | objectOutOfRange (object limit : Nat)
deriving DecidableEq, Repr

def TreeFlaw.message : TreeFlaw → String
  | sizeNotMultiple size => s!"tree size {size} is not a multiple of 3"
  | flaggedLeaf node => s!"node {node}: leaf with BVH2 flag"
  | misalignedChild node offset => s!"node {node}: child offset {offset} is not node aligned"
  | leafOutOfRange node first last objects =>
    s!"node {node}: leaf range {first}..{last} exceeds {objects} objects"
  | childOutOfRange node child nodes =>
    s!"node {node}: child {child} out of range ({nodes} nodes)"
  | objectOutOfRange object limit =>
    s!"object index {object} out of range ({limit} primitives)"

/-- What is wrong with stored model or placement data. -/
inductive ModelFlaw where
  | liquidTooLarge (tilesX tilesY : Nat)
  | vertexOutOfRange (group vertex vertices : Nat)
  | invalidScale (placement : Nat) (scale : Single)
  | noGeometry (model : String)
deriving DecidableEq, Repr

def ModelFlaw.message : ModelFlaw → String
  | liquidTooLarge tilesX tilesY => s!"liquid grid {tilesX}x{tilesY} too large"
  | vertexOutOfRange group vertex vertices =>
    s!"group {group}: vertex index {vertex} out of range ({vertices} vertices)"
  | invalidScale placement scale =>
    "spawn " ++ toString placement ++ " has invalid scale " ++ scale.toText
  | noGeometry model => s!"model '{model}' has no geometry"

inductive Fault where
  /-- No file has the name. -/
  | notFound
  /-- The name is a folder's. -/
  | isFolder
  /-- The way to a file leads through a file. -/
  | notFolder
  /-- A part of a path is longer than names of files may be. -/
  | pathRefused
  /-- A path contains the zero character. -/
  | zeroInPath
  /-- A list is too long to be counted in a file. -/
  | tooManyItems
  /-- A name is too long to be written. -/
  | nameRefused (name : String)
  | truncated
  | wrongTag (expected found : String)
  /-- A stored name is longer than names may be. -/
  | nameTooLong (length : Nat)
  | corruptTree (flaw : TreeFlaw)
  | corruptModel (flaw : ModelFlaw)
  | notInitialized (map : Nat)
  | slotOutOfRange (slot slots : Nat)
  | modelNotLoaded (name : String)
deriving DecidableEq, Repr

def Fault.message : Fault → String
  | notFound => "NotFound"
  | isFolder => "IsADirectory"
  | notFolder => "NotADirectory"
  | pathRefused => "InvalidFilename"
  | zeroInPath => "i/o error: file name contained an unexpected NUL byte"
  | tooManyItems => "i/o error: array too large for file format"
  | nameRefused name => s!"i/o error: model name '{name}' too long"
  | truncated => "unexpected end of file"
  | wrongTag expected found =>
    "chunk mismatch: expected " ++ Text.quoted expected ++ ", found " ++ Text.quoted found
  | nameTooLong length => s!"model file name too long ({length} bytes)"
  | corruptTree flaw => "corrupt BIH: " ++ flaw.message
  | corruptModel flaw => "corrupt model data: " ++ flaw.message
  | notInitialized map => s!"map {map} is not initialized"
  | slotOutOfRange slot slots => s!"tree slot {slot} out of range ({slots} slots)"
  | modelNotLoaded name => s!"could not load model '{name}'"

inductive Failure where
  /-- A box to divide has a lower face above its upper one. -/
  | negativeExtents
  /-- The box to divide and the box of its contents are apart. -/
  | invalidOverlap
  /-- There are more objects than a hierarchy can number. -/
  | tooManyObjects
  /-- The computation does not come to an end. -/
  | endless
  /-- An index is outside of its list. -/
  | outOfRange
deriving DecidableEq, Repr

def Failure.message : Failure → String
  | negativeExtents => "negative node extents"
  | invalidOverlap => "invalid node overlap"
  | tooManyObjects => "too many primitives for a BIH"
  | endless => "the computation does not end"
  | outOfRange => "index out of range"

end Sightline
