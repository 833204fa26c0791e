import Std.Data.TreeMap
import Sightline.Single.Decimal
import Sightline.Single.Reading
import Sightline.Text.Characters
import Sightline.Text.Words

/-!
# Settings

The registry keeps named settings in the order of their creation, and an index of their places by name.
A setting is a text; the number it reads as is kept beside it, zero if it reads as none. A protected
setting is changed by force only. Texts with lines of the form `set name "value"` save and restore
settings.
-/
namespace Sightline

structure Setting where
  name : String
  text : String
  flags : UInt32
  /-- The setting was created or changed since the marks were cleared. -/
  isModified : Bool
  value : Single
deriving DecidableEq, Repr

structure Registry where
  settings : Array Setting := #[]
  /-- The place of each setting under its name. -/
  places : Std.TreeMap String Nat := ∅

namespace Setting

def saved : UInt32 := 1

def locked : UInt32 := 2

def Has (v : Setting) (mark : UInt32) : Prop := v.flags &&& mark = mark

instance (v : Setting) (mark : UInt32) : Decidable (v.Has mark) :=
  inferInstanceAs (Decidable (_ = _))

/-- The number that a text reads as. -/
def valueOf (text : String) : Single := (Single.ofText? (Text.trim text.toList)).getD 0

def create (name text : String) (flags : UInt32) : Setting :=
  ⟨name, text, flags, true, valueOf text⟩

/-- Gives a setting another text; the same text again is no change. -/
def setText (v : Setting) (text : String) : Setting :=
  if v.text = text then v else { v with text, isModified := true, value := valueOf text }

def addFlags (v : Setting) (flags : UInt32) : Setting := { v with flags := v.flags ||| flags }

/-- The line that restores the setting. -/
def toLine (v : Setting) : String := "set " ++ v.name ++ " \"" ++ v.text ++ "\"\n"

end Setting

namespace Registry

def indexOf? (r : Registry) (name : String) : Option Nat := r.places[name]?

def find? (r : Registry) (name : String) : Option Setting :=
  (r.indexOf? name).bind fun index => r.settings[index]?

/-- The number of a setting, zero if there is none of the name. -/
def valueOf (r : Registry) (name : String) : Single := ((r.find? name).map Setting.value).getD 0

/-- The text of a setting, empty if there is none of the name. -/
def textOf (r : Registry) (name : String) : String := ((r.find? name).map Setting.text).getD ""

/-- A setting is on unless its number is zero. -/
def isOn (r : Registry) (name : String) : Bool := ¬(r.valueOf name).Same 0

/-- Puts a setting behind the others. -/
def push (r : Registry) (v : Setting) : Registry :=
  ⟨r.settings.push v, r.places.insert v.name r.settings.size⟩

/-- Changes the setting at a place; names stay as they are. -/
def change (r : Registry) (index : Nat) (f : Setting → Setting) : Registry :=
  { r with settings := r.settings.modify index f }

/-- Finds a setting or creates it with a text, and adds flags to it; tells its place. -/
def ensure (r : Registry) (name text : String) (flags : UInt32) : Nat × Registry :=
  match r.indexOf? name with
  | some index => (index, r.change index fun v => v.addFlags flags)
  | none => (r.settings.size, r.push (.create name text flags))

/-- Changes the text of a setting, or creates the setting; tells its place. Protected settings
change only with `force`. -/
def assign (r : Registry) (name text : String) (force : Bool) : Nat × Registry :=
  match r.indexOf? name with
  | none => r.ensure name text 0
  | some index =>
    (index, r.change index fun v =>
      if !force ∧ v.Has Setting.locked then v else v.setText text)

def set (r : Registry) (name text : String) : Nat × Registry := r.assign name text false

def forceSet (r : Registry) (name text : String) : Nat × Registry := r.assign name text true

/-- The text of a number: a whole number of 32 bits as such, others with the fewest digits. -/
def textOfNumber (x : Single) : String :=
  if x.Same (.ofInt x.toSigned) then toString x.toSigned else x.toText

def setNumber (r : Registry) (name : String) (x : Single) : Nat × Registry :=
  r.set name (textOfNumber x)

def clearMarks (r : Registry) : Registry :=
  { r with settings := r.settings.map fun v => { v with isModified := false } }

/-- The name and the text that a line sets, if it is a line to set a setting. -/
def assignment? (line : List Char) : Option (String × String) :=
  match Text.words (Text.beforeComment line) with
  | [command, name, text] =>
    if command = "set".toList then some (.ofList name, .ofList text) else none
  | _ => none

/-- Gives names their texts, one after the other. -/
def setAll (r : Registry) (assignments : List (String × String)) : Registry :=
  assignments.foldl (fun r (name, text) => (r.set name text).2) r

/-- Obeys the lines that set settings and counts them; other lines do nothing. -/
def run (r : Registry) (text : String) : Nat × Registry :=
  let assignments := (Text.lines text.toList).filterMap assignment?
  (assignments.length, r.setAll assignments)

def toText (r : Registry) : String :=
  String.join ((r.settings.toList.filter fun v => v.Has Setting.saved).map Setting.toLine)

end Registry

end Sightline
