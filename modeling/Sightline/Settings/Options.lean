import Sightline.Settings.Registry

/-!
# Options

The options of the service and the settings that hold them.
-/
namespace Sightline

structure Options where
  sight : Bool := true
  height : Bool := true
  spells : String := ""
  folder : String := "vmaps"
deriving DecidableEq, Repr

namespace Options

def sightName : String := "vmap_enable_los"

def heightName : String := "vmap_enable_height"

def spellsName : String := "vmap_ignore_spells"

def folderName : String := "vmap_data_dir"

/-- Creates the settings that are missing. Variables that exist keep their text. -/
def register (r : Registry) : Registry :=
  let r := (r.ensure sightName "1" Setting.saved).2
  let r := (r.ensure heightName "1" Setting.saved).2
  let r := (r.ensure spellsName "" Setting.saved).2
  (r.ensure folderName "vmaps" Setting.locked).2

/-- The options that the settings of a registry tell, after the missing ones are created. -/
def ofRegistry (r : Registry) : Options × Registry :=
  let r := register r
  (⟨r.isOn sightName, r.isOn heightName, r.textOf spellsName, r.textOf folderName⟩, r)

/-- The parts of a path. Empty parts and single dots say nothing, except in front: there they tell
paths from the root, and paths from here, from others. -/
def pathParts (path : String) : List (List Char) :=
  match Text.split '/' path.toList with
  | [] | [[]] => []
  | first :: rest => first :: rest.filter fun part => part ≠ [] ∧ part ≠ ['.']

/-- Options are the same if they are equal and their folders have the same parts. -/
def Same (o p : Options) : Prop :=
  o.sight = p.sight ∧ o.height = p.height ∧ o.spells = p.spells ∧
    pathParts o.folder = pathParts p.folder

instance (o p : Options) : Decidable (o.Same p) := inferInstanceAs (Decidable (_ ∧ _))

end Options

end Sightline
