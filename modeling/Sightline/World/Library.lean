import Sightline.Mesh.Model
import Sightline.World.Directory
import Sightline.World.Names

/-!
# Shared models

A library holds each model once, however many places use it, and counts its users. The last user who
releases a model removes it. Users keep a handle, which names one particular load of a model: after
the model is removed the handle leads nowhere, also when a model of that name is loaded again.
-/
namespace Sightline

/-- A loaded model with the number of its users. -/
structure Loaded where
  model : Model
  /-- The number of the load. -/
  serial : Nat
  users : Nat
deriving DecidableEq, Repr

structure Handle where
  name : String
  serial : Nat
deriving DecidableEq, Repr

structure Library where
  models : Std.TreeMap String Loaded := ∅
  loads : Nat := 0

namespace Library

def readModel (d : Directory) (file : String) : Except Fault Model := do
  let bytes ← d.read file
  return (← Model.reader.run bytes).1

/-- Adds one user to a model, which is loaded for the first one. -/
def acquire (l : Library) (d : Directory) (name : String) : Except Fault Handle × Library :=
  match l.models[name]? with
  | some loaded =>
    (.ok ⟨name, loaded.serial⟩,
      { l with models := l.models.insert name { loaded with users := loaded.users + 1 } })
  | none =>
    match readModel d (modelFileName name) with
    | .error _ => (.error (.modelNotLoaded name), l)
    | .ok model =>
      (.ok ⟨name, l.loads⟩, ⟨l.models.insert name ⟨model, l.loads, 1⟩, l.loads + 1⟩)

/-- Takes one user from a model; models that are not loaded have none. -/
def release (l : Library) (name : String) : Library :=
  match l.models[name]? with
  | none => l
  | some loaded =>
    if loaded.users ≤ 1 then { l with models := l.models.erase name }
    else { l with models := l.models.insert name { loaded with users := loaded.users - 1 } }

def releaseTimes (l : Library) (name : String) : Nat → Library
  | 0 => l
  | times + 1 => (l.release name).releaseTimes name times

def model? (l : Library) (handle : Handle) : Option Model :=
  (l.models[handle.name]?.filter fun loaded => loaded.serial = handle.serial).map Loaded.model

def users (l : Library) (name : String) : Nat := (l.models[name]?.map Loaded.users).getD 0

def isLoaded (l : Library) (name : String) : Bool := l.models.contains name

def size (l : Library) : Nat := l.models.size

end Library

end Sightline
