import Mathlib.Data.List.Count
import Mathlib.Data.List.Perm.Basic
import Sightline.Proofs.Entries
import Sightline.World.MapTree

/-!
# Users of models

A library serves a list of names: a model that can be read has one user for each time its name is
listed, and a model that cannot be read has none. Acquiring a model adds its name to the list, and
releasing it takes the name off again.
-/
namespace Sightline.Library

variable {d : Directory} {l : Library} {name : String} {names more : List String} {entry : Loaded}

/-- The file of a model can be read. -/
def CanRead (d : Directory) (name : String) : Prop :=
  (readModel d (modelFileName name)).isOk = true

instance (d : Directory) (name : String) : Decidable (CanRead d name) :=
  inferInstanceAs (Decidable (_ = _))

theorem canRead_of_ok {model : Model} (read : readModel d (modelFileName name) = .ok model) :
    CanRead d name := by
  rw [CanRead, read]
  rfl

theorem not_canRead_of_error {fault : Fault}
    (unread : readModel d (modelFileName name) = .error fault) : ¬CanRead d name := by
  rw [CanRead, unread]
  nofun

structure Serves (l : Library) (d : Directory) (names : List String) : Prop where
  users : ∀ name : String, l.users name = if CanRead d name then names.count name else 0
  used : ∀ (name : String) (entry : Loaded), l.models[name]? = some entry → 0 < entry.users

theorem users_of_found (found : l.models[name]? = some entry) : l.users name = entry.users := by
  simp [users, found]

theorem users_of_absent (absent : l.models[name]? = none) : l.users name = 0 := by
  simp [users, absent]

theorem acquire_error {fault : Fault} {after : Library}
    (refused : l.acquire d name = (.error fault, after)) : after = l := by
  rw [acquire] at refused
  split at refused
  · cases refused
  · split at refused <;> (cases refused; try rfl)

theorem serves_empty (d : Directory) : Serves {} d [] where
  users name := by
    rw [users_of_absent (by simp)]
    simp
  used name entry found := by simp at found

namespace Serves

theorem perm (serves : l.Serves d names) (same : names.Perm more) : l.Serves d more where
  users name := by rw [serves.users name, same.count_eq]
  used := serves.used

theorem canRead (serves : l.Serves d names) (found : l.models[name]? = some entry) :
    CanRead d name := by
  by_contra unread
  have users := serves.users name
  rw [users_of_found found, if_neg unread] at users
  have used := serves.used name entry found
  omega

/-- Sets the entry of one name; the list may change in this name only. -/
theorem insert (serves : l.Serves d names) (readable : CanRead d name)
    (counted : entry.users = more.count name) (used : 0 < entry.users)
    (others : ∀ other, name ≠ other → more.count other = names.count other) (loads : Nat) :
    Serves ⟨l.models.insert name entry, loads⟩ d more where
  users other := by
    rw [Library.users, getElem?_insert]
    by_cases same : name = other
    · subst same
      simp [readable, counted]
    · rw [others other same, ← serves.users other]
      simp [same, Library.users]
  used other loaded found := by
    rw [getElem?_insert] at found
    split at found
    · cases found
      exact used
    · exact serves.used other loaded found

/-- Drops the entry of a name that is no longer listed. -/
theorem erase (serves : l.Serves d names) (gone : more.count name = 0)
    (others : ∀ other, name ≠ other → more.count other = names.count other) :
    Serves { l with models := l.models.erase name } d more where
  users other := by
    rw [Library.users, getElem?_erase]
    by_cases same : name = other
    · subst same
      simp [gone]
    · rw [others other same, ← serves.users other]
      simp [same, Library.users]
  used other loaded found := by
    rw [getElem?_erase] at found
    split at found
    · cases found
    · exact serves.used other loaded found

/-- An entry that is left as it is; the list may change in names that cannot be read. -/
theorem keep (serves : l.Serves d names)
    (others : ∀ other, CanRead d other → more.count other = names.count other) :
    l.Serves d more where
  users other := by
    rw [serves.users other]
    by_cases readable : CanRead d other
    · simp [readable, others other readable]
    · simp [readable]
  used := serves.used

theorem acquire (serves : l.Serves d names) (name : String) :
    (l.acquire d name).2.Serves d (name :: names) := by
  have others : ∀ other, name ≠ other → (name :: names).count other = names.count other :=
    fun other differs => List.count_cons_of_ne differs
  rw [Library.acquire]
  split
  next entry found =>
    have before := serves.users name
    rw [users_of_found found, if_pos (serves.canRead found)] at before
    apply serves.insert (serves.canRead found) _ (Nat.succ_pos _) others
    simp [before]
  next absent =>
    split
    next fault unread =>
      -- the name of a model that cannot be read counts for nothing
      apply serves.keep
      intro other readable
      apply others
      rintro rfl
      exact not_canRead_of_error unread readable
    next model read =>
      have readable := canRead_of_ok read
      have before := serves.users name
      rw [users_of_absent absent, if_pos readable] at before
      apply serves.insert readable _ Nat.one_pos others
      simp [← before]

theorem release (serves : l.Serves d (name :: names)) : (l.release name).Serves d names := by
  have others : ∀ other, name ≠ other → names.count other = (name :: names).count other :=
    fun other differs => (List.count_cons_of_ne differs).symm
  have before := serves.users name
  rw [List.count_cons_self] at before
  rw [Library.release]
  split
  next absent =>
    apply serves.keep
    intro other readable
    apply others
    rintro rfl
    rw [users_of_absent absent, if_pos readable] at before
    omega
  next entry found =>
    rw [users_of_found found, if_pos (serves.canRead found)] at before
    split
    next last =>
      -- the last user takes the entry along
      apply serves.erase _ others
      omega
    next more =>
      apply serves.insert (serves.canRead found) _ _ others
      · simp [before]
      · simp
        omega

theorem releaseTimes {times : Nat} (serves : l.Serves d (List.replicate times name ++ names)) :
    (l.releaseTimes name times).Serves d names := by
  induction times generalizing l with
  | zero => exact serves
  | succ times ih => exact ih (release serves)

/-- A library that serves nobody is empty. -/
theorem size_eq_zero (serves : l.Serves d []) : l.size = 0 := by
  have empty : l.models.isEmpty = true := by
    rw [Std.TreeMap.isEmpty_iff_forall_not_mem]
    intro name listed
    have found := Std.TreeMap.getElem?_eq_some_getElem listed
    have counted := serves.users name
    rw [users_of_found found, List.count_nil, ite_self] at counted
    have used := serves.used name _ found
    omega
  simpa [size, Std.TreeMap.isEmpty_eq_size_eq_zero] using empty

end Serves

end Sightline.Library
