import Mathlib.Data.List.Forall2
import Std.Data.TreeMap.Lemmas

/-!
# Entries of tree maps

What stands under a key after another key was set or taken off, and keys and values as lists in one
order.
-/
namespace Sightline

variable {α β : Type} {cmp : α → α → Ordering} (m : Std.TreeMap α β cmp)

theorem values_eq_map : m.values = m.toList.map Prod.snd := by
  have folded : m.values = m.foldr (fun _ value rest => value :: rest) [] := rfl
  rw [folded, Std.TreeMap.foldr_eq_foldr_toList, List.map_eq_foldr]

theorem length_values : m.values.length = m.keys.length := by
  rw [values_eq_map, List.length_map, ← Std.TreeMap.map_fst_toList_eq_keys, List.length_map]

variable [Std.TransCmp cmp]

theorem nodup_fst_toList : (m.toList.map Prod.fst).Nodup := by
  rw [Std.TreeMap.map_fst_toList_eq_keys]
  exact Std.TreeMap.nodup_keys

variable [Std.LawfulEqCmp cmp]

theorem mem_keys_iff {key : α} : key ∈ m.keys ↔ (m[key]?).isSome = true := by
  rw [Std.TreeMap.mem_keys, Std.TreeMap.mem_iff_isSome_getElem?]

/-- Values stand in the order of their keys. -/
theorem getElem?_values (i : Nat) : m.values[i]? = m.keys[i]?.bind fun key => m[key]? := by
  rw [values_eq_map, ← Std.TreeMap.map_fst_toList_eq_keys, List.getElem?_map, List.getElem?_map]
  cases pair : m.toList[i]? with
  | none => rfl
  | some entry =>
    have stands := Std.TreeMap.mem_toList_iff_getElem?_eq_some.mp (List.mem_of_getElem? pair)
    exact stands.symm

theorem mem_values {value : β} : value ∈ m.values ↔ ∃ key : α, m[key]? = some value := by
  simp [values_eq_map, Std.TreeMap.mem_toList_iff_getElem?_eq_some]

variable [DecidableEq α]

theorem getElem?_insert (key other : α) (value : β) :
    (m.insert key value)[other]? = if key = other then some value else m[other]? := by
  simp only [Std.TreeMap.getElem?_insert, Std.LawfulEqCmp.compare_eq_iff_eq]

theorem getElem?_insertIfNew (key other : α) (value : β) :
    (m.insertIfNew key value)[other]? =
      if key = other ∧ key ∉ m then some value else m[other]? := by
  simp only [Std.TreeMap.getElem?_insertIfNew, Std.LawfulEqCmp.compare_eq_iff_eq]

theorem getElem?_erase (key other : α) :
    (m.erase key)[other]? = if key = other then none else m[other]? := by
  simp only [Std.TreeMap.getElem?_erase, Std.LawfulEqCmp.compare_eq_iff_eq]

/-! ### Several keys -/

variable {m} {list : List (α × β)} {key : α} {value : β}

theorem getElem?_insertMany_of_not_mem (new : key ∉ list.map Prod.fst) :
    (m.insertMany list)[key]? = m[key]? := by
  induction list generalizing m with
  | nil => rw [Std.TreeMap.insertMany_nil]
  | cons entry rest ih =>
    rw [List.map_cons, List.mem_cons, not_or] at new
    rw [Std.TreeMap.insertMany_cons, ih new.2, getElem?_insert, if_neg fun same => new.1 same.symm]

theorem getElem?_insertMany_of_mem (distinct : (list.map Prod.fst).Nodup)
    (listed : (key, value) ∈ list) : (m.insertMany list)[key]? = some value := by
  induction list generalizing m with
  | nil => cases listed
  | cons entry rest ih =>
    rw [List.map_cons, List.nodup_cons] at distinct
    rw [Std.TreeMap.insertMany_cons]
    cases listed with
    | head =>
      -- no later entry has the key
      rw [getElem?_insertMany_of_not_mem distinct.1, getElem?_insert, if_pos rfl]
    | tail _ listed => exact ih distinct.2 listed

/-- Setting all keys again, in their order, sets the entries to just these. -/
theorem toList_insertMany (f : α → β → β) :
    (m.insertMany (m.toList.map fun entry => (entry.1, f entry.1 entry.2))).toList =
      m.toList.map fun entry => (entry.1, f entry.1 entry.2) := by
  have keys : (m.toList.map fun entry => (entry.1, f entry.1 entry.2)).map Prod.fst =
      m.toList.map Prod.fst := by
    rw [List.map_map]
    rfl
  have same : (m.insertMany (m.toList.map fun entry => (entry.1, f entry.1 entry.2))).Equiv
      (m.map f) := by
    refine .of_forall_constGet?_eq fun key => ?_
    rw [Std.TreeMap.getElem?_map]
    cases found : m[key]? with
    | none =>
      rw [getElem?_insertMany_of_not_mem, found]
      · rfl
      · rw [keys, Std.TreeMap.map_fst_toList_eq_keys, mem_keys_iff, found]
        nofun
    | some value =>
      refine getElem?_insertMany_of_mem (keys ▸ nodup_fst_toList m) ?_
      exact List.mem_map_of_mem (Std.TreeMap.mem_toList_iff_getElem?_eq_some.mpr found)
  rw [same.toList_eq, Std.TreeMap.toList_map]

omit [DecidableEq α] in
/-- Maps with related entries have related lists of entries. -/
theorem forall₂_toList {R : β → β → Prop} {n : Std.TreeMap α β cmp}
    (related : ∀ key : α, Option.Rel R m[key]? n[key]?) :
    List.Forall₂ (fun entry other => entry.1 = other.1 ∧ R entry.2 other.2) m.toList n.toList := by
  have same : (m.map fun _ _ => ()).Equiv (n.map fun _ _ => ()) := by
    refine .of_forall_constGet?_eq fun key => ?_
    rw [Std.TreeMap.getElem?_map, Std.TreeMap.getElem?_map]
    have entries := related key
    generalize m[key]? = entry, n[key]? = other at entries ⊢
    cases entries <;> rfl
  have keys : m.toList.map Prod.fst = n.toList.map Prod.fst := by
    have keys := same.keys_eq
    rwa [Std.TreeMap.keys_map, Std.TreeMap.keys_map, ← Std.TreeMap.map_fst_toList_eq_keys,
      ← Std.TreeMap.map_fst_toList_eq_keys] at keys
  have pairs : List.Forall₂ (fun entry other => entry.1 = other.1) m.toList n.toList := by
    rwa [← List.forall₂_eq_eq_eq, List.forall₂_map_left_iff, List.forall₂_map_right_iff] at keys
  -- the entries of one key are those that are related
  have here := (List.forall₂_and_left _ _).mpr
    ⟨fun entry (listed : entry ∈ m.toList) => listed, pairs⟩
  have both := (List.forall₂_and_left _ _).mpr
    ⟨fun entry (listed : entry ∈ n.toList) => listed, here.flip⟩
  refine both.flip.imp ?_
  rintro ⟨key, value⟩ ⟨key', value'⟩ ⟨there, here, same⟩
  obtain rfl : key = key' := same
  have found := related key
  rw [Std.TreeMap.mem_toList_iff_getElem?_eq_some.mp here,
    Std.TreeMap.mem_toList_iff_getElem?_eq_some.mp there] at found
  cases found with
  | some same => exact ⟨rfl, same⟩

end Sightline
