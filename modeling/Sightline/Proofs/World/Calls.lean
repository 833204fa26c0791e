import Mathlib.Data.List.Induction
import Mathlib.Data.List.Nodup
import Sightline.Proofs.Entries
import Sightline.World.Assembly

/-!
# Calls that fill an assembly

An assembly is filled by calls. What it holds of a map can be told from the calls: of each number the
first placement, and on each tile the numbers that were placed there; of each model name the last model.
-/
namespace Sightline

inductive Call where
  | model (name : String) (raw : RawModel)
  | placement (map : UInt32) (tile : Tile) (p : Placement)

namespace Call

/-- The placement of a number on a map, if the call is about it. -/
def placementOf? (map id : UInt32) : Call → Option Placement
  | model .. => none
  | placement m _ p => if m = map ∧ p.id = id then some p else none

def modelOf? (name : String) : Call → Option RawModel
  | model n raw => if n = name then some raw else none
  | placement .. => none

/-- The call puts a placement of this number on the tile. -/
def Puts (map : UInt32) (tile : Tile) (id : UInt32) : Call → Prop
  | model .. => False
  | placement m t p => m = map ∧ t = tile ∧ p.id = id

/-- The number that the call puts on a tile of this word. -/
def idOn? (map word : UInt32) : Call → Option UInt32
  | model .. => none
  | placement m t p => if m = map ∧ t.packed = word then some p.id else none

instance (map : UInt32) (tile : Tile) (id : UInt32) : DecidablePred (Puts map tile id)
  | model .. => inferInstanceAs (Decidable False)
  | placement .. => inferInstanceAs (Decidable (_ ∧ _ ∧ _))

end Call

variable {calls : List Call} {map id : UInt32} {tile : Tile} {p : Placement}

def firstPlacement? (calls : List Call) (map id : UInt32) : Option Placement :=
  calls.findSome? (Call.placementOf? map id)

/-- The number that was put on a tile of this word before all others. -/
def firstOn? (calls : List Call) (map word : UInt32) : Option UInt32 :=
  calls.findSome? (Call.idOn? map word)

def lastModel? (calls : List Call) (name : String) : Option RawModel :=
  calls.reverse.findSome? (Call.modelOf? name)

def IsPlaced (calls : List Call) (map : UInt32) (tile : Tile) (id : UInt32) : Prop :=
  ∃ call ∈ calls, call.Puts map tile id

instance (calls : List Call) (map : UInt32) (tile : Tile) (id : UInt32) :
    Decidable (IsPlaced calls map tile id) :=
  inferInstanceAs (Decidable (∃ call ∈ calls, _))

theorem mem_of_firstPlacement? (first : firstPlacement? calls map id = some p) :
    p.id = id ∧ ∃ tile, .placement map tile p ∈ calls := by
  obtain ⟨call, listed, found⟩ := List.exists_of_findSome?_eq_some first
  cases call with
  | model name raw => cases found
  | placement m tile q =>
    simp only [Call.placementOf?, Option.ite_none_right_eq_some, Option.some.injEq] at found
    obtain ⟨⟨rfl, same⟩, rfl⟩ := found
    exact ⟨same, tile, listed⟩

theorem mem_of_lastModel? {name : String} {raw : RawModel} (last : lastModel? calls name = some raw) :
    .model name raw ∈ calls := by
  obtain ⟨call, listed, found⟩ := List.exists_of_findSome?_eq_some last
  cases call with
  | model n found =>
    simp only [Call.modelOf?, Option.ite_none_right_eq_some, Option.some.injEq] at found
    obtain ⟨rfl, rfl⟩ := found
    exact List.mem_reverse.mp listed
  | placement m tile p => cases found

theorem firstPlacement?_isSome :
    (firstPlacement? calls map id).isSome = true ↔ ∃ tile, IsPlaced calls map tile id := by
  rw [firstPlacement?, List.findSome?_isSome_iff]
  constructor
  · rintro ⟨call, listed, found⟩
    cases call with
    | model name raw => cases found
    | placement m tile q =>
      simp only [Call.placementOf?, Option.isSome_ite] at found
      exact ⟨tile, _, listed, found.1, rfl, found.2⟩
  · rintro ⟨tile, call, listed, puts⟩
    cases call with
    | model name raw => cases puts
    | placement m t q =>
      obtain ⟨rfl, -, rfl⟩ := puts
      exact ⟨_, listed, by simp [Call.placementOf?]⟩

/-! ### One call after another -/

theorem firstPlacement?_concat (calls : List Call) (call : Call) (map id : UInt32) :
    firstPlacement? (calls ++ [call]) map id =
      (firstPlacement? calls map id).or (call.placementOf? map id) := by
  simp [firstPlacement?, List.findSome?_append, Option.or]

theorem firstOn?_concat (calls : List Call) (call : Call) (map word : UInt32) :
    firstOn? (calls ++ [call]) map word = (firstOn? calls map word).or (call.idOn? map word) := by
  simp [firstOn?, List.findSome?_append, Option.or]

theorem lastModel?_concat (calls : List Call) (call : Call) (name : String) :
    lastModel? (calls ++ [call]) name = (call.modelOf? name).or (lastModel? calls name) := by
  rw [lastModel?, List.reverse_concat, List.findSome?_cons]
  cases call.modelOf? name <;> rfl

theorem isPlaced_concat {call : Call} :
    IsPlaced (calls ++ [call]) map tile id ↔ IsPlaced calls map tile id ∨ call.Puts map tile id := by
  simp [IsPlaced, or_and_right, exists_or]

/-! ### What an assembly holds -/

namespace Assembly

def apply (a : Assembly) : Call → Assembly
  | .model name raw => a.addModel name raw
  | .placement map tile p => a.addPlacement map tile p

def ofCalls (calls : List Call) : Assembly := calls.foldl apply {}

end Assembly

namespace MapPlan

def idsOn (m : MapPlan) (word : UInt32) : List UInt32 := m.tiles[word]?.getD []

/-- The map is as calls left it. -/
structure Follows (m : MapPlan) (calls : List Call) (map : UInt32) : Prop where
  placements : ∀ id : UInt32, m.placements[id]? = firstPlacement? calls map id
  tiles : ∀ word id : UInt32,
    id ∈ m.idsOn word ↔ ∃ tile : Tile, tile.packed = word ∧ IsPlaced calls map tile id
  nodup : ∀ word : UInt32, (m.idsOn word).Nodup
  filled : ∀ word : UInt32, m.tiles[word]? ≠ some []

variable {m : MapPlan} {call : Call}

/-- A call that is not about the map. -/
theorem Follows.skip (follows : m.Follows calls map)
    (elsewhere : ∀ m tile p, call = .placement m tile p → m ≠ map) :
    m.Follows (calls ++ [call]) map := by
  have unplaced (id : UInt32) : call.placementOf? map id = none := by
    cases call with
    | model name raw => rfl
    | placement m tile p => exact if_neg fun same => elsewhere m tile p rfl same.1
  have noPut (tile : Tile) (id : UInt32) : ¬call.Puts map tile id := by
    cases call with
    | model name raw => nofun
    | placement m tile p => exact fun puts => elsewhere m tile p rfl puts.1
  constructor
  case placements =>
    intro id
    rw [firstPlacement?_concat, unplaced, Option.or_none]
    exact follows.placements id
  case tiles =>
    intro word id
    simp only [isPlaced_concat, noPut, or_false]
    exact follows.tiles word id
  case nodup => exact follows.nodup
  case filled => exact follows.filled

theorem idsOn_add (m : MapPlan) (tile : Tile) (p : Placement) (word : UInt32) :
    (m.add tile p).idsOn word =
      if tile.packed = word ∧ p.id ∉ m.idsOn word then m.idsOn word ++ [p.id]
      else m.idsOn word := by
  rw [idsOn, MapPlan.add]
  simp only [getElem?_insert]
  by_cases same : tile.packed = word
  · subst same
    rw [if_pos rfl, Option.getD_some]
    change (if p.id ∈ m.idsOn tile.packed then _ else _) = _
    by_cases known : p.id ∈ m.idsOn tile.packed
    · rw [if_pos known, if_neg fun new => new.2 known]
      rfl
    · rw [if_neg known, if_pos ⟨rfl, known⟩]
      rfl
  · rw [if_neg same, if_neg fun new => same new.1]
    rfl

/-- A number that is known keeps its first placement. -/
theorem placements_add (m : MapPlan) (tile : Tile) (p : Placement) (id : UInt32) :
    (m.add tile p).placements[id]? =
      m.placements[id]?.or (if p.id = id then some p else none) := by
  simp only [MapPlan.add, getElem?_insertIfNew, Std.TreeMap.mem_iff_isSome_getElem?]
  by_cases same : p.id = id
  · subst same
    cases m.placements[p.id]? <;> simp
  · simp [same]

theorem filled_add (filled : ∀ word : UInt32, m.tiles[word]? ≠ some []) (tile : Tile) (p : Placement)
    (word : UInt32) : (m.add tile p).tiles[word]? ≠ some [] := by
  simp only [MapPlan.add, getElem?_insert]
  split
  · -- a list that is written has the new number at least
    split
    next known =>
      intro empty
      rw [Option.some.inj empty] at known
      cases known
    next => simp
  · exact filled word

theorem Follows.add (follows : m.Follows calls map) (tile : Tile) (p : Placement) :
    (m.add tile p).Follows (calls ++ [.placement map tile p]) map := by
  constructor
  case placements =>
    intro id
    rw [placements_add, firstPlacement?_concat, ← follows.placements id]
    simp only [Call.placementOf?, true_and]
  case tiles =>
    intro word id
    simp only [isPlaced_concat, and_or_left, exists_or, ← follows.tiles word id, idsOn_add]
    have puts : (∃ t : Tile, t.packed = word ∧ (Call.placement map tile p).Puts map t id) ↔
        tile.packed = word ∧ p.id = id := by
      constructor
      · rintro ⟨t, packed, -, rfl, same⟩
        exact ⟨packed, same⟩
      · rintro ⟨packed, same⟩
        exact ⟨tile, packed, rfl, rfl, same⟩
    rw [puts]
    split
    next new => simp [new.1, eq_comm]
    next known =>
      constructor
      · exact .inl
      · rintro (listed | ⟨packed, rfl⟩)
        · exact listed
        · exact not_not.mp fun missing => known ⟨packed, missing⟩
  case nodup =>
    -- a number is added to a tile only if it is not there
    intro word
    rw [idsOn_add]
    split
    next new =>
      rw [← List.concat_eq_append]
      exact (follows.nodup word).concat new.2
    next => exact follows.nodup word
  case filled => exact filled_add follows.filled tile p

theorem follows_nil (map : UInt32) : ({} : MapPlan).Follows [] map := by
  constructor
  case placements => exact fun id => Std.TreeMap.getElem?_emptyc
  case tiles =>
    intro word id
    simp [idsOn, IsPlaced]
  case nodup =>
    intro word
    simp [idsOn]
  case filled =>
    intro word
    simp

end MapPlan

namespace Assembly

/-- The assembly is as calls left it. Maps without placements are not in it. -/
structure Follows (a : Assembly) (calls : List Call) : Prop where
  plans : ∀ map : UInt32, (a.maps[map]?.getD {}).Follows calls map
  models : ∀ name : String, a.models[name]? = lastModel? calls name
  maps : ∀ map : UInt32, a.maps[map]?.isSome = true ↔ ∃ id tile, IsPlaced calls map tile id

theorem Follows.apply {a : Assembly} (follows : a.Follows calls) (call : Call) :
    (a.apply call).Follows (calls ++ [call]) := by
  cases call with
  | model name raw =>
    constructor
    case plans =>
      intro map
      exact (follows.plans map).skip nofun
    case models =>
      -- a model replaces an earlier one of its name
      intro other
      rw [lastModel?_concat, ← follows.models other]
      simp only [Assembly.apply, addModel, getElem?_insert, Call.modelOf?]
      split <;> rfl
    case maps =>
      intro map
      simp only [isPlaced_concat, Call.Puts, or_false]
      exact follows.maps map
  | placement m tile p =>
    constructor
    case plans =>
      intro map
      simp only [Assembly.apply, addPlacement, getElem?_insert]
      by_cases same : m = map
      · subst same
        rw [if_pos rfl, Option.getD_some]
        exact (follows.plans m).add tile p
      · rw [if_neg same]
        refine (follows.plans map).skip ?_
        rintro _ _ _ ⟨⟩
        exact same
    case models =>
      intro name
      rw [lastModel?_concat]
      exact follows.models name
    case maps =>
      intro map
      simp only [Assembly.apply, addPlacement, getElem?_insert, isPlaced_concat, exists_or,
        ← follows.maps map]
      by_cases same : m = map
      · subst same
        simp [Call.Puts]
      · simp [same, Call.Puts]

theorem follows_ofCalls (calls : List Call) : (ofCalls calls).Follows calls := by
  induction calls using List.reverseRecOn with
  | nil =>
    constructor
    case plans => exact MapPlan.follows_nil
    case models => exact fun name => Std.TreeMap.getElem?_emptyc
    case maps =>
      intro map
      simp [ofCalls, IsPlaced]
  | append_singleton calls call ih =>
    rw [ofCalls, List.foldl_append]
    exact ih.apply call

/-- Tiles list first what was put on them first. -/
theorem head?_idsOn (calls : List Call) (map word : UInt32) :
    (((ofCalls calls).maps[map]?.getD {}).idsOn word).head? = firstOn? calls map word := by
  induction calls using List.reverseRecOn with
  | nil => simp [ofCalls, firstOn?, MapPlan.idsOn]
  | append_singleton calls call ih =>
    rw [firstOn?_concat, ← ih, ofCalls, List.foldl_append]
    change (((apply (ofCalls calls) call).maps[map]?.getD {}).idsOn word).head? = _
    cases call with
    | model name raw => exact Option.or_none.symm
    | placement m tile p =>
      simp only [apply, addPlacement, getElem?_insert, Call.idOn?]
      by_cases same : m = map
      · subst same
        -- what is added to a list that is not empty is added behind its head
        rw [if_pos rfl, Option.getD_some, MapPlan.idsOn_add]
        cases ((ofCalls calls).maps[m]?.getD {}).idsOn word with
        | nil =>
          simp only [List.not_mem_nil, not_false_eq_true, and_true, true_and, List.nil_append]
          split <;> rfl
        | cons first rest => split <;> rfl
      · rw [if_neg same, if_neg fun both => same both.1, Option.or_none]

/-- A map of the assembly is as calls left it. -/
theorem follows_of_plan {m : MapPlan} (known : (ofCalls calls).maps[map]? = some m) :
    m.Follows calls map := by
  have plans := (follows_ofCalls calls).plans map
  rwa [known] at plans

/-! ### Writing what calls have filled -/

/-- What is left after everything was written to an empty directory. -/
def writtenBy (calls : List Call) : Option (Assembly × Directory) :=
  match (ofCalls calls).write {} with
  | .ok (.ok (), state) => some state
  | _ => none

theorem write_of_writtenBy {state : Assembly × Directory} (written : writtenBy calls = some state) :
    (ofCalls calls).write {} = .ok (.ok (), state) := by
  rw [writtenBy] at written
  split at written
  next found =>
    cases written
    exact found
  next => cases written

end Assembly

end Sightline
