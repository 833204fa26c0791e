import Sightline.Proofs.Hierarchy.Alongside
import Sightline.Proofs.Lookups
import Sightline.World.Atlas

/-!
# Two ways to ask for a floor

The area at a point and the location at a point are found by two scans. One copies what the groups of the
models say, the other keeps where it found the floor. Both walk the same hierarchies and choose by the same
heights, so one finds a floor where the other does, and the area is what can be read at the location. A
liquid is looked up at the location: whoever asks for the area there lands on the floor below the liquid.
-/
namespace Sightline

open Hierarchy

/-! ### Models -/

namespace Model

variable {m : Model} {p down : Vec}

theorem visitFloor_inside {index : Nat} {before after : Option (Nat × Single)}
    (inside : ∀ floor ∈ before, floor.1 < m.groups.size)
    (visited : m.visitFloor p down index before = .ok after) :
    ∀ floor ∈ after, floor.1 < m.groups.size := by
  obtain ⟨group, fetched, visited⟩ := bind_eq_ok.mp visited
  obtain ⟨distance, -, visited⟩ := bind_eq_ok.mp visited
  have known := (Array.getElem?_eq_some_iff.mp (fetch_eq_ok.mp fetched)).1
  -- the floor is that of a group that was looked up, or the one from before
  split at visited
  · cases visited
    exact inside
  · cases visited
    rintro floor ⟨⟩
    exact known
  · split at visited
    · cases visited
      rintro floor ⟨⟩
      exact known
    · cases visited
      exact inside

/-- The group below a point is one of the model's. -/
theorem groupBelow?_inside {below : Option (Nat × Single)} (found : m.groupBelow? p down = .ok below) :
    ∀ floor ∈ below, floor.1 < m.groups.size := by
  rw [groupBelow?] at found
  split at found
  · cases found
    exact fun _ impossible => nomatch impossible
  · refine walkPoint_keeps (P := fun best => ∀ floor ∈ best, floor.1 < m.groups.size)
      (fun _ _ _ => visitFloor_inside) ?_ found
    exact fun _ impossible => nomatch impossible

/-- A floor is what is said of the group with some number, at some distance below a point. -/
def FloorOf (m : Model) (floor : ModelFloor) (below : Nat × Single) : Prop :=
  ∃ group, m.groups[below.1]? = some group ∧ floor = ⟨m.root, group.id, group.flags, below.2⟩

theorem sameOutcome_floorBelow? (m : Model) (p down : Vec) :
    SameOutcome (Option.Rel m.FloorOf) (m.floorBelow? p down) (m.groupBelow? p down) := by
  cases found : m.groupBelow? p down with
  | error failure =>
    rw [floorBelow?, found]
    exact .failed failure
  | ok below =>
    cases below with
    | none =>
      rw [floorBelow?, found]
      exact .returned .none
    | some below =>
      obtain ⟨group, known⟩ : ∃ group, m.groups[below.1]? = some group :=
        ⟨_, Array.getElem?_eq_getElem (groupBelow?_inside found below rfl)⟩
      have told : m.floorBelow? p down = .ok (some ⟨m.root, group.id, group.flags, below.2⟩) := by
        simp only [floorBelow?, found, bind, Except.bind, fetch_eq_ok.mpr known]
        rfl
      rw [told]
      exact .returned (.some ⟨group, known, rfl⟩)

end Model

/-! ### Placed models -/

/-- What an area tells is what can be read at a location: its height, and what its placement, its model
and the group there say. -/
structure Area.IsAt (area : Area) (location : Location) : Prop where
  height : area.height = location.height
  terrain : area.terrain = location.placement.terrain.toUInt32.toInt32
  root : area.root = location.model.root.toInt32
  group : ∃ group, location.model.groups[location.group]? = some group ∧
    area.group = group.id.toInt32 ∧ area.flags = group.flags

/-- The location is in a placed model, and the area is the one there. -/
structure Area.IsIn (p : Placement) (model : Model) (area : Area) (location : Location) : Prop where
  isAt : area.IsAt location
  placement : location.placement = p
  model : location.model = model

theorem Placement.sameOutcome_area? (p : Placement) (model : Model) (point : Vec) :
    SameOutcome (Option.Rel (Area.IsIn p model)) (p.area? model point) (p.location? model point) := by
  simp only [area?, location?]
  split
  · exact .returned .none
  · refine (model.sameOutcome_floorBelow? _ _).bind ?_
    rintro _ _ (⟨group, known, rfl⟩ | _)
    · exact .returned (.some ⟨⟨rfl, rfl, rfl, group, known, rfl, rfl⟩, rfl, rfl⟩)
    · exact .returned .none

/-! ### Maps -/

section

variable {α β : Type} {R : α → β → Prop} {height : α → Single} {height' : β → Single}

theorem rel_higher (heights : ∀ a b, R a b → height a = height' b) {best new : Option α}
    {best' new' : Option β} (bests : Option.Rel R best best') (news : Option.Rel R new new') :
    Option.Rel R (higher height best new) (higher height' best' new') := by
  cases news with
  | none => exact bests
  | @some candidate candidate' related =>
    have same : best.map height = best'.map height' := by
      cases bests with
      | none => rfl
      | some before => exact congrArg some (heights _ _ before)
    have exceeds : Exceeds height candidate best ↔ Exceeds height' candidate' best' := by
      rw [Exceeds, Exceeds, same, heights _ _ related]
    simp only [higher, exceeds]
    split
    · exact .some related
    · exact bests

end

namespace MapTree

variable (t : MapTree) (library : Library)

/-- The location is in a placed model that some slot of the map holds, and the area is the one there. -/
def FloorsAgree (area : Area) (location : Location) : Prop :=
  area.IsAt location ∧
    ∃ slot, t.present? library slot = .ok (some (location.placement, location.model))

theorem alongside_visitArea (point : Vec) :
    Alongside (Option.Rel (t.FloorsAgree library)) (t.visitArea library point)
      (t.visitLocation library point) := by
  intro slot best best' bests
  simp only [visitArea, visitLocation]
  cases found : t.present? library slot with
  | error failure => exact .failed failure
  | ok present =>
    cases present with
    | none => exact .returned bests
    | some present =>
      obtain ⟨placement, model⟩ := present
      refine (placement.sameOutcome_area? model point).bind ?_
      intro new new' news
      have heights (area : Area) (location : Location) (agree : t.FloorsAgree library area location) :
          area.height = location.height := agree.1.height
      refine .returned (rel_higher heights bests ?_)
      cases news with
      | none => exact .none
      | some isIn =>
        obtain ⟨isAt, rfl, rfl⟩ := isIn
        exact .some ⟨isAt, slot, found⟩

theorem sameOutcome_area? (point : Vec) :
    SameOutcome (Option.Rel (t.FloorsAgree library)) (t.area? library point)
      (t.location? library point) :=
  sameOutcome_walkPoint (t.alongside_visitArea library point) t.tree point .none

end MapTree

/-! ### The atlas -/

namespace Atlas

variable {a : Atlas} {map : UInt32} {point : Vec}

/-- A liquid is told of at a location, and the floor of the location is reported with it. -/
theorem exists_location_of_liquid? {kinds : UInt8} {liquid : LiquidLevel}
    (found : a.liquid? map point kinds = .ok (some liquid)) :
    ∃ tree location, a.maps[map]? = some tree ∧
      tree.location? a.library (reflect point) = .ok (some location) ∧
      location.height = liquid.floor := by
  rw [liquid?] at found
  split at found
  next => cases found
  next tree asked =>
    rw [asked?, Option.ite_none_left_eq_some] at asked
    obtain ⟨location?, located, found⟩ := bind_eq_ok.mp found
    cases location? with
    | none => cases found
    | some location =>
      refine ⟨tree, location, asked.2, located, ?_⟩
      obtain ⟨group, -, found⟩ := bind_eq_ok.mp found
      dsimp only at found
      split at found
      next => cases found
      next =>
        obtain ⟨level, -, found⟩ := bind_eq_ok.mp found
        cases level with
        | none => cases found
        | some level =>
          cases found
          rfl

/-- The area at a point is what can be read at the location there, whatever the state of the map and of
the library: there is none where there is no location, and one scan fails where the other does. So in any
atlas that answers questions about areas, a point with a liquid has an area, and landing there ends on the
floor that is reported with the liquid. -/
theorem area?_agrees_location? :
    (∀ (t : MapTree) (library : Library) (point : Vec),
      SameOutcome (Option.Rel (t.FloorsAgree library)) (t.area? library point)
        (t.location? library point)) ∧
    ∀ (a : Atlas) (map : UInt32) (point : Vec) (kinds : UInt8) (liquid : LiquidLevel),
      a.isDisabled map areaQuestion = false → a.liquid? map point kinds = .ok (some liquid) →
        ∃ area, a.area? map point = .ok (some area) ∧ area.height = liquid.floor ∧
          a.land map point = .ok (some area, { point with z := liquid.floor }) := by
  refine ⟨MapTree.sameOutcome_area?, fun a map point kinds liquid enabled found => ?_⟩
  obtain ⟨tree, location, opened, located, floor⟩ := exists_location_of_liquid? found
  obtain ⟨area?, told, agree⟩ := (tree.sameOutcome_area? a.library (reflect point)).right located
  cases agree with
  | @some area _ agree =>
    have asked : a.area? map point = .ok (some area) := by
      simp only [Atlas.area?, asked?, enabled, Bool.false_eq_true, if_false, opened]
      exact told
    have height : area.height = liquid.floor := agree.1.height.trans floor
    refine ⟨area, asked, height, ?_⟩
    rw [land, asked, ← height]
    rfl

/-- A basin with a floor and some water above it. -/
def basin : Model :=
  let tree : Hierarchy := ⟨#[.leaf 0 1], #[0], ⟨⟨0, 0, 0⟩, ⟨1, 1, 1⟩⟩⟩
  let corners : Array Vec := #[⟨0, 0, 0⟩, ⟨1, 0, 0⟩, ⟨0, 1, 0⟩]
  let liquid := { Liquid.flat 1 1 ⟨0, 0, 0⟩ 1 with heights := #[0.5, 0.5, 0.5, 0.5] }
  ⟨7, #[⟨⟨⟨0, 0, 0⟩, ⟨1, 1, 1⟩⟩, 8, 9, corners, #[⟨0, 1, 2⟩], tree, some liquid⟩], tree⟩

/-- An atlas with one open map, in which the basin stands. -/
def basinAtlas : Atlas :=
  let placement : Placement :=
    { flags := 0, terrain := 3, id := 4, bounds := ⟨⟨0, 0, 0⟩, ⟨1, 1, 1⟩⟩, model := "basin" }
  let tree : Hierarchy := ⟨#[.leaf 0 1], #[0], ⟨⟨0, 0, 0⟩, ⟨1, 1, 1⟩⟩⟩
  let opened : MapTree :=
    { map := 0
      tree
      slots := #[some ⟨placement, some ⟨"basin", 0⟩⟩]
      uses := (∅ : Std.TreeMap Nat Nat).insert 0 1 }
  { maps := (∅ : Std.TreeMap UInt32 MapTree).insert 0 opened
    library :=
      { models := (∅ : Std.TreeMap String Loaded).insert "basin" ⟨basin, 0, 1⟩, loads := 1 } }

/-- A point above the water of the basin. -/
def abovePool : Vec := reflect ⟨0.25, 0.25, 0.75⟩

theorem area?_agrees_location?_basin :
    basinAtlas.liquid? 0 abovePool 2 = .ok (some ⟨0.5, 0, 2⟩) ∧
      ∃ area, basinAtlas.area? 0 abovePool = .ok (some area) ∧
        basinAtlas.land 0 abovePool = .ok (some area, { abovePool with z := 0 }) := by
  have enabled : basinAtlas.isDisabled 0 areaQuestion = false := by decide +kernel
  have water : basinAtlas.liquid? 0 abovePool 2 = .ok (some ⟨0.5, 0, 2⟩) := by decide +kernel
  obtain ⟨area, told, -, landed⟩ := area?_agrees_location?.2 _ _ _ _ _ enabled water
  exact ⟨water, area, told, landed⟩

end Atlas

end Sightline
