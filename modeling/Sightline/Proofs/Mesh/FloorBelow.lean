import Sightline.Proofs.Mesh.HitTimes
import Sightline.Proofs.Mesh.Stored
import Sightline.Proofs.Placement.Highest

/-!
# The closest floor of a model

A model asks its groups for their floors below a point and keeps the closest one, the highest if one
counts distances downwards. Groups whose bounds do not contain the point have no floor there, so it
does no harm that the walk leaves some of them out.
-/
namespace Sightline

open Hierarchy

/-! ### Distances -/

/-- A floor is a finite distance away. -/
theorem Group.isFinite_floorBelow? {g : Group} {p down : Vec} {distance : Single}
    (found : g.floorBelow? p down = .ok (some distance)) : distance.isFinite = true := by
  rw [floorBelow?] at found
  split at found
  next => cases found
  next =>
    obtain ⟨⟨hit, rest⟩, cast, result⟩ := bind_eq_ok.mp found
    cases hit with
    | false => cases result
    | true =>
      cases result
      -- the way down is the time of a triangle, which is positive and finite, less the lift
      obtain ⟨member, -⟩ := (castRay_tells cast).met rfl
      obtain ⟨positive, bounded⟩ := hitTimes_pos rest member
      have zero : (0 : Single).rank = 0 := by decide +kernel
      have above := positive.2.2
      have below := bounded.2.2
      rw [Single.rank_infinity] at below
      have finite : rest.isFinite = true := by
        rw [Single.isFinite_iff]
        omega
      exact Single.isFinite_sub finite (by decide +kernel) (by omega) (by decide +kernel)

theorem Group.floorBelow?_outside {g : Group} {p : Vec} (down : Vec) (outside : ¬g.bounds.Contains p) :
    g.floorBelow? p down = .ok none := by
  rw [floorBelow?, if_pos (by simp [outside])]

/-! ### Floors of groups -/

namespace Model

/-- Floors are the higher the shorter the way down to them is. -/
def floorHeight (floor : Nat × Single) : Single := -floor.2

/-- The floor of the group with some number. -/
def groupFloor? (m : Model) (p down : Vec) (index : Nat) : Except Failure (Option (Nat × Single)) := do
  let g ← fetch m.groups index
  return (← g.floorBelow? p down).map fun distance => (index, distance)

variable {m start : Model} {groups : List Group} {p down : Vec} {index : Nat} {g : Group}

theorem groupFloor?_eq (found : m.groups[index]? = some g) :
    m.groupFloor? p down index =
      (g.floorBelow? p down).map (Option.map fun distance => (index, distance)) := by
  have fetched : fetch m.groups index = .ok g := fetch_eq_ok.mpr found
  cases floor : g.floorBelow? p down with
  | error failure =>
    simp only [groupFloor?, fetched, floor, bind, Except.bind]
    rfl
  | ok distance? =>
    simp only [groupFloor?, fetched, floor, bind, Except.bind]
    rfl

/-- A visit keeps the higher of two floors: the one with the shorter way down. -/
theorem visitFloor_eq (best : Option (Nat × Single)) :
    m.visitFloor p down index best = (m.groupFloor? p down index).map (higher floorHeight best) := by
  cases fetched : fetch m.groups index with
  | error failure =>
    simp only [visitFloor, groupFloor?, fetched]
    rfl
  | ok g =>
    cases floor : g.floorBelow? p down with
    | error failure =>
      simp only [visitFloor, groupFloor?, fetched, floor, bind, Except.bind]
      rfl
    | ok distance? =>
      simp only [visitFloor, groupFloor?, fetched, floor, bind, Except.bind]
      cases distance? with
      | none => rfl
      | some distance =>
        cases best with
        | none =>
          -- every finite distance counts where no floor was found yet
          have finite := Single.isFinite_neg (Group.isFinite_floorBelow? floor)
          have above : Single.negativeInfinity < -distance := Single.negativeInfinity_lt finite
          simp [Except.map, pure, Except.pure, higher, Exceeds, floorHeight, above]
        | some before =>
          simp [Except.map, pure, Except.pure, higher, Exceeds, floorHeight, Single.neg_lt_neg_iff]

theorem visitFloor_none : m.visitFloor p down index none = m.groupFloor? p down index := by
  cases fetched : fetch m.groups index with
  | error failure =>
    simp only [visitFloor, groupFloor?, fetched]
    rfl
  | ok g =>
    cases floor : g.floorBelow? p down with
    | error failure =>
      simp only [visitFloor, groupFloor?, fetched, floor, bind, Except.bind]
    | ok distance? =>
      simp only [visitFloor, groupFloor?, fetched, floor, bind, Except.bind]
      cases distance? <;> rfl

/-- What a group tells of its floor. -/
theorem groupFloor?_eq_some {floor : Nat × Single} :
    m.groupFloor? p down index = .ok (some floor) ↔
      floor.1 = index ∧ ∃ g, m.groups[index]? = some g ∧ g.floorBelow? p down = .ok (some floor.2) := by
  obtain ⟨number, distance⟩ := floor
  constructor
  · intro tells
    obtain ⟨g, fetched, rest⟩ := bind_eq_ok.mp tells
    obtain ⟨distance?, found, result⟩ := bind_eq_ok.mp rest
    cases distance? with
    | none => cases result
    | some distance =>
      cases result
      exact ⟨rfl, g, fetch_eq_ok.mp fetched, found⟩
  · rintro ⟨rfl, g, stands, found⟩
    rw [groupFloor?_eq stands, found]
    rfl

/-- A model without groups has an empty hierarchy, which holds no floors either. -/
theorem groupBelow?_eq (built : start.withGroups groups = .ok m) :
    m.groupBelow? p down = m.tree.walkPoint p (m.visitFloor p down) none := by
  rw [groupBelow?]
  split
  next none =>
    obtain ⟨listed, tree⟩ := withGroups_built built
    rw [Array.isEmpty_iff.mp none] at listed
    rw [← listed] at tree
    have empty : m.tree = .empty := (Except.ok.inj tree).symm
    rw [empty]
    rfl
  next => rfl

/-- There is an answer if all groups have one, and it is the highest of their floors. -/
theorem groupBelow?_isHighest (built : start.withGroups groups = .ok m)
    (proper : ∀ g ∈ groups, g.bounds.Proper) (p down : Vec) :
    ((∃ below, m.groupBelow? p down = .ok below) ↔
        ∀ g ∈ groups, ∃ floor, g.floorBelow? p down = .ok floor) ∧
      ∀ below, m.groupBelow? p down = .ok below → IsHighest floorHeight
        (fun floor => ∃ g, groups[floor.1]? = some g ∧ g.floorBelow? p down = .ok (some floor.2))
        below := by
  obtain ⟨rfl, tree⟩ := withGroups_built built
  have stands {index : Nat} (known : index < m.groups.toList.length) :
      m.groups[index]? = some m.groups.toList[index] := by
    rw [← Array.getElem?_toList]
    exact List.getElem?_eq_getElem known
  have properBoxes : ∀ box ∈ m.groups.toList.map Group.bounds, box.Proper := by
    intro box listed
    obtain ⟨g, member, rfl⟩ := List.mem_map.mp listed
    exact proper g member
  have keeps (index : Nat) : KeepsHigher floorHeight (m.visitFloor p down) index :=
    keepsHigher_of_answer visitFloor_eq
  have silent (index : Nat) (box : Box) (found : (m.groups.toList.map Group.bounds)[index]? = some box)
      (outside : ¬box.Contains p) : m.visitFloor p down index none = .ok none := by
    rw [List.getElem?_map, Option.map_eq_some_iff] at found
    obtain ⟨g, found, rfl⟩ := found
    rw [Array.getElem?_toList] at found
    rw [visitFloor_none, groupFloor?_eq found, Group.floorBelow?_outside down outside]
    rfl
  -- each group keeps the higher floor, and those that the walk leaves out have none
  obtain ⟨answers, highest⟩ :=
    isHighest_walkPoint properBoxes tree (fun index _ => keeps index) silent
  -- what is left is to say the same of groups, not of their numbers
  simp only [visitFloor_none, List.length_map] at answers highest
  rw [groupBelow?_eq built]
  constructor
  · rw [answers]
    constructor
    · intro all g member
      obtain ⟨index, known, rfl⟩ := List.mem_iff_getElem.mp member
      obtain ⟨own, told⟩ := all index known
      rw [groupFloor?_eq (stands known)] at told
      obtain ⟨floor, asked, -⟩ := map_eq_ok.mp told
      exact ⟨floor, asked⟩
    · intro all index known
      obtain ⟨floor, asked⟩ := all _ (List.getElem_mem known)
      rw [groupFloor?_eq (stands known), asked]
      exact ⟨_, rfl⟩
  · intro below found
    refine (highest below found).congr fun floor => ?_
    constructor
    · rintro ⟨index, known, told⟩
      obtain ⟨rfl, g, found, asked⟩ := groupFloor?_eq_some.mp told
      exact ⟨g, Array.getElem?_toList.trans found, asked⟩
    · rintro ⟨g, found, asked⟩
      have known := (List.getElem?_eq_some_iff.mp found).1
      exact ⟨floor.1, known,
        groupFloor?_eq_some.mpr ⟨rfl, g, Array.getElem?_toList.symm.trans found, asked⟩⟩

/-- A group is below a point exactly if some group has a floor there, and then it is one with the
closest floor, which is what is told of the model. The groups are all asked: there is an answer if each
of them has one. -/
theorem groupBelow?_closest (built : start.withGroups groups = .ok m)
    (proper : ∀ g ∈ groups, g.bounds.Proper) (p down : Vec) :
    ((∃ below, m.groupBelow? p down = .ok below) ↔
        ∀ g ∈ groups, ∃ floor, g.floorBelow? p down = .ok floor) ∧
      ∀ below, m.groupBelow? p down = .ok below →
        (below = none ↔ ∀ g ∈ groups, g.floorBelow? p down = .ok none) ∧
        (below = none → m.floorBelow? p down = .ok none) ∧
        ∀ index distance, below = some (index, distance) →
          ∃ g, groups[index]? = some g ∧ g.floorBelow? p down = .ok (some distance) ∧
            (∀ other ∈ groups, ∀ away, other.floorBelow? p down = .ok (some away) →
              distance ≤ away) ∧
            m.floorBelow? p down = .ok (some ⟨m.root, g.id, g.flags, distance⟩) := by
  obtain ⟨answers, highest⟩ := groupBelow?_isHighest built proper p down
  refine ⟨answers, fun below found => ?_⟩
  have best := highest below found
  refine ⟨best.none_iff.trans ⟨fun untold g member => ?_, fun silent floor told => ?_⟩, ?_, ?_⟩
  · -- the group was asked, and a floor of it would be one of the floors to choose from
    obtain ⟨floor, asked⟩ := answers.mp ⟨below, found⟩ g member
    cases floor with
    | none => exact asked
    | some distance =>
      obtain ⟨index, stands⟩ := List.mem_iff_getElem?.mp member
      exact absurd ⟨g, stands, asked⟩ (untold (index, distance))
  · obtain ⟨g, stands, asked⟩ := told
    rw [silent g (List.mem_of_getElem? stands)] at asked
    cases asked
  · rintro rfl
    rw [floorBelow?, found]
    rfl
  · rintro index distance rfl
    obtain ⟨g, stands, asked⟩ := best.origin _ rfl
    refine ⟨g, stands, asked, fun other member away askedOther => ?_, ?_⟩
    · -- the highest of the floors is the one with the shortest way down
      obtain ⟨place, standsOther⟩ := List.mem_iff_getElem?.mp member
      exact Single.neg_le_neg_iff.mp
        (best.highest _ rfl (place, away) ⟨other, standsOther, askedOther⟩)
    · obtain ⟨listed, -⟩ := withGroups_built built
      rw [← listed, Array.getElem?_toList] at stands
      have fetched : fetch m.groups index = .ok g := fetch_eq_ok.mpr stands
      simp only [floorBelow?, found, bind, Except.bind, fetched]
      rfl

end Model

/-- A floor at some height of a house. -/
def floorAt (id : UInt32) (height : Single) : Group :=
  { bounds := ⟨⟨0, 0, 0⟩, ⟨1, 1, 2⟩⟩
    flags := 0
    id := id
    vertices := #[⟨0, 0, height⟩, ⟨1, 0, height⟩, ⟨0, 1, height⟩]
    triangles := #[⟨0, 1, 2⟩]
    tree := ⟨#[.leaf 0 1], #[0], ⟨⟨0, 0, height⟩, ⟨1, 1, height⟩⟩⟩ }

/-- A house of three floors, whose bounds are all the same. -/
def house : List Group := [floorAt 1 0, floorAt 2 0.5, floorAt 3 1.5]

theorem Model.groupBelow?_closest_house :
    ∃ m, ({ root := 7 } : Model).withGroups house = .ok m ∧
      m.groupBelow? ⟨0.25, 0.25, 1⟩ ⟨0, 0, -1⟩ = .ok (some (1, 0.5)) ∧
      (∀ other ∈ house, ∀ away, other.floorBelow? ⟨0.25, 0.25, 1⟩ ⟨0, 0, -1⟩ = .ok (some away) →
        (0.5 : Single) ≤ away) ∧
      m.floorBelow? ⟨0.25, 0.25, 1⟩ ⟨0, 0, -1⟩ = .ok (some ⟨7, 2, 0, 0.5⟩) := by
  have built : ({ root := 7 } : Model).withGroups house =
      .ok ⟨7, house.toArray, ⟨#[.leaf 0 3], #[1, 2, 0], ⟨⟨0, 0, 0⟩, ⟨1, 1, 2⟩⟩⟩⟩ := by
    decide +kernel
  have proper : ∀ g ∈ house, g.bounds.Proper := by decide +kernel
  have found : (⟨7, house.toArray, ⟨#[.leaf 0 3], #[1, 2, 0], ⟨⟨0, 0, 0⟩, ⟨1, 1, 2⟩⟩⟩⟩ :
      Model).groupBelow? ⟨0.25, 0.25, 1⟩ ⟨0, 0, -1⟩ = .ok (some (1, 0.5)) := by decide +kernel
  obtain ⟨-, -, closest⟩ :=
    (groupBelow?_closest built proper ⟨0.25, 0.25, 1⟩ ⟨0, 0, -1⟩).2 _ found
  obtain ⟨g, second, -, least, told⟩ := closest 1 0.5 rfl
  obtain rfl : floorAt 2 0.5 = g := Option.some.inj second
  exact ⟨_, built, found, least, told⟩

end Sightline
