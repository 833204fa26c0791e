import Sightline.Proofs.Placement.Highest
import Sightline.Proofs.World.Later
import Sightline.Proofs.World.Loading
import Sightline.World.MapQuery

/-!
# The highest floor of a map

A question about a point walks the tree of a map and asks the slots it comes to, one after another. What
it finds is the highest of the floors that all filled slots tell of alone: the slots that the walk leaves
out have boxes that do not contain the point, and such slots have nothing to tell. For that the boxes of
the tree have to be those of the placements in the slots, which they are in a map that was written with
its tiles, whatever becomes of it later.
-/
namespace Sightline.MapTree

open Hierarchy

variable {t : MapTree} {library : Library} {p : Vec} {slot : Nat}

section

variable {α : Type} {height : α → Single} {visit : PointVisitor (Option α)}

/-- A look-up finds the highest of the floors that filled slots tell of if they are visited alone. -/
structure FindsHighest (t : MapTree) (height : α → Single) (visit : PointVisitor (Option α))
    (found : Except Failure (Option α)) : Prop where
  /-- The look-up has a result if each filled slot has one. -/
  answers : (∃ best, found = .ok best) ↔
    ∀ slot, (t.occupant? slot).isSome = true → ∃ own, visit slot none = .ok own
  highest : ∀ best, found = .ok best → IsHighest height
    (fun floor => ∃ slot, (t.occupant? slot).isSome = true ∧ visit slot none = .ok (some floor)) best

/-- The slots are filled with placements of the boxes that the tree was built for. -/
structure Boxed (t : MapTree) (boxes : List Box) : Prop where
  tree : build boxes defaultLeafSize = .ok t.tree
  size : t.slots.size = boxes.length
  box : ∀ (slot : Nat) (occupant : Occupant), t.occupant? slot = some occupant →
    boxes[slot]? = some occupant.placement.bounds

/-- A slot is silent at a point outside of the box of its placement, also if it has none. -/
def SilentOutside (t : MapTree) (visit : PointVisitor (Option α)) (p : Vec) : Prop :=
  ∀ slot < t.slots.size,
    (∀ occupant, t.occupant? slot = some occupant → ¬occupant.placement.bounds.Contains p) →
      visit slot none = .ok none

theorem lt_size_of_occupant? {occupant : Occupant} (found : t.occupant? slot = some occupant) :
    slot < t.slots.size := by
  obtain ⟨filled, stands, -⟩ := Option.bind_eq_some_iff.mp found
  exact (Array.getElem?_eq_some_iff.mp stands).1

theorem Boxed.findsHighest {boxes : List Box} (boxed : t.Boxed boxes)
    (proper : ∀ box ∈ boxes, box.Proper) (keeps : ∀ slot, KeepsHigher height visit slot)
    (silent : t.SilentOutside visit p) :
    t.FindsHighest height visit (t.tree.walkPoint p visit none) := by
  -- a slot that is not filled tells of nothing, like one whose box does not contain the point
  have unfilled {slot : Nat} (known : slot < boxes.length) (empty : ¬(t.occupant? slot).isSome = true) :
      visit slot none = .ok none := by
    refine silent slot (boxed.size ▸ known) fun occupant found => ?_
    rw [found] at empty
    exact absurd rfl empty
  have outside (slot : Nat) (box : Box) (found : boxes[slot]? = some box) (away : ¬box.Contains p) :
      visit slot none = .ok none := by
    have known := (List.getElem?_eq_some_iff.mp found).1
    refine silent slot (boxed.size ▸ known) fun occupant stands contains => away ?_
    have same : box = occupant.placement.bounds :=
      Option.some.inj (found.symm.trans (boxed.box slot occupant stands))
    exact same ▸ contains
  have known {slot : Nat} (filled : (t.occupant? slot).isSome = true) : slot < boxes.length := by
    obtain ⟨occupant, found⟩ := Option.isSome_iff_exists.mp filled
    exact boxed.size ▸ lt_size_of_occupant? found
  obtain ⟨answers, highest⟩ :=
    isHighest_walkPoint proper boxed.tree (fun slot _ => keeps slot) outside
  constructor
  case answers =>
    rw [answers]
    constructor
    · intro all slot filled
      exact all slot (known filled)
    · intro all slot inside
      by_cases filled : (t.occupant? slot).isSome = true
      · exact all slot filled
      · exact ⟨none, unfilled inside filled⟩
  case highest =>
    intro best done
    refine (highest best done).congr fun floor => ?_
    constructor
    · rintro ⟨slot, inside, tells⟩
      refine ⟨slot, by_contra fun empty => ?_, tells⟩
      rw [unfilled inside empty] at tells
      cases tells
    · rintro ⟨slot, filled, tells⟩
      exact ⟨slot, known filled, tells⟩

/-- Nothing is found in a map without slots. -/
theorem findsHighest_of_no_slots (empty : t.tree = .empty) (slots : t.slots.size = 0) :
    t.FindsHighest height visit (t.tree.walkPoint p visit none) := by
  have unfilled (slot : Nat) : ¬(t.occupant? slot).isSome = true := by
    intro filled
    obtain ⟨occupant, found⟩ := Option.isSome_iff_exists.mp filled
    have inside := lt_size_of_occupant? found
    omega
  rw [empty]
  constructor
  case answers => exact ⟨fun _ slot filled => absurd filled (unfilled slot), fun _ => ⟨none, rfl⟩⟩
  case highest =>
    intro best done
    cases done
    exact isHighest_none.congr fun floor => by simp [unfilled]

end

/-! ### Areas -/

theorem present?_eq (library : Library) (inside : slot < t.slots.size) :
    t.present? library slot = .ok ((t.occupant? slot).bind fun occupant =>
      (occupant.handle.bind library.model?).map fun model => (occupant.placement, model)) := by
  have present : t.present? library slot = .ok (do
      let occupant ← t.occupant? slot
      let model ← library.model? (← occupant.handle)
      return (occupant.placement, model)) := by
    rw [present?, fetch, occupant?, Array.getElem?_eq_getElem inside]
    rfl
  -- both sides look for an occupant, its handle and its model, and end where one is missing
  rw [present]
  cases t.occupant? slot with
  | none => rfl
  | some occupant =>
    obtain ⟨placement, handle⟩ := occupant
    cases handle with
    | none => rfl
    | some handle =>
      dsimp
      cases library.model? handle <;> rfl

theorem keepsHigher_visitArea (t : MapTree) (library : Library) (p : Vec) (slot : Nat) :
    KeepsHigher Area.height (t.visitArea library p) slot := by
  cases present : t.present? library slot with
  | error failure =>
    intro best
    simp only [visitArea, present]
    rfl
  | ok found =>
    cases found with
    | none =>
      -- without a model the visit leaves what was found
      intro best
      simp only [visitArea, present]
      rfl
    | some found =>
      obtain ⟨placement, model⟩ := found
      have visits (best : Option Area) : t.visitArea library p slot best =
          (placement.area? model p).map (higher Area.height best) := by
        simp only [visitArea, present]
        rfl
      exact keepsHigher_of_answer visits

theorem silentOutside_visitArea (t : MapTree) (library : Library) (p : Vec) :
    t.SilentOutside (t.visitArea library p) p := by
  intro slot inside outside
  simp only [visitArea, present?_eq library inside]
  cases found : t.occupant? slot with
  | none => rfl
  | some occupant =>
    cases leads : occupant.handle.bind library.model? with
    | none =>
      simp only [Option.bind_some, leads]
      rfl
    | some model =>
      -- the placed model is there, and leaves out what its box does not contain
      have away : ¬occupant.placement.Covers p := fun covers => outside occupant found covers.2
      have silent : occupant.placement.area? model p = .ok none := if_pos away
      simp only [Option.bind_some, leads, Option.map_some]
      change Except.map (higher Area.height none) (occupant.placement.area? model p) = _
      rw [silent]
      rfl

/-! ### Written maps -/

variable {calls : List Call} {d : Directory} {map : UInt32} {m settled : MapPlan}

/-- Whatever is read of the tiles of a written map belongs in its slot. -/
theorem inSlot_of_recordsOf (files : Assembly.MapFiles map m d) (keyed : m.Keyed)
    (bounded : ∀ (id : UInt32) (p : Placement), m.placements[id]? = some p → p.Has Placement.bounded)
    (opened : Opened map m t) (tile : Tile) :
    ∀ record ∈ t.recordsOf d tile, InSlot m record.slot record.placement := by
  rw [recordsOf, if_pos opened.isTiled]
  intro record listed
  obtain ⟨placement, stands, rfl⟩ :=
    mem_tileRecords files keyed bounded opened.fresh.map tile record listed
  exact ⟨placement.id, (MapPlan.slotOf_eq (by rw [stands]; rfl)).mp rfl, stands⟩

/-- The boxes in the slots of a written map are those of its tree, whatever becomes of the map. -/
theorem Later.boxed {libraries : Library → Prop} {state : MapTree × Library}
    (files : Assembly.MapFiles map m d) (keyed : m.Keyed)
    (bounded : ∀ (id : UInt32) (p : Placement), m.placements[id]? = some p → p.Has Placement.bounded)
    (opened : Opened map m t) (later : Later (· = d) libraries (t, library) state) :
    state.1.Boxed m.boxes := by
  have occupied : Occupied (InSlot m) state.1 := by
    refine later.occupied (opened.fresh.occupied _) ?_
    rintro _ rfl tile record listed
    exact inSlot_of_recordsOf files keyed bounded opened tile record listed
  constructor
  case tree =>
    rw [later.alike.tree]
    exact opened.tree
  case size => exact later.alike.size.trans opened.size
  case box =>
    intro slot occupant found
    obtain ⟨id, stands, placed⟩ := occupied slot occupant found
    exact MapPlan.bounds_eq stands placed

/-- On a map that was written with its tiles, the area at a point is the highest of those that filled
slots tell of alone, whichever tiles were loaded and unloaded and whatever became of the models. -/
theorem area?_findsHighest {a : Assembly}
    (written : (Assembly.ofCalls calls).write {} = .ok (.ok (), a, d))
    (known : a.maps[map]? = some m) (tiled : m.tiles[MapPlan.globalTile]? = none)
    (proper : ∀ box ∈ m.boxes, box.Proper) {before : Library} {state : MapTree × Library}
    (later : Later (· = d) (fun _ => True) (openFile { map } before d).2 state) (p : Vec) :
    state.1.FindsHighest Area.height (state.1.visitArea state.2 p) (state.1.area? state.2 p) := by
  obtain ⟨plan, stands, settles, files⟩ :=
    Assembly.mapFiles_of_write (fun _ _ stands => (Assembly.follows_of_plan stands).keyed) written known
  have keyed := settles.keyed (Assembly.follows_of_plan stands).keyed
  obtain ⟨t, opens, opened | ⟨tree, slots⟩⟩ := openFile_tiled files tiled before
  · rw [opens] at later
    have boxed := later.boxed files keyed (fun _ _ => settles.boxed) opened
    exact boxed.findsHighest proper (keepsHigher_visitArea _ _ p) (silentOutside_visitArea _ _ p)
  · -- a map whose tree cannot be read never gets any slots
    rw [opens] at later
    refine findsHighest_of_no_slots (later.alike.tree.trans tree) ?_
    rw [later.alike.size, slots]
    rfl

/-- The quarry after a while, with one of its tiles loaded. -/
def lateQuarry : MapTree × Library :=
  let opened := (openFile { map := 0 } {} writtenQuarry.2).2
  let first := (opened.1.loadTile opened.2 writtenQuarry.2 ⟨32, 33⟩).2
  let both := (first.1.loadTile first.2 writtenQuarry.2 ⟨32, 32⟩).2
  both.1.unloadTile both.2 writtenQuarry.2 ⟨32, 32⟩

theorem later_lateQuarry : Later (· = writtenQuarry.2) (fun _ => True)
    (openFile { map := 0 } {} writtenQuarry.2).2 lateQuarry := by
  have here : (fun d => d = writtenQuarry.2) writtenQuarry.2 := rfl
  rw [lateQuarry]
  exact .unload ⟨32, 32⟩ here (.load ⟨32, 32⟩ here (.load ⟨32, 33⟩ here .start))

theorem area?_findsHighest_quarry : ∃ a d m,
    (Assembly.ofCalls quarry).write {} = .ok (.ok (), a, d) ∧ a.maps[(0 : UInt32)]? = some m ∧
      m.tiles[MapPlan.globalTile]? = none ∧ (∀ box ∈ m.boxes, box.Proper) ∧
      Later (· = d) (fun _ => True) (openFile { map := 0 } {} d).2 lateQuarry ∧
      (∃ area, lateQuarry.1.area? lateQuarry.2 ⟨0.25, 0.25, 0.75⟩ = .ok (some area)) ∧
      lateQuarry.1.FindsHighest Area.height (lateQuarry.1.visitArea lateQuarry.2 ⟨0.25, 0.25, 0.75⟩)
        (lateQuarry.1.area? lateQuarry.2 ⟨0.25, 0.25, 0.75⟩) := by
  have isKnown : (writtenQuarry.1.maps[(0 : UInt32)]?).isSome = true := by decide +kernel
  have each : ∀ entry ∈ writtenQuarry.1.maps.toList,
      entry.2.tiles[MapPlan.globalTile]? = none ∧ ∀ box ∈ entry.2.boxes, box.Proper := by
    decide +kernel
  obtain ⟨m, known⟩ := Option.isSome_iff_exists.mp isKnown
  obtain ⟨tiled, proper⟩ := each _ (Std.TreeMap.mem_toList_iff_getElem?_eq_some.mpr known)
  have answered : (lateQuarry.1.area? lateQuarry.2 ⟨0.25, 0.25, 0.75⟩).toOption.join.isSome = true := by
    decide +kernel
  refine ⟨_, _, m, write_quarry, known, tiled, proper, later_lateQuarry, ?_,
    area?_findsHighest write_quarry known tiled proper later_lateQuarry _⟩
  cases found : lateQuarry.1.area? lateQuarry.2 ⟨0.25, 0.25, 0.75⟩ with
  | error failure =>
    rw [found] at answered
    cases answered
  | ok best =>
    rw [found] at answered
    obtain ⟨area, rfl⟩ := Option.isSome_iff_exists.mp answered
    exact ⟨area, rfl⟩

end Sightline.MapTree
