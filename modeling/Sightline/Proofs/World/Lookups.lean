import Sightline.Proofs.Mesh.Lookups
import Sightline.Proofs.World.Later
import Sightline.Proofs.World.TileRuns
import Sightline.World.MapQuery

/-!
# Look-ups in maps that were opened

The tree of a map that could be opened names slots of the map only, whichever tiles are loaded later. So
questions to the map find all slots they come to, and the models in the slots, which come from files, find
all they look up as well.
-/
namespace Sightline

open Hierarchy

/-! ### Placed models -/

namespace Placement

variable {model : Model}

theorem safe_castRay (checked : model.Checked) (p : Placement) (ray : Ray) (stop : Bool)
    (reach : Single) : Safe (p.castRay model ray stop reach) := by
  rw [castRay]
  split
  · trivial
  · exact (checked.safe_castRay _ stop _).bind fun _ _ => trivial

theorem safe_area? (checked : model.Checked) (p : Placement) (point : Vec) :
    Safe (p.area? model point) := by
  rw [area?]
  split
  · trivial
  · refine (checked.safe_floorBelow? _ _).bind ?_
    rintro (_ | floor) - <;> trivial

theorem safe_location? (checked : model.Checked) (p : Placement) (point : Vec) :
    Safe (p.location? model point) := by
  rw [location?]
  split
  · trivial
  · refine (checked.safely_groupBelow? _ _).bind ?_
    rintro (_ | found) - <;> trivial

end Placement

/-! ### Maps -/

theorem Library.FromFiles.checked {l : Library} (fromFiles : l.FromFiles) {handle : Handle}
    {model : Model} (leads : l.model? handle = some model) : model.Checked := by
  simp only [Library.model?, Option.map_eq_some_iff, Option.filter_eq_some_iff] at leads
  obtain ⟨entry, ⟨found, -⟩, rfl⟩ := leads
  obtain ⟨bytes, rest, read⟩ := fromFiles handle.name entry found
  exact Model.checked_of_read read

namespace MapTree

variable {d : Directory} {t : MapTree} {library : Library}

theorem safely_present? (fromFiles : library.FromFiles) {slot : Nat} (inside : slot < t.slots.size) :
    Safely (fun present => ∀ found ∈ present, found.2.Checked) (t.present? library slot) := by
  refine (safely_fetch inside).bind ?_
  -- a model that is there was read from a file, by whichever user of the library
  rintro occupant? - ⟨placement, model⟩ found
  obtain ⟨occupant, -, found⟩ := Option.bind_eq_some_iff.mp found
  obtain ⟨handle, -, found⟩ := Option.bind_eq_some_iff.mp found
  obtain ⟨other, leads, same⟩ := Option.bind_eq_some_iff.mp found
  cases same
  exact fromFiles.checked leads

theorem safeBelow_visitSlot (fromFiles : library.FromFiles) (ray : Ray) (stop : Bool) :
    SafeBelow (t.visitSlot library ray stop) t.slots.size := by
  intro slot inside progress
  refine (safely_present? fromFiles inside).bind ?_
  rintro (_ | ⟨placement, model⟩) known
  · trivial
  · exact (placement.safe_castRay (known _ rfl) ray stop _).bind fun _ _ => trivial

theorem keepsBelow_visitArea (fromFiles : library.FromFiles) (point : Vec) :
    KeepsBelow (t.visitArea library point) (fun _ => True) t.slots.size := by
  intro slot inside best _
  refine (safely_present? fromFiles inside).bind ?_
  rintro (_ | ⟨placement, model⟩) known
  · trivial
  · exact (placement.safe_area? (known _ rfl) point).bind fun _ _ => trivial

theorem keepsBelow_visitLocation (fromFiles : library.FromFiles) (point : Vec) :
    KeepsBelow (t.visitLocation library point) (fun _ => True) t.slots.size := by
  intro slot inside best _
  refine (safely_present? fromFiles inside).bind ?_
  rintro (_ | ⟨placement, model⟩) known
  · trivial
  · exact (placement.safe_location? (known _ rfl) point).bind fun _ _ => trivial

theorem safe_castRay? (meets : t.tree.MeetsBelow t.slots.size) (fromFiles : library.FromFiles)
    (ray : Ray) (stop : Bool) (reach : Single) : Safe (t.castRay? library ray stop reach) :=
  (safe_walkRay meets (safeBelow_visitSlot fromFiles ray stop) ray stop _).bind fun _ _ => trivial

theorem safe_sees (meets : t.tree.MeetsBelow t.slots.size) (fromFiles : library.FromFiles)
    (start goal : Vec) : Safe (t.sees library start goal) := by
  simp only [MapTree.sees]
  split
  · trivial
  · exact (safe_castRay? meets fromFiles _ true _).bind fun _ _ => trivial

theorem safe_hitBetween? (meets : t.tree.MeetsBelow t.slots.size) (fromFiles : library.FromFiles)
    (start goal : Vec) (shift : Single) : Safe (t.hitBetween? library start goal shift) := by
  simp only [hitBetween?]
  split
  · trivial
  · refine (safe_castRay? meets fromFiles _ false _).bind ?_
    rintro (_ | time) -
    · trivial
    · dsimp only
      split <;> trivial

theorem safe_heightBelow (meets : t.tree.MeetsBelow t.slots.size) (fromFiles : library.FromFiles)
    (point : Vec) (reach : Single) : Safe (t.heightBelow library point reach) := by
  refine (safe_castRay? meets fromFiles _ false reach).bind ?_
  rintro (_ | time) - <;> trivial

/-- A map that could be opened has a slot for every object of its tree. -/
theorem meetsBelow_of_openFile {map : UInt32} {before after : Library}
    (opens : openFile { map } before d = (.ok (), t, after)) :
    t.tree.MeetsBelow t.slots.size := by
  rw [openFile] at opens
  split at opens
  · cases opens
  next isTiled rest head =>
    dsimp only at opens
    split at opens
    · cases opens
    next tree rest read =>
      obtain ⟨_, afterLabel, label, read⟩ := run_bind_eq_ok.mp read
      obtain ⟨found, afterTree, readTree, read⟩ := run_bind_eq_ok.mp read
      obtain ⟨_, checked, result⟩ := run_check_eq_ok.mp read
      cases result
      have meets := meetsBelow_of_read readTree checked
      split at opens
      · cases opens
      · cases opens
        simpa using meets
      next p rest global =>
        -- the placement that covers the map goes into a slot that is there
        rw [placeGlobal] at opens
        split at opens
        · cases opens
        · split at opens
          · cases opens
          · cases opens
            simpa using meets

/-- No question to a map looks outside of its slots, or of a list in one of the models there, at whatever
step of a walk. -/
structure AnswersSafely (t : MapTree) (library : Library) : Prop where
  met : t.tree.MeetsBelow t.slots.size
  rayStep : ∀ (ray : Ray) (stop : Bool) (walk : RayWalk Bool),
    t.tree.rayStep ray (t.visitSlot library ray stop) stop walk ≠ .error .outOfRange
  areaStep : ∀ (point : Vec) (walk : PointWalk (Option Area)),
    t.tree.pointStep point (t.visitArea library point) walk ≠ .error .outOfRange
  locationStep : ∀ (point : Vec) (walk : PointWalk (Option Location)),
    t.tree.pointStep point (t.visitLocation library point) walk ≠ .error .outOfRange
  castRay : ∀ (ray : Ray) (stop : Bool) (reach : Single),
    t.castRay? library ray stop reach ≠ .error .outOfRange
  sees : ∀ start goal : Vec, t.sees library start goal ≠ .error .outOfRange
  hitBetween : ∀ (start goal : Vec) (shift : Single),
    t.hitBetween? library start goal shift ≠ .error .outOfRange
  heightBelow : ∀ (point : Vec) (reach : Single),
    t.heightBelow library point reach ≠ .error .outOfRange
  area : ∀ point : Vec, t.area? library point ≠ .error .outOfRange
  location : ∀ point : Vec, t.location? library point ≠ .error .outOfRange

theorem answersSafely (meets : t.tree.MeetsBelow t.slots.size) (fromFiles : library.FromFiles) :
    t.AnswersSafely library where
  met := meets
  rayStep ray stop walk :=
    (safe_rayStep meets (safeBelow_visitSlot fromFiles ray stop) ray stop walk).ne_outOfRange
  areaStep point _ :=
    (safely_pointStep meets (keepsBelow_visitArea fromFiles point) point trivial).ne_outOfRange
  locationStep point _ :=
    (safely_pointStep meets (keepsBelow_visitLocation fromFiles point) point trivial).ne_outOfRange
  castRay ray stop reach := (safe_castRay? meets fromFiles ray stop reach).ne_outOfRange
  sees start goal := (safe_sees meets fromFiles start goal).ne_outOfRange
  hitBetween start goal shift := (safe_hitBetween? meets fromFiles start goal shift).ne_outOfRange
  heightBelow point reach := (safe_heightBelow meets fromFiles point reach).ne_outOfRange
  area point :=
    (safely_walkPoint meets (keepsBelow_visitArea fromFiles point) point trivial).ne_outOfRange
  location point :=
    (safely_walkPoint meets (keepsBelow_visitLocation fromFiles point) point trivial).ne_outOfRange

/-- Whatever model is read and whatever map is opened, no question to them looks outside of a list. Tiles
may be loaded and unloaded from any files after the map was opened. -/
theorem answersSafely_of_read :
    (∀ {input rest : List UInt8} {m : Model},
      Model.reader.run input = .ok (m, rest) → m.AnswersSafely) ∧
    ∀ {map : UInt32} {d : Directory} {before after : Library} {opened : MapTree}
      {state : MapTree × Library}, before.FromFiles →
      openFile { map } before d = (.ok (), opened, after) →
      Later (fun _ => True) Library.FromFiles (opened, after) state →
        state.1.AnswersSafely state.2 := by
  constructor
  · intro input rest m read
    exact (Model.checked_of_read read).answersSafely
  · intro map d before after opened state fromFiles opens later
    have meets := meetsBelow_of_openFile opens
    have alike := later.alike
    rw [← alike.tree, ← alike.size] at meets
    exact answersSafely meets (later.fromFiles (fromFiles_openFile fromFiles opens))

/-- A model with one triangle and a liquid on one tile. -/
def pond : Model :=
  let tree : Hierarchy := ⟨#[.leaf 0 1], #[0], .zero⟩
  let corners : Array Vec := #[⟨0, 0, 0⟩, ⟨1, 0, 0⟩, ⟨0, 1, 0⟩]
  let liquid := Liquid.flat 1 1 ⟨0, 0, 0⟩ 0
  ⟨7, #[⟨.zero, 0, 1, corners, #[⟨0, 1, 2⟩], tree, some liquid⟩], tree⟩

theorem answersSafely_pond :
    (∃ m, Model.reader.run pond.toBytes = .ok (m, []) ∧ m.AnswersSafely) ∧
      ∃ opened after state, openFile { map := 0 } {} rocks = (.ok (), opened, after) ∧
        Later (fun _ => True) Library.FromFiles (opened, after) state ∧
        state.1.hasTile ⟨1, 2⟩ = true ∧ state.1.AnswersSafely state.2 := by
  have read : Model.reader.run pond.toBytes = .ok (_, []) := rfl
  have outcome : (openFile { map := 0 } {} rocks).1 = .ok () := by decide +kernel
  have opens : openFile { map := 0 } {} rocks = (.ok (), (openFile { map := 0 } {} rocks).2) :=
    Prod.ext outcome rfl
  have later : Later (fun _ => True) Library.FromFiles (openFile { map := 0 } {} rocks).2 _ :=
    .load (d := rocks) ⟨1, 2⟩ trivial .start
  refine ⟨⟨_, read, answersSafely_of_read.1 read⟩, _, _, _, opens, later, ?_,
    answersSafely_of_read.2 Library.fromFiles_empty opens later⟩
  decide +kernel

end MapTree

end Sightline
