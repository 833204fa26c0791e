import Sightline.Proofs.World.Areas
import Sightline.Proofs.World.References
import Sightline.Proofs.World.Twins

/-!
# Maps that do not disturb each other

What else is in its library makes no difference to a map: loading and unloading a tile makes twins of
twins, with the same outcome, and furnished twins give the same answers. So what is done with one map of
an atlas does not show in the answers of any other map.
-/
namespace Sightline

open Library

namespace MapTree

variable {d : Directory} {t u : MapTree} {l k : Library} {record : Record} {records : List Record}
  {tile : Tile} {map : UInt32}

/-! ### Opening -/

/-- How the opening of a map ends does not depend on what the library has from elsewhere. -/
theorem openFile_same (map : UInt32) (d : Directory) :
    (∃ (fault : Fault) (t : MapTree), ∀ library : Library, library.Faithful d →
        openFile { map } library d = (.error fault, t, library)) ∨
      ∃ (t : MapTree) (global : List Record), Fresh map t ∧
        (∀ record ∈ global, record.slot < t.slots.size) ∧ ∀ library : Library, library.Faithful d →
          openFile { map } library d = (.ok (), global.foldl (attach d) (t, library)) := by
  cases head : d.read (treeFileName map) >>= headReader.run with
  | error fault => exact .inl ⟨fault, _, fun library _ => by rw [openFile, head]⟩
  | ok result =>
    obtain ⟨isTiled, rest⟩ := result
    cases read : treeReader.run rest with
    | error fault =>
      refine .inl ⟨fault, { map, isTiled }, fun library _ => ?_⟩
      simp only [openFile, head, read]
    | ok result =>
      obtain ⟨tree, rest⟩ := result
      let opened : MapTree :=
        { map, isTiled, isReady := true, tree, slots := Array.replicate tree.objects.size none }
      have fresh : Fresh map opened := ⟨rfl, rfl, ⟨_, rfl⟩, rfl, rfl⟩
      cases covering : (globalReader isTiled).run rest with
      | error fault =>
        refine .inl ⟨fault, opened, fun library _ => ?_⟩
        simp only [openFile, head, read, covering]
        rfl
      | ok result =>
        obtain ⟨global, rest⟩ := result
        cases global with
        | none =>
          refine .inr ⟨opened, [], fresh, List.forall_mem_nil _, fun library _ => ?_⟩
          simp only [openFile, head, read, covering]
          rfl
        | some p =>
          have opens (library : Library) :
              openFile { map } library d = opened.placeGlobal library d p := by
            simp only [openFile, head, read, covering]
            rfl
          by_cases full : opened.slots.isEmpty = true
          · exact .inl ⟨_, _, fun library _ => by rw [opens, placeGlobal, if_pos full]⟩
          · have room : 0 < opened.slots.size := by
              rw [Array.isEmpty_iff_size_eq_zero] at full
              exact Nat.pos_of_ne_zero full
            by_cases readable : CanRead d p.model
            · -- the placement is a record for the first slot
              refine .inr ⟨opened, [⟨p, 0⟩], fresh, by simpa using room, fun library faithful => ?_⟩
              obtain ⟨model, found⟩ := exists_model_of_canRead readable
              obtain ⟨handle, after, acquired, -⟩ := acquire_readable faithful found
              rw [opens, placeGlobal, if_neg full, acquired, List.foldl_cons, List.foldl_nil, attach,
                acquired]
              rfl
            · refine .inl ⟨.modelNotLoaded p.model, opened, fun library faithful => ?_⟩
              rw [opens, placeGlobal, if_neg full, acquire_unreadable faithful readable]

/-! ### Answers -/

namespace Twins

/-- Furnished twins have the same models in their slots. -/
theorem present? (twins : Twins t u) (mine : Furnishes d (t, l)) (yours : Furnishes d (u, k)) :
    u.present? k = t.present? l := by
  funext slot
  by_cases inside : slot < t.slots.size
  · have insideToo : slot < u.slots.size := by rwa [twins.alike.size]
    rw [present?_eq l inside, present?_eq k insideToo]
    have same := twins.placements slot
    cases here : t.occupant? slot with
    | none =>
      rw [here, Option.map_none, Option.map_eq_none_iff] at same
      rw [same]
      rfl
    | some occupant =>
      rw [here, Option.map_some] at same
      obtain ⟨other, there, placements⟩ := Option.map_eq_some_iff.mp same
      have found := (mine.furnished slot occupant here).found
      have foundToo := (yours.furnished slot other there).found
      rw [there, Option.bind_some, Option.bind_some, found, foundToo, placements]
  · have outside : t.slots[slot]? = none := Array.getElem?_eq_none (Nat.not_lt.mp inside)
    have outsideToo : u.slots[slot]? = none :=
      Array.getElem?_eq_none (by rw [twins.alike.size]; exact Nat.not_lt.mp inside)
    rw [MapTree.present?, MapTree.present?, fetch, fetch, outside, outsideToo]
    rfl

variable {question : Vec}

theorem visitSlot (present : u.present? k = t.present? l) : u.visitSlot k = t.visitSlot l := by
  funext ray stop slot progress
  rw [MapTree.visitSlot, MapTree.visitSlot, present]

theorem castRay? (twins : Twins t u) (present : u.present? k = t.present? l) :
    u.castRay? k = t.castRay? l := by
  funext ray stop reach
  rw [MapTree.castRay?, MapTree.castRay?, twins.alike.tree, visitSlot present]

end Twins

/-- Two maps with their libraries give the same answers to all questions. -/
structure AnswersAlike (t u : MapTree) (l k : Library) : Prop where
  sees : u.sees k = t.sees l
  hitBetween? : u.hitBetween? k = t.hitBetween? l
  heightBelow : u.heightBelow k = t.heightBelow l
  area? : u.area? k = t.area? l
  location? : u.location? k = t.location? l

theorem Twins.answersAlike (twins : Twins t u) (mine : Furnishes d (t, l))
    (yours : Furnishes d (u, k)) : AnswersAlike t u l k := by
  have present := twins.present? mine yours
  have casts := twins.castRay? present
  constructor
  case sees =>
    funext start goal
    rw [MapTree.sees, MapTree.sees, casts]
  case hitBetween? =>
    funext start goal shift
    rw [MapTree.hitBetween?, MapTree.hitBetween?, casts]
  case heightBelow =>
    funext point reach
    rw [MapTree.heightBelow, MapTree.heightBelow, casts]
  case area? =>
    have visits : u.visitArea k = t.visitArea l := by
      funext point slot best
      rw [visitArea, visitArea, present]
    funext point
    rw [MapTree.area?, MapTree.area?, twins.alike.tree, visits]
  case location? =>
    have visits : u.visitLocation k = t.visitLocation l := by
      funext point slot best
      rw [visitLocation, visitLocation, present]
    funext point
    rw [MapTree.location?, MapTree.location?, twins.alike.tree, visits]

end MapTree

namespace Atlas

variable {d : Directory} {a b : Atlas} {map : UInt32} {tile : Tile} {library : Library}
  {action : Action} {actions : List Action}

/-! ### All maps of an atlas -/

/-- The placements of all open maps have their models, and each is a use of its model. -/
structure Supplied (d : Directory) (a : Atlas) : Prop where
  balanced : ∃ held, Balanced d held a
  furnishes : ∀ (map : UInt32) (t : MapTree), a.maps[map]? = some t →
    MapTree.Furnishes d (t, a.library)
  faithful : a.library.Faithful d

theorem supplied_empty (d : Directory) (noMaps : a.maps = ∅) (noModels : a.library = {}) :
    Supplied d a where
  balanced := by
    refine ⟨[], ?_, nofun, ?_⟩
    · rw [noModels]
      exact serves_empty d
    · intro map t present
      simp [noMaps] at present
  furnishes map t present := by simp [noMaps] at present
  faithful := by
    rw [noModels]
    exact faithful_empty d

/-- An action leaves the atlas supplied if its library stays good for what is in the slots, and what
gets into slots is furnished. -/
theorem Supplied.next {after : Atlas} {held : List (UInt32 × Record)} (balanced : Balanced d held after)
    (faithful : after.library.Faithful d) (carries : library.Carries after.library)
    (slots : ∀ (map : UInt32) (t : MapTree), after.maps[map]? = some t →
      ∀ (slot : Nat) (occupant : Occupant), t.occupant? slot = some occupant →
        MapTree.Furnished d library occupant ∨ MapTree.Furnished d after.library occupant) :
    Supplied d after where
  balanced := ⟨held, balanced⟩
  faithful := faithful
  furnishes map t present := by
    refine ⟨faithful, fun slot occupant found => ?_⟩
    rcases slots map t present slot occupant found with before | now
    · have refers := (balanced.refers map t present).2
      exact before.carry carries (refers.used found)
    · exact now

theorem openMap_furnishes (supplied : Supplied d a) {t : MapTree}
    (opens : a.openMap d map = .ok (t, library)) :
    MapTree.Furnishes d (t, library) ∧ a.library.Extends library := by
  rw [openMap] at opens
  split at opens
  next t present =>
    cases opens
    exact ⟨supplied.furnishes map _ present, fun _ _ leads => leads⟩
  next =>
    rcases MapTree.openFile_same map d with ⟨fault, t, fails⟩ | ⟨t, global, fresh, fit, succeeds⟩
    · rw [fails a.library supplied.faithful] at opens
      cases opens
    · rw [succeeds a.library supplied.faithful] at opens
      obtain ⟨furnishes, longer⟩ := (fresh.furnishes supplied.faithful).foldl_attach fit
      cases opens
      exact ⟨furnishes, longer⟩

/-- Unloading parts of a map leaves an atlas supplied, whether the map stays open or not. -/
theorem Supplied.keepOrClose (supplied : Supplied d a) {t u : MapTree}
    (present : a.maps[map]? = some t)
    (kept : ∀ (slot : Nat) (occupant : Occupant), u.occupant? slot = some occupant →
      t.occupant? slot = some occupant)
    (sheds : a.library.Sheds library) {held : List (UInt32 × Record)}
    (balanced : Balanced d held (a.keepOrClose map u library)) :
    Supplied d (a.keepOrClose map u library) := by
  rw [Atlas.keepOrClose] at balanced ⊢
  split at balanced
  next empty =>
    rw [if_pos empty]
    have less := sheds.trans (MapTree.sheds_unloadAll u library)
    refine .next balanced (less.faithful supplied.faithful) less.carries ?_
    intro other v there slot occupant found
    rw [getElem?_erase] at there
    split at there
    · cases there
    · exact .inl ((supplied.furnishes other v there).furnished slot occupant found)
  next tiles =>
    rw [if_neg tiles]
    refine .next balanced (sheds.faithful supplied.faithful) sheds.carries ?_
    intro other v there slot occupant found
    rw [getElem?_insert] at there
    split at there
    · cases there
      exact .inl ((supplied.furnishes map t present).furnished slot occupant (kept slot occupant found))
    · exact .inl ((supplied.furnishes other v there).furnished slot occupant found)

theorem Supplied.act (supplied : Supplied d a) (one : MapTree.OneModelPerSlot d)
    (small : action.Small) : Supplied d (a.act d action) := by
  obtain ⟨held, balanced⟩ := supplied.balanced
  obtain ⟨more, next⟩ := balanced.act one small
  cases action with
  | loadTile map tile =>
    rw [Atlas.act, Atlas.loadTile] at next ⊢
    split
    · exact supplied
    next loads =>
      rw [if_neg loads] at next
      cases opens : a.openMap d map with
      | error library =>
        obtain rfl := Balanced.openMap_error opens
        exact supplied
      | ok opened =>
        obtain ⟨t, library⟩ := opened
        obtain ⟨furnishes, longer⟩ := openMap_furnishes supplied opens
        obtain ⟨after, longest⟩ := furnishes.loadTile tile
        simp only [opens] at next
        refine .next next after.faithful (longer.trans longest).carries ?_
        intro other v there slot occupant found
        rw [getElem?_insert] at there
        split at there
        · cases there
          exact .inr (after.furnished slot occupant found)
        · exact .inl ((supplied.furnishes other v there).furnished slot occupant found)
  | unloadTile map tile =>
    rw [Atlas.act, Atlas.unloadTile] at next ⊢
    cases present : a.maps[map]? with
    | none => exact supplied
    | some t =>
      simp only [present] at next
      exact supplied.keepOrClose present (fun _ _ => MapTree.occupant_of_unloadTile)
        (MapTree.sheds_unloadTile t a.library d tile) next
  | unloadMap map =>
    rw [Atlas.act, Atlas.unloadMap] at next ⊢
    cases present : a.maps[map]? with
    | none => exact supplied
    | some t =>
      simp only [present] at next
      exact supplied.keepOrClose present
        (MapTree.foldl_clearSlot t.uses.toList t.slots a.library).2
        (MapTree.sheds_unloadAll t a.library) next

/-! ### Actions about other maps -/

/-- The map that something is done with. -/
def Action.about : Action → UInt32
  | loadTile map _ => map
  | unloadTile map _ => map
  | unloadMap map => map

/-- The atlases differ in the maps and the library only. -/
structure SameSwitches (a b : Atlas) : Prop where
  sight : b.sight = a.sight
  height : b.height = a.height
  disabled : b.disabled = a.disabled

theorem keepOrClose_frame (a : Atlas) (map : UInt32) (t : MapTree) (library : Library) :
    SameSwitches a (a.keepOrClose map t library) ∧
      ∀ other, map ≠ other → (a.keepOrClose map t library).maps[other]? = a.maps[other]? := by
  rw [keepOrClose]
  split
  · refine ⟨⟨rfl, rfl, rfl⟩, fun other differs => ?_⟩
    rw [getElem?_erase, if_neg differs]
  · refine ⟨⟨rfl, rfl, rfl⟩, fun other differs => ?_⟩
    rw [getElem?_insert, if_neg differs]

/-- An action leaves all maps but one as they are, and what is answered at all. -/
theorem act_frame (d : Directory) (a : Atlas) (action : Action) :
    SameSwitches a (a.act d action) ∧
      ∀ other, action.about ≠ other → (a.act d action).maps[other]? = a.maps[other]? := by
  have same : SameSwitches a a ∧ ∀ other, action.about ≠ other → a.maps[other]? = a.maps[other]? :=
    ⟨⟨rfl, rfl, rfl⟩, fun _ _ => rfl⟩
  cases action with
  | loadTile map tile =>
    rw [act, loadTile]
    split
    · exact same
    · split
      · exact ⟨⟨rfl, rfl, rfl⟩, fun _ _ => rfl⟩
      · refine ⟨⟨rfl, rfl, rfl⟩, fun other differs => ?_⟩
        exact (getElem?_insert ..).trans (if_neg differs)
  | unloadTile map tile =>
    rw [act, unloadTile]
    split
    · exact same
    · exact keepOrClose_frame ..
  | unloadMap map =>
    rw [act, unloadMap]
    split
    · exact same
    · exact keepOrClose_frame ..

theorem openMap_new (absent : a.maps[map]? = none) : a.openMap d map =
    match MapTree.openFile { map } a.library d with
    | (.error _, tree, library) => .error (tree.unloadAll library).2
    | (.ok (), tree, library) => .ok (tree, library) := by
  rw [openMap]
  split
  next t present =>
    rw [absent] at present
    cases present
  next => rfl

/-! ### Two atlases side by side -/

/-- Two supplied atlases answer the same questions, and have twins of one map or neither has it. -/
structure Matches (d : Directory) (map : UInt32) (a b : Atlas) : Prop where
  mine : Supplied d a
  yours : Supplied d b
  switches : SameSwitches a b
  trees : Option.Rel MapTree.Twins a.maps[map]? b.maps[map]?

namespace Matches

theorem start (supplied : Supplied d a) : Matches d map a a where
  mine := supplied
  yours := supplied
  switches := ⟨rfl, rfl, rfl⟩
  trees := by
    cases a.maps[map]? with
    | none => exact .none
    | some t => exact .some (.refl t)

theorem cases (both : Matches d map a b) : (a.maps[map]? = none ∧ b.maps[map]? = none) ∨
    ∃ t u, a.maps[map]? = some t ∧ b.maps[map]? = some u ∧ MapTree.Twins t u := by
  have trees := both.trees
  generalize a.maps[map]? = mine at trees ⊢
  generalize b.maps[map]? = yours at trees ⊢
  cases trees with
  | none => exact .inl ⟨rfl, rfl⟩
  | some twins => exact .inr ⟨_, _, rfl, rfl, twins⟩

/-- What one of them does with another map does not matter. -/
theorem act_other (both : Matches d map a b) (one : MapTree.OneModelPerSlot d)
    (small : action.Small) (differs : action.about ≠ map) : Matches d map (a.act d action) b := by
  obtain ⟨switches, others⟩ := act_frame d a action
  refine ⟨both.mine.act one small, both.yours, ?_, ?_⟩
  · exact ⟨both.switches.sight.trans switches.sight.symm,
      both.switches.height.trans switches.height.symm,
      both.switches.disabled.trans switches.disabled.symm⟩
  · rw [others map differs]
    exact both.trees

theorem openMap (both : Matches d map a b) :
    (a.openMap d map = .error a.library ∧ b.openMap d map = .error b.library) ∨
      ∃ t u l k, a.openMap d map = .ok (t, l) ∧ b.openMap d map = .ok (u, k) ∧
        MapTree.Twins t u := by
  rcases both.cases with ⟨mine, yours⟩ | ⟨t, u, mine, yours, twins⟩
  · have opensMine := openMap_new (d := d) mine
    have opensYours := openMap_new (d := d) yours
    -- both open the map, with the same outcome
    rcases MapTree.openFile_same map d with ⟨fault, t, fails⟩ | ⟨t, global, fresh, fit, opens⟩
    · simp only [fails a.library both.mine.faithful] at opensMine
      simp only [fails b.library both.yours.faithful] at opensYours
      exact .inl ⟨opensMine.trans (congrArg Except.error (Balanced.openMap_error opensMine)),
        opensYours.trans (congrArg Except.error (Balanced.openMap_error opensYours))⟩
    · simp only [opens a.library both.mine.faithful] at opensMine
      simp only [opens b.library both.yours.faithful] at opensYours
      have twins := (MapTree.Twins.refl t).foldl_attach d d fit a.library b.library
      exact .inr ⟨_, _, _, _, opensMine, opensYours, twins⟩
  · exact .inr ⟨t, u, a.library, b.library, by rw [Atlas.openMap, mine],
      by rw [Atlas.openMap, yours], twins⟩

/-- Loading a tile of the map has the same result for both. -/
theorem loadTile (both : Matches d map a b) (tile : Tile) :
    (b.loadTile d map tile).1 = (a.loadTile d map tile).1 ∧
      Option.Rel MapTree.Twins (a.loadTile d map tile).2.maps[map]?
        (b.loadTile d map tile).2.maps[map]? := by
  have loads : b.loadsMaps = a.loadsMaps := by
    rw [loadsMaps, loadsMaps, both.switches.sight, both.switches.height]
  rw [Atlas.loadTile, Atlas.loadTile, loads]
  split
  · exact ⟨rfl, both.trees⟩
  · rcases both.openMap with ⟨mine, yours⟩ | ⟨t, u, l, k, mine, yours, twins⟩
    · simp only [mine, yours]
      exact ⟨trivial, both.trees⟩
    · obtain ⟨outcome, after⟩ := twins.loadTile l k (.refl _ d) tile
      simp only [mine, yours, outcome, getElem?_insert, if_true]
      exact ⟨trivial, .some after⟩

theorem keepOrClose {t u : MapTree} (tiles : u.tiles = t.tiles)
    (twins : t.tiles.isEmpty = false → MapTree.Twins t u) (l k : Library) :
    Option.Rel MapTree.Twins (a.keepOrClose map t l).maps[map]? (b.keepOrClose map u k).maps[map]? := by
  rw [Atlas.keepOrClose, Atlas.keepOrClose, tiles]
  split
  · simp only [getElem?_erase, if_true]
    exact .none
  next loaded =>
    simp only [getElem?_insert, if_true]
    exact .some (twins (by simpa using loaded))

theorem unloadTile (both : Matches d map a b) (tile : Tile) :
    Option.Rel MapTree.Twins (a.unloadTile d map tile).maps[map]?
      (b.unloadTile d map tile).maps[map]? := by
  rw [Atlas.unloadTile, Atlas.unloadTile]
  rcases both.cases with ⟨mine, yours⟩ | ⟨t, u, mine, yours, twins⟩
  · simp only [mine, yours]
    exact .none
  · have after := twins.unloadTile a.library b.library (.refl _ d) tile
    simp only [mine, yours]
    exact keepOrClose after.tiles (fun _ => after) _ _

theorem unloadMap (both : Matches d map a b) :
    Option.Rel MapTree.Twins (a.unloadMap map).maps[map]? (b.unloadMap map).maps[map]? := by
  rw [Atlas.unloadMap, Atlas.unloadMap]
  rcases both.cases with ⟨mine, yours⟩ | ⟨t, u, mine, yours, twins⟩
  · simp only [mine, yours]
    exact .none
  · simp only [mine, yours]
    -- neither keeps a map without tiles
    exact keepOrClose rfl (fun loaded => absurd loaded (by simp [MapTree.unloadAll])) _ _

/-- The same action with the map, done in both. -/
theorem act_both (both : Matches d map a b) (one : MapTree.OneModelPerSlot d)
    (small : action.Small) (about : action.about = map) :
    Matches d map (a.act d action) (b.act d action) := by
  obtain ⟨switchesMine, -⟩ := act_frame d a action
  obtain ⟨switchesYours, -⟩ := act_frame d b action
  refine ⟨both.mine.act one small, both.yours.act one small, ?_, ?_⟩
  · exact ⟨(switchesYours.sight.trans both.switches.sight).trans switchesMine.sight.symm,
      (switchesYours.height.trans both.switches.height).trans switchesMine.height.symm,
      (switchesYours.disabled.trans both.switches.disabled).trans switchesMine.disabled.symm⟩
  · subst about
    cases action with
    | loadTile map tile => exact (both.loadTile tile).2
    | unloadTile map tile => exact both.unloadTile tile
    | unloadMap map => exact both.unloadMap

end Matches

/-! ### Runs -/

/-- The result of an action; only loading has one. -/
def result? (d : Directory) (a : Atlas) : Action → Option LoadResult
  | .loadTile map tile => some (a.loadTile d map tile).1
  | _ => none

/-- The results of loading tiles of one map, in their order. -/
def loadResults (d : Directory) (map : UInt32) : Atlas → List Action → List LoadResult
  | _, [] => []
  | a, action :: rest =>
    (if action.about = map then (a.result? d action).toList else []) ++
      loadResults d map (a.act d action) rest

/-- Both atlases answer all questions about a map in the same way. -/
structure AnswersAlike (map : UInt32) (a b : Atlas) : Prop where
  sees : ∀ start goal, b.sees map start goal = a.sees map start goal
  heightBelow : ∀ point reach, b.heightBelow map point reach = a.heightBelow map point reach
  hitBetween? : ∀ start goal shift, b.hitBetween? map start goal shift =
    a.hitBetween? map start goal shift
  area? : ∀ point, b.area? map point = a.area? map point
  liquid? : ∀ point kinds, b.liquid? map point kinds = a.liquid? map point kinds

theorem Matches.answersAlike (both : Matches d map a b) : AnswersAlike map a b := by
  have asked (question : UInt32) : (a.asked? map question = none ∧ b.asked? map question = none) ∨
      ∃ t u, a.asked? map question = some t ∧ b.asked? map question = some u ∧
        MapTree.AnswersAlike t u a.library b.library := by
    have switched : b.isDisabled map question = a.isDisabled map question := by
      rw [isDisabled, isDisabled, both.switches.disabled]
    rw [asked?, asked?, switched]
    split
    · exact .inl ⟨rfl, rfl⟩
    · rcases both.cases with none | ⟨t, u, mine, yours, twins⟩
      · exact .inl none
      · have alike := twins.answersAlike (both.mine.furnishes map t mine)
          (both.yours.furnishes map u yours)
        exact .inr ⟨t, u, mine, yours, alike⟩
  have askedIf (on : Bool) (question : UInt32) :
      ((if on then a.asked? map question else none) = none ∧
          (if on then b.asked? map question else none) = none) ∨
        ∃ t u, (if on then a.asked? map question else none) = some t ∧
          (if on then b.asked? map question else none) = some u ∧
          MapTree.AnswersAlike t u a.library b.library := by
    cases on with
    | false => exact .inl ⟨rfl, rfl⟩
    | true => exact asked question
  constructor
  case sees =>
    intro start goal
    rw [sees, sees, both.switches.sight]
    rcases askedIf a.sight sightQuestion with ⟨mine, yours⟩ | ⟨t, u, mine, yours, alike⟩
    · rw [mine, yours]
    · rw [mine, yours]
      simp only [alike.sees]
  case heightBelow =>
    intro point reach
    rw [heightBelow, heightBelow, both.switches.height]
    rcases askedIf a.height heightQuestion with ⟨mine, yours⟩ | ⟨t, u, mine, yours, alike⟩
    · rw [mine, yours]
    · rw [mine, yours]
      simp only [alike.heightBelow]
  case hitBetween? =>
    intro start goal shift
    rw [hitBetween?, hitBetween?, both.switches.sight]
    rcases askedIf a.sight sightQuestion with ⟨mine, yours⟩ | ⟨t, u, mine, yours, alike⟩
    · rw [mine, yours]
    · rw [mine, yours]
      simp only [alike.hitBetween?]
  case area? =>
    intro point
    rw [area?, area?]
    rcases asked areaQuestion with ⟨mine, yours⟩ | ⟨t, u, mine, yours, alike⟩
    · rw [mine, yours]
    · rw [mine, yours]
      simp only [alike.area?]
  case liquid? =>
    intro point kinds
    rw [liquid?, liquid?]
    rcases asked liquidQuestion with ⟨mine, yours⟩ | ⟨t, u, mine, yours, alike⟩
    · rw [mine, yours]
    · rw [mine, yours]
      simp only [alike.location?]

theorem Matches.result? (both : Matches d map a b) (about : action.about = map) :
    b.result? d action = a.result? d action := by
  subst about
  cases action with
  | loadTile map tile => exact congrArg some (both.loadTile tile).1
  | unloadTile map tile => rfl
  | unloadMap map => rfl

theorem Matches.run (both : Matches d map a b) (one : MapTree.OneModelPerSlot d)
    (small : ∀ action ∈ actions, action.Small) :
    loadResults d map b (actions.filter fun action => action.about = map) =
        loadResults d map a actions ∧
      Matches d map (actions.foldl (act d) a)
        ((actions.filter fun action => action.about = map).foldl (act d) b) := by
  induction actions generalizing a b with
  | nil => exact ⟨rfl, both⟩
  | cons action rest ih =>
    have smallRest : ∀ other ∈ rest, other.Small := fun other listed => small other (.tail _ listed)
    have smallFirst := small action (.head _)
    by_cases about : action.about = map
    · obtain ⟨results, after⟩ := ih (both.act_both one smallFirst about) smallRest
      rw [List.filter_cons_of_pos (by simpa using about)]
      refine ⟨?_, after⟩
      rw [loadResults, loadResults, both.result? about]
      exact congrArg _ results
    · -- only one of the two goes on, and its result is not one of the map's
      obtain ⟨results, after⟩ := ih (both.act_other one smallFirst about) smallRest
      rw [List.filter_cons_of_neg (by simpa using about)]
      have skipped : loadResults d map a (action :: rest) =
          loadResults d map (a.act d action) rest := by
        rw [loadResults, if_neg about]
        rfl
      exact ⟨results.trans skipped.symm, after⟩

/-- What is done with other maps shows neither in the results of loading a map nor in any answer about
it. -/
theorem run_apart (one : MapTree.OneModelPerSlot d) (noMaps : a.maps = ∅)
    (noModels : a.library = {}) (small : ∀ action ∈ actions, action.Small) (map : UInt32) :
    loadResults d map a (actions.filter fun action => action.about = map) =
        loadResults d map a actions ∧
      AnswersAlike map (actions.foldl (act d) a)
        ((actions.filter fun action => action.about = map).foldl (act d) a) := by
  have start : Matches d map a a := .start (supplied_empty d noMaps noModels)
  obtain ⟨results, after⟩ := start.run one small
  exact ⟨results, after.answersAlike⟩

/-- The files of two maps with the same rock on a tile. -/
def sharedRock : Directory :=
  let tree : Hierarchy := ⟨#[.leaf 0 1], #[0], .zero⟩
  let head := Text.toBytes Model.magic
  let map := Entry.file (head ++ [1] ++ Text.toBytes "NODE" ++ tree.toBytes ++ Text.toBytes "GOBJ")
  let tile := Entry.file (head ++ Bytes.ofNat 1 ++ MapTree.rockRecord)
  { entries := Std.TreeMap.ofList
      [(["000.vmtree"], map), (["001.vmtree"], map), (["000_02_01.vmtile"], tile),
        (["001_02_01.vmtile"], tile), (["rock.vmo"], .file (Model.toBytes { root := 1 }))] }

/-- One map comes and goes, and loads and unloads tiles without files, while the other one is open. -/
theorem run_apart_sharedRock :
    let actions : List Action := [.loadTile 0 ⟨1, 2⟩, .loadTile 1 ⟨1, 2⟩, .loadTile 0 ⟨1, 2⟩,
      .unloadTile 0 ⟨5, 5⟩, .unloadTile 0 ⟨1, 2⟩, .loadTile 0 ⟨7, 7⟩, .loadTile 1 ⟨2, 2⟩, .unloadMap 0]
    loadResults sharedRock 1 {} (actions.filter fun action => action.about = 1) =
        loadResults sharedRock 1 {} actions ∧
      AnswersAlike 1 (actions.foldl (act sharedRock) {})
        ((actions.filter fun action => action.about = 1).foldl (act sharedRock) {}) := by
  have files : ∀ entry ∈ sharedRock.entries.toList, ∀ record ∈ MapTree.recordsIn entry.2,
      record.model = "rock" := by decide +kernel
  exact run_apart (MapTree.oneModelPerSlot_of_files "rock" files) rfl rfl (by decide) 1

end Atlas

end Sightline
