import Sightline.Proofs.Mesh.Stored
import Sightline.Proofs.World.Handles
import Sightline.Proofs.World.Reopening

/-!
# Loading what was assembled

What an assembly writes to an empty directory is what maps load from it: whichever tiles of a map are
loaded, and in whichever order, its slots hold the placements that calls have put on these tiles, each
with its model, and its tree was built for the boxes of the slots.
-/
namespace Sightline

variable {calls : List Call} {d : Directory} {map id : UInt32} {m settled : MapPlan}

/-! ### What is asked of calls -/

/-- The call can be answered with files that readers accept. Placements stand on tiles of their own, and
no placement covers the whole map. -/
def Call.Regular : Call → Prop
  | model _ raw => ∀ g ∈ raw.groups, ∀ l ∈ g.liquid, l.Complete
  | placement _ tile p => tile.Small ∧ tile ≠ ⟨65, 65⟩ ∧ ¬p.Has Placement.mapWide ∧ p.Scaled ∧
      (FileName.model p.model).Plain

/-- The trees of an assembly are small enough for their files. -/
structure Assembly.FewNodes (a : Assembly) : Prop where
  maps : ∀ (map : UInt32) (m : MapPlan) (tree : Hierarchy), a.maps[map]? = some m →
    Hierarchy.build m.boxes Hierarchy.defaultLeafSize = .ok tree → tree.FewNodes
  models : ∀ name ∈ a.placedModels, ∀ (raw : RawModel) (model : Model), a.models[name]? = some raw →
    raw.toModel = .ok model → model.FewNodes

theorem small_of_placed {tile : Tile} (regular : ∀ call ∈ calls, call.Regular)
    (placed : IsPlaced calls map tile id) : tile.Small ∧ tile ≠ ⟨65, 65⟩ := by
  obtain ⟨call, listed, puts⟩ := placed
  cases call with
  | model name raw => cases puts
  | placement m t p =>
    obtain ⟨-, rfl, -⟩ := puts
    obtain ⟨small, own, -⟩ := regular _ listed
    exact ⟨small, own⟩

namespace MapPlan

theorem Follows.keyed (follows : m.Follows calls map) : m.Keyed := by
  intro id p stands
  rw [follows.placements] at stands
  exact (mem_of_firstPlacement? stands).1

theorem Follows.regular (follows : m.Follows calls map) (regular : ∀ call ∈ calls, call.Regular)
    {p : Placement} (stands : m.placements[id]? = some p) :
    ¬p.Has Placement.mapWide ∧ p.Scaled ∧ (FileName.model p.model).Plain := by
  rw [follows.placements] at stands
  obtain ⟨-, tile, listed⟩ := mem_of_firstPlacement? stands
  exact (regular _ listed).2.2

theorem Follows.storable {models : Std.TreeMap String RawModel} (follows : m.Follows calls map)
    (settles : Settles models m settled) (regular : ∀ call ∈ calls, call.Regular) :
    settled.Storable := by
  constructor
  case keyed => exact settles.keyed follows.keyed
  case scaled =>
    intro id q stands
    obtain ⟨p, before, made⟩ := settles.origin stands
    rw [Placement.Scaled, Assembly.settle_scale made]
    exact (follows.regular regular before).2.1
  case boxed => exact fun id q => settles.boxed
  case onTiles =>
    intro id q stands
    obtain ⟨p, before, made⟩ := settles.origin stands
    rw [Assembly.settle_has_mapWide made]
    exact (follows.regular regular before).1
  case noGlobal =>
    rw [settles.tiles]
    cases stands : m.tiles[globalTile]? with
    | none => rfl
    | some ids =>
      -- some call would have put a placement on the tile that stands for the whole map
      cases ids with
      | nil => exact absurd stands (follows.filled globalTile)
      | cons id rest =>
        have listed : id ∈ m.idsOn globalTile := by
          rw [idsOn, stands]
          exact .head _
        obtain ⟨tile, packed, placed⟩ := (follows.tiles globalTile id).mp listed
        obtain ⟨small, own⟩ := small_of_placed regular placed
        exact absurd ((Tile.packed_inj small (by decide)).mp packed) own

/-- A settled placement comes from the first call about its number. -/
theorem Follows.first {models : Std.TreeMap String RawModel} {q : Placement}
    (follows : m.Follows calls map) (settles : Settles models m settled)
    (stands : settled.placements[id]? = some q) :
    ∃ p, firstPlacement? calls map id = some p ∧ Assembly.settle models p = .ok q := by
  obtain ⟨p, before, made⟩ := settles.origin stands
  exact ⟨p, (follows.placements id).symm.trans before, made⟩

theorem Follows.isSome_settled {models : Std.TreeMap String RawModel} (follows : m.Follows calls map)
    (settles : Settles models m settled) (id : UInt32) :
    (settled.placements[id]?).isSome = true ↔ ∃ tile, IsPlaced calls map tile id := by
  rw [← firstPlacement?_isSome, ← follows.placements id, settles.isSome]

/-- Among the records of placements that stand under distinct numbers, one has the slot of a number that
is listed. -/
theorem countP_onTile (keyed : m.Keyed) {slot : Nat} (stands : m.placements.keys[slot]? = some id)
    {ids : List UInt32} (known : ∀ other ∈ ids, (m.placements[other]?).isSome = true) :
    (m.onTile ids).countP (fun p => m.slotOf p.id = slot) = ids.count id := by
  induction ids with
  | nil => rfl
  | cons other rest ih =>
    have others := ih fun third listed => known third (.tail _ listed)
    have isKnown := known other (.head _)
    obtain ⟨p, found⟩ := Option.isSome_iff_exists.mp isKnown
    -- every number has its record, and its slot tells the number
    have onTile : m.onTile (other :: rest) = p :: m.onTile rest := by
      rw [MapPlan.onTile, List.filterMap_cons_some found]
      rfl
    have slots : m.slotOf p.id = slot ↔ other = id := by
      rw [keyed other p found, slotOf_eq isKnown, stands, Option.some.injEq, eq_comm]
    rw [onTile, List.countP_cons, others, List.count_cons]
    simp [slots]

theorem countP_recordsOn (keyed : m.Keyed) {slot : Nat}
    (stands : m.placements.keys[slot]? = some id) {tile : Tile}
    (known : ∀ other ∈ m.idsOn tile.packed, (m.placements[other]?).isSome = true)
    (nodup : (m.idsOn tile.packed).Nodup) :
    (m.recordsOn tile).countP (fun record => record.slot = slot) =
      if id ∈ m.idsOn tile.packed then 1 else 0 := by
  rw [recordsOn, List.countP_map, ← nodup.count]
  exact countP_onTile keyed stands known

end MapPlan

namespace MapTree

/-! ### Loading one tile after another -/

/-- Loads tiles until one of them cannot be loaded. -/
def loadTiles (d : Directory) : List Tile → MapTree × Library → Except Fault (MapTree × Library)
  | [], state => .ok state
  | tile :: rest, (t, library) =>
    match t.loadTile library d tile with
    | (.error fault, _) => .error fault
    | (.ok (), state) => loadTiles d rest state

/-- Opens a map and loads tiles of it. -/
def load (d : Directory) (map : UInt32) (tiles : List Tile) (library : Library) :
    Except Fault (MapTree × Library) :=
  match openFile { map } library d with
  | (.error fault, _) => .error fault
  | (.ok (), state) => loadTiles d tiles state

/-- The placement has the slot of its number. -/
def InSlot (m : MapPlan) (slot : Nat) (p : Placement) : Prop :=
  ∃ id : UInt32, m.placements.keys[slot]? = some id ∧ m.placements[id]? = some p

/-- What is known of a map with some tiles loaded, after it was opened as `start`. -/
structure Reached (d : Directory) (m : MapPlan) (others : List String) (start : MapTree)
    (loaded : List Tile) (state : MapTree × Library) : Prop where
  alike : Alike start state.1
  keeps : Keeps d (start.recordsOf d) loaded [] others state
  occupied : Occupied (InSlot m) state.1
  provides : Provides d state

variable {others : List String} {start t : MapTree} {library : Library} {state : MapTree × Library}
  {loaded tiles : List Tile} {tile : Tile}

theorem reached_start (opened : Opened map m start) (serves : library.Serves d others)
    (faithful : library.Faithful d) : Reached d m others start [] (start, library) := by
  -- nothing is in the slots, so whatever is asked of their placements holds
  have empty : Occupied (fun _ _ => False) start := opened.fresh.occupied _
  constructor
  case alike => exact Alike.refl start
  case keeps => exact opened.fresh.keeps serves nofun
  case occupied => exact opened.fresh.occupied (InSlot m)
  case provides =>
    refine ⟨faithful, ?_⟩
    intro slot occupant found
    exact (empty slot occupant found).elim

theorem Reached.loadTile (files : Assembly.MapFiles map m d) (storable : m.Storable)
    (opened : Opened map m start)
    (readable : ∀ (id : UInt32) (p : Placement), m.placements[id]? = some p →
      ∃ model, Library.readModel d (modelFileName p.model) = .ok model)
    (reached : Reached d m others start loaded state) (small : tile.Small) (new : tile ∉ loaded) :
    ∃ after, state.1.loadTile state.2 d tile = (.ok (), after) ∧
      Reached d m others start (loaded ++ [tile]) after := by
  obtain ⟨records, done⟩ := loadTile_written files storable opened reached.alike small state.2
  have occupied : Occupied (InSlot m) (state.1.loadTile state.2 d tile).2.1 := by
    apply reached.occupied.loadTile
    rw [records]
    intro record listed
    obtain ⟨p, onTile, rfl⟩ := List.mem_map.mp listed
    obtain ⟨id, -, stands⟩ := MapPlan.mem_onTile.mp onTile
    have keyed := storable.keyed id p stands
    have known : (m.placements[id]?).isSome = true := by rw [stands]; rfl
    refine ⟨id, ?_, stands⟩
    rw [keyed]
    exact (MapPlan.slotOf_eq known).mp rfl
  refine ⟨(state.1.loadTile state.2 d tile).2, Prod.ext done rfl, ?_⟩
  constructor
  case alike => exact reached.alike.trans (alike_loadTile state.2 d tile)
  case keeps =>
    apply reached.keeps.loadTile small
    · rw [List.append_nil, List.append_nil, List.flatMap_append, List.flatMap_singleton]
      exact List.perm_append_comm
    · intro other
      rw [List.mem_append, List.mem_singleton, or_comm]
    · rw [← List.concat_eq_append]
      exact reached.keeps.nodup.concat new
  case occupied => exact occupied
  case provides =>
    refine (reached.provides.furnishes.loadTile tile).1.provides fun slot occupant found => ?_
    obtain ⟨id, -, stands⟩ := occupied slot occupant found
    obtain ⟨model, read⟩ := readable id occupant.placement stands
    exact Library.canRead_of_ok read

theorem Reached.loadTiles (files : Assembly.MapFiles map m d) (storable : m.Storable)
    (opened : Opened map m start)
    (readable : ∀ (id : UInt32) (p : Placement), m.placements[id]? = some p →
      ∃ model, Library.readModel d (modelFileName p.model) = .ok model)
    (reached : Reached d m others start loaded state) (small : ∀ tile ∈ tiles, tile.Small)
    (nodup : (loaded ++ tiles).Nodup) :
    ∃ after, loadTiles d tiles state = .ok after ∧
      Reached d m others start (loaded ++ tiles) after := by
  -- the induction is on the tiles to come; what `Reached` says of those that are loaded carries it
  induction tiles generalizing loaded state with
  | nil =>
    rw [List.append_nil]
    exact ⟨state, rfl, reached⟩
  | cons tile rest ih =>
    have new : tile ∉ loaded := by
      intro listed
      exact (List.nodup_append.mp nodup).2.2 tile listed tile (.head _) rfl
    rw [List.append_cons] at nodup ⊢
    obtain ⟨between, done, next⟩ :=
      reached.loadTile files storable opened readable (small tile (.head _)) new
    obtain ⟨after, all, last⟩ := ih next (fun other listed => small other (.tail _ listed)) nodup
    refine ⟨after, ?_, last⟩
    rw [MapTree.loadTiles, done]
    exact all

/-! ### Uses of slots -/

/-- A slot is used once for each tile on which its number was placed. -/
theorem countP_recordsOf (follows : m.Follows calls map) (keyed : settled.Keyed)
    (regular : ∀ call ∈ calls, call.Regular) (tilesSame : settled.tiles = m.tiles)
    (known : ∀ id : UInt32, (settled.placements[id]?).isSome = true ↔
      ∃ tile, IsPlaced calls map tile id)
    {slot : Nat} (stands : settled.placements.keys[slot]? = some id)
    (small : ∀ tile ∈ tiles, tile.Small) :
    (tiles.flatMap settled.recordsOn).countP (fun record => record.slot = slot) =
      tiles.countP fun tile => IsPlaced calls map tile id := by
  have idsOn (word : UInt32) : settled.idsOn word = m.idsOn word := by
    rw [MapPlan.idsOn, tilesSame, MapPlan.idsOn]
  induction tiles with
  | nil => rfl
  | cons tile rest ih =>
    have others := ih fun other listed => small other (.tail _ listed)
    have listedIff : id ∈ settled.idsOn tile.packed ↔ IsPlaced calls map tile id := by
      rw [idsOn, follows.tiles]
      constructor
      · -- small tiles are told apart by their words
        rintro ⟨other, packed, placed⟩
        have smallOther := (small_of_placed regular placed).1
        rwa [← (Tile.packed_inj smallOther (small tile (.head _))).mp packed]
      · exact fun placed => ⟨tile, rfl, placed⟩
    have standing : ∀ other ∈ settled.idsOn tile.packed,
        (settled.placements[other]?).isSome = true := by
      intro other listed
      rw [idsOn, follows.tiles] at listed
      obtain ⟨tile, -, placed⟩ := listed
      exact (known other).mpr ⟨tile, placed⟩
    have nodup : (settled.idsOn tile.packed).Nodup := by
      rw [idsOn]
      exact follows.nodup tile.packed
    have one := MapPlan.countP_recordsOn keyed stands standing nodup
    rw [List.flatMap_cons, List.countP_append, others, one, List.countP_cons, Nat.add_comm]
    simp only [listedIff, decide_eq_true_eq]

/-! ### What a loaded map shows -/

/-- A map shows what calls have placed on the tiles that are loaded. Its slots number the placements of
the map in the order of their ids, and its tree was built for their boxes in the same order. -/
structure Shows (calls : List Call) (map : UInt32) (tiles : List Tile) (ids : List UInt32)
    (boxes : List Box) (t : MapTree) (library : Library) : Prop where
  ordered : ids.Pairwise (· < ·)
  numbered : ∀ id : UInt32, id ∈ ids ↔ ∃ tile, IsPlaced calls map tile id
  size : t.slots.size = ids.length
  uses : ∀ (slot : Nat) (id : UInt32), ids[slot]? = some id →
    t.useCount slot = tiles.countP fun tile => IsPlaced calls map tile id
  filled : ∀ (slot : Nat) (id : UInt32), ids[slot]? = some id →
    ((t.occupant? slot).isSome = true ↔ ∃ tile ∈ tiles, IsPlaced calls map tile id)
  /-- The first placement of a number counts, and only its box is new. -/
  placements : ∀ (slot : Nat) (id : UInt32) (occupant : Occupant), ids[slot]? = some id →
    t.occupant? slot = some occupant → ∃ p, firstPlacement? calls map id = some p ∧
      Assembly.settle (Assembly.ofCalls calls).models p = .ok occupant.placement ∧
      occupant.placement =
        { p with bounds := occupant.placement.bounds, flags := p.flags ||| Placement.bounded }
  models : ∀ (slot : Nat) (occupant : Occupant), t.occupant? slot = some occupant →
    ∃ handle raw model, occupant.handle = some handle ∧
      lastModel? calls occupant.placement.model = some raw ∧ raw.toModel = .ok model ∧
      library.model? handle = some model.stored
  tree : Hierarchy.build boxes Hierarchy.defaultLeafSize = .ok t.tree
  length_boxes : boxes.length = ids.length
  settled : ∀ (slot : Nat) (id : UInt32), ids[slot]? = some id → ∃ p q,
    firstPlacement? calls map id = some p ∧
      Assembly.settle (Assembly.ofCalls calls).models p = .ok q ∧ boxes[slot]? = some q.bounds
  box : ∀ (slot : Nat) (occupant : Occupant), t.occupant? slot = some occupant →
    boxes[slot]? = some occupant.placement.bounds

/-- The file of a placed model holds what was built from the last model of its name. -/
theorem readModel_written {a : Assembly} (written : Assembly.Written (.ofCalls calls) a d)
    (regular : ∀ call ∈ calls, call.Regular) (few : a.FewNodes) {name : String}
    (placed : name ∈ a.placedModels) :
    ∃ raw model, lastModel? calls name = some raw ∧ raw.toModel = .ok model ∧
      Library.readModel d (modelFileName name) = .ok model.stored := by
  obtain ⟨raw, model, bytes, known, made, output, stands⟩ := written.modelFiles name placed
  have last : lastModel? calls name = some raw :=
    ((Assembly.follows_ofCalls calls).models name).symm.trans known
  have fewNodes := few.models name placed raw model (by rw [written.models]; exact known) made
  have liquids := regular _ (mem_of_lastModel? last)
  have read := RawModel.run_toModel made fewNodes liquids output
  refine ⟨raw, model, last, made, ?_⟩
  exact bind_eq_ok.mpr ⟨bytes, Directory.read_of_lookup? stands, bind_eq_ok.mpr ⟨_, read, rfl⟩⟩

/-- The slots of a map that was loaded tile by tile. -/
theorem Reached.shows (planned : m.Follows calls map)
    (settles : MapPlan.Settles (Assembly.ofCalls calls).models m settled)
    (regular : ∀ call ∈ calls, call.Regular) (files : Assembly.MapFiles map settled d)
    (opened : Opened map settled start)
    (models : ∀ (id : UInt32) (p : Placement), settled.placements[id]? = some p → ∃ raw model,
      lastModel? calls p.model = some raw ∧ raw.toModel = .ok model ∧
        Library.readModel d (modelFileName p.model) = .ok model.stored)
    (reached : Reached d settled others start tiles (t, library)) :
    Shows calls map tiles settled.placements.keys settled.boxes t library := by
  have storable := planned.storable settles regular
  have small := reached.keeps.small
  have holds := reached.keeps.account.holds
  have known := planned.isSome_settled settles
  have records : tiles.flatMap (start.recordsOf d) = tiles.flatMap settled.recordsOn := by
    refine List.flatMap_congr fun tile listed => ?_
    exact (loadTile_written files storable opened (Alike.refl start) (small tile listed) library).1
  have uses (slot : Nat) (id : UInt32) (stands : settled.placements.keys[slot]? = some id) :
      t.useCount slot = tiles.countP fun tile => IsPlaced calls map tile id := by
    rw [holds.uses slot, List.append_nil, records]
    exact countP_recordsOf planned storable.keyed regular settles.tiles known stands small
  constructor
  case ordered =>
    have ordered := settled.placements.ordered_keys
    exact ordered.imp Std.compare_eq_lt.mp
  case numbered =>
    intro id
    rw [mem_keys_iff]
    exact known id
  case size => rw [reached.alike.size, opened.size, MapPlan.length_boxes]
  case uses => exact uses
  case filled =>
    intro slot id stands
    rw [holds.filled slot, uses slot id stands, List.countP_pos_iff]
    simp only [decide_eq_true_eq]
  case placements =>
    intro slot id occupant stands found
    -- the occupant belongs to the number of its slot, and to no other
    obtain ⟨other, inSlot, placed⟩ := reached.occupied slot occupant found
    rw [stands] at inSlot
    cases inSlot
    obtain ⟨p, isFirst, made⟩ := planned.first settles placed
    exact ⟨p, isFirst, made, Assembly.settle_eq made⟩
  case models =>
    intro slot occupant found
    obtain ⟨other, -, placed⟩ := reached.occupied slot occupant found
    obtain ⟨raw, model, last, made, read⟩ := models other occupant.placement placed
    obtain ⟨handle, loaded, held, -, same, leads⟩ := reached.provides.provided slot occupant found
    rw [read] at same
    cases same
    exact ⟨handle, raw, model, held, last, made, leads⟩
  case tree =>
    rw [reached.alike.tree]
    exact opened.tree
  case length_boxes => exact settled.length_boxes
  case settled =>
    intro slot id stands
    have listed := (mem_keys_iff _).mp (List.mem_of_getElem? stands)
    obtain ⟨q, placed⟩ := Option.isSome_iff_exists.mp listed
    obtain ⟨p, isFirst, made⟩ := planned.first settles placed
    exact ⟨p, q, isFirst, made, MapPlan.bounds_eq stands placed⟩
  case box =>
    intro slot occupant found
    obtain ⟨id, stands, placed⟩ := reached.occupied slot occupant found
    exact MapPlan.bounds_eq stands placed

/-- What an assembly wrote is what a map loads, whichever of its tiles are loaded in whichever order. The
library may hold other models of the directory before. -/
theorem load_written {a : Assembly} (regular : ∀ call ∈ calls, call.Regular)
    (written : (Assembly.ofCalls calls).write {} = .ok (.ok (), a, d)) (few : a.FewNodes)
    (placed : ∃ tile id, IsPlaced calls map tile id) (small : ∀ tile ∈ tiles, tile.Small)
    (nodup : tiles.Nodup) (serves : library.Serves d others) (faithful : library.Faithful d) :
    ∃ t after ids boxes, load d map tiles library = .ok (t, after) ∧
      Shows calls map tiles ids boxes t after := by
  have follows := Assembly.follows_ofCalls calls
  have plan {map : UInt32} {m : MapPlan} (known : (Assembly.ofCalls calls).maps[map]? = some m) :
      m.Follows calls map := by
    have plans := follows.plans map
    rwa [known] at plans
  have all : Assembly.Written (.ofCalls calls) a d := by
    apply Assembly.write_ok _ _ written
    · exact fun map m known => (plan known).keyed
    · exact fun map m id p known stands => ((plan known).regular regular stands).2.2
  obtain ⟨tile, id, puts⟩ := placed
  -- the map has a placement, so it is in the assembly and has files
  obtain ⟨m, known⟩ := Option.isSome_iff_exists.mp ((follows.maps map).mpr ⟨id, tile, puts⟩)
  obtain ⟨settled, found, settles, files⟩ := all.maps map m known
  have storable := (plan known).storable settles regular
  have models (id : UInt32) (p : Placement) (stands : settled.placements[id]? = some p) :=
    readModel_written all regular few
      (Assembly.mem_placedModels.mpr ⟨map, settled, id, p, found, stands, rfl⟩)
  have readable (id : UInt32) (p : Placement) (stands : settled.placements[id]? = some p) :
      ∃ model, Library.readModel d (modelFileName p.model) = .ok model := by
    obtain ⟨raw, model, -, -, read⟩ := models id p stands
    exact ⟨_, read⟩
  obtain ⟨start, opens, opened⟩ := openFile_written files storable
    (fun tree => few.maps map settled tree found) library
  obtain ⟨⟨t, after⟩, loads, reached⟩ := (reached_start opened serves faithful).loadTiles files storable
    opened readable small nodup
  refine ⟨t, after, settled.placements.keys, settled.boxes, ?_, ?_⟩
  · rw [load, opens]
    exact loads
  · exact reached.shows (plan known) settles regular files opened models

def boulder : RawModel :=
  let corners : List Vec := [⟨0, 0, 0⟩, ⟨1, 0, 0⟩, ⟨0, 1, 1⟩]
  let bounds : Box := ⟨⟨0, 0, 0⟩, ⟨1, 1, 1⟩⟩
  ⟨7, [{ flags := 0, id := 1, bounds, vertices := corners, triangles := [⟨0, 1, 2⟩] }]⟩

/-- Two boulders on one map. One of them lies on two tiles, where it is placed differently. -/
def quarry : List Call :=
  let far : Vec := ⟨5, 0, 0⟩
  [.model "boulder" boulder,
    .placement 0 ⟨32, 32⟩ { flags := 0, id := 9, model := "boulder" },
    .placement 0 ⟨32, 33⟩ { flags := 0, id := 9, position := far, model := "boulder" },
    .placement 0 ⟨32, 33⟩ { flags := 0, id := 4, position := far, model := "boulder" }]

def writtenQuarry : Assembly × Directory :=
  match (Assembly.ofCalls quarry).write {} with
  | .ok (.ok (), state) => state
  | _ => ({}, {})

theorem write_quarry : (Assembly.ofCalls quarry).write {} = .ok (.ok (), writtenQuarry) := by
  have done : (Assembly.writtenBy quarry).isSome = true := by decide +kernel
  obtain ⟨state, found⟩ := Option.isSome_iff_exists.mp done
  have written := Assembly.write_of_writtenBy found
  rw [writtenQuarry, written]

theorem fewNodes_quarry : writtenQuarry.1.FewNodes := by
  have maps : ∀ entry ∈ writtenQuarry.1.maps.toList,
      ∀ tree ∈ (Hierarchy.build entry.2.boxes Hierarchy.defaultLeafSize).toOption, tree.FewNodes := by
    decide +kernel
  have models : ∀ entry ∈ writtenQuarry.1.models.toList,
      ∀ model ∈ entry.2.toModel.toOption, model.FewNodes := by
    decide +kernel
  constructor
  · intro map m tree known built
    have listed := Std.TreeMap.mem_toList_iff_getElem?_eq_some.mpr known
    exact maps _ listed tree (by rw [built]; rfl)
  · intro name placed raw model known made
    have listed := Std.TreeMap.mem_toList_iff_getElem?_eq_some.mpr known
    exact models _ listed model (by rw [made]; rfl)

theorem regular_quarry : ∀ call ∈ quarry, call.Regular := by
  have dry : ∀ g ∈ boulder.groups, g.liquid = none := by decide
  have plain : '/' ∉ "boulder".toList := by decide
  intro call listed
  simp only [quarry, List.mem_cons, List.not_mem_nil, or_false] at listed
  obtain rfl | rfl | rfl | rfl := listed
  · intro g listed l has
    rw [dry g listed] at has
    cases has
  · exact ⟨by decide, by decide, by decide, by decide, plain⟩
  · exact ⟨by decide, by decide, by decide, by decide, plain⟩
  · exact ⟨by decide, by decide, by decide, by decide, plain⟩

theorem load_written_quarry : ∃ a d t library ids boxes,
    (Assembly.ofCalls quarry).write {} = .ok (.ok (), a, d) ∧
      load d 0 [⟨32, 33⟩, ⟨32, 32⟩] {} = .ok (t, library) ∧
      Shows quarry 0 [⟨32, 33⟩, ⟨32, 32⟩] ids boxes t library := by
  have placed : IsPlaced quarry 0 ⟨32, 33⟩ 4 := by decide
  have small : ∀ tile ∈ ([⟨32, 33⟩, ⟨32, 32⟩] : List Tile), tile.Small := by decide
  have serves := Library.serves_empty writtenQuarry.2
  obtain ⟨t, library, ids, boxes, loads, shows⟩ :=
    load_written regular_quarry write_quarry fewNodes_quarry ⟨_, _, placed⟩ small (by decide) serves
      (Library.faithful_empty writtenQuarry.2)
  exact ⟨_, _, t, library, ids, boxes, write_quarry, loads, shows⟩

end MapTree

end Sightline
