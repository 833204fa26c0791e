import Sightline.Proofs.World.Clearing
import Sightline.Proofs.World.TileRuns
import Sightline.World.Atlas

/-!
# References to models

All maps of an atlas share one library. Whatever is loaded and unloaded, the users of a model are the
uses of the slots that hold it, over all maps that are open. So a model stays while any map uses it, and
once no map is open the library is empty.
-/
namespace Sightline

open Library

/-- What is read from a directory stands in one of its files. -/
theorem Directory.entry_of_read {d : Directory} {path : String} {bytes : List UInt8}
    (read : d.read path = .ok bytes) : ∃ place : Place, d.entries[place]? = some (.file bytes) := by
  obtain ⟨entry, found, opened⟩ := bind_eq_ok.mp read
  obtain ⟨place, located, looked⟩ := bind_eq_ok.mp found
  refine ⟨place, ?_⟩
  rw [Directory.contents?] at looked
  split at looked
  next => cases looked
  next content present =>
    cases looked
    split at present
    · cases present
      cases opened
    · cases entry with
      | folder => cases opened
      | file bytes =>
        cases opened
        exact present

namespace MapTree

variable {d : Directory} {t : MapTree} {library : Library} {tile : Tile} {held : List Record}
  {others : List String} {state : MapTree × Library} {map : UInt32}

/-- In the files of each map's tiles, records of one slot name one model. -/
def OneModelPerSlot (d : Directory) : Prop :=
  ∀ (map : UInt32) (before after : Library) (t : MapTree),
    openFile { map } before d = (.ok (), t, after) → t.isTiled = true →
      ∀ tile other : Tile, tile.Small → other.Small →
        ∀ record ∈ (t.tileRecords d tile).1, ∀ same ∈ (t.tileRecords d other).1,
          record.slot = same.slot → record.placement.model = same.placement.model

/-- The records in a file, for as many slots as can be named. -/
def recordsIn : Entry → List Record
  | .folder => []
  | .file bytes =>
    match tileHeadReader.run bytes with
    | .error _ => []
    | .ok (count, rest) => (readRecords UInt32.size count rest).1

theorem mem_readRecords_widen {slots limit count : Nat} (all : UInt32.size ≤ limit)
    {bytes : List UInt8} {record : Record} (listed : record ∈ (readRecords slots count bytes).1) :
    record ∈ (readRecords limit count bytes).1 := by
  induction count generalizing bytes with
  | zero => cases listed
  | succ count ih =>
    rw [readRecords] at listed ⊢
    split at listed
    · cases listed
    next first rest read =>
      rw [recordReader_widen all read]
      cases listed with
      | head => exact .head _
      | tail _ listed => exact .tail _ (ih listed)

/-- If all files name one model, then so do the records of each slot. -/
theorem oneModelPerSlot_of_files (name : String)
    (files : ∀ entry ∈ d.entries.toList, ∀ record ∈ recordsIn entry.2, record.model = name) :
    OneModelPerSlot d := by
  have named : ∀ (t : MapTree) (tile : Tile), ∀ record ∈ (t.tileRecords d tile).1,
      record.model = name := by
    intro t tile record listed
    rw [tileRecords] at listed
    split at listed
    · cases listed
    next count rest head =>
      obtain ⟨bytes, read, headed⟩ := bind_eq_ok.mp head
      obtain ⟨place, stored⟩ := Directory.entry_of_read read
      apply files (place, .file bytes) (Std.TreeMap.mem_toList_iff_getElem?_eq_some.mpr stored)
      simp only [recordsIn, headed]
      exact mem_readRecords_widen (Nat.le_refl _) listed
  intro map before after t opens tiled tile other small smallOther record listed same also slots
  exact (named t tile record listed).trans (named t other same also).symm

/-- A map holds records, and each of its slots belongs to one model. -/
def Refers (d : Directory) (held : List Record) (others : List String)
    (state : MapTree × Library) : Prop :=
  ∃ records modelOf loaded left, held = loaded.flatMap records ++ left ∧
    Keeps d records loaded left others state ∧ Named modelOf held ∧
    (∀ tile : Tile, tile.Small → Named modelOf (records tile)) ∧
    Occupied (fun slot p => p.model = modelOf slot) state.1

namespace Refers

theorem account (refers : Refers d held others state) : Account d held others state := by
  obtain ⟨records, modelOf, loaded, left, rfl, keeps, -⟩ := refers
  exact keeps.account

theorem isReady (refers : Refers d held others state) : state.1.isReady = true := by
  obtain ⟨records, modelOf, loaded, left, rfl, keeps, -⟩ := refers
  exact keeps.isReady

/-- Others may change the library too. -/
theorem serve (refers : Refers d held others state) {after : Library} {more : List String}
    (serves : after.Serves d (held.map Record.model ++ more)) :
    Refers d held more (state.1, after) := by
  obtain ⟨records, modelOf, loaded, left, rfl, keeps, rest⟩ := refers
  have account : Account d (loaded.flatMap records ++ left) more (state.1, after) :=
    ⟨keeps.account.holds, serves⟩
  exact ⟨records, modelOf, loaded, left, rfl, { keeps with account }, rest⟩

theorem loadTile (refers : Refers d held others state) (small : tile.Small) :
    ∃ more, Refers d more others (state.1.loadTile state.2 d tile).2 := by
  obtain ⟨records, modelOf, loaded, left, rfl, keeps, named, names, occupied⟩ := refers
  have belong : ∀ record ∈ state.1.recordsOf d tile,
      record.placement.model = modelOf record.slot := by
    rw [keeps.reads tile]
    exact names tile small
  have filled : Occupied (fun slot p => p.model = modelOf slot)
      (state.1.loadTile state.2 d tile).2.1 := occupied.loadTile belong
  have more : Named modelOf (records tile ++ (loaded.flatMap records ++ left)) := by
    intro record listed
    rcases List.mem_append.mp listed with listed | listed
    · exact names tile small record listed
    · exact named record listed
  by_cases listed : tile ∈ loaded
  · refine ⟨_, records, modelOf, loaded, records tile ++ left, rfl, keeps.loadAgain small listed, ?_,
      names, filled⟩
    intro record held
    apply more
    simpa only [List.mem_append, or_left_comm] using held
  · refine ⟨_, records, modelOf, tile :: loaded, left, rfl, keeps.loadNew small listed, ?_, names,
      filled⟩
    rwa [List.flatMap_cons, List.append_assoc]

theorem unloadTile (refers : Refers d held others state) (small : tile.Small) :
    ∃ less, Refers d less others (state.1.unloadTile state.2 d tile) := by
  obtain ⟨records, modelOf, loaded, left, rfl, keeps, named, names, occupied⟩ := refers
  refine ⟨_, records, modelOf, loaded.erase tile, left, rfl, keeps.unloadTile small, ?_, names,
    occupied.unloadTile⟩
  intro record listed
  apply named
  rw [List.mem_append, List.mem_flatMap] at listed ⊢
  rcases listed with ⟨other, kept, listed⟩ | listed
  · exact .inl ⟨other, List.mem_of_mem_erase kept, listed⟩
  · exact .inr listed

theorem unloadAll (refers : Refers d held others (t, library)) :
    (t.unloadAll library).2.Serves d others := by
  obtain ⟨records, modelOf, loaded, left, rfl, keeps, named, -, occupied⟩ := refers
  exact keeps.account.unloadAll named occupied

theorem usesOf (refers : Refers d held others state) (name : String) :
    state.1.usesOf name = (held.map Record.model).count name := by
  obtain ⟨records, modelOf, loaded, left, rfl, keeps, named, -, occupied⟩ := refers
  exact keeps.account.holds.usesOf named occupied name

/-- A placement in a slot is a use of its model. -/
theorem used (refers : Refers d held others state) {slot : Nat} {occupant : Occupant}
    (found : state.1.occupant? slot = some occupant)
    (readable : CanRead d occupant.placement.model) :
    ∃ entry : Loaded, state.2.models[occupant.placement.model]? = some entry := by
  obtain ⟨records, modelOf, loaded, left, rfl, keeps, named, -, occupied⟩ := refers
  have used := (keeps.account.holds.filled slot).mp (by rw [found]; rfl)
  rw [keeps.account.holds.uses slot, List.countP_pos_iff] at used
  obtain ⟨record, listed, inSlot⟩ := used
  obtain rfl : record.slot = slot := by simpa using inSlot
  have same : record.model = occupant.placement.model :=
    (named record listed).trans (occupied record.slot occupant found).symm
  -- the record is one of those that the library serves
  have served : record.model ∈
      (loaded.flatMap records ++ left).map Record.model ++ others :=
    List.mem_append_left _ (List.mem_map_of_mem listed)
  have counted := keeps.account.serves.users occupant.placement.model
  rw [if_pos readable, ← same] at counted
  have positive := List.count_pos_iff.mpr served
  rw [← same]
  cases stands : state.2.models[record.model]? with
  | some entry => exact ⟨entry, rfl⟩
  | none =>
    rw [users_of_absent stands] at counted
    omega

end Refers

theorem named_nil (modelOf : Nat → String) : Named modelOf [] := by simp [Named]

theorem named_single (single : held.length ≤ 1) :
    Named (fun _ => (held.map Record.model).headD "") held := by
  match held, single with
  | [], _ => exact named_nil _
  | [record], _ =>
    intro other listed
    rw [List.mem_singleton.mp listed]
    rfl

/-- Where records of one slot agree on the model, the slot tells the model. -/
theorem exists_modelOf (among : Record → Prop)
    (one : ∀ record same, among record → among same → record.slot = same.slot →
      record.model = same.model) :
    ∃ modelOf : Nat → String, ∀ record, among record → record.model = modelOf record.slot := by
  have each : ∀ slot, ∃ name, ∀ record, among record → record.slot = slot →
      record.model = name := by
    intro slot
    by_cases found : ∃ record, among record ∧ record.slot = slot
    · obtain ⟨first, listed, rfl⟩ := found
      exact ⟨first.model, fun record other same => one record first other listed same⟩
    · exact ⟨"", fun record listed same => absurd ⟨record, listed, same⟩ found⟩
  choose modelOf names using each
  exact ⟨modelOf, fun record listed => names record.slot record listed rfl⟩

theorem refers_of_opened (one : OneModelPerSlot d) {before after : Library}
    (opens : openFile { map } before d = (.ok (), t, after)) (serves : before.Serves d others) :
    ∃ held, Refers d held others (t, after) := by
  rcases openFile_cases map before d with
    ⟨fault, _, refused, -⟩ | ⟨start, global, read, fresh, noGlobal, single, fit⟩
  · rw [refused] at opens
    cases opens
  have alike := (alike_foldl_attach d global (start, before)).1
  have agree := one map before after t opens
  rw [read] at opens
  obtain ⟨-, reached⟩ := Prod.mk.inj opens
  rw [reached] at alike
  have named : ∃ modelOf, Named modelOf global ∧
      ∀ tile : Tile, tile.Small → Named modelOf (start.recordsOf d tile) := by
    by_cases tiled : start.isTiled = true
    · rw [noGlobal tiled]
      obtain ⟨modelOf, names⟩ := exists_modelOf
        (fun record => ∃ tile : Tile, tile.Small ∧ record ∈ (t.tileRecords d tile).1) (by
          rintro record same ⟨tile, small, listed⟩ ⟨other, smallOther, listedOther⟩ slots
          exact agree (alike.isTiled.trans tiled) tile other small smallOther record listed same
            listedOther slots)
      refine ⟨modelOf, named_nil modelOf, fun tile small record listed => ?_⟩
      apply names record
      refine ⟨tile, small, ?_⟩
      rw [alike.tileRecords]
      rwa [MapTree.recordsOf, if_pos tiled] at listed
    · have none : ∀ tile, start.recordsOf d tile = [] := fun tile => if_neg tiled
      refine ⟨_, named_single single, fun tile _ => ?_⟩
      rw [none]
      exact named_nil _
  obtain ⟨modelOf, named, names⟩ := named
  have keeps := fresh.keeps serves fit
  have empty : Occupied (fun slot p => p.model = modelOf slot) (start, before).1 :=
    fresh.occupied _
  have occupied := empty.foldl_attach (d := d) fit named
  rw [reached] at keeps occupied
  exact ⟨global, start.recordsOf d, modelOf, [], global, rfl, keeps, named, names, occupied⟩

end MapTree

namespace Atlas

variable {d : Directory} {a : Atlas} {held : List (UInt32 × Record)} {map : UInt32}
  {library : Library} {t : MapTree} {tile : Tile}

/-- The records that one map holds. -/
def heldBy (held : List (UInt32 × Record)) (map : UInt32) : List Record :=
  (held.filter fun use => use.1 == map).map Prod.snd

/-- The records that other maps hold. -/
def heldElsewhere (held : List (UInt32 × Record)) (map : UInt32) : List (UInt32 × Record) :=
  held.filter fun use => !use.1 == map

def models (held : List (UInt32 × Record)) : List String := held.map fun use => use.2.model

theorem models_perm (held : List (UInt32 × Record)) (map : UInt32) :
    (models held).Perm ((heldBy held map).map Record.model ++ models (heldElsewhere held map)) := by
  have parts := List.filter_append_perm (fun use : UInt32 × Record => use.1 == map) held
  have models := parts.symm.map fun use => use.2.model
  rw [List.map_append] at models
  rw [heldBy, List.map_map]
  exact models

/-- The records that are held after one map holds others. -/
def replaceHeld (held : List (UInt32 × Record)) (map : UInt32) (records : List Record) :
    List (UInt32 × Record) :=
  records.map (fun record => (map, record)) ++ heldElsewhere held map

theorem heldBy_replaceHeld (held : List (UInt32 × Record)) (map : UInt32) (records : List Record) :
    heldBy (replaceHeld held map records) map = records := by
  simp [heldBy, replaceHeld, heldElsewhere, List.filter_append, List.filter_map,
    List.filter_filter, Function.comp_def]

theorem heldBy_replaceHeld_of_ne (held : List (UInt32 × Record)) {map other : UInt32}
    (records : List Record) (differs : map ≠ other) :
    heldBy (replaceHeld held map records) other = heldBy held other := by
  have outside : ∀ use : UInt32 × Record,
      (use.1 == other && !use.1 == map) = (use.1 == other) := by
    intro use
    by_cases same : use.1 = other
    · simp [same, differs.symm]
    · simp [same]
  simp [heldBy, replaceHeld, heldElsewhere, List.filter_append, List.filter_map,
    List.filter_filter, Function.comp_def, outside, differs]

/-- The library serves the records that the maps hold, and nobody else. -/
structure Balanced (d : Directory) (held : List (UInt32 × Record)) (a : Atlas) : Prop where
  serves : a.library.Serves d (models held)
  opened : ∀ use ∈ held, use.1 ∈ a.maps
  refers : ∀ (map : UInt32) (t : MapTree), a.maps[map]? = some t →
    t.tiles.isEmpty = false ∧
      MapTree.Refers d (heldBy held map) (models (heldElsewhere held map)) (t, a.library)

namespace Balanced

theorem openMap_error (refused : a.openMap d map = .error library) : library = a.library := by
  rw [Atlas.openMap] at refused
  split at refused
  · cases refused
  · rcases MapTree.openFile_cases map a.library d with
      ⟨fault, t, fails, unused⟩ | ⟨start, global, opens, -⟩
    · rw [fails] at refused
      cases refused
      rw [MapTree.unloadAll, unused]
      rfl
    · rw [opens] at refused
      cases refused

theorem openMap_ok (balanced : Balanced d held a) (one : MapTree.OneModelPerSlot d)
    (opens : a.openMap d map = .ok (t, library)) :
    ∃ mine, MapTree.Refers d mine (models (heldElsewhere held map)) (t, library) := by
  rw [Atlas.openMap] at opens
  split at opens
  next tree present =>
    cases opens
    exact ⟨_, (balanced.refers map t present).2⟩
  next absent =>
    -- a map that is not open holds nothing
    have none : heldBy held map = [] := by
      rw [heldBy, List.map_eq_nil_iff, List.filter_eq_nil_iff]
      intro use listed same
      have opened := balanced.opened use listed
      rw [beq_iff_eq.mp same, Std.TreeMap.mem_iff_isSome_getElem?, absent] at opened
      cases opened
    have serves := balanced.serves.perm (models_perm held map)
    rw [none] at serves
    split at opens
    next => cases opens
    next tree after opened =>
      cases opens
      exact MapTree.refers_of_opened one opened serves

theorem mem_replaceHeld {mine : List Record} {use : UInt32 × Record}
    (listed : use ∈ replaceHeld held map mine) :
    (use.1 = map ∧ use.2 ∈ mine) ∨ (use.1 ≠ map ∧ use ∈ held) := by
  rcases List.mem_append.mp listed with own | elsewhere
  · obtain ⟨record, mem, rfl⟩ := List.mem_map.mp own
    exact .inl ⟨rfl, mem⟩
  · obtain ⟨listed, differs⟩ := List.mem_filter.mp elsewhere
    exact .inr ⟨by simpa using differs, listed⟩

/-- A change of one map leaves the records of the others as they are. -/
theorem refers_other (balanced : Balanced d held a) {mine : List Record} {other : UInt32}
    (differs : map ≠ other) (serves : library.Serves d (models (replaceHeld held map mine)))
    (present : a.maps[other]? = some t) :
    t.tiles.isEmpty = false ∧
      MapTree.Refers d (heldBy (replaceHeld held map mine) other)
        (models (heldElsewhere (replaceHeld held map mine) other)) (t, library) := by
  obtain ⟨tiles, refers⟩ := balanced.refers other t present
  have shares := serves.perm (models_perm _ other)
  rw [heldBy_replaceHeld_of_ne held mine differs] at shares ⊢
  exact ⟨tiles, refers.serve shares⟩

theorem replace (balanced : Balanced d held a) {mine : List Record}
    (refers : MapTree.Refers d mine (models (heldElsewhere held map)) (t, library))
    (tiles : t.tiles.isEmpty = false) :
    Balanced d (replaceHeld held map mine) { a with maps := a.maps.insert map t, library } := by
  have serves : library.Serves d (models (replaceHeld held map mine)) := by
    simpa [models, replaceHeld, Function.comp_def] using refers.account.serves
  constructor
  case serves => exact serves
  case opened =>
    intro use listed
    rw [Std.TreeMap.mem_insert, Std.LawfulEqCmp.compare_eq_iff_eq]
    rcases mem_replaceHeld listed with ⟨own, -⟩ | ⟨-, listed⟩
    · exact .inl own.symm
    · exact .inr (balanced.opened use listed)
  case refers =>
    intro other u present
    rw [getElem?_insert] at present
    split at present
    next same =>
      subst same
      cases present
      have shares := serves.perm (models_perm _ map)
      rw [heldBy_replaceHeld] at shares ⊢
      exact ⟨tiles, refers.serve shares⟩
    next differs => exact balanced.refers_other differs serves present

theorem close (balanced : Balanced d held a)
    (serves : library.Serves d (models (heldElsewhere held map))) :
    Balanced d (replaceHeld held map []) { a with maps := a.maps.erase map, library } := by
  constructor
  case serves => exact serves
  case opened =>
    intro use listed
    rw [Std.TreeMap.mem_erase, ne_eq, Std.LawfulEqCmp.compare_eq_iff_eq]
    rcases mem_replaceHeld listed with ⟨-, none⟩ | ⟨differs, listed⟩
    · cases none
    · exact ⟨differs.symm, balanced.opened use listed⟩
  case refers =>
    intro other u present
    rw [getElem?_erase] at present
    split at present
    next => cases present
    next differs => exact balanced.refers_other differs serves present

theorem keepOrClose (balanced : Balanced d held a) {mine : List Record}
    (refers : MapTree.Refers d mine (models (heldElsewhere held map)) (t, library)) :
    ∃ more, Balanced d more (a.keepOrClose map t library) := by
  rw [Atlas.keepOrClose]
  split
  next => exact ⟨_, balanced.close refers.unloadAll⟩
  next tiles => exact ⟨_, balanced.replace refers (by simpa using tiles)⟩

theorem loadTile (balanced : Balanced d held a) (one : MapTree.OneModelPerSlot d)
    (small : tile.Small) : ∃ more, Balanced d more (a.loadTile d map tile).2 := by
  rw [Atlas.loadTile]
  split
  · exact ⟨held, balanced⟩
  · split
    next library refused =>
      rw [openMap_error refused]
      exact ⟨held, balanced⟩
    next t library opens =>
      obtain ⟨mine, refers⟩ := balanced.openMap_ok one opens
      obtain ⟨more, after⟩ := refers.loadTile small
      exact ⟨_, balanced.replace after (MapTree.tiles_loadTile library d tile refers.isReady)⟩

theorem unloadTile (balanced : Balanced d held a) (small : tile.Small) :
    ∃ more, Balanced d more (a.unloadTile d map tile) := by
  rw [Atlas.unloadTile]
  split
  · exact ⟨held, balanced⟩
  next t present =>
    obtain ⟨less, after⟩ := (balanced.refers map t present).2.unloadTile small
    exact balanced.keepOrClose after

theorem unloadMap (balanced : Balanced d held a) :
    ∃ more, Balanced d more (a.unloadMap map) := by
  rw [Atlas.unloadMap]
  split
  · exact ⟨held, balanced⟩
  next t present =>
    have serves := (balanced.refers map t present).2.unloadAll
    -- the map has no tiles any more, and nothing left to give back
    exact ⟨_, balanced.close serves⟩

end Balanced

/-! ### Runs -/

inductive Action where
  | loadTile (map : UInt32) (tile : Tile)
  | unloadTile (map : UInt32) (tile : Tile)
  | unloadMap (map : UInt32)
deriving DecidableEq, Repr

/-- Names tiles by coordinates below 65536 only. -/
def Action.Small : Action → Prop
  | loadTile _ tile => tile.Small
  | unloadTile _ tile => tile.Small
  | unloadMap _ => True

instance : DecidablePred Action.Small
  | .loadTile _ tile => inferInstanceAs (Decidable tile.Small)
  | .unloadTile _ tile => inferInstanceAs (Decidable tile.Small)
  | .unloadMap _ => inferInstanceAs (Decidable True)

def act (d : Directory) (a : Atlas) : Action → Atlas
  | .loadTile map tile => (a.loadTile d map tile).2
  | .unloadTile map tile => a.unloadTile d map tile
  | .unloadMap map => a.unloadMap map

theorem Balanced.act (balanced : Balanced d held a) (one : MapTree.OneModelPerSlot d)
    {action : Action} (small : action.Small) : ∃ more, Balanced d more (a.act d action) := by
  cases action with
  | loadTile map tile => exact balanced.loadTile one small
  | unloadTile map tile => exact balanced.unloadTile small
  | unloadMap map => exact balanced.unloadMap

theorem Balanced.run (balanced : Balanced d held a) (one : MapTree.OneModelPerSlot d)
    {actions : List Action} (small : ∀ action ∈ actions, action.Small) :
    ∃ more, Balanced d more (actions.foldl (Atlas.act d) a) := by
  induction actions generalizing a held with
  | nil => exact ⟨held, balanced⟩
  | cons action rest ih =>
    obtain ⟨more, next⟩ := balanced.act one (small action (.head _))
    exact ih next fun other listed => small other (.tail _ listed)

/-- What an atlas and its library count. -/
structure Counted (d : Directory) (a : Atlas) : Prop where
  users : ∀ name : String, a.library.users name =
    if CanRead d name then (a.maps.toList.map fun entry => entry.2.usesOf name).sum else 0
  opened : ∀ map : UInt32, map ∈ a.maps ↔ ∃ t, a.maps[map]? = some t ∧ 0 < t.tiles.size
  closed : a.maps.isEmpty = true → a.library.size = 0

theorem Balanced.count_models (balanced : Balanced d held a) (name : String) :
    (models held).count name = (a.maps.toList.map fun entry => entry.2.usesOf name).sum := by
  have distinct := nodup_fst_toList a.maps
  have covered : ∀ use ∈ held, use.1 ∈ a.maps.toList.map Prod.fst := by
    intro use listed
    rw [Std.TreeMap.map_fst_toList_eq_keys, Std.TreeMap.mem_keys]
    exact balanced.opened use listed
  rw [models, List.count_eq_countP, List.countP_map]
  have classes := countP_eq_sum Prod.fst distinct covered fun use => use.2.model = name
  rw [List.map_map] at classes
  refine Eq.trans ?_ (classes.trans (congrArg List.sum (List.map_congr_left fun entry listed => ?_)))
  · simp [Function.comp_def, beq_eq_decide]
  · have present := Std.TreeMap.mem_toList_iff_getElem?_eq_some.mp listed
    rw [(balanced.refers entry.1 entry.2 present).2.usesOf name, heldBy, List.count_eq_countP,
      List.map_map, List.countP_map, List.countP_filter]
    simp [Function.comp_def, beq_eq_decide, Bool.and_comm]

theorem Balanced.counted (balanced : Balanced d held a) : Counted d a where
  users name := by rw [balanced.serves.users name, balanced.count_models name]
  opened map := by
    constructor
    · intro listed
      obtain ⟨t, present⟩ := Option.isSome_iff_exists.mp (Std.TreeMap.mem_iff_isSome_getElem?.mp listed)
      have tiles := (balanced.refers map t present).1
      rw [Std.TreeMap.isEmpty_eq_size_eq_zero] at tiles
      exact ⟨t, present, Nat.pos_of_ne_zero (by simpa using tiles)⟩
    · rintro ⟨t, present, -⟩
      rw [Std.TreeMap.mem_iff_isSome_getElem?, present]
      rfl
  closed := by
    intro empty
    have none : held = [] := by
      rw [List.eq_nil_iff_forall_not_mem]
      intro use listed
      exact (Std.TreeMap.isEmpty_iff_forall_not_mem.mp empty) use.1 (balanced.opened use listed)
    have serves := balanced.serves
    rw [none] at serves
    exact serves.size_eq_zero

/-- After any run of loads and unloads that begins with no map, the library counts the uses of all maps,
each open map has a tile, and without maps there are no models. -/
theorem run_counted (one : MapTree.OneModelPerSlot d) (noMaps : a.maps = ∅)
    (noModels : a.library = {}) {actions : List Action}
    (small : ∀ action ∈ actions, action.Small) : Counted d (actions.foldl (act d) a) := by
  have start : Balanced d [] a := by
    refine ⟨?_, nofun, ?_⟩
    · rw [noModels]
      exact serves_empty d
    · intro map t present
      simp [noMaps] at present
  obtain ⟨held, balanced⟩ := start.run one small
  exact balanced.counted

/-- An atlas that has loaded one tile twice and another one once, and unloaded the first. -/
theorem run_counted_rocks : Counted MapTree.rocks
    ([.loadTile 0 ⟨1, 2⟩, .loadTile 0 ⟨1, 2⟩, .loadTile 0 ⟨1, 3⟩, .loadTile 1 ⟨1, 3⟩,
      .unloadTile 0 ⟨1, 2⟩, .unloadMap 1].foldl (act MapTree.rocks) {}) := by
  have files : ∀ entry ∈ MapTree.rocks.entries.toList, ∀ record ∈ MapTree.recordsIn entry.2,
      record.model = "rock" := by decide +kernel
  exact run_counted (MapTree.oneModelPerSlot_of_files "rock" files) rfl rfl (by decide)

end Atlas

end Sightline
