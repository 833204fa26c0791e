import Sightline.Proofs.Hierarchy.Oversized
import Sightline.Proofs.Hierarchy.Storing
import Sightline.Proofs.Placement.Stored
import Sightline.Proofs.World.Assembling

/-!
# Reading the files of an assembly

The file of a written map gives its tree and as many slots as it has placements; the file of a tile gives
a record for each placement on it, with the slot of the placement.
-/
namespace Sightline

open Reader

variable {d : Directory} {map : UInt32} {m : MapPlan}

namespace MapPlan

/-- The placements of the map can be stored in tiles: each one stands under its number, has a box and a
scale that readers accept, and belongs to tiles only. -/
structure Storable (m : MapPlan) : Prop where
  keyed : m.Keyed
  scaled : ∀ (id : UInt32) (p : Placement), m.placements[id]? = some p → p.Scaled
  boxed : ∀ (id : UInt32) (p : Placement), m.placements[id]? = some p → p.Has Placement.bounded
  onTiles : ∀ (id : UInt32) (p : Placement), m.placements[id]? = some p →
    ¬p.Has Placement.mapWide
  noGlobal : m.tiles[globalTile]? = none

/-- The boxes of the placements, in the order of their slots. -/
def boxes (m : MapPlan) : List Box := m.placements.values.map Placement.bounds

/-- What a tile holds. -/
def recordsOn (m : MapPlan) (t : Tile) : List Record :=
  (m.onTile (m.idsOn t.packed)).map fun p => ⟨p, m.slotOf p.id⟩

theorem length_boxes (m : MapPlan) : m.boxes.length = m.placements.keys.length := by
  rw [boxes, List.length_map, length_values]

theorem slotOf_lt {id : UInt32} (known : (m.placements[id]?).isSome = true) :
    m.slotOf id < m.boxes.length := by
  rw [length_boxes]
  exact (List.getElem?_eq_some_iff.mp ((slotOf_eq known).mp rfl)).1

theorem mem_onTile {ids : List UInt32} {p : Placement} :
    p ∈ m.onTile ids ↔ ∃ id ∈ ids, m.placements[id]? = some p := List.mem_filterMap

/-- The placements that a tile has a record of. -/
def own (m : MapPlan) (ids : List UInt32) : List Placement :=
  (m.onTile ids).filter fun p => ¬p.Has Placement.mapWide

theorem placed_of_own (keyed : m.Keyed) {ids : List UInt32} {p : Placement} (listed : p ∈ m.own ids) :
    m.placements[p.id]? = some p := by
  obtain ⟨id, -, stands⟩ := mem_onTile.mp (List.mem_of_mem_filter listed)
  rwa [keyed id p stands]

/-- The placements of distinct numbers have distinct slots. -/
theorem nodup_slots (keyed : m.Keyed) {ids : List UInt32} (distinct : ids.Nodup) :
    ((m.own ids).map fun p => m.slotOf p.id).Nodup := by
  have placements : (m.own ids).Nodup := by
    apply List.Nodup.filter
    refine distinct.filterMap fun id other p here there => ?_
    rw [← keyed id p here, ← keyed other p there]
  refine List.Nodup.map_on ?_ placements
  intro p listed q listedToo same
  have stands := placed_of_own keyed listed
  have standsToo := placed_of_own keyed listedToo
  have inSlot := (slotOf_eq (by rw [stands]; rfl)).mp same
  have inSlotToo := (slotOf_eq (by rw [standsToo]; rfl)).mp rfl
  rw [inSlot, Option.some.injEq] at inSlotToo
  rw [inSlotToo, standsToo, Option.some.injEq] at stands
  exact stands.symm

/-- If all placements stand on tiles, then each tile has a record of all of its placements. -/
theorem Storable.own_eq (storable : m.Storable) (ids : List UInt32) : m.own ids = m.onTile ids := by
  rw [own, List.filter_eq_self]
  intro p listed
  obtain ⟨id, -, stands⟩ := mem_onTile.mp listed
  simpa using storable.onTiles id p stands

end MapPlan

namespace MapTree

/-! ### The file of the map -/

/-- A map has tiles unless it is marked with a zero. -/
theorem reads_head (mark : UInt8) :
    Reads headReader (Text.toBytes Model.magic ++ [mark]) (decide (mark ≠ 0)) :=
  (reads_label Model.magic).bind ((reads_byte mark).last rfl)

theorem reads_tree {tree : Hierarchy} {bytes : List UInt8} (storable : tree.Storable)
    (checked : tree.checkObjects tree.objects.size = .ok ())
    (written : Output.ofPieces tree.pieces = (bytes, .ok ())) :
    Reads treeReader (Text.toBytes "NODE" ++ bytes) tree := by
  refine (reads_label "NODE").bind ?_
  rw [← List.append_nil bytes]
  exact (Hierarchy.reads_pieces storable written).bind (Reads.check checked (.pure tree))

theorem reads_global : Reads (globalReader true) (Text.toBytes "GOBJ") none :=
  (reads_label "GOBJ").last rfl

/-- A map whose file was read from an assembly. -/
structure Opened (map : UInt32) (m : MapPlan) (t : MapTree) : Prop where
  fresh : Fresh map t
  isTiled : t.isTiled = true
  tree : Hierarchy.build m.boxes Hierarchy.defaultLeafSize = .ok t.tree
  size : t.slots.size = m.boxes.length

/-- The file of a map: the mark for tiles, the tree, and the placements of a map without terrain. -/
theorem treeOutput_eq_ok {tree : Hierarchy} {bytes : List UInt8}
    (written : Assembly.treeOutput m tree = (bytes, .ok ())) :
    ∃ nodes globals, Output.ofPieces tree.pieces = (nodes, .ok ()) ∧
      Output.ofPieces ((m.onTile (m.idsOn MapPlan.globalTile)).map Placement.toBytes?) =
        (globals, .ok ()) ∧
      bytes = Text.toBytes Model.magic ++
        [if m.tiles[MapPlan.globalTile]?.isNone then 1 else 0] ++
          (Text.toBytes "NODE" ++ nodes ++ (Text.toBytes "GOBJ" ++ globals)) := by
  rw [Assembly.treeOutput] at written
  obtain ⟨rest, restWritten, rfl⟩ := Output.ofPieces_ok.mp written
  obtain ⟨nodes, last, nodesWritten, lastWritten, rfl⟩ := Output.ofPieces_append.mp restWritten
  obtain ⟨globals, globalsWritten, rfl⟩ := Output.ofPieces_ok.mp lastWritten
  refine ⟨nodes, globals, nodesWritten, globalsWritten, ?_⟩
  simp only [List.append_assoc]

/-- The file of a map with tiles has their mark in its head, then its tree and an empty list. -/
theorem head_written (files : Assembly.MapFiles map m d)
    (tiled : m.tiles[MapPlan.globalTile]? = none) :
    ∃ tree bytes, Hierarchy.build m.boxes Hierarchy.defaultLeafSize = .ok tree ∧
      Output.ofPieces tree.pieces = (bytes, .ok ()) ∧
      d.read (treeFileName map) >>= headReader.run =
        .ok (true, Text.toBytes "NODE" ++ bytes ++ Text.toBytes "GOBJ") := by
  obtain ⟨tree, bytes, built, written, stands⟩ := files.tree
  obtain ⟨nodes, globals, nodesWritten, globalsWritten, rfl⟩ := treeOutput_eq_ok written
  have none : m.onTile (m.idsOn MapPlan.globalTile) = [] := by
    rw [MapPlan.idsOn, tiled]
    rfl
  rw [none] at globalsWritten
  obtain rfl := Output.ofPieces_nil.mp globalsWritten
  refine ⟨tree, nodes, built, nodesWritten, ?_⟩
  rw [Directory.read_of_lookup? stands, tiled, List.append_nil]
  exact reads_head 1 _

/-- A map is opened once its tree is read. -/
theorem openFile_of_tree {bytes : List UInt8} {tree : Hierarchy}
    (head : d.read (treeFileName map) >>= headReader.run = .ok (true, bytes))
    (read : treeReader.run bytes = .ok (tree, Text.toBytes "GOBJ"))
    (built : Hierarchy.build m.boxes Hierarchy.defaultLeafSize = .ok tree) (library : Library) :
    ∃ t, openFile { map } library d = (.ok (), t, library) ∧ Opened map m t := by
  have last := reads_global.run_all
  let slots : Array (Option Occupant) := Array.replicate tree.objects.size none
  refine ⟨{ map, isTiled := true, isReady := true, tree, slots }, ?_, ?_⟩
  · simp only [openFile, head, read, last]
    rfl
  · refine ⟨⟨rfl, rfl, ⟨_, rfl⟩, rfl, rfl⟩, rfl, built, ?_⟩
    exact Array.size_replicate.trans (Hierarchy.build_objects built).1

theorem openFile_written (files : Assembly.MapFiles map m d) (storable : m.Storable)
    (few : ∀ tree, Hierarchy.build m.boxes Hierarchy.defaultLeafSize = .ok tree → tree.FewNodes)
    (library : Library) :
    ∃ t, openFile { map } library d = (.ok (), t, library) ∧ Opened map m t := by
  obtain ⟨tree, bytes, built, written, head⟩ := head_written files storable.noGlobal
  obtain ⟨treeStorable, size, checked⟩ := Hierarchy.build_storable built (few tree built)
  rw [← size] at checked
  have body := reads_tree treeStorable checked written (Text.toBytes "GOBJ")
  exact openFile_of_tree head body built library

/-- Whatever is read as the tree of a map is the one that was built for it. -/
theorem eq_of_read_tree {tree found : Hierarchy} {bytes rest after : List UInt8}
    (built : Hierarchy.build m.boxes Hierarchy.defaultLeafSize = .ok tree)
    (written : Output.ofPieces tree.pieces = (bytes, .ok ()))
    (read : treeReader.run (Text.toBytes "NODE" ++ bytes ++ rest) = .ok (found, after)) :
    found = tree ∧ after = rest := by
  -- behind its label the tree is all that takes bytes, since the check of its objects takes none
  rw [List.append_assoc, treeReader, (reads_label "NODE").run_bind_eq] at read
  obtain ⟨other, between, readTree, read⟩ := run_bind_eq_ok.mp read
  obtain ⟨_, -, result⟩ := run_check_eq_ok.mp read
  cases result
  exact Hierarchy.eq_of_read_built built written readTree

/-- A written map with tiles is opened as it was, or not at all if its tree is too large to be read. -/
theorem openFile_tiled (files : Assembly.MapFiles map m d)
    (tiled : m.tiles[MapPlan.globalTile]? = none) (library : Library) :
    ∃ t, (openFile { map } library d).2 = (t, library) ∧
      (Opened map m t ∨ t.tree = .empty ∧ t.slots = #[]) := by
  obtain ⟨tree, bytes, built, written, head⟩ := head_written files tiled
  cases read : treeReader.run (Text.toBytes "NODE" ++ bytes ++ Text.toBytes "GOBJ") with
  | error fault =>
    refine ⟨{ map, isTiled := true }, ?_, .inr ⟨rfl, rfl⟩⟩
    simp only [openFile, head, read]
  | ok result =>
    obtain ⟨found, after⟩ := result
    obtain ⟨rfl, rfl⟩ := eq_of_read_tree built written read
    obtain ⟨t, opens, opened⟩ := openFile_of_tree head read built library
    exact ⟨t, by rw [opens], .inl opened⟩

/-! ### The file of a tile -/

theorem reads_record {p : Placement} {slots : Nat} {bytes : List UInt8} (scaled : p.Scaled)
    (boxed : p.Has Placement.bounded) (inside : m.slotOf p.id < slots)
    (fits : m.slotOf p.id < UInt32.size) (written : Assembly.recordBytes? m p = .ok bytes) :
    Reads (recordReader slots) bytes ⟨p, m.slotOf p.id⟩ := by
  obtain ⟨placed, placedWritten, written⟩ := bind_eq_ok.mp written
  cases written
  refine (Placement.reads_toBytes?_some scaled boxed placedWritten).bind ((reads_nat fits).last ?_)
  rw [if_neg (Nat.not_le_of_lt inside)]

theorem readRecords_written {ps : List Placement} {slots : Nat}
    (scaled : ∀ p ∈ ps, p.Scaled) (boxed : ∀ p ∈ ps, p.Has Placement.bounded)
    (inside : ∀ p ∈ ps, m.slotOf p.id < slots) (fits : slots ≤ UInt32.size) {bytes : List UInt8}
    (written : Output.ofPieces (ps.map (Assembly.recordBytes? m)) = (bytes, .ok ())) :
    readRecords slots ps.length bytes = (ps.map fun p => ⟨p, m.slotOf p.id⟩, .ok ()) := by
  -- the records follow each other, so that the rest of them begins where the first one ends
  induction ps generalizing bytes with
  | nil => rfl
  | cons p rest ih =>
    obtain ⟨front, back, first, following, rfl⟩ := Output.ofPieces_cons.mp written
    have slot := inside p (.head _)
    have read := reads_record (scaled p (.head _)) (boxed p (.head _)) slot
      (Nat.lt_of_lt_of_le slot fits) first back
    have others := ih (fun q listed => scaled q (.tail _ listed))
      (fun q listed => boxed q (.tail _ listed)) (fun q listed => inside q (.tail _ listed)) following
    simp only [List.length_cons, readRecords, read, others, List.map_cons]

/-- There is a file for each tile with placements of its own. -/
theorem tileOutput?_eq (ids : List UInt32) :
    Assembly.tileOutput? m ids =
      if m.own ids = [] then none
      else some (.ofPieces (.ok (Text.toBytes Model.magic) :: Bytes.counted (m.own ids).length [] ::
        (m.own ids).map (Assembly.recordBytes? m))) := by
  rw [Assembly.tileOutput?, ← MapPlan.own]
  cases m.own ids with
  | nil => rfl
  | cons p rest => rfl

/-- Of a tile only those records are read that were written, in the same order, whether it can be read to
its end or not. -/
theorem readRecords_prefix_written {ps : List Placement} {slots : Nat}
    (boxed : ∀ p ∈ ps, p.Has Placement.bounded) (fits : ∀ p ∈ ps, m.slotOf p.id < UInt32.size)
    {bytes : List UInt8}
    (written : Output.ofPieces (ps.map (Assembly.recordBytes? m)) = (bytes, .ok ())) :
    (readRecords slots ps.length bytes).1 <+: ps.map fun p => ⟨p, m.slotOf p.id⟩ := by
  induction ps generalizing bytes with
  | nil => exact List.prefix_refl _
  | cons p rest ih =>
    obtain ⟨front, back, first, following, rfl⟩ := Output.ofPieces_cons.mp written
    rw [List.length_cons, readRecords]
    split
    · exact List.nil_prefix
    next found after read =>
      -- a record that is read has a scale that readers accept, so it is the one that was written
      have scaled : p.Scaled := by
        obtain ⟨placed, placedWritten, same⟩ := bind_eq_ok.mp first
        cases same
        obtain ⟨placement?, between, readPlacement, -⟩ := run_bind_eq_ok.mp read
        rw [List.append_assoc] at readPlacement
        exact Placement.scaled_of_read_some placedWritten readPlacement
      have slot := fits p (.head _)
      have wide := recordReader_widen (Nat.le_refl _) read
      rw [reads_record scaled (boxed p (.head _)) slot slot first] at wide
      cases wide
      have others := ih (fun q listed => boxed q (.tail _ listed))
        (fun q listed => fits q (.tail _ listed)) following
      exact List.cons_prefix_cons.mpr ⟨rfl, others⟩

/-- Slots fit a word, since a tree has no more objects. -/
theorem slots_fit (files : Assembly.MapFiles map m d) : m.boxes.length ≤ UInt32.size := by
  obtain ⟨tree, bytes, built, -, -⟩ := files.tree
  have limit : Hierarchy.objectLimit ≤ UInt32.size := by decide
  exact Nat.le_trans (Nat.le_of_lt (Hierarchy.build_cases built).1) limit

/-- The file of a tile has the number of its own placements in its head, and then their records. -/
theorem tileHead_written (files : Assembly.MapFiles map m d) {tile : Tile} (small : tile.Small)
    {entry : Entry} (found : d.find (tileFileName map tile) = .ok entry) :
    ∃ records,
      Output.ofPieces ((m.own (m.idsOn tile.packed)).map (Assembly.recordBytes? m)) =
        (records, .ok ()) ∧
      d.read (tileFileName map tile) >>= tileHeadReader.run =
        .ok ((m.own (m.idsOn tile.packed)).length, records) := by
  have stands := Directory.lookup?_eq_some.mpr found
  have known := stands
  rw [files.tiles tile small] at known
  obtain ⟨output, made, rfl⟩ := Option.map_eq_some_iff.mp known
  -- the whole tile was written, or writing the map would have failed
  have written : output = (output.1, .ok ()) :=
    Prod.ext rfl (files.complete tile output small made)
  rw [tileOutput?_eq] at made
  split at made
  · cases made
  next =>
    rw [← Option.some.inj made] at written stands
    obtain ⟨rest, restWritten, bytes⟩ := Output.ofPieces_ok.mp written
    obtain ⟨count, records, counted, recordsWritten, rfl⟩ := Output.ofPieces_cons.mp restWritten
    obtain ⟨countFits, rfl⟩ := Bytes.counted_eq_ok.mp counted
    have head : Reads tileHeadReader (Text.toBytes Model.magic ++ Bytes.ofNat _) _ :=
      (reads_label Model.magic).bind (reads_nat countFits)
    refine ⟨records, recordsWritten, ?_⟩
    have front := head records
    rw [Directory.read_of_lookup? stands, bytes, List.append_nil, ← List.append_assoc]
    exact front

/-- The file of a tile, if there is one, is read to its end. -/
theorem tileRecords_written {t : MapTree} (files : Assembly.MapFiles map m d) (storable : m.Storable)
    (name : t.map = map) (size : t.slots.size = m.boxes.length) {tile : Tile} (small : tile.Small)
    {entry : Entry} (found : d.find (tileFileName map tile) = .ok entry) :
    t.tileRecords d tile = (m.recordsOn tile, .ok ()) := by
  obtain ⟨records, recordsWritten, read⟩ := tileHead_written files small found
  rw [storable.own_eq] at recordsWritten read
  have placed {p : Placement} (listed : p ∈ m.onTile (m.idsOn tile.packed)) :
      m.placements[p.id]? = some p := by
    obtain ⟨id, -, stands⟩ := MapPlan.mem_onTile.mp listed
    rwa [storable.keyed id p stands]
  have all := readRecords_written (fun p listed => storable.scaled p.id p (placed listed))
    (fun p listed => storable.boxed p.id p (placed listed))
    (fun p listed => MapPlan.slotOf_lt (by rw [placed listed]; rfl)) (slots_fit files) recordsWritten
  rw [tileRecords, name, read]
  dsimp only
  rw [size, all]
  rfl

/-- What is read of a tile, whichever it is, are the first records of its placements. -/
theorem tileRecords_prefix_written {t : MapTree} (files : Assembly.MapFiles map m d) (keyed : m.Keyed)
    (boxed : ∀ (id : UInt32) (p : Placement), m.placements[id]? = some p → p.Has Placement.bounded)
    (name : t.map = map) (tile : Tile) :
    (t.tileRecords d tile).1 <+:
      (m.own (m.idsOn tile.packed)).map fun p => ⟨p, m.slotOf p.id⟩ := by
  cases found : d.find (tileFileName t.map tile) with
  | error fault =>
    rw [tileRecords_of_find found]
    exact List.nil_prefix
  | ok entry =>
    rw [name] at found
    -- files of tiles are named after words, so that one that is found belongs to a small tile
    have small : tile.Small := by
      by_contra notSmall
      have stands := Directory.lookup?_eq_some.mpr found
      rw [files.large tile notSmall] at stands
      cases stands
    obtain ⟨records, recordsWritten, read⟩ := tileHead_written files small found
    have placed {p : Placement} (listed : p ∈ m.own (m.idsOn tile.packed)) :
        m.placements[p.id]? = some p := MapPlan.placed_of_own keyed listed
    rw [tileRecords, name, read]
    refine readRecords_prefix_written (fun p listed => boxed p.id p (placed listed)) ?_ recordsWritten
    intro p listed
    have slot := MapPlan.slotOf_lt (by rw [placed listed]; rfl : (m.placements[p.id]?).isSome = true)
    exact Nat.lt_of_lt_of_le slot (slots_fit files)

theorem mem_tileRecords {t : MapTree} (files : Assembly.MapFiles map m d) (keyed : m.Keyed)
    (boxed : ∀ (id : UInt32) (p : Placement), m.placements[id]? = some p → p.Has Placement.bounded)
    (name : t.map = map) (tile : Tile) :
    ∀ record ∈ (t.tileRecords d tile).1, ∃ p : Placement,
      m.placements[p.id]? = some p ∧ record = ⟨p, m.slotOf p.id⟩ := by
  intro record listed
  have written := (tileRecords_prefix_written files keyed boxed name tile).subset listed
  obtain ⟨p, own, rfl⟩ := List.mem_map.mp written
  exact ⟨p, MapPlan.placed_of_own keyed own, rfl⟩

/-- A tile lists each slot at most once. -/
theorem nodup_tileRecords {t : MapTree} (files : Assembly.MapFiles map m d) (keyed : m.Keyed)
    (boxed : ∀ (id : UInt32) (p : Placement), m.placements[id]? = some p → p.Has Placement.bounded)
    (name : t.map = map) {tile : Tile} (distinct : (m.idsOn tile.packed).Nodup) :
    ((t.tileRecords d tile).1.map Record.slot).Nodup := by
  have first := (tileRecords_prefix_written files keyed boxed name tile).map Record.slot
  rw [List.map_map] at first
  exact (MapPlan.nodup_slots keyed distinct).sublist first.sublist

/-- A tile without a file has no placements. -/
theorem recordsOn_of_missing (files : Assembly.MapFiles map m d) (storable : m.Storable) {tile : Tile}
    (small : tile.Small) {fault : Fault}
    (missing : d.find (tileFileName map tile) = .error fault) : m.recordsOn tile = [] := by
  have none := Directory.lookup?_eq_none.mpr ⟨fault, missing⟩
  rw [files.tiles tile small, Option.map_eq_none_iff, tileOutput?_eq, storable.own_eq] at none
  split at none
  next empty => rw [MapPlan.recordsOn, empty, List.map_nil]
  next => cases none

/-- Loading a tile reads all of its records, whatever was loaded before. -/
theorem loadTile_written {t u : MapTree} (files : Assembly.MapFiles map m d) (storable : m.Storable)
    (opened : Opened map m t) (alike : Alike t u) {tile : Tile} (small : tile.Small)
    (library : Library) :
    u.recordsOf d tile = m.recordsOn tile ∧ (u.loadTile library d tile).1 = .ok () := by
  have tiled : u.isTiled = true := alike.isTiled.trans opened.isTiled
  have ready : u.isReady = true := alike.isReady.trans opened.fresh.isReady
  have name : u.map = map := alike.map.trans opened.fresh.map
  have size : u.slots.size = m.boxes.length := alike.size.trans opened.size
  rw [recordsOf, if_pos tiled, loadTile, if_neg (not_not.mpr tiled), if_neg (not_not.mpr ready)]
  cases found : d.find (tileFileName u.map tile) with
  | error fault =>
    refine ⟨(tileRecords_of_find found).trans ?_, rfl⟩
    rw [name] at found
    exact (recordsOn_of_missing files storable small found).symm
  | ok entry =>
    rw [name] at found
    have records := tileRecords_written files storable name size small found
    rw [records]
    exact ⟨rfl, rfl⟩

end MapTree

end Sightline
