import Sightline.Proofs.World.Again

/-!
# Opening a map without terrain

The placements on the tile that stands for a whole map follow the tree in its file. Opening the map
reads the first of them and puts it into the first slot, while slots are numbered by ids: what is read is
in its own slot, the one over whose box the tree was built, only if no other number of the map is less.
-/
namespace Sightline

open Reader
open Library (CanRead)
open MapTree (boulder)

variable {calls : List Call} {d d' : Directory} {a a' : Assembly} {map id : UInt32} {m : MapPlan}

namespace MapPlan

/-- The first slot belongs to the least number. -/
theorem slotOf_eq_zero_iff (known : (m.placements[id]?).isSome = true) :
    m.slotOf id = 0 ↔ ∀ other : UInt32, (m.placements[other]?).isSome = true → id ≤ other := by
  rw [slotOf_eq known]
  simp only [← mem_keys_iff] at known ⊢
  have ordered : m.placements.keys.Pairwise (· < ·) :=
    m.placements.ordered_keys.imp Std.compare_eq_lt.mp
  cases keys : m.placements.keys with
  | nil =>
    rw [keys] at known
    cases known
  | cons least rest =>
    rw [keys] at ordered known
    obtain ⟨below, -⟩ := List.pairwise_cons.mp ordered
    rw [List.getElem?_cons_zero, Option.some.injEq]
    constructor
    · rintro rfl other listed
      cases listed with
      | head => exact UInt32.le_refl _
      | tail _ listed => exact UInt32.le_of_lt (below other listed)
    · intro least_le
      cases known with
      | head => rfl
      | tail _ listed =>
        exact absurd (below id listed) (UInt32.not_lt.mpr (least_le least (.head _)))

end MapPlan

namespace Assembly

/-- Every map of an assembly is settled when the assembly is written. -/
theorem exists_settled_of_write (keyed : a.Keyed) (written : a.write d = .ok (.ok (), a', d'))
    (known : a.maps[map]? = some m) :
    ∃ n, a'.maps[map]? = some n ∧ MapPlan.Settles a'.models m n := by
  obtain ⟨lists, modelFiles, ⟨plans, settles, -, rfl⟩, -, -⟩ := write_iff.mp written
  obtain ⟨done, rfl⟩ := forall₂_settlesTo_iff.mp settles
  have planned := Std.TreeMap.mem_toList_iff_getElem?_eq_some.mpr known
  refine ⟨m.settledBy a.models, ?_,
    MapPlan.settles_of_settleAll (keyed map m known) (Prod.ext (done _ planned) rfl)⟩
  rw [← Std.TreeMap.mem_toList_iff_getElem?_eq_some, toList_settledPlans]
  exact List.mem_map_of_mem (f := fun plan => (plan.1, plan.2.settledBy a.models)) planned

end Assembly

namespace MapTree

/-- A map as it was opened with one placement in its first slot, which has its model. -/
structure OpenedWith (d : Directory) (m : MapPlan) (p : Placement) (t : MapTree)
    (library : Library) : Prop where
  tree : Hierarchy.build m.boxes Hierarchy.defaultLeafSize = .ok t.tree
  size : t.slots.size = m.boxes.length
  first : ∃ handle, t.occupant? 0 = some ⟨p, handle⟩ ∧ Provided d library ⟨p, handle⟩
  others : ∀ slot, slot ≠ 0 → t.occupant? slot = none

theorem openFile_of_global {bytes globals rest : List UInt8} {tree : Hierarchy} {p : Placement}
    {library : Library} (head : d.read (treeFileName map) >>= headReader.run = .ok (false, bytes))
    (read : treeReader.run bytes = .ok (tree, Text.toBytes "GOBJ" ++ globals))
    (global : Placement.reader?.run globals = .ok (some p, rest))
    (built : Hierarchy.build m.boxes Hierarchy.defaultLeafSize = .ok tree)
    (filled : m.boxes ≠ []) (faithful : library.Faithful d) (readable : CanRead d p.model) :
    ∃ t after, openFile { map } library d = (.ok (), t, after) ∧ OpenedWith d m p t after := by
  have last : (globalReader false).run (Text.toBytes "GOBJ" ++ globals) = .ok (some p, rest) :=
    (reads_label "GOBJ").run_bind global
  have size : tree.objects.size = m.boxes.length := (Hierarchy.build_objects built).1
  have room : 0 < tree.objects.size := by
    rw [size]
    exact List.length_pos_iff.mpr filled
  obtain ⟨model, readModel⟩ := Library.exists_model_of_canRead readable
  obtain ⟨handle, after, acquired, named, leads, -⟩ := Library.acquire_readable faithful readModel
  let empty : Array (Option Occupant) := Array.replicate tree.objects.size none
  have notEmpty : empty.isEmpty = false := by
    rw [Array.isEmpty_eq_false_iff_exists_mem]
    exact ⟨none, Array.mem_replicate.mpr ⟨room.ne', rfl⟩⟩
  let t : MapTree := { map, isTiled := false, isReady := true, tree }
  refine ⟨{ t with slots := empty.setIfInBounds 0 (some ⟨p, some handle⟩), uses := t.uses.insert 0 1 },
    after, ?_, ?_⟩
  · simp only [openFile, head, read, last, placeGlobal]
    rw [if_neg (Bool.eq_false_iff.mp notEmpty), acquired]
  · constructor
    case tree => exact built
    case size => simp [empty, size]
    case first =>
      refine ⟨some handle, ?_, handle, model, rfl, named, readModel, leads⟩
      simp [occupant?, empty, room]
    case others =>
      intro slot other
      rw [occupant?, Array.getElem?_setIfInBounds_ne (Ne.symm other), Array.getElem?_replicate]
      split <;> rfl

/-- A written map without terrain is opened with the placement that was put on it first. -/
theorem openFile_written_global {first : UInt32} {p : Placement} {library : Library}
    (written : (Assembly.ofCalls calls).write d = .ok (.ok (), a, d')) (known : a.maps[map]? = some m)
    (few : ∀ tree, Hierarchy.build m.boxes Hierarchy.defaultLeafSize = .ok tree → tree.FewNodes)
    (listed : (m.idsOn MapPlan.globalTile).head? = some first)
    (placed : m.placements[first]? = some p) (scaled : p.Scaled) (boxed : p.Has Placement.bounded)
    (faithful : library.Faithful d') (readable : CanRead d' p.model) :
    ∃ t after, openFile { map } library d' = (.ok (), t, after) ∧ OpenedWith d' m p t after := by
  -- the file is in the directory, whatever else was there or was written
  obtain ⟨files, filesOf, saved⟩ := Assembly.exists_files_of_write written
  have planned := Std.TreeMap.mem_toList_iff_getElem?_eq_some.mpr known
  obtain ⟨bytes, made, read⟩ :=
    Assembly.read_tree (nodup_fst_toList a.maps) planned filesOf saved
  obtain ⟨tree, built, output⟩ := bind_eq_ok.mp made
  obtain ⟨nodes, globals, nodesWritten, globalsWritten, rfl⟩ := treeOutput_eq_ok (Except.ok.inj output)
  have marked : m.tiles[MapPlan.globalTile]?.isNone = false := by
    cases stands : m.tiles[MapPlan.globalTile]? with
    | none =>
      rw [MapPlan.idsOn, stands] at listed
      cases listed
    | some ids => rfl
  rw [marked] at read
  have head : d'.read (treeFileName map) >>= headReader.run =
      .ok (false, Text.toBytes "NODE" ++ nodes ++ (Text.toBytes "GOBJ" ++ globals)) := by
    rw [read]
    exact reads_head 0 _
  obtain ⟨storable, size, checked⟩ := Hierarchy.build_storable built (few tree built)
  rw [← size] at checked
  have body := reads_tree storable checked nodesWritten (Text.toBytes "GOBJ" ++ globals)
  -- whatever follows the first placement is not read
  obtain ⟨others, same⟩ : ∃ others, m.onTile (m.idsOn MapPlan.globalTile) = p :: others := by
    obtain ⟨rest, ids⟩ := List.head?_eq_some_iff.mp listed
    exact ⟨m.onTile rest, by rw [ids, MapPlan.onTile, List.filterMap_cons_some placed]; rfl⟩
  rw [same] at globalsWritten
  obtain ⟨front, back, frontWritten, -, rfl⟩ := Output.ofPieces_cons.mp globalsWritten
  have global := Placement.reads_toBytes?_some scaled boxed frontWritten back
  have filled : m.boxes ≠ [] := by
    have stands := (mem_values m.placements).mpr ⟨first, placed⟩
    exact List.ne_nil_of_mem (List.mem_map_of_mem stands)
  exact openFile_of_global head body global built filled faithful readable

/-- Opening a map finds the placement that was put first on the tile that stands for the whole map, and
puts it into the first slot. A placement on this tile is in the slot of its own box just if it was put there
first and no number of the map is less. -/
theorem openFile_global_iff {library : Library}
    (written : (Assembly.ofCalls calls).write d = .ok (.ok (), a, d'))
    (few : ∀ (m : MapPlan) (tree : Hierarchy), a.maps[map]? = some m →
      Hierarchy.build m.boxes Hierarchy.defaultLeafSize = .ok tree → tree.FewNodes)
    (placed : IsPlaced calls map ⟨65, 65⟩ id)
    (scaled : ∀ tile p, .placement map tile p ∈ calls → p.Scaled)
    (readable : ∀ tile p, .placement map tile p ∈ calls → CanRead d' p.model)
    (faithful : library.Faithful d') :
    ∃ m q first p t after, a.maps[map]? = some m ∧ m.placements[id]? = some q ∧
      m.boxes[m.slotOf id]? = some q.bounds ∧
      firstOn? calls map MapPlan.globalTile = some first ∧ m.placements[first]? = some p ∧
      openFile { map } library d' = (.ok (), t, after) ∧ OpenedWith d' m p t after ∧
      ((∃ handle, t.occupant? (m.slotOf id) = some ⟨q, handle⟩) ↔
        first = id ∧ ∀ other tile, IsPlaced calls map tile other → id ≤ other) := by
  -- the map is in the assembly, and the tile in the map
  obtain ⟨m, known⟩ := Option.isSome_iff_exists.mp
    (((Assembly.follows_ofCalls calls).maps map).mpr ⟨id, _, placed⟩)
  have follows := Assembly.follows_of_plan known
  obtain ⟨settled, found, settles⟩ :=
    Assembly.exists_settled_of_write (Assembly.reachable_ofCalls calls).keyed written known
  have keyed := settles.keyed follows.keyed
  have inMap := follows.isSome_settled settles
  have onTile : id ∈ m.idsOn MapPlan.globalTile := (follows.tiles _ id).mpr ⟨_, rfl, placed⟩
  have listed := Assembly.head?_idsOn calls map MapPlan.globalTile
  rw [known, Option.getD_some] at listed
  obtain ⟨first, rest, ids⟩ := List.exists_cons_of_ne_nil (List.ne_nil_of_mem onTile)
  have isFirst : firstOn? calls map MapPlan.globalTile = some first := by rw [← listed, ids]; rfl
  rw [isFirst] at listed
  obtain ⟨tile, -, firstPlaced⟩ := (follows.tiles _ first).mp (List.mem_of_head? listed)
  obtain ⟨p, firstStands⟩ := Option.isSome_iff_exists.mp ((inMap first).mpr ⟨tile, firstPlaced⟩)
  have isSome := (inMap id).mpr ⟨_, placed⟩
  obtain ⟨q, stands⟩ := Option.isSome_iff_exists.mp isSome
  -- its data are those of a call, but for its box
  obtain ⟨origin, before, made⟩ := follows.first settles firstStands
  obtain ⟨-, tile, call⟩ := mem_of_firstPlacement? before
  have wellScaled : p.Scaled := by
    rw [Placement.Scaled, Assembly.settle_scale made]
    exact scaled tile origin call
  have canRead : CanRead d' p.model := by
    rw [Assembly.settle_model made]
    exact readable tile origin call
  rw [MapPlan.idsOn, ← settles.tiles] at listed
  obtain ⟨t, after, opens, opened⟩ := openFile_written_global written found (few settled · found)
    listed firstStands wellScaled (Assembly.settle_has made) faithful canRead
  refine ⟨settled, q, first, p, t, after, found, stands, ?_, isFirst, firstStands, opens, opened, ?_⟩
  · exact MapPlan.bounds_eq ((MapPlan.slotOf_eq isSome).mp rfl) stands
  · have least := MapPlan.slotOf_eq_zero_iff isSome
    simp only [inMap, forall_exists_index] at least
    obtain ⟨handle, occupied, -⟩ := opened.first
    constructor
    · rintro ⟨other, inSlot⟩
      have slot : settled.slotOf id = 0 := by
        by_contra away
        rw [opened.others _ away] at inSlot
        cases inSlot
      rw [slot, occupied] at inSlot
      cases inSlot
      exact ⟨(keyed first p firstStands).symm.trans (keyed id p stands), least.mp slot⟩
    · rintro ⟨rfl, below⟩
      cases firstStands.symm.trans stands
      exact ⟨handle, by rw [least.mpr below]; exact occupied⟩

/-- A map without terrain, and a boulder of a lesser number on one of its tiles. -/
def chasm : List Call :=
  let bounds : Box := ⟨⟨0, 0, 0⟩, ⟨1, 1, 1⟩⟩
  let flags := Placement.mapWide ||| Placement.bounded
  [.model "boulder" boulder, .placement 0 ⟨1, 2⟩ { flags := 0, id := 4, model := "boulder" },
    .placement 0 ⟨65, 65⟩ { flags, id := 9, bounds, model := "boulder" }]

def writtenChasm : Assembly × Directory := (Assembly.writtenBy chasm).getD ({}, {})

theorem write_chasm : (Assembly.ofCalls chasm).write {} = .ok (.ok (), writtenChasm) := by
  have done : (Assembly.writtenBy chasm).isSome = true := by decide +kernel
  obtain ⟨state, found⟩ := Option.isSome_iff_exists.mp done
  have written := Assembly.write_of_writtenBy found
  rwa [writtenChasm, found, Option.getD_some]

theorem fewNodes_chasm (m : MapPlan) (tree : Hierarchy)
    (known : writtenChasm.1.maps[(0 : UInt32)]? = some m)
    (built : Hierarchy.build m.boxes Hierarchy.defaultLeafSize = .ok tree) : tree.FewNodes := by
  have maps : ∀ entry ∈ writtenChasm.1.maps.toList,
      ∀ tree ∈ (Hierarchy.build entry.2.boxes Hierarchy.defaultLeafSize).toOption, tree.FewNodes := by
    decide +kernel
  have listed := Std.TreeMap.mem_toList_iff_getElem?_eq_some.mpr known
  exact maps _ listed tree (by rw [built]; rfl)

theorem mem_chasm {tile : Tile} {p : Placement} (listed : .placement 0 tile p ∈ chasm) :
    p.Scaled ∧ p.model = "boulder" := by
  simp only [chasm, List.mem_cons, List.not_mem_nil, or_false, reduceCtorEq, false_or,
    Call.placement.injEq, true_and] at listed
  obtain ⟨-, rfl⟩ | ⟨-, rfl⟩ := listed
  · exact ⟨by decide, rfl⟩
  · exact ⟨by decide, rfl⟩

theorem canRead_chasm {tile : Tile} {p : Placement} (listed : .placement 0 tile p ∈ chasm) :
    CanRead writtenChasm.2 p.model := by
  have readable : CanRead writtenChasm.2 "boulder" := by decide +kernel
  rw [(mem_chasm listed).2]
  exact readable

theorem openFile_global_iff_chasm : IsPlaced chasm 0 ⟨65, 65⟩ 9 ∧
    (Assembly.ofCalls chasm).write {} = .ok (.ok (), writtenChasm) ∧
    ∃ m t library, writtenChasm.1.maps[(0 : UInt32)]? = some m ∧
      openFile { map := 0 } {} writtenChasm.2 = (.ok (), t, library) ∧
      ∃ p, OpenedWith writtenChasm.2 m p t library := by
  have placed : IsPlaced chasm 0 ⟨65, 65⟩ 9 := by decide
  have faithful := Library.faithful_empty writtenChasm.2
  obtain ⟨m, -, -, p, t, library, known, -, -, -, -, opens, opened, -⟩ :=
    openFile_global_iff write_chasm fewNodes_chasm placed (fun _ _ listed => (mem_chasm listed).1)
      (fun _ _ listed => canRead_chasm listed) faithful
  exact ⟨placed, write_chasm, m, t, library, known, opens, p, opened⟩

/-- The placement of the map stands in the slot of the boulder, and its own slot stays empty. -/
theorem openFile_chasm : (∀ id : UInt32, IsPlaced chasm 0 ⟨65, 65⟩ id ↔ id = 9) ∧
    (∀ tile p, .placement 0 tile p ∈ chasm → p.Scaled ∧ CanRead writtenChasm.2 p.model) ∧
    (Assembly.ofCalls chasm).write {} = .ok (.ok (), writtenChasm) ∧
    ∃ m t library, writtenChasm.1.maps[(0 : UInt32)]? = some m ∧
      openFile { map := 0 } {} writtenChasm.2 = (.ok (), t, library) ∧
      (t.occupant? (m.slotOf 4)).map (fun occupant => occupant.placement.id) = some 9 ∧
      t.occupant? (m.slotOf 9) = none := by
  have only (id : UInt32) : IsPlaced chasm 0 ⟨65, 65⟩ id ↔ id = 9 := by
    simp [IsPlaced, chasm, Call.Puts, eq_comm]
  have slots : (writtenChasm.1.maps[(0 : UInt32)]?.map fun m => (m.slotOf 4, m.slotOf 9)) =
      some (0, 1) := by
    decide +kernel
  obtain ⟨m, known, same⟩ := Option.map_eq_some_iff.mp slots
  obtain ⟨slot, ownSlot⟩ := Prod.mk.inj same
  refine ⟨only, fun tile p listed => ⟨(mem_chasm listed).1, canRead_chasm listed⟩, write_chasm, m, _, _,
    known, Prod.ext ?_ rfl, ?_, ?_⟩
  · decide +kernel
  · rw [slot]
    decide +kernel
  · rw [ownSlot]
    decide +kernel

end MapTree

end Sightline
