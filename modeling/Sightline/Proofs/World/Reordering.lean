import Sightline.Proofs.World.Again

/-!
# The order of placements

A map keeps its placements by their numbers, so the order in which they were placed is in its tiles
alone: each tile lists its numbers in this order. Whatever is written for a map is the same for another
order, but for the order of the records in the files of tiles, as long as at most one placement is on the
tile that stands for the whole map.
-/
namespace Sightline

open Directory (saveAll)
open MapTree (boulder)

variable {calls calls' : List Call} {d d' d'' : Directory} {map : UInt32} {m n : MapPlan}

/-! ### Records of tiles -/

def Record.toBytes? (record : Record) : Piece := do
  return (← record.placement.toBytes?) ++ Bytes.ofNat record.slot

/-- The file of a tile with these records. -/
def recordsOutput (records : List Record) : Output :=
  .ofPieces (.ok (Text.toBytes Model.magic) :: Bytes.counted records.length [] ::
    records.map Record.toBytes?)

/-- The bytes are the same, or hold the same records in another order. -/
def SameRecords (bytes others : List UInt8) : Prop :=
  bytes = others ∨ ∃ records records', records.Perm records' ∧
    recordsOutput records = (bytes, .ok ()) ∧ recordsOutput records' = (others, .ok ())

/-- Whether records can be written does not depend on their order. -/
theorem exists_recordsOutput {records records' : List Record} (perm : records.Perm records')
    (written : ∃ bytes, recordsOutput records = (bytes, .ok ())) :
    ∃ bytes, recordsOutput records' = (bytes, .ok ()) := by
  rw [recordsOutput, Output.exists_ofPieces] at written ⊢
  intro piece listed
  apply written
  rw [perm.length_eq]
  simpa only [List.mem_cons, List.mem_map, perm.mem_iff] using listed

/-- Two files of one name, with the same bytes unless they are those of a tile. -/
def SameFile (file other : String × Output) : Prop :=
  file.1 = other.1 ∧ (file.2 = other.2 ∨ (∃ map tile, file.1 = tileFileName map tile) ∧
    ∃ records records', records.Perm records' ∧ file.2 = recordsOutput records ∧
      other.2 = recordsOutput records')

theorem SameFile.refl (file : String × Output) : SameFile file file := ⟨rfl, .inl rfl⟩

/-- One file is complete if the other one is. -/
theorem SameFile.complete {file other : String × Output} (same : SameFile file other)
    (complete : file.2.2 = .ok ()) : other.2.2 = .ok () := by
  obtain ⟨-, same | ⟨-, records, records', perm, first, second⟩⟩ := same
  · rwa [← same]
  · obtain ⟨bytes, written⟩ := exists_recordsOutput perm ⟨_, first.symm.trans (Prod.ext rfl complete)⟩
    rw [second, written]

theorem SameFile.sameRecords {file other : String × Output} (same : SameFile file other)
    (complete : file.2.2 = .ok ()) : file.2 = other.2 ∨
      (∃ map tile, file.1 = tileFileName map tile) ∧ SameRecords file.2.1 other.2.1 := by
  have completeToo := same.complete complete
  obtain ⟨-, same | ⟨tile, records, records', perm, first, second⟩⟩ := same
  · exact .inl same
  · exact .inr ⟨tile, .inr ⟨records, records', perm, first.symm.trans (Prod.ext rfl complete),
      second.symm.trans (Prod.ext rfl completeToo)⟩⟩

/-! ### Directories -/

/-- The same entry of a place, but for the order of the records of a tile. -/
def SameEntry (place : Place) (entry other : Option Entry) : Prop :=
  entry = other ∨ (∃ map tile, place = [tileFileName map tile]) ∧
    ∃ bytes bytes', SameRecords bytes bytes' ∧ entry = some (.file bytes) ∧
      other = some (.file bytes')

/-- The same files can be read, but for the order of the records of tiles. -/
structure SameFiles (d d' : Directory) : Prop where
  tree : ∀ map bytes, d.read (treeFileName map) = .ok bytes ↔ d'.read (treeFileName map) = .ok bytes
  model : ∀ name bytes,
    d.read (modelFileName name) = .ok bytes ↔ d'.read (modelFileName name) = .ok bytes
  tile : ∀ map tile, (∃ bytes bytes', d.read (tileFileName map tile) = .ok bytes ∧
      d'.read (tileFileName map tile) = .ok bytes' ∧ SameRecords bytes bytes') ∨
    ∀ bytes, d.read (tileFileName map tile) ≠ .ok bytes ∧ d'.read (tileFileName map tile) ≠ .ok bytes

namespace Directory

variable {files others : List (String × Output)} {place : Place} {path : String} {bytes : List UInt8}

theorem lastSaved?_sameFile (same : List.Forall₂ SameFile files others)
    (complete : ∀ file ∈ files, file.2.2 = .ok ()) :
    SameEntry place (d.lastSaved? place files) (d.lastSaved? place others) := by
  induction same with
  | nil => exact .inl rfl
  | @cons file other _ _ first _ ih =>
    obtain ⟨own, following⟩ := List.forall_mem_cons.mp complete
    have kinds := first.sameRecords own
    obtain ⟨name, output⟩ := file
    obtain ⟨name', output'⟩ := other
    obtain rfl : name = name' := first.1
    rw [lastSaved?, lastSaved?]
    -- the last of the files that go to the place stays there
    obtain same | ⟨tile, bytes, bytes', records, last, lastToo⟩ := ih following
    · rw [same]
      cases d.lastSaved? place _ with
      | some entry => exact .inl rfl
      | none =>
        rw [Option.none_or, Option.none_or]
        by_cases here : d.locate name = .ok place
        · rw [if_pos here, if_pos here]
          obtain same | ⟨⟨map, tile, rfl⟩, records⟩ := kinds
          · exact .inl (congrArg (fun output : Output => some (Entry.file output.1)) same)
          · have plain : (FileName.tile map tile).Plain := trivial
            have places := place_eq (FileName.plainName plain) here
            exact .inr ⟨⟨map, tile, places⟩, _, _, records, rfl, rfl⟩
        · rw [if_neg here, if_neg here]
          exact .inl rfl
    · rw [last, lastToo]
      exact .inr ⟨tile, bytes, bytes', records, rfl, rfl⟩

theorem read_eq_ok : d.read path = .ok bytes ↔
    ∃ place, d.locate path = .ok place ∧ d.contents? place = some (.file bytes) := by
  simp only [read, find, bind_eq_ok]
  constructor
  · rintro ⟨entry, ⟨place, found, contents⟩, result⟩
    refine ⟨place, found, ?_⟩
    split at contents
    · cases contents
    next here =>
      cases contents
      split at result
      · cases result
      · cases result
        exact here
  · rintro ⟨place, found, contents⟩
    exact ⟨.file bytes, ⟨place, found, by rw [contents]; rfl⟩, rfl⟩

theorem contents?_eq_file : d.contents? place = some (.file bytes) ↔
    ¬place.IsAbove ∧ d.entries[place]? = some (.file bytes) := by
  rw [contents?]
  split
  next above => simp [above]
  next inside => simp [inside]

theorem read_plain {name : String} (plain : PlainName name) : d.read name = .ok bytes ↔
    d.locate name = .ok [name] ∧ d.entries[([name] : Place)]? = some (.file bytes) := by
  rw [read_eq_ok]
  constructor
  · rintro ⟨place, found, contents⟩
    obtain rfl := place_eq plain found
    exact ⟨found, (contents?_eq_file.mp contents).2⟩
  · rintro ⟨found, stands⟩
    exact ⟨[name], found, contents?_eq_file.mpr ⟨isAbove_plain plain, stands⟩⟩

/-- Apart from tiles, the same is read under every name. -/
theorem read_iff_of_sameEntry (folders : d.SameFolders d')
    (same : ∀ place, SameEntry place d.entries[place]? d'.entries[place]?)
    (noTile : ∀ map tile, d.locate path ≠ .ok [tileFileName map tile]) :
    d.read path = .ok bytes ↔ d'.read path = .ok bytes := by
  simp only [read_eq_ok, contents?_eq_file]
  refine exists_congr fun place => ?_
  rw [← folders.locate_iff]
  refine and_congr_right fun found => ?_
  obtain same | ⟨⟨map, tile, rfl⟩, -⟩ := same place
  · rw [same]
  · exact absurd found (noTile map tile)

theorem sameFiles_of_sameEntry (folders : d.SameFolders d')
    (same : ∀ place, SameEntry place d.entries[place]? d'.entries[place]?) : SameFiles d d' := by
  constructor
  case tree =>
    intro map bytes
    refine read_iff_of_sameEntry folders same fun map' tile found => ?_
    have plain : (FileName.tree map).Plain := trivial
    have places := place_eq (FileName.plainName plain) found
    have texts : (FileName.tile map' tile).text = (FileName.tree map).text :=
      (List.cons.inj places).1
    cases FileName.text_injective texts
  case model =>
    intro name bytes
    refine read_iff_of_sameEntry folders same fun map tile found => ?_
    exact FileName.locate_model_ne (f := .tile map tile) name rfl found
  case tile =>
    intro map tile
    have plain : (FileName.tile map tile).Plain := trivial
    have name := FileName.plainName plain
    have read (bytes : List UInt8) : d.read (tileFileName map tile) = .ok bytes ↔ _ :=
      read_plain name
    have read' (bytes : List UInt8) : d'.read (tileFileName map tile) = .ok bytes ↔ _ :=
      read_plain name
    have located : d'.locate (tileFileName map tile) = d.locate (tileFileName map tile) :=
      locate_eq name d' d
    simp only [ne_eq, read, read', located]
    by_cases found : d.locate (tileFileName map tile) = .ok [tileFileName map tile]
    · simp only [found, true_and]
      obtain same | ⟨-, bytes, bytes', records, here, there⟩ := same [tileFileName map tile]
      · rw [← same]
        cases d.entries[([tileFileName map tile] : Place)]? with
        | none => exact .inr fun _ => ⟨nofun, nofun⟩
        | some entry =>
          cases entry with
          | folder => exact .inr fun _ => ⟨nofun, nofun⟩
          | file bytes => exact .inl ⟨bytes, bytes, rfl, rfl, .inl rfl⟩
      · exact .inl ⟨bytes, bytes', here, there, records⟩
    · exact .inr fun bytes => ⟨fun both => found both.1, fun both => found both.1⟩

end Directory

/-! ### Maps -/

namespace MapPlan

/-- Maps that differ at most in the order in which tiles list their numbers. -/
structure Alike (m n : MapPlan) : Prop where
  placements : ∀ id : UInt32, m.placements[id]? = n.placements[id]?
  tiles : ∀ word : UInt32, Option.Rel List.Perm m.tiles[word]? n.tiles[word]?
  global : m.tiles[globalTile]? = n.tiles[globalTile]?

/-- The maps are those of one assembly and of another one. -/
abbrev AlikeAt (plan other : UInt32 × MapPlan) : Prop := plan.1 = other.1 ∧ plan.2.Alike other.2

namespace Alike

theorem values_eq (alike : m.Alike n) : m.placements.values = n.placements.values := by
  have same : m.placements.Equiv n.placements := .of_forall_constGet?_eq alike.placements
  exact same.values_eq

theorem own_perm (alike : m.Alike n) {ids ids' : List UInt32} (perm : ids.Perm ids') :
    (m.own ids).Perm (n.own ids') := by
  rw [alike_own alike.placements]
  exact (perm.filterMap _).filter _

theorem tileFile?_rel (alike : m.Alike n) (map : UInt32) {tile tile' : UInt32 × List UInt32}
    (same : tile.1 = tile'.1 ∧ tile.2.Perm tile'.2) :
    Option.Rel SameFile (tileFile? map m tile) (tileFile? map n tile') := by
  obtain ⟨word, ids⟩ := tile
  obtain ⟨word', ids'⟩ := tile'
  obtain ⟨rfl, perm⟩ := same
  have own := alike.own_perm perm
  have slots : m.slotOf = n.slotOf := alike_slotOf alike.placements
  have output (k : MapPlan) (ids : List UInt32) : Output.ofPieces (.ok (Text.toBytes Model.magic) ::
      Bytes.counted (k.own ids).length [] :: (k.own ids).map (Assembly.recordBytes? k)) =
        recordsOutput ((k.own ids).map fun p => ⟨p, k.slotOf p.id⟩) := by
    rw [recordsOutput, List.length_map, List.map_map]
    rfl
  rw [tileFile?, tileFile?, MapTree.tileOutput?_eq, MapTree.tileOutput?_eq, output, output]
  by_cases none : m.own ids = []
  · rw [none] at own
    rw [if_pos none, if_pos own.nil_eq.symm]
    exact .none
  · have noneToo : n.own ids' ≠ [] := fun empty => none (by rw [empty] at own; exact own.eq_nil)
    rw [if_neg none, if_neg noneToo]
    refine .some ⟨rfl, .inr ⟨⟨map, .ofPacked word, rfl⟩, _, _, ?_, rfl, rfl⟩⟩
    rw [slots]
    exact own.map _

/-- The files of both maps. -/
theorem files (alike : m.Alike n) {files : List (String × Output)} (known : m.files map = .ok files) :
    ∃ others, n.files map = .ok others ∧ List.Forall₂ SameFile files others := by
  obtain ⟨output, tree, rfl⟩ := Assembly.files_eq_ok.mp known
  rw [alike_treeFile alike.placements alike.global] at tree
  refine ⟨_, Assembly.files_eq_ok.mpr ⟨output, tree, rfl⟩, .cons (.refl _) ?_⟩
  exact List.rel_filterMap (fun _ _ same => alike.tileFile?_rel map same)
    (forall₂_toList alike.tiles)

end Alike

end MapPlan

namespace Assembly

variable {a a' b : Assembly} {models models' : Std.TreeMap String RawModel}

open MapPlan (AlikeAt)

/-! ### Settling -/

theorem settle_congr (same : ∀ name : String, models[name]? = models'[name]?) (p : Placement) :
    settle models p = settle models' p := by
  rw [settle, settle, same]

theorem settleAll_congr (same : ∀ name : String, models[name]? = models'[name]?) {ps : List Placement}
    {before before' : Std.TreeMap UInt32 Placement}
    (placements : ∀ id : UInt32, before[id]? = before'[id]?) :
    (settleAll models ps before).1 = (settleAll models' ps before').1 ∧
      ∀ id : UInt32, (settleAll models ps before).2[id]? = (settleAll models' ps before').2[id]? := by
  induction ps generalizing before before' with
  | nil => exact ⟨rfl, placements⟩
  | cons p rest ih =>
    rw [settleAll, settleAll, settle_congr same]
    cases settle models' p with
    | error fault => exact ⟨rfl, placements⟩
    | ok settled =>
      refine ih fun id => ?_
      rw [getElem?_insert, getElem?_insert, placements]

theorem alike_settledBy (same : ∀ name : String, models[name]? = models'[name]?)
    (alike : m.Alike n) : (m.settledBy models).Alike (n.settledBy models') := by
  refine ⟨?_, alike.tiles, alike.global⟩
  rw [MapPlan.settledBy, MapPlan.settledBy, alike.values_eq]
  exact (settleAll_congr same alike.placements).2

/-! ### Assemblies -/

/-- Assemblies of the same models and of maps that are alike. -/
structure Alike (a b : Assembly) : Prop where
  maps : ∀ map : UInt32, Option.Rel MapPlan.Alike a.maps[map]? b.maps[map]?
  models : ∀ name : String, a.models[name]? = b.models[name]?

theorem mapFileLists_alike {plans plans' : List (UInt32 × MapPlan)}
    {lists : List (List (String × Output))} (alike : List.Forall₂ AlikeAt plans plans')
    (known : MapFileLists plans lists) :
    ∃ lists', MapFileLists plans' lists' ∧ List.Forall₂ (List.Forall₂ SameFile) lists lists' := by
  induction known generalizing plans' with
  | nil =>
    cases alike
    exact ⟨[], .nil, .nil⟩
  | @cons plan files _ _ first _ ih =>
    cases alike with
    | @cons _ other _ _ same alike => ?_
    obtain ⟨lists', knownToo, rest⟩ := ih alike
    obtain ⟨others, made, sameFiles⟩ := same.2.files first
    rw [same.1] at made
    exact ⟨others :: lists', .cons made knownToo, .cons sameFiles rest⟩

theorem modelFile_congr (same : ∀ name : String, models[name]? = models'[name]?) :
    ModelFile models = ModelFile models' := by
  funext name file
  simp only [ModelFile, same]

namespace Alike

theorem settledPlans (alike : a.Alike b) : List.Forall₂ AlikeAt a.settledPlans b.settledPlans := by
  rw [Assembly.settledPlans, Assembly.settledPlans, List.forall₂_map_left_iff,
    List.forall₂_map_right_iff]
  exact (forall₂_toList alike.maps).imp fun _ _ same => ⟨same.1, alike_settledBy alike.models same.2⟩

theorem settleAll (alike : a.Alike b)
    (done : ∀ plan ∈ a.maps.toList,
      (Assembly.settleAll a.models plan.2.placements.values plan.2.placements).1 = .ok ()) :
    ∀ plan ∈ b.maps.toList,
      (Assembly.settleAll b.models plan.2.placements.values plan.2.placements).1 = .ok () := by
  intro plan listed
  obtain ⟨other, listedToo, -, same⟩ := exists_of_mem_right (forall₂_toList alike.maps) plan listed
  rw [← done other listedToo, ← same.values_eq]
  exact (settleAll_congr alike.models same.placements).1.symm

theorem placedModels (alike : a.Alike b) :
    Assembly.placedModels { a with maps := a.maps.insertMany a.settledPlans } =
      Assembly.placedModels { b with maps := b.maps.insertMany b.settledPlans } := by
  have names : a.settledPlans.map (fun plan => plan.2.placements.values.map Placement.model) =
      b.settledPlans.map fun plan => plan.2.placements.values.map Placement.model := by
    rw [← List.forall₂_eq_eq_eq, List.forall₂_map_left_iff, List.forall₂_map_right_iff]
    refine alike.settledPlans.imp fun _ _ same => ?_
    rw [same.2.values_eq]
  rw [Assembly.placedModels, Assembly.placedModels, values_eq_map, values_eq_map,
    toList_settledPlans, toList_settledPlans, List.flatMap_map, List.flatMap_map, List.flatMap_def,
    List.flatMap_def, names]

/-- What is written from one assembly is written from the other one, but for the order of records. -/
theorem write (alike : a.Alike b) (written : a.write d = .ok (.ok (), a', d')) :
    ∃ b' d'', b.write d = .ok (.ok (), b', d'') ∧ SameFiles d' d'' := by
  obtain ⟨lists, modelFiles, ⟨plans, settles, listed, rfl⟩, models, saved⟩ := write_iff.mp written
  obtain ⟨done, rfl⟩ := forall₂_settlesTo_iff.mp settles
  obtain ⟨lists', listedToo, same⟩ := mapFileLists_alike alike.settledPlans listed
  have files : List.Forall₂ SameFile (lists.flatten ++ modelFiles) (lists'.flatten ++ modelFiles) :=
    List.rel_append (List.rel_flatten same) (List.forall₂_same.mpr fun file _ => .refl file)
  -- the other list of files has the same names and is as complete
  have first := Directory.saved_of_saveAll saved
  obtain ⟨d'', savedToo⟩ : ∃ d'', saveAll (lists'.flatten ++ modelFiles) d = (.ok (), d'') := by
    apply Directory.exists_saveAll
    · intro other known
      obtain ⟨file, before, same⟩ := exists_of_mem_right files other known
      exact same.complete (first.complete file before)
    · intro other known
      obtain ⟨file, before, same⟩ := exists_of_mem_right files other known
      rw [← same.1]
      exact first.admits file before
  have second := Directory.saved_of_saveAll savedToo
  refine ⟨_, d'', write_iff.mpr ⟨lists', modelFiles,
    ⟨_, forall₂_settlesTo_iff.mpr ⟨alike.settleAll done, rfl⟩, listedToo, rfl⟩, ?_, savedToo⟩, ?_⟩
  · rw [← alike.placedModels, ← modelFile_congr alike.models]
    exact models
  · refine Directory.sameFiles_of_sameEntry (first.folders.symm.trans second.folders) fun place => ?_
    rw [first.entries, second.entries]
    have same : SameEntry place (d.lastSaved? place _) _ :=
      Directory.lastSaved?_sameFile files first.complete
    obtain same | ⟨tile, bytes, bytes', records, last, lastToo⟩ := same
    · exact .inl (by rw [same])
    · exact .inr ⟨tile, bytes, bytes', records, by rw [last]; rfl, by rw [lastToo]; rfl⟩

end Alike

end Assembly

/-! ### Calls -/

theorem isPlaced_iff {tile : Tile} {id : UInt32} :
    IsPlaced calls map tile id ↔ ∃ p : Placement, p.id = id ∧ .placement map tile p ∈ calls := by
  constructor
  · rintro ⟨call, listed, puts⟩
    cases call with
    | model name raw => cases puts
    | placement m t p =>
      obtain ⟨rfl, rfl, same⟩ := puts
      exact ⟨p, same, listed⟩
  · rintro ⟨p, same, listed⟩
    exact ⟨_, listed, rfl, rfl, same⟩

/-- Placements of one number on one map are the same. -/
def Consistent (calls : List Call) : Prop :=
  ∀ map tile tile' p p', .placement map tile p ∈ calls → .placement map tile' p' ∈ calls →
    p.id = p'.id → p = p'

/-- No map has several placements on the tile that stands for the whole map. -/
def OneOnMap (calls : List Call) : Prop :=
  ∀ map tile tile' p p', .placement map tile p ∈ calls → .placement map tile' p' ∈ calls →
    tile.packed = MapPlan.globalTile → tile'.packed = MapPlan.globalTile → p.id = p'.id

/-- The same placements, in whatever order and however often, and the same models. -/
structure Reordered (calls calls' : List Call) : Prop where
  placements : ∀ map tile p, .placement map tile p ∈ calls ↔ .placement map tile p ∈ calls'
  models : ∀ name, lastModel? calls name = lastModel? calls' name

namespace Reordered

theorem symm (reordered : Reordered calls calls') : Reordered calls' calls :=
  ⟨fun map tile p => (reordered.placements map tile p).symm, fun name => (reordered.models name).symm⟩

theorem consistent (reordered : Reordered calls calls') (consistent : Consistent calls) :
    Consistent calls' := by
  intro map tile tile' p p' listed listedToo
  rw [← reordered.placements] at listed listedToo
  exact consistent map tile tile' p p' listed listedToo

theorem oneOnMap (reordered : Reordered calls calls') (one : OneOnMap calls) : OneOnMap calls' := by
  intro map tile tile' p p' listed listedToo
  rw [← reordered.placements] at listed listedToo
  exact one map tile tile' p p' listed listedToo

theorem isPlaced (reordered : Reordered calls calls') (tile : Tile) (id : UInt32) :
    IsPlaced calls map tile id ↔ IsPlaced calls' map tile id := by
  simp only [isPlaced_iff, reordered.placements]

theorem firstPlacement? (reordered : Reordered calls calls') (consistent : Consistent calls)
    (map id : UInt32) :
    Sightline.firstPlacement? calls map id = Sightline.firstPlacement? calls' map id := by
  have isSome : (Sightline.firstPlacement? calls map id).isSome =
      (Sightline.firstPlacement? calls' map id).isSome := by
    rw [Bool.eq_iff_iff]
    simp only [firstPlacement?_isSome, reordered.isPlaced]
  cases first : Sightline.firstPlacement? calls map id with
  | none =>
    rw [first] at isSome
    exact (Option.isNone_iff_eq_none.mp (Option.isSome_eq_false_iff.mp isSome.symm)).symm
  | some p =>
    rw [first] at isSome
    obtain ⟨p', firstToo⟩ := Option.isSome_iff_exists.mp isSome.symm
    -- both are placed, and of one number, so they are the same
    obtain ⟨same, tile, listed⟩ := mem_of_firstPlacement? first
    obtain ⟨sameToo, tile', listedToo⟩ := mem_of_firstPlacement? firstToo
    rw [← reordered.placements] at listedToo
    rw [firstToo, consistent map tile tile' p p' listed listedToo (same.trans sameToo.symm)]

end Reordered

namespace MapPlan

theorem eq_of_perm_of_unique {ids ids' : List UInt32} (perm : ids.Perm ids') (nodup : ids.Nodup)
    (unique : ∀ id ∈ ids, ∀ other ∈ ids, id = other) : ids = ids' := by
  cases ids with
  | nil => exact perm.nil_eq
  | cons id rest =>
    cases rest with
    | nil => exact (List.perm_singleton.mp perm.symm).symm
    | cons other rest =>
      have same := unique id (.head _) other (.tail _ (.head _))
      exact absurd (.head _) (same ▸ (List.nodup_cons.mp nodup).1)

/-- Tiles list the same numbers if the same numbers are placed on them. -/
theorem Follows.tiles_rel (follows : m.Follows calls map) (follows' : n.Follows calls' map)
    (same : ∀ tile id, IsPlaced calls map tile id ↔ IsPlaced calls' map tile id) (word : UInt32) :
    Option.Rel List.Perm m.tiles[word]? n.tiles[word]? := by
  have perm : (m.idsOn word).Perm (n.idsOn word) := by
    rw [List.perm_ext_iff_of_nodup (follows.nodup word) (follows'.nodup word)]
    intro id
    rw [follows.tiles, follows'.tiles]
    simp only [same]
  have filled := follows.filled word
  have filled' := follows'.filled word
  rw [idsOn, idsOn] at perm
  -- no tile is listed without numbers
  cases found : m.tiles[word]? with
  | none =>
    cases found' : n.tiles[word]? with
    | none => exact .none
    | some ids =>
      rw [found, found'] at perm
      exact absurd (found'.trans (congrArg some perm.nil_eq.symm)) filled'
  | some ids =>
    cases found' : n.tiles[word]? with
    | none =>
      rw [found, found'] at perm
      exact absurd (found.trans (congrArg some perm.eq_nil)) filled
    | some ids' =>
      rw [found, found'] at perm
      exact .some perm

theorem Follows.alike (follows : m.Follows calls map) (follows' : n.Follows calls' map)
    (reordered : Reordered calls calls') (consistent : Consistent calls) (one : OneOnMap calls) :
    m.Alike n := by
  have tiles := follows.tiles_rel follows' reordered.isPlaced
  refine ⟨fun id => ?_, tiles, ?_⟩
  · rw [follows.placements, follows'.placements, reordered.firstPlacement? consistent]
  · have unique : ∀ id ∈ m.idsOn globalTile, ∀ other ∈ m.idsOn globalTile, id = other := by
      intro id listed other listedToo
      obtain ⟨tile, packed, placed⟩ := (follows.tiles _ id).mp listed
      obtain ⟨tile', packed', placed'⟩ := (follows.tiles _ other).mp listedToo
      obtain ⟨p, rfl, call⟩ := isPlaced_iff.mp placed
      obtain ⟨p', rfl, call'⟩ := isPlaced_iff.mp placed'
      exact one map tile tile' p p' call call' packed packed'
    have nodup := follows.nodup globalTile
    have global := tiles globalTile
    rw [idsOn] at unique nodup
    generalize m.tiles[globalTile]? = ids, n.tiles[globalTile]? = ids' at *
    cases global with
    | none => rfl
    | some perm => rw [eq_of_perm_of_unique perm nodup unique]

end MapPlan

namespace Assembly

theorem alike_ofCalls (reordered : Reordered calls calls') (consistent : Consistent calls)
    (one : OneOnMap calls) : (ofCalls calls).Alike (ofCalls calls') := by
  have follows := follows_ofCalls calls
  have follows' := follows_ofCalls calls'
  constructor
  case models =>
    intro name
    rw [follows.models, follows'.models, reordered.models]
  case maps =>
    intro map
    have isSome : ((ofCalls calls).maps[map]?).isSome = ((ofCalls calls').maps[map]?).isSome := by
      rw [Bool.eq_iff_iff, follows.maps, follows'.maps]
      simp only [reordered.isPlaced]
    have plans := follows.plans map
    have plans' := follows'.plans map
    generalize (ofCalls calls).maps[map]? = plan, (ofCalls calls').maps[map]? = plan' at *
    cases plan with
    | none =>
      cases plan' with
      | none => exact .none
      | some n => cases isSome
    | some m =>
      cases plan' with
      | none => cases isSome
      | some n => exact .some (plans.alike plans' reordered consistent one)

/-- The order of placements is seen in the order of the records of tiles alone. -/
theorem write_reordered (reordered : Reordered calls calls') (consistent : Consistent calls)
    (one : OneOnMap calls) (d : Directory) :
    ((∃ a d', (ofCalls calls).write d = .ok (.ok (), a, d')) ↔
      ∃ a d', (ofCalls calls').write d = .ok (.ok (), a, d')) ∧
    ∀ a d' a' d'', (ofCalls calls).write d = .ok (.ok (), a, d') →
      (ofCalls calls').write d = .ok (.ok (), a', d'') → SameFiles d' d'' := by
  have alike := alike_ofCalls reordered consistent one
  have back := alike_ofCalls reordered.symm (reordered.consistent consistent) (reordered.oneOnMap one)
  constructor
  · constructor
    · rintro ⟨a, d', written⟩
      obtain ⟨b, d'', writtenToo, -⟩ := alike.write written
      exact ⟨b, d'', writtenToo⟩
    · rintro ⟨a, d', written⟩
      obtain ⟨b, d'', writtenToo, -⟩ := back.write written
      exact ⟨b, d'', writtenToo⟩
  · intro a d' a' d'' written writtenToo
    obtain ⟨b, found, result, same⟩ := alike.write written
    cases result.symm.trans writtenToo
    exact same

/-- Boulders of some numbers, each on a tile of one map. -/
def scattered (places : List (Tile × UInt32)) : List Call :=
  .model "boulder" boulder :: places.map fun (tile, id) =>
    .placement 0 tile { flags := 0, id, model := "boulder" }

theorem mem_scattered {places : List (Tile × UInt32)} {tile : Tile} {p : Placement} :
    .placement map tile p ∈ scattered places ↔
      map = 0 ∧ (tile, p.id) ∈ places ∧ p = { flags := 0, id := p.id, model := "boulder" } := by
  simp only [scattered, List.mem_cons, reduceCtorEq, false_or, List.mem_map, Prod.exists,
    Call.placement.injEq]
  constructor
  · rintro ⟨tile, id, listed, rfl, rfl, rfl⟩
    exact ⟨rfl, listed, rfl⟩
  · rintro ⟨rfl, listed, same⟩
    exact ⟨tile, p.id, listed, rfl, rfl, same.symm⟩

theorem lastModel?_scattered (places : List (Tile × UInt32)) (name : String) :
    lastModel? (scattered places) name = if "boulder" = name then some boulder else none := by
  have none : ((places.map fun (tile, id) => Call.placement 0 tile
      { flags := 0, id, model := "boulder" }).reverse.findSome? (Call.modelOf? name)) = none := by
    rw [List.findSome?_eq_none_iff]
    intro call listed
    obtain ⟨place, -, rfl⟩ := List.mem_map.mp (List.mem_reverse.mp listed)
    rfl
  rw [lastModel?, scattered, List.reverse_cons, List.findSome?_append, none, Option.none_or,
    List.findSome?_singleton]
  rfl

theorem reordered_scattered {places places' : List (Tile × UInt32)} (perm : places.Perm places') :
    Reordered (scattered places) (scattered places') := by
  constructor
  · intro map tile p
    simp only [mem_scattered, perm.mem_iff]
  · intro name
    rw [lastModel?_scattered, lastModel?_scattered]

theorem consistent_scattered (places : List (Tile × UInt32)) : Consistent (scattered places) := by
  intro map tile tile' p p' listed listedToo same
  rw [(mem_scattered.mp listed).2.2, (mem_scattered.mp listedToo).2.2, same]

theorem write_reordered_scattered :
    let calls := scattered [(⟨1, 2⟩, 4), (⟨1, 2⟩, 9)]
    let calls' := scattered [(⟨1, 2⟩, 9), (⟨1, 2⟩, 4)]
    Reordered calls calls' ∧ Consistent calls ∧ OneOnMap calls ∧
      ∃ a d a' d', (ofCalls calls).write {} = .ok (.ok (), a, d) ∧
        (ofCalls calls').write {} = .ok (.ok (), a', d') ∧ SameFiles d d' := by
  intro calls calls'
  have reordered : Reordered calls calls' := reordered_scattered (.swap ..)
  have one : OneOnMap calls := by
    intro map tile tile' p p' listed _ packed
    have elsewhere : ∀ place ∈ [((⟨1, 2⟩ : Tile), (4 : UInt32)), (⟨1, 2⟩, 9)],
        place.1.packed ≠ MapPlan.globalTile := by decide
    exact absurd packed (elsewhere (tile, p.id) (mem_scattered.mp listed).2.1)
  have done : (writtenBy calls).isSome = true := by decide +kernel
  obtain ⟨⟨a, d⟩, found⟩ := Option.isSome_iff_exists.mp done
  have written := write_of_writtenBy found
  obtain ⟨both, same⟩ := write_reordered reordered (consistent_scattered _) one {}
  obtain ⟨a', d', writtenToo⟩ := both.mp ⟨a, d, written⟩
  exact ⟨reordered, consistent_scattered _, one, a, d, a', d', written, writtenToo,
    same a d a' d' written writtenToo⟩

/-- Another tile of the same word as the one that stands for the whole map, beyond the words of a half.
The tree lists both placements, in their order. -/
theorem write_scattered_ne :
    let calls := scattered [(⟨65, 65⟩, 4), (⟨64, 65601⟩, 9)]
    let calls' := scattered [(⟨64, 65601⟩, 9), (⟨65, 65⟩, 4)]
    Reordered calls calls' ∧ Consistent calls ∧
      (∀ map id, IsPlaced calls map ⟨65, 65⟩ id → map = 0 ∧ id = 4) ∧
      ∃ a d a' d', (ofCalls calls).write {} = .ok (.ok (), a, d) ∧
        (ofCalls calls').write {} = .ok (.ok (), a', d') ∧
        d.read (treeFileName 0) ≠ d'.read (treeFileName 0) := by
  intro calls calls'
  refine ⟨reordered_scattered (.swap ..), consistent_scattered _, fun map id placed => ?_, ?_⟩
  · obtain ⟨p, rfl, listed⟩ := isPlaced_iff.mp placed
    obtain ⟨rfl, listed, -⟩ := mem_scattered.mp listed
    simpa using listed
  · have differ : ((writtenBy calls).bind fun state => (writtenBy calls').map fun other =>
        decide (state.2.read (treeFileName 0) = other.2.read (treeFileName 0))) = some false := by
      decide +kernel
    obtain ⟨⟨a, d⟩, found, differ⟩ := Option.bind_eq_some_iff.mp differ
    obtain ⟨⟨a', d'⟩, foundToo, differ⟩ := Option.map_eq_some_iff.mp differ
    have written := write_of_writtenBy found
    have writtenToo := write_of_writtenBy foundToo
    exact ⟨a, d, a', d', written, writtenToo, of_decide_eq_false differ⟩

end Assembly

end Sightline
