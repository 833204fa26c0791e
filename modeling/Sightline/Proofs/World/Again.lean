import Sightline.Proofs.World.Conversion
import Sightline.Proofs.World.Loading
import Sightline.Proofs.World.Reachable

/-!
# Converting again

Writing an assembly changes its placements: they get their boxes and keep them. If the assembly is written
once more, boxes that came from models come out the same, but those of placements that cover a map are
moved from the corner of the map to its middle another time. All other data are written again as they are,
so the second writing repeats the first one except for the trees over boxes that move.
-/
namespace Sightline

open Directory (saveAll SameAt)
open MapTree (boulder quarry writtenQuarry write_quarry regular_quarry)

/-! ### Settled placements -/

/-- A settled placement after it is settled again. -/
def Placement.resettled (p : Placement) : Placement :=
  if ¬p.Has doodad ∧ p.Has mapWide then
    { p with bounds := p.bounds.translate ⟨Assembly.middle, Assembly.middle, 0⟩ }
  else p

theorem Placement.resettled_eq (p : Placement) : p.resettled = { p with bounds := p.resettled.bounds } := by
  rw [resettled]
  split <;> rfl

theorem Placement.resettled_of_not_mapWide {p : Placement} (own : ¬p.Has mapWide) : p.resettled = p :=
  if_neg fun wide => own wide.2

theorem Placement.has_mapWide_resettled (p : Placement) :
    p.resettled.Has mapWide ↔ p.Has mapWide := by
  rw [resettled_eq]
  rfl

theorem Assembly.settle_has_doodad {models : Std.TreeMap String RawModel} {p q : Placement}
    (settled : settle models p = .ok q) : q.Has Placement.doodad ↔ p.Has Placement.doodad := by
  have disjoint : Placement.bounded &&& Placement.doodad = 0 := by decide
  rw [settle_eq settled, Placement.Has, Placement.or_and_of_disjoint disjoint]
  rfl

/-- The box of a model is found again. -/
theorem Assembly.boundByModel_again {p q : Placement} {raw : RawModel}
    (bounded : boundByModel p raw = .ok q) : boundByModel q raw = .ok q := by
  rw [boundByModel] at bounded
  split at bounded
  next => cases bounded
  next box hull =>
    cases bounded
    rw [boundByModel]
    dsimp only
    rw [hull, Placement.or_eq_self (Placement.or_and_self p.flags Placement.bounded)]

/-- A box that came from a model comes from it again; one that was given is moved again. -/
theorem Assembly.settle_settled {models : Std.TreeMap String RawModel} {p q : Placement}
    (settled : settle models p = .ok q) : settle models q = .ok q.resettled := by
  -- settling does not change whether a placement is a doodad
  by_cases doodad : q.Has Placement.doodad
  · have unmoved : q.resettled = q := if_neg fun moved => moved.1 doodad
    have model := settle_model settled
    rw [settle, if_pos (.inl ((settle_has_doodad settled).mp doodad))] at settled
    rw [settle, if_pos (.inl doodad), unmoved, model]
    split at settled
    next => cases settled
    next raw known => exact boundByModel_again settled
  · -- settling has given the placement a box, which now counts as one that it was given
    have given : ¬(q.Has Placement.doodad ∨ ¬q.Has Placement.bounded) :=
      not_or.mpr ⟨doodad, not_not.mpr (settle_has settled)⟩
    rw [settle, if_neg given, Placement.resettled]
    split
    next wide => rw [if_pos ⟨doodad, wide⟩]
    next own => rw [if_neg fun moved => own moved.2]

/-! ### Maps of settled placements -/

namespace MapPlan

variable {m n : MapPlan} {map : UInt32}

/-- A map after its placements are settled again. -/
def resettled (m : MapPlan) : MapPlan :=
  { m with placements := m.placements.map fun _ p => p.resettled }

/-- The files of tiles depend on the placements that have records and on their slots. -/
theorem tileFile?_congr (own : m.own = n.own) (slotOf : m.slotOf = n.slotOf) (map : UInt32) :
    tileFile? map m = tileFile? map n := by
  have record : Assembly.recordBytes? m = Assembly.recordBytes? n := by
    funext p
    rw [Assembly.recordBytes?, Assembly.recordBytes?, slotOf]
  funext tile
  rw [tileFile?, tileFile?, MapTree.tileOutput?_eq, MapTree.tileOutput?_eq, own, record]

section alike

variable (placements : ∀ id : UInt32, m.placements[id]? = n.placements[id]?)
include placements

theorem alike_onTile : m.onTile = n.onTile := by
  funext ids
  simp only [onTile, placements]

theorem alike_own : m.own = n.own := by
  funext ids
  rw [MapPlan.own, MapPlan.own, alike_onTile placements]

theorem alike_slotOf : m.slotOf = n.slotOf := by
  have same : m.placements.Equiv n.placements := .of_forall_constGet?_eq placements
  funext id
  rw [MapPlan.slotOf, MapPlan.slotOf, same.keys_eq]

/-- The file of a tree depends on what stands under the numbers of placements, and on the tile that stands
for the whole map. -/
theorem alike_treeFile (global : m.tiles[globalTile]? = n.tiles[globalTile]?) :
    m.treeFile = n.treeFile := by
  have same : m.placements.Equiv n.placements := .of_forall_constGet?_eq placements
  have tree : Assembly.treeOutput m = Assembly.treeOutput n := by
    funext tree
    rw [Assembly.treeOutput, Assembly.treeOutput, alike_onTile placements, global]
  rw [treeFile, treeFile, boxes, boxes, same.values_eq, tree]

theorem alike_files (tiles : m.tiles = n.tiles) (map : UInt32) : m.files map = n.files map := by
  have tree : m.treeFile = n.treeFile := alike_treeFile placements (by rw [tiles])
  rw [files, files, tree, tiles, tileFile?_congr (alike_own placements) (alike_slotOf placements)]

end alike

/-- A map stays as it is if none of its boxes moves. -/
theorem treeFile_resettled (unmoved : ∀ (id : UInt32) (p : Placement), m.placements[id]? = some p →
    p.resettled = p) : m.resettled.treeFile = m.treeFile := by
  refine alike_treeFile (fun id => ?_) rfl
  rw [resettled, Std.TreeMap.getElem?_map]
  cases stands : m.placements[id]? with
  | none => rfl
  | some p => rw [Option.map_some, unmoved id p stands]

theorem own_cons (m : MapPlan) (id : UInt32) (ids : List UInt32) : m.own (id :: ids) =
    ((m.placements[id]?).filter fun p => ¬p.Has Placement.mapWide).toList ++ m.own ids := by
  rw [own, own, onTile, onTile]
  cases found : m.placements[id]? with
  | none => rw [List.filterMap_cons_none found]; rfl
  | some p =>
    rw [List.filterMap_cons_some found, List.filter_cons, Option.filter]
    split <;> rfl

/-- Placements that belong to tiles do not move. -/
theorem own_resettled (m : MapPlan) (ids : List UInt32) : m.resettled.own ids = m.own ids := by
  induction ids with
  | nil => rfl
  | cons id rest ih =>
    rw [own_cons, own_cons, ih, resettled, Std.TreeMap.getElem?_map]
    cases m.placements[id]? with
    | none => rfl
    | some p =>
      -- a placement that moves has no record, before and after
      have stays := p.has_mapWide_resettled
      by_cases wide : p.Has Placement.mapWide
      · simp [Option.filter, stays, wide]
      · simp [Option.filter, wide, Placement.resettled_of_not_mapWide wide]

theorem slotOf_resettled (m : MapPlan) : m.resettled.slotOf = m.slotOf := by
  funext id
  rw [slotOf, slotOf, resettled, Std.TreeMap.keys_map]

theorem tileFile?_resettled (map : UInt32) (m : MapPlan) :
    tileFile? map m.resettled = tileFile? map m :=
  tileFile?_congr (funext m.own_resettled) m.slotOf_resettled map

/-- What a map needs to be settled again: its placements stand under their numbers, and settling has
given them their boxes. -/
structure Settled (models : Std.TreeMap String RawModel) (m : MapPlan) : Prop where
  keyed : m.Keyed
  again : ∀ (id : UInt32) (q : Placement), m.placements[id]? = some q →
    Assembly.settle models q = .ok q.resettled

variable {models : Std.TreeMap String RawModel}

theorem Settles.settled (settles : Settles models m n) (keyed : m.Keyed) : n.Settled models := by
  refine ⟨settles.keyed keyed, fun id q stands => ?_⟩
  obtain ⟨p, -, made⟩ := settles.origin stands
  exact Assembly.settle_settled made

/-- Settled placements can all be settled again. -/
theorem Settled.exists_settleAll {ps : List Placement} (before : Std.TreeMap UInt32 Placement)
    (again : ∀ p ∈ ps, ∃ q, Assembly.settle models p = .ok q) :
    ∃ after, Assembly.settleAll models ps before = (.ok (), after) := by
  obtain ⟨after, all⟩ : ∃ after, Assembly.settleAll models (ps ++ []) before = (.ok (), after) :=
    Assembly.exists_settleAll_append before again
  rw [List.append_nil] at all
  exact ⟨after, all⟩

theorem Settled.settlesTo (settled : m.Settled models) (map : UInt32) :
    Assembly.SettlesTo models (map, m) (map, m.settledBy models) := by
  obtain ⟨after, found⟩ := Settled.exists_settleAll m.placements fun p listed => by
    obtain ⟨id, stands⟩ := (mem_values m.placements).mp listed
    exact ⟨_, settled.again id p stands⟩
  exact ⟨rfl, by rw [settledBy, found], rfl⟩

theorem Settled.getElem?_settledBy (settled : m.Settled models) (id : UInt32) :
    (m.settledBy models).placements[id]? = m.resettled.placements[id]? := by
  have settles : Settles models m (m.settledBy models) :=
    settles_of_settleAll settled.keyed (settled.settlesTo 0).placements
  rw [resettled, Std.TreeMap.getElem?_map]
  cases found : m.placements[id]? with
  | none => exact settles.missing id found
  | some p =>
    obtain ⟨q, made, after⟩ := settles.found id p found
    cases (settled.again id p found).symm.trans made
    exact after

theorem Settled.files_settledBy (settled : m.Settled models) (map : UInt32) :
    (m.settledBy models).files map = m.resettled.files map :=
  alike_files settled.getElem?_settledBy rfl map

theorem Settled.names_settledBy (settled : m.Settled models) :
    (m.settledBy models).placements.values.map Placement.model =
      m.placements.values.map Placement.model := by
  have same : (m.settledBy models).placements.Equiv m.resettled.placements :=
    .of_forall_constGet?_eq settled.getElem?_settledBy
  rw [same.values_eq, resettled, values_eq_map, values_eq_map, Std.TreeMap.toList_map, List.map_map,
    List.map_map, List.map_map]
  refine List.map_congr_left ?_
  rintro ⟨id, p⟩ -
  have same : p.resettled.model = p.model := by rw [Placement.resettled_eq]
  exact same

end MapPlan

namespace Assembly

variable {a a' : Assembly} {d d' d'' : Directory} {map : UInt32} {m : MapPlan} {place : Place}
  {models : Std.TreeMap String RawModel} {plans : List (UInt32 × MapPlan)}
  {files others : List (String × Output)}

/-! ### What is written -/

/-- All maps can be settled again. -/
def Settled (a : Assembly) : Prop :=
  ∀ (map : UInt32) (m : MapPlan), a.maps[map]? = some m → m.Settled a.models

theorem settlesTo_iff {plan settled : UInt32 × MapPlan} : SettlesTo models plan settled ↔
    (settleAll models plan.2.placements.values plan.2.placements).1 = .ok () ∧
      (plan.1, plan.2.settledBy models) = settled := by
  constructor
  · intro settles
    refine ⟨by rw [settles.placements], ?_⟩
    rw [settles.eq_of_settleAll rfl]
    rfl
  · rintro ⟨done, rfl⟩
    exact ⟨rfl, Prod.ext done rfl, rfl⟩

/-- The maps with their placements settled. -/
def settledPlans (a : Assembly) : List (UInt32 × MapPlan) :=
  a.maps.toList.map fun plan => (plan.1, plan.2.settledBy a.models)

theorem toList_settledPlans : (a.maps.insertMany a.settledPlans).toList = a.settledPlans :=
  toList_insertMany fun _ (m : MapPlan) => m.settledBy a.models

theorem forall₂_settlesTo_iff : List.Forall₂ (SettlesTo a.models) a.maps.toList plans ↔
    (∀ plan ∈ a.maps.toList,
      (settleAll a.models plan.2.placements.values plan.2.placements).1 = .ok ()) ∧
        a.settledPlans = plans := by
  have same : SettlesTo a.models = fun plan settled =>
      (settleAll a.models plan.2.placements.values plan.2.placements).1 = .ok () ∧
        (plan.1, plan.2.settledBy a.models) = settled := by
    funext plan settled
    exact propext settlesTo_iff
  rw [same, List.forall₂_and_left, settledPlans, ← List.forall₂_eq_eq_eq, List.forall₂_map_left_iff]

/-- The files of maps, and those of all placed models after them. -/
def FilesOf (a : Assembly) (plans : List (UInt32 × MapPlan)) (files : List (String × Output)) : Prop :=
  ∃ lists modelFiles, MapFileLists plans lists ∧
    List.Forall₂ (ModelFile a.models) a.placedModels modelFiles ∧ files = lists.flatten ++ modelFiles

/-- The maps after their placements are settled again. -/
def resettledPlans (a : Assembly) : List (UInt32 × MapPlan) :=
  a.maps.toList.map fun plan => (plan.1, plan.2.resettled)

/-- Every map of an assembly that was written comes from a map before. -/
theorem exists_settles_of_write {n : MapPlan} (keyed : a.Keyed)
    (written : a.write d = .ok (.ok (), a', d')) (known : a'.maps[map]? = some n) :
    ∃ m, a.maps[map]? = some m ∧ MapPlan.Settles a'.models m n := by
  obtain ⟨lists, modelFiles, ⟨plans, settles, -, rfl⟩, -, -⟩ := write_iff.mp written
  obtain ⟨done, rfl⟩ := forall₂_settlesTo_iff.mp settles
  rw [← Std.TreeMap.mem_toList_iff_getElem?_eq_some, toList_settledPlans] at known
  obtain ⟨⟨map, m⟩, planned, same⟩ := List.mem_map.mp known
  cases same
  have before := Std.TreeMap.mem_toList_iff_getElem?_eq_some.mp planned
  exact ⟨m, before, MapPlan.settles_of_settleAll (keyed map m before) (Prod.ext (done _ planned) rfl)⟩

theorem settled_of_write (keyed : a.Keyed) (written : a.write d = .ok (.ok (), a', d')) :
    a'.Settled := by
  intro map n known
  obtain ⟨m, before, settles⟩ := exists_settles_of_write keyed written known
  exact settles.settled (keyed map m before)

/-- What was saved are the files of the settled maps. -/
theorem exists_files_of_write (written : a.write d = .ok (.ok (), a', d')) :
    ∃ files, a'.FilesOf a'.maps.toList files ∧ saveAll files d = (.ok (), d') := by
  obtain ⟨lists, modelFiles, ⟨plans, settles, listed, rfl⟩, models, saved⟩ := write_iff.mp written
  obtain ⟨-, rfl⟩ := forall₂_settlesTo_iff.mp settles
  refine ⟨_, ⟨lists, modelFiles, ?_, models, rfl⟩, saved⟩
  rw [toList_settledPlans]
  exact listed

theorem Settled.plan (settled : a.Settled) {plan : UInt32 × MapPlan} (listed : plan ∈ a.maps.toList) :
    plan.2.Settled a.models :=
  settled plan.1 plan.2 (Std.TreeMap.mem_toList_iff_getElem?_eq_some.mp listed)

theorem mapFileLists_iff {lists : List (List (String × Output))} : MapFileLists plans lists ↔
    List.Forall₂ (fun result files => result = .ok files)
      (plans.map fun plan => plan.2.files plan.1) lists := by
  rw [List.forall₂_map_left_iff]

theorem Settled.mapFileLists_iff (settled : a.Settled) {lists : List (List (String × Output))} :
    MapFileLists a.settledPlans lists ↔ MapFileLists a.resettledPlans lists := by
  have same : (a.settledPlans.map fun plan => plan.2.files plan.1) =
      a.resettledPlans.map fun plan => plan.2.files plan.1 := by
    rw [settledPlans, resettledPlans, List.map_map, List.map_map]
    exact List.map_congr_left fun plan listed => (settled.plan listed).files_settledBy plan.1
  rw [Assembly.mapFileLists_iff, Assembly.mapFileLists_iff, same]

/-- Settling again keeps the models that are placed. -/
theorem Settled.placedModels_eq (settled : a.Settled) :
    placedModels { a with maps := a.maps.insertMany a.settledPlans } = a.placedModels := by
  have names : (a.settledPlans.flatMap fun plan => plan.2.placements.values.map Placement.model) =
      a.maps.toList.flatMap fun plan => plan.2.placements.values.map Placement.model := by
    rw [settledPlans, List.flatMap_map]
    exact List.flatMap_congr fun plan listed => (settled.plan listed).names_settledBy
  rw [placedModels, placedModels, values_eq_map, values_eq_map, toList_settledPlans, List.flatMap_map,
    List.flatMap_map, names]

/-- What a second writing saves. -/
theorem Settled.written_iff (settled : a.Settled) :
    (∃ a', a.write d = .ok (.ok (), a', d')) ↔
      ∃ files, a.FilesOf a.resettledPlans files ∧ saveAll files d = (.ok (), d') := by
  constructor
  · rintro ⟨a', written⟩
    obtain ⟨lists, modelFiles, ⟨plans, settles, listed, rfl⟩, models, saved⟩ := write_iff.mp written
    obtain ⟨-, rfl⟩ := forall₂_settlesTo_iff.mp settles
    rw [settled.placedModels_eq] at models
    exact ⟨_, ⟨lists, modelFiles, settled.mapFileLists_iff.mp listed, models, rfl⟩, saved⟩
  · rintro ⟨_, ⟨lists, modelFiles, listed, models, rfl⟩, saved⟩
    have settles : List.Forall₂ (SettlesTo a.models) a.maps.toList a.settledPlans := by
      refine forall₂_settlesTo_iff.mpr ⟨fun plan known => ?_, rfl⟩
      exact (settlesTo_iff.mp ((settled.plan known).settlesTo plan.1)).1
    have listed := settled.mapFileLists_iff.mpr listed
    rw [← settled.placedModels_eq] at models
    exact ⟨_, write_iff.mpr ⟨lists, modelFiles, ⟨_, settles, listed, rfl⟩, models, saved⟩⟩

/-! ### The files of both writings -/

theorem files_eq_ok {files : List (String × Output)} : m.files map = .ok files ↔
    ∃ output, m.treeFile = .ok output ∧
      files = (treeFileName map, output) :: m.tiles.toList.filterMap (MapPlan.tileFile? map m) := by
  rw [MapPlan.files, bind_eq_ok]
  simp only [pure, Except.pure, Except.ok.injEq, eq_comm]

/-- The files of a map that was settled again differ at most in the tree. -/
theorem sameAt_files (elsewhere : place ≠ [treeFileName map]) (first : m.files map = .ok files)
    (second : m.resettled.files map = .ok others) : List.Forall₂ (d.SameAt place) files others := by
  obtain ⟨output, -, rfl⟩ := files_eq_ok.mp first
  obtain ⟨output', -, rfl⟩ := files_eq_ok.mp second
  refine .cons ⟨rfl, fun found => ?_⟩ ?_
  · have plain : (FileName.tree map).Plain := trivial
    exact absurd (Directory.place_eq (FileName.plainName plain) found) elsewhere
  · rw [MapPlan.tileFile?_resettled]
    exact Directory.sameAt_self ..

theorem sameAt_lists {list : List (UInt32 × MapPlan)} {lists lists' : List (List (String × Output))}
    (elsewhere : ∀ plan ∈ list, place ≠ [treeFileName plan.1]) (first : MapFileLists list lists)
    (second : MapFileLists (list.map fun plan => (plan.1, plan.2.resettled)) lists') :
    List.Forall₂ (List.Forall₂ (d.SameAt place)) lists lists' := by
  induction first generalizing lists' with
  | nil =>
    cases second
    exact .nil
  | cons made _ ih =>
    cases second with
    | cons made' second => ?_
    obtain ⟨here, elsewhere⟩ := List.forall_mem_cons.mp elsewhere
    exact .cons (sameAt_files here made made') (ih elsewhere second)

theorem rightUnique_modelFile : Relator.RightUnique (ModelFile models) := by
  rintro name _ _ ⟨raw, model, known, made, rfl⟩ ⟨raw', model', known', made', rfl⟩
  cases known.symm.trans known'
  cases made.symm.trans made'
  rfl

/-- Away from the trees, both writings save the same. -/
theorem sameAt_filesOf (elsewhere : ∀ plan ∈ a.maps.toList, place ≠ [treeFileName plan.1])
    (first : a.FilesOf a.maps.toList files) (second : a.FilesOf a.resettledPlans others) :
    List.Forall₂ (d.SameAt place) files others := by
  obtain ⟨lists, modelFiles, listed, models, rfl⟩ := first
  obtain ⟨lists', modelFiles', listed', models', rfl⟩ := second
  obtain rfl := rightUnique_modelFile.forall₂ models models'
  have maps := List.rel_flatten (sameAt_lists (d := d) elsewhere listed listed')
  exact List.rel_append maps (Directory.sameAt_self ..)

/-- The file of a tree is the only one that goes to its place. -/
theorem exists_treeFile (distinct : (plans.map Prod.fst).Nodup) (planned : (map, m) ∈ plans)
    (known : a.FilesOf plans files) : ∃ output, m.treeFile = .ok output ∧
      (treeFileName map, output) ∈ files ∧
      ∀ file ∈ files, d.locate file.1 = .ok [treeFileName map] → file.2 = output := by
  obtain ⟨lists, modelFiles, listed, models, rfl⟩ := known
  obtain ⟨own, inLists, made⟩ := exists_of_mem_left listed _ planned
  obtain ⟨output, tree, rfl⟩ := files_eq_ok.mp made
  refine ⟨output, tree, List.mem_append_left _ (List.mem_flatten.mpr ⟨_, inLists, .head _⟩), ?_⟩
  intro file inAll found
  have name_eq {f : FileName} (plain : f.Plain) (found : d.locate f.text = .ok [treeFileName map]) :
      f = .tree map := by
    have places := Directory.place_eq (FileName.plainName plain) found
    have texts : (FileName.tree map).text = f.text := (List.cons.inj places).1
    exact (FileName.text_injective texts).symm
  -- names of tiles and models never lead to the place of a tree
  obtain inMaps | isModel := List.mem_append.mp inAll
  · obtain ⟨files, inLists, inFiles⟩ := List.mem_flatten.mp inMaps
    obtain ⟨⟨map', m'⟩, planned', made'⟩ := exists_of_mem_right listed _ inLists
    obtain ⟨output', tree', rfl⟩ := files_eq_ok.mp made'
    cases inFiles with
    | head =>
      -- each map is listed once
      cases name_eq (f := .tree map') trivial found
      cases List.inj_on_of_nodup_map distinct planned planned' rfl
      exact Except.ok.inj (tree'.symm.trans tree)
    | tail _ isTile =>
      obtain ⟨tile, -, some⟩ := List.mem_filterMap.mp isTile
      obtain ⟨output, -, rfl⟩ := Option.map_eq_some_iff.mp some
      cases name_eq (f := .tile map' (.ofPacked tile.1)) trivial found
  · obtain ⟨name, -, raw, model, -, -, rfl⟩ := exists_of_mem_right models _ isModel
    exact absurd found (FileName.locate_model_ne (f := .tree map) name rfl)

/-- The file of a tree, as it is read after it was saved. -/
theorem read_tree (distinct : (plans.map Prod.fst).Nodup) (planned : (map, m) ∈ plans)
    (known : a.FilesOf plans files) (saved : saveAll files d = (.ok (), d')) :
    ∃ bytes, m.treeFile = .ok (bytes, .ok ()) ∧ d'.read (treeFileName map) = .ok bytes := by
  obtain ⟨⟨bytes, outcome⟩, tree, listed, others⟩ := exists_treeFile (d := d) distinct planned known
  have saving := Directory.saved_of_saveAll saved
  have complete : outcome = .ok () := saving.complete _ listed
  have plain : (FileName.tree map).Plain := trivial
  have found := saving.lookup?_eq listed (FileName.plainName plain) fun file inAll found => by
    rw [others file inAll found]
  subst complete
  exact ⟨bytes, tree, Directory.read_of_lookup? found⟩

/-- If the files of the trees stay, then all files do. -/
theorem FilesOf.again (unmoved : ∀ plan ∈ a.maps.toList, plan.2.resettled.treeFile = plan.2.treeFile)
    (known : a.FilesOf a.maps.toList files) : a.FilesOf a.resettledPlans files := by
  obtain ⟨lists, modelFiles, listed, models, rfl⟩ := known
  refine ⟨lists, modelFiles, ?_, models, rfl⟩
  have same (plan : UInt32 × MapPlan) (planned : plan ∈ a.maps.toList) :
      plan.2.resettled.files plan.1 = plan.2.files plan.1 := by
    rw [MapPlan.files, MapPlan.files, unmoved plan planned, MapPlan.tileFile?_resettled]
    rfl
  rw [resettledPlans, mapFileLists_iff, List.map_map]
  rw [mapFileLists_iff] at listed
  exact (List.map_congr_left same).symm ▸ listed

/-! ### Both writings -/

theorem written_again_iff (keyed : a.Keyed) (written : a.write d = .ok (.ok (), a', d')) :
    (∃ a'' d'', a'.write d' = .ok (.ok (), a'', d'') ∧ ∀ path, d''.read path = d'.read path) ↔
      ∀ (map : UInt32) (m : MapPlan), a'.maps[map]? = some m →
        m.resettled.treeFile = m.treeFile := by
  have settled := settled_of_write keyed written
  obtain ⟨files, known, saved⟩ := exists_files_of_write written
  have distinct : (a'.maps.toList.map Prod.fst).Nodup := nodup_fst_toList a'.maps
  constructor
  · rintro ⟨a'', d'', writtenAgain, same⟩ map m planned
    obtain ⟨others, knownAgain, savedAgain⟩ := settled.written_iff.mp ⟨a'', writtenAgain⟩
    rw [← Std.TreeMap.mem_toList_iff_getElem?_eq_some] at planned
    have plannedAgain : (map, m.resettled) ∈ a'.resettledPlans :=
      List.mem_map_of_mem (f := fun plan => (plan.1, plan.2.resettled)) planned
    have distinctAgain : (a'.resettledPlans.map Prod.fst).Nodup := by
      rw [resettledPlans, List.map_map]
      exact distinct
    -- the file of the tree is read back in both directories
    obtain ⟨bytes, tree, read⟩ := read_tree distinct planned known saved
    obtain ⟨bytes', tree', read'⟩ := read_tree distinctAgain plannedAgain knownAgain savedAgain
    cases (read'.symm.trans (same _)).trans read
    rw [tree, tree']
  · intro unmoved
    -- the same list of files is saved again
    have first := Directory.saved_of_saveAll saved
    obtain ⟨d'', savedAgain⟩ := first.again
    have knownAgain := known.again fun plan planned =>
      unmoved plan.1 plan.2 (Std.TreeMap.mem_toList_iff_getElem?_eq_some.mp planned)
    obtain ⟨a'', writtenAgain⟩ := settled.written_iff.mpr ⟨files, knownAgain, savedAgain⟩
    refine ⟨a'', d'', writtenAgain, Directory.read_congr fun place => ?_⟩
    exact first.entries_again (Directory.saved_of_saveAll savedAgain) (Directory.sameAt_self ..)

/-- Writing once more can be relied on for all but the trees over boxes that are moved again. -/
theorem write_again (reachable : a.Reachable) (written : a.write d = .ok (.ok (), a', d')) :
    ((∃ a'' d'', a'.write d' = .ok (.ok (), a'', d'') ∧ ∀ path, d''.read path = d'.read path) ↔
      ∀ (map : UInt32) (m : MapPlan), a'.maps[map]? = some m →
        m.resettled.treeFile = m.treeFile) ∧
    ((∀ (map : UInt32) (m : MapPlan) (id : UInt32) (p : Placement), a.maps[map]? = some m →
        m.placements[id]? = some p → p.Has Placement.mapWide → p.Has Placement.doodad) →
      ∃ a'' d'', a'.write d' = .ok (.ok (), a'', d'') ∧ ∀ path, d''.read path = d'.read path) ∧
    ∀ (a'' : Assembly) (d'' : Directory), a'.write d' = .ok (.ok (), a'', d'') → ∀ place : Place,
      (∀ (map : UInt32) (m : MapPlan), a'.maps[map]? = some m → place ≠ [treeFileName map]) →
        d''.entries[place]? = d'.entries[place]? := by
  have keyed := reachable.keyed
  have again := written_again_iff keyed written
  -- boxes of doodads come from their models, so none of the boxes moves
  refine ⟨again, fun onTiles => again.mpr fun map n known => ?_, ?_⟩
  · obtain ⟨m, before, settles⟩ := exists_settles_of_write keyed written known
    refine MapPlan.treeFile_resettled fun id q stands => if_neg fun moved => moved.1 ?_
    obtain ⟨p, origin, made⟩ := settles.origin stands
    exact (settle_has_doodad made).mpr
      (onTiles map m id p before origin ((settle_has_mapWide made).mp moved.2))
  · intro a'' d'' writtenAgain place elsewhere
    obtain ⟨files, known, saved⟩ := exists_files_of_write written
    obtain ⟨others, knownAgain, savedAgain⟩ :=
      (settled_of_write keyed written).written_iff.mp ⟨a'', writtenAgain⟩
    refine (Directory.saved_of_saveAll saved).entries_again (Directory.saved_of_saveAll savedAgain) ?_
    refine sameAt_filesOf (fun plan planned => ?_) known knownAgain
    exact elsewhere plan.1 plan.2 (Std.TreeMap.mem_toList_iff_getElem?_eq_some.mp planned)

theorem write_again_quarry : (ofCalls quarry).Reachable ∧
    (ofCalls quarry).write {} = .ok (.ok (), writtenQuarry) ∧
    ∃ a d, writtenQuarry.1.write writtenQuarry.2 = .ok (.ok (), a, d) ∧
      ∀ path, d.read path = writtenQuarry.2.read path := by
  have reachable := reachable_ofCalls quarry
  refine ⟨reachable, write_quarry, (write_again reachable write_quarry).2.1 ?_⟩
  intro map m id p known stands wide
  exact absurd wide ((follows_of_plan known).regular regular_quarry stands).1

/-- A map without terrain: its one placement was given its box. -/
def cave : List Call :=
  let bounds : Box := ⟨⟨0, 0, 0⟩, ⟨1, 1, 1⟩⟩
  let flags := Placement.mapWide ||| Placement.bounded
  [.model "boulder" boulder, .placement 0 ⟨65, 65⟩ { flags, id := 4, bounds, model := "boulder" }]

/-- What two writings after each other lead to. -/
def writtenTwice (calls : List Call) : Option (Directory × Directory) :=
  match (ofCalls calls).write {} with
  | .ok (.ok (), a, d) =>
    match a.write d with
    | .ok (.ok (), _, d') => some (d, d')
    | _ => none
  | _ => none

/-- The box in the tree and the box of the placement are moved to the middle of the map twice. -/
theorem write_again_cave : ∃ a d a' d', (ofCalls cave).write {} = .ok (.ok (), a, d) ∧
    a.write d = .ok (.ok (), a', d') ∧ d'.read (treeFileName 0) ≠ d.read (treeFileName 0) := by
  have differ : ((writtenTwice cave).map fun state =>
      decide (state.2.read (treeFileName 0) = state.1.read (treeFileName 0))) = some false := by
    decide +kernel
  rw [Option.map_eq_some_iff] at differ
  obtain ⟨⟨d, d'⟩, written, other⟩ := differ
  rw [writtenTwice] at written
  split at written
  next a d first =>
    split at written
    next a' d' second =>
      cases written
      exact ⟨a, d, a', d', first, second, of_decide_eq_false other⟩
    next => cases written
  next => cases written

end Assembly

end Sightline
