import Sightline.Proofs.World.Reopening
import Sightline.Proofs.World.Saving

/-!
# The files of an assembly as a list

Writing an assembly to its end comes to settling its placements and saving a list of files, one map after
another and then the models. The list is made from the settled placements and the models alone, whatever
the directory.
-/
namespace Sightline

open Directory (saveAll saveAll_append)

/-! ### Related lists -/

section related

variable {α β : Type} {R : α → β → Prop} {xs : List α} {ys : List β}

theorem exists_of_mem_left (related : List.Forall₂ R xs ys) : ∀ x ∈ xs, ∃ y ∈ ys, R x y := by
  induction related with
  | nil => nofun
  | @cons x y _ _ first _ ih =>
    refine List.forall_mem_cons.mpr ⟨⟨y, .head _, first⟩, fun x listed => ?_⟩
    obtain ⟨y, there, both⟩ := ih x listed
    exact ⟨y, .tail _ there, both⟩

theorem exists_of_mem_right (related : List.Forall₂ R xs ys) : ∀ y ∈ ys, ∃ x ∈ xs, R x y :=
  exists_of_mem_left related.flip

end related

/-! ### The files of a map -/

namespace MapPlan

/-- The file of the tree over the boxes of the placements. -/
def treeFile (m : MapPlan) : Except Failure Output := do
  return Assembly.treeOutput m (← Hierarchy.build m.boxes Hierarchy.defaultLeafSize)

/-- The file of a tile under its name, if there is one. -/
def tileFile? (map : UInt32) (m : MapPlan) (tile : UInt32 × List UInt32) : Option (String × Output) :=
  (Assembly.tileOutput? m tile.2).map fun output => (tileFileName map (.ofPacked tile.1), output)

/-- The files of a map. -/
def files (map : UInt32) (m : MapPlan) : Except Failure (List (String × Output)) := do
  return (treeFileName map, ← m.treeFile) :: m.tiles.toList.filterMap (tileFile? map m)

end MapPlan

namespace Assembly

variable {a a' : Assembly} {d d' : Directory} {map : UInt32} {m : MapPlan}
  {models : Std.TreeMap String RawModel}

/-! ### Maps -/

theorem writeTiles_eq (tiles : List (UInt32 × List UInt32)) (d : Directory) :
    writeTiles map m tiles d = saveAll (tiles.filterMap (MapPlan.tileFile? map m)) d := by
  induction tiles generalizing d with
  | nil => rfl
  | cons tile rest ih =>
    obtain ⟨word, ids⟩ := tile
    rw [writeTiles, List.filterMap_cons]
    cases found : tileOutput? m ids with
    | none =>
      simp only [MapPlan.tileFile?, found, Option.map_none]
      exact ih d
    | some output =>
      cases saved : output.save d (tileFileName map (.ofPacked word)) with
      | mk outcome between =>
        cases outcome with
        | error fault => simp only [MapPlan.tileFile?, found, Option.map_some, saveAll, saved]
        | ok =>
          simp only [MapPlan.tileFile?, found, Option.map_some, saveAll, saved]
          exact ih between

theorem writeMap_eq (d : Directory) :
    writeMap map m d = (m.files map).map fun files => saveAll files d := by
  rw [writeMap, MapPlan.files, MapPlan.treeFile, MapPlan.boxes]
  -- the tree is built before anything is written
  cases Hierarchy.build (m.placements.values.map Placement.bounds) Hierarchy.defaultLeafSize with
  | error failure => rfl
  | ok tree =>
    simp only [bind, Except.bind, pure, Except.pure, Except.map, saveAll]
    cases saved : (treeOutput m tree).save d (treeFileName map) with
    | mk outcome between =>
      cases outcome with
      | error fault => simp only
      | ok =>
        simp only
        exact congrArg Except.ok (writeTiles_eq _ _)

/-- A map of a list with all of its placements settled. -/
structure SettlesTo (models : Std.TreeMap String RawModel) (plan settled : UInt32 × MapPlan) : Prop where
  map : settled.1 = plan.1
  placements : settleAll models plan.2.placements.values plan.2.placements =
    (Except.ok (), settled.2.placements)
  tiles : settled.2.tiles = plan.2.tiles

theorem SettlesTo.eq_of_settleAll {plan settled : UInt32 × MapPlan} {outcome : Except Fault Unit}
    {placements : Std.TreeMap UInt32 Placement} (settles : SettlesTo models plan settled)
    (settling : settleAll models plan.2.placements.values plan.2.placements = (outcome, placements)) :
    settled = (plan.1, { plan.2 with placements }) := by
  obtain ⟨map, after, tiles⟩ := settled
  obtain ⟨rfl, found, rfl⟩ := settles
  cases settling.symm.trans found
  rfl

/-- The files of the maps of a list. -/
abbrev MapFileLists (plans : List (UInt32 × MapPlan)) (lists : List (List (String × Output))) : Prop :=
  List.Forall₂ (fun plan files => plan.2.files plan.1 = .ok files) plans lists

theorem writeMaps_iff {list : List (UInt32 × MapPlan)} :
    a.writeMaps d list = .ok (.ok (), a', d') ↔
      ∃ plans lists, List.Forall₂ (SettlesTo a.models) list plans ∧ MapFileLists plans lists ∧
        a' = { a with maps := a.maps.insertMany plans } ∧
        saveAll lists.flatten d = (.ok (), d') := by
  induction list generalizing a d with
  | nil =>
    constructor
    · intro written
      cases written
      exact ⟨[], [], .nil, .nil, by simp, rfl⟩
    · rintro ⟨_, _, ⟨⟩, ⟨⟩, rfl, saved⟩
      cases saved
      simp [writeMaps]
  | cons head rest ih =>
    obtain ⟨map, m⟩ := head
    constructor
    · intro written
      -- the files of this map are saved before those of the others
      obtain ⟨done, between, first, following⟩ := exists_writeMap_of_cons written
      rw [writeMap_eq] at first
      obtain ⟨files, known, saved⟩ := map_eq_ok.mp first
      obtain ⟨plans, lists, settles, listed, rfl, rest⟩ := ih.mp following
      refine ⟨(map, m.settledBy a.models) :: plans, files :: lists,
        .cons ⟨rfl, Prod.ext done rfl, rfl⟩ settles, .cons known listed, ?_, ?_⟩
      · rw [Std.TreeMap.insertMany_cons]
      · exact saveAll_append.mpr ⟨between, saved, rest⟩
    · rintro ⟨_, _, settles, listed, rfl, saved⟩
      cases settles with
      | @cons _ plan _ plans first settles => ?_
      cases listed with
      | @cons _ files _ lists known listed => ?_
      obtain ⟨between, saved, rest⟩ := saveAll_append.mp saved
      obtain rfl : plan = (map, m.settledBy a.models) := first.eq_of_settleAll rfl
      have done : (settleAll a.models m.placements.values m.placements).1 = .ok () := by
        rw [first.placements]
      have written : writeMap map (m.settledBy a.models) d = .ok (.ok (), between) := by
        rw [writeMap_eq]
        exact map_eq_ok.mpr ⟨_, known, saved⟩
      rw [writeMaps_cons done written]
      exact ih.mpr ⟨_, _, settles, listed, by rw [Std.TreeMap.insertMany_cons], rest⟩

/-! ### Models -/

/-- The file of a model. -/
def ModelFile (models : Std.TreeMap String RawModel) (name : String) (file : String × Output) : Prop :=
  ∃ raw model, models[name]? = some raw ∧ raw.toModel = .ok model ∧
    file = (modelFileName name, .ofPieces model.pieces)

theorem writeModels_iff {names : List String} : writeModels models names d = .ok (.ok (), d') ↔
    ∃ files, List.Forall₂ (ModelFile models) names files ∧ saveAll files d = (.ok (), d') := by
  induction names generalizing d with
  | nil =>
    constructor
    · intro written
      cases written
      exact ⟨[], .nil, rfl⟩
    · rintro ⟨_, _ | _, saved⟩
      cases saved
      rfl
  | cons name rest ih =>
    rw [writeModels]
    constructor
    · intro written
      split at written
      · cases written
      next raw known =>
        obtain ⟨model, made, written⟩ := bind_eq_ok.mp written
        cases saved : (Output.ofPieces model.pieces).save d (modelFileName name) with
        | mk outcome between =>
          rw [saved] at written
          cases outcome with
          | error fault => cases written
          | ok =>
            obtain ⟨files, listed, following⟩ := ih.mp written
            refine ⟨_ :: files, .cons ⟨raw, model, known, made, rfl⟩ listed, ?_⟩
            rw [saveAll, saved]
            exact following
    · -- a list of files starts with the file of the first model
      rintro ⟨_, _ | ⟨⟨raw, model, known, made, rfl⟩, listed⟩, saved⟩
      rw [known]
      refine bind_eq_ok.mpr ⟨model, made, ?_⟩
      rw [saveAll] at saved
      cases first : (Output.ofPieces model.pieces).save d (modelFileName name) with
      | mk outcome between =>
        rw [first] at saved
        cases outcome with
        | error fault => cases saved
        | ok => exact ih.mpr ⟨_, listed, saved⟩

/-! ### The whole assembly -/

/-- A conversion that came to its end: what the placements were settled to, and the files that were
saved. -/
structure Converts (a a' : Assembly) (d d' : Directory) (lists : List (List (String × Output)))
    (modelFiles : List (String × Output)) : Prop where
  settles : ∃ plans, List.Forall₂ (SettlesTo a.models) a.maps.toList plans ∧
    MapFileLists plans lists ∧ a' = { a with maps := a.maps.insertMany plans }
  models : List.Forall₂ (ModelFile a'.models) a'.placedModels modelFiles
  saved : saveAll (lists.flatten ++ modelFiles) d = (.ok (), d')

theorem write_iff : a.write d = .ok (.ok (), a', d') ↔
    ∃ lists modelFiles, Converts a a' d d' lists modelFiles := by
  rw [write, bind_eq_ok]
  constructor
  · rintro ⟨⟨outcome, after, between⟩, maps, rest⟩
    cases outcome with
    | error fault => cases rest
    | ok =>
      obtain ⟨⟨outcome, last⟩, models, result⟩ := bind_eq_ok.mp rest
      cases result
      obtain ⟨plans, lists, settles, listed, same, saved⟩ := writeMaps_iff.mp maps
      obtain ⟨modelFiles, known, following⟩ := writeModels_iff.mp models
      exact ⟨lists, modelFiles, ⟨plans, settles, listed, same⟩, known,
        saveAll_append.mpr ⟨between, saved, following⟩⟩
  · rintro ⟨lists, modelFiles, ⟨plans, settles, listed, same⟩, known, saved⟩
    obtain ⟨between, saved, following⟩ := saveAll_append.mp saved
    refine ⟨(.ok (), a', between), writeMaps_iff.mpr ⟨plans, lists, settles, listed, same, saved⟩, ?_⟩
    exact bind_eq_ok.mpr ⟨(.ok (), d'), writeModels_iff.mpr ⟨modelFiles, known, following⟩, rfl⟩

end Assembly

end Sightline
