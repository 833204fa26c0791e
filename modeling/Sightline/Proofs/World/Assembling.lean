import Sightline.Proofs.World.Calls
import Sightline.Proofs.World.FileNames
import Sightline.Proofs.World.Slots
import Sightline.Proofs.World.Tiles
import Sightline.Proofs.World.Writing

/-!
# Files of an assembly

Writing an assembly to its end gives each map its files and each placed model its own. Every step of the
writing leaves the files of all others as they are.
-/
namespace Sightline

namespace FileName

/-- The map that a file belongs to. -/
def map? : FileName → Option UInt32
  | tree map => some map
  | tile map _ => some map
  | model _ => none

theorem plain_of_map? {f : FileName} {map : UInt32} (belongs : f.map? = some map) : f.Plain := by
  cases f with
  | tree map => trivial
  | tile map t => trivial
  | model name => cases belongs

theorem plainName {f : FileName} (plain : f.Plain) : PlainName f.text :=
  ⟨not_mem_text plain, f.text_ne⟩

/-- The name of a model never leads to a file of a map, also where it leads to another folder. -/
theorem locate_model_ne {d : Directory} {f : FileName} {map : UInt32} (name : String)
    (belongs : f.map? = some map) : d.locate (modelFileName name) ≠ .ok [f.text] := by
  intro found
  have named (front : List Char) :
      String.ofList (front ++ ".vmo".toList) = (model (String.ofList front)).text := by
    rw [← String.toList_inj]
    simp only [toList_model, String.toList_ofList]
  have noSlash : '/' ∉ ".vmo".toList := by decide
  obtain ⟨front, last⟩ := Directory.exists_getLast?_locate noSlash
    (fun front => named front ▸ text_ne _) (toList_model name) found
  -- the place has the name of another model, if it is in the directory itself
  rw [named, List.getLast?_singleton, Option.some.injEq] at last
  rw [text_injective last] at belongs
  cases belongs

end FileName

theorem Output.save_eq_ok {output : Output} {d d' : Directory} {name : String}
    (saved : output.save d name = (Except.ok (), d')) :
    ∃ bytes, output = (bytes, .ok ()) ∧ d.write name bytes = .ok d' := by
  obtain ⟨bytes, outcome⟩ := output
  rw [Output.save] at saved
  split at saved
  · cases saved
  next after written =>
    cases saved
    exact ⟨bytes, rfl, written⟩

namespace Assembly

variable {d d' : Directory} {map : UInt32} {m : MapPlan} {models : Std.TreeMap String RawModel}

/-! ### Tiles -/

/-- What writing a list of tiles comes to: each one with placements of its own has its file, and all
other files stay. -/
structure TilesWritten (map : UInt32) (m : MapPlan) (words : List (UInt32 × List UInt32))
    (d d' : Directory) : Prop where
  each : ∀ (word : UInt32) (ids : List UInt32) (output : Output), (word, ids) ∈ words →
    tileOutput? m ids = some output → ∃ bytes, output = (bytes, .ok ()) ∧
      d'.lookup? (tileFileName map (.ofPacked word)) = some (.file bytes)
  others : ∀ f : FileName, f.Plain → (∀ (word : UInt32) (ids : List UInt32), (word, ids) ∈ words →
    f = .tile map (.ofPacked word) → tileOutput? m ids = none) → d'.lookup? f.text = d.lookup? f.text

namespace TilesWritten

variable {word : UInt32} {ids : List UInt32} {words : List (UInt32 × List UInt32)}

theorem skip (rest : TilesWritten map m words d d') (nothing : tileOutput? m ids = none) :
    TilesWritten map m ((word, ids) :: words) d d' where
  each other listed output listing found := by
    cases listing with
    | head =>
      rw [nothing] at found
      cases found
    | tail _ listing => exact rest.each other listed output listing found
  others f plain unwritten :=
    rest.others f plain fun other listed listing => unwritten other listed (.tail _ listing)

theorem save {between : Directory} {bytes : List UInt8} (rest : TilesWritten map m words between d')
    (new : word ∉ words.map Prod.fst) (some : tileOutput? m ids = some (bytes, .ok ()))
    (done : d.write (tileFileName map (.ofPacked word)) bytes = .ok between) :
    TilesWritten map m ((word, ids) :: words) d d' := by
  have plain : (FileName.tile map (.ofPacked word)).Plain := trivial
  constructor
  case each =>
    intro other listed output listing found
    cases listing with
    | head =>
      -- the rest of the tiles have other words, so that the file stays as it is
      rw [some] at found
      cases found
      refine ⟨bytes, rfl, ?_⟩
      refine (rest.others _ plain ?_).trans (Directory.lookup?_write (FileName.plainName plain) done)
      intro next ids listing same
      cases Tile.ofPacked_inj.mp (FileName.tile.inj same).2
      exact absurd (List.mem_map_of_mem listing) new
    | tail _ listing => exact rest.each other listed output listing found
  case others =>
    intro f plainOther unwritten
    have differs : f.text ≠ (FileName.tile map (.ofPacked word)).text := by
      intro same
      have nothing := unwritten word ids (.head _) (FileName.text_injective same)
      rw [some] at nothing
      cases nothing
    have stays := rest.others f plainOther fun other listed listing =>
      unwritten other listed (.tail _ listing)
    exact stays.trans (Directory.lookup?_write_of_ne (FileName.plainName plain)
      (FileName.plainName plainOther) differs done)

end TilesWritten

theorem writeTiles_ok {words : List (UInt32 × List UInt32)} (distinct : (words.map Prod.fst).Nodup)
    (written : writeTiles map m words d = (Except.ok (), d')) : TilesWritten map m words d d' := by
  induction words generalizing d with
  | nil =>
    cases written
    exact ⟨nofun, fun _ _ _ => rfl⟩
  | cons head rest ih =>
    obtain ⟨word, ids⟩ := head
    rw [List.map_cons, List.nodup_cons] at distinct
    obtain ⟨new, distinct⟩ := distinct
    rw [writeTiles] at written
    split at written
    next nothing => exact (ih distinct written).skip nothing
    next output some =>
      split at written
      · cases written
      next between saved =>
        obtain ⟨bytes, rfl, done⟩ := Output.save_eq_ok saved
        exact (ih distinct written).save new some done

/-! ### Maps -/

/-- The files of a map in a directory. A tile without placements of its own has none. -/
structure MapFiles (map : UInt32) (m : MapPlan) (d : Directory) : Prop where
  tree : ∃ tree bytes, Hierarchy.build (m.placements.values.map Placement.bounds)
      Hierarchy.defaultLeafSize = .ok tree ∧
    treeOutput m tree = (bytes, .ok ()) ∧ d.lookup? (treeFileName map) = some (.file bytes)
  tiles : ∀ t : Tile, t.Small → d.lookup? (tileFileName map t) =
    (tileOutput? m (m.idsOn t.packed)).map fun output => .file output.1
  complete : ∀ (t : Tile) (output : Output), t.Small →
    tileOutput? m (m.idsOn t.packed) = some output → output.2 = .ok ()
  large : ∀ t : Tile, ¬t.Small → d.lookup? (tileFileName map t) = none

theorem MapFiles.frame (files : MapFiles map m d)
    (same : ∀ f : FileName, f.map? = some map → d'.lookup? f.text = d.lookup? f.text) :
    MapFiles map m d' := by
  obtain ⟨tree, bytes, built, written, stands⟩ := files.tree
  refine ⟨⟨tree, bytes, built, written, ?_⟩, ?_, files.complete, ?_⟩
  · exact (same (.tree map) rfl).trans stands
  · intro t small
    exact (same (.tile map t) rfl).trans (files.tiles t small)
  · intro t notSmall
    exact (same (.tile map t) rfl).trans (files.large t notSmall)

theorem idsOn_of_listed {word : UInt32} {ids : List UInt32} (listed : (word, ids) ∈ m.tiles.toList) :
    m.idsOn word = ids := by
  rw [MapPlan.idsOn, Std.TreeMap.mem_toList_iff_getElem?_eq_some.mp listed]
  rfl

theorem listed_of_output {word : UInt32} {output : Output}
    (found : tileOutput? m (m.idsOn word) = some output) :
    (word, m.idsOn word) ∈ m.tiles.toList := by
  rw [Std.TreeMap.mem_toList_iff_getElem?_eq_some, MapPlan.idsOn] at *
  cases stands : m.tiles[word]? with
  | none =>
    rw [stands] at found
    cases found
  | some ids => rfl

theorem writeMap_ok (absent : ∀ f : FileName, f.map? = some map → d.lookup? f.text = none)
    (written : writeMap map m d = .ok (.ok (), d')) :
    MapFiles map m d' ∧
      ∀ f : FileName, f.Plain → f.map? ≠ some map → d'.lookup? f.text = d.lookup? f.text := by
  obtain ⟨tree, built, written⟩ := bind_eq_ok.mp written
  have plainTree : (FileName.tree map).Plain := trivial
  split at written
  · cases written
  next between saved =>
    obtain ⟨bytes, output, done⟩ := Output.save_eq_ok saved
    have tilesWritten := Except.ok.inj written
    obtain ⟨each, others⟩ := writeTiles_ok (nodup_fst_toList m.tiles) tilesWritten
    have elsewhere {f : FileName} (plain : f.Plain) (differs : f ≠ .tree map) :
        between.lookup? f.text = d.lookup? f.text :=
      Directory.lookup?_write_of_ne (FileName.plainName plainTree) (FileName.plainName plain)
        (fun same => differs (FileName.text_injective same)) done
    constructor
    · constructor
      case tree =>
        refine ⟨tree, bytes, built, output, ?_⟩
        -- no tile has the name of the map's own file
        refine (others (.tree map) plainTree nofun).trans ?_
        exact Directory.lookup?_write (FileName.plainName plainTree) done
      case tiles =>
        intro t small
        have plainTile : (FileName.tile map t).Plain := trivial
        cases found : tileOutput? m (m.idsOn t.packed) with
        | none =>
          refine (others (.tile map t) plainTile ?_).trans ?_
          · intro word ids listed same
            rw [(FileName.tile.inj same).2, Tile.packed_ofPacked, idsOn_of_listed listed] at found
            exact found
          · exact (elsewhere plainTile nofun).trans (absent (.tile map t) rfl)
        | some output =>
          obtain ⟨bytes, rfl, stands⟩ := each t.packed _ output (listed_of_output found) found
          rw [Tile.ofPacked_packed small] at stands
          exact stands
      case complete =>
        intro t output small found
        obtain ⟨bytes, rfl, -⟩ := each t.packed _ output (listed_of_output found) found
        rfl
      case large =>
        -- tiles are written under the words they are packed in, which have room for small ones
        intro t notSmall
        have plainTile : (FileName.tile map t).Plain := trivial
        refine (others (.tile map t) plainTile ?_).trans ?_
        · intro word ids listed same
          rw [(FileName.tile.inj same).2] at notSmall
          exact absurd (Tile.small_ofPacked word) notSmall
        · exact (elsewhere plainTile nofun).trans (absent (.tile map t) rfl)
    · intro f plain foreign
      refine (others f plain ?_).trans (elsewhere plain ?_)
      · rintro word ids - rfl
        exact absurd rfl foreign
      · rintro rfl
        exact absurd rfl foreign

/-- What writing a list of maps comes to: they are settled and have their files, all others stay. -/
structure MapsWritten (a : Assembly) (list : List (UInt32 × MapPlan)) (d : Directory) (a' : Assembly)
    (d' : Directory) : Prop where
  models : a'.models = a.models
  maps : ∀ (map : UInt32) (m : MapPlan), (map, m) ∈ list →
    ∃ m', a'.maps[map]? = some m' ∧ MapPlan.Settles a.models m m' ∧ MapFiles map m' d'
  otherMaps : ∀ map : UInt32, map ∉ list.map Prod.fst → a'.maps[map]? = a.maps[map]?
  otherFiles : ∀ f : FileName, f.Plain → (∀ map ∈ list.map Prod.fst, f.map? ≠ some map) →
    d'.lookup? f.text = d.lookup? f.text

/-- One map is written before the others. They leave it as it is, and its files. -/
theorem MapsWritten.cons {a a' : Assembly} {settled : MapPlan} {rest : List (UInt32 × MapPlan)}
    {between : Directory}
    (following : MapsWritten { a with maps := a.maps.insert map settled } rest between a' d')
    (new : map ∉ rest.map Prod.fst) (settles : MapPlan.Settles a.models m settled)
    (files : MapFiles map settled between)
    (others : ∀ f : FileName, f.Plain → f.map? ≠ some map → between.lookup? f.text = d.lookup? f.text) :
    MapsWritten a ((map, m) :: rest) d a' d' := by
  constructor
  case models => exact following.models
  case maps =>
    intro other plan listed
    cases listed with
    | head =>
      refine ⟨settled, ?_, settles, ?_⟩
      · exact (following.otherMaps map new).trans Std.TreeMap.getElem?_insert_self
      · refine files.frame fun f belongs => ?_
        refine following.otherFiles f (FileName.plain_of_map? belongs) fun other listed => ?_
        rw [belongs]
        rintro ⟨⟩
        exact new listed
    | tail _ listed => exact following.maps other plan listed
  case otherMaps =>
    intro other missing
    rw [List.map_cons, List.mem_cons, not_or] at missing
    rw [following.otherMaps other missing.2, getElem?_insert, if_neg fun same => missing.1 same.symm]
  case otherFiles =>
    intro f plain unwritten
    have stays := following.otherFiles f plain fun other listed => unwritten other (.tail _ listed)
    exact stays.trans (others f plain (unwritten map (.head _)))

theorem writeMaps_ok {a a' : Assembly} {maps : List (UInt32 × MapPlan)}
    (distinct : (maps.map Prod.fst).Nodup)
    (keyed : ∀ (map : UInt32) (m : MapPlan), (map, m) ∈ maps → m.Keyed)
    (absent : ∀ (map : UInt32) (f : FileName), map ∈ maps.map Prod.fst → f.map? = some map →
      d.lookup? f.text = none)
    (written : a.writeMaps d maps = .ok (.ok (), a', d')) : MapsWritten a maps d a' d' := by
  induction maps generalizing a d with
  | nil =>
    cases written
    exact ⟨rfl, nofun, fun _ _ => rfl, fun _ _ _ => rfl⟩
  | cons head rest ih =>
    obtain ⟨map, m⟩ := head
    rw [List.map_cons, List.nodup_cons] at distinct
    obtain ⟨new, distinct⟩ := distinct
    obtain ⟨settled, between, mapWritten, restWritten⟩ := exists_writeMap_of_cons written
    obtain ⟨files, others⟩ := writeMap_ok (fun f => absent map f (.head _)) mapWritten
    have settles := MapPlan.settles_of_settleAll (keyed map m (.head _)) (Prod.ext settled rfl)
    -- the files of the other maps are still missing after this one was written
    have absentRest (other : UInt32) (f : FileName) (listed : other ∈ rest.map Prod.fst)
        (belongs : f.map? = some other) : between.lookup? f.text = none := by
      refine (others f (FileName.plain_of_map? belongs) ?_).trans (absent other f (.tail _ listed) belongs)
      rw [belongs]
      rintro ⟨⟩
      exact new listed
    have following := ih distinct (fun other m listed => keyed other m (.tail _ listed))
      absentRest restWritten
    exact following.cons new settles files others

/-! ### Models -/

/-- What writing a list of models comes to: each one has its file, and all other files stay. -/
structure ModelsWritten (models : Std.TreeMap String RawModel) (names : List String)
    (d d' : Directory) : Prop where
  each : ∀ name ∈ names, ∃ raw model bytes, models[name]? = some raw ∧ raw.toModel = .ok model ∧
    Output.ofPieces model.pieces = (bytes, .ok ()) ∧
    d'.lookup? (modelFileName name) = some (.file bytes)
  others : ∀ f : FileName, f.Plain → (∀ name ∈ names, f ≠ .model name) →
    d'.lookup? f.text = d.lookup? f.text

/-- A name that comes again is written again, with the same model. -/
theorem ModelsWritten.save {names : List String} {between : Directory} {name : String}
    {raw : RawModel} {model : Model} {bytes : List UInt8}
    (rest : ModelsWritten models names between d') (plain : (FileName.model name).Plain)
    (known : models[name]? = some raw) (made : raw.toModel = .ok model)
    (output : Output.ofPieces model.pieces = (bytes, .ok ()))
    (done : d.write (modelFileName name) bytes = .ok between) :
    ModelsWritten models (name :: names) d d' := by
  have plainName := FileName.plainName plain
  constructor
  case each =>
    intro other listed
    by_cases later : other ∈ names
    · exact rest.each other later
    · cases (List.mem_cons.mp listed).resolve_right later
      refine ⟨raw, model, bytes, known, made, output, ?_⟩
      refine (rest.others (.model name) plain ?_).trans (Directory.lookup?_write plainName done)
      rintro other listed ⟨⟩
      exact later listed
  case others =>
    intro f plainOther unwritten
    refine (rest.others f plainOther fun other listed => unwritten other (.tail _ listed)).trans ?_
    refine Directory.lookup?_write_of_ne plainName (FileName.plainName plainOther) ?_ done
    exact fun same => unwritten name (.head _) (FileName.text_injective same)

theorem exists_of_writeModels_cons {name : String} {rest : List String}
    (written : writeModels models (name :: rest) d = .ok (.ok (), d')) :
    ∃ raw model bytes between, models[name]? = some raw ∧ raw.toModel = .ok model ∧
      Output.ofPieces model.pieces = (bytes, .ok ()) ∧
      d.write (modelFileName name) bytes = .ok between ∧
      writeModels models rest between = .ok (.ok (), d') := by
  rw [writeModels] at written
  split at written
  · cases written
  next raw known =>
    obtain ⟨model, made, written⟩ := bind_eq_ok.mp written
    split at written
    · cases written
    next between saved =>
      obtain ⟨bytes, output, done⟩ := Output.save_eq_ok saved
      exact ⟨raw, model, bytes, between, known, made, output, done, written⟩

theorem writeModels_ok {names : List String} (plain : ∀ name ∈ names, (FileName.model name).Plain)
    (written : writeModels models names d = .ok (.ok (), d')) : ModelsWritten models names d d' := by
  induction names generalizing d with
  | nil =>
    cases written
    exact ⟨nofun, fun _ _ _ => rfl⟩
  | cons name rest ih =>
    obtain ⟨raw, model, bytes, between, known, made, output, done, following⟩ :=
      exists_of_writeModels_cons written
    have others := ih (fun other listed => plain other (.tail _ listed)) following
    exact others.save (plain name (.head _)) known made output done

/-- Writing models leaves the files of maps as they are, whatever folders the names lead to. -/
theorem lookup?_writeModels {names : List String} {f : FileName} (belongs : f.map? = some map)
    (written : writeModels models names d = .ok (.ok (), d')) :
    d'.lookup? f.text = d.lookup? f.text := by
  induction names generalizing d with
  | nil =>
    cases written
    rfl
  | cons name rest ih =>
    obtain ⟨_, _, bytes, between, -, -, -, done, following⟩ := exists_of_writeModels_cons written
    refine (ih following).trans (Directory.lookup?_write_elsewhere ?_ ?_ done)
    · exact FileName.plainName (FileName.plain_of_map? belongs)
    · exact FileName.locate_model_ne name belongs

theorem mem_foldl_insert {names : List String} {set : Std.TreeMap String Unit} {name : String} :
    name ∈ names.foldl (fun (set : Std.TreeMap String Unit) name => set.insert name ()) set ↔
      name ∈ set ∨ name ∈ names := by
  induction names generalizing set with
  | nil => simp
  | cons first rest ih =>
    rw [List.foldl_cons, ih, Std.TreeMap.mem_insert, Std.LawfulEqCmp.compare_eq_iff_eq,
      List.mem_cons]
    grind

theorem mem_placedModels {a : Assembly} {name : String} :
    name ∈ a.placedModels ↔ ∃ (map : UInt32) (m : MapPlan) (id : UInt32) (p : Placement),
      a.maps[map]? = some m ∧ m.placements[id]? = some p ∧ p.model = name := by
  rw [placedModels, Std.TreeMap.mem_keys, mem_foldl_insert]
  simp only [Std.TreeMap.not_mem_emptyc, false_or, List.mem_flatMap, List.mem_map, mem_values]
  constructor
  · rintro ⟨m, ⟨map, known⟩, p, ⟨id, found⟩, same⟩
    exact ⟨map, m, id, p, known, found, same⟩
  · rintro ⟨map, m, id, p, known, found, same⟩
    exact ⟨m, ⟨map, known⟩, p, ⟨id, found⟩, same⟩

/-! ### The whole assembly -/

/-- What writing an assembly comes to. -/
structure Written (a a' : Assembly) (d : Directory) : Prop where
  models : a'.models = a.models
  maps : ∀ (map : UInt32) (m : MapPlan), a.maps[map]? = some m →
    ∃ m', a'.maps[map]? = some m' ∧ MapPlan.Settles a.models m m' ∧ MapFiles map m' d
  modelFiles : ∀ name ∈ a'.placedModels, ∃ raw model bytes, a.models[name]? = some raw ∧
    raw.toModel = .ok model ∧ Output.ofPieces model.pieces = (bytes, .ok ()) ∧
    d.lookup? (modelFileName name) = some (.file bytes)

/-- Every map that was written was settled from one of the assembly. -/
theorem MapsWritten.origin {a a' : Assembly} {m' : MapPlan}
    (written : MapsWritten a a.maps.toList d a' d') (known : a'.maps[map]? = some m') :
    ∃ m, a.maps[map]? = some m ∧ MapPlan.Settles a.models m m' ∧ MapFiles map m' d' := by
  cases before : a.maps[map]? with
  | none =>
    have missing : map ∉ a.maps.toList.map Prod.fst := by
      rw [Std.TreeMap.map_fst_toList_eq_keys, mem_keys_iff, before]
      nofun
    rw [written.otherMaps map missing, before] at known
    cases known
  | some m =>
    obtain ⟨m'', same, settles, files⟩ := written.maps map m
      (Std.TreeMap.mem_toList_iff_getElem?_eq_some.mpr before)
    rw [known] at same
    cases same
    exact ⟨m, rfl, settles, files⟩

/-- The names of placed models do not change when maps are written. -/
theorem MapsWritten.placedModels {a a' : Assembly}
    (written : MapsWritten a a.maps.toList d a' d') {name : String} (listed : name ∈ a'.placedModels) :
    ∃ (map : UInt32) (m : MapPlan) (id : UInt32) (p : Placement),
      a.maps[map]? = some m ∧ m.placements[id]? = some p ∧ p.model = name := by
  obtain ⟨map, m', id, q, known, found, rfl⟩ := mem_placedModels.mp listed
  obtain ⟨m, before, settles, -⟩ := written.origin known
  obtain ⟨p, stands, settled⟩ := settles.origin found
  exact ⟨map, m, id, p, before, stands, (settle_model settled).symm⟩

/-- The maps are written first, and then the models that were placed on them. -/
theorem writeMaps_of_write {a a' : Assembly}
    (keyed : ∀ (map : UInt32) (m : MapPlan), a.maps[map]? = some m → m.Keyed)
    (written : a.write {} = .ok (.ok (), a', d)) :
    ∃ between, MapsWritten a a.maps.toList {} a' between ∧
      writeModels a'.models a'.placedModels between = .ok (.ok (), d) := by
  obtain ⟨⟨outcome, after, between⟩, mapsWritten, rest⟩ := bind_eq_ok.mp written
  cases outcome with
  | error fault => cases rest
  | ok =>
    obtain ⟨⟨outcome, last⟩, modelsWritten, result⟩ := bind_eq_ok.mp rest
    cases result
    refine ⟨between, ?_, modelsWritten⟩
    exact writeMaps_ok (nodup_fst_toList a.maps)
      (fun map m listed => keyed map m (Std.TreeMap.mem_toList_iff_getElem?_eq_some.mp listed))
      (fun map f _ belongs =>
        Directory.lookup?_empty (FileName.plainName (FileName.plain_of_map? belongs))) mapsWritten

/-- Every map of a written assembly has its files, whatever its models are named. -/
theorem mapFiles_of_write {a a' : Assembly}
    (keyed : ∀ (map : UInt32) (m : MapPlan), a.maps[map]? = some m → m.Keyed)
    (written : a.write {} = .ok (.ok (), a', d)) (known : a'.maps[map]? = some m) :
    ∃ before, a.maps[map]? = some before ∧ MapPlan.Settles a.models before m ∧
      MapFiles map m d := by
  obtain ⟨between, maps, models⟩ := writeMaps_of_write keyed written
  obtain ⟨before, stands, settles, files⟩ := maps.origin known
  exact ⟨before, stands, settles, files.frame fun f belongs => lookup?_writeModels belongs models⟩

/-- A map has no file of its own unless the assembly has the map. -/
theorem exists_plan_of_write {a a' : Assembly}
    (keyed : ∀ (map : UInt32) (m : MapPlan), a.maps[map]? = some m → m.Keyed)
    (written : a.write {} = .ok (.ok (), a', d)) {entry : Entry}
    (stands : d.lookup? (treeFileName map) = some entry) : ∃ m, a'.maps[map]? = some m := by
  obtain ⟨between, maps, models⟩ := writeMaps_of_write keyed written
  have belongs : (FileName.tree map).map? = some map := rfl
  by_cases listed : map ∈ a.maps.toList.map Prod.fst
  · obtain ⟨⟨_, m⟩, entry, rfl⟩ := List.mem_map.mp listed
    obtain ⟨settled, known, -⟩ := maps.maps _ m entry
    exact ⟨settled, known⟩
  · -- neither other maps nor models are written to the file of this map
    have missing : between.lookup? (treeFileName map) = none := by
      refine (maps.otherFiles (.tree map) trivial ?_).trans
        (Directory.lookup?_empty (FileName.plainName (f := .tree map) trivial))
      rintro other named ⟨⟩
      exact listed named
    have same := lookup?_writeModels belongs models
    rw [show (FileName.tree map).text = treeFileName map from rfl, stands, missing] at same
    cases same

theorem write_ok {a a' : Assembly}
    (keyed : ∀ (map : UInt32) (m : MapPlan), a.maps[map]? = some m → m.Keyed)
    (plain : ∀ (map : UInt32) (m : MapPlan) (id : UInt32) (p : Placement), a.maps[map]? = some m →
      m.placements[id]? = some p → '/' ∉ p.model.toList)
    (written : a.write {} = .ok (.ok (), a', d)) : Written a a' d := by
  obtain ⟨between, maps, modelsWritten⟩ := writeMaps_of_write keyed written
  have names : ∀ name ∈ a'.placedModels, (FileName.model name).Plain := by
    intro name listed
    obtain ⟨map, m, id, p, known, stands, rfl⟩ := maps.placedModels listed
    exact plain map m id p known stands
  obtain ⟨files, -⟩ := writeModels_ok names modelsWritten
  constructor
  case models => exact maps.models
  case maps =>
    intro map m known
    obtain ⟨m', found, settles, files⟩ := maps.maps map m
      (Std.TreeMap.mem_toList_iff_getElem?_eq_some.mpr known)
    exact ⟨m', found, settles, files.frame fun f belongs => lookup?_writeModels belongs modelsWritten⟩
  case modelFiles =>
    rw [maps.models] at files
    exact files

end Assembly

end Sightline
