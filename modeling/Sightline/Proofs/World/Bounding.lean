import Sightline.Proofs.Geometry.Hull
import Sightline.Proofs.World.Again
import Sightline.Proofs.World.Global

/-!
# Boxes around placed models

A doodad, and any placement without a box, gets the hull of its model's vertices when its assembly is
written: each vertex turned, scaled and moved as the placement is. It keeps the box also if the writing
fails later. A model without vertices has no hull, and ends the writing.
-/
namespace Sightline

open MapTree (boulder)

/-- Where a point of the model is on the map. -/
def Placement.placed (p : Placement) (v : Vec) : Vec :=
  (Matrix.ofPlacement p.angles).apply (v.scale p.scale) + p.position

namespace Assembly

variable {a a' : Assembly} {d d' : Directory} {map : UInt32} {m : MapPlan} {p : Placement}
  {models : Std.TreeMap String RawModel} {raw : RawModel} {fault : Fault}

/-! ### One placement -/

theorem exists_hull_of_boundByModel (finite : p.position.isFinite = true)
    (vertices : raw.vertices ≠ []) :
    ∃ q, boundByModel p raw = .ok q ∧ q.bounds.IsHull (raw.vertices.map p.placed) := by
  rw [boundByModel]
  cases around : hull? (raw.vertices.map fun v => (Matrix.ofPlacement p.angles).apply (v.scale p.scale))
  case none => exact absurd (List.map_eq_nil_iff.mp (Box.hull?_eq_none_iff.mp around)) vertices
  case some box =>
    have moved := (Box.isHull_of_hull? around).translate finite
    rw [List.map_map] at moved
    exact ⟨_, rfl, moved⟩

theorem boundByModel_of_no_vertices (bare : raw.vertices = []) :
    boundByModel p raw = .error (.corruptModel (.noGeometry p.model)) := by
  rw [boundByModel, bare]
  rfl

theorem settle_eq_boundByModel (unbounded : p.Has Placement.doodad ∨ ¬p.Has Placement.bounded)
    (known : models[p.model]? = some raw) : settle models p = boundByModel p raw := by
  rw [settle, if_pos unbounded, known]

/-! ### Maps after each other -/

theorem writeMaps_append {before : List (UInt32 × MapPlan)}
    (written : a.writeMaps d before = .ok (.ok (), a', d')) (rest : List (UInt32 × MapPlan)) :
    a.writeMaps d (before ++ rest) = a'.writeMaps d' rest := by
  induction before generalizing a d with
  | nil =>
    cases written
    rfl
  | cons entry before ih =>
    obtain ⟨settled, between, first, following⟩ := exists_writeMap_of_cons written
    rw [List.cons_append, writeMaps_cons settled first]
    exact ih following

/-- If all maps are written, then so are the first of them. -/
theorem exists_writeMaps_of_append {before rest : List (UInt32 × MapPlan)}
    (written : a.writeMaps d (before ++ rest) = .ok (.ok (), a', d')) :
    ∃ state, a.writeMaps d before = .ok (.ok (), state) := by
  induction before generalizing a d with
  | nil => exact ⟨_, rfl⟩
  | cons entry before ih =>
    obtain ⟨settled, between, first, following⟩ := exists_writeMap_of_cons written
    rw [writeMaps_cons settled first]
    exact ih following

theorem models_writeMaps {list : List (UInt32 × MapPlan)} {outcome : Except Fault Unit}
    (written : a.writeMaps d list = .ok (outcome, a', d')) : a'.models = a.models :=
  writeMaps_keeps (P := fun b => b.models = a.models) (fun _ _ _ same => same) rfl written

/-- The map that is written first has its placements settled, whatever comes of it and the others. -/
theorem getElem?_writeMaps_cons {rest : List (UInt32 × MapPlan)} {outcome : Except Fault Unit}
    (new : map ∉ rest.map Prod.fst)
    (written : a.writeMaps d ((map, m) :: rest) = .ok (outcome, a', d')) :
    a'.maps[map]? = some (m.settledBy a.models) := by
  have set : ({ a with maps := a.maps.insert map (m.settledBy a.models) } : Assembly).maps[map]? =
      some (m.settledBy a.models) := Std.TreeMap.getElem?_insert_self
  rw [writeMaps] at written
  dsimp only at written
  split at written
  · cases written
    exact set
  · obtain ⟨⟨outcome, between⟩, -, following⟩ := bind_eq_ok.mp written
    cases outcome with
    | error fault =>
      cases following
      exact set
    | ok =>
      refine writeMaps_keeps (P := fun b => b.maps[map]? = some (m.settledBy a.models)) ?_ set following
      intro entry listed b stands
      rw [getElem?_insert, if_neg, stands]
      rintro rfl
      exact new (List.mem_map_of_mem listed)

/-! ### How far a writing comes -/

/-- Writing comes to a placement if the maps before its own can be written, and the placements before
it on its own map can be settled. -/
structure ComesTo (a : Assembly) (d : Directory) (map : UInt32) (m : MapPlan) (p : Placement) :
    Prop where
  maps : ∃ before after written, a.maps.toList = before ++ (map, m) :: after ∧
    a.writeMaps d before = .ok (.ok (), written)
  placements : ∃ earlier later, m.placements.values = earlier ++ p :: later ∧
    ∀ e ∈ earlier, ∃ q, settle a.models e = .ok q

variable {q : Placement} {outcome : Except Fault Unit} {id : UInt32}

theorem ComesTo.exists_settleAll (comes : a.ComesTo d map m p) :
    ∃ earlier later between, m.placements.values = earlier ++ p :: later ∧
      settleAll a.models m.placements.values m.placements = settleAll a.models (p :: later) between := by
  obtain ⟨earlier, later, same, settled⟩ := comes.placements
  obtain ⟨between, following⟩ := exists_settleAll_append m.placements settled
  exact ⟨earlier, later, between, same, by rw [same, following]⟩

theorem ComesTo.settleAll_of_error (comes : a.ComesTo d map m p)
    (failed : settle a.models p = .error fault) :
    (settleAll a.models m.placements.values m.placements).1 = .error fault := by
  obtain ⟨-, later, between, -, following⟩ := comes.exists_settleAll
  rw [following, settleAll, failed]

theorem ComesTo.getElem?_settledBy (comes : a.ComesTo d map m p) (keyed : m.Keyed)
    (made : settle a.models p = .ok q) : (m.settledBy a.models).placements[p.id]? = some q := by
  obtain ⟨earlier, later, between, same, following⟩ := comes.exists_settleAll
  have distinct : (m.placements.values.map Placement.id).Nodup := by
    rw [keyed.map_id]
    exact Std.TreeMap.nodup_keys
  rw [same, List.map_append, List.map_cons] at distinct
  have last : p.id ∉ later.map Placement.id := (List.nodup_cons.mp distinct.of_append_right).1
  rw [MapPlan.settledBy, following, settleAll, made]
  exact (settleAll_getElem?_of_not_mem _ last).trans Std.TreeMap.getElem?_insert_self

theorem ComesTo.exists_writeMaps (comes : a.ComesTo d map m p) :
    ∃ (after : List (UInt32 × MapPlan)) (b : Assembly) (between : Directory),
      map ∉ after.map Prod.fst ∧ b.models = a.models ∧
      a.writeMaps d a.maps.toList = b.writeMaps between ((map, m) :: after) := by
  obtain ⟨before, after, ⟨b, between⟩, same, written⟩ := comes.maps
  have distinct := nodup_fst_toList a.maps
  rw [same, List.map_append, List.map_cons] at distinct
  have following : a.writeMaps d a.maps.toList = b.writeMaps between ((map, m) :: after) := by
    rw [same, writeMaps_append written]
  exact ⟨after, b, between, (List.nodup_cons.mp distinct.of_append_right).1,
    models_writeMaps written, following⟩

theorem exists_writeMaps_of_write (written : a.write d = .ok (outcome, a', d')) :
    ∃ first between, a.writeMaps d a.maps.toList = .ok (first, a', between) ∧
      (outcome = .ok () → first = .ok ()) := by
  obtain ⟨⟨first, b, between⟩, maps, rest⟩ := bind_eq_ok.mp written
  cases first with
  | error fault =>
    cases rest
    exact ⟨_, _, maps, nofun⟩
  | ok =>
    obtain ⟨_, -, result⟩ := bind_eq_ok.mp rest
    cases result
    exact ⟨_, _, maps, fun _ => rfl⟩

theorem ComesTo.getElem?_write (comes : a.ComesTo d map m p)
    (written : a.write d = .ok (outcome, a', d')) : a'.maps[map]? = some (m.settledBy a.models) := by
  obtain ⟨after, b, between, new, models, following⟩ := comes.exists_writeMaps
  obtain ⟨first, last, maps, -⟩ := exists_writeMaps_of_write written
  rw [following] at maps
  rw [← models]
  exact getElem?_writeMaps_cons new maps

theorem ComesTo.write_of_error (comes : a.ComesTo d map m p)
    (failed : settle a.models p = .error fault) : ∃ a' d', a.write d = .ok (.error fault, a', d') := by
  obtain ⟨after, b, between, -, models, following⟩ := comes.exists_writeMaps
  have stuck := comes.settleAll_of_error failed
  rw [write, following, writeMaps, models]
  dsimp only
  rw [stuck]
  exact ⟨_, _, rfl⟩

/-- A writing without a fault comes to every placement. -/
theorem comesTo_of_write (keyed : a.Keyed) (known : a.maps[map]? = some m)
    (stands : m.placements[id]? = some p) (written : a.write d = .ok (.ok (), a', d')) :
    a.ComesTo d map m p := by
  constructor
  case maps =>
    have listed := Std.TreeMap.mem_toList_iff_getElem?_eq_some.mpr known
    obtain ⟨before, after, same⟩ := List.append_of_mem listed
    obtain ⟨first, between, maps, done⟩ := exists_writeMaps_of_write written
    rw [done rfl, same] at maps
    obtain ⟨state, earlier⟩ := exists_writeMaps_of_append maps
    exact ⟨before, after, state, same, earlier⟩
  case placements =>
    obtain ⟨earlier, later, same⟩ := List.append_of_mem ((mem_values _).mpr ⟨id, stands⟩)
    refine ⟨earlier, later, same, fun e listed => ?_⟩
    obtain ⟨first, between, maps, -⟩ := exists_writeMaps_of_write written
    obtain ⟨n, -, settles⟩ := exists_settled_of_write keyed written known
    have here : e ∈ m.placements.values := same ▸ List.mem_append_left _ listed
    obtain ⟨other, found⟩ := (mem_values _).mp here
    obtain ⟨q, made, -⟩ := settles.found other e found
    rw [models_writeMaps maps] at made
    exact ⟨q, made⟩

/-- A box that comes from a model is the hull of the placed vertices, and stays if the writing fails
after it was made. Without vertices the writing fails. -/
theorem write_hulls (reachable : a.Reachable) (known : a.maps[map]? = some m)
    (stands : m.placements[id]? = some p)
    (unbounded : p.Has Placement.doodad ∨ ¬p.Has Placement.bounded)
    (modelled : a.models[p.model]? = some raw) :
    (raw.vertices ≠ [] → p.position.isFinite = true →
      ∃ q, settle a.models p = .ok q ∧
        q = { p with bounds := q.bounds, flags := p.flags ||| Placement.bounded } ∧
        q.Has Placement.bounded ∧ q.bounds.IsHull (raw.vertices.map p.placed) ∧
        ∀ outcome a' d', a.write d = .ok (outcome, a', d') →
          outcome = .ok () ∨ a.ComesTo d map m p →
            ∃ m', a'.maps[map]? = some m' ∧ m'.placements[id]? = some q) ∧
    (raw.vertices = [] →
      (∀ a' d', a.write d ≠ .ok (.ok (), a', d')) ∧
      (a.ComesTo d map m p →
        ∃ a' d', a.write d = .ok (.error (.corruptModel (.noGeometry p.model)), a', d'))) := by
  have keyed := reachable.keyed
  have settling := settle_eq_boundByModel unbounded modelled
  constructor
  · intro vertices finite
    obtain ⟨q, made, hull⟩ := exists_hull_of_boundByModel finite vertices
    rw [← settling] at made
    refine ⟨q, made, settle_eq made, settle_has made, hull, fun outcome a' d' written reached => ?_⟩
    have comes : a.ComesTo d map m p := by
      rcases reached with rfl | comes
      · exact comesTo_of_write keyed known stands written
      · exact comes
    have here := comes.getElem?_settledBy (keyed map m known) made
    rw [keyed map m known id p stands] at here
    exact ⟨_, comes.getElem?_write written, here⟩
  · intro bare
    have failed := settling.trans (boundByModel_of_no_vertices bare)
    refine ⟨fun a' d' written => ?_, fun comes => comes.write_of_error failed⟩
    obtain ⟨_, _, failure⟩ := (comesTo_of_write keyed known stands written).write_of_error failed
    rw [failure] at written
    cases written

/-- A boulder that is turned, twice as large, and away from the corner of its map. -/
def turnedBoulder : Placement :=
  { flags := 0, id := 4, position := ⟨5, 0, 3⟩, angles := ⟨0, 30, 0⟩, scale := 2,
    model := "boulder" }

/-- A doodad without vertices. -/
def mist : Placement := { flags := Placement.doodad, id := 9, model := "mist" }

def moor : List Call :=
  [.model "boulder" boulder, .model "mist" ⟨7, []⟩,
    .placement 0 ⟨1, 2⟩ mist, .placement 0 ⟨1, 2⟩ turnedBoulder]

/-- The boulder has its box when the writing ends at the mist. -/
theorem write_hulls_moor : (ofCalls moor).Reachable ∧
    ∃ a d m' q, (ofCalls moor).write {} = .ok (.error (.corruptModel (.noGeometry "mist")), a, d) ∧
      a.maps[(0 : UInt32)]? = some m' ∧ m'.placements[(4 : UInt32)]? = some q ∧
      q.Has Placement.bounded ∧ q.bounds.IsHull (boulder.vertices.map turnedBoulder.placed) := by
  have reachable := reachable_ofCalls moor
  have keys : (ofCalls moor).maps.keys = [0] := by decide +kernel
  have placements : ((ofCalls moor).maps[(0 : UInt32)]?.map fun m => m.placements.toList) =
      some [(4, turnedBoulder), (9, mist)] := by
    decide +kernel
  have models : (ofCalls moor).models["boulder"]? = some boulder ∧
      (ofCalls moor).models["mist"]? = some ⟨7, []⟩ := by
    decide +kernel
  rw [← Std.TreeMap.map_fst_toList_eq_keys, List.map_eq_singleton_iff] at keys
  obtain ⟨⟨_, m⟩, maps, rfl⟩ := keys
  have known : (ofCalls moor).maps[(0 : UInt32)]? = some m := by
    rw [← Std.TreeMap.mem_toList_iff_getElem?_eq_some, maps]
    exact .head _
  rw [known, Option.map_some, Option.some.injEq] at placements
  have stands (id : UInt32) (p : Placement) (listed : (id, p) ∈ [(4, turnedBoulder), (9, mist)]) :
      m.placements[id]? = some p := by
    rwa [← Std.TreeMap.mem_toList_iff_getElem?_eq_some, placements]
  have values : m.placements.values = [turnedBoulder, mist] := by
    rw [values_eq_map, placements]
    rfl
  -- there is no map before this one, and no placement before the boulder
  have first : ∃ before after written, (ofCalls moor).maps.toList = before ++ (0, m) :: after ∧
      (ofCalls moor).writeMaps {} before = .ok (.ok (), written) := ⟨[], [], _, maps, rfl⟩
  have comesToBoulder : (ofCalls moor).ComesTo {} 0 m turnedBoulder :=
    ⟨first, [], [mist], values, nofun⟩
  obtain ⟨q, made, -, bounded, hull, kept⟩ :=
    (write_hulls reachable known (stands 4 turnedBoulder (.head _)) (.inr (by decide)) models.1).1
      (by decide) (by decide)
  have comesToMist : (ofCalls moor).ComesTo {} 0 m mist := by
    refine ⟨first, [turnedBoulder], [], values, fun e listed => ?_⟩
    rw [List.mem_singleton] at listed
    exact ⟨q, listed ▸ made⟩
  obtain ⟨a, d, written⟩ :=
    ((write_hulls reachable known (stands 9 mist (.tail _ (.head _))) (.inl (by decide)) models.2).2
      rfl).2 comesToMist
  obtain ⟨m', after, placed⟩ := kept _ a d written (.inr comesToBoulder)
  exact ⟨reachable, a, d, m', q, written, after, placed, bounded, hull⟩

end Assembly

end Sightline
