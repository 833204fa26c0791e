import Sightline.Proofs.World.Calls
import Sightline.Proofs.World.Slots

/-!
# Assemblies that calls lead to

An assembly is made by adding models and placements and by writing it, also where a writing ends with a
fault and leaves some of the placements settled. Whatever was done, placements stand under their own
numbers.
-/
namespace Sightline.Assembly

/-- What adding and writing can lead to, whether a writing came to its end or not. -/
inductive Reachable : Assembly → Prop
  | empty : Reachable {}
  | addModel {a : Assembly} (reachable : Reachable a) (name : String) (raw : RawModel) :
      Reachable (a.addModel name raw)
  | addPlacement {a : Assembly} (reachable : Reachable a) (map : UInt32) (tile : Tile) (p : Placement) :
      Reachable (a.addPlacement map tile p)
  | write {a a' : Assembly} {d d' : Directory} {outcome : Except Fault Unit} (reachable : Reachable a)
      (written : a.write d = .ok (outcome, a', d')) : Reachable a'

/-- In all maps, placements stand under their own numbers. -/
def Keyed (a : Assembly) : Prop := ∀ (map : UInt32) (m : MapPlan), a.maps[map]? = some m → m.Keyed

variable {a a' : Assembly} {d d' : Directory} {map : UInt32} {m : MapPlan}
  {models : Std.TreeMap String RawModel}

theorem Keyed.insert (keyed : a.Keyed) (new : m.Keyed) (map : UInt32) :
    Keyed { a with maps := a.maps.insert map m } := by
  intro other n known
  rw [getElem?_insert] at known
  split at known
  · cases known
    exact new
  · exact keyed other n known

theorem keyed_add (keyed : m.Keyed) (tile : Tile) (p : Placement) : (m.add tile p).Keyed := by
  intro id q stands
  rw [MapPlan.placements_add, Option.or_eq_some_iff] at stands
  obtain known | ⟨-, new⟩ := stands
  · exact keyed id q known
  · split at new
    next same =>
      cases new
      exact same
    next => cases new

/-- Settled placements keep their numbers, also if a later one cannot be settled. -/
theorem keyed_settleAll {ps : List Placement} (keyed : m.Keyed) :
    MapPlan.Keyed { m with placements := (settleAll models ps m.placements).2 } := by
  induction ps generalizing m with
  | nil => exact keyed
  | cons p rest ih =>
    rw [settleAll]
    split
    · exact keyed
    next q made =>
      refine ih (m := { m with placements := m.placements.insert p.id q }) fun id other stands => ?_
      rw [getElem?_insert] at stands
      split at stands
      next same =>
        cases stands
        exact (settle_id made).trans same
      next => exact keyed id other stands

/-- What the setting of each settled map keeps, writing the maps keeps, whatever it comes to. -/
theorem writeMaps_keeps {P : Assembly → Prop} {list : List (UInt32 × MapPlan)}
    {outcome : Except Fault Unit}
    (kept : ∀ entry ∈ list, ∀ a : Assembly, P a →
      P { a with maps := a.maps.insert entry.1 (entry.2.settledBy a.models) })
    (holds : P a) (written : a.writeMaps d list = .ok (outcome, a', d')) : P a' := by
  -- the induction is on the maps to come; a map is set before a fault in its placements is returned
  induction list generalizing a d with
  | nil =>
    cases written
    exact holds
  | cons entry rest ih =>
    have after := kept entry (.head _) a holds
    obtain ⟨map, m⟩ := entry
    rw [Assembly.writeMaps] at written
    dsimp only at written
    split at written
    · cases written
      exact after
    · obtain ⟨⟨outcome, between⟩, -, following⟩ := bind_eq_ok.mp written
      cases outcome with
      | error fault =>
        cases following
        exact after
      | ok => exact ih (fun entry later => kept entry (.tail _ later)) after following

theorem Keyed.writeMaps {list : List (UInt32 × MapPlan)} {outcome : Except Fault Unit} (keyed : a.Keyed)
    (listed : ∀ entry ∈ list, entry.2.Keyed)
    (written : a.writeMaps d list = .ok (outcome, a', d')) : a'.Keyed :=
  writeMaps_keeps (P := Keyed)
    (fun entry here _ keyed => keyed.insert (keyed_settleAll (listed entry here)) entry.1) keyed written

theorem Keyed.write {outcome : Except Fault Unit} (keyed : a.Keyed)
    (written : a.write d = .ok (outcome, a', d')) : a'.Keyed := by
  obtain ⟨⟨first, after, between⟩, maps, rest⟩ := bind_eq_ok.mp written
  have kept : after.Keyed := keyed.writeMaps (fun entry listed =>
    keyed entry.1 entry.2 (Std.TreeMap.mem_toList_iff_getElem?_eq_some.mp listed)) maps
  cases first with
  | error fault =>
    cases rest
    exact kept
  | ok =>
    obtain ⟨_, -, result⟩ := bind_eq_ok.mp rest
    cases result
    exact kept

theorem Reachable.keyed (reachable : a.Reachable) : a.Keyed := by
  induction reachable with
  | empty =>
    intro map m known
    rw [Std.TreeMap.getElem?_emptyc] at known
    cases known
  | addModel _ name raw ih => exact ih
  | @addPlacement a _ map tile p ih =>
    refine ih.insert (keyed_add ?_ tile p) map
    -- a map that is new has no placements yet
    cases known : a.maps[map]? with
    | none =>
      intro id q stands
      rw [Option.getD_none, Std.TreeMap.getElem?_emptyc] at stands
      cases stands
    | some m => exact ih map m known
  | write _ written ih => exact ih.write written

theorem reachable_ofCalls (calls : List Call) : (ofCalls calls).Reachable := by
  induction calls using List.reverseRecOn with
  | nil => exact .empty
  | append_singleton calls call ih =>
    rw [ofCalls, List.foldl_append]
    cases call with
    | model name raw => exact ih.addModel name raw
    | placement map tile p => exact ih.addPlacement map tile p

end Sightline.Assembly
