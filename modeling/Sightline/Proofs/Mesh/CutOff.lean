import Sightline.Proofs.Mesh.Overfull
import Sightline.Proofs.Mesh.RoundTrip

/-!
# Models that were cut off

The file of a model that was built from meshes is found truncated wherever it is cut off, with one
exception: what is left of it may be just its head, which is all of the file of a model without groups.
This holds as long as the places of nodes fit their 29 bits. A tree of more nodes may be found corrupt where
all of it is left.
-/
namespace Sightline

open Reader

variable {refuses : Fault → Prop}

/-- A group that was given a mesh, with a liquid that covers its grid if it has one. -/
structure Group.Made (g : Group) : Prop where
  mesh : ∃ (start : Group) (vertices : List Vec) (triangles : List Triangle),
    start.withMesh vertices triangles = .ok g
  liquid : ∀ l ∈ g.liquid, l.Complete

theorem Group.Made.fileable {g : Group} (made : g.Made)
    (refusesMany : ¬g.tree.FewNodes → ∀ flaw, refuses (.corruptTree flaw)) : g.Fileable refuses := by
  obtain ⟨start, vertices, triangles, mesh⟩ := made.mesh
  obtain ⟨boxes, known, built⟩ := withMesh_built mesh
  obtain ⟨count, corners⟩ := triangleBoxes_eq_ok known
  have objects := Hierarchy.build_checkObjects built
  rw [count, Array.length_toList] at objects
  exact ⟨corners, Hierarchy.matches_of_built built refusesMany, objects, made.liquid⟩

namespace Model

variable {start m : Model} {groups : List Group} {front : List UInt8}

/-- The faults of a tree whose nodes are too many for the bits of their places. -/
def Overfull (m : Model) (fault : Fault) : Prop := ¬m.FewNodes ∧ ∃ flaw, fault = .corruptTree flaw

theorem fileable_of_made (made : start.withGroups groups = .ok m) (meshes : ∀ g ∈ groups, g.Made) :
    m.Fileable m.Overfull := by
  obtain ⟨rfl, built⟩ := withGroups_built made
  have objects := Hierarchy.build_checkObjects built
  rw [List.length_map, Array.length_toList] at objects
  constructor
  case groups =>
    intro g listed
    exact (meshes g listed).fileable fun many flaw => ⟨fun few => many (few.groups g listed), flaw, rfl⟩
  case tree =>
    exact Hierarchy.matches_of_built built fun many flaw => ⟨fun few => many few.tree, flaw, rfl⟩
  case objects => exact objects

theorem length_head (m : Model) : m.head.length = 20 := by
  simp only [head, List.length_append, Bytes.ofNat, Bytes.ofWord, List.length_cons, List.length_nil]
  decide

theorem shore_made {bounds : Box} {vertices : List Vec} {triangles : List Triangle} {g : Group}
    (made : (shore bounds).withMesh vertices triangles = .ok g) : g.Made := by
  refine ⟨⟨_, _, _, made⟩, ?_⟩
  rw [Group.withMesh_liquid made]
  intro l known
  cases known
  exact Liquid.flat_complete _ _ (by decide)

/-- For trees of any size, what is left of the file of a model is found truncated or is just its head,
or else it is refused for a tree of too many nodes. -/
theorem run_front_or_refused (made : start.withGroups groups = .ok m) (meshes : ∀ g ∈ groups, g.Made)
    (cut : front <+: m.toBytes) (less : front ≠ m.toBytes) :
    reader.run front =
        (if front.length = 20 then .ok ({ root := m.root }, []) else .error .truncated) ∨
      ¬m.FewNodes ∧ ∃ flaw, reader.run front = .error (.corruptTree flaw) := by
  have whole : m.toBytes =
      m.head ++ (Output.ofPieces (if m.groups.isEmpty then [] else m.bodyPieces)).1 := rfl
  rw [whole] at cut less
  rw [reader_eq]
  obtain ⟨within, part⟩ | ⟨back, behind, rfl⟩ := front_append_cases cut
  · -- within the head nothing depends on what follows it
    have short : ¬front.length = 20 := by
      intro same
      exact part (within.eq_of_length (same.trans m.length_head.symm))
    rw [if_neg short, StateT.run_bind]
    have head : Matches (fun _ => False) headReader (.known m.head) m.root := matches_head m
    have truncated := head.cut front ⟨within, fun _ => part⟩
    exact .inl truncated.bind_error.eq
  · rw [(matches_head m).reads.run_bind_eq, List.length_append, m.length_head]
    by_cases headOnly : back = []
    · rw [headOnly, run_restReader_nil]
      exact .inl rfl
    · have long : ¬20 + back.length = 20 := by
        have positive := List.length_pos_iff.mpr headOnly
        omega
      rw [if_neg long, run_restReader headOnly]
      split at behind
      next => exact absurd (List.prefix_nil.mp behind) headOnly
      next filled =>
        rw [if_neg filled] at less
        have cutBody : (Output.ofPieces m.bodyPieces).CutTo back := by
          refine ⟨behind, fun _ same => less ?_⟩
          rw [same]
        obtain truncated | ⟨fault, ⟨many, flaw, rfl⟩, refused⟩ :=
          (matches_bodyPieces (fileable_of_made made meshes) filled).cut back cutBody
        · exact .inl truncated
        · exact .inr ⟨many, flaw, refused⟩

/-- Wherever the file of a model is cut off, it is found truncated, unless just its head is left: that is
the file of a model without groups. -/
theorem run_front (made : start.withGroups groups = .ok m) (meshes : ∀ g ∈ groups, g.Made)
    (few : m.FewNodes) (cut : front <+: m.toBytes) (less : front ≠ m.toBytes) :
    reader.run front =
      if front.length = 20 then .ok ({ root := m.root }, []) else .error .truncated := by
  obtain found | ⟨many, -⟩ := run_front_or_refused made meshes cut less
  · exact found
  · exact absurd few many

/-- A shore with one triangle. -/
def sandyShore : Group :=
  { shore ⟨⟨0, 0, 0⟩, ⟨1, 1, 0⟩⟩ with
    vertices := #[⟨0, 0, 0⟩, ⟨1, 0, 0⟩, ⟨0, 1, 0⟩]
    triangles := #[⟨0, 1, 2⟩]
    tree := ⟨#[.leaf 0 1], #[0], ⟨⟨0, 0, 0⟩, ⟨1, 1, 0⟩⟩⟩ }

/-- A shore without vertices. -/
def bareShore : Group := shore ⟨⟨3.0, 0, 0⟩, ⟨4.0, 1, 0⟩⟩

def twoShores : Model :=
  { root := 7
    groups := #[sandyShore, bareShore]
    tree := ⟨#[.split .x 1 1 3.0, .leaf 0 1, .leaf 1 1], #[0, 1], ⟨⟨0, 0, 0⟩, ⟨4.0, 1, 0⟩⟩⟩ }

/-- After 100 bytes the file of the two shores is truncated, and after 20 it has just its head. -/
theorem run_front_twoShores :
    ({ root := 7 } : Model).withGroups [sandyShore, bareShore] = .ok twoShores ∧
      (∀ g ∈ [sandyShore, bareShore], g.Made) ∧ twoShores.FewNodes ∧
      reader.run (twoShores.toBytes.take 100) = .error .truncated ∧
      reader.run (twoShores.toBytes.take 20) = .ok ({ root := 7 }, []) := by
  have made : ({ root := 7 } : Model).withGroups [sandyShore, bareShore] = .ok twoShores := by
    decide +kernel
  have sandy : (shore ⟨⟨0, 0, 0⟩, ⟨1, 1, 0⟩⟩).withMesh
      [⟨0, 0, 0⟩, ⟨1, 0, 0⟩, ⟨0, 1, 0⟩] [⟨0, 1, 2⟩] = .ok sandyShore := by decide +kernel
  have bare : (shore ⟨⟨3.0, 0, 0⟩, ⟨4.0, 1, 0⟩⟩).withMesh [] [] = .ok bareShore := by decide +kernel
  have meshes : ∀ g ∈ [sandyShore, bareShore], g.Made :=
    List.forall_mem_cons.mpr ⟨shore_made sandy, List.forall_mem_singleton.mpr (shore_made bare)⟩
  have few : twoShores.FewNodes := by decide +kernel
  exact ⟨made, meshes, few,
    run_front made meshes few (List.take_prefix 100 _) (by decide +kernel),
    run_front made meshes few (List.take_prefix 20 _) (by decide +kernel)⟩

/-- A block of `2 ^ 28` cells. -/
def wideBlock : Hierarchy.Block := ⟨fun _ => 0, perAxis 10 9 9⟩

/-- The file of a model with one triangle in each cell of the wide block, cut off behind the tree of its
group, is not found truncated: the tree is found corrupt. -/
theorem run_front_wideBlock :
    ∃ g m front, (shore .zero).withMesh wideBlock.points wideBlock.triangles = .ok g ∧ g.Made ∧
      ({ root := 7 } : Model).withGroups [g] = .ok m ∧ front <+: m.toBytes ∧ front ≠ m.toBytes ∧
      ∃ flaw, reader.run front = .error (.corruptTree flaw) := by
  have small : wideBlock.Small := by decide
  have fewPoints : wideBlock.points.length < UInt32.size := by
    rw [Hierarchy.Block.length_points]
    decide
  obtain ⟨g, mesh, flaw, stops⟩ := Hierarchy.Block.exists_overfull small rfl fewPoints (shore .zero)
  have made : ({ root := 7 } : Model).withGroups [g] =
      .ok { root := 7, groups := #[g], tree := .single g.bounds } := by
    have tree : Hierarchy.build ([g].map Group.bounds) 1 = .ok (.single g.bounds) :=
      Hierarchy.build_one g.bounds (Nat.le_refl 1)
    rw [withGroups, tree]
    rfl
  have one : 1 < UInt32.size := by decide
  obtain ⟨front, cut, less, refused⟩ := stops_at_group (m := ⟨7, #[g], .single g.bounds⟩) rfl one stops
  exact ⟨g, _, front, mesh, shore_made mesh, made, cut, less, flaw,
    (congrArg reader.run (List.append_nil front)).symm.trans (refused [])⟩

end Model

end Sightline
