import Sightline.Proofs.Hierarchy.Rewriting
import Sightline.Proofs.Mesh.Stored

/-!
# The round trip of a model

A model whose groups were given their meshes, and that was given its groups, is written to the end and
read back with nothing left. All of it comes back but the liquids of groups without vertices.
-/
namespace Sightline

/-! ### What is read back -/

namespace Group

/-- A group as it lasts in a file: without vertices there is no room for a liquid. -/
def lasting (g : Group) : Group := if g.vertices.isEmpty then { g with liquid := none } else g

/-- A group made from a mesh, of the sizes that files can hold. -/
structure Meshed (g : Group) : Prop where
  made : ∃ (start : Group) (vertices : List Vec) (triangles : List Triangle),
    start.withMesh vertices triangles = .ok g
  vertices : g.vertices.size < 2 ^ 28
  triangles : g.triangles.size < 2 ^ 28
  few : g.tree.FewNodes
  liquid : ∀ l ∈ g.liquid, l.Complete ∧ Liquid.cornerCount l.tilesX l.tilesY < 2 ^ 60

variable {g : Group}

theorem Meshed.storable (meshed : g.Meshed) : g.Storable := by
  obtain ⟨start, vertices, triangles, made⟩ := meshed.made
  exact withMesh_storable made meshed.few fun l known => (meshed.liquid l known).1

/-- Without vertices there can be no triangle, and so the tree is empty. -/
theorem Meshed.stored (meshed : g.Meshed) : g.stored = g.lasting := by
  rw [Group.stored, lasting]
  split
  next empty =>
    obtain ⟨start, vertices, triangles, made⟩ := meshed.made
    obtain ⟨boxes, known, built⟩ := withMesh_built made
    obtain ⟨count, corners⟩ := triangleBoxes_eq_ok known
    have noVertices : g.vertices = #[] := Array.isEmpty_iff.mp empty
    have noTriangles : g.triangles = #[] := by
      apply Array.toList_eq_nil_iff.mp
      refine List.eq_nil_iff_forall_not_mem.mpr fun t listed => ?_
      have corner := (corners t listed).1
      rw [noVertices] at corner
      exact absurd corner (Nat.not_lt_zero _)
    -- the tree was built for the boxes of the triangles, and there are none
    have noTree : g.tree = .empty := by
      rw [noTriangles] at count
      rw [List.eq_nil_of_length_eq_zero count] at built
      exact (Except.ok.inj built).symm
    cases g
    simp only at noVertices noTriangles noTree
    rw [noVertices, noTriangles, noTree]
  next => rfl

theorem listHead_written {items : Nat} (fits : items < 2 ^ 28) :
    ∃ bytes, listHead items = .ok bytes := by
  have words : items < UInt32.size := Nat.lt_trans fits (by decide)
  exact ⟨_, listHead_eq_ok.mpr ⟨words, rfl⟩⟩

/-- All of a group is written. -/
theorem Meshed.pieces_written (meshed : g.Meshed) : ∀ piece ∈ g.pieces, ∃ bytes, piece = .ok bytes := by
  obtain ⟨start, vertices, triangles, made⟩ := meshed.made
  obtain ⟨boxes, known, built⟩ := withMesh_built made
  have tree := Output.exists_ofPieces.mp ⟨_, Hierarchy.build_written built meshed.few⟩
  rw [pieces]
  refine List.forall_mem_cons.mpr ⟨⟨_, rfl⟩,
    List.forall_mem_cons.mpr ⟨listHead_written meshed.vertices, ?_⟩⟩
  split
  · exact List.forall_mem_nil _
  · refine List.forall_mem_cons.mpr ⟨⟨_, rfl⟩, List.forall_mem_cons.mpr
      ⟨listHead_written meshed.triangles, List.forall_mem_cons.mpr ⟨⟨_, rfl⟩, ?_⟩⟩⟩
    refine List.forall_mem_append.mpr ⟨tree, ?_⟩
    exact List.forall_mem_singleton.mpr ⟨_, rfl⟩

end Group

/-! ### Models -/

namespace Model

/-- A model as it lasts in a file. -/
def lasting (m : Model) : Model := { m with groups := m.groups.map Group.lasting }

variable {start m : Model} {groups : List Group}

/-- Without groups the tree is empty, as it is in what is read back. -/
theorem stored_eq_lasting (made : start.withGroups groups = .ok m)
    (meshed : ∀ g ∈ groups, g.Meshed) : m.stored = m.lasting := by
  obtain ⟨rfl, built⟩ := withGroups_built made
  rw [stored, lasting]
  split
  next empty =>
    have noGroups : m.groups = #[] := Array.isEmpty_iff.mp empty
    have noTree : m.tree = .empty := by
      rw [noGroups] at built
      exact (Except.ok.inj built).symm
    rw [noGroups, Array.map_empty, ← noGroups, ← noTree]
  next =>
    have same : m.groups.map Group.stored = m.groups.map Group.lasting := by
      apply Array.toList_inj.mp
      simp only [Array.toList_map]
      exact List.map_congr_left fun g listed => (meshed g listed).stored
    rw [same]

theorem pieces_written (made : start.withGroups groups = .ok m) (meshed : ∀ g ∈ groups, g.Meshed)
    (count : groups.length < 2 ^ 28) (few : m.tree.FewNodes) :
    ∀ piece ∈ m.pieces, ∃ bytes, piece = .ok bytes := by
  obtain ⟨rfl, built⟩ := withGroups_built made
  have tree := Output.exists_ofPieces.mp ⟨_, Hierarchy.build_written built few⟩
  have words : m.groups.size < UInt32.size := Nat.lt_trans count (by decide)
  rw [pieces]
  refine List.forall_mem_cons.mpr ⟨⟨_, rfl⟩, ?_⟩
  split
  · exact List.forall_mem_nil _
  · refine List.forall_mem_cons.mpr ⟨⟨_, rfl⟩, List.forall_mem_cons.mpr
      ⟨⟨_, Bytes.counted_eq_ok.mpr ⟨words, rfl⟩⟩, ?_⟩⟩
    refine List.forall_mem_append.mpr ⟨?_, List.forall_mem_cons.mpr ⟨⟨_, rfl⟩, tree⟩⟩
    intro piece listed
    obtain ⟨g, group, inside⟩ := List.mem_flatMap.mp listed
    exact (meshed g group).pieces_written piece inside

/-- A model that was given its groups is written to the end and read back, with no byte left. -/
theorem run_written (made : start.withGroups groups = .ok m) (meshed : ∀ g ∈ groups, g.Meshed)
    (count : groups.length < 2 ^ 28) (few : m.tree.FewNodes) :
    ∃ bytes, Output.ofPieces m.pieces = (bytes, .ok ()) ∧
      reader.run bytes = .ok (m.lasting, []) := by
  obtain ⟨bytes, written⟩ := Output.exists_ofPieces.mpr (pieces_written made meshed count few)
  have storable : m.Storable :=
    withGroups_storable made few fun g listed => (meshed g listed).storable
  refine ⟨bytes, written, ?_⟩
  rw [← stored_eq_lasting made meshed]
  exact run_pieces storable written

/-- A group with a liquid on one tile, to be given a mesh. -/
def shore (bounds : Box) : Group :=
  { bounds, flags := 0, id := 1, liquid := some (.flat 1 1 ⟨0, 0, 0⟩ 0) }

theorem shore_meshed {bounds : Box} {vertices : List Vec} {triangles : List Triangle} {g : Group}
    (made : (shore bounds).withMesh vertices triangles = .ok g) (fewVertices : g.vertices.size < 2 ^ 28)
    (fewTriangles : g.triangles.size < 2 ^ 28) (few : g.tree.FewNodes) : g.Meshed := by
  refine ⟨⟨_, _, _, made⟩, fewVertices, fewTriangles, few, ?_⟩
  rw [Group.withMesh_liquid made]
  intro l known
  cases known
  exact ⟨Liquid.flat_complete _ _ (by decide), by decide⟩

/-- One group has a triangle, so that its liquid is kept; the other has no vertices. -/
theorem run_written_shore :
    ∃ triangle bare m, (shore ⟨⟨0, 0, 0⟩, ⟨1, 1, 0⟩⟩).withMesh
        [⟨0, 0, 0⟩, ⟨1, 0, 0⟩, ⟨0, 1, 0⟩] [⟨0, 1, 2⟩] = .ok triangle ∧
      (shore ⟨⟨3.0, 0, 0⟩, ⟨4.0, 1, 0⟩⟩).withMesh [] [] = .ok bare ∧
      ({ root := 7 } : Model).withGroups [triangle, bare] = .ok m ∧
      (∀ g ∈ [triangle, bare], g.Meshed) ∧ m.tree.FewNodes ∧
      ∃ bytes, Output.ofPieces m.pieces = (bytes, .ok ()) ∧
        reader.run bytes = .ok (m.lasting, []) := by
  have triangle : (shore ⟨⟨0, 0, 0⟩, ⟨1, 1, 0⟩⟩).withMesh
      [⟨0, 0, 0⟩, ⟨1, 0, 0⟩, ⟨0, 1, 0⟩] [⟨0, 1, 2⟩] = .ok _ := rfl
  have bare : (shore ⟨⟨3.0, 0, 0⟩, ⟨4.0, 1, 0⟩⟩).withMesh [] [] = .ok _ := rfl
  refine ⟨_, _, _, triangle, bare, rfl, ?meshed, ?few, run_written rfl ?meshed (by decide) ?few⟩
  case meshed =>
    exact List.forall_mem_cons.mpr
      ⟨shore_meshed triangle (by decide) (by decide) (by decide +kernel),
        List.forall_mem_singleton.mpr (shore_meshed bare (by decide) (by decide) (by decide))⟩
  case few => decide +kernel

end Model

end Sightline
