import Sightline.Proofs.Hierarchy.Halving
import Sightline.Proofs.Hierarchy.Oversized
import Sightline.Proofs.Hierarchy.OneLeaf
import Sightline.Proofs.Mesh.Stored

/-!
# Meshes with overfull trees

A mesh may have fewer triangles than a hierarchy may have objects, and still so many that the places of
nodes do not fit their bits. Triangles on a lattice make such a mesh: one in each cell of a large block.
The model of a group with such a mesh is written to its end. But its reader gives up at the tree of the
group, whatever follows it.
-/
namespace Sightline

open Reader

/-! ### Trees that are refused -/

/-- If the tree of a group is refused, the reader stops within the group. -/
theorem Group.stops_at_tree {g : Group} {bytes : List UInt8} {fault : Fault}
    (corners : ∀ t ∈ g.triangles.toList,
      t.a < g.vertices.size ∧ t.b < g.vertices.size ∧ t.c < g.vertices.size)
    (filled : ¬g.vertices.isEmpty = true) (fewVertices : g.vertices.size < UInt32.size)
    (fewTriangles : g.triangles.size < UInt32.size)
    (written : Output.ofPieces g.tree.pieces = (bytes, .ok ()))
    (refused : ∀ rest, Hierarchy.reader.run (bytes ++ rest) = .error fault) :
    Stops fault reader (Output.ofPieces g.pieces) := by
  have some : g.vertices.size ≠ 0 := by simpa using filled
  have vertices : Matches (fun _ => False) (array g.vertices.size vec)
      (.known (g.vertices.toList.flatMap Bytes.ofVec)) g.vertices.toList :=
    matches_items rfl fun vertex _ => matches_vec vertex
  have triangles : Matches (fun _ => False) (array g.triangles.size triangleReader)
      (.known (g.triangles.toList.flatMap triangleBytes)) g.triangles.toList :=
    matches_items rfl fun t listed => matches_triangleBytes fewVertices (corners t listed)
  have known : Output.ofPieces g.tree.pieces = .known bytes := written
  rw [pieces, listHead_eq_ok.mpr ⟨fewVertices, rfl⟩, listHead_eq_ok.mpr ⟨fewTriangles, rfl⟩,
    if_neg filled]
  simp only [Output.ofPieces_ok_cons, Output.ofPieces_append_eq, List.append_assoc,
    Output.known_append_andThen, known]
  -- whatever stands in front of the tree is read
  refine .later (matches_box g.bounds) (.later (matches_word g.flags) (.later (matches_word g.id)
    (.later (matches_label "VERT") (.later (matches_word _) (.later (matches_nat fewVertices) ?_)))))
  rw [if_neg some]
  refine .later vertices (.later (matches_label "TRIM") (.later (matches_word _)
    (.later (matches_nat fewTriangles) (.later triangles (.check (checkVertices_eq_ok corners)
      (.later (matches_label "MBIH") ?_))))))
  -- behind the tree stands at least the tag of the liquid
  exact .part refused (List.append_ne_nil_of_left_ne_nil (by decide) _)

/-- If the first group of a model stops its reader, it stops that of the model. -/
theorem Model.stops_at_group {m : Model} {g : Group} {others : List Group} {fault : Fault}
    (first : m.groups.toList = g :: others) (fits : m.groups.size < UInt32.size)
    (stops : Stops fault Group.reader (Output.ofPieces g.pieces)) :
    Stops fault reader (Output.ofPieces m.pieces) := by
  have filled : ¬m.groups.isEmpty = true := by
    rw [Array.isEmpty_iff]
    rintro none
    rw [none] at first
    cases first
  have size : m.groups.size = others.length + 1 := by
    rw [← Array.length_toList, first]
    rfl
  have body : Stops fault (bodyReader m.root)
      (Output.ofPieces (Bytes.counted m.groups.size [] ::
        (m.groups.toList.flatMap Group.pieces ++ .ok (Text.toBytes "GBIH") :: m.tree.pieces))) := by
    rw [Bytes.counted_eq_ok.mpr ⟨fits, rfl⟩, List.append_nil, first, List.flatMap_cons,
      Output.ofPieces_ok_cons, Output.ofPieces_append_eq, Output.ofPieces_append_eq]
    refine .later (matches_nat fits) ?_
    rw [size]
    exact .within (.within stops _) _
  rw [pieces_eq, if_neg filled, reader_eq, Output.ofPieces_ok_cons, bodyPieces,
    Output.ofPieces_ok_cons]
  refine .later (matches_head m) (body.behind fun rest => ?_)
  -- the tag of the groups is there, so that the file is not taken for one without groups
  rw [run_restReader (List.append_ne_nil_of_left_ne_nil (by decide) rest),
    (reads_label "GMOD").run_bind_eq]

/-! ### Triangles on a lattice -/

namespace Hierarchy.Block

variable {b : Block} {place corner : Axis → Nat}

/-- The corners of the cells. -/
def points (b : Block) : List Vec :=
  (places b.first fun axis => 2 ^ b.levels axis + 1).map fun corner => .whole fun axis => 2 * corner axis

/-- The number of a corner. -/
def numberOf (b : Block) (corner : Axis → Nat) : Nat :=
  b.points.idxOf (.whole fun axis => 2 * corner axis)

/-- The next corner on the first axis. -/
def beside (place : Axis → Nat) : Axis → Nat := Function.update place .x (place .x + 1)

theorem beside_eq (place : Axis → Nat) (axis : Axis) :
    beside place axis = place axis ∨ beside place axis = place axis + 1 := by
  by_cases onX : axis = .x
  · subst onX
    exact .inr (Function.update_self ..)
  · exact .inl (Function.update_of_ne onX ..)

/-- A triangle across a cell, from its first corner to the last one. -/
def triangle (b : Block) (place : Axis → Nat) : Triangle :=
  ⟨b.numberOf place, b.numberOf (beside place), b.numberOf fun axis => place axis + 1⟩

def triangles (b : Block) : List Triangle :=
  (places b.first fun axis => 2 ^ b.levels axis).map b.triangle

theorem fetch_point (inside : ∀ axis, b.first axis ≤ corner axis ∧ corner axis ≤ b.next axis) :
    fetch b.points.toArray (b.numberOf corner) = .ok (.whole fun axis => 2 * corner axis) := by
  have listed : (.whole fun axis => 2 * corner axis) ∈ b.points := by
    refine List.mem_map.mpr ⟨corner, mem_places.mpr fun axis => ⟨(inside axis).1, ?_⟩, rfl⟩
    exact Nat.lt_succ_of_le (inside axis).2
  rw [fetch_eq_ok, List.getElem?_toArray]
  exact List.getElem?_idxOf listed

theorem corners_triangle (inside : b.Has place) :
    (b.triangle place).corners b.points.toArray =
      .ok ⟨.whole fun axis => 2 * place axis, .whole fun axis => 2 * beside place axis,
        .whole fun axis => 2 * (place axis + 1)⟩ := by
  have second (axis : Axis) : b.first axis ≤ beside place axis ∧ beside place axis ≤ b.next axis := by
    have within := inside axis
    have near := beside_eq place axis
    omega
  rw [Triangle.corners, triangle]
  simp only
  rw [fetch_point fun axis => ⟨(inside axis).1, (inside axis).2.le⟩, fetch_point second,
    fetch_point fun axis => ⟨Nat.le_succ_of_le (inside axis).1, (inside axis).2⟩]
  rfl

/-- The box of a triangle is its cell. -/
theorem bounds_triangle (small : b.Small) (inside : b.Has place) :
    Corners.bounds ⟨.whole fun axis => 2 * place axis, .whole fun axis => 2 * beside place axis,
      .whole fun axis => 2 * (place axis + 1)⟩ = .cell place := by
  refine Box.ext_get fun axis => ?_
  have bound := inside.small small axis
  -- the second corner shares its coordinate with one of the other two
  have near := beside_eq place axis
  simp only [Corners.bounds, Box.cell, Vec.min_get, Vec.max_get, Vec.whole_get]
  rw [Single.min_ofNat (by omega) (by omega), Single.min_ofNat (by omega) (by omega),
    Single.max_ofNat (by omega) (by omega), Single.max_ofNat (by omega) (by omega)]
  have low : min (min (2 * place axis) (2 * beside place axis)) (2 * (place axis + 1)) =
      2 * place axis := by omega
  have high : max (max (2 * place axis) (2 * beside place axis)) (2 * (place axis + 1)) =
      2 * (place axis + 1) := by omega
  rw [low, high]
  exact ⟨rfl, rfl⟩

theorem triangleBoxes_triangles (small : b.Small) :
    Group.triangleBoxes b.points.toArray b.triangles = .ok b.cells := by
  rw [Group.triangleBoxes, mapM_eq_ok, triangles, cells, List.forall₂_map_left_iff,
    List.forall₂_map_right_iff, List.forall₂_same]
  intro place listed
  have inside : b.Has place := mem_places.mp listed
  rw [corners_triangle inside]
  exact congrArg Except.ok (bounds_triangle small inside)

theorem length_points (b : Block) : b.points.length =
    (2 ^ b.levels .x + 1) * ((2 ^ b.levels .y + 1) * (2 ^ b.levels .z + 1)) := by
  rw [points, List.length_map, length_places]

theorem length_triangles (b : Block) : b.triangles.length = 2 ^ b.depth := by
  rw [triangles, List.length_map, ← length_cells, cells, List.length_map]

/-- A group is given the mesh of a block of `2 ^ 28` cells, and its reader stops at the tree. -/
theorem exists_overfull (small : b.Small) (high : b.depth = 28)
    (fewPoints : b.points.length < UInt32.size) (start : Group) :
    ∃ g, start.withMesh b.points b.triangles = .ok g ∧
      ∃ flaw, Stops (.corruptTree flaw) Group.reader (Output.ofPieces g.pieces) := by
  obtain ⟨h, built, size⟩ : ∃ h, build b.cells defaultLeafSize = .ok h ∧ h.nodes.size + 1 = 2 ^ 28 :=
    exists_build_cells small high (by decide) (by decide) (by decide)
  have made : start.withMesh b.points b.triangles =
      .ok { start with vertices := b.points.toArray, triangles := b.triangles.toArray, tree := h } := by
    rw [Group.withMesh, triangleBoxes_triangles small]
    simp only [bind, Except.bind, built]
    rfl
  -- three words a node are too many for 29 bits, and few enough for the count of the words
  obtain ⟨flaw, flawed⟩ := flawed_of_many built (by rw [Node.offsetBits]; omega)
  have written := build_written_of_size built (by rw [UInt32.size]; omega)
  obtain ⟨-, corners⟩ := Group.triangleBoxes_eq_ok (triangleBoxes_triangles small)
  refine ⟨_, made, flaw, Group.stops_at_tree corners ?filled fewPoints ?fewTriangles written
    (run_flawed built written flawed)⟩
  case filled =>
    have some : b.points ≠ [] := by
      rw [← List.length_pos_iff, length_points]
      positivity
    simpa using some
  case fewTriangles =>
    rw [List.size_toArray, length_triangles, high]
    decide

end Hierarchy.Block

end Sightline
