import Sightline.Mesh.Raw
import Sightline.Proofs.Hierarchy.Storing
import Sightline.Proofs.Lookups

/-!
# Reading stored models

A model that was built from meshes and written to its end is read back. Only the liquid of a group
without vertices is lost, since the file of such a group ends after the number of its vertices. The file
is checked field by field, and with each field what becomes of a file that is cut off there.
-/
namespace Sightline

open Reader

variable {refuses : Fault → Prop}

/-! ### Liquids -/

namespace Liquid

/-- The liquid has a height for each corner of its grid and flags for each tile. -/
structure Complete (l : Liquid) : Prop where
  heights : l.heights.size = cornerCount l.tilesX l.tilesY
  flags : l.flags.size = tileCount l.tilesX l.tilesY
  countable : cornerCount l.tilesX l.tilesY < UInt64.size

theorem flat_complete {tilesX tilesY : UInt32} (corner : Vec) (kind : UInt32)
    (countable : cornerCount tilesX tilesY < UInt64.size) :
    (flat tilesX tilesY corner kind).Complete :=
  ⟨Array.size_replicate, Array.size_replicate, countable⟩

theorem storedSize_pos (l : Liquid) : 0 < UInt32.ofNat l.storedSize := by
  have fits : l.storedSize < UInt32.size := by
    simp only [storedSize, UInt32.size]
    omega
  have positive : 0 < l.storedSize := by
    simp only [storedSize]
    omega
  rw [UInt32.lt_iff_toNat_lt, UInt32.toNat_ofNat', Nat.mod_eq_of_lt fits]
  exact positive

theorem matches_toBytes {l : Liquid} (complete : l.Complete) :
    Matches refuses reader (.known l.toBytes) l := by
  rw [reader, toBytes]
  simp only [List.append_assoc, Output.known_append]
  refine (matches_word l.tilesX).bind ((matches_word l.tilesY).bind ((matches_vec l.corner).bind
    ((matches_word l.kind).bind ?_)))
  have countable := Nat.not_le_of_lt complete.countable
  rw [if_neg countable]
  have heights : Matches refuses (array (cornerCount l.tilesX l.tilesY) single)
      (.known (l.heights.toList.flatMap Bytes.ofSingle)) l.heights.toList :=
    matches_items complete.heights fun height _ => matches_single height
  have flags : Matches refuses (bytes (tileCount l.tilesX l.tilesY)) (.known l.flags.toList)
      l.flags.toList :=
    matches_bytes complete.flags
  exact heights.bind (flags.last rfl)

end Liquid

/-! ### Groups -/

/-- The corners of a triangle that can be looked up are vertices. -/
theorem Triangle.corners_lt {t : Triangle} {vertices : Array Vec} {found : Corners}
    (known : t.corners vertices = .ok found) :
    t.a < vertices.size ∧ t.b < vertices.size ∧ t.c < vertices.size := by
  obtain ⟨a, foundA, known⟩ := bind_eq_ok.mp known
  obtain ⟨b, foundB, known⟩ := bind_eq_ok.mp known
  obtain ⟨c, foundC, -⟩ := bind_eq_ok.mp known
  have less {index : Nat} {vertex : Vec} (found : fetch vertices index = .ok vertex) :
      index < vertices.size :=
    (Array.getElem?_eq_some_iff.mp (fetch_eq_ok.mp found)).1
  exact ⟨less foundA, less foundB, less foundC⟩

namespace Group

/-- What is read back of a group. -/
def stored (g : Group) : Group :=
  if g.vertices.isEmpty then { bounds := g.bounds, flags := g.flags, id := g.id } else g

/-- The numbers in a group name what they are meant to, and the tree and the liquid can be stored. -/
structure Storable (g : Group) : Prop where
  corners : ∀ t ∈ g.triangles.toList,
    t.a < g.vertices.size ∧ t.b < g.vertices.size ∧ t.c < g.vertices.size
  tree : g.tree.Storable
  objects : g.tree.checkObjects g.triangles.size = .ok ()
  liquid : ∀ liquid ∈ g.liquid, liquid.Complete

theorem listHead_eq_ok {items : Nat} {bytes : List UInt8} :
    listHead items = .ok bytes ↔
      items < UInt32.size ∧ bytes = Bytes.ofNat (listSize items) ++ Bytes.ofNat items := by
  rw [listHead, map_eq_ok]
  constructor
  · rintro ⟨count, known, rfl⟩
    obtain ⟨fits, rfl⟩ := Bytes.count?_eq_ok.mp known
    exact ⟨fits, rfl⟩
  · rintro ⟨fits, rfl⟩
    exact ⟨_, Bytes.count?_eq_ok.mpr ⟨fits, rfl⟩, rfl⟩

theorem matches_triangleBytes {t : Triangle} {vertices : Nat} (fits : vertices < UInt32.size)
    (corners : t.a < vertices ∧ t.b < vertices ∧ t.c < vertices) :
    Matches refuses triangleReader (.known (triangleBytes t)) t := by
  obtain ⟨a, b, c⟩ := corners
  rw [triangleBytes, List.append_assoc, Output.known_append, Output.known_append]
  exact (matches_nat (a.trans fits)).bind ((matches_nat (b.trans fits)).bind
    ((matches_nat (c.trans fits)).last rfl))

theorem checkVertices_eq_ok {id : UInt32} {vertices : Nat} {triangles : List Triangle}
    (corners : ∀ t ∈ triangles, t.a < vertices ∧ t.b < vertices ∧ t.c < vertices) :
    checkVertices id vertices triangles = .ok () := by
  have none : ((triangles.flatMap fun t => [t.a, t.b, t.c]).find? fun vertex =>
      vertices ≤ vertex) = none := by
    simp only [List.find?_eq_none, List.mem_flatMap, List.mem_cons, List.not_mem_nil, or_false,
      decide_eq_true_eq, Nat.not_le]
    rintro vertex ⟨t, listed, same⟩
    obtain ⟨a, b, c⟩ := corners t listed
    rcases same with rfl | rfl | rfl
    · exact a
    · exact b
    · exact c
  rw [checkVertices, none]

/-- The size before a list is not looked at. A length that does not fit ends the file. -/
theorem matches_listHead {α : Type} {next : Nat → Reader α} {items : Nat} {rest : List Piece}
    {value : α}
    (following : items < UInt32.size → Matches refuses (next items) (Output.ofPieces rest) value) :
    Matches refuses (do let _ ← word; next (← count)) (Output.ofPieces (listHead items :: rest))
      value := by
  by_cases fits : items < UInt32.size
  · rw [listHead_eq_ok.mpr ⟨fits, rfl⟩, Output.ofPieces_ok_cons, Output.known_append_andThen]
    exact (matches_word _).bind ((matches_nat fits).bind (following fits))
  · have refused : listHead items = .error .tooManyItems := by
      rw [listHead, Bytes.count?, if_neg fits]
      rfl
    rw [refused, Output.ofPieces_error_cons]
    exact .ended rfl value

theorem matches_liquidBytes {liquid : Option Liquid} (complete : ∀ l ∈ liquid, l.Complete)
    (next : Option Liquid → Group) :
    Matches refuses (do
        let size ← word
        let read ← if 0 < size then some <$> Liquid.reader else pure none
        return next read)
      (.known (liquidBytes liquid)) (next liquid) := by
  cases liquid with
  | none =>
    -- the size zero stands for no liquid
    exact (matches_word 0).last rfl
  | some liquid =>
    rw [liquidBytes, Output.known_append]
    refine (matches_word _).bind ?_
    rw [if_pos liquid.storedSize_pos, map_eq_pure_bind, bind_assoc]
    exact (Liquid.matches_toBytes (complete liquid rfl)).last rfl

/-- The numbers in a group name what they are meant to, its liquid can be stored, and its tree can be read
or is refused. -/
structure Fileable (refuses : Fault → Prop) (g : Group) : Prop where
  corners : ∀ t ∈ g.triangles.toList,
    t.a < g.vertices.size ∧ t.b < g.vertices.size ∧ t.c < g.vertices.size
  tree : Matches refuses Hierarchy.reader (Output.ofPieces g.tree.pieces) g.tree
  objects : g.tree.checkObjects g.triangles.size = .ok ()
  liquid : ∀ liquid ∈ g.liquid, liquid.Complete

theorem Storable.fileable {g : Group} (storable : g.Storable) : g.Fileable refuses :=
  ⟨storable.corners, Hierarchy.matches_of_storable storable.tree, storable.objects, storable.liquid⟩

theorem matches_pieces {g : Group} (fileable : g.Fileable refuses) :
    Matches refuses reader (Output.ofPieces g.pieces) g.stored := by
  rw [pieces, Output.ofPieces_ok_cons]
  simp only [List.append_assoc, Output.known_append_andThen]
  refine (matches_box g.bounds).bind ((matches_word g.flags).bind ((matches_word g.id).bind
    ((matches_label "VERT").bind (matches_listHead fun fits => ?_))))
  by_cases empty : g.vertices.isEmpty = true
  · -- the file ends after the number of the vertices, which is zero
    have none : g.vertices.size = 0 := by simpa using empty
    rw [if_pos empty, stored, if_pos empty, if_pos none]
    exact .pure _
  · have some : g.vertices.size ≠ 0 := by simpa using empty
    rw [stored, if_neg empty, if_neg empty, if_neg some]
    have vertices : Matches refuses (array g.vertices.size vec)
        (.known (g.vertices.toList.flatMap Bytes.ofVec)) g.vertices.toList :=
      matches_items rfl fun vertex _ => matches_vec vertex
    have triangles : Matches refuses (array g.triangles.size triangleReader)
        (.known (g.triangles.toList.flatMap triangleBytes)) g.triangles.toList :=
      matches_items rfl fun t listed => matches_triangleBytes fits (fileable.corners t listed)
    rw [Output.ofPieces_ok_cons, Output.known_append_andThen]
    refine vertices.bind ((matches_label "TRIM").bind (matches_listHead fun _ => ?_))
    rw [Output.ofPieces_ok_cons, Output.known_append_andThen]
    refine triangles.bind (.check (checkVertices_eq_ok fileable.corners)
      ((matches_label "MBIH").bind ?_))
    rw [Output.ofPieces_append_eq]
    refine fileable.tree.bind (.check fileable.objects ?_)
    rw [Output.ofPieces_ok_cons, Output.ofPieces_empty, Output.andThen_known_nil, Output.known_append]
    refine (matches_label "LIQU").bind ?_
    exact matches_liquidBytes fileable.liquid fun liquid =>
      ⟨g.bounds, g.flags, g.id, g.vertices, g.triangles, g.tree, liquid⟩

end Group

theorem Group.triangleBoxes_eq_ok {vertices : Array Vec} {triangles : List Triangle}
    {boxes : List Box} (known : triangleBoxes vertices triangles = .ok boxes) :
    boxes.length = triangles.length ∧ ∀ t ∈ triangles,
      t.a < vertices.size ∧ t.b < vertices.size ∧ t.c < vertices.size := by
  have pairs := mapM_eq_ok.mp known
  refine ⟨pairs.length_eq.symm, ?_⟩
  intro t listed
  obtain ⟨index, inside, rfl⟩ := List.mem_iff_getElem.mp listed
  have box := pairs.get inside (pairs.length_eq ▸ inside)
  obtain ⟨found, corners, -⟩ := bind_eq_ok.mp box
  exact Triangle.corners_lt corners

/-- The tree of a group with a mesh is the one that is built over its triangles. -/
theorem Group.withMesh_built {start g : Group} {vertices : List Vec} {triangles : List Triangle}
    (made : start.withMesh vertices triangles = .ok g) :
    ∃ boxes, triangleBoxes g.vertices g.triangles.toList = .ok boxes ∧
      Hierarchy.build boxes Hierarchy.defaultLeafSize = .ok g.tree := by
  obtain ⟨boxes, known, made⟩ := bind_eq_ok.mp made
  obtain ⟨tree, built, made⟩ := bind_eq_ok.mp made
  cases made
  exact ⟨boxes, known, built⟩

theorem Group.withMesh_liquid {start g : Group} {vertices : List Vec} {triangles : List Triangle}
    (made : start.withMesh vertices triangles = .ok g) : g.liquid = start.liquid := by
  obtain ⟨boxes, -, made⟩ := bind_eq_ok.mp made
  obtain ⟨tree, -, made⟩ := bind_eq_ok.mp made
  cases made
  rfl

theorem Group.withMesh_storable {start g : Group} {vertices : List Vec} {triangles : List Triangle}
    (made : start.withMesh vertices triangles = .ok g) (few : g.tree.FewNodes)
    (liquid : ∀ l ∈ g.liquid, l.Complete) : g.Storable := by
  obtain ⟨boxes, known, built⟩ := withMesh_built made
  obtain ⟨count, corners⟩ := triangleBoxes_eq_ok known
  obtain ⟨storable, -, objects⟩ := Hierarchy.build_storable built few
  rw [count, Array.length_toList] at objects
  exact ⟨corners, storable, objects, liquid⟩

theorem RawGroup.toGroup_storable {raw : RawGroup} {g : Group} (made : raw.toGroup = .ok g)
    (few : g.tree.FewNodes) (liquid : ∀ l ∈ raw.liquid, l.Complete) : g.Storable := by
  refine Group.withMesh_storable made few ?_
  rw [Group.withMesh_liquid made]
  exact liquid

/-! ### Models -/

namespace Model

/-- What is read back of a model. -/
def stored (m : Model) : Model :=
  if m.groups.isEmpty then { root := m.root } else { m with groups := m.groups.map Group.stored }

structure Storable (m : Model) : Prop where
  groups : ∀ g ∈ m.groups.toList, g.Storable
  tree : m.tree.Storable
  objects : m.tree.checkObjects m.groups.size = .ok ()

/-! The head of a file, and what follows it. -/

def head (m : Model) : List UInt8 :=
  Text.toBytes magic ++ Text.toBytes "WMOD" ++ Bytes.ofNat 8 ++ Bytes.ofWord m.root

def headReader : Reader UInt32 := do
  Reader.label magic
  Reader.label "WMOD"
  let _ ← Reader.word
  Reader.word

/-- Reads the groups behind their tag. -/
def bodyReader (root : UInt32) : Reader Model := do
  let count ← Reader.count
  let groups ← Reader.array count Group.reader
  Reader.label "GBIH"
  let tree ← Hierarchy.reader
  tree.checkObjects groups.length
  return { root, groups := groups.toArray, tree }

/-- Reads what follows the head, if anything does. -/
def restReader (root : UInt32) : Reader Model := do
  if ¬(← Reader.label? "GMOD") then return { root }
  bodyReader root

theorem reader_eq : reader = headReader >>= restReader := by
  simp only [reader, headReader, bind_assoc]
  rfl

/-- What follows the head of a model with groups. -/
def bodyPieces (m : Model) : List Piece :=
  .ok (Text.toBytes "GMOD") :: Bytes.counted m.groups.size [] ::
    (m.groups.toList.flatMap Group.pieces ++ .ok (Text.toBytes "GBIH") :: m.tree.pieces)

theorem pieces_eq (m : Model) :
    m.pieces = .ok m.head :: if m.groups.isEmpty then [] else m.bodyPieces := rfl

theorem matches_head (m : Model) : Matches refuses headReader (.known m.head) m.root := by
  rw [head, List.append_assoc, List.append_assoc]
  simp only [Output.known_append]
  exact (matches_label magic).bind ((matches_label "WMOD").bind ((matches_word _).bind
    (matches_word m.root)))

/-- If anything follows the head, it has to be the groups. -/
theorem run_restReader {root : UInt32} {bytes : List UInt8} (filled : bytes ≠ []) :
    (restReader root).run bytes =
      (label "GMOD" >>= fun _ => bodyReader root : Reader Model).run bytes :=
  run_label?_bind (by decide) filled

theorem run_restReader_nil (root : UInt32) : (restReader root).run [] = .ok ({ root }, []) :=
  run_bind_eq_ok.mpr ⟨false, [], label?_end "GMOD", rfl⟩

/-- The groups of a model can be stored, and its tree can be read or is refused. -/
structure Fileable (refuses : Fault → Prop) (m : Model) : Prop where
  groups : ∀ g ∈ m.groups.toList, g.Fileable refuses
  tree : Matches refuses Hierarchy.reader (Output.ofPieces m.tree.pieces) m.tree
  objects : m.tree.checkObjects m.groups.size = .ok ()

theorem Storable.fileable {m : Model} (storable : m.Storable) : m.Fileable refuses :=
  ⟨fun g listed => (storable.groups g listed).fileable,
    Hierarchy.matches_of_storable storable.tree, storable.objects⟩

theorem matches_bodyPieces {m : Model} (fileable : m.Fileable refuses) (filled : ¬m.groups.isEmpty = true) :
    Matches refuses (label "GMOD" >>= fun _ => bodyReader m.root) (Output.ofPieces m.bodyPieces)
      m.stored := by
  -- the tree is checked against the groups that were read
  have objects : m.tree.checkObjects (m.groups.toList.map Group.stored).length = .ok () := by
    rw [List.length_map, Array.length_toList]
    exact fileable.objects
  have result : m.groups.map Group.stored = (m.groups.toList.map Group.stored).toArray := by
    rw [← Array.toList_map]
  have groups : Matches refuses (array m.groups.size Group.reader)
      (Output.ofPieces (m.groups.toList.flatMap Group.pieces)) (m.groups.toList.map Group.stored) :=
    matches_array fun g listed => Group.matches_pieces (fileable.groups g listed)
  rw [stored, if_neg filled, result, bodyPieces, Output.ofPieces_ok_cons]
  refine (matches_label "GMOD").bind (matches_counted fun _ => ?_)
  rw [Output.ofPieces_append_eq, Output.ofPieces_ok_cons]
  refine groups.bind ((matches_label "GBIH").bind ?_)
  rw [← Output.andThen_known_nil (Output.ofPieces m.tree.pieces)]
  exact fileable.tree.bind (.check objects (.pure _))

theorem run_pieces {m : Model} (storable : m.Storable) {bytes : List UInt8}
    (written : Output.ofPieces m.pieces = (bytes, .ok ())) : reader.run bytes = .ok (m.stored, []) := by
  rw [pieces_eq] at written
  obtain ⟨rest, restWritten, rfl⟩ := Output.ofPieces_ok.mp written
  rw [reader_eq, (matches_head m).reads.run_bind_eq]
  by_cases empty : m.groups.isEmpty = true
  · -- the file ends where the groups would begin
    rw [if_pos empty] at restWritten
    rw [Output.ofPieces_nil.mp restWritten, stored, if_pos empty]
    exact run_restReader_nil m.root
  · rw [if_neg empty] at restWritten
    have groups : Matches (fun _ => False) (label "GMOD" >>= fun _ => bodyReader m.root)
        (Output.ofPieces m.bodyPieces) m.stored := matches_bodyPieces storable.fileable empty
    rw [restWritten] at groups
    obtain ⟨body, bodyWritten, rfl⟩ := Output.ofPieces_ok.mp restWritten
    rw [run_restReader (List.append_ne_nil_of_left_ne_nil (by decide) body)]
    exact groups.reads.run_all

end Model

/-- The trees of a model and of its groups do not have too many nodes. -/
structure Model.FewNodes (m : Model) : Prop where
  tree : m.tree.FewNodes
  groups : ∀ g ∈ m.groups.toList, g.tree.FewNodes

instance (m : Model) : Decidable m.FewNodes :=
  decidable_of_iff (m.tree.FewNodes ∧ ∀ g ∈ m.groups.toList, g.tree.FewNodes)
    ⟨fun few => ⟨few.1, few.2⟩, fun few => ⟨few.tree, few.groups⟩⟩

/-- The tree of a model with groups is the one that is built over their boxes. -/
theorem Model.withGroups_built {start m : Model} {groups : List Group}
    (made : start.withGroups groups = .ok m) :
    m.groups.toList = groups ∧ Hierarchy.build (groups.map Group.bounds) 1 = .ok m.tree := by
  obtain ⟨tree, built, made⟩ := bind_eq_ok.mp made
  cases made
  exact ⟨rfl, built⟩

theorem Model.withGroups_storable {start m : Model} {groups : List Group}
    (made : start.withGroups groups = .ok m) (few : m.tree.FewNodes)
    (storable : ∀ g ∈ groups, g.Storable) : m.Storable := by
  obtain ⟨rfl, built⟩ := withGroups_built made
  obtain ⟨stored, -, objects⟩ := Hierarchy.build_storable built few
  rw [List.length_map, Array.length_toList] at objects
  exact ⟨storable, stored, objects⟩

theorem RawModel.toModel_storable {raw : RawModel} {m : Model} (made : raw.toModel = .ok m)
    (few : m.FewNodes) (liquids : ∀ g ∈ raw.groups, ∀ l ∈ g.liquid, l.Complete) : m.Storable := by
  obtain ⟨groups, known, made⟩ := bind_eq_ok.mp made
  refine Model.withGroups_storable made few.tree ?_
  obtain ⟨rfl, -⟩ := Model.withGroups_built made
  have pairs := mapM_eq_ok.mp known
  intro g listed
  obtain ⟨index, inside, rfl⟩ := List.mem_iff_getElem.mp listed
  have within : index < raw.groups.length := pairs.length_eq ▸ inside
  have group := pairs.get within inside
  exact RawGroup.toGroup_storable group (few.groups _ listed) (liquids _ (List.getElem_mem within))

/-- A model that is built from meshes and written to its end can be read. -/
theorem RawModel.run_toModel {raw : RawModel} {m : Model} {bytes : List UInt8}
    (made : raw.toModel = .ok m) (few : m.FewNodes)
    (liquids : ∀ g ∈ raw.groups, ∀ l ∈ g.liquid, l.Complete)
    (written : Output.ofPieces m.pieces = (bytes, .ok ())) :
    Model.reader.run bytes = .ok (m.stored, []) :=
  Model.run_pieces (toModel_storable made few liquids) written

end Sightline
