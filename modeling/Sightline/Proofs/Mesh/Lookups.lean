import Sightline.Proofs.Hierarchy.Meeting
import Sightline.Proofs.Mesh.Stored

/-!
# Look-ups in models that were read

The checks that a model passes when it is read cover all that is looked up in it later: the corners of
triangles, the triangles and groups that walks meet, and the heights and flags of liquids.
-/
namespace Sightline

open Reader Hierarchy

/-! ### Liquids -/

namespace Liquid

theorem complete_of_read {input rest : List UInt8} {l : Liquid}
    (read : reader.run input = .ok (l, rest)) : l.Complete := by
  obtain ⟨tilesX, afterX, readX, read⟩ := run_bind_eq_ok.mp read
  obtain ⟨tilesY, afterY, readY, read⟩ := run_bind_eq_ok.mp read
  obtain ⟨corner, afterCorner, readCorner, read⟩ := run_bind_eq_ok.mp read
  obtain ⟨kind, afterKind, readKind, read⟩ := run_bind_eq_ok.mp read
  dsimp only at read
  split at read
  · cases read
  next countable =>
    obtain ⟨heights, afterHeights, readHeights, read⟩ := run_bind_eq_ok.mp read
    obtain ⟨flags, afterFlags, readFlags, result⟩ := run_bind_eq_ok.mp read
    cases result
    exact ⟨(items_of_array readHeights).1, length_of_bytes readFlags, Nat.lt_of_not_le countable⟩

/-- The number of a place in rows of the given width. -/
theorem place_lt {x y width height : Nat} (inRow : x < width) (inColumn : y < height) :
    x + y * width < width * height := by
  calc
    x + y * width < width + y * width := Nat.add_lt_add_right inRow _
    _ = width * (y + 1) := by ring
    _ ≤ width * height := Nat.mul_le_mul_left _ inColumn

/-- The conversion to a number does not leave the grid, whatever the position is. -/
theorem toWord_of_place? {position start place : Single} {tiles : UInt32}
    (found : place? position start tiles = some place) : place.toWord.toNat < tiles.toNat := by
  simp only [place?] at found
  split at found
  · cases found
  next inside =>
    cases found
    rw [not_or, not_or] at inside
    exact UInt32.lt_iff_toNat_lt.mp (UInt32.not_le.mp inside.2.2)

variable {l : Liquid}

theorem safe_heightInTile (complete : l.Complete) {x y : Nat} (inRow : x < l.tilesX.toNat)
    (inColumn : y < l.tilesY.toNat) (dx dy : Single) : Safe (l.heightInTile x y dx dy) := by
  have corner {i j : Nat} (row : i ≤ l.tilesX.toNat) (column : j ≤ l.tilesY.toNat) :
      Safe (fetch l.heights (i + j * (l.tilesX.toNat + 1))) := by
    refine (safely_fetch ?_).safe
    rw [complete.heights]
    exact place_lt (Nat.lt_succ_of_le row) (Nat.lt_succ_of_le column)
  -- all corners of the tile are on the grid, which has one more in a row than it has tiles
  simp only [heightInTile]
  refine (corner inRow.le inColumn.le).bind fun h00 _ => ?_
  refine (corner inRow inColumn).bind fun h11 _ => ?_
  split
  · exact (corner inRow inColumn.le).bind fun h10 _ => trivial
  · exact (corner inRow.le inColumn).bind fun h01 _ => trivial

theorem safe_surfaceAt? (complete : l.Complete) (p : Vec) : Safe (l.surfaceAt? p) := by
  rw [surfaceAt?]
  split
  next placeX placeY foundX foundY =>
    have inRow := toWord_of_place? foundX
    have inColumn := toWord_of_place? foundY
    have tile : placeX.toWord.toNat + placeY.toWord.toNat * l.tilesX.toNat < l.flags.size := by
      rw [complete.flags]
      exact place_lt inRow inColumn
    refine (safely_fetch tile).bind fun flags _ => ?_
    split
    · trivial
    · exact (safe_heightInTile complete inRow inColumn _ _).bind fun height _ => trivial
  next => trivial

end Liquid

/-! ### Groups -/

theorem Triangle.safe_hitWithin? {t : Triangle} {vertices : Array Vec}
    (corners : t.a < vertices.size ∧ t.b < vertices.size ∧ t.c < vertices.size) (ray : Ray)
    (reach : Single) : Safe (t.hitWithin? vertices ray reach) := by
  obtain ⟨a, b, c⟩ := corners
  have known : Safe (t.corners vertices) :=
    (safely_fetch a).bind fun _ _ => (safely_fetch b).bind fun _ _ =>
      (safely_fetch c).bind fun _ _ => trivial
  exact known.bind fun _ _ => trivial

namespace Group

/-- What the reader of groups makes sure of. -/
structure Checked (g : Group) : Prop where
  corners : ∀ t ∈ g.triangles.toList,
    t.a < g.vertices.size ∧ t.b < g.vertices.size ∧ t.c < g.vertices.size
  tree : g.tree.MeetsBelow g.triangles.size
  liquid : ∀ l ∈ g.liquid, l.Complete

theorem corners_of_checkVertices {id : UInt32} {vertices : Nat} {triangles : List Triangle}
    (checked : checkVertices id vertices triangles = .ok ()) :
    ∀ t ∈ triangles, t.a < vertices ∧ t.b < vertices ∧ t.c < vertices := by
  rw [checkVertices] at checked
  split at checked
  · cases checked
  next none =>
    intro t listed
    have less {corner : Nat} (named : corner ∈ [t.a, t.b, t.c]) : corner < vertices := by
      have known := List.find?_eq_none.mp none corner (List.mem_flatMap.mpr ⟨t, listed, named⟩)
      simpa using known
    exact ⟨less (by simp), less (by simp), less (by simp)⟩

theorem checked_of_read {input rest : List UInt8} {g : Group}
    (read : reader.run input = .ok (g, rest)) : g.Checked := by
  obtain ⟨bounds, afterBounds, readBounds, read⟩ := run_bind_eq_ok.mp read
  obtain ⟨flags, afterFlags, readFlags, read⟩ := run_bind_eq_ok.mp read
  obtain ⟨id, afterId, readId, read⟩ := run_bind_eq_ok.mp read
  obtain ⟨_, afterLabel, readLabel, read⟩ := run_bind_eq_ok.mp read
  obtain ⟨size, afterSize, readSize, read⟩ := run_bind_eq_ok.mp read
  obtain ⟨vertexCount, afterCount, readCount, read⟩ := run_bind_eq_ok.mp read
  split at read
  · -- a group without vertices has nothing to look up
    cases read
    exact ⟨nofun, meetsBelow_empty _, nofun⟩
  next filled =>
    obtain ⟨vertices, afterVertices, readVertices, read⟩ := run_bind_eq_ok.mp read
    obtain ⟨_, afterTriangleLabel, readTriangleLabel, read⟩ := run_bind_eq_ok.mp read
    obtain ⟨triangleSize, afterTriangleSize, readTriangleSize, read⟩ := run_bind_eq_ok.mp read
    obtain ⟨triangleCount, afterTriangleCount, readTriangleCount, read⟩ := run_bind_eq_ok.mp read
    obtain ⟨triangles, afterTriangles, readTriangles, read⟩ := run_bind_eq_ok.mp read
    obtain ⟨_, corners, read⟩ := run_check_eq_ok.mp read
    obtain ⟨_, afterTreeLabel, readTreeLabel, read⟩ := run_bind_eq_ok.mp read
    obtain ⟨tree, afterTree, readTree, read⟩ := run_bind_eq_ok.mp read
    obtain ⟨_, objects, read⟩ := run_check_eq_ok.mp read
    obtain ⟨_, afterLiquidLabel, readLiquidLabel, read⟩ := run_bind_eq_ok.mp read
    obtain ⟨liquidSize, afterLiquidSize, readLiquidSize, read⟩ := run_bind_eq_ok.mp read
    -- the checks speak of the numbers that were read, and the look-ups of the lists
    rw [← (items_of_array readVertices).1] at corners
    rw [← (items_of_array readTriangles).1] at objects
    have known := corners_of_checkVertices corners
    have meets := meetsBelow_of_read readTree objects
    dsimp only at read
    split at read
    · obtain ⟨liquid, afterLiquid, readLiquid, result⟩ := run_bind_eq_ok.mp read
      rw [map_eq_pure_bind] at readLiquid
      obtain ⟨found, after, readFound, same⟩ := run_bind_eq_ok.mp readLiquid
      cases same
      cases result
      refine ⟨known, meets, ?_⟩
      rintro _ ⟨⟩
      exact Liquid.complete_of_read readFound
    · cases read
      exact ⟨known, meets, nofun⟩

variable {g : Group}

theorem Checked.safeBelow (checked : g.Checked) (ray : Ray) :
    SafeBelow (g.visitTriangle ray) g.triangles.size := by
  intro entry inside progress
  refine (safely_fetch inside).bind fun triangle found => ?_
  have listed := List.mem_of_getElem? ((Array.getElem?_toList ..).trans found)
  refine (Triangle.safe_hitWithin? (checked.corners triangle listed) ray progress.reach).bind ?_
  rintro (_ | time) -
  · trivial
  · trivial

theorem Checked.safe_castRay (checked : g.Checked) (ray : Ray) (stop : Bool) (reach : Single) :
    Safe (g.castRay ray stop reach) := by
  rw [castRay]
  split
  · trivial
  · exact (safe_walkRay checked.tree (checked.safeBelow ray) ray stop _).bind fun _ _ => trivial

theorem Checked.safe_floorBelow? (checked : g.Checked) (p down : Vec) :
    Safe (g.floorBelow? p down) := by
  rw [floorBelow?]
  split
  · trivial
  · exact (checked.safe_castRay _ _ _).bind fun _ _ => trivial

theorem Checked.safe_liquidLevel? (checked : g.Checked) (p : Vec) : Safe (g.liquidLevel? p) := by
  rw [liquidLevel?]
  split
  next liquid present => exact Liquid.safe_surfaceAt? (checked.liquid liquid present) p
  next => trivial

end Group

/-! ### Models -/

namespace Model

/-- What the reader of models makes sure of. -/
structure Checked (m : Model) : Prop where
  groups : ∀ g ∈ m.groups.toList, g.Checked
  tree : m.tree.MeetsBelow m.groups.size

theorem checked_of_read {input rest : List UInt8} {m : Model}
    (read : reader.run input = .ok (m, rest)) : m.Checked := by
  obtain ⟨_, afterMagic, readMagic, read⟩ := run_bind_eq_ok.mp read
  obtain ⟨_, afterLabel, readLabel, read⟩ := run_bind_eq_ok.mp read
  obtain ⟨size, afterSize, readSize, read⟩ := run_bind_eq_ok.mp read
  obtain ⟨root, afterRoot, readRoot, read⟩ := run_bind_eq_ok.mp read
  obtain ⟨hasGroups, afterSection, readSection, read⟩ := run_bind_eq_ok.mp read
  split at read
  · cases read
    exact ⟨nofun, meetsBelow_empty _⟩
  · obtain ⟨count, afterCount, readCount, read⟩ := run_bind_eq_ok.mp read
    obtain ⟨groups, afterGroups, readGroups, read⟩ := run_bind_eq_ok.mp read
    obtain ⟨_, afterTreeLabel, readTreeLabel, read⟩ := run_bind_eq_ok.mp read
    obtain ⟨tree, afterTree, readTree, read⟩ := run_bind_eq_ok.mp read
    obtain ⟨_, objects, read⟩ := run_check_eq_ok.mp read
    cases read
    refine ⟨?_, meetsBelow_of_read readTree objects⟩
    intro g listed
    obtain ⟨front, back, readGroup⟩ := (items_of_array readGroups).2 g listed
    exact Group.checked_of_read readGroup

variable {m : Model}

theorem Checked.group (checked : m.Checked) {index : Nat} {g : Group}
    (found : m.groups[index]? = some g) : g.Checked :=
  checked.groups g (List.mem_of_getElem? ((Array.getElem?_toList ..).trans found))

theorem Checked.safeBelow (checked : m.Checked) (ray : Ray) (stop : Bool) :
    SafeBelow (m.visitGroup ray stop) m.groups.size := by
  intro entry inside progress
  refine (safely_fetch inside).bind fun group found => ?_
  exact ((checked.group found).safe_castRay ray stop progress.reach).bind fun _ _ => trivial

theorem Checked.safe_castRay (checked : m.Checked) (ray : Ray) (stop : Bool) (reach : Single) :
    Safe (m.castRay ray stop reach) := by
  rw [castRay]
  split
  next group alone => exact (checked.groups group (by simp [alone])).safe_castRay ray stop reach
  next =>
    exact (safe_walkRay checked.tree (checked.safeBelow ray stop) ray stop _).bind fun _ _ => trivial

/-- Whatever is known of a group's number with a distance stays known of the nearest floor. -/
theorem Checked.keepsBelow (checked : m.Checked) {P : Option (Nat × Single) → Prop}
    (new : ∀ entry < m.groups.size, ∀ distance, P (some (entry, distance))) (p down : Vec) :
    KeepsBelow (m.visitFloor p down) P m.groups.size := by
  intro entry inside best known
  refine (safely_fetch inside).bind fun group found => ?_
  -- the nearest floor stays, or becomes that of this group
  refine ((checked.group found).safe_floorBelow? p down).bind fun floor _ => ?_
  split
  · exact known
  · exact new entry inside _
  · split
    · exact new entry inside _
    · exact known

/-- The group that is found is one of the model's. -/
theorem Checked.safely_groupBelow? (checked : m.Checked) (p down : Vec) :
    Safely (fun best => ∀ found ∈ best, found.1 < m.groups.size) (m.groupBelow? p down) := by
  rw [groupBelow?]
  split
  · nofun
  · refine safely_walkPoint checked.tree (checked.keepsBelow ?_ p down) p nofun
    rintro entry inside distance _ ⟨⟩
    exact inside

theorem Checked.safe_floorBelow? (checked : m.Checked) (p down : Vec) :
    Safe (m.floorBelow? p down) := by
  refine (checked.safely_groupBelow? p down).bind ?_
  rintro (_ | ⟨index, distance⟩) known
  · trivial
  · exact (safely_fetch (known _ rfl)).bind fun _ _ => trivial

end Model

/-! ### What questions may rely on -/

/-- No question to a group looks outside of a list, at whatever step of a walk. -/
structure Group.AnswersSafely (g : Group) : Prop where
  met : g.tree.MeetsBelow g.triangles.size
  rayStep : ∀ (ray : Ray) (stop : Bool) (walk : RayWalk Bool),
    g.tree.rayStep ray (g.visitTriangle ray) stop walk ≠ .error .outOfRange
  castRay : ∀ (ray : Ray) (stop : Bool) (reach : Single),
    g.castRay ray stop reach ≠ .error .outOfRange
  floorBelow : ∀ p down : Vec, g.floorBelow? p down ≠ .error .outOfRange
  liquidLevel : ∀ p : Vec, g.liquidLevel? p ≠ .error .outOfRange

theorem Group.Checked.answersSafely {g : Group} (checked : g.Checked) : g.AnswersSafely where
  met := checked.tree
  rayStep ray stop walk :=
    (safe_rayStep checked.tree (checked.safeBelow ray) ray stop walk).ne_outOfRange
  castRay ray stop reach := (checked.safe_castRay ray stop reach).ne_outOfRange
  floorBelow p down := (checked.safe_floorBelow? p down).ne_outOfRange
  liquidLevel p := (checked.safe_liquidLevel? p).ne_outOfRange

/-- No question to a model or to one of its groups looks outside of a list, and the group that is found
below a point is there. -/
structure Model.AnswersSafely (m : Model) : Prop where
  groups : ∀ g ∈ m.groups.toList, g.AnswersSafely
  met : m.tree.MeetsBelow m.groups.size
  rayStep : ∀ (ray : Ray) (stop : Bool) (walk : RayWalk Bool),
    m.tree.rayStep ray (m.visitGroup ray stop) stop walk ≠ .error .outOfRange
  pointStep : ∀ (p down : Vec) (walk : PointWalk (Option (Nat × Single))),
    m.tree.pointStep p (m.visitFloor p down) walk ≠ .error .outOfRange
  castRay : ∀ (ray : Ray) (stop : Bool) (reach : Single),
    m.castRay ray stop reach ≠ .error .outOfRange
  groupBelow : ∀ p down : Vec, m.groupBelow? p down ≠ .error .outOfRange
  groupFound : ∀ (p down : Vec) (index : Nat) (distance : Single),
    m.groupBelow? p down = .ok (some (index, distance)) → index < m.groups.size
  floorBelow : ∀ p down : Vec, m.floorBelow? p down ≠ .error .outOfRange

theorem Model.Checked.answersSafely {m : Model} (checked : m.Checked) : m.AnswersSafely where
  groups g listed := (checked.groups g listed).answersSafely
  met := checked.tree
  rayStep ray stop walk :=
    (safe_rayStep checked.tree (checked.safeBelow ray stop) ray stop walk).ne_outOfRange
  pointStep p down walk := by
    have keeps := checked.keepsBelow (P := fun _ => True) (fun _ _ _ => trivial) p down
    exact (safely_pointStep checked.tree keeps p trivial).ne_outOfRange
  castRay ray stop reach := (checked.safe_castRay ray stop reach).ne_outOfRange
  groupBelow p down := (checked.safely_groupBelow? p down).ne_outOfRange
  groupFound p down index distance found := by
    have known := checked.safely_groupBelow? p down
    rw [found] at known
    exact known _ rfl
  floorBelow p down := (checked.safe_floorBelow? p down).ne_outOfRange

end Sightline
