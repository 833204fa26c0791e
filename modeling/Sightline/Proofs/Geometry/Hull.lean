import Sightline.Proofs.Geometry.Box
import Sightline.Proofs.Single.Extremes
import Sightline.Proofs.Single.NoValue
import Sightline.World.Assembly

/-!
# Hulls of points

The hull of points contains each point whose coordinates are numbers, and has a point on each of its faces.
It stays so when it is moved together with its points.
-/
namespace Sightline

namespace Vec

variable {v w : Vec}

def IsNumber (v : Vec) : Prop := ∀ axis, (v.get axis).isNaN = false

instance (v : Vec) : Decidable v.IsNumber :=
  inferInstanceAs (Decidable (∀ axis, (v.get axis).isNaN = false))

@[simp] theorem get_min (v w : Vec) (axis : Axis) : (min v w).get axis = min (v.get axis) (w.get axis) := by
  cases axis <;> rfl

@[simp] theorem get_max (v w : Vec) (axis : Axis) : (max v w).get axis = max (v.get axis) (w.get axis) := by
  cases axis <;> rfl

@[simp] theorem get_add (v w : Vec) (axis : Axis) : (v + w).get axis = v.get axis + w.get axis := by
  cases axis <;> rfl

theorem isNumber_add_iff (finite : w.isFinite = true) : (v + w).IsNumber ↔ v.IsNumber := by
  refine forall_congr' fun axis => ?_
  rw [get_add]
  constructor
  · intro number
    by_contra noNumber
    rw [Bool.not_eq_false] at noNumber
    rw [Single.isNaN_add_of (.inl noNumber)] at number
    cases number
  · exact fun number => Single.isNaN_add_number number (isFinite_get finite axis)

end Vec

namespace Box

variable {b : Box} {points : List Vec}

/-- The least box around points. Points with a coordinate that is not a number are in no box. -/
structure IsHull (b : Box) (points : List Vec) : Prop where
  contains : ∀ p ∈ points, b.Contains p ↔ p.IsNumber
  lowest : ∀ axis, ∃ p ∈ points, p.get axis = b.lo.get axis
  highest : ∀ axis, ∃ p ∈ points, p.get axis = b.hi.get axis

theorem isNumber_of_contains {p : Vec} (inside : b.Contains p) : p.IsNumber :=
  fun axis => (contains_iff.mp inside axis).1.2.1

theorem foldl_insert_get (points : List Vec) (b : Box) (axis : Axis) :
    (points.foldl insert b).lo.get axis =
        (points.map fun p => p.get axis).foldl min (b.lo.get axis) ∧
      (points.foldl insert b).hi.get axis =
        (points.map fun p => p.get axis).foldl max (b.hi.get axis) := by
  induction points generalizing b with
  | nil => exact ⟨rfl, rfl⟩
  | cons p rest ih =>
    rw [List.foldl_cons, List.map_cons, List.foldl_cons, List.foldl_cons, (ih _).1, (ih _).2, insert,
      Vec.get_min, Vec.get_max]
    exact ⟨rfl, rfl⟩

theorem isHull_of_hull? (hull : Assembly.hull? points = some b) : b.IsHull points := by
  cases points with
  | nil => cases hull
  | cons first rest =>
    cases hull
    have faces := foldl_insert_get rest (ofPoint first)
    constructor
    case contains =>
      intro p listed
      refine ⟨isNumber_of_contains, fun number => contains_iff.mpr fun axis => ?_⟩
      have coordinate := List.mem_map_of_mem (f := fun p => Vec.get p axis) listed
      rw [List.map_cons] at coordinate
      rw [(faces axis).1, (faces axis).2]
      exact ⟨Single.selects_min.foldl_before (number axis) coordinate,
        Single.selects_max.foldl_before (number axis) coordinate⟩
    case lowest =>
      intro axis
      rw [(faces axis).1]
      have selected := Single.selects_min.foldl_mem (first.get axis) (rest.map fun p => p.get axis)
      rw [← List.map_cons (f := fun p => Vec.get p axis)] at selected
      exact List.mem_map.mp selected
    case highest =>
      intro axis
      rw [(faces axis).2]
      have selected := Single.selects_max.foldl_mem (first.get axis) (rest.map fun p => p.get axis)
      rw [← List.map_cons (f := fun p => Vec.get p axis)] at selected
      exact List.mem_map.mp selected

theorem hull?_eq_none_iff : Assembly.hull? points = none ↔ points = [] := by
  cases points with
  | nil => exact ⟨fun _ => rfl, fun _ => rfl⟩
  | cons first rest => exact ⟨nofun, nofun⟩

theorem IsHull.translate {offset : Vec} (hull : b.IsHull points) (finite : offset.isFinite = true) :
    (b.translate offset).IsHull (points.map (· + offset)) := by
  constructor
  case contains =>
    rw [List.forall_mem_map]
    intro p listed
    refine ⟨isNumber_of_contains, fun number => ?_⟩
    -- the same rounded sum moves the point and the faces
    have inside := (hull.contains p listed).mpr ((Vec.isNumber_add_iff finite).mp number)
    rw [contains_iff] at inside ⊢
    intro axis
    have finiteOn := Vec.isFinite_get finite axis
    rw [Box.translate, Vec.get_add, Vec.get_add, Vec.get_add]
    exact ⟨Single.add_le_add finiteOn (inside axis).1, Single.add_le_add finiteOn (inside axis).2⟩
  case lowest =>
    intro axis
    obtain ⟨p, listed, same⟩ := hull.lowest axis
    exact ⟨p + offset, List.mem_map_of_mem listed, by rw [Box.translate, Vec.get_add, Vec.get_add, same]⟩
  case highest =>
    intro axis
    obtain ⟨p, listed, same⟩ := hull.highest axis
    exact ⟨p + offset, List.mem_map_of_mem listed, by rw [Box.translate, Vec.get_add, Vec.get_add, same]⟩

end Box

end Sightline
