import Sightline.Mesh.Model
import Sightline.Proofs.Hierarchy.Enclosing
import Sightline.Proofs.Hierarchy.OneLeaf
import Sightline.Proofs.Mesh.HitTimes

/-!
# A group that is alone

The hierarchy over a single group is one leaf with the bounds of the group. A walk through it casts the
ray into the group, unless the ray misses the bounds; but then it also misses those of the hierarchy
over the triangles.
-/
namespace Sightline

open Hierarchy

variable {g : Group} {m start : Model} {ray : Ray} {stop : Bool} {reach : Single}

theorem Group.castRay_missed (missed : ray.isFinite = true → g.tree.startSpan ray reach = none) :
    g.castRay ray stop reach = .ok (false, reach) := by
  rw [castRay]
  split
  · rfl
  · rw [walkRay_missed missed]
    rfl

namespace Model

theorem withGroups_one (built : start.withGroups [g] = .ok m) :
    m = { start with groups := #[g], tree := single g.bounds } := by
  have tree : build ([g].map Group.bounds) 1 = .ok (single g.bounds) :=
    build_one g.bounds (Nat.le_refl 1)
  rw [withGroups, tree] at built
  exact (Except.ok.inj built).symm

/-- A walk through the hierarchy over a single group casts the ray into it. -/
theorem castRayByTree_one (built : start.withGroups [g] = .ok m) (finite : ray.isFinite = true)
    {span : Span} (starts : m.tree.startSpan ray reach = some span) :
    m.castRayByTree ray stop reach = g.castRay ray stop reach := by
  obtain rfl := withGroups_one built
  have visited (other : Model) (first : other.groups[0]? = some g) :
      other.visitGroup ray stop 0 ⟨reach, false⟩ =
        (g.castRay ray stop reach).map fun answer => (answer.1, ⟨answer.2, answer.1⟩) := by
    have fetched : fetch other.groups 0 = .ok g := fetch_eq_ok.mpr first
    simp only [visitGroup, fetched, bind, Except.bind, Bool.false_or]
    cases g.castRay ray stop reach <;> rfl
  rw [castRayByTree, walkRay_single finite starts, visited _ rfl]
  cases g.castRay ray stop reach <;> rfl

/-- To cast a ray into a group that is alone is the same as to walk through the hierarchy over it, if
the bounds of the group are finite and those of its triangles lie in them. -/
theorem castRay_alone (built : start.withGroups [g] = .ok m)
    (finiteLo : g.bounds.lo.isFinite = true) (finiteHi : g.bounds.hi.isFinite = true)
    (containsLo : g.bounds.Contains g.tree.bounds.lo)
    (containsHi : g.bounds.Contains g.tree.bounds.hi) (origin direction : Vec) (stop : Bool)
    (reach : Single) :
    m.castRay (.ofDirection origin direction) stop reach =
      m.castRayByTree (.ofDirection origin direction) stop reach := by
  have model := withGroups_one built
  have bypass : m.castRay (.ofDirection origin direction) stop reach =
      g.castRay (.ofDirection origin direction) stop reach := by
    rw [model]
    rfl
  have within : InBounds m.tree g.tree := by
    rw [model]
    exact ⟨finiteLo, finiteHi, containsLo, containsHi⟩
  rw [bypass]
  by_cases enters : (Ray.ofDirection origin direction).isFinite = true ∧
      ∃ span, m.tree.startSpan (.ofDirection origin direction) reach = some span
  · obtain ⟨finite, span, starts⟩ := enters
    exact (castRayByTree_one built finite starts).symm
  · -- a ray that does not come to the bounds of the group comes to none inside of them
    have outside (finite : (Ray.ofDirection origin direction).isFinite = true) :
        m.tree.startSpan (.ofDirection origin direction) reach = none :=
      Option.eq_none_iff_forall_ne_some.mpr fun span starts => enters ⟨finite, span, starts⟩
    have inside (finite : (Ray.ofDirection origin direction).isFinite = true) :
        g.tree.startSpan (.ofDirection origin direction) reach = none := by
      refine Option.eq_none_iff_forall_ne_some.mpr fun span starts => ?_
      obtain ⟨other, entered⟩ := within.startSpan finite starts
      rw [outside finite] at entered
      cases entered
    rw [Group.castRay_missed inside, castRayByTree, walkRay_missed outside]
    rfl

theorem castRay_alone_facing :
    ∃ m, ({ root := 7 } : Model).withGroups [facing] = .ok m ∧
      m.castRay (.ofDirection ⟨-1, 0.25, 0.25⟩ ⟨1, 0, 0⟩) false .infinity =
        m.castRayByTree (.ofDirection ⟨-1, 0.25, 0.25⟩ ⟨1, 0, 0⟩) false .infinity ∧
      m.castRay (.ofDirection ⟨-1, 0.25, 0.25⟩ ⟨1, 0, 0⟩) false .infinity = .ok (true, 1) := by
  have built : ({ root := 7 } : Model).withGroups [facing] =
      .ok ⟨7, #[facing], single facing.bounds⟩ := by decide +kernel
  have same := castRay_alone built (by decide +kernel) (by decide +kernel) (by decide +kernel)
    (by decide +kernel) ⟨-1, 0.25, 0.25⟩ ⟨1, 0, 0⟩ false .infinity
  exact ⟨_, built, same, by decide +kernel⟩

end Model

end Sightline
