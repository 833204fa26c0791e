import Sightline.Geometry.Box
import Sightline.Proofs.Single.Arithmetic

/-!
# Proper boxes

A box is proper if its faces are finite and on no axis in the wrong order. Proper boxes are what a
hierarchy is built over.
-/
namespace Sightline

theorem Axis.mem_all (axis : Axis) : axis ∈ Axis.all := by
  cases axis <;> decide

theorem Axis.forall_mem_all {p : Axis → Prop} : (∀ axis ∈ Axis.all, p axis) ↔ ∀ axis, p axis :=
  ⟨fun all axis => all axis axis.mem_all, fun all axis _ => all axis⟩

instance {p : Axis → Prop} [DecidablePred p] : Decidable (∀ axis, p axis) :=
  decidable_of_iff _ Axis.forall_mem_all

theorem Vec.isFinite_get {v : Vec} (finite : v.isFinite = true) (axis : Axis) :
    (v.get axis).isFinite = true := by
  simp only [isFinite, Bool.and_eq_true] at finite
  obtain ⟨⟨finiteX, finiteY⟩, finiteZ⟩ := finite
  cases axis with
  | x => exact finiteX
  | y => exact finiteY
  | z => exact finiteZ

@[simp] theorem Vec.min_self (v : Vec) : min v v = v := by
  have same (x : Single) : min x x = x := (Single.min_eq_or x x).elim id id
  change (⟨min v.x v.x, min v.y v.y, min v.z v.z⟩ : Vec) = v
  rw [same, same, same]

@[simp] theorem Vec.max_self (v : Vec) : max v v = v := by
  have same (x : Single) : max x x = x := (Single.max_eq_or x x).elim id id
  change (⟨max v.x v.x, max v.y v.y, max v.z v.z⟩ : Vec) = v
  rw [same, same, same]

theorem Vec.ext_get {v w : Vec} (same : ∀ axis, v.get axis = w.get axis) : v = w := by
  cases v
  cases w
  exact (Vec.mk.injEq ..).mpr ⟨same .x, same .y, same .z⟩

theorem Vec.min_get (v w : Vec) (axis : Axis) : (min v w).get axis = min (v.get axis) (w.get axis) := by
  cases axis <;> rfl

theorem Vec.max_get (v w : Vec) (axis : Axis) : (max v w).get axis = max (v.get axis) (w.get axis) := by
  cases axis <;> rfl

namespace Box

variable {b c : Box}

theorem ext_get (same : ∀ axis, b.lo.get axis = c.lo.get axis ∧ b.hi.get axis = c.hi.get axis) :
    b = c := by
  cases b
  cases c
  exact (Box.mk.injEq ..).mpr
    ⟨Vec.ext_get fun axis => (same axis).1, Vec.ext_get fun axis => (same axis).2⟩

structure ProperOn (b : Box) (axis : Axis) : Prop where
  finiteLo : (b.lo.get axis).isFinite = true
  finiteHi : (b.hi.get axis).isFinite = true
  ordered : b.lo.get axis ≤ b.hi.get axis

/-- The faces of the box are finite, and no lower face is above the upper one. -/
def Proper (b : Box) : Prop := ∀ axis, b.ProperOn axis

instance (b : Box) (axis : Axis) : Decidable (b.ProperOn axis) :=
  decidable_of_iff ((b.lo.get axis).isFinite = true ∧ (b.hi.get axis).isFinite = true ∧
      b.lo.get axis ≤ b.hi.get axis)
    ⟨fun h => ⟨h.1, h.2.1, h.2.2⟩, fun h => ⟨h.finiteLo, h.finiteHi, h.ordered⟩⟩

instance (b : Box) : Decidable b.Proper := inferInstanceAs (Decidable (∀ axis, b.ProperOn axis))

theorem covers_iff : b.Covers c ↔
    ∀ axis, b.lo.get axis ≤ c.lo.get axis ∧ c.hi.get axis ≤ b.hi.get axis :=
  Axis.forall_mem_all

theorem contains_iff {p : Vec} : b.Contains p ↔
    ∀ axis, b.lo.get axis ≤ p.get axis ∧ p.get axis ≤ b.hi.get axis :=
  Axis.forall_mem_all

theorem Covers.contains {p : Vec} (covers : b.Covers c) (inside : c.Contains p) : b.Contains p := by
  rw [covers_iff] at covers
  rw [contains_iff] at inside ⊢
  intro axis
  exact ⟨Single.le_trans (covers axis).1 (inside axis).1,
    Single.le_trans (inside axis).2 (covers axis).2⟩

theorem Covers.trans {d : Box} (first : b.Covers c) (second : c.Covers d) : b.Covers d := by
  rw [covers_iff] at first second ⊢
  intro axis
  exact ⟨Single.le_trans (first axis).1 (second axis).1,
    Single.le_trans (second axis).2 (first axis).2⟩

theorem Proper.covers_self (proper : b.Proper) : b.Covers b := by
  rw [covers_iff]
  intro axis
  exact ⟨Single.le_self (Single.isNaN_of_isFinite (proper axis).finiteLo),
    Single.le_self (Single.isNaN_of_isFinite (proper axis).finiteHi)⟩

/-! ### The box around two boxes -/

@[simp] theorem merge_lo (b c : Box) (axis : Axis) :
    (b.merge c).lo.get axis = min (b.lo.get axis) (c.lo.get axis) :=
  Vec.min_get _ _ axis

@[simp] theorem merge_hi (b c : Box) (axis : Axis) :
    (b.merge c).hi.get axis = max (b.hi.get axis) (c.hi.get axis) :=
  Vec.max_get _ _ axis

@[simp] theorem merge_self (b : Box) : b.merge b = b := by
  simp [merge]

theorem merge_covers_left (properB : b.Proper) : (b.merge c).Covers b := by
  rw [covers_iff]
  intro axis
  rw [merge_lo, merge_hi]
  exact ⟨Single.min_le_left (Single.isNaN_of_isFinite (properB axis).finiteLo),
    Single.le_max_left (Single.isNaN_of_isFinite (properB axis).finiteHi)⟩

theorem merge_covers_right (properC : c.Proper) : (b.merge c).Covers c := by
  rw [covers_iff]
  intro axis
  rw [merge_lo, merge_hi]
  exact ⟨Single.min_le_right (Single.isNaN_of_isFinite (properC axis).finiteLo),
    Single.le_max_right (Single.isNaN_of_isFinite (properC axis).finiteHi)⟩

theorem Covers.merge {d : Box} (first : b.Covers c) (second : b.Covers d) :
    b.Covers (c.merge d) := by
  rw [covers_iff] at first second ⊢
  intro axis
  rw [merge_lo, merge_hi]
  exact ⟨Single.le_min (fun _ => (first axis).1) (second axis).1,
    Single.max_le (fun _ => (first axis).2) (second axis).2⟩

theorem Proper.merge (properB : b.Proper) (properC : c.Proper) : (b.merge c).Proper := by
  intro axis
  have left := covers_iff.mp (merge_covers_left (c := c) properB) axis
  refine ⟨?_, ?_, Single.le_trans left.1 (Single.le_trans (properB axis).ordered left.2)⟩
  · rw [merge_lo]
    rcases Single.min_eq_or (b.lo.get axis) (c.lo.get axis) with same | same
    · rw [same]
      exact (properB axis).finiteLo
    · rw [same]
      exact (properC axis).finiteLo
  · rw [merge_hi]
    rcases Single.max_eq_or (b.hi.get axis) (c.hi.get axis) with same | same
    · rw [same]
      exact (properB axis).finiteHi
    · rw [same]
      exact (properC axis).finiteHi

/-! ### Moved faces -/

@[simp] theorem setHi_lo (b : Box) (axis other : Axis) (value : Single) :
    (b.setHi axis value).lo.get other = b.lo.get other := rfl

@[simp] theorem setLo_hi (b : Box) (axis other : Axis) (value : Single) :
    (b.setLo axis value).hi.get other = b.hi.get other := rfl

theorem setHi_hi (b : Box) (axis other : Axis) (value : Single) :
    (b.setHi axis value).hi.get other = if axis = other then value else b.hi.get other := by
  unfold setHi
  split
  next same =>
    subst same
    exact Vec.get_set_self _ _ _
  next differ => exact Vec.get_set_of_ne _ _ differ

theorem setLo_lo (b : Box) (axis other : Axis) (value : Single) :
    (b.setLo axis value).lo.get other = if axis = other then value else b.lo.get other := by
  unfold setLo
  split
  next same =>
    subst same
    exact Vec.get_set_self _ _ _
  next differ => exact Vec.get_set_of_ne _ _ differ

end Box

end Sightline
