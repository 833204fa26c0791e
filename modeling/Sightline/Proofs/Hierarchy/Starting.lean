import Sightline.Proofs.Geometry.Nearness
import Sightline.Proofs.Hierarchy.RayRoutes

/-!
# Where a walk along a ray starts

The span that a walk starts with is narrowed axis by axis to the slab of the bounds: the times at which
the ray reaches their faces, in their order. An axis along which the ray hardly moves narrows nothing.
A time at which the ray is in a box within the bounds stays in the span.
-/
namespace Sightline.Hierarchy

/-- The times at which a ray reaches the faces of a box across an axis, in their order. -/
def slab (ray : Ray) (box : Box) (axis : Axis) : Span :=
  let toLo := ray.timeTo axis (box.lo.get axis)
  let toHi := ray.timeTo axis (box.hi.get axis)
  if toHi < toLo then ⟨toHi, toLo⟩ else ⟨toLo, toHi⟩

/-- Narrows a span to another one; an end below zero was not set yet. -/
def clip (span slab : Span) : Span :=
  ⟨if span.near < slab.near then slab.near else span.near,
    if slab.far < span.far ∨ span.far < 0 then slab.far else span.far⟩

variable {h : Hierarchy} {ray : Ray} {axis : Axis} {box : Box} {span : Span} {time reach : Single}

theorem clipStart_eq (h : Hierarchy) (ray : Ray) (reach : Single) (span : Span) (axis : Axis) :
    h.clipStart ray reach span axis =
      if (ray.direction.get axis).Near 0 then some span
      else if (clip span (slab ray h.bounds axis)).far ≤ 0 ∨
          reach ≤ (clip span (slab ray h.bounds axis)).near then none
        else some (clip span (slab ray h.bounds axis)) := by
  unfold clipStart slab clip
  dsimp only
  split
  · rfl
  · by_cases order : ray.timeTo axis (h.bounds.hi.get axis) < ray.timeTo axis (h.bounds.lo.get axis)
    · simp only [if_pos order]
    · simp only [if_neg order]

/-! ### Slabs of boxes -/

/-- The slab of a box begins at its entry face and ends at its exit face. -/
theorem slab_faces (regular : ray.RegularOn axis) (moves : (ray.direction.get axis).rank ≠ 0)
    (proper : box.ProperOn axis) :
    (slab ray box axis).near ≤ ray.timeTo axis (ray.entryFace axis box) ∧
      ray.timeTo axis (ray.exitFace axis box) ≤ (slab ray box axis).far := by
  have numberLo := regular.isNaN_timeTo moves proper.finiteLo
  have numberHi := regular.isNaN_timeTo moves proper.finiteHi
  have ordered : (slab ray box axis).near ≤ ray.timeTo axis (box.lo.get axis) ∧
      (slab ray box axis).near ≤ ray.timeTo axis (box.hi.get axis) ∧
      ray.timeTo axis (box.lo.get axis) ≤ (slab ray box axis).far ∧
      ray.timeTo axis (box.hi.get axis) ≤ (slab ray box axis).far := by
    unfold slab
    dsimp only
    split
    next backwards =>
      exact ⟨Single.le_of_lt backwards, Single.le_self numberHi, Single.le_self numberLo,
        Single.le_of_lt backwards⟩
    next forwards =>
      have order := Single.le_of_not_lt numberHi numberLo forwards
      exact ⟨Single.le_self numberLo, order, order, Single.le_self numberHi⟩
  obtain ⟨nearLo, nearHi, farLo, farHi⟩ := ordered
  unfold Ray.entryFace Ray.exitFace
  cases (ray.direction.get axis).negative with
  | true => exact ⟨nearHi, farLo⟩
  | false => exact ⟨nearLo, farHi⟩

/-- A time at which a moving ray is in a box lies in the slab of every box around it. -/
theorem time_in_slab {around : Box} (covers : around.Covers box) (properAround : around.Proper)
    (proper : box.Proper) (regular : ray.RegularOn axis)
    (moves : (ray.direction.get axis).rank ≠ 0) (crosses : ray.Crosses box time) :
    (slab ray around axis).Has time := by
  obtain ⟨begins, ends⟩ := slab_faces regular moves (properAround axis)
  obtain ⟨entered, left⟩ := regular.between_faces_of_covers moves covers (properAround axis)
    (proper axis) (crosses axis)
  exact ⟨Single.le_trans begins entered, Single.le_trans left ends⟩

/-- A ray reaches the planes between two faces between the times of the faces. -/
theorem timeTo_in_slab {p : Single} (regular : ray.RegularOn axis)
    (moves : (ray.direction.get axis).rank ≠ 0) (proper : box.ProperOn axis)
    (above : box.lo.get axis ≤ p) (below : p ≤ box.hi.get axis) :
    (slab ray box axis).Has (ray.timeTo axis p) := by
  obtain ⟨begins, ends⟩ := slab_faces regular moves proper
  obtain ⟨entered, left⟩ := regular.timeTo_between moves proper above below
  exact ⟨Single.le_trans begins entered, Single.le_trans left ends⟩

/-! ### Times in the bounds -/

/-- What is known of a span while it is narrowed to the bounds: the time is not before it, nor behind
it once an axis has set its end. -/
structure Narrowed (span : Span) (time : Single) : Prop where
  begins : span.near ≤ time
  ends : span.far < 0 ∨ time ≤ span.far

/-- What is left of a span stays a span around the time when it is narrowed by another one. -/
theorem Narrowed.clipped {slab : Span} (narrowed : Narrowed span time) (positive : 0 < time)
    (within : time < reach) (has : slab.Has time) :
    (clip span slab).Has time ∧
      ¬((clip span slab).far ≤ 0 ∨ reach ≤ (clip span slab).near) := by
  have near : (clip span slab).near ≤ time :=
    (Single.raise_le_iff has.1.1).mpr ⟨narrowed.begins, has.1⟩
  have far : time ≤ (clip span slab).far := by
    unfold clip
    dsimp only
    split
    · exact has.2
    next still => exact narrowed.ends.resolve_left fun unset => still (.inr unset)
  refine ⟨⟨near, far⟩, ?_⟩
  rintro (spent | beyond)
  · exact Single.not_lt_of_le (Single.le_trans far spent) positive
  · exact Single.not_lt_of_le (Single.le_trans beyond near) within

theorem clipStart_narrowed (covers : h.bounds.Covers box) (properBounds : h.bounds.Proper)
    (proper : box.Proper) (regular : ray.RegularOn axis) (crosses : ray.Crosses box time)
    (positive : 0 < time) (within : time < reach) (narrowed : Narrowed span time) :
    ∃ clipped, h.clipStart ray reach span axis = some clipped ∧ Narrowed clipped time ∧
      (time ≤ span.far ∨ ¬(ray.direction.get axis).Near 0 → time ≤ clipped.far) := by
  rw [clipStart_eq]
  by_cases along : (ray.direction.get axis).Near 0
  · rw [if_pos along]
    exact ⟨span, rfl, narrowed, fun known => known.resolve_right (fun moving => moving along)⟩
  · have moves : (ray.direction.get axis).rank ≠ 0 := fun still => along (Single.near_zero still)
    have has := time_in_slab covers properBounds proper regular moves crosses
    obtain ⟨⟨near, far⟩, inside⟩ := narrowed.clipped positive within has
    rw [if_neg along, if_neg inside]
    exact ⟨_, rfl, ⟨near, .inr far⟩, fun _ => far⟩

theorem foldlM_narrowed (covers : h.bounds.Covers box)
    (properBounds : h.bounds.Proper) (proper : box.Proper) (regular : ∀ axis, ray.RegularOn axis)
    (crosses : ray.Crosses box time) (positive : 0 < time) (within : time < reach)
    (axes : List Axis) (narrowed : Narrowed span time) :
    ∃ clipped, axes.foldlM (h.clipStart ray reach) span = some clipped ∧ Narrowed clipped time ∧
      ((time ≤ span.far ∨ ∃ axis ∈ axes, ¬(ray.direction.get axis).Near 0) →
        time ≤ clipped.far) := by
  induction axes generalizing span with
  | nil => exact ⟨span, rfl, narrowed, fun known => known.resolve_right (by simp)⟩
  | cons axis axes ih =>
    obtain ⟨first, clips, narrowedFirst, farFirst⟩ := clipStart_narrowed covers properBounds proper
      (regular axis) crosses positive within narrowed
    obtain ⟨clipped, folds, narrowedAll, farAll⟩ := ih narrowedFirst
    refine ⟨clipped, ?_, narrowedAll, ?_⟩
    · rw [List.foldlM_cons, clips]
      exact folds
    · rintro (known | ⟨other, member, moving⟩)
      · exact farAll (.inl (farFirst (.inl known)))
      · rcases List.mem_cons.mp member with rfl | inRest
        · exact farAll (.inl (farFirst (.inr moving)))
        · exact farAll (.inr ⟨other, inRest, moving⟩)

/-- A time in the span of a box within the bounds lies in the span that a walk starts with. -/
theorem startSpan_covers (covers : h.bounds.Covers box)
    (properBounds : h.bounds.Proper) (proper : box.Proper) (regular : ∀ axis, ray.RegularOn axis)
    (moves : ∃ axis, ¬(ray.direction.get axis).Near 0) (crosses : ray.Crosses box time)
    (positive : 0 < time) (within : time < reach) :
    ∃ span, h.startSpan ray reach = some span ∧ span.Has time := by
  have unset : Narrowed ⟨-1, -1⟩ time := by
    have negative : (-1 : Single) < 0 := by decide +kernel
    exact ⟨Single.le_of_lt (Single.lt_of_lt_of_le negative (Single.le_of_lt positive)),
      .inl negative⟩
  obtain ⟨clipped, folds, narrowed, far⟩ := foldlM_narrowed covers properBounds proper regular
    crosses positive within Axis.all unset
  -- the end is only known after an axis along which the ray moves
  obtain ⟨axis, moving⟩ := moves
  have ends := far (.inr ⟨axis, axis.mem_all, moving⟩)
  have forwards := Single.not_lt_of_le (Single.le_trans narrowed.begins ends)
  refine ⟨_, startSpan_eq_some.mpr ⟨clipped, folds, forwards, rfl⟩, ?_, ?_⟩
  · exact Single.max_le (fun _ => narrowed.begins) (Single.le_of_lt positive)
  · exact Single.le_min (fun _ => ends) (Single.le_of_lt within)

end Sightline.Hierarchy
