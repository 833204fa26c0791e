import Sightline.Proofs.Hierarchy.Starting

/-!
# Walks through bounds inside other bounds

A ray that enters the bounds of a hierarchy also enters any bounds around them. The spans in both are
narrowed axis by axis: as the times of planes follow their order, the slab of the inner bounds lies in
the slab of the outer ones, and so do the spans. An axis along which the ray hardly moves narrows
neither of them.
-/
namespace Sightline.Hierarchy

variable {h inner : Hierarchy} {ray : Ray} {axis : Axis} {reach : Single}
  {span wide narrow next : Span}

/-- The end of the wide span is set if that of the narrow one is, and the narrow one lies in it. -/
structure Encloses (wide narrow : Span) : Prop where
  near : wide.near ≤ narrow.near
  far : narrow.far ≤ wide.far
  unset : narrow.far < 0 → wide.far < 0

theorem Encloses.clipped {wideSlab narrowSlab : Span} (encloses : Encloses wide narrow)
    (near : wideSlab.near ≤ narrowSlab.near) (far : narrowSlab.far ≤ wideSlab.far)
    (positive : ¬(clip narrow narrowSlab).far ≤ 0) :
    Encloses (clip wide wideSlab) (clip narrow narrowSlab) where
  near := by
    -- the narrow begin is behind all that the wide one may be
    have raised : narrow.near ≤ (clip narrow narrowSlab).near ∧
        narrowSlab.near ≤ (clip narrow narrowSlab).near :=
      Single.le_raise encloses.near.2.1 near.2.1
    exact (Single.raise_le_iff near.1).mpr
      ⟨Single.le_trans encloses.near raised.1, Single.le_trans near raised.2⟩
  far := by
    have lowered : (clip narrow narrowSlab).far ≤ narrowSlab.far := by
      rw [clip]
      dsimp only
      split
      next => exact Single.le_self far.1
      next kept => exact Single.le_of_not_lt far.1 encloses.far.1 fun less => kept (.inl less)
    rw [clip.eq_def wide]
    dsimp only
    split
    next => exact Single.le_trans lowered far
    next kept =>
      -- the end of the wide span was set before, so that of the narrow one was too
      have set : ¬narrow.far < 0 := fun unset => kept (.inr (encloses.unset unset))
      refine Single.le_trans ?_ encloses.far
      rw [clip]
      dsimp only
      split
      next replaced => exact Single.le_of_lt (replaced.resolve_right set)
      next => exact Single.le_self encloses.far.1
  unset negative := absurd (Single.le_of_lt negative) positive

/-- The bounds of one hierarchy lie in those of the other one. -/
structure InBounds (h inner : Hierarchy) : Prop where
  finiteLo : h.bounds.lo.isFinite = true
  finiteHi : h.bounds.hi.isFinite = true
  lo : h.bounds.Contains inner.bounds.lo
  hi : h.bounds.Contains inner.bounds.hi

theorem InBounds.slabs (within : InBounds h inner) (regular : ray.RegularOn axis)
    (moves : (ray.direction.get axis).rank ≠ 0) :
    (slab ray h.bounds axis).near ≤ (slab ray inner.bounds axis).near ∧
      (slab ray inner.bounds axis).far ≤ (slab ray h.bounds axis).far := by
  obtain ⟨aboveLo, belowLo⟩ := Box.contains_iff.mp within.lo axis
  obtain ⟨aboveHi, belowHi⟩ := Box.contains_iff.mp within.hi axis
  have finiteLo := Vec.isFinite_get within.finiteLo axis
  have finiteHi := Vec.isFinite_get within.finiteHi axis
  -- the inner bounds need not be in order, but each of their faces lies between the outer ones
  have proper : h.bounds.ProperOn axis := ⟨finiteLo, finiteHi, Single.le_trans aboveLo belowLo⟩
  have timeLo := timeTo_in_slab regular moves proper aboveLo belowLo
  have timeHi := timeTo_in_slab regular moves proper aboveHi belowHi
  rw [slab.eq_def ray inner.bounds]
  dsimp only
  split
  · exact ⟨timeHi.1, timeLo.2⟩
  · exact ⟨timeLo.1, timeHi.2⟩

theorem InBounds.clipStart {origin direction : Vec} (within : InBounds h inner)
    (finite : (Ray.ofDirection origin direction).isFinite = true) (encloses : Encloses wide narrow)
    (clipped : inner.clipStart (.ofDirection origin direction) reach narrow axis = some next) :
    ∃ other, h.clipStart (.ofDirection origin direction) reach wide axis = some other ∧
      Encloses other next := by
  rw [clipStart_eq] at clipped ⊢
  split at clipped
  next along =>
    cases clipped
    exact ⟨wide, if_pos along, encloses⟩
  next across =>
    have regular : (Ray.ofDirection origin direction).RegularOn axis :=
      Ray.regularOn_of_not_near finite across
    have moves : (direction.get axis).rank ≠ 0 := fun still => across (Single.near_zero still)
    obtain ⟨near, far⟩ := within.slabs regular moves
    rw [Option.ite_none_left_eq_some] at clipped
    -- what is left of the narrow span is not empty, so neither is what is left of the wide one
    obtain ⟨inside, same⟩ := clipped
    cases same
    have further := encloses.clipped near far fun spent => inside (.inl spent)
    refine ⟨_, ?_, further⟩
    rw [if_neg across, if_neg]
    rintro (spent | beyond)
    · exact inside (.inl (Single.le_trans further.far spent))
    · exact inside (.inr (Single.le_trans beyond further.near))

theorem InBounds.foldlM {origin direction : Vec} (within : InBounds h inner)
    (finite : (Ray.ofDirection origin direction).isFinite = true) (axes : List Axis)
    (encloses : Encloses wide narrow)
    (folds : axes.foldlM (inner.clipStart (.ofDirection origin direction) reach) narrow = some next) :
    ∃ other, axes.foldlM (h.clipStart (.ofDirection origin direction) reach) wide = some other ∧
      Encloses other next := by
  induction axes generalizing wide narrow with
  | nil =>
    cases folds
    exact ⟨wide, rfl, encloses⟩
  | cons axis axes ih =>
    rw [List.foldlM_cons] at folds ⊢
    obtain ⟨first, clipped, rest⟩ := Option.bind_eq_some_iff.mp folds
    obtain ⟨other, clips, enclosesFirst⟩ := within.clipStart finite encloses clipped
    obtain ⟨last, further, enclosesLast⟩ := ih enclosesFirst rest
    exact ⟨last, Option.bind_eq_some_iff.mpr ⟨other, clips, further⟩, enclosesLast⟩

/-- Where a walk starts in the inner bounds, one starts in the bounds around them. -/
theorem InBounds.startSpan {origin direction : Vec} (within : InBounds h inner)
    (finite : (Ray.ofDirection origin direction).isFinite = true)
    (starts : inner.startSpan (.ofDirection origin direction) reach = some span) :
    ∃ other, h.startSpan (.ofDirection origin direction) reach = some other := by
  have number : (-1 : Single).isNaN = false := by decide +kernel
  have unset : Encloses ⟨-1, -1⟩ ⟨-1, -1⟩ := ⟨Single.le_self number, Single.le_self number, id⟩
  obtain ⟨narrow, folds, forwards, -⟩ := startSpan_eq_some.mp starts
  obtain ⟨wide, further, encloses⟩ := within.foldlM finite Axis.all unset folds
  -- if the wide span were reversed, so would be the narrow one in it
  refine ⟨_, startSpan_eq_some.mpr ⟨wide, further, fun reversed => forwards ?_, rfl⟩⟩
  exact Single.lt_of_lt_of_le (Single.lt_of_le_of_lt encloses.far reversed) encloses.near

/-- Nothing is visited where the ray does not come to the bounds. -/
theorem walkRay_missed {σ : Type} {visit : Visitor σ} {stop : Bool} {memo : σ}
    (missed : ray.isFinite = true → h.startSpan ray reach = none) :
    h.walkRay ray visit stop ⟨reach, memo⟩ = .ok ⟨reach, memo⟩ := by
  rw [walkRay]
  split
  next => rfl
  next moves =>
    have finite : ray.isFinite = true := by
      rw [Bool.or_eq_true, not_or] at moves
      simpa using moves.2
    simp only [missed finite]

end Sightline.Hierarchy
