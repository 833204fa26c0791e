import Sightline.Proofs.Geometry.Ray
import Sightline.Proofs.Single.NoValue

/-!
# When a ray enters a box

Clipping a span to a slab leaves exactly those of its times at which the ray is in the slab, so clipping
all times to the three slabs leaves those at which it is in the box. The time of entry is the first of
them from zero on, and infinite if there is none. A box around another one has all of its times: the ray
enters it no later, and a ray that starts in the box enters it at once.
-/
namespace Sightline

namespace Span

variable {span other : Span} {time : Single} {p q : Single → Prop}

/-- What two spans have in common; it is reversed if that is nothing. -/
def meet (span other : Span) : Span :=
  ⟨if span.near < other.near then other.near else span.near,
    if other.far < span.far then other.far else span.far⟩

theorem has_meet_iff (numberNear : other.near.isNaN = false) (numberFar : other.far.isNaN = false) :
    (span.meet other).Has time ↔ span.Has time ∧ other.Has time := by
  unfold meet Has
  rw [Single.raise_le_iff numberNear, Single.le_lower_iff numberFar, and_and_and_comm]

/-- A span has exactly the times with a property, or there is no span and no such time. -/
inductive Collects (p : Single → Prop) : Option Span → Prop where
  | missed (never : ∀ time, ¬p time) : Collects p none
  | crossed {span : Span} (ordered : span.near ≤ span.far)
      (has_iff : ∀ time, span.Has time ↔ p time) : Collects p (some span)

theorem Collects.congr {outcome : Option Span} (collects : Collects p outcome)
    (same : ∀ time, p time ↔ q time) : Collects q outcome := by
  cases collects with
  | missed never => exact .missed fun time has => never time ((same time).mpr has)
  | crossed ordered has_iff => exact .crossed ordered fun time => (has_iff time).trans (same time)

end Span

namespace Ray

variable {r : Ray} {axis : Axis} {time : Single} {b c : Box} {span : Span}

/-! ### One slab after the other -/

/-- The times at which a ray reaches the faces of a box across an axis, in their order. -/
def passage (r : Ray) (b : Box) (axis : Axis) : Span :=
  ⟨min (r.timeTo axis (b.hi.get axis)) (r.timeTo axis (b.lo.get axis)),
    max (r.timeTo axis (b.lo.get axis)) (r.timeTo axis (b.hi.get axis))⟩

theorem clipToSlab_of_still (still : (r.direction.get axis).rank = 0) :
    r.clipToSlab b span axis =
      if r.origin.get axis < b.lo.get axis ∨ b.hi.get axis < r.origin.get axis then none
      else some span :=
  if_pos (Single.same_zero_iff.mpr still)

theorem RegularOn.clipToSlab_of_moves (regular : r.RegularOn axis) (proper : b.ProperOn axis)
    (moves : (r.direction.get axis).rank ≠ 0) :
    r.clipToSlab b span axis =
      if (span.meet (r.passage b axis)).far < (span.meet (r.passage b axis)).near then none
      else some (span.meet (r.passage b axis)) := by
  unfold passage
  rw [Single.min_of_number (regular.isNaN_timeTo moves proper.finiteHi),
    Single.max_of_number (regular.isNaN_timeTo moves proper.finiteLo)]
  exact if_neg fun same => moves (Single.same_zero_iff.mp same)

theorem RegularOn.collects_of_still (regular : r.RegularOn axis) (proper : b.ProperOn axis)
    (still : (r.direction.get axis).rank = 0) (ordered : span.near ≤ span.far) :
    Span.Collects (fun time => span.Has time ∧ r.InSlab b time axis) (r.clipToSlab b span axis) := by
  have numberOrigin := Single.isNaN_of_isFinite regular.origin
  rw [clipToSlab_of_still still]
  simp only [InSlab, if_pos still]
  split
  next outside =>
    refine .missed fun time inSlab => ?_
    obtain ⟨-, above, below⟩ := inSlab
    exact outside.elim (Single.not_lt_of_le above) (Single.not_lt_of_le below)
  next inside =>
    rw [not_or] at inside
    have above := Single.le_of_not_lt numberOrigin proper.ordered.1 inside.1
    have below := Single.le_of_not_lt proper.ordered.2.1 numberOrigin inside.2
    exact .crossed ordered fun time => (and_iff_left ⟨above, below⟩).symm

theorem RegularOn.collects_of_moves (regular : r.RegularOn axis) (proper : b.ProperOn axis)
    (moves : (r.direction.get axis).rank ≠ 0) (ordered : span.near ≤ span.far) :
    Span.Collects (fun time => span.Has time ∧ r.InSlab b time axis) (r.clipToSlab b span axis) := by
  have numberLo := regular.isNaN_timeTo moves proper.finiteLo
  have numberHi := regular.isNaN_timeTo moves proper.finiteHi
  -- a time of a face may be infinite, but it is a number, so each face is met first or last
  have numberNear : (r.passage b axis).near.isNaN = false := (Single.min_le_left numberHi).1
  have numberFar : (r.passage b axis).far.isNaN = false := (Single.le_max_left numberLo).2.1
  have passes (time : Single) : (r.passage b axis).Has time ↔ r.InSlab b time axis := by
    rw [InSlab, if_neg moves, Single.min_le_iff numberLo numberHi, or_comm,
      ← Single.min_le_iff numberHi numberLo]
    rfl
  have kept (time : Single) : (span.meet (r.passage b axis)).Has time ↔
      span.Has time ∧ r.InSlab b time axis := by
    rw [Span.has_meet_iff numberNear numberFar, passes]
  rw [regular.clipToSlab_of_moves proper moves]
  split
  next reversed =>
    refine .missed fun time has => ?_
    obtain ⟨entered, left⟩ := (kept time).mpr has
    exact Single.not_lt_of_le (Single.le_trans entered left) reversed
  next forwards =>
    have later := (Single.le_raise ordered.1 numberNear).1
    have sooner := (Single.lower_le ordered.2.1 numberFar).1
    exact .crossed (Single.le_of_not_lt sooner.1 later.2.1 forwards) kept

/-- Clipping leaves exactly the times of a span at which the ray is in the slab. -/
theorem RegularOn.collects_clipToSlab (regular : r.RegularOn axis) (proper : b.ProperOn axis)
    (ordered : span.near ≤ span.far) :
    Span.Collects (fun time => span.Has time ∧ r.InSlab b time axis) (r.clipToSlab b span axis) := by
  by_cases still : (r.direction.get axis).rank = 0
  · exact regular.collects_of_still proper still ordered
  · exact regular.collects_of_moves proper still ordered

theorem collects_foldlM (regular : ∀ axis, r.RegularOn axis) (proper : b.Proper) (axes : List Axis)
    (ordered : span.near ≤ span.far) :
    Span.Collects (fun time => span.Has time ∧ ∀ axis ∈ axes, r.InSlab b time axis)
      (axes.foldlM (r.clipToSlab b) span) := by
  -- what the first slab leaves is a span in order again, with which the others go on
  induction axes generalizing span with
  | nil => exact .crossed ordered fun time => (and_iff_left nofun).symm
  | cons axis axes ih =>
    rw [List.foldlM_cons]
    have step := (regular axis).collects_clipToSlab (proper axis) ordered
    cases clipped : r.clipToSlab b span axis with
    | none =>
      rw [clipped] at step
      obtain ⟨never⟩ := step
      refine .missed fun time inSlabs => never time ?_
      exact ⟨inSlabs.1, inSlabs.2 axis (.head _)⟩
    | some first =>
      rw [clipped] at step
      obtain - | ⟨ordered, has_iff⟩ := step
      refine (ih ordered).congr fun time => ?_
      rw [has_iff, List.forall_mem_cons, and_assoc]

/-- Of all times those remain at which the ray is in the box. -/
theorem collects_crosses (regular : ∀ axis, r.RegularOn axis) (proper : b.Proper) :
    Span.Collects (fun time => time.isNaN = false ∧ r.Crosses b time)
      (Axis.all.foldlM (r.clipToSlab b) ⟨.negativeInfinity, .infinity⟩) := by
  refine (collects_foldlM regular proper Axis.all (Single.negativeInfinity_le rfl)).congr fun time => ?_
  refine and_congr ?_ Axis.forall_mem_all
  exact ⟨fun has => has.1.2.1, fun number =>
    ⟨Single.negativeInfinity_le number, Single.le_infinity number⟩⟩

/-! ### The first time in a box -/

/-- The first time, from zero on, at which a ray is in a box; infinity if there is none. -/
structure IsEntry (r : Ray) (b : Box) (entry : Single) : Prop where
  nonneg : 0 ≤ entry
  le_of_crosses : ∀ time, 0 ≤ time → r.Crosses b time → entry ≤ time
  crosses : entry < .infinity → r.Crosses b entry

theorem isEntry_infinity (never : ∀ time, 0 ≤ time → ¬r.Crosses b time) :
    r.IsEntry b .infinity where
  nonneg := Single.le_infinity (by decide +kernel)
  le_of_crosses time positive crosses := absurd crosses (never time positive)
  crosses before := absurd before.2.2 (Int.lt_irrefl _)

/-- What is left of all times decides when the ray enters: a span that ends before zero lies behind the
ray, and one that begins before zero is around its origin. -/
theorem isEntry_entryTime (regular : ∀ axis, r.RegularOn axis) (proper : b.Proper) :
    r.IsEntry b (r.entryTime b) := by
  have numberZero : (0 : Single).isNaN = false := by decide +kernel
  have collects := collects_crosses regular proper
  unfold entryTime
  cases clipped : Axis.all.foldlM (r.clipToSlab b) ⟨.negativeInfinity, .infinity⟩ with
  | none =>
    rw [clipped] at collects
    obtain ⟨never⟩ := collects
    exact isEntry_infinity fun time positive crosses => never time ⟨positive.2.1, crosses⟩
  | some span =>
    rw [clipped] at collects
    obtain - | ⟨ordered, has_iff⟩ := collects
    have has (time : Single) (positive : 0 ≤ time) (crosses : r.Crosses b time) : span.Has time :=
      (has_iff time).mpr ⟨positive.2.1, crosses⟩
    dsimp only
    split
    next behind =>
      refine isEntry_infinity fun time positive crosses => ?_
      have reached := Single.le_trans positive (has time positive crosses).2
      exact Single.not_lt_of_le reached behind
    next ahead =>
      -- the span ends at zero or later, so it still has the later one of its begin and zero
      have ends : 0 ≤ span.far := Single.le_of_not_lt ordered.2.1 numberZero ahead
      have entered : span.Has (max span.near 0) :=
        ⟨Single.le_max_left ordered.1, Single.max_le (fun _ => ordered) ends⟩
      refine ⟨Single.le_max_right numberZero, fun time positive crosses => ?_, fun _ => ?_⟩
      · exact Single.max_le (fun _ => (has time positive crosses).1) positive
      · exact ((has_iff _).mp entered).2

/-! ### Boxes around others, and around the origin -/

theorem RegularOn.timeTo_origin (regular : r.RegularOn axis)
    (moves : (r.direction.get axis).rank ≠ 0) :
    (r.timeTo axis (r.origin.get axis)).Same 0 := by
  have zero : (r.origin.get axis - r.origin.get axis).rank = 0 := by
    rw [Single.rank_sub regular.origin regular.origin, Int.sub_self, Single.roundedRank_zero]
  rw [Single.same_zero_iff, timeTo,
    Single.rank_mul (Single.finite_of_zero zero) (regular.moves moves), Single.signedUnits_eq, zero,
    Single.unitsAt_zero, Int.zero_mul, Single.roundedRank_zero]

theorem crosses_zero (regular : ∀ axis, r.RegularOn axis) (proper : b.Proper)
    (inside : b.Contains r.origin) : r.Crosses b 0 := by
  intro axis
  obtain ⟨above, below⟩ := Box.contains_iff.mp inside axis
  by_cases still : (r.direction.get axis).rank = 0
  · rw [InSlab, if_pos still]
    exact ⟨above, below⟩
  · -- the ray comes to the plane of its origin at zero, between the times of the faces
    have now := (regular axis).timeTo_origin still
    obtain ⟨entered, left⟩ := (regular axis).timeTo_between still (proper axis) above below
    rw [(regular axis).inSlab_iff still (proper axis)]
    exact ⟨Single.le_trans entered now.le, Single.le_trans now.symm.le left⟩

theorem entryTime_le_of_covers (regular : ∀ axis, r.RegularOn axis) (properB : b.Proper)
    (properC : c.Proper) (covers : b.Covers c) : r.entryTime b ≤ r.entryTime c := by
  have around := isEntry_entryTime regular properB
  have inner := isEntry_entryTime regular properC
  by_cases enters : r.entryTime c < .infinity
  · -- when the ray enters the inner box it is in the one around it too
    have crosses := (inner.crosses enters).of_covers regular covers properB properC
    exact around.le_of_crosses _ inner.nonneg crosses
  · rw [Single.eq_infinity inner.nonneg.2.1 enters]
    exact Single.le_infinity around.nonneg.2.1

/-- A ray enters a larger box no later, so it never misses a box of which it hits a part. It is at zero
in every box that its origin lies in, be it on a face. -/
theorem entryTime_antitone {origin direction : Vec} (finite : origin.isFinite = true)
    (invertible : ∀ axis, (direction.get axis).Same 0 ∨
      ((direction.get axis).isFinite = true ∧ (1 / direction.get axis).isFinite = true))
    (properB : b.Proper) (properC : c.Proper) (covers : b.Covers c) :
    (ofDirection origin direction).entryTime b ≤ (ofDirection origin direction).entryTime c ∧
      (((ofDirection origin direction).entryTime b).Same .infinity →
        ((ofDirection origin direction).entryTime c).Same .infinity) ∧
      (c.Contains origin → ((ofDirection origin direction).entryTime c).Same 0) := by
  have regular (axis : Axis) : (ofDirection origin direction).RegularOn axis := by
    have finiteOrigin := Vec.isFinite_get finite axis
    rcases invertible axis with still | ⟨finiteDirection, inverse⟩
    · have zero := Single.same_zero_iff.mp still
      exact regularOn_ofDirection finiteOrigin (Single.finite_of_zero zero) (.inl zero)
    · exact regularOn_ofDirection finiteOrigin finiteDirection (.inr inverse)
  have earlier := entryTime_le_of_covers regular properB properC covers
  have entry := isEntry_entryTime regular properC
  refine ⟨earlier, fun missed => ?_, fun inside => ?_⟩
  · have latest := Single.le_trans missed.symm.le earlier
    exact Single.same_of_le (Single.le_infinity entry.nonneg.2.1) latest
  · have atOnce := entry.le_of_crosses 0 (Single.le_self (by decide +kernel))
      (crosses_zero regular properC inside)
    exact Single.same_of_le atOnce entry.nonneg

/-- A ray down a corridor, slowly to the left and along its floor. -/
def downCorridor (origin : Vec) : Ray := ofDirection origin ⟨-0.5, 0, 3⟩

/-- A part of the corridor. -/
def niche : Box := ⟨⟨-1, -2, 4⟩, ⟨0, 2, 8⟩⟩

/-- A box around it, so wide that the ray needs more time for it than a word can hold. -/
def vault : Box := ⟨⟨-3e38, -2, 3⟩, ⟨3e38, 2, 9⟩⟩

/-- Outside, the ray is in the vault long before the niche; from the corner of the niche there is
nothing to wait for. -/
theorem entryTime_antitone_niche : vault.Covers niche ∧
    (downCorridor ⟨1, 2, 1⟩).entryTime niche = 2 ∧
    (downCorridor ⟨1, 2, 1⟩).entryTime vault ≤ (downCorridor ⟨1, 2, 1⟩).entryTime niche ∧
    niche.Contains ⟨0, -2, 4⟩ ∧ ((downCorridor ⟨0, -2, 4⟩).entryTime niche).Same 0 := by
  have invertible : ∀ axis, ((⟨-0.5, 0, 3⟩ : Vec).get axis).Same 0 ∨
      (((⟨-0.5, 0, 3⟩ : Vec).get axis).isFinite = true ∧
        (1 / (⟨-0.5, 0, 3⟩ : Vec).get axis).isFinite = true) := by
    decide +kernel
  have proper : vault.Proper ∧ niche.Proper := by decide +kernel
  have covers : vault.Covers niche := by decide +kernel
  have corner : niche.Contains ⟨0, -2, 4⟩ := by decide +kernel
  refine ⟨covers, by decide +kernel, ?_, corner, ?_⟩
  · exact (entryTime_antitone (by decide +kernel) invertible proper.1 proper.2 covers).1
  · exact (entryTime_antitone (by decide +kernel) invertible proper.1 proper.2 covers).2.2 corner

end Ray

end Sightline
