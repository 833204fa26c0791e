import Sightline.Hierarchy.PointWalk
import Sightline.Proofs.Hierarchy.Rewriting
import Sightline.Proofs.Lookups

/-!
# What walks meet

The leaves of a hierarchy that passed the checks of its reader lie within its objects. If besides all
objects are numbers below a limit, then a walk meets nothing else, wherever it comes to and however often
it comes back there: each of its steps is safe if its visits are safe below the limit.
-/
namespace Sightline

namespace Hierarchy

/-- The objects of each leaf can be looked up, and are numbers below the limit. -/
def MeetsBelow (h : Hierarchy) (limit : Nat) : Prop :=
  ∀ first count : Nat, Node.leaf first count ∈ h.nodes.toList →
    ∃ objects, h.leafObjects first count = .ok objects ∧ ∀ object ∈ objects, object < limit

/-! ### From the checks of the reader -/

theorem leaf_of_checkNodes {nodes objects index first count : Nat} {list : List Node}
    (checked : checkNodes nodes objects index list = .ok ()) (listed : Node.leaf first count ∈ list) :
    first + count ≤ objects := by
  induction list generalizing index with
  | nil => cases listed
  | cons node rest ih =>
    obtain ⟨_, passed, others⟩ := bind_eq_ok.mp checked
    cases listed with
    | head =>
      rw [checkNode] at passed
      split at passed
      next inside => exact inside
      next => cases passed
    | tail _ behind => exact ih others behind

theorem checkObjects_eq_ok {h : Hierarchy} {limit : Nat} (checked : h.checkObjects limit = .ok ()) :
    ∀ object ∈ h.objects.toList, object < limit := by
  rw [checkObjects] at checked
  split at checked
  next => cases checked
  next none => simpa using none

theorem meetsBelow_of_read {h : Hierarchy} {input rest : List UInt8} {limit : Nat}
    (read : reader.run input = .ok (h, rest)) (checked : h.checkObjects limit = .ok ()) :
    h.MeetsBelow limit := by
  obtain ⟨words, taken⟩ := reader_eq_ok read
  intro first count listed
  refine ⟨_, if_pos (leaf_of_checkNodes taken.checked listed), ?_⟩
  intro object inLeaf
  rw [Array.toList_extract] at inLeaf
  exact checkObjects_eq_ok checked object (List.mem_of_mem_drop (List.mem_of_mem_take inLeaf))

theorem meetsBelow_empty (limit : Nat) : empty.MeetsBelow limit := by nofun

/-! ### Along a ray -/

section

variable {σ : Type} {h : Hierarchy} {limit : Nat}

/-- Visits to numbers below a limit are safe. -/
def SafeBelow (visit : Visitor σ) (limit : Nat) : Prop :=
  ∀ object < limit, ∀ progress, Safe (visit object progress)

variable {visit : Visitor σ}

theorem safe_visitAll (visits : SafeBelow visit limit) (stop : Bool) {objects : List Nat}
    (below : ∀ object ∈ objects, object < limit) (progress : Progress σ) :
    Safe (visitAll visit stop objects progress) := by
  -- a hit may end the visits early, which leaves out safe ones only
  induction objects generalizing progress with
  | nil => trivial
  | cons object rest ih =>
    refine (visits object (below object (.head _)) progress).bind ?_
    rintro ⟨hit, after⟩ -
    dsimp only
    split
    · trivial
    · exact ih (fun other listed => below other (.tail _ listed)) after

/-- Whatever part a walk is at, its next step is safe. -/
theorem safe_rayStep (meets : h.MeetsBelow limit) (visits : SafeBelow visit limit) (ray : Ray)
    (stop : Bool) (walk : RayWalk σ) : Safe (h.rayStep ray visit stop walk) := by
  rw [rayStep]
  split
  · split <;> trivial
  next part current =>
    split
    · trivial
    · trivial
    · trivial
    next first count stands =>
      have listed := List.mem_of_getElem? ((Array.getElem?_toList ..).trans stands)
      obtain ⟨objects, known, below⟩ := meets first count listed
      rw [known]
      refine (safe_visitAll visits stop below walk.progress).bind ?_
      rintro ⟨stopped, after⟩ -
      cases stopped <;> trivial

theorem safe_runRay (meets : h.MeetsBelow limit) (visits : SafeBelow visit limit) (ray : Ray)
    (stop : Bool) (steps : Nat) (walk : RayWalk σ) : Safe (h.runRay ray visit stop steps walk) := by
  -- every step is safe wherever the walk is, so the induction needs to know nothing of it
  induction steps generalizing walk with
  | zero => nofun
  | succ steps ih =>
    refine (safe_rayStep meets visits ray stop walk).bind ?_
    rintro (next | progress) -
    · exact ih next
    · trivial

theorem safe_walkRay (meets : h.MeetsBelow limit) (visits : SafeBelow visit limit) (ray : Ray)
    (stop : Bool) (progress : Progress σ) : Safe (h.walkRay ray visit stop progress) := by
  rw [walkRay]
  split
  · trivial
  · split
    · trivial
    · exact safe_runRay meets visits ray stop _ _

end

/-! ### At a point -/

section

variable {σ : Type} {h : Hierarchy} {limit : Nat} {P : σ → Prop}

/-- Visits to numbers below a limit are safe and keep a property of the memo. -/
def KeepsBelow (visit : PointVisitor σ) (P : σ → Prop) (limit : Nat) : Prop :=
  ∀ object < limit, ∀ memo, P memo → Safely P (visit object memo)

variable {visit : PointVisitor σ}

theorem safely_visitEach (visits : KeepsBelow visit P limit) {objects : List Nat}
    (below : ∀ object ∈ objects, object < limit) {memo : σ} (known : P memo) :
    Safely P (visitEach visit objects memo) := by
  induction objects generalizing memo with
  | nil => exact known
  | cons object rest ih =>
    refine (visits object (below object (.head _)) memo known).bind fun after knownAfter => ?_
    exact ih (fun other listed => below other (.tail _ listed)) knownAfter

theorem safely_pointStep (meets : h.MeetsBelow limit) (visits : KeepsBelow visit P limit)
    (point : Vec) {walk : PointWalk σ} (known : P walk.memo) :
    Safely (Sum.elim (fun next => P next.memo) P) (h.pointStep point visit walk) := by
  rw [pointStep]
  split
  · split <;> exact known
  next node current =>
    split
    · exact known
    · dsimp only
      split_ifs <;> exact known
    · dsimp only
      split_ifs <;> exact known
    next first count stands =>
      have listed := List.mem_of_getElem? ((Array.getElem?_toList ..).trans stands)
      obtain ⟨objects, found, below⟩ := meets first count listed
      rw [found]
      exact (safely_visitEach visits below known).bind fun after knownAfter => knownAfter

theorem safely_runPoint (meets : h.MeetsBelow limit) (visits : KeepsBelow visit P limit)
    (point : Vec) (steps : Nat) {walk : PointWalk σ} (known : P walk.memo) :
    Safely P (h.runPoint point visit steps walk) := by
  -- what is known of the memo carries the induction, whichever part the walk is at
  induction steps generalizing walk with
  | zero => nofun
  | succ steps ih =>
    refine (safely_pointStep meets visits point known).bind ?_
    rintro (next | memo) knownNext
    · exact ih knownNext
    · exact knownNext

theorem safely_walkPoint (meets : h.MeetsBelow limit) (visits : KeepsBelow visit P limit)
    (point : Vec) {memo : σ} (known : P memo) : Safely P (h.walkPoint point visit memo) := by
  rw [walkPoint]
  split
  · exact known
  · exact safely_runPoint meets visits point _ known

end

end Hierarchy

end Sightline
