import Sightline.Hierarchy.RayWalk

/-!
# Walking a hierarchy at a point

The walk visits every leaf whose part of space holds a point. It goes left first where the point lies
on the inner side of both clips of a node, and keeps the right child for later.
-/
namespace Sightline.Hierarchy

variable {σ : Type}

/-- Meets one object. -/
abbrev PointVisitor (σ : Type) := Nat → σ → Except Failure σ

structure PointWalk (σ : Type) where
  /-- The node to look at; without one the walk returns to a node kept for later. -/
  current : Option Nat
  later : List Nat
  memo : σ

/-- Visits objects in order. -/
def visitEach (visit : PointVisitor σ) : List Nat → σ → Except Failure σ
  | [], memo => .ok memo
  | object :: rest, memo => do visitEach visit rest (← visit object memo)

/-- One step of a walk: another walk, or the end with its memo. A walk with no room left to keep a
node ends. -/
def pointStep (h : Hierarchy) (point : Vec) (visit : PointVisitor σ) (walk : PointWalk σ) :
    Except Failure (PointWalk σ ⊕ σ) :=
  match walk.current with
  | none =>
    match walk.later with
    | [] => .ok (.inr walk.memo)
    | node :: later => .ok (.inl ⟨some node, later, walk.memo⟩)
  | some node =>
    match h.nodes[node]? with
    | none => .ok (.inl { walk with current := none })
    | some (.split axis child left right) =>
      let p := point.get axis
      if left < p ∧ p < right then .ok (.inl { walk with current := none })
      else if left < p then .ok (.inl { walk with current := some (child + 1) })
      else if p < right then .ok (.inl { walk with current := some child })
      else if walk.later.length = stackSize then .ok (.inr walk.memo)
      else .ok (.inl ⟨some child, (child + 1) :: walk.later, walk.memo⟩)
    | some (.narrow axis child low high) =>
      let p := point.get axis
      if p < low ∨ high < p then .ok (.inl { walk with current := none })
      else .ok (.inl { walk with current := some child })
    | some (.leaf first count) => do
      let objects ← h.leafObjects first count
      let memo ← visitEach visit objects walk.memo
      return .inl ⟨none, walk.later, memo⟩

/-- Takes at most the given number of steps. -/
def runPoint (h : Hierarchy) (point : Vec) (visit : PointVisitor σ) :
    Nat → PointWalk σ → Except Failure σ
  | 0, _ => .error .endless
  | steps + 1, walk => do
    match ← h.pointStep point visit walk with
    | .inl walk => runPoint h point visit steps walk
    | .inr memo => return memo

/-- Visits the objects whose part of the hierarchy holds a point. -/
def walkPoint (h : Hierarchy) (point : Vec) (visit : PointVisitor σ) (memo : σ) :
    Except Failure σ :=
  if h.isEmpty || !decide (h.bounds.Contains point) then .ok memo
  else h.runPoint point visit h.stepLimit ⟨some 0, [], memo⟩

end Sightline.Hierarchy
