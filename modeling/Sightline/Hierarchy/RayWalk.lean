import Sightline.Hierarchy.Basic
import Sightline.Geometry.Ray

/-!
# Walking a hierarchy along a ray

The walk visits every leaf that the ray can reach within a distance, the near child of a node first.
It carries the span of the ray in the current part and keeps at most `stackSize` parts for later. A
visit to an object may shorten the distance; parts that begin beyond it are then left out. What the
visits find out travels in a memo of any type.

A walk takes one step a node and one step to return to a part kept for later. Where all children stand
behind their parents, fewer steps than `stepLimit` suffice; a walk that uses them up is `endless`.
-/
namespace Sightline.Hierarchy

variable {σ : Type}

/-- A part of the hierarchy and the span of the ray in it. -/
structure Part where
  node : Nat
  span : Span
deriving DecidableEq, Repr

/-- How far the ray still looks, and what was found so far. -/
structure Progress (σ : Type) where
  reach : Single
  memo : σ

/-- Meets one object; tells whether it was hit. -/
abbrev Visitor (σ : Type) := Nat → Progress σ → Except Failure (Bool × Progress σ)

structure RayWalk (σ : Type) where
  /-- The part to look at; without one the walk returns to a part kept for later. -/
  current : Option Part
  later : List Part
  progress : Progress σ

/-- Where a ray goes on from an inner node. -/
inductive Route where
  | nowhere
  | one (next : Part)
  | both (next later : Part)
deriving DecidableEq, Repr

/-- Narrows the span by the slab of one axis, or `none` if nothing is left of it. The span begins and
ends at minus one until an axis sets it; axes the ray hardly moves along are not looked at. -/
def clipStart (h : Hierarchy) (ray : Ray) (reach : Single) (span : Span) (axis : Axis) :
    Option Span :=
  if (ray.direction.get axis).Near 0 then some span
  else
    let toLo := ray.timeTo axis (h.bounds.lo.get axis)
    let toHi := ray.timeTo axis (h.bounds.hi.get axis)
    let enter := if toHi < toLo then toHi else toLo
    let leave := if toHi < toLo then toLo else toHi
    let near := if span.near < enter then enter else span.near
    let far := if leave < span.far ∨ span.far < 0 then leave else span.far
    if far ≤ 0 ∨ reach ≤ near then none else some ⟨near, far⟩

/-- The span of the ray in the bounds of the hierarchy, within its reach. -/
def startSpan (h : Hierarchy) (ray : Ray) (reach : Single) : Option Span := do
  let span ← Axis.all.foldlM (h.clipStart ray reach) ⟨-1, -1⟩
  if span.far < span.near then none
  else some ⟨max span.near 0, min span.far reach⟩

/-- Where the ray goes from a split: the near side is the left one unless the ray runs backwards. -/
def routeSplit (ray : Ray) (span : Span) (axis : Axis) (child : Nat) (left right : Single) :
    Route :=
  let backwards := (ray.direction.get axis).negative
  let front := ray.timeTo axis (if backwards then right else left)
  let back := ray.timeTo axis (if backwards then left else right)
  let nearChild := if backwards then child + 1 else child
  let farChild := if backwards then child else child + 1
  if front < span.near ∧ span.far < back then .nowhere
  else if front < span.near then .one ⟨farChild, ⟨max back span.near, span.far⟩⟩
  else if span.far < back then .one ⟨nearChild, ⟨span.near, min front span.far⟩⟩
  else .both ⟨nearChild, ⟨span.near, min front span.far⟩⟩
    ⟨farChild, ⟨max back span.near, span.far⟩⟩

/-- Where the ray goes from a narrow node. -/
def routeNarrow (ray : Ray) (span : Span) (axis : Axis) (child : Nat) (low high : Single) : Route :=
  let backwards := (ray.direction.get axis).negative
  let front := ray.timeTo axis (if backwards then high else low)
  let back := ray.timeTo axis (if backwards then low else high)
  let near := max front span.near
  let far := min back span.far
  if far < near then .nowhere else .one ⟨child, ⟨near, far⟩⟩

/-- Visits objects in order. With `stop` the first hit ends the walk, which `true` tells. -/
def visitAll (visit : Visitor σ) (stop : Bool) :
    List Nat → Progress σ → Except Failure (Bool × Progress σ)
  | [], progress => .ok (false, progress)
  | object :: rest, progress => do
    let (hit, progress) ← visit object progress
    if stop && hit then return (true, progress) else visitAll visit stop rest progress

/-- Follows a route; a walk with no room left to keep a part ends. -/
def follow (later : List Part) (progress : Progress σ) : Route → RayWalk σ ⊕ Progress σ
  | .nowhere => .inl ⟨none, later, progress⟩
  | .one next => .inl ⟨some next, later, progress⟩
  | .both next kept =>
    if later.length = stackSize then .inr progress
    else .inl ⟨some next, kept :: later, progress⟩

/-- One step of a walk: another walk, or the end with its progress. -/
def rayStep (h : Hierarchy) (ray : Ray) (visit : Visitor σ) (stop : Bool) (walk : RayWalk σ) :
    Except Failure (RayWalk σ ⊕ Progress σ) :=
  match walk.current with
  | none =>
    match walk.later with
    | [] => .ok (.inr walk.progress)
    | part :: later =>
      let current := if walk.progress.reach < part.span.near then none else some part
      .ok (.inl ⟨current, later, walk.progress⟩)
  | some part =>
    match h.nodes[part.node]? with
    | none => .ok (.inl { walk with current := none })
    | some (.split axis child left right) =>
      .ok (follow walk.later walk.progress (routeSplit ray part.span axis child left right))
    | some (.narrow axis child low high) =>
      .ok (follow walk.later walk.progress (routeNarrow ray part.span axis child low high))
    | some (.leaf first count) => do
      let objects ← h.leafObjects first count
      let (stopped, progress) ← visitAll visit stop objects walk.progress
      return if stopped then .inr progress else .inl ⟨none, walk.later, progress⟩

/-- Takes at most the given number of steps. -/
def runRay (h : Hierarchy) (ray : Ray) (visit : Visitor σ) (stop : Bool) :
    Nat → RayWalk σ → Except Failure (Progress σ)
  | 0, _ => .error .endless
  | steps + 1, walk => do
    match ← h.rayStep ray visit stop walk with
    | .inl walk => runRay h ray visit stop steps walk
    | .inr progress => return progress

/-- More steps than any walk takes in which children stand behind their parents. -/
def stepLimit (h : Hierarchy) : Nat := 1 <<< (64 + 2 * h.nodes.size)

/-- Visits the objects that a ray may hit within its reach. -/
def walkRay (h : Hierarchy) (ray : Ray) (visit : Visitor σ) (stop : Bool)
    (progress : Progress σ) : Except Failure (Progress σ) :=
  if h.isEmpty || !ray.isFinite then .ok progress
  else match h.startSpan ray progress.reach with
    | none => .ok progress
    | some span => h.runRay ray visit stop h.stepLimit ⟨some ⟨0, span⟩, [], progress⟩

end Sightline.Hierarchy
