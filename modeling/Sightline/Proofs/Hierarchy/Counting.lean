import Mathlib.Algebra.BigOperators.Group.List.Basic
import Sightline.Proofs.Hierarchy.Building

/-!
# Statistics describe the built nodes

Statistics are counted over a plan, and the nodes of a hierarchy are laid out from it. Both are told from
the parts of the plan: each part has one node, and the empty side of a one-sided part counts as a leaf
without a node. What counting adds for each part is therefore added up over the nodes.
-/
namespace Sightline

/-! ### Kinds of nodes -/

namespace Node

/-- The number of objects of a leaf. -/
def count? : Node → Option Nat
  | leaf _ count => some count
  | _ => none

def isLeaf (node : Node) : Bool := node.count?.isSome

/-- A leaf with as many objects as belong into a place of the histogram. -/
def fills (place : Fin 6) (node : Node) : Bool :=
  node.count?.any fun count => Hierarchy.Statistics.bucket count = place

def isNarrow : Node → Bool
  | narrow _ _ _ _ => true
  | _ => false

/-- A split without contents on one of its sides. -/
def isOneSided : Node → Bool
  | split _ _ left right => left = .negativeInfinity ∨ right = .infinity
  | _ => false

end Node

namespace Hierarchy

/-! ### Parts of a plan -/

namespace Plan

/-- A plan and everything below its top. -/
def parts : Plan → List Plan
  | leaf objects => [leaf objects]
  | split axis clipLeft clipRight left right =>
    split axis clipLeft clipRight left right :: (left.parts ++ right.parts)
  | narrow axis low high inner => narrow axis low high inner :: inner.parts
  | oneSided axis side clip inner => oneSided axis side clip inner :: inner.parts

def count? : Plan → Option Nat
  | leaf objects => some objects.length
  | _ => none

def isLeaf (plan : Plan) : Bool := plan.count?.isSome

def fills (place : Fin 6) (plan : Plan) : Bool :=
  plan.count?.any fun count => Statistics.bucket count = place

def isNarrow : Plan → Bool
  | narrow _ _ _ _ => true
  | _ => false

def isOneSided : Plan → Bool
  | oneSided _ _ _ _ => true
  | _ => false

/-- The most objects of a leaf. -/
def widest : Plan → Nat
  | leaf objects => objects.length
  | split _ _ _ left right => max left.widest right.widest
  | narrow _ _ _ inner => inner.widest
  | oneSided _ _ _ inner => inner.widest

variable {plan : Plan} {box : Nat → Box}

theorem respects_parts (respects : plan.Respects box) : ∀ part ∈ plan.parts, part.Respects box := by
  induction plan with
  | leaf objects =>
    rintro part (_ | ⟨_, ⟨⟩⟩)
    exact respects
  | split axis clipLeft clipRight left right ihLeft ihRight =>
    rintro part (_ | ⟨_, below⟩)
    · exact respects
    · obtain inLeft | inRight := List.mem_append.mp below
      · exact ihLeft respects.2.2.1 part inLeft
      · exact ihRight respects.2.2.2 part inRight
  | narrow axis low high inner ih =>
    rintro part (_ | ⟨_, below⟩)
    · exact respects
    · exact ih respects.2.2 part below
  | oneSided axis side clip inner ih =>
    rintro part (_ | ⟨_, below⟩)
    · exact respects
    · exact ih respects.2 part below

/-- What is told of a node from its part alone is true of as many nodes as parts. -/
theorem countP_nodesBelow {p : Node → Bool} {q : Plan → Bool}
    (agrees : ∀ part ∈ plan.parts, ∀ next first, p (part.top next first) = q part) (next first : Nat) :
    (plan.top next first :: plan.nodesBelow next first).countP p = plan.parts.countP q := by
  induction plan generalizing next first with
  | leaf objects =>
    have own := agrees _ (.head _) next first
    rw [nodesBelow, parts, List.countP_cons, own, List.countP_cons, List.countP_nil, List.countP_nil]
  | split axis clipLeft clipRight left right ihLeft ihRight =>
    have own := agrees _ (.head _) next first
    have ofLeft := ihLeft (fun part inLeft => agrees part (.tail _ (List.mem_append_left _ inLeft)))
      (next + 2) first
    have ofRight := ihRight (fun part inRight => agrees part (.tail _ (List.mem_append_right _ inRight)))
      (next + 2 + left.sizeBelow) (first + left.objects.length)
    -- both children stand in front of all that is below them
    simp only [List.countP_cons] at ofLeft ofRight
    simp only [nodesBelow, parts, List.countP_cons, List.countP_append, own, ← ofLeft, ← ofRight]
    omega
  | narrow axis low high inner ih =>
    have own := agrees _ (.head _) next first
    have below := ih (fun part inInner => agrees part (.tail _ inInner)) (next + 1) first
    rw [nodesBelow, List.countP_cons, below, own, parts, List.countP_cons]
  | oneSided axis side clip inner ih =>
    have own := agrees _ (.head _) next first
    have below := ih (fun part inInner => agrees part (.tail _ inInner)) (next + 1) first
    rw [nodesBelow, List.countP_cons, below, own, parts, List.countP_cons]

theorem countP_nodes {p : Node → Bool} {q : Plan → Bool} (bounds : Box)
    (agrees : ∀ part ∈ plan.parts, ∀ next first, p (part.top next first) = q part) :
    (plan.layOut bounds).nodes.countP p = plan.parts.countP q := by
  rw [layOut, List.countP_toArray]
  exact countP_nodesBelow agrees 1 0

/-! ### Kinds of parts -/

theorem count?_top (plan : Plan) (next first : Nat) : (plan.top next first).count? = plan.count? := by
  rcases plan with _ | _ | _ | ⟨_, side, _⟩
  case oneSided => cases side <;> rfl
  all_goals rfl

theorem isNarrow_top (plan : Plan) (next first : Nat) :
    (plan.top next first).isNarrow = plan.isNarrow := by
  rcases plan with _ | _ | _ | ⟨_, side, _⟩
  case oneSided => cases side <;> rfl
  all_goals rfl

/-- Only the clips of one-sided parts are infinite. -/
theorem isOneSided_top (respects : plan.Respects box) (next first : Nat) :
    (plan.top next first).isOneSided = plan.isOneSided := by
  cases plan with
  | leaf objects => rfl
  | split axis clipLeft clipRight left right =>
    have notLeft := Single.ne_negativeInfinity_of_isFinite respects.1.1
    have notRight := Single.ne_infinity_of_isFinite respects.2.1.1
    simp [top, Node.isOneSided, isOneSided, notLeft, notRight]
  | narrow axis low high inner => rfl
  | oneSided axis side clip inner => cases side <;> simp [top, Node.isOneSided, isOneSided]

/-- Leaves of a size stand among the nodes as they do among the parts. -/
theorem exists_leaf_iff (bounds : Box) (count : Nat) :
    (∃ first, Node.leaf first count ∈ (plan.layOut bounds).nodes) ↔
      ∃ part ∈ plan.parts, part.count? = some count := by
  have counts := countP_nodes (p := fun node => node.count? = some count) bounds
    fun part (_ : part ∈ plan.parts) next first => congrArg (fun found => decide (found = some count))
      (count?_top part next first)
  have positive : 0 < (plan.layOut bounds).nodes.countP (fun node => node.count? = some count) ↔
      0 < plan.parts.countP (fun part => part.count? = some count) := by rw [counts]
  simp only [Array.countP_pos_iff, List.countP_pos_iff, decide_eq_true_eq] at positive
  rw [← positive]
  constructor
  · rintro ⟨first, stands⟩
    exact ⟨_, stands, rfl⟩
  · rintro ⟨node, stands, found⟩
    cases node with
    | leaf first objects =>
      cases found
      exact ⟨first, stands⟩
    | split axis child left right => cases found
    | narrow axis child low high => cases found

theorem le_widest {count : Nat} :
    ∀ part ∈ plan.parts, part.count? = some count → count ≤ plan.widest := by
  induction plan with
  | leaf objects =>
    rintro part (_ | ⟨_, ⟨⟩⟩) found
    cases found
    exact Nat.le_refl _
  | split axis clipLeft clipRight left right ihLeft ihRight =>
    rintro part (_ | ⟨_, below⟩) found
    · cases found
    · obtain inLeft | inRight := List.mem_append.mp below
      · exact Nat.le_trans (ihLeft part inLeft found) (Nat.le_max_left ..)
      · exact Nat.le_trans (ihRight part inRight found) (Nat.le_max_right ..)
  | narrow axis low high inner ih =>
    rintro part (_ | ⟨_, below⟩) found
    · cases found
    · exact ih part below found
  | oneSided axis side clip inner ih =>
    rintro part (_ | ⟨_, below⟩) found
    · cases found
    · exact ih part below found

theorem exists_widest (plan : Plan) : ∃ part ∈ plan.parts, part.count? = some plan.widest := by
  induction plan with
  | leaf objects => exact ⟨_, .head _, rfl⟩
  | split axis clipLeft clipRight left right ihLeft ihRight =>
    rw [widest]
    obtain most | most := Nat.le_total left.widest right.widest
    · obtain ⟨part, listed, found⟩ := ihRight
      rw [Nat.max_eq_right most]
      exact ⟨part, .tail _ (List.mem_append_right _ listed), found⟩
    · obtain ⟨part, listed, found⟩ := ihLeft
      rw [Nat.max_eq_left most]
      exact ⟨part, .tail _ (List.mem_append_left _ listed), found⟩
  | narrow axis low high inner ih =>
    obtain ⟨part, listed, found⟩ := ih
    exact ⟨part, .tail _ listed, found⟩
  | oneSided axis side clip inner ih =>
    obtain ⟨part, listed, found⟩ := ih
    exact ⟨part, .tail _ listed, found⟩

end Plan

/-! ### Counting -/

namespace Statistics

/-- A leaf adds one to its place of the histogram. -/
theorem histogram_addLeaf (s : Statistics) (depth objects : Nat) (place : Fin 6) :
    (s.addLeaf depth objects).histogram[place] =
      s.histogram[place] + if bucket objects = place then 1 else 0 := by
  simp only [addLeaf, Fin.getElem_fin, Vector.getElem_set, Fin.ext_iff]
  split
  next same => simp only [same]
  next => rfl

theorem sum_addLeaf (s : Statistics) (depth objects : Nat) :
    (s.addLeaf depth objects).histogram.sum = s.histogram.sum + 1 := by
  have inside : (bucket objects).val < s.histogram.toList.length := by simp
  have parted : s.histogram.toList.sum = (s.histogram.toList.take (bucket objects)).sum +
      (s.histogram[bucket objects] + (s.histogram.toList.drop (bucket objects + 1)).sum) := by
    rw [← List.sum_take_add_sum_drop _ (bucket objects).val, List.drop_eq_getElem_cons inside,
      List.sum_cons]
    rfl
  have after : (s.addLeaf depth objects).histogram.toList =
      s.histogram.toList.set (bucket objects) (s.histogram[bucket objects] + 1) :=
    Vector.toList_set (bucket objects).isLt
  rw [← Vector.sum_toList, ← Vector.sum_toList, after, List.sum_set, if_pos inside, parted]
  omega

/-- What is counted once for each part of a kind. -/
theorem addPlan_countP {f : Statistics → Nat} {q : Plan → Bool}
    (leaf : ∀ s depth objects, f (s.addLeaf depth objects.length) =
      f s + if q (.leaf objects) then 1 else 0)
    (split : ∀ s axis clipLeft clipRight left right,
      f s.addNode = f s + if q (.split axis clipLeft clipRight left right) then 1 else 0)
    (narrow : ∀ s axis low high inner, f { s.addNode with narrowNodes := s.narrowNodes + 1 } =
      f s + if q (.narrow axis low high inner) then 1 else 0)
    (oneSided : ∀ s depth axis side clip inner,
      f (s.addNode.addLeaf depth 0) = f s + if q (.oneSided axis side clip inner) then 1 else 0)
    (plan : Plan) (depth : Nat) (s : Statistics) :
    f (addPlan depth plan s) = f s + plan.parts.countP q := by
  induction plan generalizing depth s with
  | leaf objects => rw [addPlan, leaf, Plan.parts, List.countP_singleton]
  | split axis clipLeft clipRight left right ihLeft ihRight =>
    rw [addPlan, ihRight, ihLeft, split s axis clipLeft clipRight left right, Plan.parts,
      List.countP_cons, List.countP_append]
    omega
  | narrow axis low high inner ih =>
    rw [addPlan, ih, narrow s axis low high inner, Plan.parts, List.countP_cons]
    omega
  | oneSided axis side clip inner ih =>
    rw [addPlan, ih, oneSided s _ axis side clip inner, Plan.parts, List.countP_cons]
    omega

variable (plan : Plan) (depth : Nat) (s : Statistics)

theorem nodes_addPlan :
    (addPlan depth plan s).nodes = s.nodes + plan.parts.countP fun part => !part.isLeaf := by
  apply addPlan_countP <;> intros <;> rfl

theorem narrowNodes_addPlan :
    (addPlan depth plan s).narrowNodes = s.narrowNodes + plan.parts.countP Plan.isNarrow := by
  apply addPlan_countP <;> intros <;> rfl

theorem leaves_addPlan : (addPlan depth plan s).leaves = s.leaves +
    plan.parts.countP fun part => part.isLeaf || part.isOneSided := by
  apply addPlan_countP <;> intros <;> rfl

theorem sum_addPlan : (addPlan depth plan s).histogram.sum = s.histogram.sum +
    plan.parts.countP fun part => part.isLeaf || part.isOneSided := by
  apply addPlan_countP (f := fun s => s.histogram.sum) <;> intros
  case leaf => exact sum_addLeaf ..
  case oneSided => exact sum_addLeaf ..
  all_goals rfl

theorem histogram_addPlan (place : Fin 6) : (addPlan depth plan s).histogram[place] =
    s.histogram[place] + plan.parts.countP fun part =>
      part.fills place || (part.isOneSided && bucket 0 = place) := by
  apply addPlan_countP (f := fun s => s.histogram[place]) <;> intros
  case leaf =>
    rw [histogram_addLeaf]
    simp [Plan.fills, Plan.count?, Plan.isOneSided]
  case oneSided =>
    rw [histogram_addLeaf]
    simp [Plan.fills, Plan.count?, Plan.isOneSided, addNode]
  all_goals rfl

theorem objects_addPlan : (addPlan depth plan s).objects = s.objects + plan.objects.length := by
  induction plan generalizing depth s with
  | leaf objects => rfl
  | split axis clipLeft clipRight left right ihLeft ihRight =>
    rw [addPlan, ihRight, ihLeft, Plan.objects, List.length_append, ← Nat.add_assoc]
    rfl
  | narrow axis low high inner ih => exact ih ..
  | oneSided axis side clip inner ih => exact ih ..

theorem mostObjects_addPlan :
    (addPlan depth plan s).mostObjects = max s.mostObjects plan.widest := by
  induction plan generalizing depth s with
  | leaf objects => rfl
  | split axis clipLeft clipRight left right ihLeft ihRight =>
    rw [addPlan, ihRight, ihLeft, Plan.widest, ← Nat.max_assoc]
    rfl
  | narrow axis low high inner ih => exact ih ..
  | oneSided axis side clip inner ih =>
    have none : (s.addNode.addLeaf (depth + 1) 0).mostObjects = s.mostObjects := Nat.max_zero _
    rw [addPlan, ih, none, Plan.widest]

/-! ### Statistics and nodes -/

/-- What statistics say of the nodes of a hierarchy over boxes. -/
structure Describes (s : Statistics) (boxes : List Box) (h : Hierarchy) : Prop where
  /-- Empty sides of one-sided nodes count as leaves. -/
  size : s.nodes + s.leaves = h.nodes.size + h.nodes.countP Node.isOneSided
  nodes : s.nodes = h.nodes.countP fun node => !node.isLeaf
  narrowNodes : s.narrowNodes = h.nodes.countP Node.isNarrow
  objects : s.objects = boxes.length
  histogram : ∀ place : Fin 6, s.histogram[place] = h.nodes.countP (Node.fills place) +
    if bucket 0 = place then h.nodes.countP Node.isOneSided else 0
  sum : s.histogram.sum = s.leaves
  le_mostObjects : ∀ first count, .leaf first count ∈ h.nodes → count ≤ s.mostObjects
  mostObjects_mem : boxes ≠ [] → ∃ first, .leaf first s.mostObjects ∈ h.nodes
  mostObjects_none : boxes = [] → s.mostObjects = 0

theorem histogram_none (place : Fin 6) : ({} : Statistics).histogram[place] = 0 := by
  revert place
  decide

theorem describes_empty : Describes {} [] .empty := by
  constructor
  case histogram =>
    intro place
    rw [histogram_none]
    simp [Hierarchy.empty]
  all_goals simp [Hierarchy.empty]

/-- Leaves and one-sided parts have nothing in common. -/
theorem countP_or {p q : Plan → Bool} (apart : ∀ part, p part = true → q part = false)
    (parts : List Plan) :
    parts.countP (fun part => p part || q part) = parts.countP p + parts.countP q := by
  induction parts with
  | nil => rfl
  | cons part rest ih =>
    simp only [List.countP_cons, ih]
    cases first : p part with
    | false =>
      simp only [Bool.false_or, Bool.false_eq_true, if_false]
      omega
    | true =>
      simp only [apart part first, Bool.or_false, if_true, Bool.false_eq_true, if_false]
      omega

theorem describes_layOut {boxes : List Box} {plan : Plan} (bounds : Box) (filled : boxes ≠ [])
    (made : plan.Made (boxAt boxes) 1 (List.range boxes.length)) :
    (addPlan 1 plan {}).Describes boxes (plan.layOut bounds) := by
  have oneSided : (plan.layOut bounds).nodes.countP Node.isOneSided =
      plan.parts.countP Plan.isOneSided :=
    plan.countP_nodes bounds fun part listed =>
      Plan.isOneSided_top (Plan.respects_parts made.respects part listed)
  have leaves : (plan.layOut bounds).nodes.countP (fun node => !node.isLeaf) =
      plan.parts.countP fun part => !part.isLeaf :=
    plan.countP_nodes bounds fun part _ next first => by
      rw [Node.isLeaf, Plan.count?_top, Plan.isLeaf]
  have narrow : (plan.layOut bounds).nodes.countP Node.isNarrow = plan.parts.countP Plan.isNarrow :=
    plan.countP_nodes bounds fun part _ => Plan.isNarrow_top part
  have fills (place : Fin 6) : (plan.layOut bounds).nodes.countP (Node.fills place) =
      plan.parts.countP (Plan.fills place) :=
    plan.countP_nodes bounds fun part _ next first => by
      rw [Node.fills, Plan.count?_top, Plan.fills]
  have size : (plan.layOut bounds).nodes.size = plan.parts.length := by
    have all := plan.countP_nodes bounds (p := fun _ => true) (q := fun _ => true) fun _ _ _ _ => rfl
    rwa [Array.countP_true, List.countP_true] at all
  have leafOrOneSided (part : Plan) (leaf : part.isLeaf = true) : part.isOneSided = false := by
    cases part <;> first | rfl | cases leaf
  constructor
  case size =>
    rw [nodes_addPlan, leaves_addPlan, size, oneSided, countP_or leafOrOneSided,
      List.length_eq_countP_add_countP Plan.isLeaf]
    simp only [Bool.not_eq_true, Bool.decide_eq_false]
    omega
  case nodes =>
    rw [nodes_addPlan, leaves]
    exact Nat.zero_add _
  case narrowNodes =>
    rw [narrowNodes_addPlan, narrow]
    exact Nat.zero_add _
  case objects =>
    have length := made.perm.length_eq
    rw [objects_addPlan, length, List.length_range]
    exact Nat.zero_add _
  case histogram =>
    intro place
    have filledOrOneSided (part : Plan) (fills : part.fills place = true) :
        (part.isOneSided && decide (bucket 0 = place)) = false := by
      cases part <;> first | rfl | cases fills
    rw [histogram_addPlan, fills, oneSided, countP_or filledOrOneSided, histogram_none]
    split
    next empty => simp [empty]
    next other => simp [other]
  case sum =>
    rw [sum_addPlan, leaves_addPlan]
    rfl
  case le_mostObjects =>
    intro first count stands
    obtain ⟨part, listed, found⟩ := (plan.exists_leaf_iff bounds count).mp ⟨first, stands⟩
    rw [mostObjects_addPlan]
    exact Nat.le_trans (Plan.le_widest part listed found) (Nat.le_max_right ..)
  case mostObjects_mem =>
    intro _
    have none : ({} : Statistics).mostObjects = 0 := rfl
    rw [mostObjects_addPlan, none, Nat.zero_max]
    exact (plan.exists_leaf_iff bounds _).mpr plan.exists_widest
  case mostObjects_none => exact fun none => absurd none filled

end Statistics

theorem buildCounted_describes {boxes : List Box} {leafSize : Nat} {h : Hierarchy}
    {stats : Statistics} (proper : ∀ box ∈ boxes, box.Proper)
    (built : buildCounted boxes leafSize = .ok (h, stats)) : stats.Describes boxes h := by
  obtain ⟨rfl, rfl, rfl⟩ | ⟨filled, plan, planned, rfl, rfl⟩ := buildCounted_planned built
  · exact Statistics.describes_empty
  · exact Statistics.describes_layOut (boundsOf boxes) filled (made_of_planned proper planned)

theorem buildCounted_describes_apart :
    (∀ box ∈ apart, box.Proper) ∧
      ∃ h stats, buildCounted apart 1 = .ok (h, stats) ∧ stats.Describes apart h := by
  have built : buildCounted apart 1 = .ok (_, _) := rfl
  exact ⟨apart_proper, _, _, built, buildCounted_describes apart_proper built⟩

end Hierarchy

end Sightline
