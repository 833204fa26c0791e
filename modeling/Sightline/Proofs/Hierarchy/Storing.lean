import Sightline.Proofs.Hierarchy.Building
import Sightline.Proofs.Hierarchy.Layout
import Sightline.Proofs.Hierarchy.Stored

/-!
# Built hierarchies can be stored

A hierarchy holds the number of each box once, whatever the boxes are: even where a face of a box is not
a number and nothing can be said about the clips. Its nodes name places within it, so that a reader
accepts it.
-/
namespace Sightline.Hierarchy

/-! ### Every object is kept -/

/-- The items that a division hands on. -/
def Division.items : Division → List Item
  | .leaf items => items
  | .narrow _ _ _ items _ => items
  | .split _ _ s _ _ => s.left.reverse ++ s.right

/-- The items that a trial ends with or goes on with. -/
def Trial.items : Trial → List Item
  | .done division => division.items
  | .again _ items _ => items

theorem trial_perm (space : Box) (earlier : Option Attempt) (items : List Item) (grid : Box) :
    (trial space earlier items grid).items.Perm items := by
  -- whichever case a trial comes to, it hands on the sides of the sorted items that are not empty
  have perm := sortAt_perm (cutAxis grid) (cutPlane grid) items
  have tried := trial_tried space earlier items grid
  generalize trial space earlier items grid = result at tried ⊢
  generalize sortAt (cutAxis grid) (cutPlane grid) items = s at perm tried
  cases tried with
  | narrow => exact perm
  | leafLeft noRight =>
    rw [noRight, List.append_nil] at perm
    exact perm
  | againLeft noRight =>
    rw [noRight, List.append_nil] at perm
    exact perm
  | leafRight noLeft =>
    rw [noLeft, List.reverse_nil, List.nil_append] at perm
    exact perm
  | againRight noLeft =>
    rw [noLeft, List.reverse_nil, List.nil_append] at perm
    exact perm
  | split => exact perm

theorem divide_perm {space grid : Box} {attempts : Nat} {earlier : Option Attempt}
    {items : List Item} {division : Division}
    (returned : divide space attempts earlier items grid = .ok division) :
    division.items.Perm items := by
  induction attempts generalizing earlier items grid with
  | zero => cases returned
  | succ attempts ih =>
    rw [divide_succ] at returned
    obtain ⟨-, -, returned⟩ := bind_eq_ok.mp returned
    have perm := trial_perm space earlier items grid
    cases tried : trial space earlier items grid with
    | done found =>
      rw [tried] at returned perm
      cases returned
      exact perm
    | again attempt rest cut =>
      rw [tried] at returned perm
      exact (ih returned).trans perm

theorem planItems_perm {leafSize levels depth : Nat} {items : List Item} {grid space : Box}
    {plan : Plan} (returned : planItems leafSize levels depth items grid space = .ok plan) :
    plan.objects.Perm (items.map Item.object) := by
  induction levels generalizing depth items grid space plan with
  | zero =>
    cases returned
    exact .refl _
  | succ levels ih =>
    cases planItems_planned returned with
    | few => exact .refl _
    | leaf _ _ divided => exact (divide_perm divided).map Item.object
    | narrow _ _ divided planned => exact (ih planned).trans ((divide_perm divided).map Item.object)
    | split _ _ divided plannedLeft plannedRight =>
      refine ((ih plannedLeft).append (ih plannedRight)).trans ?_
      rw [← List.map_append]
      exact (divide_perm divided).map Item.object
    | oneSided _ _ divided plannedLeft plannedRight =>
      -- the hole of an earlier attempt adds a node on top, but no object
      refine ((ih plannedLeft).append (ih plannedRight)).trans ?_
      rw [← List.map_append]
      exact (divide_perm divided).map Item.object

theorem build_cases {boxes : List Box} {leafSize : Nat} {h : Hierarchy}
    (built : build boxes leafSize = .ok h) :
    boxes.length < objectLimit ∧
      (boxes = [] ∧ h = .empty ∨ ∃ plan : Plan,
        h = plan.layOut (boundsOf boxes) ∧ plan.objects.Perm (List.range boxes.length)) := by
  rw [build] at built
  split at built
  · cases built
  next many =>
    refine ⟨Nat.lt_of_not_le many, ?_⟩
    obtain ⟨⟨found, statistics⟩, counted, returned⟩ := bind_eq_ok.mp built
    cases returned
    obtain ⟨found, planned, counted⟩ := bind_eq_ok.mp counted
    rw [plan?] at planned
    split at planned
    next empty =>
      cases planned
      cases counted
      exact .inl ⟨List.isEmpty_iff.mp empty, rfl⟩
    next filled =>
      obtain ⟨plan, made, returned⟩ := bind_eq_ok.mp planned
      cases returned
      cases counted
      have perm := planItems_perm made
      rw [objects_itemsOf] at perm
      exact .inr ⟨plan, rfl, perm⟩

/-! ### Every place is within the hierarchy -/

theorem checkChild_eq_ok {nodes index child : Nat} (later : index < child) (within : child < nodes) :
    checkChild nodes index child = .ok () := if_pos ⟨later, within⟩

theorem checkNodes_eq_ok {size objects index : Nat} {nodes : List Node}
    (each : ∀ (i : Nat) (node : Node), nodes[i]? = some node →
      checkNode size objects (index + i) node = .ok ()) :
    checkNodes size objects index nodes = .ok () := by
  induction nodes generalizing index with
  | nil => rfl
  | cons node rest ih =>
    have first := each 0 node rfl
    have others : checkNodes size objects (index + 1) rest = .ok () := by
      apply ih
      intro i other stands
      rw [Nat.add_assoc, Nat.add_comm 1]
      exact each (i + 1) other stands
    rw [checkNodes]
    exact bind_eq_ok.mpr ⟨(), first, others⟩

namespace Plan

variable {root plan : Plan} {place : Place}

theorem Within.index_lt_length (within : root.Within plan place) :
    place.index < root.nodes.length :=
  (List.getElem?_eq_some_iff.mp within.stands.top).1

/-- The node at the place of a part passes the check of a reader. -/
theorem Within.checked (within : root.Within plan place) :
    checkNode root.nodes.length root.objects.length place.index
      (plan.top place.next place.first) = .ok () := by
  have later := within.index_lt_next
  cases plan with
  | leaf objects => exact if_pos within.last_le
  | split axis clipLeft clipRight left right =>
    have leftChild := checkChild_eq_ok later within.left.index_lt_length
    have rightChild := checkChild_eq_ok (Nat.lt_succ_of_lt later) within.right.index_lt_length
    simp only [top, checkNode, leftChild, rightChild]
    split <;> split <;> rfl
  | narrow axis low high inner => exact checkChild_eq_ok later within.narrow.index_lt_length
  | oneSided axis side clip inner =>
    have child := checkChild_eq_ok later within.oneSided.index_lt_length
    -- the side without content is marked by an infinite clip, which ends its check
    cases side with
    | below =>
      simp only [top, checkNode, child]
      split <;> rfl
    | above =>
      have sibling : place.next - 1 + 1 = place.next := by omega
      simp only [top, checkNode, sibling, child, ne_eq, not_true_eq_false, if_false]
      split <;> rfl

theorem Within.word_lt (within : root.Within plan place)
    (nodes : 3 * root.nodes.length ≤ Node.offsetBits) : 3 * place.index < Node.offsetBits := by
  have inside := within.index_lt_length
  omega

/-- The numbers of the node at the place of a part fit their bits. -/
theorem Within.storable (within : root.Within plan place)
    (objects : root.objects.length < Node.offsetBits)
    (nodes : 3 * root.nodes.length ≤ Node.offsetBits) :
    (plan.top place.next place.first).Storable := by
  cases plan with
  | leaf contents =>
    have offsets : Node.offsetBits ≤ UInt32.size := by decide
    have last := within.last_le
    simp only [Plan.objects] at last
    constructor <;> omega
  | split axis clipLeft clipRight left right => exact within.left.word_lt nodes
  | narrow axis low high inner => exact within.narrow.word_lt nodes
  | oneSided axis side clip inner =>
    have child : 3 * place.next < Node.offsetBits := within.oneSided.word_lt nodes
    cases side with
    | below => exact child
    | above =>
      -- the node names the place before its child, as that of the side without content
      have before : 3 * (place.next - 1) < Node.offsetBits := by omega
      exact before

theorem layOut_nodes_storable {root : Plan} (bounds : Box)
    (objects : root.objects.length < Node.offsetBits)
    (nodes : 3 * root.nodes.length ≤ Node.offsetBits) :
    ∀ node ∈ (root.layOut bounds).nodes.toList, node.Storable := by
  intro node listed
  obtain ⟨index, stands⟩ := List.mem_iff_getElem?.mp listed
  rw [Array.getElem?_toList] at stands
  obtain ⟨part, place, within, -, rfl⟩ := exists_node stands
  exact within.storable objects nodes

/-- A reader has nothing to object to the places that nodes name. -/
theorem layOut_checked (root : Plan) (bounds : Box) :
    checkNodes (root.layOut bounds).nodes.size (root.layOut bounds).objects.size 0
      (root.layOut bounds).nodes.toList = .ok () := by
  refine checkNodes_eq_ok ?_
  intro index node stands
  obtain ⟨part, place, within, rfl, rfl⟩ := exists_node (by simpa using stands)
  rw [Nat.zero_add]
  exact within.checked

end Plan

/-- The places of all nodes, counted in words, fit the bits of a stored node. -/
def FewNodes (h : Hierarchy) : Prop := 3 * h.nodes.size ≤ Node.offsetBits

instance (h : Hierarchy) : Decidable h.FewNodes := inferInstanceAs (Decidable (_ ≤ _))

/-- The objects of a built hierarchy are the numbers of the boxes. -/
theorem build_objects {boxes : List Box} {leafSize : Nat} {h : Hierarchy}
    (built : build boxes leafSize = .ok h) :
    h.objects.size = boxes.length ∧ ∀ object ∈ h.objects.toList, object < boxes.length := by
  obtain ⟨-, ⟨rfl, rfl⟩ | ⟨plan, rfl, perm⟩⟩ := build_cases built
  · exact ⟨rfl, nofun⟩
  · refine ⟨?_, fun object listed => List.mem_range.mp (perm.mem_iff.mp listed)⟩
    exact perm.length_eq.trans List.length_range

theorem build_objects_fit {boxes : List Box} {leafSize : Nat} {h : Hierarchy}
    (built : build boxes leafSize = .ok h) : ∀ object ∈ h.objects.toList, object < UInt32.size := by
  have limit : objectLimit ≤ UInt32.size := by decide
  have few : boxes.length < objectLimit := (build_cases built).1
  intro object listed
  exact Nat.lt_of_lt_of_le (((build_objects built).2 object listed).trans few) limit

/-- Only the nodes decide on whether a built hierarchy can be stored. -/
theorem build_storable_of_nodes {boxes : List Box} {leafSize : Nat} {h : Hierarchy}
    (built : build boxes leafSize = .ok h) (nodes : ∀ node ∈ h.nodes.toList, node.Storable) :
    h.Storable := by
  refine ⟨nodes, build_objects_fit built, ?_⟩
  obtain ⟨-, ⟨rfl, rfl⟩ | ⟨plan, rfl, -⟩⟩ := build_cases built
  · rfl
  · exact plan.layOut_checked _

/-- The objects of a built hierarchy pass the check of a reader. -/
theorem build_checkObjects {boxes : List Box} {leafSize : Nat} {h : Hierarchy}
    (built : build boxes leafSize = .ok h) : h.checkObjects boxes.length = .ok () := by
  have none : (h.objects.toList.find? fun object => boxes.length ≤ object) = none := by
    simpa using (build_objects built).2
  rw [checkObjects, none]

/-- A hierarchy that is built for boxes can be stored, and its objects are the numbers of the boxes. -/
theorem build_storable {boxes : List Box} {leafSize : Nat} {h : Hierarchy}
    (built : build boxes leafSize = .ok h) (few : h.FewNodes) :
    h.Storable ∧ h.objects.size = boxes.length ∧ h.checkObjects boxes.length = .ok () := by
  obtain ⟨count, -⟩ := build_objects built
  obtain ⟨limited, made⟩ := build_cases built
  refine ⟨build_storable_of_nodes built ?_, count, build_checkObjects built⟩
  obtain ⟨rfl, rfl⟩ | ⟨plan, rfl, perm⟩ := made
  · nofun
  · refine plan.layOut_nodes_storable _ ?_ few
    rw [perm.length_eq, List.length_range]
    exact limited

end Sightline.Hierarchy
