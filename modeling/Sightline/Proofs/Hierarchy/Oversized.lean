import Sightline.Proofs.Hierarchy.Rewriting

/-!
# Hierarchies too large for their files

An offset that needs one bit more than there is runs into the mark of narrow nodes, and what is left of
it is not aligned. Nodes stand next to their siblings or right behind their parents' place for them, so
that in a hierarchy of too many nodes some offset is just so large. Therefore no reader takes the file of
a built hierarchy for that of another one.
-/
namespace Sightline

namespace Node

/-- The place that an inner node names. -/
def child? : Node → Option Nat
  | leaf _ _ => none
  | split _ child _ _ => some child
  | narrow _ child _ _ => some child

theorem Storable.child_near {node : Node} {child : Nat} (storable : node.Storable)
    (names : node.child? = some child) : 3 * child < offsetBits := by
  cases node with
  | leaf first count => cases names
  | split axis place left right =>
    cases names
    exact storable
  | narrow axis place low high =>
    cases names
    exact storable

/-- The first word of a node whose child is just too far has an offset that is not aligned. -/
theorem ofWords_misaligned {axis : Axis} {isNarrow : Bool} {child : Nat}
    (far : offsetBits ≤ 3 * child) (limit : 3 * child < 2 * offsetBits) (index : Nat)
    (second third : UInt32) :
    ∃ fault, ofWords index (header axis.index isNarrow (3 * child)) second third = .error fault := by
  have fits : 3 * child < UInt32.size := limit.trans (by decide)
  have quotient : 3 * child / offsetBits = 1 := by
    rw [Nat.div_eq_iff (by decide)]
    omega
  -- the bit of the offset that is one too many falls on the mark, and the rest of the offset remains
  have marked : (2 * axis.index + isNarrow.toNat) ||| 1 = 2 * axis.index + 1 := by
    cases axis <;> cases isNarrow <;> rfl
  have head := toNat_header isNarrow (index_le axis) fits
  rw [quotient, marked, Nat.mod_eq_sub_mod far, Nat.mod_eq_of_lt (by omega)] at head
  generalize header axis.index isNarrow (3 * child) = word at head ⊢
  rw [offsetBits] at far limit head
  have axisBits : word.toNat / 0x40000000 = axis.index := by omega
  have offset : word.toNat % 0x20000000 = 3 * child - 0x20000000 := by omega
  have misaligned : word.toNat % offsetBits % 3 ≠ 0 := by
    rw [offsetBits, offset]
    omega
  rw [ofWords, axisBits, axisOfBits_index]
  dsimp only
  rw [if_pos misaligned]
  exact ⟨_, rfl⟩

theorem near_or_far_of_read {node found : Node} {child index : Nat} {head second third : UInt32}
    (names : node.child? = some child) (words : node.toWords = [head, second, third])
    (read : ofWords index head second third = .ok found) :
    3 * child < offsetBits ∨ 2 * offsetBits ≤ 3 * child := by
  by_contra between
  rw [not_or, Nat.not_lt, Nat.not_le] at between
  have refused (axis : Axis) (isNarrow : Bool)
      (written : head = header axis.index isNarrow (3 * child)) : False := by
    have misaligned : ∃ fault, ofWords index head second third = .error fault := by
      rw [written]
      exact ofWords_misaligned between.1 between.2 index second third
    obtain ⟨fault, refused⟩ := misaligned
    rw [read] at refused
    cases refused
  cases node with
  | leaf first count => cases names
  | split axis place left right =>
    cases names
    exact refused axis false (List.cons.inj words).1.symm
  | narrow axis place low high =>
    cases names
    exact refused axis true (List.cons.inj words).1.symm

/-- Where a list of nodes is read, each of them is. -/
theorem each_of_listOfWords {nodes found : List Node} {index : Nat}
    (read : listOfWords index (nodes.flatMap toWords) = .ok found) :
    ∀ node ∈ nodes, ∃ place head second third other, node.toWords = [head, second, third] ∧
      ofWords place head second third = .ok other := by
  induction nodes generalizing index found with
  | nil => nofun
  | cons node rest ih =>
    obtain ⟨head, second, third, words⟩ := List.length_eq_three.mp node.length_toWords
    rw [List.flatMap_cons, words] at read
    obtain ⟨other, first, following⟩ := bind_eq_ok.mp read
    obtain ⟨others, readRest, -⟩ := bind_eq_ok.mp following
    exact List.forall_mem_cons.mpr ⟨⟨_, _, _, _, _, words, first⟩, ih readRest⟩

theorem flaw_of_ofWords {index : Nat} {head second third : UInt32} {fault : Fault}
    (refused : ofWords index head second third = .error fault) : ∃ flaw, fault = .corruptTree flaw := by
  rw [ofWords] at refused
  split at refused
  · split at refused <;> cases refused
    exact ⟨_, rfl⟩
  · split at refused
    · cases refused
      exact ⟨_, rfl⟩
    · split at refused <;> cases refused

/-- Whatever keeps nodes from being read is a flaw of the hierarchy. -/
theorem flaw_of_listOfWords {index : Nat} {words : List UInt32} {fault : Fault}
    (refused : listOfWords index words = .error fault) : ∃ flaw, fault = .corruptTree flaw := by
  fun_induction listOfWords index words with
  | case1 index head second third rest ih =>
    cases first : ofWords index head second third with
    | error flaw =>
      rw [first] at refused
      cases refused
      exact flaw_of_ofWords first
    | ok node =>
      cases others : listOfWords (index + 1) rest with
      | error flaw =>
        rw [first, others] at refused
        cases refused
        exact ih others
      | ok nodes =>
        rw [first, others] at refused
        cases refused
  | case2 => cases refused

end Node

namespace Hierarchy

/-! ### Parents -/

namespace Plan

variable {root : Plan}

/-- Every node but the first one has a parent, which names the place of the node or the one before. -/
theorem exists_parent {index : Nat} (below : 0 < index) (less : index < root.nodes.length) :
    ∃ part place child, root.Within part place ∧
      (part.top place.next place.first).child? = some child ∧ child ≤ index ∧ index ≤ child + 1 := by
  obtain ⟨part, place, within, rfl⟩ := root.exists_within less
  cases within with
  | root => cases below
  | left above => exact ⟨_, _, _, above, rfl, Nat.le_refl _, Nat.le_succ _⟩
  | right above => exact ⟨_, _, _, above, rfl, Nat.le_succ _, Nat.le_refl _⟩
  | narrow above => exact ⟨_, _, _, above, rfl, Nat.le_refl _, Nat.le_succ _⟩
  | @oneSided axis side clip inner place above =>
    have later := above.index_lt_next
    cases side with
    | below => exact ⟨_, _, _, above, rfl, Nat.le_refl _, Nat.le_succ _⟩
    | above =>
      refine ⟨_, _, _, above, rfl, Nat.sub_le _ _, ?_⟩
      dsimp only
      omega

/-- The child that a node names is there, or its sibling is. -/
theorem Within.child_lt {part : Plan} {place : Place} {child : Nat} (within : root.Within part place)
    (names : (part.top place.next place.first).child? = some child) : child < root.nodes.length := by
  cases part with
  | leaf objects => cases names
  | split axis clipLeft clipRight left right =>
    cases names
    exact within.left.index_lt_length
  | narrow axis low high inner =>
    cases names
    exact within.narrow.index_lt_length
  | oneSided axis side clip inner =>
    have inside : place.next < root.nodes.length := within.oneSided.index_lt_length
    cases side with
    | below =>
      cases names
      exact inside
    | above =>
      cases names
      exact Nat.lt_of_le_of_lt (Nat.sub_le _ _) inside

/-- If no node names a place that is just too far, then none names one that is farther. -/
theorem Within.child_near {part : Plan} {place : Place} {child : Nat}
    (nearOrFar : ∀ node ∈ root.nodes, ∀ child ∈ node.child?,
      3 * child < Node.offsetBits ∨ 2 * Node.offsetBits ≤ 3 * child)
    (within : root.Within part place)
    (names : (part.top place.next place.first).child? = some child) :
    3 * child < Node.offsetBits := by
  have listed {other : Plan} {otherPlace : Place} (inside : root.Within other otherPlace) :
      other.top otherPlace.next otherPlace.first ∈ root.nodes :=
    List.mem_of_getElem? inside.stands.top
  refine (nearOrFar _ (listed within) child names).resolve_right fun far => ?_
  -- the second place that is too far has a parent, which names it or the first one
  have less : 178956972 < root.nodes.length := by
    have inside := within.child_lt names
    rw [Node.offsetBits] at far
    omega
  obtain ⟨parent, parentPlace, found, above, parentNames, notAfter, notBefore⟩ :=
    exists_parent (by decide) less
  have excluded := nearOrFar _ (listed above) found parentNames
  rw [Node.offsetBits] at excluded
  omega

end Plan

/-! ### Reading what was built -/

variable {boxes : List Box} {leafSize : Nat} {h found : Hierarchy} {bytes rest after : List UInt8}

/-- A built hierarchy whose file can be read has nodes that can be stored. -/
theorem nodes_storable_of_read (built : build boxes leafSize = .ok h) {nodes : List Node}
    (read : Node.listOfWords 0 h.words = .ok nodes) : ∀ node ∈ h.nodes.toList, node.Storable := by
  obtain ⟨limited, ⟨rfl, rfl⟩ | ⟨plan, rfl, perm⟩⟩ := build_cases built
  · nofun
  · have nearOrFar : ∀ node ∈ plan.nodes, ∀ child ∈ node.child?,
        3 * child < Node.offsetBits ∨ 2 * Node.offsetBits ≤ 3 * child := by
      intro node listed child names
      obtain ⟨_, _, _, _, _, words, accepted⟩ := Node.each_of_listOfWords read node listed
      exact Node.near_or_far_of_read names words accepted
    intro node listed
    obtain ⟨index, stands⟩ := List.mem_iff_getElem?.mp listed
    rw [Array.getElem?_toList] at stands
    obtain ⟨part, place, within, -, rfl⟩ := Plan.exists_node stands
    have near (child : Nat) (names : (part.top place.next place.first).child? = some child) :
        3 * child < Node.offsetBits := within.child_near nearOrFar names
    cases part with
    | leaf contents =>
      -- leaves name objects, and there are few enough of those for words
      have offsets : Node.offsetBits ≤ UInt32.size := by decide
      have limit : objectLimit = Node.offsetBits := rfl
      have last := within.last_le
      simp only [Plan.objects] at last
      rw [perm.length_eq, List.length_range] at last
      constructor <;> omega
    | split axis clipLeft clipRight left right => exact near _ rfl
    | narrow axis low high inner => exact near _ rfl
    | oneSided axis side clip inner => cases side <;> exact near _ rfl

/-- Whatever is read from the file of a built hierarchy is that hierarchy. -/
theorem eq_of_read_built (built : build boxes leafSize = .ok h)
    (written : Output.ofPieces h.pieces = (bytes, .ok ()))
    (read : reader.run (bytes ++ rest) = .ok (found, after)) : found = h ∧ after = rest := by
  have left := read
  rw [run_pieces (build_objects_fit built) written] at left
  obtain ⟨nodes, decoded, -⟩ := run_check_eq_ok.mp left
  have storable := build_storable_of_nodes built (nodes_storable_of_read built decoded)
  rw [reads_pieces storable written rest] at read
  cases read
  exact ⟨rfl, rfl⟩

/-- The words of a built hierarchy stand for its nodes, unless the nodes are too many for the bits of
their places. -/
theorem storable_or_flawed (built : build boxes leafSize = .ok h) :
    h.Storable ∨ ¬h.FewNodes ∧ ∃ flaw, Node.listOfWords 0 h.words = .error (.corruptTree flaw) := by
  cases decoded : Node.listOfWords 0 h.words with
  | ok nodes => exact .inl (build_storable_of_nodes built (nodes_storable_of_read built decoded))
  | error fault =>
    obtain ⟨flaw, rfl⟩ := Node.flaw_of_listOfWords decoded
    refine .inr ⟨fun few => ?_, flaw, rfl⟩
    have all := Node.listOfWords_toWords (build_storable built few).1.nodes 0
    exact ok_ne_error (all.symm.trans decoded)

/-- If even the last place that has to be named is too far, the words of a built hierarchy are refused. -/
theorem flawed_of_many (built : build boxes leafSize = .ok h)
    (many : Node.offsetBits ≤ 3 * (h.nodes.size - 2)) :
    ∃ flaw, Node.listOfWords 0 h.words = .error (.corruptTree flaw) := by
  obtain storable | ⟨-, flawed⟩ := storable_or_flawed built
  · obtain ⟨-, ⟨rfl, rfl⟩ | ⟨plan, rfl, -⟩⟩ := build_cases built
    · exact absurd many (by decide)
    · have size : (plan.layOut (boundsOf boxes)).nodes.size = plan.nodes.length := List.size_toArray
      have positive : 0 < Node.offsetBits := by decide
      rw [size] at many
      -- the last node has a parent, which names it or its sibling
      have below : 0 < plan.nodes.length - 1 := by omega
      have less : plan.nodes.length - 1 < plan.nodes.length := by omega
      obtain ⟨part, place, child, within, names, -, last⟩ := Plan.exists_parent below less
      have listed : part.top place.next place.first ∈ plan.nodes :=
        List.mem_of_getElem? within.stands.top
      have near := (storable.nodes _ listed).child_near names
      omega
  · exact flawed

/-- The whole file of a built hierarchy is refused for what is wrong with its words. -/
theorem run_flawed {fault : Fault} (built : build boxes leafSize = .ok h)
    (written : Output.ofPieces h.pieces = (bytes, .ok ()))
    (flawed : Node.listOfWords 0 h.words = .error fault) (rest : List UInt8) :
    reader.run (bytes ++ rest) = .error fault := by
  rw [run_pieces (build_objects_fit built) written, flawed]
  rfl

/-- A built hierarchy is read from its file. One of too many nodes may be refused there. -/
theorem matches_of_built {refuses : Fault → Prop} (built : build boxes leafSize = .ok h)
    (refusesMany : ¬h.FewNodes → ∀ flaw, refuses (.corruptTree flaw)) :
    Reader.Matches refuses reader (Output.ofPieces h.pieces) h := by
  obtain storable | ⟨many, flaw, refused⟩ := storable_or_flawed built
  · exact matches_of_storable storable
  · refine matches_of_decoded (build_objects_fit built) fun rest => .inr ⟨_, refusesMany many flaw, ?_⟩
    rw [refused]
    rfl

end Hierarchy

end Sightline
