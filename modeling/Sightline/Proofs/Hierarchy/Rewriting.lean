import Sightline.Proofs.Bytes.Taking
import Sightline.Proofs.Hierarchy.Storing

/-!
# Stored hierarchies written again

A hierarchy that was built is written to its end and read back as it was, whatever follows it. A
hierarchy that was read is written as the bytes it was read from, but for the word that leaves have
no use for: it is not read, and written as zero.
-/
namespace Sightline

namespace Node

/-- The bits of a first word above those of the offset. -/
theorem header_ofFields (head : UInt32) :
    header (head.toNat / 0x40000000) (decide (head.toNat / offsetBits % 2 = 1))
      (head.toNat % offsetBits) = head := by
  have less := head.toNat_lt
  have low : head.toNat % offsetBits < offsetBits := Nat.mod_lt _ (by decide)
  have axis : head.toNat / 0x40000000 ≤ 3 := by omega
  apply UInt32.toNat_inj.mp
  have words : offsetBits ≤ UInt32.size := by decide
  rw [toNat_header _ axis (Nat.lt_of_lt_of_le low words), Nat.div_eq_of_lt low, Nat.mod_eq_of_lt low,
    Nat.or_zero]
  -- the mark of narrow nodes is the bit between those of the offset and those of the axis
  by_cases narrow : head.toNat / offsetBits % 2 = 1
  · simp only [narrow, decide_true, Bool.toNat_true]
    rw [offsetBits] at *
    omega
  · simp only [narrow, decide_false, Bool.toNat_false]
    rw [offsetBits] at *
    omega

theorem axisOfBits_eq_some {bits : Nat} {axis : Axis} (known : axisOfBits bits = some axis) :
    bits = axis.index := by
  unfold axisOfBits at known
  split at known <;> cases known <;> rfl

theorem axisOfBits_eq_none {bits : Nat} (most : bits ≤ 3) (unknown : axisOfBits bits = none) :
    bits = 3 := by
  match bits with
  | 0 | 1 | 2 => cases unknown
  | 3 => rfl
  | more + 4 => omega

/-- A node is written as the words it was made of. Only the last word of a leaf gets lost. -/
theorem toWords_ofWords {index : Nat} {head second third : UInt32} {node : Node}
    (read : ofWords index head second third = .ok node) :
    node.toWords = [head, second, if head.toNat / 0x40000000 = 3 then 0 else third] := by
  have fields := header_ofFields head
  have most : head.toNat / 0x40000000 ≤ 3 := by
    have less := head.toNat_lt
    omega
  rw [ofWords] at read
  split at read
  next none =>
    -- the bits that name no axis are those of leaves
    have leafBits := axisOfBits_eq_none most none
    split at read
    · cases read
    next unmarked =>
      cases read
      rw [leafBits] at fields
      simp only [unmarked, decide_false] at fields
      rw [toWords, fields, UInt32.ofNat_toNat, if_pos leafBits]
  next axis known =>
    -- the place of a child counts nodes and its offset counts words, three of them for a node
    have axisBits := axisOfBits_eq_some known
    have inner : ¬head.toNat / 0x40000000 = 3 := by
      rw [axisBits]
      cases axis <;> decide
    rw [if_neg inner]
    rw [axisBits] at fields
    split at read
    · cases read
    next aligned =>
      have whole : 3 * (head.toNat % offsetBits / 3) = head.toNat % offsetBits := by omega
      split at read
      next narrow =>
        cases read
        simp only [narrow, decide_true] at fields
        rw [toWords, whole, fields]
      next wide =>
        cases read
        simp only [wide, decide_false] at fields
        rw [toWords, whole, fields]

/-- Leaves have two words only; what stands in the place of a third one is cleared. -/
def clearSpare : List UInt32 → List UInt32
  | head :: second :: third :: rest =>
    head :: second :: (if head.toNat / 0x40000000 = 3 then 0 else third) :: clearSpare rest
  | rest => rest

theorem length_clearSpare (words : List UInt32) : (clearSpare words).length = words.length := by
  fun_induction clearSpare words with
  | case1 head second third rest ih => simp only [List.length_cons, ih]
  | case2 => rfl

theorem toWords_listOfWords {index count : Nat} {words : List UInt32} {nodes : List Node}
    (whole : words.length = 3 * count) (read : listOfWords index words = .ok nodes) :
    nodes.flatMap toWords = clearSpare words := by
  -- the induction is on the number of nodes, each of which takes three words from the front
  induction count generalizing index words nodes with
  | zero =>
    cases List.eq_nil_of_length_eq_zero whole
    cases read
    rfl
  | succ count ih =>
    match words with
    | [] | [_] | [_, _] =>
      simp only [List.length_cons, List.length_nil] at whole
      omega
    | head :: second :: third :: rest =>
      obtain ⟨node, first, read⟩ := bind_eq_ok.mp read
      obtain ⟨others, following, result⟩ := bind_eq_ok.mp read
      cases result
      have less : rest.length = 3 * count := by
        simp only [List.length_cons] at whole
        omega
      rw [List.flatMap_cons, toWords_ofWords first, ih less following]
      rfl

end Node

namespace Hierarchy

open Reader

/-- The file of a hierarchy with the given words for its nodes. -/
def fileOf (bounds : Box) (words : List UInt32) (objects : Array Nat) : List UInt8 :=
  Bytes.ofBox bounds ++ (Bytes.ofNat words.length ++ words.flatMap Bytes.ofWord) ++
    (Bytes.ofNat objects.size ++ objects.toList.flatMap Bytes.ofNat)

/-- A hierarchy with few enough nodes and objects is written to its end. -/
theorem ofPieces_eq (h : Hierarchy) (words : h.words.length < UInt32.size)
    (objects : h.objects.size < UInt32.size) :
    Output.ofPieces h.pieces = (fileOf h.bounds h.words h.objects, .ok ()) := by
  have wordsCounted : Bytes.counted h.words.length (h.words.flatMap Bytes.ofWord) =
      .ok (Bytes.ofNat h.words.length ++ h.words.flatMap Bytes.ofWord) :=
    Bytes.counted_eq_ok.mpr ⟨words, rfl⟩
  have objectsCounted : Bytes.counted h.objects.size (h.objects.toList.flatMap Bytes.ofNat) =
      .ok (Bytes.ofNat h.objects.size ++ h.objects.toList.flatMap Bytes.ofNat) :=
    Bytes.counted_eq_ok.mpr ⟨objects, rfl⟩
  refine Output.ofPieces_ok.mpr ⟨_, Output.ofPieces_cons.mpr ⟨_, _, wordsCounted,
    Output.ofPieces_cons.mpr ⟨_, _, objectsCounted, Output.ofPieces_nil.mpr rfl, rfl⟩, rfl⟩, ?_⟩
  rw [fileOf, List.append_nil, List.append_assoc]

theorem length_listOfWords {index count : Nat} {words : List UInt32} {nodes : List Node}
    (whole : words.length = 3 * count) (read : Node.listOfWords index words = .ok nodes) :
    nodes.length = count := by
  have same := congrArg List.length (Node.toWords_listOfWords whole read)
  rw [Node.length_clearSpare, whole] at same
  simp [List.length_flatMap, Node.length_toWords, List.map_const'] at same
  omega

/-- What the reader has taken when it succeeds, and what it has checked. -/
structure Taken (input rest : List UInt8) (h : Hierarchy) (words : List UInt32) : Prop where
  whole : words.length = 3 * h.nodes.size
  wordsFit : words.length < UInt32.size
  objectsFit : h.objects.size < UInt32.size
  decoded : Node.listOfWords 0 words = .ok h.nodes.toList
  checked : checkNodes h.nodes.size h.objects.size 0 h.nodes.toList = .ok ()
  written : input = fileOf h.bounds words h.objects ++ rest

theorem reader_eq_ok {input rest : List UInt8} {h : Hierarchy}
    (read : reader.run input = .ok (h, rest)) : ∃ words, Taken input rest h words := by
  obtain ⟨bounds, afterBounds, readBounds, read⟩ := run_bind_eq_ok.mp read
  obtain ⟨size, afterSize, readSize, read⟩ := run_bind_eq_ok.mp read
  split at read
  · cases read
  next aligned =>
    obtain ⟨words, afterWords, readWords, read⟩ := run_bind_eq_ok.mp read
    obtain ⟨count, afterCount, readCount, read⟩ := run_bind_eq_ok.mp read
    obtain ⟨objects, afterObjects, readObjects, read⟩ := run_bind_eq_ok.mp read
    obtain ⟨nodes, decoded, read⟩ := run_check_eq_ok.mp read
    obtain ⟨_, checked, read⟩ := run_check_eq_ok.mp read
    cases read
    -- the numbers that were read as lengths are those of the lists that follow them
    obtain ⟨rfl, -⟩ := items_of_array readWords
    obtain ⟨rfl, -⟩ := items_of_array readObjects
    have whole : words.length = 3 * (words.length / 3) := by omega
    have length : nodes.length = words.length / 3 := length_listOfWords whole decoded
    refine ⟨words, ?_, count_lt readSize, count_lt readCount, decoded, checked, ?_⟩
    · simpa only [List.size_toArray, length] using whole
    · rw [takes_box readBounds, takes_count readSize, takes_array takes_word readWords,
        takes_count readCount, takes_array takes_count readObjects]
      simp only [fileOf, List.size_toArray, List.append_assoc]

/-- A hierarchy that was read is written as it stood in the file, but for the spare words. -/
theorem Taken.rewritten {input rest : List UInt8} {h : Hierarchy} {words : List UInt32}
    (taken : Taken input rest h words) :
    Output.ofPieces h.pieces = (fileOf h.bounds (Node.clearSpare words) h.objects, .ok ()) := by
  have same : h.words = Node.clearSpare words := Node.toWords_listOfWords taken.whole taken.decoded
  have fit : h.words.length < UInt32.size := by
    rw [same, Node.length_clearSpare]
    exact taken.wordsFit
  rw [ofPieces_eq h fit taken.objectsFit, same]

/-- A hierarchy that is built is written to its end if its words can be counted. -/
theorem build_written_of_size {boxes : List Box} {leafSize : Nat} {h : Hierarchy}
    (built : build boxes leafSize = .ok h) (size : 3 * h.nodes.size < UInt32.size) :
    Output.ofPieces h.pieces = (fileOf h.bounds h.words h.objects, .ok ()) := by
  have count : h.objects.size = boxes.length := (build_objects built).1
  have limited : boxes.length < objectLimit := (build_cases built).1
  have objects : objectLimit ≤ UInt32.size := by decide
  refine ofPieces_eq h ?_ ?_
  · rw [length_words]
    exact size
  · omega

theorem build_written {boxes : List Box} {leafSize : Nat} {h : Hierarchy}
    (built : build boxes leafSize = .ok h) (few : h.FewNodes) :
    Output.ofPieces h.pieces = (fileOf h.bounds h.words h.objects, .ok ()) :=
  build_written_of_size built (Nat.lt_of_le_of_lt few (by decide))

/-- What is built is written so that it is read back, whatever follows it; and what is read was written
in no other way, but for the spare words of its leaves. -/
theorem file_exact :
    (∀ {boxes : List Box} {leafSize : Nat} {h : Hierarchy},
      build boxes leafSize = .ok h → h.FewNodes →
        checkNodes h.nodes.size h.objects.size 0 h.nodes.toList = .ok () ∧
        ∃ bytes, Output.ofPieces h.pieces = (bytes, .ok ()) ∧
          ∀ trailing, reader.run (bytes ++ trailing) = .ok (h, trailing)) ∧
    ∀ {input rest : List UInt8} {h : Hierarchy}, reader.run input = .ok (h, rest) →
      ∃ words, words.length = 3 * h.nodes.size ∧
        Node.listOfWords 0 words = .ok h.nodes.toList ∧
        input = fileOf h.bounds words h.objects ++ rest ∧
        Output.ofPieces h.pieces =
          (fileOf h.bounds (Node.clearSpare words) h.objects, .ok ()) := by
  constructor
  · intro boxes leafSize h built few
    have written := build_written built few
    have storable : h.Storable := (build_storable built few).1
    exact ⟨storable.checked, _, written, reads_pieces storable written⟩
  · intro input rest h read
    obtain ⟨words, taken⟩ := reader_eq_ok read
    exact ⟨words, taken.whole, taken.decoded, taken.written, taken.rewritten⟩

/-- The leaf that is read has something in its spare word. -/
theorem file_exact_apart :
    (∃ h, build apart 1 = .ok h ∧ h.FewNodes ∧
      checkNodes h.nodes.size h.objects.size 0 h.nodes.toList = .ok () ∧
      ∃ bytes, Output.ofPieces h.pieces = (bytes, .ok ()) ∧
        ∀ trailing, reader.run (bytes ++ trailing) = .ok (h, trailing)) ∧
    ∃ h, reader.run (fileOf .zero [0xC0000000, 1, 7] #[5] ++ [9]) = .ok (h, [9]) ∧
      ∃ words, words.length = 3 * h.nodes.size ∧
        Node.listOfWords 0 words = .ok h.nodes.toList ∧
        fileOf .zero [0xC0000000, 1, 7] #[5] ++ [9] = fileOf h.bounds words h.objects ++ [9] ∧
        Output.ofPieces h.pieces =
          (fileOf h.bounds (Node.clearSpare words) h.objects, .ok ()) := by
  have built : build apart 1 = .ok _ := rfl
  have read : reader.run (fileOf .zero [0xC0000000, 1, 7] #[5] ++ [9]) = .ok (_, [9]) := rfl
  refine ⟨⟨_, built, ?few, file_exact.1 built ?few⟩, _, read, file_exact.2 read⟩
  case few => decide +kernel

end Hierarchy

end Sightline
