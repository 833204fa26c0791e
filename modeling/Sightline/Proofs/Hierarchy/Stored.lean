import Sightline.Hierarchy.File
import Sightline.Proofs.Bytes.CuttingOff

/-!
# Reading stored hierarchies

A hierarchy whose numbers fit the bits of a stored node is read back as it was, if its nodes name places
within it.
-/
namespace Sightline

namespace Node

/-- The numbers of the node fit their bits. -/
def Storable : Node → Prop
  | leaf first count => first < offsetBits ∧ count < UInt32.size
  | split _ child _ _ => 3 * child < offsetBits
  | narrow _ child _ _ => 3 * child < offsetBits

/-- Bits above the offset stay apart from it, and those of a longer offset run into the fields. -/
theorem fields_or (fields high : Nat) {low : Nat} (fits : low < offsetBits) :
    offsetBits * fields ||| (offsetBits * high + low) = offsetBits * (fields ||| high) + low := by
  have power : offsetBits = 2 ^ 29 := rfl
  have shifted : 2 ^ 29 * fields ||| 2 ^ 29 * high = 2 ^ 29 * (fields ||| high) := by
    simp only [Nat.mul_comm (2 ^ 29), ← Nat.shiftLeft_eq, Nat.shiftLeft_or_distrib]
  rw [power] at *
  rw [Nat.two_pow_add_eq_or_of_lt fits, Nat.two_pow_add_eq_or_of_lt fits, ← Nat.or_assoc, shifted]

theorem toNat_header {axisBits offset : Nat} (isNarrow : Bool) (axis : axisBits ≤ 3)
    (fits : offset < UInt32.size) :
    (header axisBits isNarrow offset).toNat =
      offsetBits * ((2 * axisBits + isNarrow.toNat) ||| offset / offsetBits) +
        offset % offsetBits := by
  have fields : axisBits * 0x40000000 + (if isNarrow then offsetBits else 0) =
      offsetBits * (2 * axisBits + isNarrow.toNat) := by
    cases isNarrow <;> simp [offsetBits] <;> omega
  have small : offsetBits * (2 * axisBits + isNarrow.toNat) < UInt32.size := by
    have bit := Bool.toNat_le isNarrow
    rw [UInt32.size, offsetBits]
    omega
  rw [header, fields, UInt32.toNat_or, UInt32.toNat_ofNat', UInt32.toNat_ofNat',
    Nat.mod_eq_of_lt small, Nat.mod_eq_of_lt fits, ← fields_or _ _ (Nat.mod_lt _ (by decide)),
    Nat.div_add_mod]

theorem header_fields {axisBits offset : Nat} (isNarrow : Bool) (axis : axisBits ≤ 3)
    (fits : offset < offsetBits) :
    (header axisBits isNarrow offset).toNat / 0x40000000 = axisBits ∧
      ((header axisBits isNarrow offset).toNat / offsetBits % 2 = 1 ↔ isNarrow = true) ∧
      (header axisBits isNarrow offset).toNat % offsetBits = offset := by
  -- the fields of the header do not overlap, so that it is their sum
  have words : offsetBits ≤ UInt32.size := by decide
  rw [toNat_header isNarrow axis (Nat.lt_of_lt_of_le fits words), Nat.div_eq_of_lt fits,
    Nat.mod_eq_of_lt fits, Nat.or_zero]
  rw [offsetBits] at *
  cases isNarrow
  · refine ⟨?_, ?_, ?_⟩ <;> simp <;> omega
  · refine ⟨?_, ?_, ?_⟩ <;> simp <;> omega

theorem index_le (axis : Axis) : axis.index ≤ 3 := by cases axis <;> decide

theorem axisOfBits_index (axis : Axis) : axisOfBits axis.index = some axis := by
  cases axis <;> rfl

theorem ofWords_leaf {head : UInt32} {first : Nat} (axis : head.toNat / 0x40000000 = 3)
    (narrow : ¬head.toNat / offsetBits % 2 = 1) (offset : head.toNat % offsetBits = first)
    (index : Nat) (second third : UInt32) :
    ofWords index head second third = .ok (leaf first second.toNat) := by
  rw [ofWords, axis, offset]
  exact if_neg narrow

theorem ofWords_inner {head : UInt32} {axis : Axis} {child : Nat}
    (axisBits : head.toNat / 0x40000000 = axis.index)
    (offset : head.toNat % offsetBits = 3 * child) (index : Nat) (second third : UInt32) :
    ofWords index head second third = .ok
      (if head.toNat / offsetBits % 2 = 1 then narrow axis child ⟨second⟩ ⟨third⟩
      else split axis child ⟨second⟩ ⟨third⟩) := by
  rw [ofWords, axisBits, axisOfBits_index, offset]
  dsimp only
  have aligned : ¬3 * child % 3 ≠ 0 := by omega
  have place : 3 * child / 3 = child := by omega
  rw [if_neg aligned, place]
  split <;> rfl

theorem ofWords_toWords {node : Node} (storable : node.Storable) (index : Nat) :
    ∃ head second third, node.toWords = [head, second, third] ∧
      ofWords index head second third = .ok node := by
  cases node with
  | leaf first count =>
    obtain ⟨fits, counted⟩ := storable
    obtain ⟨axis, narrow, offset⟩ := header_fields false (Nat.le_refl 3) fits
    refine ⟨_, _, _, rfl, ?_⟩
    rw [ofWords_leaf axis (by simp [narrow]) offset, UInt32.toNat_ofNat', Nat.mod_eq_of_lt counted]
  | split axis child left right =>
    obtain ⟨axisBits, narrow, offset⟩ := header_fields false (index_le axis) storable
    refine ⟨_, _, _, rfl, ?_⟩
    rw [ofWords_inner axisBits offset, if_neg (by simp [narrow])]
  | narrow axis child low high =>
    obtain ⟨axisBits, narrow, offset⟩ := header_fields true (index_le axis) storable
    refine ⟨_, _, _, rfl, ?_⟩
    rw [ofWords_inner axisBits offset, if_pos (narrow.mpr rfl)]

theorem listOfWords_toWords {nodes : List Node} (storable : ∀ node ∈ nodes, node.Storable)
    (index : Nat) : listOfWords index (nodes.flatMap toWords) = .ok nodes := by
  induction nodes generalizing index with
  | nil => rfl
  | cons node rest ih =>
    obtain ⟨head, second, third, words, read⟩ := ofWords_toWords (storable node (.head _)) index
    have others := ih (fun other listed => storable other (.tail _ listed)) (index + 1)
    rw [List.flatMap_cons, words]
    simp only [List.cons_append, List.nil_append, listOfWords, read, others]
    rfl

theorem length_toWords (node : Node) : node.toWords.length = 3 := by cases node <;> rfl

end Node

namespace Hierarchy

/-- All numbers of a hierarchy fit their place in a file, and the nodes pass the check of a reader. -/
structure Storable (h : Hierarchy) : Prop where
  nodes : ∀ node ∈ h.nodes.toList, node.Storable
  objects : ∀ object ∈ h.objects.toList, object < UInt32.size
  checked : checkNodes h.nodes.size h.objects.size 0 h.nodes.toList = .ok ()

theorem length_words (h : Hierarchy) : h.words.length = 3 * h.nodes.size := by
  simp [words, List.length_flatMap, Node.length_toWords, List.map_const', Nat.mul_comm]

open Reader

/-- From a hierarchy that was written to its end, words and objects are read. The checks are left. -/
theorem run_pieces {h : Hierarchy} (objects : ∀ object ∈ h.objects.toList, object < UInt32.size)
    {bytes : List UInt8} (written : Output.ofPieces h.pieces = (bytes, .ok ())) (rest : List UInt8) :
    reader.run (bytes ++ rest) = StateT.run (do
      let nodes ← (liftM (Node.listOfWords 0 h.words) : Reader (List Node))
      (liftM (checkNodes nodes.length h.objects.size 0 nodes) : Reader Unit)
      return ⟨nodes.toArray, h.objects, h.bounds⟩) rest := by
  obtain ⟨following, followingWritten, rfl⟩ := Output.ofPieces_ok.mp written
  obtain ⟨_, last, wordsCounted, lastWritten, rfl⟩ := Output.ofPieces_cons.mp followingWritten
  obtain ⟨_, nothing, objectsCounted, endWritten, rfl⟩ := Output.ofPieces_cons.mp lastWritten
  obtain ⟨wordsFit, rfl⟩ := Bytes.counted_eq_ok.mp wordsCounted
  obtain ⟨objectsFit, rfl⟩ := Bytes.counted_eq_ok.mp objectsCounted
  cases Output.ofPieces_nil.mp endWritten
  have aligned : ¬h.words.length % 3 ≠ 0 := by
    rw [length_words]
    omega
  have words : Reads (array h.words.length word) (h.words.flatMap Bytes.ofWord) h.words :=
    reads_array rfl fun w _ => reads_word w
  have numbers : Reads (array h.objects.size count) (h.objects.toList.flatMap Bytes.ofNat)
      h.objects.toList :=
    reads_array rfl fun object listed => reads_nat (objects object listed)
  simp only [List.append_assoc, List.nil_append]
  rw [reader, (reads_box h.bounds).run_bind_eq, (reads_nat wordsFit).run_bind_eq, if_neg aligned,
    words.run_bind_eq, (reads_nat objectsFit).run_bind_eq, numbers.run_bind_eq]
  rfl

/-- A hierarchy that was written to its end is read back. -/
theorem reads_pieces {h : Hierarchy} (storable : h.Storable) {bytes : List UInt8}
    (written : Output.ofPieces h.pieces = (bytes, .ok ())) : Reads reader bytes h := by
  intro rest
  rw [run_pieces storable.objects written]
  exact run_check_eq_ok.mpr ⟨_, Node.listOfWords_toWords storable.nodes 0,
    run_check_eq_ok.mpr ⟨(), storable.checked, rfl⟩⟩

variable {refuses : Fault → Prop} {h : Hierarchy}

/-- The file of a hierarchy is found truncated where it was cut off. From all of it the numbers are read,
and it is up to the checks behind them whether they are taken for the hierarchy. -/
theorem matches_of_decoded (objects : ∀ object ∈ h.objects.toList, object < UInt32.size)
    (decoded : ∀ rest, AsExpected refuses
      (StateT.run (do
        let nodes ← (liftM (Node.listOfWords 0 h.words) : Reader (List Node))
        (liftM (checkNodes nodes.length h.objects.size 0 nodes) : Reader Unit)
        return ⟨nodes.toArray, h.objects, h.bounds⟩) rest) (.ok (h, rest))) :
    Matches refuses reader (Output.ofPieces h.pieces) h := by
  have aligned : ¬h.words.length % 3 ≠ 0 := by
    rw [length_words]
    omega
  have words : Matches refuses (array h.words.length word) (.known (h.words.flatMap Bytes.ofWord))
      h.words :=
    matches_items rfl fun w _ => matches_word w
  have numbers : Matches refuses (array h.objects.size count)
      (.known (h.objects.toList.flatMap Bytes.ofNat)) h.objects.toList :=
    matches_items rfl fun object listed => matches_nat (objects object listed)
  rw [pieces, Output.ofPieces_ok_cons]
  refine (matches_box h.bounds).bind (matches_counted fun _ => ?_)
  rw [if_neg aligned]
  exact words.bind (matches_counted fun _ => numbers.bind (.silent decoded))

theorem matches_of_storable (storable : h.Storable) :
    Matches refuses reader (Output.ofPieces h.pieces) h := by
  refine matches_of_decoded storable.objects fun rest => .inl ?_
  exact run_check_eq_ok.mpr ⟨_, Node.listOfWords_toWords storable.nodes 0,
    run_check_eq_ok.mpr ⟨(), storable.checked, rfl⟩⟩

end Hierarchy

end Sightline
