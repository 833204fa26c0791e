import Sightline.Bytes.Reader
import Sightline.Bytes.Writer
import Sightline.Proofs.Outcome

/-!
# Reading what was written

A reader reads bytes as a value if it takes just these bytes, whatever follows them. The rules for
reading follow the parts of a reader, so that the reader of a format is checked field by field against
its writer. Files are written in pieces; one that is written to its end has all of them.
-/
namespace Sightline

namespace Reader

variable {α β : Type}

def Reads (reader : Reader α) (bytes : List UInt8) (value : α) : Prop :=
  ∀ rest, reader.run (bytes ++ rest) = .ok (value, rest)

/-- Bytes that are there are read by the reader itself. -/
theorem run_orEnd? {reader : Reader α} {bytes : List UInt8} (filled : bytes ≠ []) :
    (orEnd? reader).run bytes = (reader.run bytes).map fun (a, rest) => (some a, rest) := by
  cases bytes with
  | nil => exact absurd rfl filled
  | cons first others => rfl

namespace Reads

variable {reader : Reader α} {next : α → Reader β} {bytes more : List UInt8} {a : α} {b : β}

theorem pure (value : α) : Reads (Pure.pure value) [] value := fun _ => rfl

theorem bind (first : Reads reader bytes a) (second : Reads (next a) more b) :
    Reads (reader >>= next) (bytes ++ more) b := by
  intro rest
  rw [List.append_assoc]
  exact run_bind_eq_ok.mpr ⟨a, more ++ rest, first _, second rest⟩

theorem run_bind {rest : List UInt8} {result : β × List UInt8} (first : Reads reader bytes a)
    (second : (next a).run rest = .ok result) :
    (reader >>= next).run (bytes ++ rest) = .ok result :=
  run_bind_eq_ok.mpr ⟨a, rest, first rest, second⟩

/-- What follows a value is up to the rest of a reader. -/
theorem run_bind_eq (first : Reads reader bytes a) (rest : List UInt8) :
    (reader >>= next).run (bytes ++ rest) = (next a).run rest := by
  rw [StateT.run_bind, first rest]
  rfl

/-- Nothing is left of bytes that end behind a value. -/
theorem run_all (only : Reads reader bytes a) : reader.run bytes = .ok (a, []) := by
  have read := only []
  rwa [List.append_nil] at read

/-- The last field of a reader. -/
theorem last (only : Reads reader bytes a) (result : next a = Pure.pure b) :
    Reads (reader >>= next) bytes b := by
  rw [← List.append_nil bytes]
  refine only.bind ?_
  rw [result]
  exact pure b

/-- A check takes no bytes. -/
theorem check {checked : Except Fault α} (passed : checked = .ok a)
    (second : Reads (next a) more b) : Reads ((liftM checked : Reader α) >>= next) more b := by
  intro rest
  rw [passed]
  exact second rest

theorem orEnd? (reads : Reads reader bytes a) (filled : bytes ≠ []) :
    Reads (Reader.orEnd? reader) bytes (some a) := by
  intro rest
  rw [run_orEnd? (List.append_ne_nil_of_left_ne_nil filled rest), reads rest]
  rfl

end Reads

/-! ### Numbers -/

theorem reads_half (n : UInt16) : Reads half (Bytes.ofHalf n) n := by
  -- bit by bit, a bit of the number comes from one of the bytes
  have same : n.toUInt8.toUInt16 ||| (n >>> 8).toUInt8.toUInt16 <<< 8 = n := by
    apply UInt16.eq_of_toBitVec_eq
    apply BitVec.eq_of_getLsbD_eq
    intro i inside
    simp [-UInt16.toUInt16_toUInt8]
    grind
  intro rest
  exact congrArg (fun n => Except.ok (n, rest)) same

theorem reads_word (n : UInt32) : Reads word (Bytes.ofWord n) n := by
  have same : n.toUInt8.toUInt32 ||| (n >>> 8).toUInt8.toUInt32 <<< 8 |||
      (n >>> 16).toUInt8.toUInt32 <<< 16 ||| (n >>> 24).toUInt8.toUInt32 <<< 24 = n := by
    apply UInt32.eq_of_toBitVec_eq
    apply BitVec.eq_of_getLsbD_eq
    intro i inside
    simp [-UInt32.toUInt32_toUInt8]
    grind
  intro rest
  exact congrArg (fun n => Except.ok (n, rest)) same

theorem reads_byte (b : UInt8) : Reads byte [b] b := fun _ => rfl

theorem reads_count (n : UInt32) : Reads count (Bytes.ofWord n) n.toNat := (reads_word n).last rfl

theorem reads_nat {n : Nat} (fits : n < UInt32.size) : Reads count (Bytes.ofNat n) n := by
  have reads := reads_count (UInt32.ofNat n)
  rwa [UInt32.toNat_ofNat', Nat.mod_eq_of_lt fits] at reads

theorem reads_single (x : Single) : Reads single (Bytes.ofSingle x) x := (reads_word x.bits).last rfl

theorem reads_vec (v : Vec) : Reads vec (Bytes.ofVec v) v := by
  rw [Bytes.ofVec, List.append_assoc]
  exact (reads_single v.x).bind ((reads_single v.y).bind ((reads_single v.z).last rfl))

theorem reads_box (b : Box) : Reads box (Bytes.ofBox b) b :=
  (reads_vec b.lo).bind ((reads_vec b.hi).last rfl)

/-! ### Lists and tags -/

theorem reads_bytes {bs : List UInt8} {length : Nat} (same : bs.length = length) :
    Reads (bytes length) bs bs := by
  subst same
  intro rest
  -- enough bytes are there, so that the reader does not fail
  change (if ((bs ++ rest).take bs.length).length = bs.length then _ else _) = _
  simp

theorem reads_array {item : Reader α} {write : α → List UInt8} {items : List α} {length : Nat}
    (same : items.length = length) (each : ∀ x ∈ items, Reads item (write x) x) :
    Reads (array length item) (items.flatMap write) items := by
  subst same
  -- the induction is on the items, one of which is read with the bytes in front
  induction items with
  | nil => exact .pure []
  | cons first rest ih =>
    rw [List.flatMap_cons]
    have others := ih fun x listed => each x (.tail _ listed)
    exact (each first (.head _)).bind (others.last rfl)

theorem reads_tag (expected : List UInt8) : Reads (tag expected) expected () := by
  refine (reads_bytes rfl).last ?_
  exact if_pos rfl

theorem reads_label (name : String) : Reads (label name) (Text.toBytes name) () := reads_tag _

/-- At the end of the bytes there is no further section. -/
theorem label?_end (name : String) : (label? name).run [] = .ok (false, []) := by
  rw [label?, tag?]
  split <;> rfl

end Reader

/-! ### Pieces of a file -/

namespace Bytes

theorem count?_eq_ok {length : Nat} {count : UInt32} :
    count? length = .ok count ↔ length < UInt32.size ∧ count = UInt32.ofNat length := by
  rw [count?]
  split
  next fits => simp [fits, eq_comm]
  next exceeds => simp [exceeds]

theorem counted_eq_ok {length : Nat} {items bytes : List UInt8} :
    counted length items = .ok bytes ↔
      length < UInt32.size ∧ bytes = ofNat length ++ items := by
  rw [counted, map_eq_ok]
  constructor
  · rintro ⟨count, known, rfl⟩
    obtain ⟨fits, rfl⟩ := count?_eq_ok.mp known
    exact ⟨fits, rfl⟩
  · rintro ⟨fits, rfl⟩
    exact ⟨_, count?_eq_ok.mpr ⟨fits, rfl⟩, rfl⟩

end Bytes

namespace Output

variable {pieces rest : List Piece} {bytes : List UInt8}

/-- A file that is written to its end consists of its pieces. -/
theorem ofPieces_nil : ofPieces [] = (bytes, .ok ()) ↔ bytes = [] := by
  simp [ofPieces, eq_comm]

theorem ofPieces_cons {piece : Piece} :
    ofPieces (piece :: rest) = (bytes, .ok ()) ↔
      ∃ front back, piece = .ok front ∧ ofPieces rest = (back, .ok ()) ∧ bytes = front ++ back := by
  cases piece with
  | error fault => simp [ofPieces]
  | ok front =>
    cases following : ofPieces rest with
    | mk back outcome =>
      simp only [ofPieces, following, Prod.mk.injEq, Except.ok.injEq, exists_and_left,
        exists_eq_left']
      constructor
      · rintro ⟨rfl, rfl⟩
        exact ⟨back, ⟨rfl, rfl⟩, rfl⟩
      · rintro ⟨-, ⟨rfl, rfl⟩, rfl⟩
        exact ⟨rfl, rfl⟩

/-- Bytes that are known always get written. -/
theorem ofPieces_ok {front : List UInt8} :
    ofPieces (.ok front :: rest) = (bytes, .ok ()) ↔
      ∃ back, ofPieces rest = (back, .ok ()) ∧ bytes = front ++ back := by
  rw [ofPieces_cons]
  constructor
  · rintro ⟨_, back, same, written, rfl⟩
    cases same
    exact ⟨back, written, rfl⟩
  · rintro ⟨back, written, rfl⟩
    exact ⟨front, back, rfl, written, rfl⟩

theorem ofPieces_append :
    ofPieces (pieces ++ rest) = (bytes, .ok ()) ↔
      ∃ front back, ofPieces pieces = (front, .ok ()) ∧ ofPieces rest = (back, .ok ()) ∧
        bytes = front ++ back := by
  induction pieces generalizing bytes with
  | nil => simp [ofPieces_nil]
  | cons piece others ih =>
    rw [List.cons_append, ofPieces_cons]
    simp only [ih, ofPieces_cons]
    constructor
    · rintro ⟨front, back, rfl, ⟨middle, last, written, rest, rfl⟩, rfl⟩
      exact ⟨front ++ middle, last, ⟨front, middle, rfl, written, rfl⟩, rest, by simp⟩
    · rintro ⟨front, back, ⟨first, middle, rfl, written, rfl⟩, rest, rfl⟩
      exact ⟨first, middle ++ back, rfl, ⟨middle, back, written, rest, rfl⟩, by simp⟩

/-- A file is written to its end if every piece of it can be written. -/
theorem exists_ofPieces :
    (∃ bytes, ofPieces pieces = (bytes, .ok ())) ↔ ∀ piece ∈ pieces, ∃ bytes, piece = .ok bytes := by
  induction pieces with
  | nil => simp [ofPieces_nil]
  | cons piece others ih =>
    rw [List.forall_mem_cons, ← ih]
    simp only [ofPieces_cons]
    constructor
    · rintro ⟨bytes, front, back, first, written, -⟩
      exact ⟨⟨front, first⟩, back, written⟩
    · rintro ⟨⟨front, first⟩, back, written⟩
      exact ⟨front ++ back, front, back, first, written, rfl⟩

end Output

end Sightline
