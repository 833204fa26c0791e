import Sightline.Proofs.Bytes.Reading

/-!
# Files that were cut off

An output is cut off if some of its bytes are missing at the end, or if a fault ended the writing. A reader
matches an output if it reads a value from all of it, whatever follows, and finds what is left of it
truncated where it was cut off. The rules follow the parts of a reader, so that a format is checked field
by field for both at once. Readers may refuse some values that were written; then they do so where these
values are complete, and never take less than them for something else.
-/
namespace Sightline

/-! ### Outputs -/

namespace Output

/-- Bytes that are written to their end. -/
def known (bytes : List UInt8) : Output := (bytes, .ok ())

/-- Writing goes on unless a fault ended it. -/
def andThen (first next : Output) : Output :=
  match first.2 with
  | .ok () => (first.1 ++ next.1, next.2)
  | .error _ => first

/-- The bytes are less than the output, or all of one that a fault ended. -/
def CutTo (output : Output) (front : List UInt8) : Prop :=
  front <+: output.1 ∧ (output.2 = .ok () → front ≠ output.1)

variable {pieces rest : List Piece}

theorem andThen_known_nil (output : Output) : output.andThen (known []) = output := by
  obtain ⟨bytes, outcome⟩ := output
  cases outcome with
  | ok => exact congrArg (fun bytes => (bytes, Except.ok ())) (List.append_nil bytes)
  | error fault => rfl

theorem known_append (front back : List UInt8) :
    known (front ++ back) = (known front).andThen (known back) := rfl

theorem known_append_andThen (front back : List UInt8) (next : Output) :
    (known (front ++ back)).andThen next = (known front).andThen ((known back).andThen next) := by
  simp only [andThen, known, List.append_assoc]

theorem ofPieces_ok_cons (bytes : List UInt8) :
    ofPieces (.ok bytes :: rest) = (known bytes).andThen (ofPieces rest) := rfl

theorem ofPieces_error_cons (fault : Fault) :
    ofPieces (.error fault :: rest) = Output.andThen ([], .error fault) (ofPieces rest) := rfl

theorem ofPieces_empty : ofPieces [] = known [] := rfl

theorem ofPieces_append_eq :
    ofPieces (pieces ++ rest) = (ofPieces pieces).andThen (ofPieces rest) := by
  induction pieces with
  | nil => rfl
  | cons piece others ih =>
    cases piece with
    | error fault => rfl
    | ok bytes =>
      rw [List.cons_append, ofPieces_ok_cons, ofPieces_ok_cons, ih]
      cases written : ofPieces others with
      | mk following outcome =>
        cases outcome with
        | ok => simp only [andThen, known, List.append_assoc]
        | error fault => rfl

theorem ofPieces_flatMap_ok {α : Type} (write : α → List UInt8) (items : List α) :
    ofPieces (items.flatMap fun x => [.ok (write x)]) = known (items.flatMap write) := by
  induction items with
  | nil => rfl
  | cons first rest ih =>
    rw [List.flatMap_cons, List.flatMap_cons, List.cons_append, List.nil_append, ofPieces_ok_cons, ih]
    rfl

end Output

/-! ### Outcomes that may be refused -/

/-- The outcome is the expected one, unless it is a fault of the kind that refuses. -/
def AsExpected {α : Type} (refuses : Fault → Prop) (outcome expected : Except Fault α) : Prop :=
  outcome = expected ∨ ∃ fault, refuses fault ∧ outcome = .error fault

namespace AsExpected

variable {α β : Type} {refuses : Fault → Prop} {outcome : Except Fault α} {next : α → Except Fault β}

theorem bind {a : α} {expected : Except Fault β} (first : AsExpected refuses outcome (.ok a))
    (second : AsExpected refuses (next a) expected) : AsExpected refuses (outcome >>= next) expected := by
  obtain rfl | ⟨fault, refused, rfl⟩ := first
  · exact second
  · exact .inr ⟨fault, refused, rfl⟩

theorem bind_error {fault : Fault} (first : AsExpected refuses outcome (.error fault)) :
    AsExpected refuses (outcome >>= next) (.error fault) := by
  obtain rfl | ⟨fault, refused, rfl⟩ := first
  · exact .inl rfl
  · exact .inr ⟨fault, refused, rfl⟩

theorem eq {expected : Except Fault α} (as : AsExpected (fun _ => False) outcome expected) :
    outcome = expected := by
  obtain same | ⟨_, never, -⟩ := as
  · exact same
  · exact never.elim

end AsExpected

/-- The front of two lists in a row ends within the first one, or has all of it. -/
theorem front_append_cases {α : Type} {front first second : List α} (known : front <+: first ++ second) :
    (front <+: first ∧ front ≠ first) ∨ ∃ back, back <+: second ∧ front = first ++ back := by
  obtain within | ⟨back, rfl⟩ := List.prefix_or_prefix_of_prefix known (List.prefix_append first second)
  · by_cases all : front = first
    · exact .inr ⟨[], List.nil_prefix, by rw [all, List.append_nil]⟩
    · exact .inl ⟨within, all⟩
  · exact .inr ⟨back, (List.prefix_append_right_inj first).mp known, rfl⟩

/-! ### Readers -/

namespace Reader

variable {α β : Type} {refuses : Fault → Prop}

/-- The reader reads the value from all of the output, and finds less of it truncated. -/
structure Matches (refuses : Fault → Prop) (reader : Reader α) (output : Output) (value : α) : Prop where
  whole : output.2 = .ok () → ∀ rest,
    AsExpected refuses (reader.run (output.1 ++ rest)) (.ok (value, rest))
  cut : ∀ front, output.CutTo front → AsExpected refuses (reader.run front) (.error .truncated)

namespace Matches

variable {reader : Reader α} {next : α → Reader β} {first second output : Output} {a : α} {b : β}

theorem bind (one : Matches refuses reader first a) (two : Matches refuses (next a) second b) :
    Matches refuses (reader >>= next) (first.andThen second) b := by
  obtain ⟨bytes, outcome⟩ := first
  obtain ⟨more, outcome'⟩ := second
  cases outcome with
  | error fault =>
    -- the writing ended in the first part, and so does the reading
    constructor
    case whole => nofun
    case cut =>
      intro front cut
      rw [StateT.run_bind]
      exact (one.cut front cut).bind_error
  | ok =>
    constructor
    case whole =>
      intro done rest
      change AsExpected refuses ((reader >>= next).run (bytes ++ more ++ rest)) _
      rw [StateT.run_bind, List.append_assoc]
      exact (one.whole rfl (more ++ rest)).bind (two.whole done rest)
    case cut =>
      rintro front ⟨known, less⟩
      rw [StateT.run_bind]
      obtain ⟨within, part⟩ | ⟨back, behind, rfl⟩ := front_append_cases known
      · exact (one.cut front ⟨within, fun _ => part⟩).bind_error
      · refine (one.whole rfl back).bind (two.cut back ⟨behind, fun done all => ?_⟩)
        exact less done (congrArg (bytes ++ ·) all)

/-- A part of a reader that takes no bytes. -/
theorem silent (result : ∀ rest, AsExpected refuses (reader.run rest) (.ok (a, rest))) :
    Matches refuses reader (.known []) a := by
  constructor
  case whole =>
    intro _ rest
    exact result rest
  case cut =>
    rintro front ⟨known, less⟩
    exact absurd (List.prefix_nil.mp known) (less rfl)

theorem pure (value : α) : Matches refuses (Pure.pure value) (.known []) value :=
  silent fun _ => .inl rfl

/-- The last field of a reader. -/
theorem last (only : Matches refuses reader output a) (result : next a = Pure.pure b) :
    Matches refuses (reader >>= next) output b := by
  rw [← Output.andThen_known_nil output]
  refine only.bind ?_
  rw [result]
  exact pure b

/-- A check takes no bytes. -/
theorem check {checked : Except Fault α} (passed : checked = .ok a)
    (following : Matches refuses (next a) output b) :
    Matches refuses ((liftM checked : Reader α) >>= next) output b := by
  subst passed
  exact following

/-- Where the writing was ended before anything was written, there is nothing to read. -/
theorem ended {fault : Fault} (starts : reader.run [] = .error .truncated) (value : α) :
    Matches refuses reader ([], .error fault) value := by
  constructor
  case whole => nofun
  case cut =>
    rintro front ⟨known, -⟩
    rw [List.prefix_nil.mp known]
    exact .inl starts

/-- A reader that finds anything shorter than the bytes truncated. -/
theorem ofReads {bytes : List UInt8} (reads : Reads reader bytes a)
    (short : ∀ front : List UInt8, front.length < bytes.length → reader.run front = .error .truncated) :
    Matches refuses reader (.known bytes) a := by
  constructor
  case whole =>
    intro _ rest
    exact .inl (reads rest)
  case cut =>
    rintro front ⟨known, less⟩
    refine .inl (short front (Nat.lt_of_le_of_ne known.length_le fun same => ?_))
    exact less rfl (known.eq_of_length same)

/-- A reader that refuses nothing reads what was written. -/
theorem reads {bytes : List UInt8} (all : Matches (fun _ => False) reader (.known bytes) a) :
    Reads reader bytes a := fun rest => (all.whole rfl rest).eq

end Matches

/-- Some of the output, but not all of it, is refused, whatever follows there. -/
def Stops (fault : Fault) (reader : Reader α) (output : Output) : Prop :=
  ∃ front, front <+: output.1 ∧ front ≠ output.1 ∧ ∀ rest, reader.run (front ++ rest) = .error fault

namespace Stops

variable {reader : Reader α} {next : α → Reader β} {output : Output} {bytes : List UInt8} {a : α}
  {fault : Fault}

/-- All of a part is refused, and something follows it. -/
theorem part (refused : ∀ rest, reader.run (bytes ++ rest) = .error fault) (follows : output.1 ≠ []) :
    Stops fault (reader >>= next) ((Output.known bytes).andThen output) := by
  refine ⟨bytes, List.prefix_append _ _, fun all => ?_, fun rest => ?_⟩
  · exact follows (List.self_eq_append_right.mp all)
  · rw [StateT.run_bind, refused]
    rfl

theorem within (stops : Stops fault reader output) (last : Output) :
    Stops fault (reader >>= next) (output.andThen last) := by
  obtain ⟨front, known, less, refused⟩ := stops
  have longer : output.1 <+: (output.andThen last).1 := by
    unfold Output.andThen
    split
    · exact List.prefix_append _ _
    · exact List.prefix_rfl
  refine ⟨front, known.trans longer, fun all => ?_, fun rest => ?_⟩
  · exact less (known.eq_of_length_le (all ▸ longer.length_le))
  · rw [StateT.run_bind, refused]
    rfl

/-- What stands in front of the output is read without a fault. -/
theorem behind {whole : Reader α} (reads : ∀ rest, whole.run (bytes ++ rest) = reader.run rest)
    (stops : Stops fault reader output) : Stops fault whole ((Output.known bytes).andThen output) := by
  obtain ⟨front, known, less, refused⟩ := stops
  refine ⟨bytes ++ front, (List.prefix_append_right_inj bytes).mpr known, fun all => ?_,
    fun rest => ?_⟩
  · exact less (List.append_cancel_left all)
  · rw [List.append_assoc, reads, refused]

theorem later (one : Matches (fun _ => False) reader (.known bytes) a)
    (stops : Stops fault (next a) output) :
    Stops fault (reader >>= next) ((Output.known bytes).andThen output) :=
  stops.behind one.reads.run_bind_eq

theorem check {checked : Except Fault α} (passed : checked = .ok a)
    (stops : Stops fault (next a) output) :
    Stops fault ((liftM checked : Reader α) >>= next) output := by
  subst passed
  exact stops

end Stops

/-! ### Numbers -/

theorem matches_half (n : UInt16) : Matches refuses half (.known (Bytes.ofHalf n)) n := by
  refine .ofReads (reads_half n) fun front less => ?_
  match front with
  | [] | [_] => rfl
  | _ :: _ :: _ =>
    simp only [Bytes.ofHalf, List.length_cons, List.length_nil] at less
    omega

theorem matches_word (n : UInt32) : Matches refuses word (.known (Bytes.ofWord n)) n := by
  refine .ofReads (reads_word n) fun front less => ?_
  match front with
  | [] | [_] | [_, _] | [_, _, _] => rfl
  | _ :: _ :: _ :: _ :: _ =>
    simp only [Bytes.ofWord, List.length_cons, List.length_nil] at less
    omega

theorem matches_count (n : UInt32) : Matches refuses count (.known (Bytes.ofWord n)) n.toNat :=
  (matches_word n).last rfl

theorem matches_nat {n : Nat} (fits : n < UInt32.size) :
    Matches refuses count (.known (Bytes.ofNat n)) n := by
  have all : Matches refuses count (.known (Bytes.ofWord (UInt32.ofNat n))) (UInt32.ofNat n).toNat :=
    matches_count _
  rwa [UInt32.toNat_ofNat', Nat.mod_eq_of_lt fits] at all

theorem matches_single (x : Single) : Matches refuses single (.known (Bytes.ofSingle x)) x :=
  (matches_word x.bits).last rfl

theorem matches_vec (v : Vec) : Matches refuses vec (.known (Bytes.ofVec v)) v := by
  rw [Bytes.ofVec, List.append_assoc, Output.known_append, Output.known_append]
  exact (matches_single v.x).bind ((matches_single v.y).bind ((matches_single v.z).last rfl))

theorem matches_box (b : Box) : Matches refuses box (.known (Bytes.ofBox b)) b := by
  rw [Bytes.ofBox, Output.known_append]
  exact (matches_vec b.lo).bind ((matches_vec b.hi).last rfl)

/-! ### Lists and tags -/

theorem matches_bytes {bs : List UInt8} {length : Nat} (same : bs.length = length) :
    Matches refuses (bytes length) (.known bs) bs := by
  refine .ofReads (reads_bytes same) fun front less => ?_
  have few : ¬(front.take length).length = length := by
    rw [List.length_take]
    omega
  exact if_neg few

/-- The items of a list are written one after another, each in pieces. -/
theorem matches_array {item : Reader α} {write : β → List Piece} {read : β → α} {items : List β}
    (each : ∀ x ∈ items, Matches refuses item (Output.ofPieces (write x)) (read x)) :
    Matches refuses (array items.length item) (Output.ofPieces (items.flatMap write))
      (items.map read) := by
  -- the induction is on the items, one of which is read from the bytes in front
  induction items with
  | nil => exact .pure []
  | cons first rest ih =>
    rw [List.flatMap_cons, Output.ofPieces_append_eq]
    have others := ih fun x listed => each x (.tail _ listed)
    exact (each first (.head _)).bind (others.last rfl)

/-- Items of known bytes. -/
theorem matches_items {item : Reader α} {write : α → List UInt8} {items : List α} {length : Nat}
    (same : items.length = length) (each : ∀ x ∈ items, Matches refuses item (.known (write x)) x) :
    Matches refuses (array length item) (.known (items.flatMap write)) items := by
  subst same
  have all : Matches refuses (array items.length item)
      (Output.ofPieces (items.flatMap fun x => [.ok (write x)])) (items.map id) := by
    refine matches_array fun x listed => ?_
    rw [Output.ofPieces_ok_cons, Output.ofPieces_empty, Output.andThen_known_nil]
    exact each x listed
  rwa [Output.ofPieces_flatMap_ok, List.map_id] at all

/-- A length with the bytes of a list behind it. If the length does not fit, it ends the file. -/
theorem matches_counted {next : Nat → Reader α} {length : Nat} {items : List UInt8}
    {rest : List Piece} {value : α}
    (following : length < UInt32.size →
      Matches refuses (next length) ((Output.known items).andThen (Output.ofPieces rest)) value) :
    Matches refuses (do next (← count)) (Output.ofPieces (Bytes.counted length items :: rest))
      value := by
  by_cases fits : length < UInt32.size
  · rw [Bytes.counted_eq_ok.mpr ⟨fits, rfl⟩, Output.ofPieces_ok_cons, Output.known_append_andThen]
    exact (matches_nat fits).bind (following fits)
  · have refused : Bytes.counted length items = .error .tooManyItems := by
      rw [Bytes.counted, Bytes.count?, if_neg fits]
      rfl
    rw [refused, Output.ofPieces_error_cons]
    exact .ended rfl value

theorem matches_tag (expected : List UInt8) : Matches refuses (tag expected) (.known expected) () := by
  refine (matches_bytes rfl).last ?_
  exact if_pos rfl

theorem matches_label (name : String) :
    Matches refuses (label name) (.known (Text.toBytes name)) () := matches_tag _

/-- A section that may be missing at the end of a file is there if anything is left of the file. -/
theorem run_label?_bind {name : String} {next : Bool → Reader α} {input : List UInt8}
    (named : Text.toBytes name ≠ []) (filled : input ≠ []) :
    (label? name >>= next).run input = (label name >>= fun _ => next true).run input := by
  rw [label?, tag?, if_neg (by simpa using named), label]
  simp only [StateT.run_bind, run_orEnd? filled]
  cases (tag (Text.toBytes name)).run input <;> rfl

end Reader

end Sightline
