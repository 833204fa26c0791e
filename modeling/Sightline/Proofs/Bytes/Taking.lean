import Sightline.Proofs.Bytes.Reading

/-!
# Writing what was read

Where a value has one written form only, a reader has taken just this form whenever it succeeds. The rules
follow the parts of readers, as those for reading what was written do.
-/
namespace Sightline.Reader

variable {α β : Type} {reader : Reader α}

/-- The reader takes the written form of its value and nothing else. -/
def Takes (reader : Reader α) (write : α → List UInt8) : Prop :=
  ∀ {input rest value}, reader.run input = .ok (value, rest) → input = write value ++ rest

/-! ### Numbers -/

theorem takes_word : Takes word Bytes.ofWord := by
  -- bit by bit, a bit of a byte is one of the number
  have same (a b c d : UInt8) :
      Bytes.ofWord (a.toUInt32 ||| b.toUInt32 <<< 8 ||| c.toUInt32 <<< 16 ||| d.toUInt32 <<< 24) =
        [a, b, c, d] := by
    simp only [Bytes.ofWord, List.cons.injEq, and_true]
    refine ⟨?first, ?second, ?third, ?fourth⟩
    all_goals
      apply UInt8.eq_of_toBitVec_eq
      apply BitVec.eq_of_getLsbD_eq
      intro i inside
    case first => simp
    all_goals
      simp
      grind
  intro input rest n read
  match input with
  | a :: b :: c :: d :: others =>
    cases read
    rw [same]
    rfl
  | [] | [_] | [_, _] | [_, _, _] => cases read

theorem count_lt {input rest : List UInt8} {n : Nat} (read : count.run input = .ok (n, rest)) :
    n < UInt32.size := by
  obtain ⟨w, between, taken, result⟩ := run_bind_eq_ok.mp read
  cases result
  exact w.toNat_lt

theorem takes_count : Takes count Bytes.ofNat := by
  intro input rest n read
  obtain ⟨w, between, taken, result⟩ := run_bind_eq_ok.mp read
  cases result
  rw [Bytes.ofNat, UInt32.ofNat_toNat]
  exact takes_word taken

theorem takes_single : Takes single Bytes.ofSingle := by
  intro input rest x read
  obtain ⟨w, between, taken, result⟩ := run_bind_eq_ok.mp read
  cases result
  exact takes_word taken

theorem takes_vec : Takes vec Bytes.ofVec := by
  intro input rest v read
  obtain ⟨x, afterX, readX, read⟩ := run_bind_eq_ok.mp read
  obtain ⟨y, afterY, readY, read⟩ := run_bind_eq_ok.mp read
  obtain ⟨z, afterZ, readZ, result⟩ := run_bind_eq_ok.mp read
  cases result
  rw [takes_single readX, takes_single readY, takes_single readZ, Bytes.ofVec]
  simp only [List.append_assoc]

theorem takes_box : Takes box Bytes.ofBox := by
  intro input rest b read
  obtain ⟨lo, afterLo, readLo, read⟩ := run_bind_eq_ok.mp read
  obtain ⟨hi, afterHi, readHi, result⟩ := run_bind_eq_ok.mp read
  cases result
  rw [takes_vec readLo, takes_vec readHi, Bytes.ofBox, List.append_assoc]

/-! ### Lists -/

theorem length_of_bytes {length : Nat} {input rest front : List UInt8}
    (read : (bytes length).run input = .ok (front, rest)) : front.length = length := by
  change (if (input.take length).length = length then _ else _) = _ at read
  split at read
  next whole =>
    cases read
    exact whole
  next => cases read

/-- As many items are read as are asked for, each by the reader of items. -/
theorem items_of_array {length : Nat} {input rest : List UInt8} {items : List α}
    (read : (array length reader).run input = .ok (items, rest)) :
    items.length = length ∧ ∀ x ∈ items, ∃ front back, reader.run front = .ok (x, back) := by
  induction length generalizing input items with
  | zero =>
    cases read
    exact ⟨rfl, nofun⟩
  | succ length ih =>
    obtain ⟨first, between, readFirst, read⟩ := run_bind_eq_ok.mp read
    obtain ⟨others, after, readOthers, result⟩ := run_bind_eq_ok.mp read
    cases result
    obtain ⟨rfl, each⟩ := ih readOthers
    exact ⟨rfl, List.forall_mem_cons.mpr ⟨⟨_, _, readFirst⟩, each⟩⟩

/-- The written forms of the items follow each other. -/
theorem takes_array {write : α → List UInt8} (takes : Takes reader write) {length : Nat}
    {input rest : List UInt8} {items : List α}
    (read : (array length reader).run input = .ok (items, rest)) :
    input = items.flatMap write ++ rest := by
  induction length generalizing input items with
  | zero =>
    cases read
    rfl
  | succ length ih =>
    obtain ⟨first, between, readFirst, read⟩ := run_bind_eq_ok.mp read
    obtain ⟨others, after, readOthers, result⟩ := run_bind_eq_ok.mp read
    cases result
    rw [takes readFirst, ih readOthers, List.flatMap_cons, List.append_assoc]

end Sightline.Reader
