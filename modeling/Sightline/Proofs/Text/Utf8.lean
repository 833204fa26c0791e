import Sightline.Text.Utf8

/-!
# Text in valid bytes

The bytes of a text are read back as the text: nothing in them is replaced.
-/
namespace Sightline.Text

theorem front?_encoded (c : Char) (rest : List UInt8) :
    front? (String.utf8EncodeChar c ++ rest) = some c := by
  have width : (String.utf8EncodeChar c).length ≤ 4 := by
    rw [String.length_utf8EncodeChar]
    exact c.utf8Size_le_four
  rw [front?, List.take_append, List.take_of_length_le width, List.toByteArray_append]
  exact ByteArray.utf8DecodeChar?_utf8EncodeChar_append

theorem charsOfBytes_of_front? {bytes : List UInt8} {c : Char} {most : Nat}
    (front : front? bytes = some c) :
    charsOfBytes (most + 1) bytes = c :: charsOfBytes most (bytes.drop c.utf8Size) := by
  cases bytes with
  | nil =>
    have none : front? [] = none := by decide
    cases none.symm.trans front
  | cons first rest => simp only [charsOfBytes, front]

theorem charsOfBytes_encoded (cs : List Char) {most : Nat}
    (enough : (cs.flatMap String.utf8EncodeChar).length ≤ most) :
    charsOfBytes most (cs.flatMap String.utf8EncodeChar) = cs := by
  -- each character takes its bytes off the front, and at least one of the budget
  induction cs generalizing most with
  | nil => cases most <;> rfl
  | cons c rest ih =>
    have width := c.utf8Size_pos
    rw [List.flatMap_cons] at enough ⊢
    rw [List.length_append, String.length_utf8EncodeChar] at enough
    cases most with
    | zero => omega
    | succ most =>
      have dropped : (String.utf8EncodeChar c ++ rest.flatMap String.utf8EncodeChar).drop
          c.utf8Size = rest.flatMap String.utf8EncodeChar := by
        rw [← String.length_utf8EncodeChar c, List.drop_left]
      rw [charsOfBytes_of_front? (front?_encoded c _), dropped, ih (by omega)]

theorem ofBytes_toBytes (text : String) : ofBytes (toBytes text) = text := by
  rw [ofBytes, toBytes, charsOfBytes_encoded text.toList (Nat.le_refl _)]
  exact String.ofList_toList

end Sightline.Text
