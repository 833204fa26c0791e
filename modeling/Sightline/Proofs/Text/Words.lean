import Mathlib.Data.List.Infix
import Sightline.Text.Words

/-!
# Written lines and words

Lines that are put one behind the other are found again, and so are the words of a line: plain ones
that a blank ends, and one in quotation marks. A comment ends a line wherever it begins, also between
quotation marks; the word that it cuts off is what stands in front of it.
-/
namespace Sightline.Text

variable {mark c : Char} {front text : List Char}

/-! ### Lines -/

theorem split_ne_nil (mark : Char) (text : List Char) : split mark text ≠ [] := by
  induction text with
  | nil => exact List.cons_ne_nil _ _
  | cons c rest ih =>
    rw [split]
    split
    · exact List.cons_ne_nil _ _
    · split <;> exact List.cons_ne_nil _ _

/-- A line feed ends the first line. -/
theorem lines_append (absent : '\n' ∉ front) (rest : List Char) :
    lines (front ++ '\n' :: rest) = dropReturn front :: lines rest := by
  have more := split_ne_nil '\n' rest
  simp only [lines, split_append absent, List.dropLast_cons_of_ne_nil more, List.map_cons,
    List.cons_append, List.getLast?_cons_of_ne_nil more]

theorem dropReturn_concat (other : c ≠ '\r') (front : List Char) :
    dropReturn (front ++ [c]) = front ++ [c] := by
  rw [dropReturn, List.getLast?_concat, if_neg]
  simpa using other

/-- Lines with a line feed behind each are found again, and an empty one behind them. -/
theorem lines_flatMap {parts : List (List Char)} (whole : ∀ part ∈ parts, '\n' ∉ part)
    (kept : ∀ part ∈ parts, dropReturn part = part) :
    lines (parts.flatMap fun part => part ++ ['\n']) = parts ++ [[]] := by
  induction parts with
  | nil => rfl
  | cons part rest ih =>
    rw [List.forall_mem_cons] at whole kept
    rw [List.flatMap_cons, List.append_assoc, List.singleton_append, lines_append whole.1, kept.1,
      ih whole.2 kept.2, List.cons_append]

/-! ### Comments -/

theorem beforeComment_append (absent : '/' ∉ front) (rest : List Char) :
    beforeComment (front ++ rest) = front ++ beforeComment rest := by
  induction front with
  | nil => rfl
  | cons c front ih =>
    rw [List.mem_cons, not_or] at absent
    rw [List.cons_append, beforeComment, ih absent.2, List.cons_append]
    rintro other rfl
    exact absurd rfl absent.1

theorem beforeComment_sublist (text : List Char) : (beforeComment text).Sublist text := by
  fun_induction beforeComment text with
  | case1 => exact List.nil_sublist _
  | case2 c rest _ ih => exact ih.cons_cons c
  | case3 => exact .slnil

/-- A comment begins at the first two slashes that follow each other. -/
theorem beforeComment_eq_self_iff : beforeComment text = text ↔ ¬['/', '/'] <:+: text := by
  fun_induction beforeComment text with
  | case1 rest =>
    refine iff_of_false nofun (not_not.mpr ?_)
    exact ⟨[], rest, rfl⟩
  | case2 c rest other ih =>
    rw [List.cons.injEq, eq_self, true_and, ih, List.infix_cons_iff, not_or, iff_and_self]
    rintro - ⟨behind, same⟩
    obtain ⟨rfl, rfl⟩ := List.cons.inj same
    exact other behind rfl rfl
  | case3 => simp

/-- A character behind a text is cut off if a comment begins in the text. -/
theorem beforeComment_concat (other : c ≠ '/') (text : List Char) :
    beforeComment (text ++ [c]) = beforeComment text ∨
      beforeComment (text ++ [c]) = beforeComment text ++ [c] := by
  fun_induction beforeComment text with
  | case1 rest => exact .inl rfl
  | case2 d rest single ih =>
    have begins : beforeComment (d :: (rest ++ [c])) = d :: beforeComment (rest ++ [c]) := by
      rw [beforeComment]
      rintro behind rfl same
      -- the second slash would stand in the text, or be the character behind it
      cases rest with
      | nil => exact other (List.cons.inj same).1
      | cons e rest => exact single rest rfl (by rw [(List.cons.inj same).1])
    rw [List.cons_append, begins]
    exact ih.imp (congrArg (d :: ·)) (congrArg (d :: ·))
  | case3 =>
    have slash : '/' ∉ [c] := by simpa using Ne.symm other
    have alone := beforeComment_append slash []
    rw [List.append_nil] at alone
    exact .inr alone

/-! ### Words -/

theorem wordsFrom_plain (whole : ∀ c ∈ front, isBlank c = false) (word rest : List Char) :
    wordsFrom (.plain word) (front ++ rest) = wordsFrom (.plain (front.reverse ++ word)) rest := by
  induction front generalizing word with
  | nil => rfl
  | cons c front ih =>
    rw [List.forall_mem_cons] at whole
    rw [List.cons_append, wordsFrom, if_neg (Bool.eq_false_iff.mp whole.1), ih whole.2,
      List.reverse_cons, List.append_assoc, List.singleton_append]

theorem wordsFrom_quoted (absent : '"' ∉ front) (word rest : List Char) :
    wordsFrom (.quoted word) (front ++ rest) = wordsFrom (.quoted (front.reverse ++ word)) rest := by
  induction front generalizing word with
  | nil => rfl
  | cons c front ih =>
    rw [List.mem_cons, not_or] at absent
    rw [List.cons_append, wordsFrom, if_neg (Ne.symm absent.1), ih absent.2, List.reverse_cons,
      List.append_assoc, List.singleton_append]

/-- A blank ends a plain word. -/
theorem words_plain (nonempty : front ≠ []) (whole : ∀ c ∈ front, isBlank c = false)
    (absent : '"' ∉ front) {blank : Char} (isBlank : isBlank blank = true) (rest : List Char) :
    words (front ++ blank :: rest) = front :: words rest := by
  obtain ⟨c, front, rfl⟩ := List.exists_cons_of_ne_nil nonempty
  rw [List.forall_mem_cons] at whole
  rw [List.mem_cons, not_or] at absent
  rw [words, List.cons_append, wordsFrom, if_neg (Bool.eq_false_iff.mp whole.1),
    if_neg (Ne.symm absent.1), wordsFrom_plain whole.2, wordsFrom, if_pos isBlank]
  simp [words]

/-- The rest of a line is one word between quotation marks, also if the last mark is missing. -/
theorem words_quoted (absent : '"' ∉ front) :
    words ('"' :: front) = [front] ∧ words ('"' :: front ++ ['"']) = [front] := by
  have mark : isBlank '"' = false := by decide
  constructor
  · have through := wordsFrom_quoted absent [] []
    rw [List.append_nil] at through
    rw [words, wordsFrom, if_neg (Bool.eq_false_iff.mp mark), if_pos rfl, through, wordsFrom]
    simp
  · rw [words, List.cons_append, wordsFrom, if_neg (Bool.eq_false_iff.mp mark), if_pos rfl,
      wordsFrom_quoted absent, wordsFrom, if_pos rfl, wordsFrom]
    simp

end Sightline.Text
