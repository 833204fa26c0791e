/-!
# Splitting text

`split` cuts text at every occurrence of a character and leaves the character out: there is one part
more than there are occurrences.
-/
namespace Sightline.Text

def split (mark : Char) : List Char → List (List Char)
  | [] => [[]]
  | c :: rest =>
    if c = mark then [] :: split mark rest
    else
      match split mark rest with
      | [] => [[c]]
      | part :: parts => (c :: part) :: parts

/-- Text without the character is its only part. -/
theorem split_of_not_mem {mark : Char} {text : List Char} (absent : mark ∉ text) :
    split mark text = [text] := by
  induction text with
  | nil => rfl
  | cons c rest ih => grind [split]

/-- The first occurrence ends the first part. -/
theorem split_append {mark : Char} {front : List Char} (absent : mark ∉ front) (rest : List Char) :
    split mark (front ++ mark :: rest) = front :: split mark rest := by
  induction front with
  | nil => simp [split]
  | cons c front ih => grind [split]

/-- Text in front becomes the front of the first part. -/
theorem exists_append_split {mark : Char} {front : List Char} (absent : mark ∉ front)
    (back : List Char) : ∃ first parts, split mark back = first :: parts ∧
      split mark (front ++ back) = (front ++ first) :: parts := by
  induction front with
  | nil =>
    cases parted : split mark back with
    | nil => cases back <;> grind [split]
    | cons first parts => exact ⟨first, parts, rfl, parted⟩
  | cons c front ih => grind [split]

/-- Text behind becomes the end of the last part. -/
theorem exists_split_concat (mark : Char) (front : List Char) : ∃ parts last,
    ∀ back : List Char, mark ∉ back → split mark (front ++ back) = parts ++ [last ++ back] := by
  induction front with
  | nil => exact ⟨[], [], fun back absent => split_of_not_mem absent⟩
  | cons c front ih =>
    obtain ⟨parts, last, same⟩ := ih
    by_cases marked : c = mark
    · refine ⟨[] :: parts, last, fun back absent => ?_⟩
      rw [List.cons_append, split, if_pos marked, same back absent, List.cons_append]
    · cases parts with
      | nil =>
        refine ⟨[], c :: last, fun back absent => ?_⟩
        simp only [List.cons_append, split, if_neg marked, same back absent, List.nil_append]
      | cons part parts =>
        refine ⟨(c :: part) :: parts, last, fun back absent => ?_⟩
        simp only [List.cons_append, split, if_neg marked, same back absent]

/-- The last part ends as the text does. -/
theorem exists_split_append {mark : Char} {back : List Char} (absent : mark ∉ back)
    (front : List Char) :
    ∃ parts last, split mark (front ++ back) = parts ++ [last ++ back] := by
  obtain ⟨parts, last, same⟩ := exists_split_concat mark front
  exact ⟨parts, last, same back absent⟩

/-- Parts with the character between them are found again. -/
theorem split_intercalate {mark : Char} {parts : List (List Char)} (some : parts ≠ [])
    (absent : ∀ part ∈ parts, mark ∉ part) : split mark ([mark].intercalate parts) = parts := by
  induction parts with
  | nil => exact absurd rfl some
  | cons part rest ih =>
    rw [List.forall_mem_cons] at absent
    cases rest with
    | nil => rw [List.intercalate_singleton, split_of_not_mem absent.1]
    | cons next rest =>
      rw [List.intercalate_cons_cons, List.append_assoc, List.singleton_append,
        split_append absent.1, ih (List.cons_ne_nil _ _) absent.2]

end Sightline.Text
