import Mathlib.Data.List.TakeWhile
import Sightline.Text.Characters
import Sightline.Text.Split

/-!
# Trimmed text

Characters around text that trimming drops do not matter to it. So a text that is trimmed before it is
split has the same parts, each of them trimmed, as one that is not.
-/
namespace Sightline.Text

variable {front back : Char → Bool} {mark : Char} {pad text : List Char}

theorem trimBy_append_front (dropped : ∀ c ∈ pad, front c = true ∧ back c = true)
    (text : List Char) : trimBy front back (pad ++ text) = trimBy front back text := by
  have kept : (pad ++ text).reverse.dropWhile back =
      if (text.reverse.dropWhile back).isEmpty then [] else text.reverse.dropWhile back ++ pad.reverse := by
    rw [List.reverse_append, List.dropWhile_append]
    congr 1
    rw [List.dropWhile_eq_nil_iff]
    simpa using fun c listed => (dropped c listed).2
  rw [trimBy, trimBy, kept]
  split
  next nothing =>
    rw [List.isEmpty_iff] at nothing
    rw [nothing]
  next =>
    rw [List.reverse_append, List.reverse_reverse]
    exact List.dropWhile_append_of_pos fun c listed => (dropped c listed).1

theorem trimBy_append_back (dropped : ∀ c ∈ pad, back c = true) (text : List Char) :
    trimBy front back (text ++ pad) = trimBy front back text := by
  rw [trimBy, trimBy, List.reverse_append, List.dropWhile_append_of_pos]
  simpa using dropped

theorem trimBy_sublist (front back : Char → Bool) (text : List Char) :
    (trimBy front back text).Sublist text := by
  have inner : ((text.reverse.dropWhile back).reverse).Sublist text := by
    rw [← List.reverse_sublist, List.reverse_reverse]
    exact List.dropWhile_sublist back
  exact (List.dropWhile_sublist front).trans inner

/-- Text without characters to drop stays as it is. -/
theorem trimBy_of_forall (kept : ∀ c ∈ text, front c = false ∧ back c = false) :
    trimBy front back text = text := by
  have whole (p : Char → Bool) (l : List Char) (kept : ∀ c ∈ l, p c = false) : l.dropWhile p = l := by
    rw [List.dropWhile_eq_self_iff]
    intro inside
    rw [kept _ (List.getElem_mem inside)]
    nofun
  rw [trimBy, whole back, List.reverse_reverse, whole front]
  · exact fun c listed => (kept c listed).1
  · simpa using fun c listed => (kept c listed).2

/-- Trimming takes off text in front and text behind. -/
theorem exists_eq_trimBy (front back : Char → Bool) (text : List Char) :
    ∃ before after, text = before ++ trimBy front back text ++ after ∧
      (∀ c ∈ before, front c = true) ∧ ∀ c ∈ after, back c = true := by
  refine ⟨((text.reverse.dropWhile back).reverse).takeWhile front,
    (text.reverse.takeWhile back).reverse, ?_, fun c => List.mem_takeWhile_imp, fun c listed => ?_⟩
  · rw [trimBy, List.takeWhile_append_dropWhile, ← List.reverse_append,
      List.takeWhile_append_dropWhile, List.reverse_reverse]
  · exact List.mem_takeWhile_imp (List.mem_reverse.mp listed)

/-! ### Trimmed parts -/

/-- Text behind that trimming drops is dropped with the last part. -/
theorem map_trimBy_split_append (other : back mark = false) (dropped : ∀ c ∈ pad, back c = true)
    (text : List Char) :
    (split mark (text ++ pad)).map (trimBy front back) = (split mark text).map (trimBy front back) := by
  have absent : mark ∉ pad := fun listed => by
    rw [dropped mark listed] at other
    cases other
  obtain ⟨parts, last, parted⟩ := exists_split_concat mark text
  have alone := parted [] nofun
  rw [List.append_nil, List.append_nil] at alone
  rw [parted pad absent, alone, List.map_append, List.map_append, List.map_singleton,
    List.map_singleton, trimBy_append_back dropped]

/-- Text in front that trimming drops is dropped with the first part. -/
theorem map_trimBy_append_split (other : back mark = false)
    (dropped : ∀ c ∈ pad, front c = true ∧ back c = true) (text : List Char) :
    (split mark (pad ++ text)).map (trimBy front back) = (split mark text).map (trimBy front back) := by
  have absent : mark ∉ pad := fun listed => by
    rw [(dropped mark listed).2] at other
    cases other
  obtain ⟨first, parts, alone, parted⟩ := exists_append_split absent text
  rw [parted, alone, List.map_cons, List.map_cons, trimBy_append_front dropped]

theorem map_trimBy_split_trimBy (other : back mark = false)
    (below : ∀ c, front c = true → back c = true) (text : List Char) :
    (split mark (trimBy front back text)).map (trimBy front back) =
      (split mark text).map (trimBy front back) := by
  obtain ⟨before, after, same, infront, behind⟩ := exists_eq_trimBy front back text
  conv => rhs; rw [same]
  rw [map_trimBy_split_append other behind,
    map_trimBy_append_split other fun c listed => ⟨infront c listed, below c (infront c listed)⟩]

end Sightline.Text
