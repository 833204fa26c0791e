import Sightline.Text.Split
import Sightline.World.Names

/-!
# Names of files tell files apart

The files of maps, tiles and models have different endings, and the rest of a name can be read back: its
numbers have digits only, whatever their padding, and are parted by another character.
-/
namespace Sightline

/-! ### Padded numbers -/

theorem toList_padded (width : Nat) (n : UInt32) :
    (padded width n).toList =
      List.replicate (width - (Nat.toDigits 10 n.toNat).length) '0' ++ Nat.toDigits 10 n.toNat :=
  String.toList_ofList

theorem isDigit_of_mem_padded {width : Nat} {n : UInt32} {c : Char}
    (listed : c ∈ (padded width n).toList) : c.isDigit = true := by
  rw [toList_padded, List.mem_append] at listed
  rcases listed with zero | digit
  · rw [List.eq_of_mem_replicate zero]
    decide
  · exact Nat.isDigit_of_mem_toDigits (by decide) (by decide) digit

theorem ofDigitChars_zeros (count : Nat) (digits : List Char) :
    Nat.ofDigitChars 10 (List.replicate count '0' ++ digits) 0 = Nat.ofDigitChars 10 digits 0 := by
  induction count with
  | zero => rfl
  | succ count ih => exact ih

/-- The zeros in front of a number do not change it. -/
theorem padded_inj {width : Nat} {m n : UInt32} :
    (padded width m).toList = (padded width n).toList ↔ m = n := by
  constructor
  · intro same
    have values := congrArg (fun digits => Nat.ofDigitChars 10 digits 0) same
    simp only [toList_padded, ofDigitChars_zeros, Nat.ofDigitChars_ten_toDigits] at values
    exact UInt32.toNat_inj.mp values
  · rintro rfl
    rfl

/-! ### Files -/

/-- What a file is about. -/
inductive FileName where
  | tree (map : UInt32)
  | tile (map : UInt32) (tile : Tile)
  | model (name : String)

namespace FileName

def text : FileName → String
  | tree map => treeFileName map
  | tile map t => tileFileName map t
  | model name => modelFileName name

theorem toList_tree (map : UInt32) :
    (tree map).text.toList = (padded 3 map).toList ++ ".vmtree".toList := by
  simp only [text, treeFileName, String.toList_append]

theorem toList_tile (map : UInt32) (t : Tile) :
    (tile map t).text.toList = (padded 3 map).toList ++ '_' :: ((padded 2 t.y).toList ++
      '_' :: ((padded 2 t.x).toList ++ ".vmtile".toList)) := by
  simp only [text, tileFileName, String.toList_append, List.append_assoc]
  rfl

theorem toList_model (name : String) :
    (model name).text.toList = name.toList ++ ".vmo".toList := by
  simp only [text, modelFileName, String.toList_append]

theorem not_mem_padded {width : Nat} {n : UInt32} {c : Char} (letter : c.isDigit = false) :
    c ∉ (padded width n).toList := by
  intro listed
  have digit := isDigit_of_mem_padded listed
  rw [letter] at digit
  cases digit

/-- Numbers have no underscores, so each underscore ends one. -/
theorem split_tile (map : UInt32) (t : Tile) :
    Text.split '_' (tile map t).text.toList =
      [(padded 3 map).toList, (padded 2 t.y).toList, (padded 2 t.x).toList ++ ".vmtile".toList] := by
  have parted (width : Nat) (n : UInt32) : '_' ∉ (padded width n).toList := not_mem_padded rfl
  have last : '_' ∉ (padded 2 t.x).toList ++ ".vmtile".toList := by
    rw [List.mem_append, not_or]
    exact ⟨parted 2 t.x, by decide⟩
  rw [toList_tile, Text.split_append (parted 3 map), Text.split_append (parted 2 t.y),
    Text.split_of_not_mem last]

/-- The last letters of a name, in reverse. -/
def ending : FileName → List Char
  | tree _ => ['e', 'e', 'r']
  | tile _ _ => ['e', 'l', 'i']
  | model _ => ['o', 'm', 'v']

theorem ending_eq (f : FileName) : f.text.toList.reverse.take 3 = f.ending := by
  cases f with
  | tree map =>
    rw [toList_tree, List.reverse_append]
    rfl
  | tile map t =>
    rw [toList_tile]
    simp only [List.reverse_append, List.reverse_cons, List.append_assoc]
    rfl
  | model name =>
    rw [toList_model, List.reverse_append]
    rfl

theorem text_injective : Function.Injective text := by
  intro one other same
  -- different kinds of files end in different letters
  have lists := congrArg String.toList same
  have endings : one.ending = other.ending := by rw [← ending_eq, ← ending_eq, same]
  cases one with
  | tree map =>
    cases other with
    | tree map' =>
      rw [toList_tree, toList_tree] at lists
      rw [padded_inj.mp (List.append_cancel_right lists)]
    | tile map' t' => cases endings
    | model name' => cases endings
  | tile map t =>
    cases other with
    | tree map' => cases endings
    | tile map' t' =>
      have parts := congrArg (Text.split '_') lists
      rw [split_tile, split_tile] at parts
      obtain ⟨maps, parts⟩ := List.cons_eq_cons.mp parts
      obtain ⟨ys, parts⟩ := List.cons_eq_cons.mp parts
      obtain ⟨xs, -⟩ := List.cons_eq_cons.mp parts
      have sameY : t.y = t'.y := padded_inj.mp ys
      have sameX : t.x = t'.x := padded_inj.mp (List.append_cancel_right xs)
      cases t
      cases t'
      cases sameX
      cases sameY
      rw [padded_inj.mp maps]
    | model name' => cases endings
  | model name =>
    cases other with
    | tree map' => cases endings
    | tile map' t' => cases endings
    | model name' =>
      rw [toList_model, toList_model] at lists
      rw [String.toList_inj.mp (List.append_cancel_right lists)]

/-- The name of a model as it can be used for a file in a folder: a slash would lead to another one. -/
def Plain : FileName → Prop
  | model name => '/' ∉ name.toList
  | _ => True

theorem not_mem_text {f : FileName} (plain : f.Plain) : '/' ∉ f.text.toList := by
  have number (width : Nat) (n : UInt32) : '/' ∉ (padded width n).toList := not_mem_padded rfl
  cases f with
  | tree map =>
    rw [toList_tree, List.mem_append, not_or]
    exact ⟨number 3 map, by decide⟩
  | tile map t =>
    rw [toList_tile]
    simp [number]
  | model name =>
    rw [toList_model, List.mem_append, not_or]
    exact ⟨plain, by decide⟩

/-- The name of a file is none of the names that a path uses for folders. -/
theorem text_ne (f : FileName) : f.text ≠ "" ∧ f.text ≠ "." ∧ f.text ≠ ".." := by
  have ending := f.ending_eq
  refine ⟨?_, ?_, ?_⟩
  all_goals
    intro same
    rw [same] at ending
    cases f <;> cases ending

end FileName

end Sightline
