import Mathlib.Data.List.Basic
import Std.Data.TreeMap.Lemmas
import Sightline.Proofs.Text.Trimming
import Sightline.Proofs.World.FileNames
import Sightline.World.Exemptions

/-!
# Written lists of spells

A list of exempt spells is written with commas between its entries, with spaces and quotation marks around
each of them and line ends behind all. However it is padded, reading it exempts the spells whose numbers are
entries of it and no others; entries without digits say nothing, and nothing is left of former lists.
-/
namespace Sightline.Exemptions

/-! ### Sets of spells -/

section sets

variable {e : Exemptions} {spell : UInt32}

theorem checksSight_eq_false : e.checksSight spell = false ↔ spell ∈ e.spells := by
  rw [checksSight, Bool.not_eq_false', Std.TreeMap.contains_iff_mem]

theorem mem_foldl_insert (spells : List UInt32) :
    spell ∈ (spells.foldl insert e).spells ↔ spell ∈ spells ∨ spell ∈ e.spells := by
  induction spells generalizing e with
  | nil => simp
  | cons first rest ih =>
    rw [List.foldl_cons, ih, insert, Std.TreeMap.mem_insert, Std.LawfulEqCmp.compare_eq_iff_eq,
      List.mem_cons, eq_comm (a := first), ← or_assoc, or_comm (a := spell ∈ rest)]

/-- Former spells are forgotten. -/
theorem checksSight_assign_iff (e : Exemptions) (list : String) :
    (e.assign list).checksSight spell = false ↔ spell ∈ numbers list := by
  rw [checksSight_eq_false, assign, mem_foldl_insert]
  simp [clear]

end sets

/-! ### Numbers -/

/-- Digits are a number if it is one of 32 bits. -/
theorem number?_digits {digits : List Char} (whole : digits.all Single.isDigit = true)
    (nonempty : digits ≠ []) : number? digits =
      if Single.digitsValue digits < UInt32.size then some (UInt32.ofNat (Single.digitsValue digits))
      else none := by
  have noPlus (rest : List Char) : digits ≠ '+' :: rest := by
    rintro rfl
    cases whole
  have nonempty : digits.isEmpty = false := by simpa using nonempty
  unfold number?
  split
  · exact absurd rfl (noPlus _)
  · simp only [nonempty, whole, Bool.not_true, Bool.or_self, Bool.false_eq_true, if_false]

theorem number?_padded (width : Nat) (spell : UInt32) :
    number? (padded width spell).toList = some spell := by
  have whole : (padded width spell).toList.all Single.isDigit = true := by
    rw [List.all_eq_true]
    exact fun c listed => isDigit_of_mem_padded listed
  have nonempty : (padded width spell).toList ≠ [] := by
    rw [toList_padded, Ne, List.append_eq_nil_iff, not_and]
    exact fun _ => Nat.toDigits_ne_nil
  have value : Single.digitsValue (padded width spell).toList = spell.toNat := by
    rw [toList_padded]
    exact (ofDigitChars_zeros _ _).trans Nat.ofDigitChars_ten_toDigits
  rw [number?_digits whole nonempty, value, if_pos spell.toNat_lt, UInt32.ofNat_toNat]

/-- Text without digits is no number. -/
theorem number?_eq_none {text : List Char} (none : ∀ c ∈ text, c.isDigit = false) : number? text = .none := by
  have noNumber (digits : List Char) (none : ∀ c ∈ digits, c.isDigit = false) :
      (digits.isEmpty || !digits.all Single.isDigit) = true := by
    cases digits with
    | nil => rfl
    | cons c rest =>
      have first : Single.isDigit c = false := none c (.head _)
      simp [first]
  unfold number?
  split
  · exact if_pos (noNumber _ fun c listed => none c (.tail _ listed))
  · exact if_pos (noNumber text none)

/-- Stripping takes no digits off. -/
theorem isDigit_of_dropped {c : Char} (dropped : (isQuoteOrSpace c || isLineEnd c) = true) :
    c.isDigit = false := by
  simp only [isQuoteOrSpace, isLineEnd, Bool.or_eq_true, decide_eq_true_eq] at dropped
  obtain ((rfl | rfl) | rfl) | rfl | rfl := dropped <;> rfl

theorem strip_padded (width : Nat) (spell : UInt32) :
    strip (padded width spell).toList = (padded width spell).toList := by
  refine Text.trimBy_of_forall fun c listed => ?_
  rw [← Bool.or_eq_false_iff, ← Bool.or_assoc, Bool.or_self, Bool.eq_false_iff]
  intro dropped
  have digit := isDigit_of_mem_padded listed
  rw [isDigit_of_dropped dropped] at digit
  cases digit

/-! ### Lists -/

/-- What a list of spells can say at one place: the number of a spell, in at least so many digits, or some
other text. -/
inductive Entry where
  | number (width : Nat) (spell : UInt32)
  | other (text : List Char)
deriving DecidableEq, Repr

namespace Entry

def text : Entry → List Char
  | number width spell => (padded width spell).toList
  | other text => text

def spell? : Entry → Option UInt32
  | number _ spell => some spell
  | other _ => none

/-- Other text has neither commas nor digits. -/
def Legible : Entry → Prop
  | number _ _ => True
  | other text => ∀ c ∈ text, c ≠ ',' ∧ c.isDigit = false

instance (entry : Entry) : Decidable entry.Legible :=
  match entry with
  | number _ _ => inferInstanceAs (Decidable True)
  | other text => List.decidableBAll (fun c => c ≠ ',' ∧ c.isDigit = false) text

end Entry

/-- An entry with what stands around it. -/
structure Piece where
  front : List Char
  entry : Entry
  back : List Char
deriving DecidableEq, Repr

namespace Piece

def text (p : Piece) : List Char := p.front ++ p.entry.text ++ p.back

structure Legible (p : Piece) : Prop where
  front : ∀ c ∈ p.front, isQuoteOrSpace c = true
  entry : p.entry.Legible
  back : ∀ c ∈ p.back, isQuoteOrSpace c = true

instance (p : Piece) : Decidable p.Legible :=
  have : Decidable (∀ c ∈ p.front, isQuoteOrSpace c = true) := List.decidableBAll _ _
  have : Decidable (∀ c ∈ p.back, isQuoteOrSpace c = true) := List.decidableBAll _ _
  decidable_of_iff ((∀ c ∈ p.front, isQuoteOrSpace c = true) ∧ p.entry.Legible ∧
      ∀ c ∈ p.back, isQuoteOrSpace c = true)
    ⟨fun h => ⟨h.1, h.2.1, h.2.2⟩, fun h => ⟨h.front, h.entry, h.back⟩⟩

end Piece

/-- The text of a list, with commas between its pieces. -/
def listText (pieces : List Piece) (ends : List Char) : String :=
  .ofList ([','].intercalate (pieces.map Piece.text) ++ ends)

theorem comma_not_mem {p : Piece} (legible : p.Legible) : ',' ∉ p.text := by
  have entry : ',' ∉ p.entry.text := by
    cases found : p.entry with
    | number width spell =>
      have letter : ','.isDigit = false := rfl
      exact FileName.not_mem_padded letter
    | other text =>
      have legible := legible.entry
      rw [found] at legible
      exact fun (listed : ',' ∈ text) => (legible _ listed).1 rfl
  have around (pad : List Char) (quotes : ∀ c ∈ pad, isQuoteOrSpace c = true) : ',' ∉ pad :=
    fun listed => absurd (quotes _ listed) (by decide)
  simp only [Piece.text, List.mem_append, not_or]
  exact ⟨⟨around _ legible.front, entry⟩, around _ legible.back⟩

theorem number?_strip {p : Piece} (legible : p.Legible) : number? (strip p.text) = p.entry.spell? := by
  have bare : strip p.text = strip p.entry.text := by
    rw [strip, Piece.text, Text.trimBy_append_back, Text.trimBy_append_front, strip]
    · exact fun c listed => ⟨legible.front c listed, by simp [legible.front c listed]⟩
    · exact fun c listed => by simp [legible.back c listed]
  rw [bare]
  cases found : p.entry with
  | number width spell => rw [Entry.text, strip_padded, number?_padded, Entry.spell?]
  | other text =>
    have legible := legible.entry
    rw [found] at legible
    refine number?_eq_none fun c listed => ?_
    exact (legible c ((Text.trimBy_sublist _ _ text).mem listed)).2

/-- A list is read entry by entry. -/
theorem numbers_listText {pieces : List Piece} {ends : List Char} (legible : ∀ p ∈ pieces, p.Legible)
    (lineEnds : ∀ c ∈ ends, isLineEnd c = true) :
    numbers (listText pieces ends) = pieces.filterMap fun p => p.entry.spell? := by
  have comma : (isQuoteOrSpace ',' || isLineEnd ',') = false := by decide
  have parts : (Text.split ',' (strip (listText pieces ends).toList)).map strip =
      (Text.split ',' ([','].intercalate (pieces.map Piece.text))).map strip := by
    rw [listText, String.toList_ofList]
    refine (Text.map_trimBy_split_trimBy comma (fun c quote => by simp [quote]) _).trans ?_
    exact Text.map_trimBy_split_append comma (fun c listed => by simp [lineEnds c listed]) _
  have found : numbers (listText pieces ends) =
      ((Text.split ',' ([','].intercalate (pieces.map Piece.text))).map strip).filterMap number? := by
    rw [← parts, List.filterMap_map]
    rfl
  rw [found]
  cases pieces with
  | nil => decide
  | cons first rest =>
    rw [Text.split_intercalate, List.map_map, List.filterMap_map]
    · exact List.filterMap_congr fun p listed => number?_strip (legible p listed)
    · exact List.cons_ne_nil _ _
    · rw [List.forall_mem_map]
      exact fun p listed => comma_not_mem (legible p listed)

/-- After a list is read, sight is checked for all spells but those whose numbers are entries of it,
whatever was exempt before. -/
theorem checksSight_assign (e : Exemptions) {pieces : List Piece} {ends : List Char}
    (legible : ∀ p ∈ pieces, p.Legible) (lineEnds : ∀ c ∈ ends, isLineEnd c = true) (spell : UInt32) :
    (e.assign (listText pieces ends)).checksSight spell = false ↔
      ∃ p ∈ pieces, p.entry.spell? = some spell := by
  rw [checksSight_assign_iff, numbers_listText legible lineEnds, List.mem_filterMap]

/-- A list as it may be written by hand. -/
def scroll : List Piece :=
  [⟨[' ', '\''], .number 0 7, []⟩, ⟨[' '], .number 4 42, [' ', '"']⟩, ⟨[], .other ['a', '\t'], ['\'']⟩,
    ⟨[], .other [], []⟩]

theorem checksSight_assign_scroll : (∀ p ∈ scroll, p.Legible) ∧
    (∀ c ∈ ['\r', '\n'], isLineEnd c = true) ∧
    listText scroll ['\r', '\n'] = " '7, 0042 \",a\t',\r\n" ∧
    ((insert {} 5).assign (listText scroll ['\r', '\n'])).checksSight 42 = false ∧
    ((insert {} 5).assign (listText scroll ['\r', '\n'])).checksSight 5 = true := by
  have legible : ∀ p ∈ scroll, p.Legible := by decide +kernel
  have lineEnds : ∀ c ∈ ['\r', '\n'], isLineEnd c = true := by simp [isLineEnd]
  have exempt := checksSight_assign (insert {} 5) legible lineEnds
  refine ⟨legible, lineEnds, by decide +kernel, (exempt 42).mpr (by decide), ?_⟩
  rw [← Bool.not_eq_false, exempt 5]
  decide

end Sightline.Exemptions
