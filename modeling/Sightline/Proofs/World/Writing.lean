import Sightline.Proofs.Entries
import Sightline.Proofs.Outcome
import Sightline.World.Directory

/-!
# Writing plain files

Plain names have no slashes and name no folders, so that each leads to its own place in a directory. A
file is found there after it was written, and nothing else changes.
-/
namespace Sightline

/-- A name that leads to a place in a directory itself. -/
structure PlainName (name : String) : Prop where
  noSlash : '/' ∉ name.toList
  noFolder : name ≠ "" ∧ name ≠ "." ∧ name ≠ ".."

namespace Directory

variable {d d' : Directory} {name other : String} {bytes : List UInt8}

/-- What a name leads to. -/
def lookup? (d : Directory) (name : String) : Option Entry := (d.find name).toOption

theorem parts_plain (plain : PlainName name) : parts name = [name] := by
  rw [parts, Text.split_of_not_mem plain.noSlash]
  exact congrArg (fun part => [part]) String.ofList_toList

theorem start_plain (plain : PlainName name) : start name = [] := by
  rw [start, if_neg]
  intro slash
  exact plain.noSlash (List.mem_of_head? slash)

theorem isAbove_plain (plain : PlainName name) : ¬Place.IsAbove [name] := by
  intro above
  rcases above name (.head _) with up | root
  · exact plain.noFolder.2.2 up
  · rw [root] at plain
    exact absurd plain.noSlash (by decide)

/-- Whether a plain name leads to a place does not depend on what is in the directory. -/
theorem locate_plain (plain : PlainName name) :
    d.locate name =
      if '\x00' ∈ name.toList then .error .zeroInPath
      else if longestPath < Text.byteLength name ∨ longestPart < Text.byteLength name then
        .error .pathRefused
      else .ok [name] := by
  have inside : d.contents? [] = some .folder := rfl
  have stays : Place.move [] name = [name] := by
    obtain ⟨empty, dot, dots⟩ := plain.noFolder
    rw [Place.move, if_neg (not_or.mpr ⟨empty, dot⟩), if_neg dots]
    rfl
  rw [locate, start_plain plain, parts_plain plain]
  simp only [follow, inside, stays]
  grind

theorem locate_eq (plain : PlainName name) (d d' : Directory) : d.locate name = d'.locate name := by
  rw [locate_plain plain, locate_plain plain]

theorem place_eq (plain : PlainName name) {place : Place} (found : d.locate name = .ok place) :
    place = [name] := by
  rw [locate_plain plain] at found
  grind

/-- A plain name leads to what stands at its own place, if it leads anywhere. -/
theorem lookup?_plain (plain : PlainName name) :
    d.lookup? name = if (d.locate name).isOk then d.entries[([name] : Place)]? else none := by
  have outside : d.contents? [name] = d.entries[([name] : Place)]? := if_neg (isAbove_plain plain)
  cases found : d.locate name with
  | error fault =>
    simp only [lookup?, find, found]
    rfl
  | ok place =>
    cases place_eq plain found
    simp only [lookup?, find, found, bind, Except.bind, outside]
    cases d.entries[([name] : Place)]? <;> rfl

theorem lookup?_empty (plain : PlainName name) : ({} : Directory).lookup? name = none := by
  rw [lookup?_plain plain]
  split
  · exact Std.TreeMap.getElem?_emptyc
  · rfl

theorem write_eq_ok (plain : PlainName name) (written : d.write name bytes = .ok d') :
    d.locate name = .ok [name] ∧ d' = d.put [name] (.file bytes) := by
  obtain ⟨place, found, written⟩ := bind_eq_ok.mp written
  cases place_eq plain found
  split at written
  · cases written
  · cases written
    exact ⟨found, rfl⟩

/-- A file is found where it was written. -/
theorem lookup?_write (plain : PlainName name) (written : d.write name bytes = .ok d') :
    d'.lookup? name = some (.file bytes) := by
  obtain ⟨found, rfl⟩ := write_eq_ok plain written
  rw [lookup?_plain plain, locate_eq plain _ d, found]
  exact Std.TreeMap.getElem?_insert_self

/-- A file stays as it is when another place is written. -/
theorem lookup?_write_elsewhere (plainOther : PlainName other)
    (elsewhere : d.locate name ≠ .ok [other]) (written : d.write name bytes = .ok d') :
    d'.lookup? other = d.lookup? other := by
  obtain ⟨place, found, written⟩ := bind_eq_ok.mp written
  have differs : place ≠ [other] := by
    rintro rfl
    exact elsewhere found
  split at written
  · cases written
  · cases written
    rw [lookup?_plain plainOther, lookup?_plain plainOther, locate_eq plainOther _ d, put,
      getElem?_insert, if_neg differs]

/-- Other files stay as they are. -/
theorem lookup?_write_of_ne (plain : PlainName name) (plainOther : PlainName other)
    (differ : other ≠ name) (written : d.write name bytes = .ok d') :
    d'.lookup? other = d.lookup? other := by
  refine lookup?_write_elsewhere plainOther ?_ written
  intro found
  exact differ (List.cons.inj (place_eq plain found)).1

/-- A file stays as it is when another place is removed. -/
theorem lookup?_remove_elsewhere (plainOther : PlainName other)
    (elsewhere : d.locate name ≠ .ok [other]) : (d.remove name).lookup? other = d.lookup? other := by
  rw [remove]
  split
  · rfl
  next place found =>
    have differs : place ≠ [other] := by
      rintro rfl
      exact elsewhere found
    split
    · rfl
    · rw [lookup?_plain plainOther, lookup?_plain plainOther, locate_eq plainOther _ d, getElem?_erase,
        if_neg differs]

/-! ### Paths with an ending -/

/-- A path leads to the name of its last part, if that part names no folder. -/
theorem getLast?_follow {last : String} (noFolder : last ≠ "" ∧ last ≠ "." ∧ last ≠ "..")
    {front : List String} {place found : Place}
    (follows : d.follow place (front ++ [last]) = .ok found) : found.getLast? = some last := by
  induction front generalizing place with
  | nil =>
    rw [List.nil_append, follow] at follows
    split at follows
    · cases follows
    · cases follows
    · split at follows
      · cases follows
      · cases follows
        obtain ⟨empty, dot, dots⟩ := noFolder
        rw [Place.move, if_neg (not_or.mpr ⟨empty, dot⟩), if_neg dots, List.getLast?_concat]
  | cons part front ih =>
    rw [List.cons_append, follow] at follows
    split at follows
    · cases follows
    · cases follows
    · split at follows
      · cases follows
      · exact ih follows

/-- A path that ends without a slash leads to a name that ends in the same way. -/
theorem exists_getLast?_locate {front back : List Char} (noSlash : '/' ∉ back)
    (noFolder : ∀ front : List Char, String.ofList (front ++ back) ≠ "" ∧
      String.ofList (front ++ back) ≠ "." ∧ String.ofList (front ++ back) ≠ "..")
    (ends : name.toList = front ++ back) {place : Place} (found : d.locate name = .ok place) :
    ∃ front, place.getLast? = some (String.ofList (front ++ back)) := by
  rw [locate] at found
  split at found
  · cases found
  · split at found
    · cases found
    · -- no slash stands in the ending, so all of it is in the last part
      obtain ⟨others, last, parted⟩ := Text.exists_split_append noSlash front
      rw [parts, ends, parted, List.map_append] at found
      exact ⟨last, getLast?_follow (noFolder last) found⟩

theorem lookup?_eq_some {entry : Entry} : d.lookup? name = some entry ↔ d.find name = .ok entry := by
  rw [lookup?]
  cases d.find name with
  | error fault => constructor <;> nofun
  | ok found => simp [Except.toOption]

theorem lookup?_eq_none : d.lookup? name = none ↔ ∃ fault, d.find name = .error fault := by
  rw [lookup?]
  cases d.find name with
  | error fault => simp [Except.toOption]
  | ok found =>
    constructor
    · nofun
    · rintro ⟨fault, failed⟩
      cases failed

/-- Where look-ups agree, a file is found in both directories or in none. Faults may differ. -/
theorem find_same (same : d'.lookup? name = d.lookup? name) :
    (∃ fault fault', d.find name = .error fault ∧ d'.find name = .error fault') ∨
      ∃ entry, d.find name = .ok entry ∧ d'.find name = .ok entry ∧ d'.read name = d.read name := by
  cases found : d.find name with
  | error fault =>
    obtain ⟨other, missing⟩ := lookup?_eq_none.mp (same.trans (lookup?_eq_none.mpr ⟨fault, found⟩))
    exact .inl ⟨fault, other, rfl, missing⟩
  | ok entry =>
    have there := lookup?_eq_some.mp (same.trans (lookup?_eq_some.mpr found))
    exact .inr ⟨entry, rfl, there, by rw [read, read, found, there]⟩

theorem read_of_lookup? (stands : d.lookup? name = some (.file bytes)) : d.read name = .ok bytes := by
  have found := lookup?_eq_some.mp stands
  exact bind_eq_ok.mpr ⟨_, found, rfl⟩

end Directory

end Sightline
