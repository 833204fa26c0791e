import Sightline.Proofs.Settings.Commands
import Sightline.Proofs.Text.Words

/-!
# Restored settings

The text of a registry has a line for each setting that is saved. A new registry that obeys it has just
these settings, in the same order. Their texts are the ones that were saved, unless two slashes begin a
comment in them, which the quotation marks do not prevent: then what is restored is the text in front of
the slashes.
-/
namespace Sightline

/-! ### Lines of settings -/

namespace Setting

variable {v : Setting}

/-- The name is a word that no mark or comment begins, and the text ends neither its line nor its quotation
marks. -/
structure Writable (v : Setting) : Prop where
  named : v.name.toList ≠ []
  name : ∀ c ∈ v.name.toList, Text.isBlank c = false ∧ c ≠ '"' ∧ c ≠ '/'
  text : ∀ c ∈ v.text.toList, c ≠ '"' ∧ c ≠ '\n'

-- the letters of the texts are gone through, not all letters there are
instance (v : Setting) : Decidable v.Writable :=
  have : Decidable (∀ c ∈ v.name.toList, Text.isBlank c = false ∧ c ≠ '"' ∧ c ≠ '/') :=
    List.decidableBAll _ _
  have : Decidable (∀ c ∈ v.text.toList, c ≠ '"' ∧ c ≠ '\n') := List.decidableBAll _ _
  decidable_of_iff (v.name.toList ≠ [] ∧
      (∀ c ∈ v.name.toList, Text.isBlank c = false ∧ c ≠ '"' ∧ c ≠ '/') ∧
      ∀ c ∈ v.text.toList, c ≠ '"' ∧ c ≠ '\n')
    ⟨fun h => ⟨h.1, h.2.1, h.2.2⟩, fun h => ⟨h.named, h.name, h.text⟩⟩

/-- A comment begins in the text. -/
def HasComment (v : Setting) : Prop := ['/', '/'] <:+: v.text.toList

instance (v : Setting) : Decidable v.HasComment := inferInstanceAs (Decidable (_ <:+: _))

/-- The text up to its first comment. -/
def uncommented (v : Setting) : String := .ofList (Text.beforeComment v.text.toList)

theorem uncommented_eq_iff : v.uncommented = v.text ↔ ¬v.HasComment := by
  rw [uncommented, ← String.toList_inj, String.toList_ofList]
  exact Text.beforeComment_eq_self_iff

/-- The line of a setting up to the text. -/
def lineFront (v : Setting) : List Char := "set".toList ++ ' ' :: (v.name.toList ++ [' '])

def line (v : Setting) : List Char := v.lineFront ++ '"' :: (v.text.toList ++ ['"'])

theorem toList_toLine (v : Setting) : v.toLine.toList = v.line ++ ['\n'] := by
  simp [toLine, line, lineFront]

theorem dropReturn_line (v : Setting) : Text.dropReturn v.line = v.line := by
  have last : v.line = v.lineFront ++ '"' :: v.text.toList ++ ['"'] := by simp [line]
  rw [last]
  exact Text.dropReturn_concat (by decide) _

theorem Writable.newline_not_mem (writable : v.Writable) : '\n' ∉ v.line := by
  have name : '\n' ∉ v.name.toList := fun listed =>
    absurd (writable.name _ listed).1 (by decide)
  have text : '\n' ∉ v.text.toList := fun listed => (writable.text _ listed).2 rfl
  simp [line, lineFront, name, text]

theorem Writable.words_lineFront (writable : v.Writable) (rest : List Char) :
    Text.words (v.lineFront ++ rest) = "set".toList :: v.name.toList :: Text.words rest := by
  have mark : '"' ∉ v.name.toList := fun listed => (writable.name _ listed).2.1 rfl
  have blank : Text.isBlank ' ' = true := by decide
  have plain : ∀ c ∈ "set".toList, Text.isBlank c = false := by
    have letters : "set".toList.all (fun c => Text.isBlank c = false) = true := by decide
    simpa only [List.all_eq_true, decide_eq_true_eq] using letters
  have set (rest : List Char) : Text.words ("set".toList ++ ' ' :: rest) =
      "set".toList :: Text.words rest :=
    Text.words_plain (by decide) plain (by decide) blank rest
  have name := Text.words_plain writable.named (fun c listed => (writable.name c listed).1) mark blank
  rw [lineFront, List.append_assoc, List.cons_append, set, List.append_assoc, List.singleton_append,
    name]

/-- The line gives the name the text up to its first comment. -/
theorem Writable.assignment?_line (writable : v.Writable) :
    Registry.assignment? v.line = some (v.name, v.uncommented) := by
  have slash : '/' ∉ v.lineFront ++ ['"'] := by
    have name : '/' ∉ v.name.toList := fun listed => (writable.name _ listed).2.2 rfl
    simp [lineFront, name]
  have mark : '"' ∉ Text.beforeComment v.text.toList := fun listed =>
    (writable.text _ ((Text.beforeComment_sublist _).mem listed)).1 rfl
  have before : Text.beforeComment v.line =
      v.lineFront ++ '"' :: Text.beforeComment (v.text.toList ++ ['"']) := by
    have parts : v.line = v.lineFront ++ ['"'] ++ (v.text.toList ++ ['"']) := by simp [line]
    rw [parts, Text.beforeComment_append slash, List.append_assoc, List.singleton_append]
  -- a comment takes the last quotation mark along, which ends the word like the line does
  have words : Text.words (Text.beforeComment v.line) =
      ["set".toList, v.name.toList, Text.beforeComment v.text.toList] := by
    obtain ⟨«open», closed⟩ := Text.words_quoted mark
    rw [before, writable.words_lineFront]
    have other : '"' ≠ '/' := by decide
    obtain same | same := Text.beforeComment_concat other v.text.toList
    · rw [same, «open»]
    · rw [same, ← List.cons_append, closed]
  simp only [Registry.assignment?, words, if_true, uncommented, String.ofList_toList]

end Setting

namespace Registry

variable {r : Registry} {v : Setting}

/-! ### Saved settings -/

/-- The settings that a text of the registry saves. -/
def savedSettings (r : Registry) : List Setting :=
  r.settings.toList.filter fun v => v.Has Setting.saved

theorem toList_toText (r : Registry) :
    r.toText.toList = r.savedSettings.flatMap fun v => v.line ++ ['\n'] := by
  simp only [toText, String.toList_join, List.flatMap_map, Setting.toList_toLine, savedSettings]

/-- What a text of the registry sets. -/
theorem assignments_toText (writable : ∀ v ∈ r.savedSettings, v.Writable) :
    (Text.lines r.toText.toList).filterMap assignment? =
      r.savedSettings.map fun v => (v.name, v.uncommented) := by
  have lines : Text.lines r.toText.toList = r.savedSettings.map Setting.line ++ [[]] := by
    rw [toList_toText, ← List.flatMap_map Setting.line fun line => line ++ ['\n']]
    refine Text.lines_flatMap ?_ ?_
    · simpa using fun v listed => (writable v listed).newline_not_mem
    · simpa using fun v _ => v.dropReturn_line
  have last : [[]].filterMap assignment? = [] := rfl
  rw [lines, List.filterMap_append, last, List.append_nil, List.filterMap_map]
  generalize r.savedSettings = settings at writable
  induction settings with
  | nil => rfl
  | cons v rest ih =>
    rw [List.forall_mem_cons] at writable
    have first : (assignment? ∘ Setting.line) v = some (v.name, v.uncommented) :=
      writable.1.assignment?_line
    rw [List.filterMap_cons_some first, ih writable.2, List.map_cons]

/-! ### New settings -/

theorem Sound.indexOf?_eq_none (sound : r.Sound) {name : String} :
    r.indexOf? name = none ↔ name ∉ r.settings.toList.map Setting.name := by
  constructor
  · intro missing listed
    obtain ⟨v, stands, named⟩ := List.mem_map.mp listed
    obtain ⟨i, there⟩ := List.mem_iff_getElem?.mp stands
    rw [Array.getElem?_toList] at there
    have place := (sound.places name i).mpr ⟨v, there, named⟩
    rw [← indexOf?, missing] at place
    cases place
  · intro missing
    cases found : r.indexOf? name with
    | none => rfl
    | some i =>
      obtain ⟨v, there, named⟩ := (sound.places name i).mp found
      have stands := Array.mem_toList_iff.mpr (Array.mem_of_getElem? there)
      exact absurd (List.mem_map.mpr ⟨v, stands, named⟩) missing

/-- Settings that are new are created in their order. -/
theorem settings_setAll (sound : r.Sound) {assignments : List (String × String)}
    (new : (r.settings.toList.map Setting.name ++ assignments.map Prod.fst).Nodup) :
    (r.setAll assignments).settings.toList =
      r.settings.toList ++ assignments.map fun a => Setting.create a.1 a.2 0 := by
  induction assignments generalizing r with
  | nil => rw [setAll, List.foldl_nil, List.map_nil, List.append_nil]
  | cons assignment rest ih =>
    obtain ⟨name, text⟩ := assignment
    have missing : r.indexOf? name = none := by
      rw [sound.indexOf?_eq_none]
      exact fun listed => (List.nodup_append.mp new).2.2 name listed name (.head _) rfl
    have pushed : r.setAll ((name, text) :: rest) = (r.push (.create name text 0)).setAll rest := by
      simp only [setAll, List.foldl_cons, set, assign, ensure, missing]
    have settings : (r.push (.create name text 0)).settings.toList =
        r.settings.toList ++ [.create name text 0] := Array.toList_push
    rw [pushed, ih]
    · rw [settings, List.append_assoc, List.singleton_append, List.map_cons]
    · exact sound.push missing (Setting.value_create name text 0)
    · rw [settings, List.map_append, List.append_assoc]
      exact new

/-- The registry tells the text and the number of each setting by its name. -/
theorem Sound.lookup (sound : r.Sound) (listed : v ∈ r.settings.toList) :
    r.textOf v.name = v.text ∧ r.valueOf v.name = Setting.valueOf v.text := by
  have found : r.find? v.name = some v := sound.find?_eq_some.mpr ⟨rfl, listed⟩
  obtain ⟨i, there⟩ := List.mem_iff_getElem?.mp listed
  rw [Array.getElem?_toList] at there
  rw [textOf, valueOf, found, ← sound.values i v there]
  exact ⟨rfl, rfl⟩

/-! ### Restoring -/

theorem run_eq (writable : ∀ v ∈ r.savedSettings, v.Writable) :
    ({} : Registry).run r.toText = (r.savedSettings.length,
      setAll {} (r.savedSettings.map fun v => (v.name, v.uncommented))) := by
  simp only [run, assignments_toText writable, List.length_map]

/-- A new registry that obeys the text of another one counts the saved settings and has just these, each
with its text up to the first comment. So it tells the same text and number as the other registry exactly
for those settings in whose text no comment begins. -/
theorem run_toText (sound : r.Sound) (writable : ∀ v ∈ r.savedSettings, v.Writable) :
    let after := ({} : Registry).run r.toText
    after.1 = r.savedSettings.length ∧
      after.2.settings.toList = r.savedSettings.map (fun v => .create v.name v.uncommented 0) ∧
      ∀ v ∈ r.savedSettings,
        (after.2.textOf v.name = r.textOf v.name ∧ after.2.valueOf v.name = r.valueOf v.name ↔
          ¬v.HasComment) := by
  intro after
  have result : after = _ := run_eq writable
  rw [result]
  have distinct : (r.savedSettings.map Setting.name).Nodup :=
    sound.distinct.sublist (List.filter_sublist.map Setting.name)
  have settings : (setAll {} (r.savedSettings.map fun v => (v.name, v.uncommented))).settings.toList =
      r.savedSettings.map (fun v => .create v.name v.uncommented 0) := by
    rw [settings_setAll sound_empty, List.map_map]
    · rfl
    · rw [List.map_map]
      exact distinct
  refine ⟨rfl, settings, fun v listed => ?_⟩
  have listedAfter := List.mem_map_of_mem (f := fun v => Setting.create v.name v.uncommented 0) listed
  rw [← settings] at listedAfter
  obtain ⟨text, value⟩ := sound.lookup (List.mem_of_mem_filter listed)
  obtain ⟨textAfter, valueAfter⟩ :=
    (step_setAll (fun _ _ => False) sound_empty _).sound.lookup listedAfter
  dsimp only [Setting.create] at textAfter valueAfter
  rw [textAfter, valueAfter, text, value, ← Setting.uncommented_eq_iff, and_iff_left_iff_imp]
  exact congrArg Setting.valueOf

/-- Settings of a service at some address. -/
def station : List Command :=
  [.ensure "motto" " a / b\r" Setting.saved, .set "fog" "1",
    .ensure "address" "http://host" Setting.saved, .ensure "height" "12.5" 3]

theorem run_toText_station : (ofCommands station).Sound ∧
    (∀ v ∈ (ofCommands station).savedSettings, v.Writable) ∧
    (({} : Registry).run (ofCommands station).toText).1 = 3 ∧
      ∃ v ∈ (ofCommands station).savedSettings, ¬v.HasComment ∧
        (({} : Registry).run (ofCommands station).toText).2.textOf v.name =
          (ofCommands station).textOf v.name := by
  have writable : ∀ v ∈ (ofCommands station).savedSettings, v.Writable := by decide +kernel
  have plain : ∃ v ∈ (ofCommands station).savedSettings, ¬v.HasComment := by decide +kernel
  have three : (ofCommands station).savedSettings.length = 3 := by decide +kernel
  obtain ⟨v, listed, uncommented⟩ := plain
  have sound := sound_ofCommands station
  obtain ⟨counted, -, same⟩ := run_toText sound writable
  exact ⟨sound, writable, counted.trans three, v, listed, uncommented,
    ((same v listed).mpr uncommented).1⟩

/-- Of an address only what stands in front of its slashes comes back. -/
theorem textOf_station : (∀ v ∈ (ofCommands station).savedSettings, v.Writable) ∧
    (∃ v ∈ (ofCommands station).savedSettings, v.name = "address") ∧
    (ofCommands station).textOf "address" = "http://host" ∧
    (({} : Registry).run (ofCommands station).toText).2.textOf "address" = "http:" := by
  decide +kernel

end Registry

end Sightline
