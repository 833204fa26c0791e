import Mathlib.Data.List.Basic
import Mathlib.Data.List.Nodup
import Sightline.Proofs.Entries
import Sightline.Settings.Options

/-!
# What commands do to a registry

A registry is changed by creating settings, by giving them texts and by texts of such commands. Whatever
is done, its index leads from each name to the one place of its setting, and the number beside a text is
the one that the text reads as. Settings stay at their places under their names and lose no mark, and one
that is protected keeps its text unless another one is forced on it.
-/
namespace Sightline

/-! ### Settings -/

namespace Setting

variable {v w : Setting} {mark : UInt32} {forced : String → String → Prop}

/-- What may become of a setting where some texts are forced on names. -/
structure Becomes (forced : String → String → Prop) (v w : Setting) : Prop where
  name : w.name = v.name
  marks : v.flags ||| w.flags = w.flags
  text : v.Has locked → (w.text = v.text ∧ w.value = v.value) ∨ forced v.name w.text

theorem Has.mono (has : v.Has mark) (grown : v.flags ||| w.flags = w.flags) : w.Has mark := by
  unfold Has at has ⊢
  rw [← grown]
  have bits := congrArg UInt32.toBitVec has
  apply UInt32.eq_of_toBitVec_eq
  rw [UInt32.toBitVec_and] at bits
  rw [UInt32.toBitVec_and, UInt32.toBitVec_or, ← bits]
  ext i inside
  simp
  grind

theorem Becomes.refl (forced : String → String → Prop) (v : Setting) : v.Becomes forced v :=
  ⟨rfl, UInt32.or_self, fun _ => .inl ⟨rfl, rfl⟩⟩

theorem Becomes.trans {x : Setting} (first : v.Becomes forced w) (second : w.Becomes forced x) :
    v.Becomes forced x where
  name := second.name.trans first.name
  marks := by rw [← second.marks, ← UInt32.or_assoc, first.marks]
  text has := by
    obtain ⟨text, value⟩ | given := second.text (has.mono first.marks)
    · rw [text, value]
      exact first.text has
    · rw [first.name] at given
      exact .inr given

theorem Becomes.weaken {forced' : String → String → Prop} (becomes : v.Becomes forced w)
    (weaker : ∀ name text, forced name text → forced' name text) : v.Becomes forced' w where
  name := becomes.name
  marks := becomes.marks
  text has := (becomes.text has).imp_right (weaker _ _)

theorem becomes_addFlags (forced : String → String → Prop) (v : Setting) (flags : UInt32) :
    v.Becomes forced (v.addFlags flags) where
  name := rfl
  marks := by rw [addFlags, ← UInt32.or_assoc, UInt32.or_self]
  text _ := .inl ⟨rfl, rfl⟩

theorem name_setText (v : Setting) (text : String) : (v.setText text).name = v.name := by
  unfold setText
  split <;> rfl

theorem flags_setText (v : Setting) (text : String) : (v.setText text).flags = v.flags := by
  unfold setText
  split <;> rfl

theorem text_setText (v : Setting) (text : String) : (v.setText text).text = text := by
  unfold setText
  split
  next same => exact same
  · rfl

theorem value_setText (right : v.value = valueOf v.text) (text : String) :
    (v.setText text).value = valueOf text := by
  unfold setText
  split
  next same => rw [right, same]
  · dsimp only

theorem value_create (name text : String) (flags : UInt32) :
    (create name text flags).value = valueOf (create name text flags).text := by
  simp only [create]

end Setting

namespace Registry

variable {r r' : Registry} {v : Setting} {name : String} {forced : String → String → Prop}

/-! ### Sound registries -/

/-- Names are distinct, the index leads from each name to its place, and the number beside each text is the
one that the text reads as. -/
structure Sound (r : Registry) : Prop where
  distinct : (r.settings.toList.map Setting.name).Nodup
  places : ∀ (name : String) (i : Nat),
    r.places[name]? = some i ↔ ∃ v, r.settings[i]? = some v ∧ v.name = name
  values : ∀ (i : Nat) (v : Setting), r.settings[i]? = some v → v.value = Setting.valueOf v.text

/-- An index with one place for each name leaves no room for two settings of one name. -/
theorem nodup_of_places (places : ∀ (name : String) (i : Nat),
    r.places[name]? = some i ↔ ∃ v, r.settings[i]? = some v ∧ v.name = name) :
    (r.settings.toList.map Setting.name).Nodup := by
  rw [List.nodup_iff_injective_getElem]
  rintro ⟨i, insideI⟩ ⟨j, insideJ⟩ same
  simp only [List.length_map, Array.length_toList] at insideI insideJ
  simp only [List.getElem_map, Array.getElem_toList] at same
  have placeI := (places _ i).mpr ⟨r.settings[i], Array.getElem?_eq_getElem insideI, rfl⟩
  have placeJ := (places _ j).mpr ⟨r.settings[j], Array.getElem?_eq_getElem insideJ, same.symm⟩
  rw [placeI] at placeJ
  cases placeJ
  rfl

theorem sound_empty : Sound {} where
  distinct := .nil
  places name i := by simp
  values i v stands := by simp at stands

/-- The setting of a name is the one that stands under it. -/
theorem Sound.find?_eq_some (sound : r.Sound) :
    r.find? name = some v ↔ v.name = name ∧ v ∈ r.settings.toList := by
  rw [find?, indexOf?, Option.bind_eq_some_iff]
  simp only [List.mem_iff_getElem?, Array.getElem?_toList]
  constructor
  · rintro ⟨i, place, stands⟩
    obtain ⟨w, there, named⟩ := (sound.places name i).mp place
    rw [stands] at there
    cases there
    exact ⟨named, i, stands⟩
  · rintro ⟨named, i, stands⟩
    exact ⟨i, (sound.places name i).mpr ⟨v, stands, named⟩, stands⟩

theorem getElem?_push (r : Registry) (v : Setting) (i : Nat) :
    (r.push v).settings[i]? = if i = r.settings.size then some v else r.settings[i]? :=
  Array.getElem?_push

theorem getElem?_change (r : Registry) (index i : Nat) (f : Setting → Setting) :
    (r.change index f).settings[i]? =
      if index = i then r.settings[i]?.map f else r.settings[i]? := by
  rw [change, Array.getElem?_modify]

theorem Sound.push (sound : r.Sound) (new : r.indexOf? v.name = none)
    (right : v.value = Setting.valueOf v.text) : (r.push v).Sound := by
  have places (name : String) (i : Nat) : (r.push v).places[name]? = some i ↔
      ∃ w, (r.push v).settings[i]? = some w ∧ w.name = name := by
    rw [getElem?_push, Registry.push, getElem?_insert]
    -- the new name has the place behind all others, and no other name has it
    have outside : r.settings[r.settings.size]? = none := Array.getElem?_eq_none (Nat.le_refl _)
    by_cases named : v.name = name
    · rw [if_pos named, Option.some.injEq]
      subst named
      constructor
      · rintro rfl
        exact ⟨v, if_pos rfl, rfl⟩
      · rintro ⟨w, stands, same⟩
        split at stands
        next last => exact last.symm
        next => exact absurd ((sound.places _ i).mpr ⟨w, stands, same⟩) (by
          rw [← indexOf?, new]
          nofun)
    · rw [if_neg named, sound.places name i]
      constructor
      · rintro ⟨w, stands, same⟩
        refine ⟨w, ?_, same⟩
        rw [if_neg, stands]
        rintro rfl
        rw [outside] at stands
        cases stands
      · rintro ⟨w, stands, same⟩
        split at stands
        next =>
          cases stands
          exact absurd same named
        next => exact ⟨w, stands, same⟩
  refine ⟨nodup_of_places places, places, fun i w stands => ?_⟩
  rw [getElem?_push] at stands
  split at stands
  · cases stands
    exact right
  · exact sound.values i w stands

/-- A change that keeps the name and gives the number of the text keeps the registry sound. -/
theorem Sound.change {index : Nat} {f : Setting → Setting} (sound : r.Sound)
    (named : ∀ v, (f v).name = v.name)
    (right : ∀ v, v.value = Setting.valueOf v.text → (f v).value = Setting.valueOf (f v).text) :
    (r.change index f).Sound := by
  have places (name : String) (i : Nat) : (r.change index f).places[name]? = some i ↔
      ∃ w, (r.change index f).settings[i]? = some w ∧ w.name = name := by
    rw [getElem?_change]
    refine (sound.places name i).trans ?_
    split
    · simp only [Option.map_eq_some_iff, exists_exists_and_eq_and, named]
    · rfl
  refine ⟨nodup_of_places places, places, fun i w stands => ?_⟩
  rw [getElem?_change] at stands
  split at stands
  · obtain ⟨v, there, rfl⟩ := Option.map_eq_some_iff.mp stands
    exact right v (sound.values i v there)
  · exact sound.values i w stands

/-! ### Steps -/

/-- A step to a sound registry. Settings stay at their places, and each becomes what it may become where
some texts are forced on names. -/
structure Step (forced : String → String → Prop) (r r' : Registry) : Prop where
  sound : r'.Sound
  becomes : ∀ (i : Nat) (v : Setting), r.settings[i]? = some v →
    ∃ w, r'.settings[i]? = some w ∧ v.Becomes forced w

theorem Step.refl (forced : String → String → Prop) (sound : r.Sound) : Step forced r r :=
  ⟨sound, fun _ v stands => ⟨v, stands, .refl forced v⟩⟩

theorem Step.trans {r'' : Registry} (first : Step forced r r') (second : Step forced r' r'') :
    Step forced r r'' where
  sound := second.sound
  becomes i v stands := by
    obtain ⟨w, between, one⟩ := first.becomes i v stands
    obtain ⟨x, after, two⟩ := second.becomes i w between
    exact ⟨x, after, one.trans two⟩

theorem Step.weaken {forced' : String → String → Prop} (step : Step forced r r')
    (weaker : ∀ name text, forced name text → forced' name text) : Step forced' r r' where
  sound := step.sound
  becomes i v stands := by
    obtain ⟨w, after, becomes⟩ := step.becomes i v stands
    exact ⟨w, after, becomes.weaken weaker⟩

theorem step_push (forced : String → String → Prop) (sound : r.Sound)
    (new : r.indexOf? v.name = none) (right : v.value = Setting.valueOf v.text) :
    Step forced r (r.push v) where
  sound := sound.push new right
  becomes i w stands := by
    have inside := (Array.getElem?_eq_some_iff.mp stands).1
    rw [getElem?_push, if_neg (Nat.ne_of_lt inside)]
    exact ⟨w, stands, .refl forced w⟩

theorem step_change {index : Nat} {f : Setting → Setting} (sound : r.Sound)
    (named : ∀ v, (f v).name = v.name)
    (right : ∀ v, v.value = Setting.valueOf v.text → (f v).value = Setting.valueOf (f v).text)
    (becomes : ∀ v, r.settings[index]? = some v → v.Becomes forced (f v)) :
    Step forced r (r.change index f) where
  sound := sound.change named right
  becomes i v stands := by
    rw [getElem?_change]
    split
    next same =>
      subst same
      exact ⟨f v, by rw [stands]; rfl, becomes v stands⟩
    next => exact ⟨v, stands, .refl forced v⟩

theorem step_ensure (forced : String → String → Prop) (sound : r.Sound) (name text : String)
    (flags : UInt32) : Step forced r (r.ensure name text flags).2 := by
  unfold ensure
  split
  next index found =>
    exact step_change sound (fun _ => rfl) (fun _ right => right)
      fun v _ => Setting.becomes_addFlags forced v flags
  next missing => exact step_push forced sound missing (Setting.value_create name text flags)

/-- Only force changes the text of a setting that is protected. -/
theorem step_assign (sound : r.Sound) (name text : String) (force : Bool) :
    Step (fun n t => force = true ∧ n = name ∧ t = text) r (r.assign name text force).2 := by
  unfold assign
  split
  next missing => exact step_ensure _ sound name text 0
  next index found =>
    refine step_change sound (fun v => ?_) (fun v right => ?_) fun v stands => ?_
    · split
      · rfl
      · exact Setting.name_setText v text
    · split
      · exact right
      · rw [Setting.value_setText right, Setting.text_setText]
    · -- the index led to the setting of the name
      obtain ⟨w, there, named⟩ := (sound.places name index).mp found
      rw [stands] at there
      cases there
      split
      next => exact .refl _ v
      next free =>
        refine ⟨Setting.name_setText v text, ?_, fun has => .inr ⟨?_, named, ?_⟩⟩
        · rw [Setting.flags_setText, UInt32.or_self]
        · by_contra unforced
          exact free ⟨by simpa using unforced, has⟩
        · exact Setting.text_setText v text

theorem step_set (forced : String → String → Prop) (sound : r.Sound) (name text : String) :
    Step forced r (r.set name text).2 :=
  (step_assign sound name text false).weaken fun _ _ given => nomatch given.1

theorem step_setAll (forced : String → String → Prop) (sound : r.Sound)
    (assignments : List (String × String)) : Step forced r (r.setAll assignments) := by
  induction assignments generalizing r with
  | nil => exact .refl forced sound
  | cons assignment rest ih =>
    have first := step_set forced sound assignment.1 assignment.2
    exact first.trans (ih first.sound)

theorem step_register (forced : String → String → Prop) (sound : r.Sound) :
    Step forced r (Options.register r) := by
  have first := step_ensure forced sound Options.sightName "1" Setting.saved
  have second := step_ensure forced first.sound Options.heightName "1" Setting.saved
  have third := step_ensure forced second.sound Options.spellsName "" Setting.saved
  have fourth := step_ensure forced third.sound Options.folderName "vmaps" Setting.locked
  exact ((first.trans second).trans third).trans fourth

theorem step_clearMarks (forced : String → String → Prop) (sound : r.Sound) :
    Step forced r r.clearMarks := by
  have stands (i : Nat) : r.clearMarks.settings[i]? =
      r.settings[i]?.map fun v => { v with isModified := false } := by
    rw [clearMarks, Array.getElem?_map]
  have places (name : String) (i : Nat) : r.clearMarks.places[name]? = some i ↔
      ∃ w, r.clearMarks.settings[i]? = some w ∧ w.name = name := by
    rw [stands]
    refine (sound.places name i).trans ?_
    simp only [Option.map_eq_some_iff, exists_exists_and_eq_and]
  refine ⟨⟨nodup_of_places places, places, fun i w there => ?_⟩, fun i v there => ?_⟩
  · rw [stands] at there
    obtain ⟨v, before, rfl⟩ := Option.map_eq_some_iff.mp there
    exact sound.values i v before
  · refine ⟨{ v with isModified := false }, ?_, rfl, UInt32.or_self, fun _ => .inl ⟨rfl, rfl⟩⟩
    rw [stands, there]
    rfl

/-! ### Runs -/

/-- What can be done to a registry. -/
inductive Command where
  | ensure (name text : String) (flags : UInt32)
  | set (name text : String)
  | force (name text : String)
  | setNumber (name : String) (x : Single)
  | run (text : String)
  | register
  | readOptions
  | clearMarks
deriving DecidableEq, Repr

def obey (r : Registry) : Command → Registry
  | .ensure name text flags => (r.ensure name text flags).2
  | .set name text => (r.set name text).2
  | .force name text => (r.forceSet name text).2
  | .setNumber name x => (r.setNumber name x).2
  | .run text => (r.run text).2
  | .register => Options.register r
  | .readOptions => (Options.ofRegistry r).2
  | .clearMarks => r.clearMarks

/-- What commands make of an empty registry. -/
def ofCommands (commands : List Command) : Registry := commands.foldl obey {}

theorem step_obey (sound : r.Sound) (command : Command) :
    Step (fun name text => command = .force name text) r (r.obey command) := by
  cases command with
  | ensure name text flags => exact step_ensure _ sound name text flags
  | set name text => exact step_set _ sound name text
  | force name text =>
    refine (step_assign sound name text true).weaken ?_
    rintro _ _ ⟨-, rfl, rfl⟩
    rfl
  | setNumber name x => exact step_set _ sound name (textOfNumber x)
  | run text => exact step_setAll _ sound _
  | register => exact step_register _ sound
  | readOptions => exact step_register _ sound
  | clearMarks => exact step_clearMarks _ sound

theorem step_foldl_obey (sound : r.Sound) (commands : List Command) :
    Step (fun name text => .force name text ∈ commands) r (commands.foldl obey r) := by
  induction commands generalizing r with
  | nil => exact .refl _ sound
  | cons command rest ih =>
    have first := step_obey sound command
    have others := ih first.sound
    refine (first.weaken ?_).trans (others.weaken fun _ _ later => .tail _ later)
    rintro name text rfl
    exact .head _

theorem sound_ofCommands (commands : List Command) : (ofCommands commands).Sound :=
  (step_foldl_obey sound_empty commands).sound

/-- After any commands a registry is sound. A setting that is there at some time is there ever after, at
its place and with its name and marks, and while it is protected its text and its number are those that it
has, or its text is one that was forced on its name since. -/
theorem ofCommands_keeps (commands later : List Command) :
    (ofCommands commands).Sound ∧ ∀ (i : Nat) (v : Setting),
      (ofCommands commands).settings[i]? = some v →
        ∃ w, (ofCommands (commands ++ later)).settings[i]? = some w ∧
          v.Becomes (fun name text => .force name text ∈ later) w := by
  have sound := sound_ofCommands commands
  refine ⟨sound, fun i v stands => ?_⟩
  rw [ofCommands, List.foldl_append]
  exact (step_foldl_obey sound later).becomes i v stands

/-- A registry with a setting of its own and those of a service. -/
def harbour : List Command := [.set "fog" "1", .register]

/-- A text for all settings does not reach the folder, which is protected; force does. -/
def gale : List Command :=
  [.run "set vmap_data_dir tmp\nset fog 2", .ensure Options.folderName "" Setting.saved,
    .force Options.folderName "maps", .set Options.folderName "tmp"]

theorem ofCommands_keeps_harbour : ∃ v w, (ofCommands harbour).Sound ∧
    (ofCommands harbour).settings[4]? = some v ∧ v.Has Setting.locked ∧ v.text = "vmaps" ∧
      (ofCommands (harbour ++ gale)).settings[4]? = some w ∧ w.text = "maps" ∧
      v.Becomes (fun name text => .force name text ∈ gale) w := by
  have stands : (ofCommands harbour).settings[4]? =
      some (.create Options.folderName "vmaps" Setting.locked) := by decide +kernel
  have moved : (ofCommands (harbour ++ gale)).settings[4]?.map Setting.text = some "maps" := by
    decide +kernel
  obtain ⟨sound, keeps⟩ := ofCommands_keeps harbour gale
  obtain ⟨w, after, becomes⟩ := keeps 4 _ stands
  rw [after] at moved
  exact ⟨_, w, sound, stands, by decide, rfl, after, Option.some.inj moved, becomes⟩

end Registry

end Sightline
