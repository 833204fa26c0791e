import Sightline.Proofs.World.Writing
import Sightline.World.Assembly

/-!
# Saving a list of files

Files are saved one after another, and of those that go to one place the last one stays. Saving makes and
removes no folders, so a name leads to the same place before and after it: a list of files that was saved
can be saved again, and then changes nothing.
-/
namespace Sightline

namespace Directory

variable {d d' d'' : Directory} {name path : String} {bytes : List UInt8} {place : Place}

/-! ### Folders -/

/-- Two directories have the same folders. -/
def SameFolders (d d' : Directory) : Prop :=
  ∀ place, d.contents? place = some .folder ↔ d'.contents? place = some .folder

theorem SameFolders.symm (same : d.SameFolders d') : d'.SameFolders d := fun place => (same place).symm

theorem SameFolders.trans (same : d.SameFolders d') (same' : d'.SameFolders d'') : d.SameFolders d'' :=
  fun place => (same place).trans (same' place)

/-- Only folders decide where a way leads. -/
theorem SameFolders.follow (same : d.SameFolders d') {parts : List String} {found : Place}
    (follows : d.follow place parts = .ok found) : d'.follow place parts = .ok found := by
  -- each part but the last has to be a folder, so only one way of reading it succeeds
  induction parts generalizing place with
  | nil => exact follows
  | cons part rest ih =>
    rw [Directory.follow] at follows ⊢
    split at follows
    · cases follows
    · cases follows
    next here =>
      rw [(same place).mp here]
      dsimp only
      split at follows
      next => cases follows
      next short =>
        rw [if_neg short]
        exact ih follows

theorem SameFolders.locate_iff (same : d.SameFolders d') :
    d.locate name = .ok place ↔ d'.locate name = .ok place := by
  rw [locate, locate]
  split
  · rfl
  · split
    · rfl
    · exact ⟨same.follow, same.symm.follow⟩

/-- A file can be written under the name, and goes to the place. -/
def Admits (d : Directory) (name : String) (place : Place) : Prop :=
  d.locate name = .ok place ∧ d.contents? place ≠ some .folder

theorem Admits.sameFolders (admits : d.Admits name place) (same : d.SameFolders d') :
    d'.Admits name place :=
  ⟨same.locate_iff.mp admits.1, fun folder => admits.2 ((same place).mpr folder)⟩

theorem write_eq_put : d.write name bytes = .ok d' ↔
    ∃ place, d.Admits name place ∧ d' = d.put place (.file bytes) := by
  rw [write, bind_eq_ok]
  constructor
  · rintro ⟨place, found, written⟩
    split at written
    next => cases written
    next noFolder =>
      cases written
      exact ⟨place, ⟨found, noFolder⟩, rfl⟩
  · rintro ⟨place, ⟨found, noFolder⟩, rfl⟩
    exact ⟨place, found, by rw [if_neg noFolder]; rfl⟩

theorem getElem?_put (other : Place) : (d.put place (.file bytes)).entries[other]? =
    if place = other then some (.file bytes) else d.entries[other]? := getElem?_insert ..

theorem sameFolders_put (bytes : List UInt8) (noFolder : d.contents? place ≠ some .folder) :
    d.SameFolders (d.put place (.file bytes)) := by
  intro other
  rw [contents?, contents?]
  split
  · rfl
  next inside =>
    rw [getElem?_put]
    split
    next same =>
      -- a file takes the place of a file, or of nothing
      subst same
      rw [contents?, if_neg inside] at noFolder
      constructor
      · intro folder
        exact absurd folder noFolder
      · nofun
    next => rfl

/-! ### Lists of files -/

/-- Saves files under their names, up to the first fault. -/
def saveAll : List (String × Output) → Directory → Except Fault Unit × Directory
  | [], d => (.ok (), d)
  | (name, output) :: rest, d =>
    match output.save d name with
    | (.error fault, d) => (.error fault, d)
    | (.ok (), d) => saveAll rest d

/-- The file that stays at a place. -/
def lastSaved? (d : Directory) (place : Place) : List (String × Output) → Option Entry
  | [] => none
  | (name, output) :: rest =>
    (d.lastSaved? place rest).or (if d.locate name = .ok place then some (.file output.1) else none)

/-- What saving a list of files comes to. -/
structure Saved (files : List (String × Output)) (d d' : Directory) : Prop where
  complete : ∀ file ∈ files, file.2.2 = .ok ()
  admits : ∀ file ∈ files, ∃ place, d.Admits file.1 place
  folders : d.SameFolders d'
  entries : ∀ place, d'.entries[place]? = (d.lastSaved? place files).or d.entries[place]?

variable {files others : List (String × Output)}

theorem SameFolders.lastSaved? (same : d.SameFolders d') (place : Place) :
    d.lastSaved? place files = d'.lastSaved? place files := by
  induction files with
  | nil => rfl
  | cons file rest ih =>
    obtain ⟨name, output⟩ := file
    simp only [Directory.lastSaved?, ih, same.locate_iff]

theorem saveAll_cons {output : Output} : saveAll ((name, output) :: files) d = (.ok (), d') ↔
    output.2 = .ok () ∧ ∃ place, d.Admits name place ∧
      saveAll files (d.put place (.file output.1)) = (.ok (), d') := by
  obtain ⟨bytes, outcome⟩ := output
  rw [saveAll, Output.save]
  constructor
  · intro saved
    cases written : d.write name bytes with
    | error fault =>
      rw [written] at saved
      cases saved
    | ok between =>
      obtain ⟨place, admits, rfl⟩ := write_eq_put.mp written
      rw [written] at saved
      cases outcome with
      | error fault => cases saved
      | ok => exact ⟨rfl, place, admits, saved⟩
  · rintro ⟨rfl, place, admits, saved⟩
    rw [write_eq_put.mpr ⟨place, admits, rfl⟩]
    exact saved

theorem saveAll_append : saveAll (files ++ others) d = (.ok (), d') ↔
    ∃ between, saveAll files d = (.ok (), between) ∧ saveAll others between = (.ok (), d') := by
  induction files generalizing d with
  | nil => simp [saveAll]
  | cons file rest ih =>
    obtain ⟨name, output⟩ := file
    simp only [List.cons_append, saveAll_cons, ih]
    constructor
    · rintro ⟨complete, place, admits, between, first, second⟩
      exact ⟨between, ⟨complete, place, admits, first⟩, second⟩
    · rintro ⟨between, ⟨complete, place, admits, first⟩, second⟩
      exact ⟨complete, place, admits, between, first, second⟩

theorem saved_of_saveAll (saved : saveAll files d = (.ok (), d')) : Saved files d d' := by
  induction files generalizing d with
  | nil =>
    cases saved
    exact ⟨nofun, nofun, fun _ => .rfl, fun _ => rfl⟩
  | cons file rest ih =>
    obtain ⟨name, output⟩ := file
    obtain ⟨complete, place, admits, following⟩ := saveAll_cons.mp saved
    have folders := sameFolders_put output.1 admits.2
    have later := ih following
    constructor
    case complete => exact List.forall_mem_cons.mpr ⟨complete, later.complete⟩
    case admits =>
      refine List.forall_mem_cons.mpr ⟨⟨place, admits⟩, fun file listed => ?_⟩
      obtain ⟨other, known⟩ := later.admits file listed
      exact ⟨other, known.sameFolders folders.symm⟩
    case folders => exact folders.trans later.folders
    case entries =>
      intro other
      rw [later.entries, getElem?_put, ← folders.lastSaved?, Directory.lastSaved?, Option.or_assoc,
        admits.1]
      -- what goes to the place stays there unless a later file goes there too
      by_cases same : place = other
      · simp [same]
      · simp [same]

/-- Complete files are saved if they go to places where no folders are. -/
theorem exists_saveAll (complete : ∀ file ∈ files, file.2.2 = .ok ())
    (admits : ∀ file ∈ files, ∃ place, d.Admits file.1 place) :
    ∃ d', saveAll files d = (.ok (), d') := by
  -- the places of later files are not affected by the first one, as it makes no folder
  induction files generalizing d with
  | nil => exact ⟨d, rfl⟩
  | cons file rest ih =>
    obtain ⟨name, output⟩ := file
    obtain ⟨place, known⟩ := admits _ (.head _)
    have folders := sameFolders_put output.1 known.2
    obtain ⟨d', following⟩ := ih (d := d.put place (.file output.1))
      (fun file listed => complete file (.tail _ listed)) fun file listed => by
        obtain ⟨other, known⟩ := admits file (.tail _ listed)
        exact ⟨other, known.sameFolders folders⟩
    exact ⟨d', saveAll_cons.mpr ⟨complete _ (.head _), place, known, following⟩⟩

/-! ### Saving again -/

/-- Files of the same names, with the same bytes where they go to a place. -/
def SameAt (d : Directory) (place : Place) (file other : String × Output) : Prop :=
  file.1 = other.1 ∧ (d.locate file.1 = .ok place → file.2.1 = other.2.1)

theorem sameAt_self (d : Directory) (place : Place) (files : List (String × Output)) :
    List.Forall₂ (d.SameAt place) files files :=
  List.forall₂_same.mpr fun _ _ => ⟨rfl, fun _ => rfl⟩

theorem lastSaved?_congr (same : List.Forall₂ (d.SameAt place) files others) :
    d.lastSaved? place files = d.lastSaved? place others := by
  induction same with
  | nil => rfl
  | @cons file other _ _ first _ ih =>
    obtain ⟨name, output⟩ := file
    obtain ⟨name', output'⟩ := other
    obtain ⟨rfl, bytes⟩ := first
    simp only [Directory.lastSaved?, ih]
    split
    next here => rw [bytes here]
    next => rfl

/-- What is saved again at a place is what is there already. -/
theorem Saved.entries_again (first : Saved files d d') (second : Saved others d' d'')
    (same : List.Forall₂ (d.SameAt place) files others) :
    d''.entries[place]? = d'.entries[place]? := by
  rw [second.entries, first.entries, ← first.folders.lastSaved?, ← lastSaved?_congr same]
  cases d.lastSaved? place files <;> rfl

theorem Saved.again (first : Saved files d d') : ∃ d'', saveAll files d' = (.ok (), d'') := by
  refine exists_saveAll first.complete fun file listed => ?_
  obtain ⟨place, admits⟩ := first.admits file listed
  exact ⟨place, admits.sameFolders first.folders⟩

/-- No file goes to a place, or one of those that do stays there. -/
theorem lastSaved?_cases (d : Directory) (place : Place) (files : List (String × Output)) :
    (d.lastSaved? place files = none ∧ ∀ file ∈ files, d.locate file.1 ≠ .ok place) ∨
      ∃ file ∈ files, d.locate file.1 = .ok place ∧
        d.lastSaved? place files = some (.file file.2.1) := by
  induction files with
  | nil => exact .inl ⟨rfl, nofun⟩
  | cons file rest ih =>
    obtain ⟨name, output⟩ := file
    rw [lastSaved?]
    obtain ⟨none, elsewhere⟩ | ⟨file, listed, here, last⟩ := ih
    · rw [none, Option.none_or]
      by_cases here : d.locate name = .ok place
      · rw [if_pos here]
        exact .inr ⟨_, .head _, here, rfl⟩
      · rw [if_neg here]
        exact .inl ⟨rfl, List.forall_mem_cons.mpr ⟨here, elsewhere⟩⟩
    · rw [last]
      exact .inr ⟨file, .tail _ listed, here, rfl⟩

/-- A file is found at its place if all files that go there have its bytes. -/
theorem Saved.lookup?_eq {file : String × Output} (saved : Saved files d d') (listed : file ∈ files)
    (plain : PlainName file.1)
    (unanimous : ∀ other ∈ files, d.locate other.1 = .ok [file.1] → other.2.1 = file.2.1) :
    d'.lookup? file.1 = some (.file file.2.1) := by
  obtain ⟨place, admits⟩ := saved.admits file listed
  obtain rfl := place_eq plain admits.1
  rw [lookup?_plain plain, saved.folders.locate_iff.mp admits.1, saved.entries]
  obtain ⟨-, elsewhere⟩ | ⟨other, known, here, last⟩ := lastSaved?_cases d [file.1] files
  · exact absurd admits.1 (elsewhere file listed)
  · rw [last, unanimous other known here]
    rfl

/-! ### Reading -/

theorem contents?_congr (same : ∀ place : Place, d.entries[place]? = d'.entries[place]?) :
    d.contents? = d'.contents? := by
  funext place
  rw [contents?, contents?, same]

/-- Directories with the same entries have the same files. -/
theorem read_congr (same : ∀ place : Place, d.entries[place]? = d'.entries[place]?) (path : String) :
    d.read path = d'.read path := by
  have contents := contents?_congr same
  have follow (parts : List String) (place : Place) : d.follow place parts = d'.follow place parts := by
    induction parts generalizing place with
    | nil => rfl
    | cons part rest ih => simp only [Directory.follow, contents, ih]
  simp only [read, find, locate, follow, contents]

end Directory

end Sightline
