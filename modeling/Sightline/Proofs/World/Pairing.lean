import Sightline.Proofs.World.Assembling
import Sightline.Proofs.World.TileRuns
import Sightline.Proofs.World.Twins

/-!
# Models that could not be acquired

The file of a model may be missing when one tile is loaded and be there for the next one. Loading a tile
goes on without the models that it could not acquire, but unloading it releases all models that its
records name. So it takes a user from a model that its own load had not acquired, if others have acquired
the model meanwhile. As long as this does not happen, each model has as many users as the loads of the
loaded tiles have acquired it, and no longer.
-/
namespace Sightline

/-! ### Libraries -/

namespace Library

variable {d : Directory} {l : Library} {name : String}

/-- The model is loaded, or its file can be read. -/
def Offers (l : Library) (d : Directory) (name : String) : Prop :=
  (l.models[name]?).isSome = true ∨ CanRead d name

instance (l : Library) (d : Directory) (name : String) : Decidable (l.Offers d name) :=
  inferInstanceAs (Decidable (_ ∨ _))

def acquireAll (d : Directory) (l : Library) (names : List String) : Library :=
  names.foldl (fun l name => (l.acquire d name).2) l

/-- The names that are acquired when they are asked for one after the other. -/
def acquired (d : Directory) : Library → List String → List String
  | _, [] => []
  | l, name :: rest =>
    match l.acquire d name with
    | (.error _, after) => acquired d after rest
    | (.ok _, after) => name :: acquired d after rest

theorem users_insert {entry : Loaded} (counted : entry.users = l.users name + 1) (loads : Nat)
    (other : String) : users ⟨l.models.insert name entry, loads⟩ other =
      l.users other + if name = other then 1 else 0 := by
  rw [users, getElem?_insert]
  by_cases same : name = other
  · subst same
    simpa using counted
  · simp [same, users]

theorem offers_insert (offers : l.Offers d name) (entry : Loaded) (loads : Nat) (other : String) :
    Offers ⟨l.models.insert name entry, loads⟩ d other ↔ l.Offers d other := by
  rw [Offers, getElem?_insert]
  by_cases same : name = other
  · subst same
    simp [offers]
  · simp [same, Offers]

/-- A model that is offered is acquired, and the same models are offered afterwards. -/
theorem acquire_cases (l : Library) (d : Directory) (name : String) :
    (l.Offers d name ∧ ∃ handle after, l.acquire d name = (.ok handle, after) ∧
      (∀ other, after.users other = l.users other + if name = other then 1 else 0) ∧
      ∀ other, after.Offers d other ↔ l.Offers d other) ∨
    (¬l.Offers d name ∧ ∃ fault, l.acquire d name = (.error fault, l)) := by
  rw [acquire]
  cases found : l.models[name]? with
  | some loaded =>
    have offers : l.Offers d name := .inl (by rw [found]; rfl)
    have counted : loaded.users + 1 = l.users name + 1 := by rw [users_of_found found]
    exact .inl ⟨offers, _, _, rfl, users_insert counted _, offers_insert offers _ _⟩
  | none =>
    cases read : readModel d (modelFileName name) with
    | ok model =>
      have offers : l.Offers d name := .inr (canRead_of_ok read)
      have counted : 1 = l.users name + 1 := by rw [users_of_absent found]
      exact .inl ⟨offers, _, _, rfl, users_insert counted _, offers_insert offers _ _⟩
    | error fault =>
      refine .inr ⟨?_, _, rfl⟩
      rintro (loaded | readable)
      · rw [found] at loaded
        cases loaded
      · exact not_canRead_of_error read readable

/-- What is acquired is what is offered in the beginning. -/
theorem acquired_eq (l : Library) (names : List String) :
    acquired d l names = names.filter fun name => l.Offers d name := by
  -- a name that fails goes on to fail, since nobody else changes the library meanwhile
  induction names generalizing l with
  | nil => rfl
  | cons name rest ih =>
    rw [acquired]
    rcases acquire_cases l d name with
      ⟨offers, handle, after, result, -, same⟩ | ⟨nothing, fault, result⟩
    · simp only [result, ih]
      rw [List.filter_cons_of_pos (by simpa using offers)]
      simp only [same]
    · simp only [result, ih]
      rw [List.filter_cons_of_neg (by simpa using nothing)]

theorem users_acquireAll (l : Library) (names : List String) (other : String) :
    (acquireAll d l names).users other = l.users other + (acquired d l names).count other := by
  induction names generalizing l with
  | nil => rfl
  | cons name rest ih =>
    rw [acquireAll, List.foldl_cons, ← acquireAll, ih, acquired]
    rcases acquire_cases l d name with ⟨-, handle, after, result, users, -⟩ | ⟨-, fault, result⟩
    · simp only [result, users, List.count_cons, beq_iff_eq]
      omega
    · simp only [result]

theorem users_release (l : Library) (name other : String) :
    (l.release name).users other = l.users other - if name = other then 1 else 0 := by
  rw [release]
  by_cases same : name = other
  · subst same
    split
    next absent => simp [users_of_absent absent]
    next loaded found =>
      rw [users_of_found found]
      split
      · simp [users]
        omega
      · simp [users]
  · split
    · simp [same]
    · split <;> simp [users, getElem?_erase, getElem?_insert, same]

theorem users_foldl_release (l : Library) (names : List String) (other : String) :
    (names.foldl release l).users other = l.users other - names.count other := by
  induction names generalizing l with
  | nil => rfl
  | cons name rest ih =>
    rw [List.foldl_cons, ih, users_release, List.count_cons]
    simp only [beq_iff_eq]
    omega

theorem isLoaded_of_users (used : 0 < l.users name) : l.isLoaded name = true := by
  rw [isLoaded, Std.TreeMap.contains_eq_isSome_getElem?]
  cases found : l.models[name]? with
  | some loaded => rfl
  | none =>
    rw [users_of_absent found] at used
    cases used

end Library

namespace MapTree

variable {d : Directory} {state : MapTree × Library}

/-- Loading records acquires the models that they name. -/
theorem library_foldl_attach (records : List Record) :
    (records.foldl (attach d) state).2 = state.2.acquireAll d (records.map Record.model) := by
  rw [Library.acquireAll, List.foldl_map]
  exact (List.foldl_hom Prod.snd fun state record => rfl).symm

theorem library_foldl_detach (records : List Record) :
    (records.foldl detach state).2 = (records.map Record.model).foldl Library.release state.2 := by
  rw [List.foldl_map]
  exact (List.foldl_hom Prod.snd fun state record => (library_detach state record).symm).symm

end MapTree

/-! ### Moves -/

/-- A map with its library. For each loaded tile the models are known that its load has acquired. -/
structure Ledger where
  map : MapTree
  library : Library
  loaded : List (Tile × List String)

/-- What is done to a map, with the files as they are by then. -/
inductive Move where
  | load (d : Directory) (tile : Tile)
  | unload (d : Directory) (tile : Tile)

namespace Ledger

variable {d d' : Directory} {s : Ledger} {move : Move} {moves : List Move} {tile : Tile}
  {recordsOn : Tile → List Record} {name : String} {entry : Tile × List String} {map : UInt32}

/-- The models that the records of the tile name. -/
def names (s : Ledger) (d : Directory) (tile : Tile) : List String :=
  (s.map.recordsOf d tile).map Record.model

def without (s : Ledger) (tile : Tile) : List (Tile × List String) :=
  s.loaded.filter fun entry => entry.1 ≠ tile

def act (s : Ledger) : Move → Ledger
  | .load d tile =>
    let (map, library) := (s.map.loadTile s.library d tile).2
    ⟨map, library, (tile, s.library.acquired d (s.names d tile)) :: s.loaded⟩
  | .unload d tile =>
    let (map, library) := s.map.unloadTile s.library d tile
    ⟨map, library, s.without tile⟩

/-- The ledgers of a run, with the one it begins with. -/
def visited : Ledger → List Move → List Ledger
  | s, [] => [s]
  | s, move :: rest => s :: visited (s.act move) rest

/-- Each move of a run is as it is asked for, in the ledger that it is made in. -/
def Throughout (asked : Ledger → Move → Prop) : Ledger → List Move → Prop
  | _, [] => True
  | s, move :: rest => asked s move ∧ Throughout asked (s.act move) rest

/-- Files of tiles stay as they are, and a tile is loaded only if it is not loaded yet. -/
def Allowed (map : UInt32) (d : Directory) (s : Ledger) : Move → Prop
  | .load d' tile => MapTree.SameTiles map d d' ∧ tile.Small ∧ s.map.hasTile tile = false
  | .unload d' tile => MapTree.SameTiles map d d' ∧ tile.Small

/-- The move unloads a tile and takes a user from a model that loading the tile had not acquired. -/
def Robs (s : Ledger) : Move → Prop
  | .load _ _ => False
  | .unload d tile => ∃ entry ∈ s.loaded, entry.1 = tile ∧
      ∃ name ∈ s.names d tile, name ∉ entry.2 ∧ 0 < s.library.users name

/-- The models that were acquired for the loaded tiles. -/
def acquired (s : Ledger) : List String := s.loaded.flatMap Prod.snd

/-- The users of all models are paired with what was acquired, so that what was acquired is there. -/
structure Paired (s : Ledger) : Prop where
  users : ∀ name : String, s.library.users name = s.acquired.count name
  stays : ∀ name ∈ s.acquired, s.library.isLoaded name = true

theorem Paired.of_users (users : ∀ name : String, s.library.users name = s.acquired.count name) :
    Paired s := by
  refine ⟨users, fun name listed => Library.isLoaded_of_users ?_⟩
  rw [users]
  exact List.count_pos_iff.mpr listed

/-! ### One move -/

/-- The ledger is about the tiles that are loaded, and each of them has acquired a model for all of its
records that name it, or for none. -/
structure Sound (map : UInt32) (d : Directory) (recordsOn : Tile → List Record) (s : Ledger) :
    Prop where
  map : s.map.map = map
  mirrors : s.map.Mirrors d recordsOn (s.loaded.map Prod.fst) []
  whole : ∀ entry ∈ s.loaded, ∀ name ∈ entry.2,
    entry.2.count name = ((recordsOn entry.1).map Record.model).count name

namespace Sound

theorem names (sound : Sound map d recordsOn s) (same : MapTree.SameTiles map d d') (tile : Tile) :
    s.names d' tile = (recordsOn tile).map Record.model := by
  rw [Ledger.names, sound.mirrors.recordsOf (by rwa [sound.map])]

theorem load (sound : Sound map d recordsOn s) (same : MapTree.SameTiles map d d')
    (small : tile.Small) (absent : s.map.hasTile tile = false) :
    Sound map d recordsOn (s.act (.load d' tile)) := by
  have new : tile ∉ s.loaded.map Prod.fst := by
    rw [← sound.mirrors.hasTile small, absent]
    nofun
  constructor
  case map => exact (MapTree.alike_loadTile s.library d' tile).map.trans sound.map
  case mirrors => exact sound.mirrors.loadNew small new (by rwa [sound.map]) s.library
  case whole =>
    intro entry listed name known
    cases listed with
    | tail _ listed => exact sound.whole entry listed name known
    | head =>
      -- a name is in what was acquired as often as in the records, since all or none were offered
      simp only [Library.acquired_eq, sound.names same tile] at known ⊢
      exact List.count_filter (List.mem_filter.mp known).2

theorem unload (sound : Sound map d recordsOn s) (same : MapTree.SameTiles map d d')
    (small : tile.Small) : Sound map d recordsOn (s.act (.unload d' tile)) := by
  constructor
  case map => exact (MapTree.alike_unloadTile s.library d' tile).map.trans sound.map
  case mirrors =>
    have others : (s.without tile).map Prod.fst = (s.loaded.map Prod.fst).erase tile := by
      rw [sound.mirrors.nodup.erase_eq_filter, List.filter_map, without]
      congr 1
      exact List.filter_congr fun entry _ => by simp [bne, beq_eq_decide]
    have after := sound.mirrors.unloadTile small (by rwa [sound.map]) s.library
    rwa [← others] at after
  case whole =>
    intro entry listed
    exact sound.whole entry (List.mem_of_mem_filter listed)

/-- Loading a tile adds as many users as it acquires. -/
theorem users_load (sound : Sound map d recordsOn s) (d' : Directory) (tile : Tile) (name : String) :
    (s.act (.load d' tile)).library.users name =
      s.library.users name + (s.library.acquired d' (s.names d' tile)).count name := by
  obtain ⟨hasFile, -, result⟩ :=
    MapTree.loadTile_eq (d := d') s.library tile sound.mirrors.isReady
  have library : (s.act (.load d' tile)).library = s.library.acquireAll d' (s.names d' tile) := by
    simp only [act, result, MapTree.library_foldl_attach]
    rfl
  rw [library, Library.users_acquireAll]

/-- Unloading a tile takes as many users as its records name. -/
theorem users_unload (sound : Sound map d recordsOn s) (same : MapTree.SameTiles map d d')
    (small : tile.Small) (name : String) :
    (s.act (.unload d' tile)).library.users name =
      s.library.users name -
        if tile ∈ s.loaded.map Prod.fst then (s.names d' tile).count name else 0 := by
  have library := sound.mirrors.detached small (by rwa [sound.map] : MapTree.SameTiles s.map.map d d')
    s.library
  rw [act]
  dsimp only
  rw [library, sound.names same]
  split
  · rw [MapTree.library_foldl_detach, Library.users_foldl_release]
  · rfl

theorem acquired_unload (s : Ledger) (d : Directory) (tile : Tile) :
    (s.act (.unload d tile)).acquired = (s.without tile).flatMap Prod.snd := rfl

/-- What was acquired is what was acquired for one tile and for all others. -/
theorem count_acquired (sound : Sound map d recordsOn s) (listed : entry ∈ s.loaded) (name : String) :
    s.acquired.count name =
      entry.2.count name + ((s.without entry.1).flatMap Prod.snd).count name := by
  have distinct := sound.mirrors.nodup
  have others : s.without entry.1 = s.loaded.erase entry := by
    rw [(List.Nodup.of_map Prod.fst distinct).erase_eq_filter, without]
    refine List.filter_congr fun other listedToo => ?_
    have same : other.1 = entry.1 ↔ other = entry :=
      ⟨List.inj_on_of_nodup_map distinct listedToo listed, congrArg Prod.fst⟩
    simp [bne, beq_eq_decide, same]
  rw [acquired, ((List.perm_cons_erase listed).flatMap_right Prod.snd).count_eq, List.flatMap_cons,
    List.count_append, others]

theorem paired_load (sound : Sound map d recordsOn s) (paired : Paired s) (d' : Directory)
    (tile : Tile) : Paired (s.act (.load d' tile)) := by
  refine .of_users fun name => ?_
  rw [sound.users_load, paired.users, acquired, act]
  simp only [acquired, List.flatMap_cons, List.count_append, Nat.add_comm]

/-- Unloading a tile that is not loaded changes nothing. -/
theorem paired_unload_absent (sound : Sound map d recordsOn s) (paired : Paired s)
    (same : MapTree.SameTiles map d d') (small : tile.Small) (absent : tile ∉ s.loaded.map Prod.fst) :
    Paired (s.act (.unload d' tile)) := by
  refine .of_users fun name => ?_
  have all : s.without tile = s.loaded := by
    rw [without, List.filter_eq_self]
    intro entry listed
    have differs : entry.1 ≠ tile := fun same => absent (same ▸ List.mem_map_of_mem listed)
    simpa using differs
  rw [sound.users_unload same small, if_neg absent, Nat.sub_zero, paired.users, acquired_unload, all,
    acquired]

theorem paired_unload_iff (sound : Sound map d recordsOn s) (paired : Paired s)
    (same : MapTree.SameTiles map d d') (small : tile.Small) :
    Paired (s.act (.unload d' tile)) ↔ ¬s.Robs (.unload d' tile) := by
  by_cases isLoaded : tile ∈ s.loaded.map Prod.fst
  · obtain ⟨entry, listed, rfl⟩ := List.mem_map.mp isLoaded
    -- what there is before, and what the unloading takes off
    have before (name : String) := (paired.users name).trans (sound.count_acquired listed name)
    have after (name : String) := sound.users_unload same small name
    simp only [if_pos isLoaded] at after
    constructor
    · rintro still ⟨other, listedToo, sameTile, name, named, refused, used⟩
      obtain rfl : other = entry :=
        List.inj_on_of_nodup_map sound.mirrors.nodup listedToo listed sameTile
      have left := still.users name
      have taken := List.count_pos_iff.mpr named
      rw [after, before, acquired_unload, List.count_eq_zero.mpr refused] at left
      rw [before, List.count_eq_zero.mpr refused] at used
      omega
    · intro fair
      refine .of_users fun name => ?_
      rw [after, before, acquired_unload]
      by_cases known : name ∈ entry.2
      · rw [sound.whole entry listed name known, sound.names same]
        omega
      · rw [List.count_eq_zero.mpr known]
        by_cases named : name ∈ s.names d' entry.1
        · -- nobody else has acquired the model, so there is no user to take
          have unused : ¬0 < s.library.users name :=
            fun used => fair ⟨entry, listed, rfl, name, named, known, used⟩
          rw [before] at unused
          omega
        · rw [List.count_eq_zero.mpr named]
          omega
  · refine iff_of_true (sound.paired_unload_absent paired same small isLoaded) ?_
    rintro ⟨entry, listed, rfl, -⟩
    exact isLoaded (List.mem_map_of_mem listed)

/-- A move that is allowed keeps the users paired exactly if it does not rob. -/
theorem act (sound : Sound map d recordsOn s) (allowed : s.Allowed map d move) :
    Sound map d recordsOn (s.act move) ∧ (Paired s → (Paired (s.act move) ↔ ¬s.Robs move)) := by
  cases move with
  | load d' tile =>
    obtain ⟨same, small, absent⟩ := allowed
    exact ⟨sound.load same small absent, fun paired =>
      iff_of_true (sound.paired_load paired d' tile) id⟩
  | unload d' tile =>
    obtain ⟨same, small⟩ := allowed
    exact ⟨sound.unload same small, fun paired => sound.paired_unload_iff paired same small⟩

end Sound

/-! ### Runs -/

theorem mem_visited (s : Ledger) (moves : List Move) : s ∈ visited s moves := by
  cases moves with
  | nil => exact .head _
  | cons move rest => exact .head _

theorem Sound.visited (sound : Sound map d recordsOn s) (allowed : Throughout (Allowed map d) s moves) :
    ∀ later ∈ visited s moves, Sound map d recordsOn later := by
  induction moves generalizing s with
  | nil => simpa [Ledger.visited] using sound
  | cons move rest ih =>
    obtain ⟨first, others⟩ := allowed
    exact List.forall_mem_cons.mpr ⟨sound, ih (sound.act first).1 others⟩

theorem Sound.paired_iff (sound : Sound map d recordsOn s) (paired : Paired s)
    (allowed : Throughout (Allowed map d) s moves) :
    (∀ later ∈ Ledger.visited s moves, Paired later) ↔
      Throughout (fun s move => ¬s.Robs move) s moves := by
  induction moves generalizing s with
  | nil => simpa [Ledger.visited, Throughout] using paired
  | cons move rest ih =>
    obtain ⟨first, others⟩ := allowed
    -- once a move has robbed, the ledger after it is a visited one that is not paired
    obtain ⟨next, step⟩ := sound.act first
    rw [Ledger.visited, List.forall_mem_cons, Throughout, ← step paired]
    constructor
    · rintro ⟨-, all⟩
      have after := all _ (mem_visited (s.act move) rest)
      exact ⟨after, (ih next after others).mp all⟩
    · rintro ⟨after, fair⟩
      exact ⟨paired, (ih next after others).mpr fair⟩

/-- While files of models come and go, the users of all models are those that loading the loaded tiles
has acquired, as long as no tile is unloaded that takes a user from a model it had not acquired. -/
theorem paired_iff_never_robs {opened : MapTree} {library : Library}
    (opens : MapTree.openFile { map } {} d = (.ok (), opened, library)) (tiled : opened.isTiled = true)
    (allowed : Throughout (Allowed map d) ⟨opened, library, []⟩ moves) :
    (∀ s ∈ visited ⟨opened, library, []⟩ moves,
      ∀ tile : Tile, tile.Small → (s.map.hasTile tile = true ↔ tile ∈ s.loaded.map Prod.fst)) ∧
    ((∀ s ∈ visited ⟨opened, library, []⟩ moves, Paired s) ↔
      Throughout (fun s move => ¬s.Robs move) ⟨opened, library, []⟩ moves) := by
  obtain ⟨fresh, rfl⟩ := MapTree.fresh_of_tiled opens tiled
  have sound : Sound map d (opened.recordsOf d) ⟨opened, {}, []⟩ :=
    ⟨fresh.map, .of_fresh fresh d, nofun⟩
  have paired : Paired ⟨opened, {}, []⟩ :=
    .of_users fun name => Library.users_of_absent Std.TreeMap.getElem?_emptyc
  constructor
  · intro s visits tile small
    exact (sound.visited allowed s visits).mirrors.hasTile small
  · exact sound.paired_iff paired allowed

/-! ### A rock that is missing at first -/

instance (s : Ledger) : (move : Move) → Decidable (s.Robs move)
  | .load _ _ => .isFalse id
  | .unload d tile => inferInstanceAs (Decidable (∃ entry ∈ s.loaded, entry.1 = tile ∧
      ∃ name ∈ s.names d tile, name ∉ entry.2 ∧ 0 < s.library.users name))

/-- Removing the file of a model leaves the files of all tiles. -/
theorem sameTiles_remove (map : UInt32) (d : Directory) (name : String) :
    MapTree.SameTiles map d (d.remove (modelFileName name)) := by
  intro tile
  have plain : (FileName.tile map tile).Plain := trivial
  exact Directory.lookup?_remove_elsewhere (FileName.plainName plain)
    (FileName.locate_model_ne (f := .tile map tile) name rfl)

/-- The rocks without the file of their model. -/
def rocksUnmade : Directory := MapTree.rocks.remove (modelFileName "rock")

/-- The map of the rocks as it was opened. -/
def openedRocks : Ledger :=
  let (t, library) := (MapTree.openFile { map := 0 } {} MapTree.rocks).2
  ⟨t, library, []⟩

theorem open_rocks : MapTree.openFile { map := 0 } {} MapTree.rocks =
    (.ok (), openedRocks.map, openedRocks.library) := by
  have outcome : (MapTree.openFile { map := 0 } {} MapTree.rocks).1 = .ok () := by decide +kernel
  exact Prod.ext outcome rfl

theorem tiled_openedRocks : openedRocks.map.isTiled = true := by decide +kernel

/-- A tile that was loaded without its model is unloaded before the model is acquired. Later it gets the
model from the library, while the file is missing. -/
theorem paired_openedRocks :
    let moves : List Move := [.load rocksUnmade ⟨1, 2⟩, .unload MapTree.rocks ⟨1, 2⟩,
      .load MapTree.rocks ⟨1, 3⟩, .load rocksUnmade ⟨1, 2⟩, .unload MapTree.rocks ⟨1, 3⟩]
    ∃ opened library, MapTree.openFile { map := 0 } {} MapTree.rocks = (.ok (), opened, library) ∧
      opened.isTiled = true ∧
      Throughout (Allowed 0 MapTree.rocks) ⟨opened, library, []⟩ moves ∧
      ∀ s ∈ visited ⟨opened, library, []⟩ moves, Paired s := by
  intro moves
  have unmade := sameTiles_remove 0 MapTree.rocks "rock"
  have made := MapTree.SameTiles.refl 0 MapTree.rocks
  have allowed :
      Throughout (Allowed 0 MapTree.rocks) ⟨openedRocks.map, openedRocks.library, []⟩ moves :=
    ⟨⟨unmade, by decide, by decide +kernel⟩, ⟨made, by decide⟩,
      ⟨made, by decide, by decide +kernel⟩, ⟨unmade, by decide, by decide +kernel⟩,
      ⟨made, by decide⟩, trivial⟩
  refine ⟨_, _, open_rocks, tiled_openedRocks, allowed, ?_⟩
  apply (paired_iff_never_robs open_rocks tiled_openedRocks allowed).2.mpr
  exact ⟨id, by decide +kernel, id, id, by decide +kernel, trivial⟩

/-- The second tile has acquired the rock, and loses it when the first one is unloaded. -/
theorem robbed_openedRocks :
    let moves : List Move := [.load rocksUnmade ⟨1, 2⟩, .load MapTree.rocks ⟨1, 3⟩,
      .unload MapTree.rocks ⟨1, 2⟩]
    ∃ opened library, MapTree.openFile { map := 0 } {} MapTree.rocks = (.ok (), opened, library) ∧
      opened.isTiled = true ∧
      Throughout (Allowed 0 MapTree.rocks) ⟨opened, library, []⟩ moves ∧
      ∃ s ∈ visited ⟨opened, library, []⟩ moves, s.loaded = [(⟨1, 3⟩, ["rock"])] ∧
        s.library.users "rock" = 0 ∧ s.library.isLoaded "rock" = false := by
  have unmade := sameTiles_remove 0 MapTree.rocks "rock"
  have made := MapTree.SameTiles.refl 0 MapTree.rocks
  refine ⟨_, _, open_rocks, tiled_openedRocks, ?_, _, .tail _ (.tail _ (.tail _ (.head _))), ?_⟩
  · exact ⟨⟨unmade, by decide, by decide +kernel⟩, ⟨made, by decide, by decide +kernel⟩,
      ⟨made, by decide⟩, trivial⟩
  · decide +kernel

end Ledger

end Sightline
