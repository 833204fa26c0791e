import Sightline.Proofs.World.Holding

/-!
# Loaded tiles

Tiles on the map have coordinates below 65536, and the word of such a tile names no other one. A map
holds the records of the tiles it has loaded, perhaps with others left over. Loading a tile adds its
records, also when there was a fault in its file; unloading it reads the same records and removes them.
-/
namespace Sightline

/-! ### Words of tiles -/

namespace Tile

/-- The low halves of both coordinates are all of them. -/
def Small (tile : Tile) : Prop := tile.x.toNat < 65536 ∧ tile.y.toNat < 65536

instance (tile : Tile) : Decidable tile.Small := inferInstanceAs (Decidable (_ ∧ _))

theorem toNat_packed {tile : Tile} (small : tile.Small) :
    tile.packed.toNat = tile.x.toNat * 65536 + tile.y.toNat := by
  -- the two halves of the word do not overlap, so that it is their sum
  obtain ⟨smallX, smallY⟩ := small
  have shifted : (tile.x <<< 16).toNat = tile.x.toNat * 65536 := by
    rw [UInt32.toNat_shiftLeft, Nat.shiftLeft_eq]
    change tile.x.toNat * 2 ^ 16 % 2 ^ 32 = _
    omega
  rw [packed, UInt32.toNat_or, shifted]
  have disjoint := Nat.shiftLeft_add_eq_or_of_lt (i := 16) smallY tile.x.toNat
  rw [Nat.shiftLeft_eq] at disjoint
  exact disjoint.symm

theorem ofPacked_packed {tile : Tile} (small : tile.Small) : ofPacked tile.packed = tile := by
  have word := toNat_packed small
  obtain ⟨smallX, smallY⟩ := small
  have x : tile.packed >>> 16 = tile.x := by
    apply UInt32.toNat_inj.mp
    rw [UInt32.toNat_shiftRight, word, Nat.shiftRight_eq_div_pow]
    change _ / 2 ^ 16 = _
    omega
  have y : tile.packed &&& 0xFFFF = tile.y := by
    apply UInt32.toNat_inj.mp
    rw [UInt32.toNat_and, word]
    change _ &&& (2 ^ 16 - 1) = _
    rw [Nat.and_two_pow_sub_one_eq_mod]
    omega
  rw [ofPacked, x, y]

theorem packed_inj {tile other : Tile} (small : tile.Small) (smallOther : other.Small) :
    tile.packed = other.packed ↔ tile = other := by
  constructor
  · intro same
    rw [← ofPacked_packed small, same, ofPacked_packed smallOther]
  · rintro rfl
    rfl

/-- The halves of a word. -/
theorem toNat_ofPacked (word : UInt32) : (ofPacked word).x.toNat = word.toNat / 65536 ∧
    (ofPacked word).y.toNat = word.toNat % 65536 := by
  constructor
  · change (word >>> 16).toNat = _
    rw [UInt32.toNat_shiftRight, Nat.shiftRight_eq_div_pow]
    rfl
  · change (word &&& 0xFFFF).toNat = _
    rw [UInt32.toNat_and]
    exact Nat.and_two_pow_sub_one_eq_mod word.toNat 16

theorem small_ofPacked (word : UInt32) : (ofPacked word).Small := by
  obtain ⟨high, low⟩ := toNat_ofPacked word
  have bound := word.toNat_lt
  constructor <;> omega

/-- Every word names a tile. -/
theorem packed_ofPacked (word : UInt32) : (ofPacked word).packed = word := by
  obtain ⟨high, low⟩ := toNat_ofPacked word
  apply UInt32.toNat_inj.mp
  rw [toNat_packed (small_ofPacked word)]
  omega

theorem ofPacked_inj {word other : UInt32} : ofPacked word = ofPacked other ↔ word = other := by
  constructor
  · intro same
    rw [← packed_ofPacked word, same, packed_ofPacked]
  · rintro rfl
    rfl

end Tile

namespace MapTree

variable {d : Directory} {t : MapTree} {library : Library} {tile : Tile}
  {records : Tile → List Record} {loaded : List Tile} {left : List Record} {others : List String}

/-- The records that loading a tile adds. Maps without tiles have none. -/
def recordsOf (t : MapTree) (d : Directory) (tile : Tile) : List Record :=
  if t.isTiled then (t.tileRecords d tile).1 else []

theorem Alike.recordsOf {u : MapTree} (alike : Alike t u) (d : Directory) (tile : Tile) :
    u.recordsOf d tile = t.recordsOf d tile := by
  simp only [MapTree.recordsOf]
  rw [alike.isTiled, alike.tileRecords]

theorem recordsOf_inRange (t : MapTree) (d : Directory) (tile : Tile) :
    ∀ record ∈ t.recordsOf d tile, record.slot < t.slots.size := by
  rw [recordsOf]
  split
  · exact tileRecords_inRange t d tile
  · nofun

/-- Whether a file is noted for a tile tells where its records are. -/
def Notes (d : Directory) (t : MapTree) (tile : Tile) (hasFile : Bool) : Prop :=
  (if hasFile then (t.tileRecords d tile).1 else []) = t.recordsOf d tile

theorem Alike.notes {u : MapTree} (alike : Alike t u) {hasFile : Bool}
    (notes : Notes d t tile hasFile) : Notes d u tile hasFile := by
  rw [Notes, alike.tileRecords, alike.recordsOf]
  exact notes

theorem loadTile_eq (library : Library) (tile : Tile) (ready : t.isReady = true) :
    ∃ hasFile, Notes d t tile hasFile ∧
      (t.loadTile library d tile).2 =
        ({ ((t.recordsOf d tile).foldl (attach d) (t, library)).1 with
            tiles := t.tiles.insert tile.packed hasFile },
          ((t.recordsOf d tile).foldl (attach d) (t, library)).2) := by
  have tiles := (alike_foldl_attach d (t.recordsOf d tile) (t, library)).2
  simp only [Notes, loadTile]
  by_cases tiled : t.isTiled = true
  · have records : t.recordsOf d tile = (t.tileRecords d tile).1 := if_pos tiled
    rw [if_neg (not_not.mpr tiled), if_neg (not_not.mpr ready)]
    rw [records] at tiles ⊢
    split
    next fault missing =>
      rw [tileRecords_of_find missing]
      exact ⟨false, rfl, rfl⟩
    next entry found => exact ⟨true, rfl, by simp only [tiles]⟩
  · have records : t.recordsOf d tile = [] := if_neg tiled
    rw [if_pos tiled, records]
    exact ⟨false, rfl, rfl⟩

theorem tiles_loadTile (library : Library) (d : Directory) (tile : Tile)
    (ready : t.isReady = true) : (t.loadTile library d tile).2.1.tiles.isEmpty = false := by
  obtain ⟨hasFile, -, result⟩ := loadTile_eq (d := d) library tile ready
  rw [result]
  exact Std.TreeMap.isEmpty_insert

/-- Whether a map is ready or not, loading a tile adds the records it reads, or changes nothing. -/
theorem loadTile_cases (library : Library) (d : Directory) (tile : Tile) :
    (t.loadTile library d tile).2 = (t, library) ∨ ∃ hasFile,
      (t.loadTile library d tile).2 =
        ({ ((t.recordsOf d tile).foldl (attach d) (t, library)).1 with
            tiles := t.tiles.insert tile.packed hasFile },
          ((t.recordsOf d tile).foldl (attach d) (t, library)).2) := by
  by_cases ready : t.isReady = true
  · obtain ⟨hasFile, -, result⟩ := loadTile_eq (d := d) library tile ready
    exact .inr ⟨hasFile, result⟩
  · rw [loadTile, recordsOf]
    split
    · exact .inr ⟨false, rfl⟩
    · exact .inl rfl

theorem alike_loadTile (library : Library) (d : Directory) (tile : Tile) :
    Alike t (t.loadTile library d tile).2.1 := by
  obtain ⟨alike, -⟩ := alike_foldl_attach d (t.recordsOf d tile) (t, library)
  rcases loadTile_cases library d tile with same | ⟨hasFile, result⟩
  · rw [same]
    exact Alike.refl t
  · rw [result]
    exact ⟨alike.map, alike.isTiled, alike.isReady, alike.tree, alike.size⟩

theorem Occupied.loadTile {belongs : Nat → Placement → Prop} (occupied : Occupied belongs t)
    (belong : ∀ record ∈ t.recordsOf d tile, belongs record.slot record.placement) :
    Occupied belongs (t.loadTile library d tile).2.1 := by
  rcases loadTile_cases library d tile with same | ⟨hasFile, result⟩
  · rw [same]
    exact occupied
  · rw [result]
    have start : Occupied belongs (t, library).1 := occupied
    exact start.foldl_attach (recordsOf_inRange t d tile) belong

/-- Unloading a tile takes off records and keeps the rest of the map. -/
theorem unloadTile_cases (library : Library) (d : Directory) (tile : Tile) :
    t.unloadTile library d tile = (t, library) ∨ ∃ records : List Record,
      t.unloadTile library d tile =
        ({ (records.foldl detach (t, library)).1 with
            tiles := (records.foldl detach (t, library)).1.tiles.erase tile.packed },
          (records.foldl detach (t, library)).2) := by
  rw [unloadTile]
  split
  · exact .inl rfl
  · exact .inr ⟨_, rfl⟩

theorem alike_unloadTile (library : Library) (d : Directory) (tile : Tile) :
    Alike t (t.unloadTile library d tile).1 := by
  rcases unloadTile_cases library d tile with same | ⟨records, result⟩
  · rw [same]
    exact Alike.refl t
  · obtain ⟨alike, -⟩ := alike_foldl_detach records (t, library)
    rw [result]
    exact ⟨alike.map, alike.isTiled, alike.isReady, alike.tree, alike.size⟩

/-- What is in a slot after a tile was unloaded was there before. -/
theorem occupant_of_unloadTile {slot : Nat} {occupant : Occupant}
    (found : (t.unloadTile library d tile).1.occupant? slot = some occupant) :
    t.occupant? slot = some occupant := by
  rcases unloadTile_cases library d tile with same | ⟨records, result⟩
  · rwa [same] at found
  · rw [result] at found
    exact occupant_of_foldl_detach records found

theorem Occupied.unloadTile {belongs : Nat → Placement → Prop} (occupied : Occupied belongs t) :
    Occupied belongs (t.unloadTile library d tile).1 :=
  fun slot occupant found => occupied slot occupant (occupant_of_unloadTile found)

/-- The map has loaded tiles and holds their records, with others left over. -/
structure Keeps (d : Directory) (records : Tile → List Record) (loaded : List Tile)
    (left : List Record) (others : List String) (state : MapTree × Library) : Prop where
  isReady : state.1.isReady = true
  reads : ∀ tile, state.1.recordsOf d tile = records tile
  account : Account d (loaded.flatMap records ++ left) others state
  hasTile : ∀ tile : Tile, tile.Small → (state.1.hasTile tile = true ↔ tile ∈ loaded)
  notes : ∀ (tile : Tile) (hasFile : Bool), tile.Small →
    state.1.tiles[tile.packed]? = some hasFile → Notes d state.1 tile hasFile
  nodup : loaded.Nodup
  small : ∀ tile ∈ loaded, tile.Small

namespace Keeps

variable {state : MapTree × Library}

theorem mem_tiles (keeps : Keeps d records loaded left others state) (small : tile.Small) :
    (∃ hasFile, state.1.tiles[tile.packed]? = some hasFile) ↔ tile ∈ loaded := by
  rw [← keeps.hasTile tile small, MapTree.hasTile, Std.TreeMap.contains_eq_isSome_getElem?,
    Option.isSome_iff_exists]

/-- Loads a tile, which may be loaded before. -/
theorem loadTile {next : List Tile} {rest : List Record}
    (keeps : Keeps d records loaded left others state) (small : tile.Small)
    (held : (records tile ++ (loaded.flatMap records ++ left)).Perm (next.flatMap records ++ rest))
    (members : ∀ other, other ∈ next ↔ other = tile ∨ other ∈ loaded) (nodup : next.Nodup) :
    Keeps d records next rest others (state.1.loadTile state.2 d tile).2 := by
  obtain ⟨hasFile, noted, result⟩ := loadTile_eq (d := d) state.2 tile keeps.isReady
  rw [result]
  have fit := recordsOf_inRange state.1 d tile
  obtain ⟨alike, -⟩ := alike_foldl_attach d (state.1.recordsOf d tile) state
  have account := keeps.account.foldl_attach fit
  rw [keeps.reads tile] at alike account ⊢
  have after : Alike state.1 { ((records tile).foldl (attach d) state).1 with
      tiles := state.1.tiles.insert tile.packed hasFile } :=
    ⟨alike.map, alike.isTiled, alike.isReady, alike.tree, alike.size⟩
  constructor
  case isReady => exact after.isReady.trans keeps.isReady
  case reads => exact fun other => (after.recordsOf d other).trans (keeps.reads other)
  case account => exact ⟨(account.perm held).holds.congr rfl rfl, (account.perm held).serves⟩
  case nodup => exact nodup
  case hasTile =>
    intro other smallOther
    rw [members, ← keeps.hasTile other smallOther]
    simp only [MapTree.hasTile]
    rw [Std.TreeMap.contains_insert, Bool.or_eq_true, beq_iff_eq,
      Std.LawfulEqCmp.compare_eq_iff_eq, Tile.packed_inj small smallOther, eq_comm]
  case notes =>
    intro other flag smallOther noted'
    apply after.notes
    rw [getElem?_insert] at noted'
    simp only [Tile.packed_inj small smallOther] at noted'
    split at noted'
    next same =>
      cases noted'
      rwa [← same]
    next => exact keeps.notes other flag smallOther noted'
  case small =>
    intro other listed
    rcases (members other).mp listed with rfl | listed
    · exact small
    · exact keeps.small other listed

theorem loadNew (keeps : Keeps d records loaded left others state) (small : tile.Small)
    (new : tile ∉ loaded) :
    Keeps d records (tile :: loaded) left others (state.1.loadTile state.2 d tile).2 := by
  refine keeps.loadTile small ?_ (fun other => List.mem_cons) (List.nodup_cons.mpr ⟨new, keeps.nodup⟩)
  rw [List.flatMap_cons, List.append_assoc]

/-- A tile that is loaded again leaves its records held twice. -/
theorem loadAgain (keeps : Keeps d records loaded left others state) (small : tile.Small)
    (listed : tile ∈ loaded) :
    Keeps d records loaded (records tile ++ left) others (state.1.loadTile state.2 d tile).2 := by
  refine keeps.loadTile small ?_ (fun other => by simp +contextual [listed]) keeps.nodup
  rw [← List.append_assoc, ← List.append_assoc]
  exact List.perm_append_comm.append_right left

theorem unloadTile (keeps : Keeps d records loaded left others state) (small : tile.Small) :
    Keeps d records (loaded.erase tile) left others (state.1.unloadTile state.2 d tile) := by
  rw [MapTree.unloadTile]
  split
  next absent =>
    have unlisted : tile ∉ loaded := by
      rw [← keeps.mem_tiles small, absent]
      nofun
    rw [List.erase_of_not_mem unlisted]
    exact keeps
  next hasFile present =>
    have listed : tile ∈ loaded := (keeps.mem_tiles small).mp ⟨hasFile, present⟩
    -- the records of the tile come first, as those to be taken off
    have held : (loaded.flatMap records ++ left).Perm
        (records tile ++ ((loaded.erase tile).flatMap records ++ left)) := by
      rw [← List.append_assoc, ← List.flatMap_cons]
      exact ((List.perm_cons_erase listed).flatMap_right records).append_right left
    have noted := keeps.notes tile hasFile small present
    obtain ⟨alike, tiles⟩ := alike_foldl_detach (state.1.recordsOf d tile) state
    rw [Notes] at noted
    rw [noted]
    rw [keeps.reads tile] at alike tiles ⊢
    have account := (keeps.account.perm held).foldl_detach
    have after : Alike state.1 { ((records tile).foldl detach state).1 with
        tiles := state.1.tiles.erase tile.packed } :=
      ⟨alike.map, alike.isTiled, alike.isReady, alike.tree, alike.size⟩
    dsimp only
    rw [tiles]
    constructor
    case isReady => exact after.isReady.trans keeps.isReady
    case reads => exact fun other => (after.recordsOf d other).trans (keeps.reads other)
    case account => exact ⟨account.holds.congr rfl rfl, account.serves⟩
    case nodup => exact keeps.nodup.erase tile
    case hasTile =>
      intro other smallOther
      rw [keeps.nodup.mem_erase_iff, ← keeps.hasTile other smallOther]
      simp only [MapTree.hasTile]
      rw [Std.TreeMap.contains_erase, Bool.and_eq_true, bne_iff_ne, ne_eq, ne_eq,
        Std.LawfulEqCmp.compare_eq_iff_eq, Tile.packed_inj small smallOther, eq_comm]
    case notes =>
      intro other flag smallOther noted
      apply after.notes
      rw [getElem?_erase] at noted
      split at noted
      · cases noted
      · exact keeps.notes other flag smallOther noted
    case small =>
      intro other listed
      exact keeps.small other (List.mem_of_mem_erase listed)

end Keeps

/-! ### Opened maps -/

/-- A map whose file was read, with nothing in its slots. -/
structure Fresh (map : UInt32) (t : MapTree) : Prop where
  map : t.map = map
  isReady : t.isReady = true
  slots : ∃ size, t.slots = Array.replicate size none
  tiles : t.tiles = ∅
  uses : t.uses = ∅

theorem Fresh.holds {map : UInt32} (fresh : Fresh map t) : Holds [] t := by
  obtain ⟨size, slots⟩ := fresh.slots
  have unused (slot : Nat) : t.useCount slot = 0 := by simp [useCount, fresh.uses]
  constructor
  case uses => exact unused
  case used =>
    intro slot
    simp [fresh.uses]
  case filled =>
    intro slot
    rw [unused slot, occupant?, slots, Array.getElem?_replicate]
    split <;> simp
  case inRange =>
    intro record listed
    cases listed

/-- Opening a map reads its file and adds the placement that covers the map, if there is one. -/
theorem openFile_cases (map : UInt32) (library : Library) (d : Directory) :
    (∃ fault t, openFile { map } library d = (.error fault, t, library) ∧ t.uses = ∅) ∨
      ∃ t global, openFile { map } library d = (.ok (), global.foldl (attach d) (t, library)) ∧
        Fresh map t ∧ (t.isTiled = true → global = []) ∧ global.length ≤ 1 ∧
        ∀ record ∈ global, record.slot < t.slots.size := by
  rw [openFile]
  split
  next fault unread => exact .inl ⟨fault, _, rfl, rfl⟩
  next isTiled rest head =>
    dsimp only
    split
    next fault unread => exact .inl ⟨fault, _, rfl, rfl⟩
    next tree rest read =>
      let opened : MapTree :=
        { map, isTiled, isReady := true, tree, slots := Array.replicate tree.objects.size none }
      have fresh : Fresh map opened := ⟨rfl, rfl, ⟨_, rfl⟩, rfl, rfl⟩
      split
      next fault unread => exact .inl ⟨fault, _, rfl, rfl⟩
      next rest nothing => exact .inr ⟨opened, [], rfl, fresh, fun _ => rfl, Nat.zero_le 1, nofun⟩
      next p rest global =>
        rw [placeGlobal]
        split
        · exact .inl ⟨_, _, rfl, rfl⟩
        next filled =>
          have room : 0 < opened.slots.size := by
            rw [Array.isEmpty_iff_size_eq_zero] at filled
            exact Nat.pos_of_ne_zero filled
          split
          next fault after refused =>
            obtain rfl := Library.acquire_error refused
            exact .inl ⟨_, _, rfl, rfl⟩
          next handle after acquired =>
            -- the placement is a record for the first slot, and added like those of tiles
            have attached : attach d (opened, library) ⟨p, 0⟩ =
                ({ opened with
                    slots := opened.slots.setIfInBounds 0 (some ⟨p, some handle⟩),
                    uses := opened.uses.insert 0 1 }, after) := by
              rw [attach, acquired]
              rfl
            refine .inr ⟨opened, [⟨p, 0⟩], ?_, fresh, ?_, Nat.le_refl 1, ?_⟩
            · rw [List.foldl_cons, List.foldl_nil, attached]
            · intro tiled
              rw [globalReader, show isTiled = true from tiled] at global
              obtain ⟨_, between, tag, result⟩ := run_bind_eq_ok.mp global
              cases result
            · simpa using room

/-- A map with tiles has nothing in its slots when it is opened, and has acquired nothing. -/
theorem fresh_of_tiled {map : UInt32} {before after : Library}
    (opens : openFile { map } before d = (.ok (), t, after)) (tiled : t.isTiled = true) :
    Fresh map t ∧ after = before := by
  rcases openFile_cases map before d with
    ⟨fault, _, refused, -⟩ | ⟨start, global, read, fresh, none, -, -⟩
  · rw [refused] at opens
    cases opens
  · rw [read] at opens
    obtain ⟨-, reached⟩ := Prod.mk.inj opens
    have alike := (alike_foldl_attach d global (start, before)).1
    rw [reached] at alike
    obtain rfl := none (alike.isTiled.symm.trans tiled)
    cases reached
    exact ⟨fresh, rfl⟩

theorem Fresh.occupied {map : UInt32} (fresh : Fresh map t) (belongs : Nat → Placement → Prop) :
    Occupied belongs t := by
  intro slot occupant found
  have filled := (fresh.holds.filled slot).mp (by simp [found])
  rw [useCount, fresh.uses] at filled
  simp at filled

theorem Fresh.keeps {map : UInt32} {global : List Record} (fresh : Fresh map t)
    (serves : library.Serves d others) (fit : ∀ record ∈ global, record.slot < t.slots.size) :
    Keeps d (t.recordsOf d) [] global others (global.foldl (attach d) (t, library)) := by
  obtain ⟨alike, tiles⟩ := alike_foldl_attach d global (t, library)
  have empty : (global.foldl (attach d) (t, library)).1.tiles = ∅ := tiles.trans fresh.tiles
  have account : Account d [] others (t, library) := ⟨fresh.holds, serves⟩
  constructor
  case isReady => exact alike.isReady.trans fresh.isReady
  case reads => exact alike.recordsOf d
  case account => simpa using account.foldl_attach fit
  case hasTile =>
    intro tile small
    simp [MapTree.hasTile, empty]
  case notes =>
    intro tile hasFile small noted
    simp [empty] at noted
  case nodup => exact List.nodup_nil
  case small => nofun

end MapTree

end Sightline
