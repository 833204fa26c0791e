import Sightline.Placement.Basic
import Sightline.Proofs.Bytes.CuttingOff
import Sightline.Proofs.Text.Utf8

/-!
# Reading stored placements

The record of a placement with a box is read back as the placement, unless a reader refuses its scale.
-/
namespace Sightline.Placement

open Reader

/-- The scale of the placement is one that readers accept. -/
def Scaled (p : Placement) : Prop := p.scale.isFinite ∧ 0 < p.scale

instance (p : Placement) : Decidable p.Scaled := inferInstanceAs (Decidable (_ ∧ _))

theorem checkScale_eq_ok {p : Placement} (scaled : p.Scaled) :
    checkScale p.id p.scale = .ok () := if_pos scaled

theorem toBytes?_eq_ok {p : Placement} {bytes : List UInt8} :
    p.toBytes? = .ok bytes ↔ Text.byteLength p.model ≤ longestName ∧
      bytes = p.fixedBytes ++ (if p.Has bounded then Bytes.ofBox p.bounds else []) ++
        Bytes.ofNat (Text.byteLength p.model) ++ Text.toBytes p.model := by
  have short : longestName < UInt32.size := by decide
  constructor
  · -- a length that does not fit a word was refused before it was compared
    intro written
    obtain ⟨length, counted, written⟩ := bind_eq_ok.mp written
    obtain ⟨fits, rfl⟩ := Bytes.count?_eq_ok.mp counted
    rw [UInt32.toNat_ofNat', Nat.mod_eq_of_lt fits] at written
    by_cases long : longestName < Text.byteLength p.model
    · rw [if_pos long] at written
      cases written
    · rw [if_neg long] at written
      cases written
      exact ⟨Nat.le_of_not_lt long, rfl⟩
  · rintro ⟨accepted, rfl⟩
    have fits : Text.byteLength p.model < UInt32.size := Nat.lt_of_le_of_lt accepted short
    refine bind_eq_ok.mpr ⟨_, Bytes.count?_eq_ok.mpr ⟨fits, rfl⟩, ?_⟩
    rw [UInt32.toNat_ofNat', Nat.mod_eq_of_lt fits, if_neg (Nat.not_lt_of_le accepted)]
    rfl

/-- A placement as it lasts in its record: without the mark of a box there is no room for one. -/
def lasting (p : Placement) : Placement := if p.Has bounded then p else { p with bounds := .zero }

variable {refuses : Fault → Prop}

theorem matches_name {name : String} (accepted : Text.byteLength name ≤ longestName) :
    Matches refuses nameReader
      (.known (Bytes.ofNat (Text.byteLength name) ++ Text.toBytes name)) name := by
  have short : longestName < UInt32.size := by decide
  rw [Output.known_append]
  refine (matches_nat (Nat.lt_of_le_of_lt accepted short)).bind ?_
  rw [if_neg (Nat.not_lt_of_le accepted)]
  refine (matches_bytes rfl).last ?_
  rw [Text.ofBytes_toBytes]

/-- The record of a placement is read back, and found truncated where it was cut off. -/
theorem matches_toBytes? {p : Placement} {bytes : List UInt8} (scaled : p.Scaled)
    (written : p.toBytes? = .ok bytes) : Matches refuses reader (.known bytes) p.lasting := by
  obtain ⟨accepted, rfl⟩ := toBytes?_eq_ok.mp written
  rw [fixedBytes]
  simp only [List.append_assoc, Output.known_append]
  refine (matches_word p.flags).bind ((matches_half p.terrain).bind ((matches_word p.id).bind
    ((matches_vec p.position).bind ((matches_vec p.angles).bind ((matches_single p.scale).bind
    (.check (checkScale_eq_ok scaled) ?_))))))
  -- the mark of the box is one of the flags, which are read by now
  dsimp only
  by_cases boxed : p.Has bounded
  · rw [lasting, if_pos boxed, if_pos boxed]
    split
    next => exact (matches_box p.bounds).bind ((matches_name accepted).last rfl)
    next unmarked => exact absurd boxed unmarked
  · rw [lasting, if_neg boxed, if_neg boxed]
    split
    next marked => exact absurd marked boxed
    next => exact (Matches.pure Box.zero).bind ((matches_name accepted).last rfl)

/-- Only a placement with a box has all of its data in its record. -/
theorem reads_toBytes? {p : Placement} {bytes : List UInt8} (scaled : p.Scaled)
    (boxed : p.Has bounded) (written : p.toBytes? = .ok bytes) : Reads reader bytes p := by
  have all := (matches_toBytes? scaled written).reads
  rwa [lasting, if_pos boxed] at all

/-- A record is read only if readers accept the scale in it. -/
theorem scaled_of_read {p : Placement} {bytes rest after : List UInt8} {found : Placement}
    (written : p.toBytes? = .ok bytes) (read : reader.run (bytes ++ rest) = .ok (found, after)) :
    p.Scaled := by
  obtain ⟨-, rfl⟩ := toBytes?_eq_ok.mp written
  rw [fixedBytes] at read
  simp only [List.append_assoc] at read
  rw [reader, (reads_word p.flags).run_bind_eq, (reads_half p.terrain).run_bind_eq,
    (reads_word p.id).run_bind_eq, (reads_vec p.position).run_bind_eq,
    (reads_vec p.angles).run_bind_eq, (reads_single p.scale).run_bind_eq] at read
  obtain ⟨_, accepted, -⟩ := run_check_eq_ok.mp read
  rw [checkScale] at accepted
  split at accepted
  next scaled => exact scaled
  next => cases accepted

theorem toBytes?_ne_nil {p : Placement} {bytes : List UInt8} (written : p.toBytes? = .ok bytes) :
    bytes ≠ [] := by
  obtain ⟨-, rfl⟩ := toBytes?_eq_ok.mp written
  nofun

theorem reads_toBytes?_some {p : Placement} {bytes : List UInt8} (scaled : p.Scaled)
    (boxed : p.Has bounded) (written : p.toBytes? = .ok bytes) : Reads reader? bytes (some p) :=
  (reads_toBytes? scaled boxed written).orEnd? (toBytes?_ne_nil written)

theorem scaled_of_read_some {p : Placement} {bytes rest : List UInt8}
    {result : Option Placement × List UInt8} (written : p.toBytes? = .ok bytes)
    (read : reader?.run (bytes ++ rest) = .ok result) : p.Scaled := by
  rw [reader?, run_orEnd? (List.append_ne_nil_of_left_ne_nil (toBytes?_ne_nil written) rest),
    map_eq_ok] at read
  obtain ⟨⟨found, after⟩, readIt, -⟩ := read
  exact scaled_of_read written readIt

end Sightline.Placement
