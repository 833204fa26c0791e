import Sightline.Proofs.Placement.Stored

/-!
# Lists of records

Records of placements follow each other without a count, and are read one by one until the bytes end. If
a list of them is cut off, the records that are left whole are read, and it can be told whether the list
ends behind a record or within one.
-/
namespace Sightline.Placement

open Reader

/-- The placements that are read one after another, and how the reading ends: at the end of the bytes, or
with a fault. -/
inductive Listing : List UInt8 → List Placement → Except Fault Unit → Prop
  | done {input rest : List UInt8} (last : reader?.run input = .ok (none, rest)) :
      Listing input [] (.ok ())
  | stopped {input : List UInt8} {fault : Fault} (failed : reader?.run input = .error fault) :
      Listing input [] (.error fault)
  | next {input rest : List UInt8} {p : Placement} {ps : List Placement} {outcome : Except Fault Unit}
      (first : reader?.run input = .ok (some p, rest)) (others : Listing rest ps outcome) :
      Listing input (p :: ps) outcome

/-- A list of bytes is read in one way only. -/
theorem Listing.unique {input : List UInt8} {ps others : List Placement}
    {outcome other : Except Fault Unit} (first : Listing input ps outcome)
    (second : Listing input others other) : ps = others ∧ outcome = other := by
  induction first generalizing others other with
  | done last =>
    cases second with
    | done => exact ⟨rfl, rfl⟩
    | stopped failed => cases last.symm.trans failed
    | next more => cases last.symm.trans more
  | stopped failed =>
    cases second with
    | done last => cases failed.symm.trans last
    | stopped again =>
      cases failed.symm.trans again
      exact ⟨rfl, rfl⟩
    | next more => cases failed.symm.trans more
  | next more following ih =>
    cases second with
    | done last => cases more.symm.trans last
    | stopped failed => cases more.symm.trans failed
    | next again rest =>
      cases more.symm.trans again
      obtain ⟨rfl, rfl⟩ := ih rest
      exact ⟨rfl, rfl⟩

variable {p : Placement} {record front : List UInt8}

/-- Less than a record is its clean end only if it is nothing. -/
theorem listing_of_cut (scaled : p.Scaled) (written : p.toBytes? = .ok record)
    (within : front <+: record) (less : front ≠ record) :
    Listing front [] (if front = [] then .ok () else .error .truncated) := by
  split
  next nothing =>
    subst nothing
    exact .done rfl
  next filled =>
    have whole : Matches (fun _ => False) reader (.known record) p.lasting :=
      matches_toBytes? scaled written
    have truncated := whole.cut front ⟨within, fun _ => less⟩
    refine .stopped ?_
    rw [reader?, run_orEnd? filled, truncated.eq]
    rfl

theorem listing_cons {rest : List UInt8} {ps : List Placement} {outcome : Except Fault Unit}
    (scaled : p.Scaled) (written : p.toBytes? = .ok record) (others : Listing rest ps outcome) :
    Listing (record ++ rest) (p.lasting :: ps) outcome := by
  have read := (matches_toBytes? scaled written).reads.orEnd? (toBytes?_ne_nil written)
  exact .next (read rest) others

/-- What a list of records comes to if it is cut off: as many records as lie in what is left of it are
read, and then the bytes end, or are truncated. -/
structure CutOff (ps : List Placement) (records : List (List UInt8)) (front : List UInt8)
    (whole : Nat) : Prop where
  le : whole ≤ ps.length
  /-- The records that lie in what is left. -/
  within : ∀ count ≤ ps.length, (records.take count).flatten <+: front ↔ count ≤ whole
  listing : Listing front ((ps.take whole).map lasting)
    (if front = (records.take whole).flatten then .ok () else .error .truncated)

theorem exists_cutOff {ps : List Placement} {records : List (List UInt8)}
    (scaled : ∀ p ∈ ps, p.Scaled) (written : List.Forall₂ (fun p record => p.toBytes? = .ok record) ps records)
    {front : List UInt8} (cut : front <+: records.flatten) : ∃ whole, CutOff ps records front whole := by
  induction written generalizing front with
  | nil =>
    obtain rfl := List.prefix_nil.mp cut
    refine ⟨0, Nat.le_refl 0, fun count few => ?_, .done rfl⟩
    simp only [List.take_nil, List.flatten_nil, List.nil_prefix, true_iff]
    exact few
  | @cons p record ps records first others ih =>
    have here := scaled p (.head _)
    obtain ⟨within, less⟩ | ⟨back, behind, rfl⟩ := front_append_cases cut
    · -- not even the first record is left
      refine ⟨0, Nat.zero_le _, fun count _ => ?_, listing_of_cut here first within less⟩
      cases count with
      | zero => simp
      | succ count =>
        rw [List.take_succ_cons, List.flatten_cons]
        refine ⟨fun more => ?_, fun impossible => absurd impossible (Nat.not_succ_le_zero count)⟩
        have all : record <+: front := (List.prefix_append record _).trans more
        exact absurd (within.eq_of_length_le all.length_le) less
    · obtain ⟨whole, few, known, listing⟩ := ih (fun p listed => scaled p (.tail _ listed)) behind
      refine ⟨whole + 1, Nat.succ_le_succ few, fun count fits => ?_, ?_⟩
      · cases count with
        | zero => simp
        | succ count =>
          rw [List.take_succ_cons, List.flatten_cons, List.prefix_append_right_inj,
            known count (Nat.le_of_succ_le_succ fits), Nat.succ_le_succ_iff]
      · simp only [List.take_succ_cons, List.flatten_cons, List.map_cons, List.append_cancel_left_eq]
        exact listing_cons here first listing

/-- A list of placements with names that are short enough has records. Whatever is left of them when
they are cut off, the records in it are read as the placements they were written for, with all their data
but boxes that are not marked; then the bytes end if they end behind a record, and are found truncated
otherwise. Nothing is written for a placement with a longer name. -/
theorem listing_of_records :
    (∀ ps : List Placement, (∀ p ∈ ps, p.Scaled) →
      (∀ p ∈ ps, Text.byteLength p.model ≤ longestName) →
        ∃ records, ps.mapM toBytes? = .ok records ∧
          ∀ front, front <+: records.flatten → ∃ whole, CutOff ps records front whole) ∧
    ∀ (p : Placement) (rest : List Piece), longestName < Text.byteLength p.model →
      ∃ fault, Output.ofPieces (p.toBytes? :: rest) = ([], .error fault) := by
  constructor
  · intro ps scaled short
    have each : ∀ p ∈ ps, ∃ record, p.toBytes? = .ok record :=
      fun p listed => ⟨_, toBytes?_eq_ok.mpr ⟨short p listed, rfl⟩⟩
    choose! record written using each
    have all : List.Forall₂ (fun p record => p.toBytes? = .ok record) ps (ps.map record) :=
      List.forall₂_map_right_iff.mpr (List.forall₂_same.mpr written)
    exact ⟨ps.map record, mapM_eq_ok.mpr all, fun front cut => exists_cutOff scaled all cut⟩
  · intro p rest long
    cases written : p.toBytes? with
    | error fault => exact ⟨fault, rfl⟩
    | ok record => exact absurd (toBytes?_eq_ok.mp written).1 (Nat.not_le_of_lt long)

/-- Two placements, of which the first one has a box without the mark of a box. -/
def twoTrees : List Placement :=
  [{ id := 1, bounds := ⟨⟨0, 0, 0⟩, ⟨1, 1, 1⟩⟩, model := "oak" },
    { flags := bounded, id := 2, bounds := ⟨⟨0, 0, 0⟩, ⟨1, 1, 1⟩⟩, model := "elm" }]

/-- The first 60 bytes of their records have one of them and a part of the other. -/
theorem listing_of_records_twoTrees :
    (∃ records, twoTrees.mapM toBytes? = .ok records ∧
      CutOff twoTrees records (records.flatten.take 60) 1) ∧
      ∃ fault, Output.ofPieces
        [({ model := String.ofList (List.replicate 501 'x') } : Placement).toBytes?] = ([], .error fault) := by
  have scaled : ∀ p ∈ twoTrees, p.Scaled := by decide +kernel
  have short : ∀ p ∈ twoTrees, Text.byteLength p.model ≤ longestName := by decide +kernel
  have computed : twoTrees.mapM toBytes? =
      .ok (twoTrees.map fun p => p.toBytes?.toOption.getD []) := by decide +kernel
  obtain ⟨records, written, read⟩ := listing_of_records.1 twoTrees scaled short
  obtain rfl := Except.ok.inj (written.symm.trans computed)
  obtain ⟨whole, cut⟩ := read _ (List.take_prefix 60 _)
  have one := (cut.within 1 (by decide)).mp (by decide +kernel)
  have two := mt (cut.within 2 (by decide)).mpr (by decide +kernel)
  obtain rfl : whole = 1 := by omega
  have length (n : Nat) : Text.byteLength (String.ofList (List.replicate n 'x')) = n := by
    simp [Text.byteLength, Text.toBytes, Char.utf8Size]
  exact ⟨⟨_, written, cut⟩, listing_of_records.2 _ [] (by rw [length]; decide)⟩

end Sightline.Placement
