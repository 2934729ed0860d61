import Mathlib.Data.List.TakeWhile
import Phosphoric.Sedoric.Container

/-!
# Injection read back

A content injected in a container by `sedoricSaveMfm` and extracted by `sedoricLoad`. Both scan the
data fields too, so a content with an ID mark and, 10 to 59 bytes on, a data mark is taken for
another sector: injection writes that sector over the field and past its CRC, and extraction copies
the wrong bytes to the other sector.

**Theorem (`roundTrip_of_quiet`).** A content that is quiet in the container comes back, and the
file is the container with the new data fields and their CRCs.
-/

namespace Phosphoric

open Buffer

/-! ## Places passed over -/

section Loops

variable (flat : List Byte) (flatSize : Nat) (numTracks : Byte)

/-- Injection leaves alone the places where no sector is found. -/
theorem mfmInjectLoop_skip {before rest : List Byte}
    (h : ∀ i < before.length,
      mfmSectorAt flatSize mfmMaxSectors numTracks ((before ++ rest).drop i) = none)
    (n written : Nat) :
    (mfmInjectLoop flat flatSize mfmMaxSectors numTracks (n + before.length) (before ++ rest)
        written).2 =
      before ++ (mfmInjectLoop flat flatSize mfmMaxSectors numTracks n rest written).2 := by
  induction before with
  | nil => rfl
  | cons b before ih =>
    have hnone := h 0 (by simp)
    have hrest := ih fun i hi => h (i + 1) (by simpa using hi)
    simp only [List.drop_zero, List.cons_append] at hnone
    rw [List.length_cons, ← Nat.add_assoc, List.cons_append, mfmInjectLoop, hnone]
    simp only [hrest, List.cons_append]

/-- A track without a sector stays as it is. -/
theorem mfmInjectLoop_none {track : List Byte}
    (h : ∀ i, mfmSectorAt flatSize mfmMaxSectors numTracks (track.drop i) = none)
    (n written : Nat) :
    (mfmInjectLoop flat flatSize mfmMaxSectors numTracks n track written).2 = track := by
  induction track generalizing n with
  | nil => cases n <;> rfl
  | cons b track ih =>
    cases n with
    | zero => rfl
    | succ n =>
      have hnone := h 0
      rw [List.drop_zero] at hnone
      rw [mfmInjectLoop, hnone]
      simp only [ih fun i => h (i + 1)]

/-- So does extraction leave the flat image alone. -/
theorem mfmExtractLoop_skip {before rest : List Byte}
    (h : ∀ i < before.length,
      mfmSectorAt flatSize mfmMaxSectors numTracks ((before ++ rest).drop i) = none)
    (n : Nat) (acc : Nat × List Byte) :
    mfmExtractLoop flatSize mfmMaxSectors numTracks (n + before.length) (before ++ rest) acc =
      mfmExtractLoop flatSize mfmMaxSectors numTracks n rest acc := by
  induction before with
  | nil => rfl
  | cons b before ih =>
    have hnone := h 0 (by simp)
    have hrest := ih fun i hi => h (i + 1) (by simpa using hi)
    simp only [List.drop_zero, List.cons_append] at hnone
    rw [List.length_cons, ← Nat.add_assoc, List.cons_append, mfmExtractLoop, hnone]
    exact hrest

theorem mfmExtractLoop_none {track : List Byte}
    (h : ∀ i, mfmSectorAt flatSize mfmMaxSectors numTracks (track.drop i) = none) (n : Nat)
    (acc : Nat × List Byte) :
    mfmExtractLoop flatSize mfmMaxSectors numTracks n track acc = acc := by
  induction track generalizing n with
  | nil => cases n <;> rfl
  | cons b track ih =>
    cases n with
    | zero => rfl
    | succ n =>
      have hnone := h 0
      rw [List.drop_zero] at hnone
      rw [mfmExtractLoop, hnone]
      exact ih (fun i => h (i + 1)) n

end Loops

/-! ## Sectors of a track -/

theorem mfmField_length (block : List Byte) : (mfmField block).length = block.length + 2 := by
  simp [mfmField]

theorem mfmIdMarks_le {pos i : Nat} {sectors : List MfmSector} (h : i ∈ mfmIdMarks pos sectors) :
    pos ≤ i := by
  induction sectors generalizing pos with
  | nil => simp [mfmIdMarks] at h
  | cons s sectors ih =>
    rw [mfmIdMarks, List.mem_cons] at h
    rcases h with rfl | h
    · exact le_rfl
    · have := ih h
      omega

theorem mem_mfmIdMarks_add (d : Nat) {pos i : Nat} {sectors : List MfmSector} :
    d + i ∈ mfmIdMarks (d + pos) sectors ↔ i ∈ mfmIdMarks pos sectors := by
  induction sectors generalizing pos with
  | nil => simp [mfmIdMarks]
  | cons s sectors ih =>
    simp only [mfmIdMarks, List.mem_cons, Nat.add_assoc, Nat.add_left_cancel_iff, ih]

section Track

variable {flat : List Byte} {flatSize : Nat} {numTracks : Byte}

/-- A sector the scan finds at its ID mark, with room for it in the flat image. -/
structure MfmSector.Fits (s : MfmSector) (flat : List Byte) (flatSize : Nat) (numTracks : Byte) :
    Prop where
  sector : 1 ≤ s.sector ∧ s.sector ≤ mfmMaxSectors
  offset : s.offset numTracks + sedoricSectorSize ≤ flatSize
  flat : flatSize = flat.length

theorem MfmSector.Fits.block_length {s : MfmSector} (h : s.Fits flat flatSize numTracks) :
    (s.block numTracks flat).length = sedoricSectorSize :=
  slice_length (h.flat ▸ h.offset)

theorem MfmSector.Fits.newField_length {s : MfmSector} (h : s.Fits flat flatSize numTracks) :
    (s.newField numTracks flat).length = mfmFieldSize := by
  rw [MfmSector.newField, mfmField_length, h.block_length]
  rfl

theorem MfmSector.oldField_length (s : MfmSector) : s.oldField.length = mfmFieldSize :=
  s.field.length_toList

/-- No place before the first sector is taken for one. -/
theorem MfmQuiet.before {before : List Byte} {sectors : List MfmSector}
    (h : MfmQuiet flatSize numTracks flat before sectors) {i : Nat} (hi : i < before.length) :
    mfmSectorAt flatSize mfmMaxSectors numTracks
      ((before ++ sectors.flatMap (MfmSector.bytesWith (MfmSector.newField numTracks flat))).drop
        i) = none := by
  rw [← Option.not_isSome_iff_eq_none]
  intro hsome
  have := mfmIdMarks_le (h i hsome)
  omega

/-- A sector has more than a byte before its data field. -/
theorem MfmSector.header_cons (s : MfmSector) : ∃ tail, s.header = 0xA1#8 :: tail := ⟨_, rfl⟩

/-- The bytes after a sector's ID mark. -/
theorem MfmQuiet.drop_after {before tail : List Byte} {s : MfmSector} {sectors : List MfmSector}
    (htail : s.header = 0xA1#8 :: tail) (i : Nat) :
    (before ++ (s :: sectors).flatMap
        (MfmSector.bytesWith (MfmSector.newField numTracks flat))).drop (before.length + 1 + i) =
      (tail ++ s.newField numTracks flat ++ s.gap ++
        sectors.flatMap (MfmSector.bytesWith (MfmSector.newField numTracks flat))).drop i := by
  rw [← List.drop_drop, ← List.drop_drop, List.drop_left]
  simp [MfmSector.bytesWith, htail, List.append_assoc]

theorem MfmQuiet.length_after {before tail : List Byte} {s : MfmSector}
    (hs : s.Fits flat flatSize numTracks) (htail : s.header = 0xA1#8 :: tail) :
    before.length + (s.header.length + mfmFieldSize + s.gap.length) =
      before.length + 1 + (tail ++ s.newField numTracks flat ++ s.gap).length := by
  simp only [List.length_append, hs.newField_length, htail, List.length_cons]
  omega

/-- What follows a sector's ID mark, the field written, is quiet before the other sectors. -/
theorem MfmQuiet.after {before tail : List Byte} {s : MfmSector} {sectors : List MfmSector}
    (h : MfmQuiet flatSize numTracks flat before (s :: sectors))
    (hs : s.Fits flat flatSize numTracks) (htail : s.header = 0xA1#8 :: tail) :
    MfmQuiet flatSize numTracks flat (tail ++ s.newField numTracks flat ++ s.gap) sectors := by
  intro i hi
  have hmem := h (before.length + 1 + i) (by rwa [MfmQuiet.drop_after htail])
  rw [mfmIdMarks, List.mem_cons, MfmQuiet.length_after hs htail, mem_mfmIdMarks_add] at hmem
  exact hmem.resolve_left (by omega)

/-- Sectors with fields of one length have one length. -/
theorem flatMap_bytesWith_length {field field' : MfmSector → List Byte} {sectors : List MfmSector}
    (h : ∀ s ∈ sectors, (field s).length = (field' s).length) :
    (sectors.flatMap (MfmSector.bytesWith field)).length =
      (sectors.flatMap (MfmSector.bytesWith field')).length := by
  induction sectors with
  | nil => rfl
  | cons s sectors ih =>
    simp only [List.flatMap_cons, List.length_append, MfmSector.bytesWith, h s (by simp),
      ih fun s' hs' => h s' (by simp [hs'])]

/-- Before the first sector, injection sees what it will see once all is written. -/
theorem mfmSectorAt_oldField {s : MfmSector} {sectors : List MfmSector} {before : List Byte}
    (hfits : ∀ s' ∈ s :: sectors, s'.Fits flat flatSize numTracks) {i : Nat}
    (hi : i < before.length) :
    mfmSectorAt flatSize mfmMaxSectors numTracks
        ((before ++ (s :: sectors).flatMap (MfmSector.bytesWith MfmSector.oldField)).drop i) =
      mfmSectorAt flatSize mfmMaxSectors numTracks
        ((before ++ (s :: sectors).flatMap
          (MfmSector.bytesWith (MfmSector.newField numTracks flat))).drop i) := by
  obtain ⟨ids, hids, hlen⟩ : ∃ ids, s.header = ids ++ mfmMark 0xFB#8 ∧ 10 ≤ ids.length := by
    have := s.idRest_length
    refine ⟨_, rfl, ?_⟩
    simp only [List.length_append, mfmMark, List.length_cons, List.length_nil]
    omega
  have hcut : ∀ field : MfmSector → List Byte,
      (before ++ (s :: sectors).flatMap (MfmSector.bytesWith field)).drop i =
        (before.drop i ++ ids) ++ mfmMark 0xFB#8 ++
          (field s ++ s.gap ++ sectors.flatMap (MfmSector.bytesWith field)) := by
    intro field
    rw [List.drop_append_of_le_length (by omega)]
    simp [MfmSector.bytesWith, hids, List.append_assoc]
  rw [hcut, hcut]
  have hsame : ∀ s' ∈ s :: sectors,
      s'.oldField.length = (s'.newField numTracks flat).length := fun s' hs' => by
    rw [s'.oldField_length, (hfits s' hs').newField_length]
  apply mfmSectorAt_agree
  · rw [List.length_append]
    omega
  · simp only [List.length_append, s.oldField_length]
    omega
  · have hrest := flatMap_bytesWith_length fun s' (h : s' ∈ sectors) => hsame s' (by simp [h])
    simp only [List.length_append, hsame s (by simp), hrest]

/-- At a sector's ID mark, injection writes the sector's field. -/
theorem mfmInjectLoop_sector {s : MfmSector} (hs : s.Fits flat flatSize numTracks)
    {tail field : List Byte} (htail : s.header = 0xA1#8 :: tail)
    (hfield : field.length = mfmFieldSize) (rest : List Byte) (n written : Nat) :
    (mfmInjectLoop flat flatSize mfmMaxSectors numTracks (n + 1)
        (0xA1#8 :: (tail ++ field ++ rest)) written).2 =
      0xA1#8 :: (mfmInjectLoop flat flatSize mfmMaxSectors numTracks n
        (tail ++ s.newField numTracks flat ++ rest) (written + 1)).2 := by
  have hlen : tail.length = s.dataMark + 3 := by
    have := s.header_length
    rw [htail, List.length_cons] at this
    omega
  have hfound : mfmSectorAt flatSize mfmMaxSectors numTracks
      (0xA1#8 :: (tail ++ field ++ rest)) = some (s.offset numTracks, s.dataMark) := by
    have := mfmSectorAt_header s hs.sector hs.offset (u := field ++ rest) (by
      rw [List.length_append]
      omega)
    rwa [htail, List.cons_append, ← List.append_assoc] at this
  have hsplice : splice (tail ++ field ++ rest) (s.dataMark + 3) (s.newField numTracks flat) =
      tail ++ s.newField numTracks flat ++ rest := by
    rw [← hlen]
    exact splice_append _ _ (hfield.trans hs.newField_length.symm)
  rw [MfmSector.newField, MfmSector.block] at hsplice
  rw [mfmInjectLoop, hfound, MfmSector.newField, MfmSector.block]
  simp only [hsplice]

/-- At a sector's ID mark, extraction copies the sector's data. -/
theorem mfmExtractLoop_sector {s : MfmSector} (hs : s.Fits flat flatSize numTracks)
    {tail : List Byte} (htail : s.header = 0xA1#8 :: tail) (rest : List Byte) (n found : Nat)
    (image : List Byte) :
    mfmExtractLoop flatSize mfmMaxSectors numTracks (n + 1)
        (0xA1#8 :: (tail ++ s.newField numTracks flat ++ rest)) (found, image) =
      mfmExtractLoop flatSize mfmMaxSectors numTracks n
        (tail ++ s.newField numTracks flat ++ rest)
        (found + 1, splice image (s.offset numTracks) (s.block numTracks flat)) := by
  have hfound : mfmSectorAt flatSize mfmMaxSectors numTracks
      (0xA1#8 :: (tail ++ s.newField numTracks flat ++ rest)) =
        some (s.offset numTracks, s.dataMark) := by
    have := mfmSectorAt_header s hs.sector hs.offset (u := s.newField numTracks flat ++ rest) (by
      rw [List.length_append, hs.newField_length]
      omega)
    rwa [htail, List.cons_append, ← List.append_assoc] at this
  have hslice : slice (0xA1#8 :: (tail ++ s.newField numTracks flat ++ rest)) (s.dataMark + 4)
      sedoricSectorSize = s.block numTracks flat := by
    have hcut : 0xA1#8 :: (tail ++ s.newField numTracks flat ++ rest) =
        s.header ++ s.block numTracks flat ++
          ((mfmField (s.block numTracks flat)).drop sedoricSectorSize ++ rest) := by
      rw [htail, MfmSector.newField, mfmField, List.drop_left' hs.block_length]
      simp [List.append_assoc]
    rw [hcut, ← s.header_length, ← hs.block_length]
    exact slice_append _ _ _
  rw [mfmExtractLoop, hfound]
  simp only [hslice]

/-- Injection in a quiet track writes the sectors' own fields. -/
theorem mfmInjectLoop_quiet {sectors : List MfmSector} {before : List Byte}
    (hfits : ∀ s ∈ sectors, s.Fits flat flatSize numTracks)
    (hquiet : MfmQuiet flatSize numTracks flat before sectors) {n : Nat}
    (hn : n + 4 = (before ++ sectors.flatMap (MfmSector.bytesWith MfmSector.oldField)).length)
    (written : Nat) :
    (mfmInjectLoop flat flatSize mfmMaxSectors numTracks n
        (before ++ sectors.flatMap (MfmSector.bytesWith MfmSector.oldField)) written).2 =
      before ++ sectors.flatMap (MfmSector.bytesWith (MfmSector.newField numTracks flat)) := by
  induction sectors generalizing before n written with
  | nil =>
    refine mfmInjectLoop_none flat flatSize numTracks (fun i => ?_) n written
    rw [← Option.not_isSome_iff_eq_none]
    intro hsome
    simpa [mfmIdMarks] using hquiet i hsome
  | cons s sectors ih =>
    have hs := hfits s (by simp)
    obtain ⟨tail, htail⟩ := s.header_cons
    have hold := s.oldField_length
    have hfield : mfmFieldSize = 258 := rfl
    obtain ⟨m, rfl⟩ : ∃ m, n = m + 1 + before.length := by
      refine ⟨n - 1 - before.length, ?_⟩
      simp only [List.length_append, List.flatMap_cons, MfmSector.bytesWith, hold] at hn
      omega
    rw [mfmInjectLoop_skip flat flatSize numTracks fun i hi =>
      (mfmSectorAt_oldField hfits hi).trans (hquiet.before hi)]
    congr 1
    have hrest := ih (fun s' h => hfits s' (by simp [h])) (hquiet.after hs htail) (n := m) (by
      simp only [List.length_append, List.flatMap_cons, MfmSector.bytesWith, hold, htail,
        List.length_cons, hs.newField_length] at hn ⊢
      omega) (written + 1)
    have hstep := mfmInjectLoop_sector hs htail hold
      (s.gap ++ sectors.flatMap (MfmSector.bytesWith MfmSector.oldField)) m written
    simp only [List.flatMap_cons, MfmSector.bytesWith, htail, List.cons_append,
      List.append_assoc] at hstep hrest ⊢
    rw [hstep, hrest]

/-- Extraction from a quiet track copies the sectors' own blocks. -/
theorem mfmExtractLoop_quiet {sectors : List MfmSector} {before : List Byte}
    (hfits : ∀ s ∈ sectors, s.Fits flat flatSize numTracks)
    (hquiet : MfmQuiet flatSize numTracks flat before sectors) {n : Nat}
    (hn : n + 4 = (before ++
      sectors.flatMap (MfmSector.bytesWith (MfmSector.newField numTracks flat))).length)
    (acc : Nat × List Byte) :
    (mfmExtractLoop flatSize mfmMaxSectors numTracks n (before ++
        sectors.flatMap (MfmSector.bytesWith (MfmSector.newField numTracks flat))) acc).2 =
      sectors.foldl (fun image s => splice image (s.offset numTracks) (s.block numTracks flat))
        acc.2 := by
  induction sectors generalizing before n acc with
  | nil =>
    rw [mfmExtractLoop_none flatSize numTracks fun i => ?_]
    · rfl
    rw [← Option.not_isSome_iff_eq_none]
    intro hsome
    simpa [mfmIdMarks] using hquiet i hsome
  | cons s sectors ih =>
    obtain ⟨found, image⟩ := acc
    have hs := hfits s (by simp)
    obtain ⟨tail, htail⟩ := s.header_cons
    have hnew := hs.newField_length
    have hfield : mfmFieldSize = 258 := rfl
    obtain ⟨m, rfl⟩ : ∃ m, n = m + 1 + before.length := by
      refine ⟨n - 1 - before.length, ?_⟩
      simp only [List.length_append, List.flatMap_cons, MfmSector.bytesWith, hnew] at hn
      omega
    rw [mfmExtractLoop_skip flatSize numTracks fun i hi => hquiet.before hi]
    have hrest := ih (fun s' h => hfits s' (by simp [h])) (hquiet.after hs htail) (n := m) (by
      simp only [List.length_append, List.flatMap_cons, MfmSector.bytesWith, htail,
        List.length_cons] at hn ⊢
      omega) (found + 1, splice image (s.offset numTracks) (s.block numTracks flat))
    have hstep := mfmExtractLoop_sector hs htail (s.gap ++
      sectors.flatMap (MfmSector.bytesWith (MfmSector.newField numTracks flat))) m found image
    simp only [List.flatMap_cons, MfmSector.bytesWith, htail, List.cons_append,
      List.append_assoc] at hstep hrest ⊢
    rw [hstep, hrest]
    rfl

end Track

/-! ## Tracks of a container -/

/-- A sector found has room in the image, and its field in the track. -/
theorem mfmSectorAt_room {flatSize : Nat} {sectorsPerTrack numTracks : Byte} {rest : List Byte}
    {offset j : Nat}
    (h : mfmSectorAt flatSize sectorsPerTrack numTracks rest = some (offset, j)) :
    offset + sedoricSectorSize ≤ flatSize ∧ j + 4 + mfmFieldSize ≤ rest.length := by
  cases hj : mfmDataMark rest with
  | none =>
    simp only [mfmSectorAt, hj] at h
    split_ifs at h
  | some k =>
    simp only [mfmSectorAt, hj] at h
    split_ifs at h with hid hsector hfit
    cases h
    have hroom := List.find?_some hj
    simp only [Bool.and_eq_true, decide_eq_true_eq] at hroom
    simp only [Bool.or_eq_true, decide_eq_true_eq, not_or] at hfit
    simp only [mfmFieldSize]
    omega

/-- Injection keeps the length of a track. -/
theorem mfmInjectLoop_length {flat : List Byte} {sectorsPerTrack numTracks : Byte} (n : Nat)
    (track : List Byte) (written : Nat) :
    (mfmInjectLoop flat flat.length sectorsPerTrack numTracks n track written).2.length =
      track.length := by
  induction n generalizing track written with
  | zero => cases track <;> rfl
  | succ n ih =>
    cases track with
    | nil => rfl
    | cons b rest =>
      rw [mfmInjectLoop]
      cases hfound : mfmSectorAt flat.length sectorsPerTrack numTracks (b :: rest) with
      | none => simp only [List.length_cons, ih]
      | some found =>
        obtain ⟨offset, j⟩ := found
        obtain ⟨himage, hroom⟩ := mfmSectorAt_room hfound
        simp only [List.length_cons, ih]
        rw [splice_length]
        rw [mfmField_length, slice_length himage]
        simp only [List.length_cons, mfmFieldSize] at hroom
        omega

namespace MfmContainer

variable (c : MfmContainer)

theorem header_length : c.header.length = mfmDiskHeaderSize := by
  simp [header, mfmDiskMagic, c.headerRest_length, mfmDiskHeaderSize]

/-- The fields have the size of a field. -/
def Sized (field : MfmSector → List Byte) : Prop :=
  ∀ t ∈ c.layouts, ∀ s ∈ t.sectors, (field s).length = mfmFieldSize

theorem sized_oldField : c.Sized MfmSector.oldField := fun _ _ s _ => s.oldField_length

variable {c} {field : MfmSector → List Byte}

theorem Sized.track_length (h : c.Sized field) {t : MfmTrack} (ht : t ∈ c.layouts) :
    (t.bytesWith field).length = mfmTrackSize := by
  rw [← t.bytes_length, MfmTrack.bytesWith, List.length_append, List.length_append,
    flatMap_bytesWith_length fun s hs => (h t ht s hs).trans s.oldField_length.symm]

theorem Sized.tracks_length (h : c.Sized field) :
    ∀ b ∈ c.layouts.map (MfmTrack.bytesWith field), b.length = mfmTrackSize := by
  intro b hb
  obtain ⟨t, ht, rfl⟩ := List.mem_map.mp hb
  exact h.track_length ht

theorem Sized.bytes_length (h : c.Sized field) :
    (c.bytesWith field).length =
      mfmDiskHeaderSize + c.sides * c.tracks * mfmTrackSize + c.trailer.length := by
  rw [bytesWith, List.length_append, List.length_append, blocks_length h.tracks_length,
    c.header_length, List.length_map, c.layouts_length]

/-- The tracks visited are all of the container's. -/
theorem mfmTrackIndices_eq (sides tracks : Nat) {fsize : Nat}
    (h : mfmDiskHeaderSize + sides * tracks * mfmTrackSize ≤ fsize) :
    mfmTrackIndices sides tracks fsize = List.range (sides * tracks) := by
  have hside : ∀ s < sides, ((List.range tracks).map fun t => s * tracks + t).takeWhile
      (fun trackIdx => decide (mfmRawOffset trackIdx + mfmTrackSize ≤ fsize)) =
        (List.range tracks).map fun t => s * tracks + t := by
    intro s hs
    apply List.takeWhile_eq_self_iff.mpr
    intro k hk
    obtain ⟨t, ht, rfl⟩ := List.mem_map.mp hk
    rw [List.mem_range] at ht
    have hk : s * tracks + t + 1 ≤ sides * tracks := by
      calc s * tracks + t + 1 ≤ (s + 1) * tracks := by rw [Nat.succ_mul]; omega
        _ ≤ sides * tracks := Nat.mul_le_mul_right _ hs
    have hroom := Nat.mul_le_mul_right mfmTrackSize hk
    rw [Nat.succ_mul] at hroom
    rw [decide_eq_true_eq, mfmRawOffset]
    omega
  have hall : mfmTrackIndices sides tracks fsize =
      (List.range sides).flatMap fun s => (List.range tracks).map fun t => s * tracks + t :=
    List.flatMap_congr fun s hs => hside s (List.mem_range.mp hs)
  rw [hall]
  clear hall hside h
  induction sides with
  | zero => simp
  | succ sides ih =>
    rw [List.range_succ, List.flatMap_append, ih, Nat.succ_mul, List.range_add]
    simp

/-! ## Load and save -/

variable (c) in
/-- The disk loaded from the container, with another content. -/
def disk (flat : List Byte) : SedoricDisk :=
  { sedoricLoad c.bytes with data := flat, modified := true }

theorem sedoricU32_sides (field : MfmSector → List Byte) :
    sedoricU32 (c.bytesWith field) 8 = c.sides := by
  have hcut : c.bytesWith field = mfmDiskMagic ++ Binary.bytesLe 4 (BitVec.ofNat 32 c.sides) ++
      (Binary.bytesLe 4 (BitVec.ofNat 32 c.tracks) ++ c.headerRest ++
        (c.layouts.map (MfmTrack.bytesWith field)).flatten ++ c.trailer) := by
    simp only [bytesWith, header, List.append_assoc]
  have hslice := slice_append mfmDiskMagic (Binary.bytesLe 4 (BitVec.ofNat 32 c.sides))
    (Binary.bytesLe 4 (BitVec.ofNat 32 c.tracks) ++ c.headerRest ++
      (c.layouts.map (MfmTrack.bytesWith field)).flatten ++ c.trailer)
  rw [Binary.bytesLe_length] at hslice
  have hle := c.sides_range.2
  simp only [mfmMaxSides] at hle
  rw [sedoricU32, hcut, show 8 = mfmDiskMagic.length from rfl, hslice, Binary.natLe_bytesLe,
    BitVec.toNat_ofNat]
  omega

theorem sedoricU32_tracks (field : MfmSector → List Byte) :
    sedoricU32 (c.bytesWith field) 12 = c.tracks := by
  have hcut : c.bytesWith field =
      (mfmDiskMagic ++ Binary.bytesLe 4 (BitVec.ofNat 32 c.sides)) ++
        Binary.bytesLe 4 (BitVec.ofNat 32 c.tracks) ++ (c.headerRest ++
          (c.layouts.map (MfmTrack.bytesWith field)).flatten ++ c.trailer) := by
    simp only [bytesWith, header, List.append_assoc]
  have hslice := slice_append (mfmDiskMagic ++ Binary.bytesLe 4 (BitVec.ofNat 32 c.sides))
    (Binary.bytesLe 4 (BitVec.ofNat 32 c.tracks)) (c.headerRest ++
      (c.layouts.map (MfmTrack.bytesWith field)).flatten ++ c.trailer)
  rw [Binary.bytesLe_length] at hslice
  have hle := c.tracks_range.2
  simp only [mfmMaxTracks] at hle
  rw [sedoricU32, hcut, show 12 = (mfmDiskMagic ++
    Binary.bytesLe 4 (BitVec.ofNat 32 c.sides)).length by simp [mfmDiskMagic], hslice,
    Binary.natLe_bytesLe, BitVec.toNat_ofNat]
  omega

theorem numTracks_toNat (c : MfmContainer) : c.numTracks.toNat = c.tracks := by
  have hle := c.tracks_range.2
  simp only [mfmMaxTracks] at hle
  rw [numTracks, BitVec.toNat_ofNat]
  omega

/-- A track of the file. -/
theorem slice_track (h : c.Sized field) {k : Nat} (hk : k < c.layouts.length) :
    slice (c.bytesWith field) (mfmRawOffset k) mfmTrackSize = (c.layouts[k]).bytesWith field := by
  rw [mfmRawOffset, ← c.header_length, bytesWith,
    slice_blocks h.tracks_length _ _ (by rwa [List.length_map]), List.getElem_map]

/-- Loading visits the tracks one after another. -/
theorem sedoricLoad_bytesWith (h : c.Sized field) :
    sedoricLoad (c.bytesWith field) =
      { data := (c.layouts.foldl (fun acc t =>
          mfmExtractTrack c.flatSize mfmMaxSectors c.numTracks (t.bytesWith field) acc)
          (0, List.replicate c.flatSize 0)).2
        size := c.flatSize
        tracks := c.numTracks
        sectors := mfmMaxSectors
        sides := BitVec.ofNat 8 c.sides
        modified := false
        isMfm := true
        mfmRaw := some (c.bytesWith field)
        mfmRawSize := (c.bytesWith field).length } := by
  have hlen := h.bytes_length
  have hlt : (c.bytesWith field).length < 2 ^ 32 := by rw [hlen]; exact c.fsize_lt
  have hpos : 0 < c.sides * c.tracks := Nat.mul_pos c.sides_range.1 c.tracks_range.1
  have hbig : mfmDiskHeaderSize < (c.bytesWith field).length := by
    rw [hlen]
    simp only [mfmTrackSize]
    omega
  have hmagic : slice (c.bytesWith field) 0 8 = mfmDiskMagic := by
    simp only [slice, List.drop_zero, bytesWith, header, List.append_assoc]
    exact List.take_left' rfl
  have hindices : mfmTrackIndices c.sides c.tracks (c.bytesWith field).length =
      List.range c.layouts.length := by
    rw [c.layouts_length]
    exact mfmTrackIndices_eq c.sides c.tracks (by rw [hlen]; omega)
  have htracks : (List.range c.layouts.length).map
      (fun k => slice (c.bytesWith field) (mfmRawOffset k) mfmTrackSize) =
        c.layouts.map (MfmTrack.bytesWith field) := by
    apply List.ext_getElem (by simp)
    intro k hk _
    rw [List.getElem_map, List.getElem_range, List.getElem_map]
    exact slice_track h (by simpa using hk)
  rw [sedoricLoad, if_pos ⟨hbig, hmagic⟩, sedoricLoadMfm, sedoricU32_sides, sedoricU32_tracks]
  simp only [Nat.min_eq_left c.sides_range.2, Nat.min_eq_left c.tracks_range.2,
    Nat.mod_eq_of_lt hlt, hindices]
  rw [← List.foldl_map (f := _) (g := fun acc track =>
    mfmExtractTrack c.flatSize mfmMaxSectors c.numTracks track acc), ← htracks, List.foldl_map]
  rfl

/-- Saving injects the content in the tracks one after another. -/
theorem sedoricSaveMfm_disk {flat : List Byte} (hflat : flat.length = c.flatSize) :
    sedoricSaveMfm (c.disk flat) =
      (let file := c.header ++ (c.layouts.map fun t =>
          (mfmInjectTrack flat c.flatSize mfmMaxSectors c.numTracks
            (t.bytesWith MfmSector.oldField)).2).flatten ++ c.trailer
       some ({ c.disk flat with mfmRaw := some file, modified := false }, file)) := by
  have hsized := c.sized_oldField
  have hlen : c.bytes.length =
      mfmDiskHeaderSize + c.sides * c.tracks * mfmTrackSize + c.trailer.length :=
    hsized.bytes_length
  have hpos : 0 < c.sides * c.tracks := Nat.mul_pos c.sides_range.1 c.tracks_range.1
  have hbig : ¬ c.bytes.length ≤ mfmDiskHeaderSize := by
    rw [hlen]
    simp only [mfmTrackSize]
    omega
  have hsides : (BitVec.ofNat 8 c.sides).toNat = c.sides := by
    have hle := c.sides_range.2
    simp only [mfmMaxSides] at hle
    rw [BitVec.toNat_ofNat]
    omega
  have hindices : mfmTrackIndices c.sides c.tracks c.bytes.length =
      List.range (c.layouts.map (MfmTrack.bytesWith MfmSector.oldField)).length := by
    rw [List.length_map, c.layouts_length]
    exact mfmTrackIndices_eq c.sides c.tracks (by rw [hlen]; omega)
  have hinject : ∀ b : List Byte, b.length = mfmTrackSize →
      (mfmInjectTrack flat c.flatSize mfmMaxSectors c.numTracks b).2.length = mfmTrackSize := by
    intro b hb
    rw [mfmInjectTrack, ← hflat, mfmInjectLoop_length, hb]
  have hblocks := foldl_splice_blocks hinject hsized.tracks_length c.header c.trailer
  rw [c.header_length, List.map_map] at hblocks
  have hfile : (c.header ++ (c.layouts.map fun t =>
      (mfmInjectTrack flat c.flatSize mfmMaxSectors c.numTracks
        (t.bytesWith MfmSector.oldField)).2).flatten ++ c.trailer).length ≤ c.bytes.length := by
    have hblock : ∀ b ∈ c.layouts.map fun t =>
        (mfmInjectTrack flat c.flatSize mfmMaxSectors c.numTracks
          (t.bytesWith MfmSector.oldField)).2, b.length = mfmTrackSize := by
      intro b hb
      obtain ⟨t, ht, rfl⟩ := List.mem_map.mp hb
      exact hinject _ (hsized.track_length ht)
    rw [hlen, List.length_append, List.length_append, c.header_length, blocks_length hblock,
      List.length_map, c.layouts_length]
  rw [sedoricSaveMfm, disk, bytes, sedoricLoad_bytesWith hsized]
  simp only [hsides, numTracks_toNat]
  rw [← bytes, if_neg hbig, hindices]
  simp only [mfmRawOffset]
  rw [bytes, bytesWith, hblocks]
  simp only [Function.comp_def]
  rw [bytes, bytesWith] at hfile
  rw [slice, List.drop_zero, List.take_of_length_le hfile]

/-! ## Round trip -/

theorem mem_mfmGeometry {sides tracks : Nat} {id : Nat × Nat × Nat} :
    id ∈ mfmGeometry sides tracks ↔
      id.1 < sides ∧ id.2.1 < tracks ∧ 1 ≤ id.2.2 ∧ id.2.2 ≤ mfmMaxSectors.toNat := by
  obtain ⟨s, t, k⟩ := id
  simp only [mfmGeometry, List.mem_flatMap, List.mem_range, List.mem_map, List.mem_range'_1,
    Prod.mk.injEq]
  constructor
  · rintro ⟨s, hs, t, ht, k, hk, rfl, rfl, rfl⟩
    exact ⟨hs, ht, hk.1, by omega⟩
  · rintro ⟨hs, ht, hk⟩
    exact ⟨s, hs, t, ht, k, by omega, rfl, rfl, rfl⟩

/-- A sector's place is in the image. -/
theorem mfmOffset_lt {sides tracks s t k : Nat} (hs : s < sides) (ht : t < tracks) {n : Nat}
    (hk : k < n) : s * tracks * n + t * n + k < sides * tracks * n := by
  calc s * tracks * n + t * n + k < s * tracks * n + (t + 1) * n := by rw [Nat.succ_mul]; omega
    _ ≤ s * tracks * n + tracks * n :=
      Nat.add_le_add_left (Nat.mul_le_mul_right n ht) _
    _ = (s + 1) * tracks * n := by rw [Nat.succ_mul, Nat.add_mul]
    _ ≤ sides * tracks * n := Nat.mul_le_mul_right n (Nat.mul_le_mul_right tracks hs)

/-- The ID marks name sectors of the geometry. -/
theorem sector_range {t : MfmTrack} (ht : t ∈ c.layouts) {s : MfmSector} (hs : s ∈ t.sectors) :
    s.side.toNat < c.sides ∧ s.track.toNat < c.tracks ∧ 1 ≤ s.sector.toNat ∧
      s.sector.toNat ≤ mfmMaxSectors.toNat :=
  mem_mfmGeometry.mp (c.sectors_perm.mem_iff.mp
    (List.mem_map_of_mem (List.mem_flatMap.mpr ⟨t, ht, hs⟩)))

/-- The scan finds every sector of the container. -/
theorem fits {flat : List Byte} (hflat : flat.length = c.flatSize) {t : MfmTrack}
    (ht : t ∈ c.layouts) {s : MfmSector} (hs : s ∈ t.sectors) :
    s.Fits flat c.flatSize c.numTracks := by
  obtain ⟨hside, htrack, hlo, hhi⟩ := sector_range ht hs
  refine ⟨⟨BitVec.le_def.mpr hlo, BitVec.le_def.mpr hhi⟩, ?_, hflat.symm⟩
  have hplace := mfmOffset_lt hside htrack
    (show s.sector.toNat - 1 < mfmMaxSectors.toNat by omega)
  have hroom := Nat.mul_le_mul_right sedoricSectorSize hplace
  rw [Nat.succ_mul] at hroom
  rw [MfmSector.offset, mfmOffset, numTracks_toNat, flatSize]
  exact hroom

/-- Every byte of the image is in a sector of the container. -/
theorem exists_sector {k : Nat} (hk : k < c.flatSize) :
    ∃ s ∈ c.layouts.flatMap MfmTrack.sectors,
      s.offset c.numTracks ≤ k ∧ k < s.offset c.numTracks + sedoricSectorSize := by
  have hsize : sedoricSectorSize = 256 := rfl
  have hspt : mfmMaxSectors.toNat = 17 := rfl
  have hplace : k / 256 < c.sides * c.tracks * 17 := by
    rw [flatSize, hsize, hspt] at hk
    omega
  have htrack : k / 256 / 17 < c.sides * c.tracks := by omega
  have hmem : (k / 256 / 17 / c.tracks, k / 256 / 17 % c.tracks, k / 256 % 17 + 1) ∈
      mfmGeometry c.sides c.tracks := by
    rw [mem_mfmGeometry, hspt]
    exact ⟨Nat.div_lt_of_lt_mul (by rwa [Nat.mul_comm]), Nat.mod_lt _ c.tracks_range.1,
      Nat.le_add_left 1 _, Nat.mod_lt _ (by omega)⟩
  obtain ⟨s, hs, hid⟩ := List.mem_map.mp (c.sectors_perm.mem_iff.mpr hmem)
  rw [MfmSector.id, Prod.mk.injEq, Prod.mk.injEq] at hid
  obtain ⟨hside, htr, hsec⟩ := hid
  have hdiv : k / 256 / 17 / c.tracks * c.tracks + k / 256 / 17 % c.tracks = k / 256 / 17 := by
    rw [Nat.mul_comm]
    exact Nat.div_add_mod _ _
  have hoffset : s.offset c.numTracks = k / 256 * 256 := by
    rw [MfmSector.offset, mfmOffset, numTracks_toNat, hside, htr, hsec, hspt, hsize, ← Nat.add_mul,
      hdiv]
    omega
  exact ⟨s, hs, by omega, by omega⟩

variable (c) in
/-- The content injected by `sedoricSaveMfm` and loaded by `sedoricLoad` is the same, and the file
is the container with the new data fields: the disk saved is the disk loaded. -/
def RoundTrips (flat : List Byte) : Prop :=
  let file := c.bytesWith (MfmSector.newField c.numTracks flat)
  sedoricSaveMfm (c.disk flat) = some (sedoricLoad file, file) ∧ (sedoricLoad file).data = flat

/-- A quiet content is sized as the fields are. -/
theorem sized_newField {flat : List Byte} (hflat : flat.length = c.flatSize) :
    c.Sized (MfmSector.newField c.numTracks flat) := fun _ ht _ hs =>
    (fits hflat ht hs).newField_length

/-- Tracks of a quiet content are extracted sector after sector. -/
theorem extract_quiet {flat : List Byte} (hflat : flat.length = c.flatSize)
    {layouts : List MfmTrack} (hmem : ∀ t ∈ layouts, t ∈ c.layouts)
    (hquiet : ∀ t ∈ layouts, MfmQuiet c.flatSize c.numTracks flat t.lead t.sectors)
    (acc : Nat × List Byte) :
    (layouts.foldl (fun acc t => mfmExtractTrack c.flatSize mfmMaxSectors c.numTracks
        (t.bytesWith (MfmSector.newField c.numTracks flat)) acc) acc).2 =
      (layouts.flatMap MfmTrack.sectors).foldl
        (fun image s => splice image (s.offset c.numTracks) (s.block c.numTracks flat)) acc.2 := by
  induction layouts generalizing acc with
  | nil => rfl
  | cons t layouts ih =>
    have ht := hmem t (by simp)
    have htrack := (sized_newField hflat).track_length ht
    rw [List.foldl_cons, ih (fun t' h => hmem t' (by simp [h])) fun t' h => hquiet t' (by simp [h]),
      List.flatMap_cons, List.foldl_append]
    rw [MfmTrack.bytesWith] at htrack
    have hextract := mfmExtractLoop_quiet (n := mfmTrackSize - 4) (fun s hs => fits hflat ht hs)
      (hquiet t (by simp)) (by rw [htrack]; rfl) acc
    rw [mfmExtractTrack, MfmTrack.bytesWith, hextract]

/-- A quiet content is loaded. -/
theorem sedoricLoad_quiet {flat : List Byte} (hflat : flat.length = c.flatSize)
    (hquiet : c.Quiet flat) :
    (sedoricLoad (c.bytesWith (MfmSector.newField c.numTracks flat))).data = flat := by
  rw [sedoricLoad_bytesWith (sized_newField hflat)]
  simp only [extract_quiet hflat (fun _ h => h) hquiet, MfmSector.block]
  rw [← List.foldl_map (f := MfmSector.offset c.numTracks)
    (g := fun image off => splice image off (slice flat off sedoricSectorSize))]
  apply foldl_splice_slice
  · intro off hoff
    obtain ⟨s, hs, rfl⟩ := List.mem_map.mp hoff
    obtain ⟨t, ht, hs⟩ := List.mem_flatMap.mp hs
    rw [hflat]
    exact (fits hflat ht hs).offset
  · rw [List.length_replicate, hflat]
  · intro k hk
    right
    obtain ⟨s, hs, hcover⟩ := exists_sector (hflat ▸ hk)
    exact ⟨_, List.mem_map_of_mem hs, hcover⟩

/-- A quiet content is injected. -/
theorem inject_quiet {flat : List Byte} (hflat : flat.length = c.flatSize) (hquiet : c.Quiet flat) :
    (c.layouts.map fun t => (mfmInjectTrack flat c.flatSize mfmMaxSectors c.numTracks
        (t.bytesWith MfmSector.oldField)).2) =
      c.layouts.map (MfmTrack.bytesWith (MfmSector.newField c.numTracks flat)) := by
  apply List.map_congr_left
  intro t ht
  refine mfmInjectLoop_quiet (fun s hs => fits hflat ht hs) (hquiet t ht) ?_ 0
  rw [t.bytes_length]
  rfl

end MfmContainer

/-- Injection and extraction are inverse on quiet contents, and nothing but data fields and CRCs
changes in the file. -/
theorem roundTrip_of_quiet (c : MfmContainer) (flat : List Byte) (hflat : flat.length = c.flatSize)
    (hquiet : c.Quiet flat) : c.RoundTrips flat := by
  have hdata := MfmContainer.sedoricLoad_quiet hflat hquiet
  have hload := MfmContainer.sedoricLoad_bytesWith (MfmContainer.sized_newField hflat)
  have hlength : c.bytes.length =
      (c.bytesWith (MfmSector.newField c.numTracks flat)).length := by
    rw [(MfmContainer.sized_newField hflat).bytes_length, MfmContainer.bytes,
      c.sized_oldField.bytes_length]
  refine ⟨?_, hdata⟩
  rw [hload] at hdata
  simp only at hdata
  rw [MfmContainer.sedoricSaveMfm_disk hflat, MfmContainer.inject_quiet hflat hquiet, hload, hdata,
    MfmContainer.disk, MfmContainer.bytes, MfmContainer.sedoricLoad_bytesWith c.sized_oldField,
    ← MfmContainer.bytes, hlength]
  rfl

/-! ## Contents without sync bytes -/

/-- No ID mark begins in the bytes when `rest` follows them. -/
def NoIdMark (bytes rest : List Byte) : Prop :=
  ∀ i < bytes.length, mfmIsMark 0xFE#8 ((bytes ++ rest).drop i) = false

theorem NoIdMark.append {a b rest : List Byte} (ha : NoIdMark a (b ++ rest))
    (hb : NoIdMark b rest) : NoIdMark (a ++ b) rest := by
  intro i hi
  by_cases hlt : i < a.length
  · rw [List.append_assoc]
    exact ha i hlt
  · obtain ⟨k, rfl⟩ : ∃ k, i = a.length + k := ⟨i - a.length, by omega⟩
    rw [List.append_assoc, ← List.drop_drop, List.drop_left]
    rw [List.length_append] at hi
    exact hb k (by omega)

/-- A mark begins with `$A1`. -/
theorem noIdMark_of_not_mem {bytes : List Byte} (h : 0xA1#8 ∉ bytes) (rest : List Byte) :
    NoIdMark bytes rest := by
  intro i hi
  rw [Bool.eq_false_iff]
  intro hmark
  simp only [mfmIsMark, beq_iff_eq] at hmark
  have hhead : ((bytes ++ rest).drop i)[0]? = some 0xA1#8 := by
    rw [← List.getElem?_take_of_lt (show 0 < 4 by omega), hmark]
    rfl
  rw [List.getElem?_drop, Nat.add_zero, List.getElem?_append_left hi] at hhead
  exact h (List.mem_of_getElem? hhead)

/-- None begins inside an ID mark. -/
theorem noIdMark_idMark (rest : List Byte) : NoIdMark [0xA1#8, 0xA1#8, 0xFE#8] rest := by
  intro i hi
  simp only [List.length_cons, List.length_nil] at hi
  interval_cases i <;> simp [mfmIsMark, mfmMark]

theorem noIdMark_dataMark (rest : List Byte) : NoIdMark (mfmMark 0xFB#8) rest := by
  intro i hi
  simp only [mfmMark, List.length_cons, List.length_nil] at hi
  interval_cases i <;> simp [mfmIsMark, mfmMark]

/-- The scan is quiet before a sector, and after its ID mark. -/
theorem MfmQuiet.cons {flat before tail : List Byte} {flatSize : Nat} {numTracks : Byte}
    {s : MfmSector} {sectors : List MfmSector} (hs : s.Fits flat flatSize numTracks)
    (htail : s.header = 0xA1#8 :: tail)
    (hbefore : NoIdMark before ((s :: sectors).flatMap
      (MfmSector.bytesWith (MfmSector.newField numTracks flat))))
    (h : MfmQuiet flatSize numTracks flat (tail ++ s.newField numTracks flat ++ s.gap) sectors) :
    MfmQuiet flatSize numTracks flat before (s :: sectors) := by
  intro i hi
  rcases Nat.lt_trichotomy i before.length with hlt | rfl | hgt
  · rw [mfmSectorAt, hbefore i hlt] at hi
    simp at hi
  · simp [mfmIdMarks]
  · obtain ⟨k, rfl⟩ : ∃ k, i = before.length + 1 + k := ⟨i - before.length - 1, by omega⟩
    rw [MfmQuiet.drop_after htail] at hi
    rw [mfmIdMarks, MfmQuiet.length_after hs htail, List.mem_cons, mem_mfmIdMarks_add]
    exact .inr (h k hi)

/-- An ID mark in the geometry has no `$A1` after it. -/
theorem MfmContainer.sync_not_mem_id (c : MfmContainer) {t : MfmTrack} (ht : t ∈ c.layouts)
    {s : MfmSector} (hs : s ∈ t.sectors) : 0xA1#8 ∉ [s.track, s.side, s.sector] := by
  obtain ⟨hside, htrack, -, hsector⟩ := sector_range ht hs
  have hsides := c.sides_range.2
  have htracks := c.tracks_range.2
  have hmax : mfmMaxSectors.toNat = 17 := rfl
  simp only [mfmMaxSides, mfmMaxTracks] at hsides htracks
  simp only [List.mem_cons, List.not_mem_nil, or_false, not_or, ← BitVec.toNat_inj,
    BitVec.toNat_ofNat]
  omega

/-- A content is quiet when no `$A1` stands in its fields, nor in the gaps of the container. -/
theorem MfmContainer.quiet_of_no_sync {c : MfmContainer} {flat : List Byte}
    (hflat : flat.length = c.flatSize) (hlead : ∀ t ∈ c.layouts, 0xA1#8 ∉ t.lead)
    (hgaps : ∀ t ∈ c.layouts, ∀ s ∈ t.sectors, 0xA1#8 ∉ s.idRest ∧ 0xA1#8 ∉ s.gap)
    (hfields : ∀ t ∈ c.layouts, ∀ s ∈ t.sectors, 0xA1#8 ∉ s.newField c.numTracks flat) :
    c.Quiet flat := by
  have hloop : ∀ t ∈ c.layouts, ∀ (sectors : List MfmSector) (before : List Byte),
      (∀ s ∈ sectors, s ∈ t.sectors) → (∀ rest, NoIdMark before rest) →
      MfmQuiet c.flatSize c.numTracks flat before sectors := by
    intro t ht sectors
    induction sectors with
    | nil =>
      intro before _ hbefore i hi
      rw [List.flatMap_nil] at hi
      by_cases hlt : i < before.length
      · rw [mfmSectorAt, hbefore [] i hlt] at hi
        simp at hi
      · rw [List.append_nil, List.drop_eq_nil_of_le (by omega)] at hi
        simp [mfmSectorAt, mfmIsMark, mfmMark] at hi
    | cons s sectors ih =>
      intro before hmem hbefore
      have hs := hmem s (by simp)
      obtain ⟨hrest, hgap⟩ := hgaps t ht s hs
      have hids : 0xA1#8 ∉ [s.track, s.side, s.sector] := c.sync_not_mem_id ht hs
      have htail : s.header = 0xA1#8 :: ([0xA1#8, 0xA1#8, 0xFE#8] ++
        [s.track, s.side, s.sector] ++ s.idRest ++ mfmMark 0xFB#8) := rfl
      refine MfmQuiet.cons (fits hflat ht hs) htail (hbefore _)
        (ih _ (fun s' h => hmem s' (by simp [h])) fun rest => ?_)
      refine .append (.append ?_ (noIdMark_of_not_mem (hfields t ht s hs) _))
        (noIdMark_of_not_mem hgap _)
      refine .append (.append (.append ?_ (noIdMark_of_not_mem hids _))
        (noIdMark_of_not_mem hrest _)) (noIdMark_dataMark _)
      exact noIdMark_idMark _
  exact fun t ht => hloop t ht t.sectors t.lead (fun _ h => h) (noIdMark_of_not_mem (hlead t ht))

/-! ## A container -/

/-- A sector of a formatted track: 34 bytes before its data mark, 70 after its CRC. -/
def formattedSector (track side sector : Byte) : MfmSector where
  side
  track
  sector
  idRest := [0x01#8, 0x00#8, 0x00#8] ++ List.replicate 34 0x4E#8
  field := Vector.replicate mfmFieldSize 0xE5#8
  gap := List.replicate 70 0x4E#8
  idRest_length := by decide
  idRest_noMark := by decide
  gap_noMark := by decide

/-- A formatted track. -/
def formattedTrack (track side : Byte) : MfmTrack where
  lead := List.replicate 8 0x4E#8
  sectors := (List.range' 1 17).map fun k => formattedSector track side (BitVec.ofNat 8 k)
  lead_noMark := by decide
  bytes_length := by
    have hsector : ∀ k, (MfmSector.bytesWith MfmSector.oldField
        (formattedSector track side k)).length = 376 := by
      intro k
      rw [MfmSector.bytesWith, List.length_append, List.length_append, MfmSector.oldField_length]
      rfl
    simp [List.length_flatMap, Function.comp_def, hsector, mfmTrackSize]

/-- A formatted disk of one track. -/
def formattedContainer : MfmContainer where
  sides := 1
  tracks := 1
  headerRest := List.replicate 240 0x00#8
  layouts := [formattedTrack 0 0]
  trailer := []
  sides_range := by decide
  tracks_range := by decide
  headerRest_length := List.length_replicate
  layouts_length := rfl
  sectors_perm := by decide
  fsize_lt := by decide

/-- A content whose first sector has the marks of the second in its bytes. -/
def markedContent : List Byte :=
  mfmMark 0xFE#8 ++ [0x00#8, 0x00#8, 0x02#8, 0x01#8, 0x00#8, 0x00#8] ++ mfmMark 0xFB#8 ++
    List.replicate 242 0x00#8 ++ List.replicate 4096 0x55#8

/-- The second sector is written over the first and past its CRC. -/
theorem roundTrip_of_quiet_marked : ¬ formattedContainer.RoundTrips markedContent := by
  intro ⟨hsave, _⟩
  rw [MfmContainer.sedoricSaveMfm_disk (by decide +kernel)] at hsave
  have hfile := congrArg Prod.snd (Option.some.inj hsave)
  have hbyte := congrArg (fun file : List Byte => file[256 + 320]?) hfile
  revert hbyte
  decide +kernel

/-- The CRC of a sector of zeros. -/
theorem mfmCrc16_zeros : mfmCrc16 (mfmMark 0xFB#8 ++ List.replicate 256 0x00#8) = 0xE122#16 := by
  have h64 : (mfmMark 0xFB#8 ++ List.replicate 64 0x00#8).foldl mfmCrc16Byte 0xFFFF#16 =
    0xBF26#16 := by decide +kernel
  have h128 : (List.replicate 64 0x00#8).foldl mfmCrc16Byte 0xBF26#16 = 0x77BE#16 := by
    decide +kernel
  have h192 : (List.replicate 64 0x00#8).foldl mfmCrc16Byte 0x77BE#16 = 0x5CBD#16 := by
    decide +kernel
  have h256 : (List.replicate 64 0x00#8).foldl mfmCrc16Byte 0x5CBD#16 = 0xE122#16 := by
    decide +kernel
  have hsplit : List.replicate 256 0x00#8 = List.replicate 64 0x00#8 ++ (List.replicate 64 0x00#8 ++
      (List.replicate 64 0x00#8 ++ List.replicate 64 0x00#8)) := by
    simp only [List.replicate_append_replicate]
  rw [mfmCrc16, hsplit, ← List.append_assoc, List.foldl_append, h64, List.foldl_append, h128,
    List.foldl_append, h192, h256]

/-- The field of a sector of zeros has no `$A1`. -/
theorem sync_not_mem_zeros : 0xA1#8 ∉ mfmField (List.replicate 256 0x00#8) := by
  rw [mfmField, mfmCrc16_zeros]
  simp only [List.mem_append, List.mem_replicate]
  decide

theorem roundTrip_of_quiet_zeros :
    formattedContainer.RoundTrips (List.replicate 4352 0x00#8) := by
  have hflat : (List.replicate 4352 0x00#8).length = formattedContainer.flatSize :=
    List.length_replicate
  refine roundTrip_of_quiet formattedContainer _ hflat
    (MfmContainer.quiet_of_no_sync hflat (by decide) ?_ fun t ht s hs => ?_)
  · intro t ht s hs
    rw [List.mem_singleton.mp ht] at hs
    obtain ⟨k, -, rfl⟩ := List.mem_map.mp hs
    show 0xA1#8 ∉ [0x01#8, 0x00#8, 0x00#8] ++ List.replicate 34 0x4E#8 ∧
      0xA1#8 ∉ List.replicate 70 0x4E#8
    decide
  · have hblock : s.block formattedContainer.numTracks (List.replicate 4352 0x00#8) =
        List.replicate 256 0x00#8 := by
      have hroom := (MfmContainer.fits hflat ht hs).offset
      rw [← hflat, List.length_replicate] at hroom
      simp only [sedoricSectorSize] at hroom
      rw [MfmSector.block, slice, List.drop_replicate, List.take_replicate]
      congr 1
      simp only [sedoricSectorSize]
      omega
    rw [MfmSector.newField, hblock]
    exact sync_not_mem_zeros

end Phosphoric
