import Phosphoric.Sedoric.Mfm

/-!
# The layout of an MFM_DISK container

A container is a header and raw tracks. A raw track is a lead and its sectors one after another,
and a sector is an ID mark, a gap, a data mark, the data field with its CRC, and another gap. The
sectors of all tracks are those of the geometry, each once, in any order.

`bytesWith field` are the bytes with the data fields `field` says, and a content is *quiet* in a
track when the scan of the track with that content takes no place for a sector but the sectors' own
ID marks.
-/

namespace Phosphoric

open Buffer

/-! ## Layouts -/

/-- Neither mark stands in the bytes. -/
def NoMark (bytes : List Byte) : Prop :=
  ∀ i < bytes.length,
    mfmIsMark 0xFE#8 (bytes.drop i) = false ∧ mfmIsMark 0xFB#8 (bytes.drop i) = false

instance (bytes : List Byte) : Decidable (NoMark bytes) :=
  inferInstanceAs (Decidable (∀ i < bytes.length, _ ∧ _))

/-- The length of a data field with its CRC. -/
def mfmFieldSize : Nat := sedoricSectorSize + 2

/-- A sector of a raw track. -/
structure MfmSector where
  side : Byte
  track : Byte
  sector : Byte
  /-- Size code, CRC and the gap before the data mark. -/
  idRest : List Byte
  /-- Data and CRC. -/
  field : Vector Byte mfmFieldSize
  gap : List Byte
  idRest_length : 3 ≤ idRest.length ∧ idRest.length ≤ 52
  idRest_noMark : NoMark idRest
  gap_noMark : NoMark gap

namespace MfmSector

/-- What is before the data field. -/
def header (s : MfmSector) : List Byte :=
  mfmMark 0xFE#8 ++ [s.track, s.side, s.sector] ++ s.idRest ++ mfmMark 0xFB#8

/-- The bytes with a data field. -/
def bytesWith (field : MfmSector → List Byte) (s : MfmSector) : List Byte :=
  s.header ++ field s ++ s.gap

/-- Side, track and sector of the ID mark. -/
def id (s : MfmSector) : Nat × Nat × Nat := (s.side.toNat, s.track.toNat, s.sector.toNat)

/-- Where the data mark is, from the ID mark on. -/
def dataMark (s : MfmSector) : Nat := 7 + s.idRest.length

/-- The field the container has. -/
def oldField (s : MfmSector) : List Byte := s.field.toList

end MfmSector

/-- A raw track. -/
structure MfmTrack where
  lead : List Byte
  sectors : List MfmSector
  lead_noMark : NoMark lead
  bytes_length :
    (lead ++ sectors.flatMap (MfmSector.bytesWith MfmSector.oldField)).length = mfmTrackSize

/-- The bytes of a track with data fields. -/
def MfmTrack.bytesWith (field : MfmSector → List Byte) (t : MfmTrack) : List Byte :=
  t.lead ++ t.sectors.flatMap (MfmSector.bytesWith field)

/-- The (side, track, sector) of a disk. -/
def mfmGeometry (sides tracks : Nat) : List (Nat × Nat × Nat) :=
  (List.range sides).flatMap fun s =>
    (List.range tracks).flatMap fun t => (List.range' 1 mfmMaxSectors.toNat).map fun k => (s, t, k)

/-- An MFM_DISK container. -/
structure MfmContainer where
  sides : Nat
  tracks : Nat
  /-- The header after the geometry. -/
  headerRest : List Byte
  layouts : List MfmTrack
  /-- What follows the tracks. -/
  trailer : List Byte
  sides_range : 0 < sides ∧ sides ≤ mfmMaxSides
  tracks_range : 0 < tracks ∧ tracks ≤ mfmMaxTracks
  headerRest_length : headerRest.length = 240
  layouts_length : layouts.length = sides * tracks
  /-- Every sector of the geometry has one place. -/
  sectors_perm :
    ((layouts.flatMap MfmTrack.sectors).map MfmSector.id).Perm (mfmGeometry sides tracks)
  fsize_lt : mfmDiskHeaderSize + sides * tracks * mfmTrackSize + trailer.length < 2 ^ 32

namespace MfmContainer

/-- The bytes before the tracks. -/
def header (c : MfmContainer) : List Byte :=
  mfmDiskMagic ++ Binary.bytesLe 4 (BitVec.ofNat 32 c.sides) ++
    Binary.bytesLe 4 (BitVec.ofNat 32 c.tracks) ++ c.headerRest

/-- The bytes of the container with data fields. -/
def bytesWith (field : MfmSector → List Byte) (c : MfmContainer) : List Byte :=
  c.header ++ (c.layouts.map (MfmTrack.bytesWith field)).flatten ++ c.trailer

/-- The bytes of the container. -/
def bytes (c : MfmContainer) : List Byte := c.bytesWith MfmSector.oldField

/-- `num_tracks`. -/
def numTracks (c : MfmContainer) : Byte := BitVec.ofNat 8 c.tracks

/-- The size of the flat image. -/
def flatSize (c : MfmContainer) : Nat :=
  c.sides * c.tracks * mfmMaxSectors.toNat * sedoricSectorSize

end MfmContainer

/-! ## Quiet contents -/

/-- A sector's place in the flat image. -/
def MfmSector.offset (numTracks : Byte) (s : MfmSector) : Nat :=
  mfmOffset mfmMaxSectors numTracks s.side s.track s.sector

/-- A sector's bytes in the flat image. -/
def MfmSector.block (numTracks : Byte) (flat : List Byte) (s : MfmSector) : List Byte :=
  slice flat (s.offset numTracks) sedoricSectorSize

/-- The data field of a flat image's sector. -/
def MfmSector.newField (numTracks : Byte) (flat : List Byte) (s : MfmSector) : List Byte :=
  mfmField (s.block numTracks flat)

/-- The places of the ID marks, the first sector at `pos`. -/
def mfmIdMarks : Nat → List MfmSector → List Nat
  | _, [] => []
  | pos, s :: sectors =>
    pos :: mfmIdMarks (pos + (s.header.length + mfmFieldSize + s.gap.length)) sectors

/-- With these sectors after the bytes `before`, nothing but their own ID marks is taken for a
sector. -/
def MfmQuiet (flatSize : Nat) (numTracks : Byte) (flat : List Byte) (before : List Byte)
    (sectors : List MfmSector) : Prop :=
  ∀ i, (mfmSectorAt flatSize mfmMaxSectors numTracks
      ((before ++ sectors.flatMap (MfmSector.bytesWith (MfmSector.newField numTracks flat))).drop
        i)).isSome →
    i ∈ mfmIdMarks before.length sectors

/-- The content is quiet in every track. -/
def MfmContainer.Quiet (c : MfmContainer) (flat : List Byte) : Prop :=
  ∀ t ∈ c.layouts, MfmQuiet c.flatSize c.numTracks flat t.lead t.sectors

/-! ## Marks in a layout -/

/-- A mark depends on four bytes. -/
theorem mfmIsMark_append (b : Byte) {before : List Byte} (h : 4 ≤ before.length)
    (u v : List Byte) : mfmIsMark b (before ++ u) = mfmIsMark b (before ++ v) := by
  simp only [mfmIsMark, List.take_append_of_le_length h]

theorem mfmIsMark_mark (b : Byte) (u : List Byte) : mfmIsMark b (mfmMark b ++ u) = true := by
  simp [mfmIsMark, mfmMark]

/-- The last byte of a mark. -/
theorem mfmIsMark_last {b : Byte} {rest : List Byte} (h : mfmIsMark b rest = true) :
    rest[3]? = some b := by
  simp only [mfmIsMark, beq_iff_eq] at h
  have hget : (rest.take 4)[3]? = some b := by rw [h]; rfl
  rwa [List.getElem?_take_of_lt (by omega)] at hget

/-- No data mark begins in bytes without a mark that a data mark follows. -/
theorem NoMark.before_mark {bytes : List Byte} (h : NoMark bytes) (u : List Byte) {i : Nat}
    (hi : i < bytes.length) : mfmIsMark 0xFB#8 ((bytes ++ mfmMark 0xFB#8 ++ u).drop i) = false := by
  rw [List.append_assoc, List.drop_append_of_le_length (by omega)]
  by_cases hin : 4 ≤ (bytes.drop i).length
  · rw [mfmIsMark_append _ hin _ [], List.append_nil]
    exact (h i hi).2
  -- the fourth byte is one of the three that begin the data mark
  · rw [Bool.eq_false_iff]
    intro hmark
    have hlast := mfmIsMark_last hmark
    simp only [List.length_drop, not_le] at hin
    have hidx : 3 - (bytes.drop i).length < 3 := by rw [List.length_drop]; omega
    rw [List.getElem?_append_right (by rw [List.length_drop]; omega)] at hlast
    generalize 3 - (bytes.drop i).length = k at hlast hidx
    interval_cases k <;> simp [mfmMark] at hlast

theorem MfmSector.header_length (s : MfmSector) : s.header.length = s.dataMark + 4 := by
  simp [header, dataMark, mfmMark]
  omega

/-- The data mark is found after the sector's own ID mark. -/
theorem mfmDataMark_header (s : MfmSector) {u : List Byte} (hu : mfmFieldSize ≤ u.length) :
    mfmDataMark (s.header ++ u) = some s.dataMark := by
  have hlen := s.idRest_length
  have hroom : s.dataMark + 4 + sedoricSectorSize + 2 ≤ (s.header ++ u).length := by
    simp only [List.length_append, s.header_length]
    simp only [mfmFieldSize] at hu
    omega
  have hdrop : ∀ k ≤ s.idRest.length, (s.header ++ u).drop (7 + k) =
      (s.idRest ++ mfmMark 0xFB#8 ++ u).drop k := by
    intro k hk
    rw [← List.drop_drop]
    simp [MfmSector.header, mfmMark]
  rw [mfmDataMark, List.find?_range'_eq_some]
  refine ⟨?_, ?_, fun j h10 hj => ?_⟩
  · rw [Bool.and_eq_true, decide_eq_true_eq, MfmSector.dataMark, hdrop _ le_rfl]
    refine ⟨hroom, ?_⟩
    rw [List.append_assoc, List.drop_left]
    exact mfmIsMark_mark _ _
  · rw [List.mem_range'_1, MfmSector.dataMark]
    omega
  · simp only [MfmSector.dataMark] at hj
    obtain ⟨k, rfl⟩ : ∃ k, j = 7 + k := ⟨j - 7, by omega⟩
    rw [hdrop k (by omega), s.idRest_noMark.before_mark u (by omega), Bool.and_false]
    rfl

/-- The sector is found at its own ID mark. -/
theorem mfmSectorAt_header {flatSize : Nat} {numTracks : Byte} (s : MfmSector)
    (hsector : 1 ≤ s.sector ∧ s.sector ≤ mfmMaxSectors)
    (hoffset : s.offset numTracks + sedoricSectorSize ≤ flatSize) {u : List Byte}
    (hu : mfmFieldSize ≤ u.length) :
    mfmSectorAt flatSize mfmMaxSectors numTracks (s.header ++ u) =
      some (s.offset numTracks, s.dataMark) := by
  have hmark : mfmIsMark 0xFE#8 (s.header ++ u) = true := by
    simp only [MfmSector.header, List.append_assoc]
    exact mfmIsMark_mark _ _
  have hsec : (s.sector < 1 || mfmMaxSectors < s.sector) = false := by
    simp only [Bool.or_eq_false_iff, decide_eq_false_iff_not, BitVec.not_lt]
    exact hsector
  have hfit : (decide (s.offset numTracks > flatSize) ||
      decide (flatSize - s.offset numTracks < sedoricSectorSize)) = false := by
    simp only [Bool.or_eq_false_iff, decide_eq_false_iff_not]
    omega
  have h4 : (s.header ++ u).getD 4 0 = s.track := by simp [MfmSector.header, mfmMark]
  have h5 : (s.header ++ u).getD 5 0 = s.side := by simp [MfmSector.header, mfmMark]
  have h6 : (s.header ++ u).getD 6 0 = s.sector := by simp [MfmSector.header, mfmMark]
  simp only [mfmSectorAt, hmark, h4, h5, h6, hsec, mfmDataMark_header s hu]
  rw [MfmSector.offset] at hfit ⊢
  simp only [hfit]
  rfl

/-! ## What is found before a data mark -/

/-- Two searches agree up to a place where both succeed. -/
theorem find?_range'_agree {p q : Nat → Bool} {m : Nat} (hpq : ∀ j < m, p j = q j)
    (hp : p m = true) (hq : q m = true) {a n : Nat} (ha : a ≤ m) :
    (List.range' a n).find? p = (List.range' a n).find? q := by
  apply Option.ext
  intro i
  have himp : ∀ p q : Nat → Bool, (∀ j < m, p j = q j) → p m = true → q m = true →
      (List.range' a n).find? p = some i → (List.range' a n).find? q = some i := by
    intro p q hpq hp hq h
    rw [List.find?_range'_eq_some] at h ⊢
    obtain ⟨hi, hmem, hfirst⟩ := h
    have hle : i ≤ m := by
      by_contra hgt
      have := hfirst m ha (by omega)
      simp [hp] at this
    refine ⟨?_, hmem, fun j haj hji => ?_⟩
    · rcases Nat.lt_or_eq_of_le hle with hlt | rfl
      · rw [← hpq i hlt, hi]
      · exact hq
    · rw [← hpq j (by omega)]
      exact hfirst j haj hji
  exact ⟨himp p q hpq hp hq, himp q p (fun j hj => (hpq j hj).symm) hq hp⟩

/-- What is found at a place ten bytes or more before a data mark does not depend on what follows
the data mark. -/
theorem mfmSectorAt_agree (flatSize : Nat) (numTracks : Byte) {before u v : List Byte}
    (hbefore : 10 ≤ before.length) (hu : mfmFieldSize ≤ u.length) (huv : u.length = v.length) :
    mfmSectorAt flatSize mfmMaxSectors numTracks (before ++ mfmMark 0xFB#8 ++ u) =
      mfmSectorAt flatSize mfmMaxSectors numTracks (before ++ mfmMark 0xFB#8 ++ v) := by
  have hdata : mfmDataMark (before ++ mfmMark 0xFB#8 ++ u) =
      mfmDataMark (before ++ mfmMark 0xFB#8 ++ v) := by
    have hroom : ∀ w : List Byte, w.length = u.length →
        (before.length + 4 + sedoricSectorSize + 2 ≤ (before ++ mfmMark 0xFB#8 ++ w).length &&
          mfmIsMark 0xFB#8 ((before ++ mfmMark 0xFB#8 ++ w).drop before.length)) = true := by
      intro w hw
      rw [Bool.and_eq_true, decide_eq_true_eq, List.append_assoc, List.drop_left]
      refine ⟨?_, mfmIsMark_mark _ _⟩
      simp only [List.length_append, mfmMark, List.length_cons, List.length_nil, hw]
      simp only [mfmFieldSize] at hu
      omega
    refine find?_range'_agree (fun j hj => ?_) (hroom u rfl) (hroom v huv.symm) hbefore
    congr 1
    · simp only [List.length_append, huv]
    · have hlen : (before ++ mfmMark 0xFB#8).length = before.length + 4 := by simp [mfmMark]
      have hj' : j ≤ (before ++ mfmMark 0xFB#8).length := by omega
      rw [List.drop_append_of_le_length hj', List.drop_append_of_le_length hj']
      exact mfmIsMark_append _ (by rw [List.length_drop]; omega) u v
  have hget : ∀ k < 10, (before ++ mfmMark 0xFB#8 ++ u).getD k 0 =
      (before ++ mfmMark 0xFB#8 ++ v).getD k 0 := by
    intro k hk
    simp only [List.getD_eq_getElem?_getD, List.append_assoc,
      List.getElem?_append_left (by omega : k < before.length)]
  have hid : mfmIsMark 0xFE#8 (before ++ mfmMark 0xFB#8 ++ u) =
      mfmIsMark 0xFE#8 (before ++ mfmMark 0xFB#8 ++ v) := by
    simp only [List.append_assoc]
    exact mfmIsMark_append _ (by omega) _ _
  simp only [mfmSectorAt, hid, hdata, hget 4 (by omega), hget 5 (by omega), hget 6 (by omega)]

end Phosphoric
