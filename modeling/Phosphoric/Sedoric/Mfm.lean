import Phosphoric.Lib.Binary
import Phosphoric.Lib.Splice

/-!
# Sectors of an MFM_DISK image

Model of `mfm_extract_track`, `mfm_inject_track`, `sedoric_load` and `sedoric_save_mfm`. A raw track
is scanned byte after byte for ID marks (`$A1 $A1 $A1 $FE`, track, side, sector), and after each of
them for a data mark (`$A1 $A1 $A1 $FB`) 10 to 59 bytes on. A scan does not leave out the data field
it has just copied: it goes on with the next byte of the track.

The rest of a track is a list. Bytes read past the end of the track decide nothing, since no data
field fits there. The host file system is taken to read and write without fault.
-/

namespace Phosphoric

open Buffer

/-- `SEDORIC_SECTOR_SIZE`. -/
def sedoricSectorSize : Nat := 256

/-- `SEDORIC_TRACKS`. -/
def sedoricTracks : Byte := 42

/-- `SEDORIC_SECTORS`. -/
def sedoricSectors : Byte := 17

/-- `SEDORIC_SIDES`. -/
def sedoricSides : Byte := 1

/-- `MFM_DISK_HEADER_SIZE`. -/
def mfmDiskHeaderSize : Nat := 256

/-- `MFM_TRACK_SIZE`. -/
def mfmTrackSize : Nat := 6400

/-- `MFM_MAX_TRACKS`. -/
def mfmMaxTracks : Nat := 82

/-- `MFM_MAX_SIDES`. -/
def mfmMaxSides : Nat := 2

/-- `MFM_MAX_SECTORS`. -/
def mfmMaxSectors : Byte := 17

/-! ## Marks -/

/-- The bytes `$A1 $A1 $A1 b`. -/
def mfmMark (b : Byte) : List Byte := [0xA1#8, 0xA1#8, 0xA1#8, b]

/-- The track goes on with the mark. -/
def mfmIsMark (b : Byte) (rest : List Byte) : Bool := rest.take 4 == mfmMark b

/-- Where the data mark is, from the ID mark on: mark, data and CRC must fit in the track. -/
def mfmDataMark (rest : List Byte) : Option Nat :=
  (List.range' 10 50).find? fun j =>
    j + 4 + sedoricSectorSize + 2 ≤ rest.length && mfmIsMark 0xFB#8 (rest.drop j)

/-- The offset of a sector in the flat image. The product stays below 2³² for any bytes. -/
def mfmOffset (sectorsPerTrack numTracks idSide idTrack idSector : Byte) : Nat :=
  (idSide.toNat * numTracks.toNat * sectorsPerTrack.toNat + idTrack.toNat * sectorsPerTrack.toNat +
    (idSector.toNat - 1)) * sedoricSectorSize

/-- The sector whose ID mark the rest of the track begins with, if it is taken for one: its offset
in the flat image and the place of its data mark. -/
def mfmSectorAt (flatSize : Nat) (sectorsPerTrack numTracks : Byte) (rest : List Byte) :
    Option (Nat × Nat) :=
  if mfmIsMark 0xFE#8 rest then
    let idTrack := rest.getD 4 0
    let idSide := rest.getD 5 0
    let idSector := rest.getD 6 0
    if idSector < 1 || sectorsPerTrack < idSector then none
    else
      match mfmDataMark rest with
      | none => none
      | some j =>
        let offset := mfmOffset sectorsPerTrack numTracks idSide idTrack idSector
        -- track and side come from the file: a sector outside the image is skipped
        if offset > flatSize || flatSize - offset < sedoricSectorSize then none
        else some (offset, j)
  else none

/-! ## Extraction -/

/-- The loop of `mfm_extract_track` over the next `n` bytes of a track, with the sectors found and
the flat image so far. -/
def mfmExtractLoop (flatSize : Nat) (sectorsPerTrack numTracks : Byte) :
    Nat → List Byte → Nat × List Byte → Nat × List Byte
  | 0, _, acc => acc
  | _ + 1, [], acc => acc
  | n + 1, b :: rest, (found, flat) =>
    mfmExtractLoop flatSize sectorsPerTrack numTracks n rest <|
      match mfmSectorAt flatSize sectorsPerTrack numTracks (b :: rest) with
      | none => (found, flat)
      | some (offset, j) =>
        (found + 1, splice flat offset (slice (b :: rest) (j + 4) sedoricSectorSize))

/-- `mfm_extract_track`, adding to the sectors found. -/
def mfmExtractTrack (flatSize : Nat) (sectorsPerTrack numTracks : Byte) (track : List Byte) :
    Nat × List Byte → Nat × List Byte :=
  mfmExtractLoop flatSize sectorsPerTrack numTracks (mfmTrackSize - 4) track

/-! ## Injection -/

/-- One bit of `mfm_crc16`. -/
def mfmCrc16Bit (crc : Word) : Word :=
  if crc &&& 0x8000#16 ≠ 0 then (crc <<< 1) ^^^ 0x1021#16 else crc <<< 1

/-- One byte of `mfm_crc16`. -/
def mfmCrc16Byte (crc : Word) (b : Byte) : Word :=
  Nat.repeat mfmCrc16Bit 8 (crc ^^^ ((b.setWidth 16 : Word) <<< 8))

/-- `mfm_crc16`: CRC-16/CCITT of the bytes. -/
def mfmCrc16 (data : List Byte) : Word := data.foldl mfmCrc16Byte 0xFFFF#16

/-- A data field: the sector's bytes and the CRC over mark and bytes. -/
def mfmField (block : List Byte) : List Byte :=
  let crc := mfmCrc16 (mfmMark 0xFB#8 ++ block)
  block ++ [crc.hi, crc.lo]

/-- The loop of `mfm_inject_track` over the next `n` bytes of a track, with the sectors written so
far. A byte passed over stays as it is. -/
def mfmInjectLoop (flat : List Byte) (flatSize : Nat) (sectorsPerTrack numTracks : Byte) :
    Nat → List Byte → Nat → Nat × List Byte
  | 0, track, written => (written, track)
  | _ + 1, [], written => (written, [])
  | n + 1, b :: rest, written =>
    match mfmSectorAt flatSize sectorsPerTrack numTracks (b :: rest) with
    | none =>
      let after := mfmInjectLoop flat flatSize sectorsPerTrack numTracks n rest written
      (after.1, b :: after.2)
    | some (offset, j) =>
      -- the field lies past the byte looked at, which the copy leaves alone
      let rest := splice rest (j + 3) (mfmField (slice flat offset sedoricSectorSize))
      let after := mfmInjectLoop flat flatSize sectorsPerTrack numTracks n rest (written + 1)
      (after.1, b :: after.2)

/-- `mfm_inject_track`: the sectors written and the track. -/
def mfmInjectTrack (flat : List Byte) (flatSize : Nat) (sectorsPerTrack numTracks : Byte)
    (track : List Byte) : Nat × List Byte :=
  mfmInjectLoop flat flatSize sectorsPerTrack numTracks (mfmTrackSize - 4) track 0

/-! ## Files -/

/-- `sedoric_disk_t`. -/
structure SedoricDisk where
  data : List Byte
  size : Nat
  tracks : Byte
  sectors : Byte
  sides : Byte
  modified : Bool
  isMfm : Bool
  /-- The container kept for writing back, none of a raw image. -/
  mfmRaw : Option (List Byte)
  mfmRawSize : Nat
  deriving DecidableEq

/-- Where a track is in the container. -/
def mfmRawOffset (trackIdx : Nat) : Nat := mfmDiskHeaderSize + trackIdx * mfmTrackSize

/-- The tracks visited, side by side; the first of a side that is not in the file ends the side. -/
def mfmTrackIndices (sides tracks fsize : Nat) : List Nat :=
  (List.range sides).flatMap fun s =>
    ((List.range tracks).map fun t => s * tracks + t).takeWhile fun trackIdx =>
      mfmRawOffset trackIdx + mfmTrackSize ≤ fsize

/-- The text `MFM_DISK`. -/
def mfmDiskMagic : List Byte :=
  [0x4D#8, 0x46#8, 0x4D#8, 0x5F#8, 0x44#8, 0x49#8, 0x53#8, 0x4B#8]

/-- A little-endian `uint32_t`. -/
def sedoricU32 (raw : List Byte) (off : Nat) : Nat := Binary.natLe (slice raw off 4)

/-- The MFM_DISK branch of `sedoric_load`. -/
def sedoricLoadMfm (raw : List Byte) : SedoricDisk :=
  let sides := min (sedoricU32 raw 8) mfmMaxSides
  let tracks := min (sedoricU32 raw 12) mfmMaxTracks
  let flatSize := sides * tracks * mfmMaxSectors.toNat * sedoricSectorSize
  let extracted :=
    (mfmTrackIndices sides tracks (raw.length % 2 ^ 32)).foldl (fun acc trackIdx =>
        mfmExtractTrack flatSize mfmMaxSectors (BitVec.ofNat 8 tracks)
          (slice raw (mfmRawOffset trackIdx) mfmTrackSize) acc)
      (0, List.replicate flatSize 0)
  { data := extracted.2
    size := flatSize
    tracks := BitVec.ofNat 8 tracks
    sectors := mfmMaxSectors
    sides := BitVec.ofNat 8 sides
    modified := false
    isMfm := true
    mfmRaw := some raw
    mfmRawSize := raw.length % 2 ^ 32 }

/-- The raw branch of `sedoric_load`: the geometry is inferred from the size. -/
def sedoricLoadRaw (raw : List Byte) : SedoricDisk :=
  let fsize := raw.length % 2 ^ 32
  let trackBytes := sedoricSectors.toNat * sedoricSectorSize
  let totalTracks := if 0 < raw.length ∧ fsize % trackBytes = 0 then fsize / trackBytes else 0
  let geometry : Byte × Byte :=
    if sedoricTracks.toNat < totalTracks ∧ totalTracks % 2 = 0 then
      (2, BitVec.ofNat 8 (totalTracks / 2))
    else if 0 < totalTracks then (1, BitVec.ofNat 8 totalTracks)
    else (sedoricSides, sedoricTracks)
  { data := raw
    size := fsize
    tracks := geometry.2
    sectors := sedoricSectors
    sides := geometry.1
    modified := false
    isMfm := false
    mfmRaw := none
    mfmRawSize := 0 }

/-- `sedoric_load` of a file's bytes. -/
def sedoricLoad (raw : List Byte) : SedoricDisk :=
  if mfmDiskHeaderSize < raw.length ∧ slice raw 0 8 = mfmDiskMagic then sedoricLoadMfm raw
  else sedoricLoadRaw raw

/-- `sedoric_save_mfm`: the disk after it and the bytes of the file, none when it fails. -/
def sedoricSaveMfm (disk : SedoricDisk) : Option (SedoricDisk × List Byte) :=
  match disk.mfmRaw with
  | none => none
  | some raw =>
    if disk.mfmRawSize ≤ mfmDiskHeaderSize then none
    else
      let raw :=
        (mfmTrackIndices disk.sides.toNat disk.tracks.toNat disk.mfmRawSize).foldl
          (fun raw trackIdx =>
            splice raw (mfmRawOffset trackIdx)
              (mfmInjectTrack disk.data disk.size disk.sectors disk.tracks
                (slice raw (mfmRawOffset trackIdx) mfmTrackSize)).2) raw
      some ({ disk with mfmRaw := some raw, modified := false }, slice raw 0 disk.mfmRawSize)

end Phosphoric
