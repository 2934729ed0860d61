import Phosphoric.Sdimg.Volume
import Phosphoric.Lib.Machine

/-!
# The SD image: files and directories

The upper half of `src/io/loci_sdimg.c`. A step is a call of the interface, or the part of one that
writes: the lookups before it only read, and the step is given what they found, the sector and the
place of a directory entry or the cluster of a directory.

**Theorem (`fats_mirrored`).** On a laid out volume whose FATs are alike, every run keeps them alike
and keeps the top four bits of the entries of FAT32, as long as no step writes a file's or a
directory's sector over a FAT, or extends the chain of a cluster that has no entry.

A handle kept open while its file was truncated leads there: the link of a free cluster is 0, and
the sectors of cluster 0 are those of the last FAT.
-/

namespace Phosphoric.Sdimg

open Function (update)
open Store Machine

/-! ## State -/

/-- `sdimg_handle_t`, of a file. -/
structure Handle where
  used : Bool
  writable : Bool
  firstCluster : Nat
  sizeBytes : Nat
  cursor : Nat
  currentCluster : Nat
  clusterByteOffset : Nat
  dirEntryLba : Nat
  dirEntryOff : Nat

/-- `loci_sdimg_s`, the volume apart. -/
structure Image where
  disk : Disk
  files : Fin 16 → Handle

abbrev attrDirectory : Byte := 0x10#8
abbrev attrArchive : Byte := 0x20#8

variable (v : Volume)

/-! ## Directory entries -/

/-- The first cluster in a directory entry. -/
def entryCluster (sec : Nat → Byte) (off : Nat) : Nat :=
  getLe sec (off + 20) 2 * 2 ^ 16 + getLe sec (off + 26) 2

/-- The first cluster and the size put into a directory entry. -/
def putEntry (sec : Nat → Byte) (off first size : Nat) : Nat → Byte :=
  setLe (setLe (setLe sec (off + 20) 2 (first / 2 ^ 16)) (off + 26) 2 first) (off + 28) 4 size

/-- A sector read, changed and written back. -/
def changeSector (lba : Nat) (change : (Nat → Byte) → Nat → Byte) (d : Disk) : Option Disk :=
  (readSector v d lba).bind fun sec => writeSector v d lba (change sec)

/-- `update_dir_entry`. -/
def updateDirEntry (lba off first size : Nat) (d : Disk) : Option Disk :=
  changeSector v lba (fun sec => putEntry sec off first size) d

/-- `write_new_entry`. -/
def writeNewEntry (lba off : Nat) (name83 : Nat → Byte) (attrib : Byte) (first size : Nat)
    (d : Disk) : Option Disk :=
  changeSector v lba (fun sec =>
    putEntry (update (blit (blit sec off 32 fun _ => 0#8) off 11 name83) (off + 11) attrib) off
      first size) d

/-- `mark_entry_deleted`. -/
def markEntryDeleted (lba off : Nat) (d : Disk) : Option Disk :=
  changeSector v lba (fun sec => update sec off 0xE5#8) d

/-- The name rewritten in place by `loci_sdimg_rename`. -/
def renameEntry (lba off : Nat) (new83 : Nat → Byte) (d : Disk) : Option Disk :=
  changeSector v lba (fun sec => blit sec off 11 new83) d

/-- The zeros written to a new cluster of a directory, `n` sectors from the `i`-th on; nothing more
once a write fails. -/
def zeroSectors (base : Nat) : Nat → Nat → Disk → Disk
  | 0, _, d => d
  | n + 1, i, d =>
    match writeSector v d (u32 (base + i)) fun _ => 0#8 with
    | none => d
    | some d => zeroSectors base n (i + 1) d

/-- `alloc_dir_entry` at a cluster of the directory: the chain is extended at its end. -/
def extendDir (cluster : Nat) (d : Disk) : Disk :=
  if readFatEntry v d cluster = eoc then
    let (newc, d) := extendChain v d cluster
    if newc = 0 then d else zeroSectors v (clusterFirstSector v newc) v.sectorsPerCluster 0 d
  else d

/-- The name of `.`, or of `..`. -/
def dotName (dots : Nat) : Nat → Byte := fun i => if i < dots then 0x2E#8 else 0x20#8

/-- The first sector of a new directory. -/
def dotSector (newc parent : Nat) : Nat → Byte :=
  putEntry (update (blit (putEntry (update (blit (fun _ => 0#8) 0 11 (dotName 1)) 11 attrDirectory)
    0 newc 0) 32 11 (dotName 2)) 43 attrDirectory) 32 parent 0

/-- `loci_sdimg_mkdir` up to the entry in the parent. -/
def makeDir (parent : Nat) (d : Disk) : Disk :=
  let (newc, d) := allocFreeCluster v d 2
  if newc = 0 then d
  else
    let base := clusterFirstSector v newc
    let d := zeroSectors v base v.sectorsPerCluster 0 d
    (writeSector v d base (dotSector newc parent)).getD d

/-! ## Files -/

/-- `alloc_file`. -/
def allocFile (files : Fin 16 → Handle) : Option (Fin 16) :=
  (List.finRange 16).find? fun i => !(files i).used

/-- `fopen_existing_read`, its entry found: the slot. -/
def fopenExistingRead (writable : Bool) (lba off : Nat) (img : Image) : Option (Fin 16) × Image :=
  match readSector v img.disk lba with
  | none => (none, img)
  | some sec =>
    if sec (off + 11) &&& attrDirectory ≠ 0#8 then (none, img)
    else
      match allocFile img.files with
      | none => (none, img)
      | some slot =>
        (some slot, { img with
          files := update img.files slot
            { used := true, writable, firstCluster := entryCluster sec off,
              sizeBytes := getLe sec (off + 28) 4, cursor := 0,
              currentCluster := entryCluster sec off, clusterByteOffset := 0,
              dirEntryLba := lba, dirEntryOff := off } })

/-- `free_cluster_chain`, its result not looked at. -/
def freeClusters (first : Nat) (d : Disk) : Disk :=
  if 2 ≤ first then (freeClusterChain v d first).elim d Prod.snd else d

/-- `loci_sdimg_fopen_ex` for writing, of a file that exists: it is truncated. -/
def fopenWrite (lba off : Nat) (img : Image) : Image :=
  if v.readOnly then img
  else
    match fopenExistingRead v true lba off img with
    | (none, img) => img
    | (some slot, img) =>
      let h := img.files slot
      let d := freeClusters v h.firstCluster img.disk
      { disk := (updateDirEntry v h.dirEntryLba h.dirEntryOff 0 0 d).getD d
        files := update img.files slot
          { h with
            firstCluster := 0, sizeBytes := 0, currentCluster := 0, clusterByteOffset := 0,
            cursor := 0 } }

/-- `create_new_file`, its entry allocated. -/
def createNewFile (lba off : Nat) (name83 : Nat → Byte) (img : Image) : Image :=
  match writeNewEntry v lba off name83 attrArchive 0 0 img.disk with
  | none => img
  | some d =>
    match allocFile img.files with
    | none => { img with disk := d }
    | some slot =>
      { disk := d
        files := update img.files slot
          { used := true, writable := true, firstCluster := 0, sizeBytes := 0, cursor := 0,
            currentCluster := 0, clusterByteOffset := 0, dirEntryLba := lba, dirEntryOff := off } }

/-- The sector a handle is at. -/
def fileSector (h : Handle) : Nat :=
  u32 (clusterFirstSector v h.currentCluster + h.clusterByteOffset / v.bytesPerSector)

/-- The bytes a turn of the loops of `loci_sdimg_fread` and `loci_sdimg_fwrite` is about. -/
def fileChunk (h : Handle) (count : Nat) : Nat :=
  min (v.bytesPerSector - h.clusterByteOffset % v.bytesPerSector) count

def Handle.advance (h : Handle) (chunk : Nat) : Handle :=
  { h with clusterByteOffset := h.clusterByteOffset + chunk, cursor := u32 (h.cursor + chunk) }

/-- The loop of `loci_sdimg_fread`, `count` bytes being left: what is read, `none` on an error, and
the handle. Each turn reads a byte at least, so the fuel, that many turns, is not used up. -/
def freadLoop (d : Disk) : Nat → Nat → Handle → Option (List Byte) × Handle
  | 0, _, h => (some [], h)
  | fuel + 1, count, h =>
    if count = 0 then (some [], h)
    else
      match readSector v d (fileSector v h) with
      | none => (none, h)
      | some sec =>
        let chunk := fileChunk v h count
        let start := h.clusterByteOffset % v.bytesPerSector
        let bytes := (List.range chunk).map fun i => sec (start + i)
        let h := h.advance chunk
        if v.bytesPerCluster ≤ h.clusterByteOffset ∧ chunk < count then
          let next := readFatEntry v d h.currentCluster
          if next = 0 ∨ next = eoc then (some bytes, h)
          else
            let (rest, h) := freadLoop d fuel (count - chunk)
              { h with currentCluster := next, clusterByteOffset := 0 }
            (rest.map (bytes ++ ·), h)
        else
          let (rest, h) := freadLoop d fuel (count - chunk) h
          (rest.map (bytes ++ ·), h)

/-- `loci_sdimg_fread`. -/
def fread (fd : Fin 16) (count : Nat) (img : Image) : Option (List Byte) × Image :=
  let h := img.files fd
  if !h.used then (none, img)
  else if h.sizeBytes ≤ h.cursor then (some [], img)
  else
    let count := min count (h.sizeBytes - h.cursor)
    let (bytes, h) := freadLoop v img.disk count count h
    (bytes, { img with files := update img.files fd h })

/-- A sector with bytes written into it, read and written back. -/
def fwriteSector (data : List Byte) (h : Handle) (d : Disk) : Option Disk :=
  changeSector v (fileSector v h) (fun sec =>
    blit sec (h.clusterByteOffset % v.bytesPerSector) (fileChunk v h data.length)
      fun i => data.getD i 0#8) d

/-- What a turn of the loop of `loci_sdimg_fwrite` comes to: the loop is left, the directory entry
being updated or not, or it goes on. -/
inductive FwriteTurn
  | leave (update : Bool) (d : Disk) (h : Handle)
  | go (d : Disk) (h : Handle) (rest : List Byte)

/-- The handle after a turn's bytes. -/
def Handle.wrote (h : Handle) (chunk : Nat) : Handle :=
  { h.advance chunk with sizeBytes := max h.sizeBytes (h.advance chunk).cursor }

/-- The turn leaves the cluster behind with bytes left to write. -/
def nextNeeded (data : List Byte) (h : Handle) : Prop :=
  v.bytesPerCluster ≤ (h.wrote (fileChunk v h data.length)).clusterByteOffset ∧
    fileChunk v h data.length < data.length

instance (data : List Byte) (h : Handle) : Decidable (nextNeeded v data h) :=
  inferInstanceAs (Decidable (_ ∧ _))

/-- A turn of the loop of `loci_sdimg_fwrite`. A link of 0 is followed like any other. -/
def fwriteTurn (data : List Byte) (h : Handle) (d : Disk) : FwriteTurn :=
  match fwriteSector v data h d with
  | none => .leave false d h
  | some d =>
    let rest := data.drop (fileChunk v h data.length)
    let h' := h.wrote (fileChunk v h data.length)
    if nextNeeded v data h then
      let next := readFatEntry v d h.currentCluster
      if next = eoc then
        let (newc, d) := extendChain v d h.currentCluster
        if newc = 0 then .leave true d h'
        else .go d { h' with currentCluster := newc, clusterByteOffset := 0 } rest
      else .go d { h' with currentCluster := next, clusterByteOffset := 0 } rest
    else .go d h' rest

/-- The loop of `loci_sdimg_fwrite`. Each turn writes a byte at least, so the fuel, the number of
bytes, is not used up. -/
def fwriteLoop : Nat → List Byte → Handle → Disk → Bool × Handle × Disk
  | 0, _, h, d => (true, h, d)
  | fuel + 1, data, h, d =>
    if data = [] then (true, h, d)
    else
      match fwriteTurn v data h d with
      | .leave update d h => (update, h, d)
      | .go d h rest => fwriteLoop fuel rest h d

/-- The first cluster of a file that has none; `none` when there is no room. -/
def fwriteFirst (h : Handle) (d : Disk) : Option Handle × Disk :=
  if h.firstCluster < 2 then
    let (c, d) := allocFreeCluster v d 2
    if c = 0 then (none, d)
    else (some { h with firstCluster := c, currentCluster := c, clusterByteOffset := 0 }, d)
  else (some h, d)

/-- `loci_sdimg_fwrite`. -/
def fwrite (fd : Fin 16) (data : List Byte) (img : Image) : Image :=
  let h := img.files fd
  if !h.used || !h.writable || v.readOnly || data.isEmpty then img
  else
    match fwriteFirst v h img.disk with
    | (none, d) => { img with disk := d }
    | (some h, d) =>
      let (upd, h, d) := fwriteLoop v data.length data h d
      let d :=
        if upd then
          (updateDirEntry v h.dirEntryLba h.dirEntryOff h.firstCluster h.sizeBytes d).getD d
        else d
      { disk := d, files := update img.files fd h }

/-- `loci_sdimg_fclose`. -/
def fclose (fd : Fin 16) (img : Image) : Image :=
  { img with files := update img.files fd { img.files fd with used := false } }

/-- `seek_to_offset`: the cluster. In the last cluster below 4 GiB the position of the next one
wraps to 0, and the walk goes on to the end of the chain. -/
def seekToOffset (d : Disk) (first off : Nat) : Option Nat :=
  if off / v.bytesPerCluster * v.bytesPerCluster + v.bytesPerCluster < 2 ^ 32 then
    walkChain v d (off / v.bytesPerCluster) first
  else none

/-- Where `loci_sdimg_lseek` goes, no further than the end of the file. -/
def seekTarget (h : Handle) (offset : Int) (whence : Byte) : Int :=
  min (offset +
    (if whence = 1#8 then (h.cursor : Int) else if whence = 2#8 then (h.sizeBytes : Int) else 0))
    h.sizeBytes

/-- `loci_sdimg_lseek`. -/
def lseek (fd : Fin 16) (offset : Int) (whence : Byte) (img : Image) : Image :=
  let h := img.files fd
  let target := seekTarget h offset whence
  if !h.used ∨ 2#8 < whence ∨ target < 0 then img
  else if target = 0 then
    { img with
      files := update img.files fd
        { h with currentCluster := h.firstCluster, clusterByteOffset := 0, cursor := 0 } }
  else
    match seekToOffset v img.disk h.firstCluster target.toNat with
    | none => img
    | some c =>
      { img with
        files := update img.files fd
          { h with
            currentCluster := c, clusterByteOffset := target.toNat % v.bytesPerCluster,
            cursor := target.toNat } }

/-- `loci_sdimg_unlink`, its entry found. -/
def unlink (lba off : Nat) (d : Disk) : Disk :=
  match readSector v d lba with
  | none => d
  | some sec =>
    if v.readOnly ∨ sec (off + 11) &&& attrDirectory ≠ 0#8 then d
    else
      let d := freeClusters v (entryCluster sec off) d
      (markEntryDeleted v lba off d).getD d

/-! ## Runs -/

inductive Step
  | fopen (lba off : Nat)
  | fopenWrite (lba off : Nat)
  | create (lba off : Nat) (name83 : Nat → Byte)
  | fclose (fd : Fin 16)
  | fread (fd : Fin 16) (count : Nat)
  | fwrite (fd : Fin 16) (data : List Byte)
  | lseek (fd : Fin 16) (offset : Int) (whence : Byte)
  | unlink (lba off : Nat)
  | extendDir (cluster : Nat)
  | makeDir (parent : Nat)
  | newEntry (lba off : Nat) (name83 : Nat → Byte) (attrib : Byte) (first size : Nat)
  | rename (lba off : Nat) (new83 : Nat → Byte)
  | delete (lba off : Nat)

/-- The image after a part of a call changed the disk. -/
def Image.onDisk (img : Image) (change : Disk → Disk) : Image :=
  { img with disk := change img.disk }

def sdimgStep (img : Image) : Step → Image
  | .fopen lba off => (fopenExistingRead v false lba off img).2
  | .fopenWrite lba off => fopenWrite v lba off img
  | .create lba off name83 => createNewFile v lba off name83 img
  | .fclose fd => fclose fd img
  | .fread fd count => (fread v fd count img).2
  | .fwrite fd data => fwrite v fd data img
  | .lseek fd offset whence => lseek v fd offset whence img
  | .unlink lba off => img.onDisk (unlink v lba off)
  | .extendDir cluster => img.onDisk (extendDir v cluster)
  | .makeDir parent => img.onDisk (makeDir v parent)
  | .newEntry lba off name83 attrib first size =>
    img.onDisk fun d => (writeNewEntry v lba off name83 attrib first size d).getD d
  | .rename lba off new83 => img.onDisk fun d => (renameEntry v lba off new83 d).getD d
  | .delete lba off => img.onDisk fun d => (markEntryDeleted v lba off d).getD d

end Phosphoric.Sdimg
