import Phosphoric.Sdimg.Bounds
import Phosphoric.Sdimg.Parents
import Phosphoric.Sdimg.Seek

/-!
# Reading a file in pieces

`loci_sdimg_fread` goes on to the next cluster of the chain when it has used one up and has more to
read. When a call ends there it does not, and the next call reads the cluster that comes next on the
card.

**Theorem (`fopen_reads`).** A file opened on a well-formed volume and read in pieces of any sizes,
past its end too, gives its bytes one after another, as long as no piece but the last ends at the
end of a cluster short of the end of the file.
-/

namespace Phosphoric.Sdimg

open Function (update)
open Store

/-- `loci_sdimg_fopen`. -/
def fopen (v : Volume) (path : List Byte) (img : Image) :
    Option (Except Errno (Fin 16) × Image) :=
  match oldName v img.disk true path with
  | none => none
  | some (.error e) => some (.error e, img)
  | some (.ok e) =>
    match fopenExistingRead v false e.lba e.off img with
    | (none, img) => some (.error (openError v img.disk e.lba e.off), img)
    | (some slot, img) => some (.ok slot, img)

/-- The bytes a program gets from its reads. -/
def bytesRead (v : Volume) (fd : Fin 16) (counts : List Nat) (img : Image) : List Byte :=
  (freads v fd counts img).flatMap fun r => r.getD []

section Open

variable {v : Volume} {d : Disk} {img img' : Image} {path : List Byte} {fd : Fin 16} {e : DirEntry}

/-- A file just opened: the handle is at the first byte. -/
theorem fopen_at (hentry : oldName v img.disk true path = some (.ok e))
    (hopen : fopen v path img = some (.ok fd, img')) {chain : List Nat} (hv : Attached v img.disk)
    (hfile : IsFile v img.disk e.target.cluster e.target.size chain) :
    img'.disk = img.disk ∧ At v chain e.target.size 0 (img'.files fd) := by
  obtain ⟨sec, hsec, hbytes⟩ := oldName_sector hentry
  have hcluster : entryCluster sec e.off = e.target.cluster := by
    rw [DirEntry.target, hbytes]
    simp only [entryCluster, getLe_shift, Nat.zero_add]
  have hsize : getLe sec (e.off + 28) 4 = e.target.size := by
    rw [DirEntry.target, hbytes, getLe_shift]
  rw [fopen, hentry] at hopen
  dsimp only at hopen
  rw [fopenExistingRead, hsec] at hopen
  dsimp only at hopen
  by_cases hdir : sec (e.off + 11) &&& attrDirectory ≠ 0#8
  · rw [if_pos hdir] at hopen
    cases hopen
  · rw [if_neg hdir] at hopen
    cases hslot : allocFile img.files with
    | none =>
      rw [hslot] at hopen
      cases hopen
    | some slot =>
      rw [hslot] at hopen
      cases hopen
      refine ⟨rfl, ?_⟩
      dsimp only
      rw [Function.update_self, hcluster, hsize]
      refine ⟨rfl, rfl, rfl, fun hpos => ?_, fun _ => (Nat.zero_mod _).symm⟩
      have hlen : 0 < chain.length := (Nat.zero_le _).trans_lt (hfile.chain_lt hv hpos)
      have hhead : chain.head? = some chain[0] := by
        rw [List.head?_eq_getElem?, List.getElem?_eq_getElem hlen]
      rw [Nat.zero_div, List.getD_eq_getElem?_getD, List.getElem?_eq_getElem hlen]
      exact (hfile.starts _ hhead).symm

/-- What the reads should give, put together. -/
theorem fileReads_bytes {chain : List Nat} {size : Nat} (counts : List Nat) {k : Nat}
    (hk : k ≤ size) :
    ((fileReads v d chain size counts k).flatMap fun r => r.getD []) =
      fileBytes v d chain k (min counts.sum (size - k)) := by
  induction counts generalizing k with
  | nil => simp [fileReads, fileBytes]
  | cons count counts ih =>
    have hsplit : min (count :: counts).sum (size - k) =
        min count (size - k) + min counts.sum (size - (k + min count (size - k))) := by
      rw [List.sum_cons]
      omega
    rw [fileReads, List.flatMap_cons, ih (by omega), hsplit, fileBytes_add]
    rfl

/-- A size is a number of four bytes. -/
theorem target_size_lt (e : DirEntry) : e.target.size < 2 ^ 32 := getLe_lt e.bytes 28 4

/-- No read of a file fails. -/
theorem fileReads_isSome {chain : List Nat} {size : Nat} (counts : List Nat) (k : Nat) :
    ∀ r ∈ fileReads v d chain size counts k, r.isSome := by
  induction counts generalizing k with
  | nil => simp [fileReads]
  | cons count counts ih =>
    rw [fileReads, List.forall_mem_cons]
    exact ⟨rfl, ih _⟩

/-- **A file opened and read in pieces.** -/
theorem fopen_reads {chain : List Nat} (hv : Attached v img.disk)
    (hentry : oldName v img.disk true path = some (.ok e))
    (hfile : IsFile v img.disk e.target.cluster e.target.size chain)
    (hopen : fopen v path img = some (.ok fd, img')) {counts : List Nat}
    (hinside : ReadsInside v e.target.size counts 0) :
    (∀ r ∈ freads v fd counts img', r.isSome) ∧
      bytesRead v fd counts img' =
        fileBytes v img.disk chain 0 (min counts.sum e.target.size) ∧
      (bytesRead v fd counts img').length = min counts.sum e.target.size := by
  obtain ⟨hdisk, hat⟩ := fopen_at hentry hopen hv hfile
  have hreads : freads v fd counts img' = fileReads v img.disk chain e.target.size counts 0 :=
    hfile.freads hv (target_size_lt e) counts hdisk (Nat.zero_le _) hat hinside
  rw [bytesRead, hreads, fileReads_bytes counts (Nat.zero_le _), Nat.sub_zero]
  exact ⟨fileReads_isSome counts 0, rfl, by rw [fileBytes, List.length_map, List.length_range]⟩

end Open

/-! ## A file of two clusters -/

/-- The entry of a file `A` of 513 bytes, from cluster 3 on. -/
def splitEntry : Nat → Byte
  | 0 => 0x41#8
  | 11 => attrArchive
  | 26 => 0x03#8
  | 28 => 0x01#8
  | 29 => 0x02#8
  | i => if i < 11 then blank else 0#8

/-- A card with that file in clusters 3 and 5: zeros, and `x` for the last byte. -/
def splitBytes (i : Nat) : Byte :=
  if i = 16396 then 0x05#8
  else if 16404 ≤ i ∧ i < 16408 then (if i = 16407 then 0x0F#8 else 0xFF#8)
  else if 540672 ≤ i ∧ i < 540704 then splitEntry (i - 540672)
  else if i = 542208 then 0x78#8
  else sampleDisk.bytes i

theorem splitBytes_past (i : Nat) (hi : sampleDisk.size ≤ i) : splitBytes i = 0#8 := by
  have hlo : 34089472 ≤ i := hi
  unfold splitBytes
  rw [if_neg (by omega), if_neg (by omega), if_neg (by omega), if_neg (by omega)]
  exact sampleDisk.past_end i hi

def splitDisk : Disk where
  bytes := splitBytes
  size := sampleDisk.size
  past_end := splitBytes_past

def splitImage : Image where
  disk := splitDisk
  files := sampleImage.files

/-- The slot of the file. -/
def splitSlot : DirEntry where
  lba := 1056
  off := 0 * 32
  bytes j := clip sampleVolume (fun q => splitDisk.bytes (540672 + q)) (0 * 32 + j)

/-- The file just opened. -/
def splitOpened : Image := (fopenExistingRead sampleVolume false 1056 0 splitImage).2

theorem splitDisk_attached : Attached sampleVolume splitDisk where
  toLaidOut := sampleDisk_laidOut.of_size_le (Nat.le_refl _)
  cluster_bytes := by decide
  sector_max := by decide
  cluster_max := by decide

theorem splitSlot_target : splitSlot.target.cluster = 3 ∧ splitSlot.target.size = 513 := by
  decide

theorem splitDisk_isFile :
    IsFile sampleVolume splitDisk splitSlot.target.cluster splitSlot.target.size [3, 5] := by
  rw [splitSlot_target.1, splitSlot_target.2]
  exact ⟨by decide, by decide, by decide, by decide⟩

theorem split_oldName : oldName sampleVolume splitDisk true [0x41#8] = some (.ok splitSlot) := by
  have hslot : dirEntry sampleVolume splitDisk 2 0 = some splitSlot :=
    firstSector_slot (by decide) (by decide) rfl
  have hfind : findDirEntry sampleVolume splitDisk 2 [0x41#8] = some (some (0, splitSlot)) :=
    findDirEntry_named (by decide) hslot (by decide : _ = Slot.named [0x41#8]) (by decide)
      fun j hj => absurd hj (Nat.not_lt_zero j)
  have hparent : parentOf sampleVolume splitDisk true [] = some (.ok 2) := rfl
  rw [oldName, show splitParent [0x41#8] = some ([], [0x41#8]) by decide]
  dsimp only
  rw [hparent, andThen_ok, hfind]
  rfl

theorem split_fopen :
    fopen sampleVolume [0x41#8] splitImage = some (.ok 0, splitOpened) := by
  rw [fopen, show splitImage.disk = splitDisk from rfl, split_oldName]
  rfl

/-- Pieces that do not end with the first cluster. -/
theorem fopen_reads_split :
    (∀ r ∈ freads sampleVolume 0 [511, 2, 9] splitOpened, r.isSome) ∧
      bytesRead sampleVolume 0 [511, 2, 9] splitOpened =
        fileBytes sampleVolume splitDisk [3, 5] 0 513 ∧
      (bytesRead sampleVolume 0 [511, 2, 9] splitOpened).length = 513 := by
  have hinside : ReadsInside sampleVolume splitSlot.target.size [511, 2, 9] 0 := by
    rw [splitSlot_target.2]
    exact ⟨fun _ => .inr (by decide), fun h => absurd h (by decide), trivial⟩
  have hreads := fopen_reads splitDisk_attached split_oldName splitDisk_isFile split_fopen hinside
  rw [splitSlot_target.2] at hreads
  exact hreads

/-- A piece that does: the byte after it is the first one of cluster 4. -/
theorem fopen_reads_not_split :
    fopen sampleVolume [0x41#8] splitImage = some (.ok 0, splitOpened) ∧
      Attached sampleVolume splitDisk ∧
      oldName sampleVolume splitDisk true [0x41#8] = some (.ok splitSlot) ∧
      IsFile sampleVolume splitDisk splitSlot.target.cluster splitSlot.target.size [3, 5] ∧
      bytesRead sampleVolume 0 [512, 1] splitOpened ≠
        fileBytes sampleVolume splitDisk [3, 5] 0 513 := by
  refine ⟨split_fopen, splitDisk_attached, split_oldName, splitDisk_isFile, fun h => ?_⟩
  have hread : (bytesRead sampleVolume 0 [512, 1] splitOpened).getD 512 0#8 = 0x00#8 := by
    decide +kernel
  have hfile : (fileBytes sampleVolume splitDisk [3, 5] 0 513).getD 512 0#8 = 0x78#8 := by
    decide +kernel
  rw [h, hfile] at hread
  exact absurd hread (by decide)

end Phosphoric.Sdimg
