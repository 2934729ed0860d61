import Mathlib.Order.Interval.Finset.Nat
import Mathlib.Tactic.Ring
import Phosphoric.Lib.Store

/-!
# The SD image: sectors and the FAT

The lower half of `src/io/loci_sdimg.c`: the image file, its boot sector, the sectors and the
entries of the FATs.

A card is a FAT volume in a file. `parseBpb` takes the parameters of the volume from its boot
sector; `readSector` and `writeSector` reach the file, and nothing else does. The FATs hold one
entry a cluster: 0 when it is free, the next cluster of its chain or the mark of the chain's end.
Entries are read from the first FAT and written to all of them.

**Theorem (`writeFatEntry_spec`).** On a laid out volume writing an entry makes every FAT hold, in
the sector of the entry, what the first one held, with the entry changed.

**Theorem (`freeClusterChain_returns`).** On a laid out volume freeing a chain comes to an end,
whatever the FAT holds: a cluster freed has no successor any more.
-/

namespace Phosphoric.Sdimg

open Store

/-! ## The image -/

/-- The image file. Past its end there is nothing but zeros to come. -/
structure Disk where
  bytes : Nat → Byte
  size : Nat
  past_end : ∀ i, size ≤ i → bytes i = 0#8

/-- `sdimg_fs_t`. -/
inductive Fs
  | fat16 | fat32
  deriving DecidableEq, Repr

/-- The part of `loci_sdimg_s` that is set when the image is attached. -/
structure Volume where
  fsKind : Fs
  readOnly : Bool
  partitionLba : Nat
  bytesPerSector : Nat
  sectorsPerCluster : Nat
  reservedSectors : Nat
  numFats : Nat
  rootEntries : Nat
  totalSectors : Nat
  sectorsPerFat : Nat
  rootCluster : Nat
  fatStartSector : Nat
  rootDirStartSector : Nat
  rootDirSectors : Nat
  dataStartSector : Nat
  bytesPerCluster : Nat
  countOfClusters : Nat
  deriving DecidableEq

/-- A `uint32_t`. -/
def u32 (n : Nat) : Nat := n % 2 ^ 32

/-- `a - b` of `uint32_t`. -/
def sub32 (a b : Nat) : Nat := (2 ^ 32 + a - b) % 2 ^ 32

variable (v : Volume) (d : Disk)

/-! ## Sectors -/

/-- The position of a sector in the file. -/
def sectorPos (lba : Nat) : Nat := u32 (lba + v.partitionLba) * v.bytesPerSector

/-- A buffer with a sector in it. Nothing past the sector is looked at where sectors hold whole
entries. -/
def clip (sec : Nat → Byte) : Nat → Byte := fun i => if i < v.bytesPerSector then sec i else 0#8

/-- The buffer a sector was read into; `none` when the file ends before. -/
def readSector (lba : Nat) : Option (Nat → Byte) :=
  if sectorPos v lba + v.bytesPerSector ≤ d.size then
    some (clip v fun i => d.bytes (sectorPos v lba + i))
  else none

/-- The file after a copy into it. -/
def Disk.blit (pos n : Nat) (data : Nat → Byte) : Disk where
  bytes := Store.blit d.bytes pos n data
  size := max d.size (pos + n)
  past_end := by
    intro i hi
    rw [blit_of_not_mem (by omega)]
    exact d.past_end i (by omega)

@[simp] theorem Disk.blit_bytes (pos n : Nat) (data : Nat → Byte) :
    (d.blit pos n data).bytes = Store.blit d.bytes pos n data := rfl

/-- `none` on a read-only image, before anything is written. -/
def writeSector (lba : Nat) (sec : Nat → Byte) : Option Disk :=
  if v.readOnly then none else some (d.blit (sectorPos v lba) v.bytesPerSector sec)

/-! ## The boot sector -/

/-- `mbr_detect_partition_lba`: the first FAT partition of a master boot record, 0 without one. -/
def mbrDetectPartitionLba (sec0 : Nat → Byte) : Nat :=
  let bps := getLe sec0 11 2
  let plausibleBpb := (sec0 0 = 0xEB#8 ∨ sec0 0 = 0xE9#8) ∧
    (bps = 512 ∨ bps = 1024 ∨ bps = 2048 ∨ bps = 4096)
  if sec0 510 ≠ 0x55#8 ∨ sec0 511 ≠ 0xAA#8 ∨ plausibleBpb then 0
  else
    let partition := (List.range 4).find? fun i =>
      [0x01#8, 0x04#8, 0x06#8, 0x0B#8, 0x0C#8, 0x0E#8, 0x1B#8, 0x1C#8].contains
        (sec0 (446 + i * 16 + 4)) ∧ 0 < getLe sec0 (446 + i * 16 + 8) 4
    partition.elim 0 fun i => getLe sec0 (446 + i * 16 + 8) 4

/-- The parameters in a boot sector; `none` is a volume refused. -/
def parseBpbSector (readOnly : Bool) (partitionLba : Nat) (sec : Nat → Byte) : Option Volume :=
  let bytesPerSector := getLe sec 11 2
  let sectorsPerCluster := (sec 13).toNat
  let reservedSectors := getLe sec 14 2
  let numFats := (sec 16).toNat
  let rootEntries := getLe sec 17 2
  if bytesPerSector = 0 ∨ bytesPerSector > 512 ∨ sectorsPerCluster = 0 ∨ numFats = 0 ∨
      reservedSectors = 0 then none
  else
    let totalSectors := if getLe sec 19 2 ≠ 0 then getLe sec 19 2 else getLe sec 32 4
    let sectorsPerFat := if getLe sec 22 2 ≠ 0 then getLe sec 22 2 else getLe sec 36 4
    let rootDirSectors := (rootEntries * 32 + bytesPerSector - 1) / bytesPerSector
    let rootDirStartSector := u32 (reservedSectors + numFats * sectorsPerFat)
    let dataStartSector := u32 (rootDirStartSector + rootDirSectors)
    let countOfClusters := sub32 totalSectors dataStartSector / sectorsPerCluster
    let fat16 : Volume :=
      { fsKind := .fat16, readOnly, partitionLba, bytesPerSector, sectorsPerCluster,
        reservedSectors, numFats, rootEntries, totalSectors, sectorsPerFat, rootCluster := 0,
        fatStartSector := reservedSectors, rootDirStartSector, rootDirSectors, dataStartSector,
        bytesPerCluster := bytesPerSector * sectorsPerCluster, countOfClusters }
    if countOfClusters < 4085 then none
    else if countOfClusters < 65525 then some fat16
    else
      some { fat16 with
        fsKind := .fat32, rootCluster := getLe sec 44 4, rootDirSectors := 0,
        dataStartSector := rootDirStartSector,
        countOfClusters := sub32 totalSectors rootDirStartSector / sectorsPerCluster }

/-- `parse_bpb`. The first sector is read raw, and again at the partition it may name. -/
def parseBpb (readOnly : Bool) : Option Volume :=
  if d.size < 512 then none
  else
    let plba := mbrDetectPartitionLba d.bytes
    if plba = 0 then parseBpbSector readOnly 0 d.bytes
    else if d.size < plba * 512 + 512 then none
    else parseBpbSector readOnly plba fun i => d.bytes (plba * 512 + i)

/-! ## The entries of the FAT -/

/-- What `read_fat_entry` gives at the end of a chain. -/
abbrev eoc : Nat := 0xFFFFFFFF

/-- The bytes of an entry. -/
def fatEntrySize : Nat := if v.fsKind = .fat32 then 4 else 2

/-- The sector of the first FAT an entry is in, counted from its start. -/
def fatSector (cluster : Nat) : Nat := u32 (cluster * fatEntrySize v) / v.bytesPerSector

/-- The place of an entry in its sector. -/
def fatOffset (cluster : Nat) : Nat := u32 (cluster * fatEntrySize v) % v.bytesPerSector

/-- What an entry says. -/
def fatDecode (entry : Nat) : Nat :=
  if v.fsKind = .fat32 then
    let next := entry % 2 ^ 28
    if next ≥ 0x0FFFFFF8 then eoc else next
  else if entry ≥ 0xFFF8 then eoc
  else entry

/-- `read_fat_entry`: the next cluster, `eoc` at the end, 0 also on error. -/
def readFatEntry (cluster : Nat) : Nat :=
  match readSector v d (u32 (v.fatStartSector + fatSector v cluster)) with
  | none => 0
  | some sec => fatDecode v (getLe sec (fatOffset v cluster) (fatEntrySize v))

def clusterFirstSector (cluster : Nat) : Nat :=
  u32 (v.dataStartSector + sub32 cluster 2 * v.sectorsPerCluster)

/-- A sector of the FAT with one entry changed. The top bits of a FAT32 entry stay. -/
def fatPut (sec : Nat → Byte) (off value : Nat) : Nat → Byte :=
  if v.fsKind = .fat32 then
    setLe sec off 4 (getLe sec off 4 / 2 ^ 28 * 2 ^ 28 + value % 2 ^ 28)
  else setLe sec off 2 value

/-- The sector written to every FAT from the `i`-th on. -/
def writeFats (sec : Nat → Byte) (secRel : Nat) : Nat → Nat → Disk → Option Disk
  | 0, _, d => some d
  | n + 1, i, d =>
    (writeSector v d (u32 (v.fatStartSector + i * v.sectorsPerFat + secRel)) sec).bind
      (writeFats sec secRel n (i + 1))

/-- `write_fat_entry`. -/
def writeFatEntry (cluster value : Nat) : Option Disk :=
  (readSector v d (u32 (v.fatStartSector + fatSector v cluster))).bind fun sec =>
    writeFats v (fatPut v sec (fatOffset v cluster) value) (fatSector v cluster) v.numFats 0 d

/-! ## Chains -/

/-- The first number past the clusters. -/
def clusterEnd : Nat := u32 (2 + v.countOfClusters)

/-- The mark `alloc_free_cluster` puts on the cluster it takes. -/
def eocMark : Nat := if v.fsKind = .fat32 then 0x0FFFFFFF else 0xFFFF

/-- The first free cluster of `n` from `c` on. -/
def findFree (n c : Nat) : Option Nat :=
  (List.range' c n).find? fun c => readFatEntry v d c == 0

/-- `alloc_free_cluster`: 0 when it fails. -/
def allocFreeCluster (startHint : Nat) : Nat × Disk :=
  let start := if startHint < 2 then 2 else startHint
  match (findFree v d (clusterEnd v - start) start).or (findFree v d (start - 2) 2) with
  | none => (0, d)
  | some c =>
    match writeFatEntry v d c (eocMark v) with
    | none => (0, d)
    | some d => (c, d)

/-- The clusters of a chain freed one after another, at most `fuel` of them. -/
def freeChain : Nat → Disk → Nat → Option (Bool × Disk)
  | 0, _, _ => none
  | fuel + 1, d, c =>
    if 2 ≤ c ∧ c < clusterEnd v then
      let next := readFatEntry v d c
      match writeFatEntry v d c 0 with
      | none => some (false, d)
      | some d => if next = eoc ∨ next < 2 then some (true, d) else freeChain fuel d next
    else some (true, d)

/-- `free_cluster_chain`. Each cluster is freed once, so the fuel is not used up. -/
def freeClusterChain (first : Nat) : Option (Bool × Disk) :=
  freeChain v (v.countOfClusters + 2) d first

/-- `extend_chain`: 0 when it fails. -/
def extendChain (last : Nat) : Nat × Disk :=
  let alloc := allocFreeCluster v d (u32 (last + 1))
  if alloc.1 = 0 then (0, alloc.2)
  else
    match writeFatEntry v alloc.2 last alloc.1 with
    | none => (0, alloc.2)
    | some d => (alloc.1, d)

/-- The cluster after one in its chain; a free cluster has none. -/
def nextCluster (cluster : Nat) : Option Nat :=
  let next := readFatEntry v d cluster
  if next = 0 ∨ next = eoc then none else some next

/-- The cluster `k` links on. -/
def walkChain : Nat → Nat → Option Nat
  | 0, c => some c
  | k + 1, c => (nextCluster v d c).bind (walkChain k)

/-! ## The layout -/

/-- A volume whose parts lie one after another in the image. Its sectors hold whole directory
entries and each FAT an entry for every cluster. -/
structure LaidOut : Prop where
  sector_pos : 0 < v.bytesPerSector
  sector_dvd : 32 ∣ v.bytesPerSector
  cluster_pos : 0 < v.sectorsPerCluster
  fats_pos : 0 < v.numFats
  fat_room : (v.countOfClusters + 2) * fatEntrySize v ≤ v.sectorsPerFat * v.bytesPerSector
  entry_max : v.countOfClusters + 2 ≤ if v.fsKind = .fat32 then 0x0FFFFFF8 else 0xFFF8
  root_start : v.rootDirStartSector = v.fatStartSector + v.numFats * v.sectorsPerFat
  data_start : v.dataStartSector = v.rootDirStartSector + v.rootDirSectors
  data_end : v.dataStartSector + v.countOfClusters * v.sectorsPerCluster ≤ v.totalSectors
  numbers : v.partitionLba + v.totalSectors ≤ 2 ^ 32
  in_file : (v.partitionLba + v.totalSectors) * v.bytesPerSector ≤ d.size

theorem u32_of_lt {n : Nat} (h : n < 2 ^ 32) : u32 n = n := Nat.mod_eq_of_lt h

theorem u32_le (n : Nat) : u32 n ≤ n := Nat.mod_le _ _

/-! ## The bytes of a FAT -/

/-- The position of the `i`-th FAT in the file. -/
def fatPos (i : Nat) : Nat :=
  (v.fatStartSector + v.partitionLba + i * v.sectorsPerFat) * v.bytesPerSector

/-- The bytes of a FAT. -/
def fatBytes : Nat := v.sectorsPerFat * v.bytesPerSector

/-- Byte `p` of the `i`-th FAT. -/
def fatByte (i p : Nat) : Byte := d.bytes (fatPos v i + p)

/-- The cluster has an entry in the FAT. -/
def HasEntry (cluster : Nat) : Prop := (cluster + 1) * fatEntrySize v ≤ fatBytes v

/-- The place of a cluster's entry in a FAT. -/
def entryPos (cluster : Nat) : Nat := u32 (cluster * fatEntrySize v)

/-- The number an entry gets when a value is written to it. -/
def newEntry (cluster value : Nat) : Nat :=
  if v.fsKind = .fat32 then
    getLe (fatByte v d 0) (entryPos v cluster) 4 / 2 ^ 28 * 2 ^ 28 + value % 2 ^ 28
  else value

section Layout

variable {v : Volume} {d : Disk}

theorem fatEntrySize_cases : fatEntrySize v = 4 ∧ v.fsKind = .fat32 ∨
    fatEntrySize v = 2 ∧ v.fsKind ≠ .fat32 := by
  by_cases hfs : v.fsKind = .fat32
  · exact .inl ⟨if_pos hfs, hfs⟩
  · exact .inr ⟨if_neg hfs, hfs⟩

/-- The FATs lie one after another. -/
theorem fatPos_succ (i : Nat) : fatPos v (i + 1) = fatPos v i + fatBytes v := by
  rw [fatPos, fatPos, fatBytes, ← Nat.add_mul]
  ring

theorem fatPos_lt {i j : Nat} (h : i < j) : fatPos v i + fatBytes v ≤ fatPos v j := by
  rw [← fatPos_succ]
  exact Nat.mul_le_mul_right _ (Nat.add_le_add_left (Nat.mul_le_mul_right _ h) _)

/-- A byte of a sector. -/
theorem div_eq_iff_sector {n p s : Nat} (h : 0 < n) : p / n = s ↔ s * n ≤ p ∧ p < s * n + n := by
  rw [Nat.div_eq_iff h]
  omega

namespace LaidOut

variable (h : LaidOut v d)
include h

/-- A file that is no shorter is laid out as well. -/
theorem of_size_le {d' : Disk} (hsize : d.size ≤ d'.size) : LaidOut v d' :=
  { h with in_file := Nat.le_trans h.in_file hsize }

theorem hasEntry {c : Nat} (hc : c < v.countOfClusters + 2) : HasEntry v c :=
  (Nat.mul_le_mul_right _ hc).trans h.fat_room

theorem fat_sector_lt {i s : Nat} (hi : i < v.numFats) (hs : s < v.sectorsPerFat) :
    v.fatStartSector + i * v.sectorsPerFat + s < v.totalSectors := by
  have hlast : i * v.sectorsPerFat + v.sectorsPerFat ≤ v.numFats * v.sectorsPerFat := by
    rw [← Nat.succ_mul]
    exact Nat.mul_le_mul_right _ hi
  have := h.root_start
  have := h.data_start
  have := h.data_end
  omega

/-- A sector of a FAT is where its number says. -/
theorem sectorPos_fat {i s : Nat} (hi : i < v.numFats) (hs : s < v.sectorsPerFat) :
    sectorPos v (u32 (v.fatStartSector + i * v.sectorsPerFat + s)) =
      fatPos v i + s * v.bytesPerSector := by
  have hlt := h.fat_sector_lt hi hs
  have hnum := h.numbers
  rw [u32_of_lt (by omega), sectorPos, u32_of_lt (by omega), fatPos, ← Nat.add_mul]
  ring

theorem fat_in_file {i s : Nat} (hi : i < v.numFats) (hs : s < v.sectorsPerFat) :
    fatPos v i + s * v.bytesPerSector + v.bytesPerSector ≤ d.size := by
  have hlt := h.fat_sector_lt hi hs
  calc fatPos v i + s * v.bytesPerSector + v.bytesPerSector
      = (v.fatStartSector + i * v.sectorsPerFat + s + 1 + v.partitionLba) * v.bytesPerSector := by
        rw [fatPos]
        ring
    _ ≤ (v.partitionLba + v.totalSectors) * v.bytesPerSector :=
        Nat.mul_le_mul_right _ (by omega)
    _ ≤ d.size := h.in_file

/-- A sector of a FAT, read. -/
theorem readSector_fat {i s : Nat} (hi : i < v.numFats) (hs : s < v.sectorsPerFat) :
    readSector v d (u32 (v.fatStartSector + i * v.sectorsPerFat + s)) =
      some (clip v fun q => fatByte v d i (s * v.bytesPerSector + q)) := by
  rw [readSector, h.sectorPos_fat hi hs, if_pos (h.fat_in_file hi hs)]
  simp only [fatByte, Nat.add_assoc]

/-- A sector of one FAT replaced. -/
theorem fatByte_blit {i j s p : Nat} (hs : s < v.sectorsPerFat) (hp : p < fatBytes v)
    (sec : Nat → Byte) :
    fatByte v (d.blit (fatPos v i + s * v.bytesPerSector) v.bytesPerSector sec) j p =
      if j = i ∧ p / v.bytesPerSector = s then sec (p % v.bytesPerSector) else fatByte v d j p := by
  have hend : s * v.bytesPerSector + v.bytesPerSector ≤ fatBytes v := by
    rw [← Nat.succ_mul]
    exact Nat.mul_le_mul_right _ hs
  have hsector := div_eq_iff_sector (p := p) (s := s) h.sector_pos
  rw [fatByte, fatByte, Disk.blit_bytes]
  by_cases hji : j = i
  · subst hji
    by_cases hps : p / v.bytesPerSector = s
    · have hin := hsector.mp hps
      have hmod := Nat.div_add_mod' p v.bytesPerSector
      rw [hps] at hmod
      rw [if_pos ⟨rfl, hps⟩, blit_of_mem (by omega)]
      congr 1
      omega
    · rw [if_neg fun hboth => hps hboth.2, blit_of_not_mem]
      intro hin
      exact hps (hsector.mpr (by omega))
  · rw [if_neg fun hboth => hji hboth.1, blit_of_not_mem]
    intro hin
    rcases Nat.lt_or_gt_of_ne hji with hlt | hgt
    · have := fatPos_lt (v := v) hlt
      omega
    · have := fatPos_lt (v := v) hgt
      omega

/-- The loop over the FATs writes the sector to each of them. -/
theorem writeFats_spec (hro : v.readOnly = false) (sec : Nat → Byte) {s : Nat}
    (hs : s < v.sectorsPerFat) (n i : Nat) (hn : i + n ≤ v.numFats) :
    ∃ d', writeFats v sec s n i d = some d' ∧ LaidOut v d' ∧
      ∀ j < v.numFats, ∀ p < fatBytes v, fatByte v d' j p =
        if i ≤ j ∧ j < i + n ∧ p / v.bytesPerSector = s then sec (p % v.bytesPerSector)
        else fatByte v d j p := by
  induction n generalizing d i with
  | zero =>
    refine ⟨d, rfl, h, ?_⟩
    intro j hj p hp
    rw [if_neg (by omega)]
  | succ n ih =>
    have hwrite : writeSector v d (u32 (v.fatStartSector + i * v.sectorsPerFat + s)) sec =
        some (d.blit (fatPos v i + s * v.bytesPerSector) v.bytesPerSector sec) := by
      rw [writeSector, hro, h.sectorPos_fat (by omega) hs]
      rfl
    have hlaid : LaidOut v (d.blit (fatPos v i + s * v.bytesPerSector) v.bytesPerSector sec) :=
      h.of_size_le (Nat.le_max_left _ _)
    obtain ⟨d', hrest, hlaid', hbytes⟩ := ih hlaid (i + 1) (by omega)
    refine ⟨d', by rw [writeFats, hwrite]; exact hrest, hlaid', ?_⟩
    intro j hj p hp
    rw [hbytes j hj p hp, h.fatByte_blit hs hp]
    by_cases hps : p / v.bytesPerSector = s
    · by_cases hji : j = i
      · subst hji
        simp [hps]
      · have hiff : i + 1 ≤ j ∧ j < i + 1 + n ↔ i ≤ j ∧ j < i + (n + 1) := by omega
        simp only [hps, hji, and_true, if_false, hiff]
    · simp [hps]

end LaidOut

end Layout

/-! ## Entries written and read -/

/-- What a FAT holds once the sector of an entry is the first FAT's. -/
def fatBase (cluster j p : Nat) : Byte :=
  if p / v.bytesPerSector = fatSector v cluster then fatByte v d 0 p else fatByte v d j p

section Entries

variable {v : Volume} {d : Disk}

theorem entryPos_eq (c : Nat) :
    entryPos v c = fatSector v c * v.bytesPerSector + fatOffset v c := by
  rw [fatSector, fatOffset, Nat.mul_comm]
  exact (Nat.div_add_mod _ _).symm

/-- The bytes of an entry, in the sector it was read into. -/
theorem getLe_sector {c n : Nat} (hn : fatOffset v c + n ≤ v.bytesPerSector) :
    getLe (clip v fun q => fatByte v d 0 (fatSector v c * v.bytesPerSector + q)) (fatOffset v c) n =
      getLe (fatByte v d 0) (entryPos v c) n := by
  rw [entryPos_eq, ← getLe_shift]
  apply getLe_congr
  intro i hlo hhi
  exact if_pos (by omega)

namespace LaidOut

variable (h : LaidOut v d)
include h

/-- An entry lies in one sector of each FAT. -/
theorem entry_place {c : Nat} (hc : HasEntry v c) :
    entryPos v c + fatEntrySize v ≤ fatBytes v ∧ entryPos v c % fatEntrySize v = 0 ∧
      fatSector v c < v.sectorsPerFat ∧ fatOffset v c + fatEntrySize v ≤ v.bytesPerSector := by
  have hle : entryPos v c ≤ c * fatEntrySize v := u32_le _
  have hsucc : (c + 1) * fatEntrySize v = c * fatEntrySize v + fatEntrySize v := Nat.succ_mul _ _
  have hend : entryPos v c + fatEntrySize v ≤ fatBytes v := by
    rw [HasEntry] at hc
    omega
  have hsector : fatSector v c < v.sectorsPerFat := by
    have hlt : entryPos v c < v.bytesPerSector * v.sectorsPerFat := by
      rw [Nat.mul_comm]
      change entryPos v c < fatBytes v
      rcases fatEntrySize_cases (v := v) with ⟨hsize, -⟩ | ⟨hsize, -⟩ <;> omega
    exact Nat.div_lt_of_lt_mul hlt
  have hoff : fatOffset v c < v.bytesPerSector := Nat.mod_lt _ h.sector_pos
  obtain ⟨k, hk⟩ := h.sector_dvd
  have hpos := entryPos_eq (v := v) c
  have hmul : fatSector v c * v.bytesPerSector = 32 * (fatSector v c * k) := by
    rw [hk]
    ring
  rcases fatEntrySize_cases (v := v) with ⟨hsize, -⟩ | ⟨hsize, -⟩
  · have haligned : entryPos v c % 4 = 0 := by
      rw [entryPos, u32, hsize]
      omega
    rw [hsize] at hend ⊢
    exact ⟨hend, haligned, hsector, by omega⟩
  · have haligned : entryPos v c % 2 = 0 := by
      rw [entryPos, u32, hsize]
      omega
    rw [hsize] at hend ⊢
    exact ⟨hend, haligned, hsector, by omega⟩

theorem readSector_entry {c : Nat} (hc : HasEntry v c) :
    readSector v d (u32 (v.fatStartSector + fatSector v c)) =
      some (clip v fun q => fatByte v d 0 (fatSector v c * v.bytesPerSector + q)) := by
  have hread := h.readSector_fat h.fats_pos (h.entry_place hc).2.2.1
  rwa [Nat.zero_mul, Nat.add_zero] at hread

/-- An entry is read from the first FAT. -/
theorem readFatEntry_eq {c : Nat} (hc : HasEntry v c) :
    readFatEntry v d c = fatDecode v (getLe (fatByte v d 0) (entryPos v c) (fatEntrySize v)) := by
  rw [readFatEntry, h.readSector_entry hc]
  exact congrArg (fatDecode v) (getLe_sector (h.entry_place hc).2.2.2)

/-- The sector with the entry changed, seen from the start of the FAT. -/
theorem fatPut_eq {c p : Nat} (hc : HasEntry v c) (value : Nat)
    (hps : p / v.bytesPerSector = fatSector v c) :
    fatPut v (clip v fun q => fatByte v d 0 (fatSector v c * v.bytesPerSector + q))
        (fatOffset v c) value (p % v.bytesPerSector) =
      setLe (fatByte v d 0) (entryPos v c) (fatEntrySize v) (newEntry v d c value) p := by
  have hplace := (h.entry_place hc).2.2.2
  have hpos := entryPos_eq (v := v) c
  have hmod := Nat.div_add_mod' p v.bytesPerSector
  have hlt : p % v.bytesPerSector < v.bytesPerSector := Nat.mod_lt _ h.sector_pos
  rw [hps] at hmod
  have hput : fatPut v (clip v fun q => fatByte v d 0 (fatSector v c * v.bytesPerSector + q))
      (fatOffset v c) value =
        setLe (clip v fun q => fatByte v d 0 (fatSector v c * v.bytesPerSector + q))
          (fatOffset v c) (fatEntrySize v) (newEntry v d c value) := by
    rcases fatEntrySize_cases (v := v) with ⟨hsize, hfs⟩ | ⟨hsize, hfs⟩
    · rw [hsize] at hplace
      rw [fatPut, if_pos hfs, newEntry, if_pos hfs, hsize, getLe_sector hplace]
    · rw [fatPut, if_neg hfs, newEntry, if_neg hfs, hsize]
  rw [hput]
  by_cases hin : entryPos v c ≤ p ∧ p < entryPos v c + fatEntrySize v
  · have hsame : p % v.bytesPerSector - fatOffset v c = p - entryPos v c := by omega
    rw [setLe, setLe, blit_of_mem (by omega), blit_of_mem hin, hsame]
  · rw [setLe_of_not_mem (by omega), setLe_of_not_mem hin, clip, if_pos hlt, hmod]

/-- An entry written: every FAT has the first one's sector, with the entry changed. -/
theorem writeFatEntry_spec (hro : v.readOnly = false) {c : Nat} (hc : HasEntry v c) (value : Nat) :
    ∃ d', writeFatEntry v d c value = some d' ∧ LaidOut v d' ∧
      ∀ j < v.numFats, ∀ p < fatBytes v, fatByte v d' j p =
        setLe (fatBase v d c j) (entryPos v c) (fatEntrySize v) (newEntry v d c value) p := by
  have hplace := h.entry_place hc
  obtain ⟨d', hwrite, hlaid, hbytes⟩ := h.writeFats_spec hro (fatPut v
    (clip v fun q => fatByte v d 0 (fatSector v c * v.bytesPerSector + q)) (fatOffset v c) value)
    hplace.2.2.1 v.numFats 0 (by omega)
  refine ⟨d', ?_, hlaid, ?_⟩
  · rw [writeFatEntry, h.readSector_entry hc]
    exact hwrite
  intro j hj p hp
  rw [hbytes j hj p hp]
  by_cases hps : p / v.bytesPerSector = fatSector v c
  · rw [if_pos ⟨Nat.zero_le j, by omega, hps⟩, h.fatPut_eq hc value hps]
    by_cases hin : entryPos v c ≤ p ∧ p < entryPos v c + fatEntrySize v
    · rw [setLe, setLe, blit_of_mem hin, blit_of_mem hin]
    · rw [setLe_of_not_mem hin, setLe_of_not_mem hin, fatBase, if_pos hps]
  · have hout : ¬(entryPos v c ≤ p ∧ p < entryPos v c + fatEntrySize v) := by
      intro hin
      have hpos := entryPos_eq (v := v) c
      exact hps ((div_eq_iff_sector h.sector_pos).mpr (by omega))
    rw [if_neg fun hall => hps hall.2.2, setLe_of_not_mem hout, fatBase, if_neg hps]

theorem entryPos_of_lt {c : Nat} (hc : c < v.countOfClusters + 2) :
    entryPos v c = c * fatEntrySize v := by
  have hmax := h.entry_max
  refine u32_of_lt ?_
  rcases fatEntrySize_cases (v := v) with ⟨hsize, hfs⟩ | ⟨hsize, hfs⟩
  · rw [if_pos hfs] at hmax
    rw [hsize]
    omega
  · rw [if_neg hfs] at hmax
    rw [hsize]
    omega

theorem clusterEnd_eq : clusterEnd v = v.countOfClusters + 2 := by
  have hmax := h.entry_max
  rw [clusterEnd, u32_of_lt (by split_ifs at hmax <;> omega), Nat.add_comm]

/-- The entries after one of them was written. -/
theorem readFatEntry_written (hro : v.readOnly = false) {c : Nat} (hc : c < v.countOfClusters + 2)
    (value : Nat) : ∃ d', writeFatEntry v d c value = some d' ∧ LaidOut v d' ∧
      readFatEntry v d' c = fatDecode v (value % 256 ^ fatEntrySize v) ∧
      ∀ c' < v.countOfClusters + 2, c' ≠ c → readFatEntry v d' c' = readFatEntry v d c' := by
  obtain ⟨d', hwrite, hlaid, hbytes⟩ := h.writeFatEntry_spec hro (h.hasEntry hc) value
  have hbase : fatBase v d c 0 = fatByte v d 0 := by
    funext p
    rw [fatBase]
    split_ifs <;> rfl
  have hread : ∀ c' < v.countOfClusters + 2, getLe (fatByte v d' 0) (entryPos v c') (fatEntrySize v)
      = getLe (setLe (fatByte v d 0) (entryPos v c) (fatEntrySize v) (newEntry v d c value))
        (entryPos v c') (fatEntrySize v) := by
    intro c' hc'
    have hplace := (h.entry_place (h.hasEntry hc')).1
    apply getLe_congr
    intro p hlo hhi
    rw [hbytes 0 h.fats_pos p (by omega), hbase]
  refine ⟨d', hwrite, hlaid, ?_, ?_⟩
  · rw [hlaid.readFatEntry_eq (h.hasEntry hc), hread c hc, getLe_setLe]
    rcases fatEntrySize_cases (v := v) with ⟨hsize, hfs⟩ | ⟨hsize, hfs⟩
    · have hlow : newEntry v d c value % 256 ^ 4 % 2 ^ 28 = value % 256 ^ 4 % 2 ^ 28 := by
        rw [newEntry, if_pos hfs]
        omega
      rw [hsize, fatDecode, if_pos hfs, hlow, fatDecode, if_pos hfs]
    · rw [hsize, newEntry, if_neg hfs]
  · intro c' hc' hne
    rw [hlaid.readFatEntry_eq (h.hasEntry hc'), hread c' hc', h.readFatEntry_eq (h.hasEntry hc'),
      getLe_setLe_ne]
    rw [h.entryPos_of_lt hc, h.entryPos_of_lt hc']
    rcases fatEntrySize_cases (v := v) with ⟨hsize, -⟩ | ⟨hsize, -⟩ <;> rw [hsize] <;> omega

/-- An entry freed. -/
theorem readFatEntry_write (hro : v.readOnly = false) {c : Nat} (hc : c < v.countOfClusters + 2) :
    ∃ d', writeFatEntry v d c 0 = some d' ∧ LaidOut v d' ∧ readFatEntry v d' c = 0 ∧
      ∀ c' < v.countOfClusters + 2, c' ≠ c → readFatEntry v d' c' = readFatEntry v d c' := by
  obtain ⟨d', hwrite, hlaid, hread, hothers⟩ := h.readFatEntry_written hro hc 0
  refine ⟨d', hwrite, hlaid, ?_, hothers⟩
  rw [hread, Nat.zero_mod, fatDecode]
  split_ifs
  · rfl
  · omega
  · rfl

end LaidOut

/-! ## Walking a chain -/

theorem walkChain_getElem {chain : List Nat}
    (h : ∀ i (hi : i < chain.length), nextCluster v d chain[i] = chain[i + 1]?) (k : Nat) {i : Nat}
    (hi : i < chain.length) : walkChain v d k chain[i] = chain[i + k]? := by
  induction k generalizing i with
  | zero => exact (List.getElem?_eq_getElem hi).symm
  | succ k ih =>
    rw [walkChain, h i hi]
    rcases Nat.lt_or_ge (i + 1) chain.length with hnext | hlast
    · rw [List.getElem?_eq_getElem hnext, Option.bind_some, ih hnext, Nat.add_right_comm,
        Nat.add_assoc]
    · rw [List.getElem?_eq_none hlast, List.getElem?_eq_none (by omega)]
      rfl

/-! ## Freeing a chain -/

/-- The clusters in use. -/
def usedClusters (v : Volume) (d : Disk) : Finset Nat :=
  (Finset.Ico 2 (v.countOfClusters + 2)).filter fun c => readFatEntry v d c ≠ 0

/-- A cluster freed is used no more. -/
theorem LaidOut.usedClusters_lt (h : LaidOut v d) (hro : v.readOnly = false) {c : Nat} (hlo : 2 ≤ c)
    (hc : c < v.countOfClusters + 2) (hused : readFatEntry v d c ≠ 0) {d' : Disk}
    (hwrite : writeFatEntry v d c 0 = some d') :
    (usedClusters v d').card < (usedClusters v d).card := by
  obtain ⟨d'', hwrite', -, hzero, hothers⟩ := h.readFatEntry_write hro hc
  obtain rfl : d'' = d' := Option.some.inj (hwrite'.symm.trans hwrite)
  apply Finset.card_lt_card
  rw [Finset.ssubset_iff_of_subset]
  · refine ⟨c, by simp [usedClusters, hlo, hc, hused], by simp [usedClusters, hzero]⟩
  · intro c' hmem
    simp only [usedClusters, Finset.mem_filter, Finset.mem_Ico] at hmem ⊢
    have hne : c' ≠ c := by
      rintro rfl
      exact hmem.2 hzero
    rw [← hothers c' hmem.1.2 hne]
    exact hmem

theorem LaidOut.freeChain_returns (h : LaidOut v d) (hro : v.readOnly = false) {fuel : Nat}
    (hfuel : (usedClusters v d).card < fuel) (c : Nat) : (freeChain v fuel d c).isSome := by
  induction fuel generalizing d c with
  | zero => omega
  | succ fuel ih =>
    rw [freeChain]
    by_cases hc : 2 ≤ c ∧ c < clusterEnd v
    · have hend := h.clusterEnd_eq
      obtain ⟨d', hwrite, hlaid, -, -⟩ := h.readFatEntry_write hro (c := c) (by omega)
      rw [if_pos hc, hwrite]
      by_cases hlast : readFatEntry v d c = eoc ∨ readFatEntry v d c < 2
      · simp only [hlast, if_true]
        rfl
      · have hlt := h.usedClusters_lt hro hc.1 (by omega) (by omega) hwrite
        simp only [hlast, if_false]
        exact ih hlaid (by omega) _
    · rw [if_neg hc]
      rfl

/-- Freeing a chain comes to an end, also where the chain runs in a circle. -/
theorem LaidOut.freeClusterChain_returns (h : LaidOut v d) (hro : v.readOnly = false) (c : Nat) :
    (freeClusterChain v d c).isSome := by
  apply h.freeChain_returns hro
  have hcard : (usedClusters v d).card ≤ (Finset.Ico 2 (v.countOfClusters + 2)).card :=
    Finset.card_le_card (Finset.filter_subset _ _)
  rw [Nat.card_Ico] at hcard
  omega

end Entries

end Phosphoric.Sdimg
