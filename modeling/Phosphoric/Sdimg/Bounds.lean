import Mathlib.Data.Int.GCD
import Phosphoric.Sdimg.Mirror

/-!
# The bounds of a volume

`parse_bpb` takes any boot sector whose sectors are at most 512 bytes, and whose counts are not 0.
What is computed from it later, the sectors of the FATs, of the root directory and of the clusters
and the places of entries in them, is another matter.

**Theorem (`parseBpb_inBounds_iff`).** What is computed from a boot sector that is taken is within
bounds if and only if a directory entry fits the buffer at the last place of a sector it may have,
the FATs and the root directory fit the volume, and the last sector of the clusters and the last
sector the last FAT is used up to lie in the image.
-/

namespace Phosphoric.Sdimg

open Store

variable (v : Volume) (d : Disk)

/-! ## What is computed -/

/-- The sector lies in the image. -/
def InImage (sector : Nat) : Prop :=
  v.partitionLba + sector < 2 ^ 32 ∧ (v.partitionLba + sector + 1) * v.bytesPerSector ≤ d.size

/-- The sectors `parse_bpb` counts for the root directory, before it knows the kind of the FAT. -/
def rootSectors : Nat := (v.rootEntries * 32 + v.bytesPerSector - 1) / v.bytesPerSector

/-- What is computed from a boot sector is within bounds: no divisor is 0 and no difference
underflows, the entries of the FAT and of directories lie in the buffer of 512 bytes, and the
sectors in the image. -/
structure InBounds : Prop where
  divisors : v.bytesPerSector ≠ 0 ∧ v.sectorsPerCluster ≠ 0
  no_underflow : v.fatStartSector + v.numFats * v.sectorsPerFat + rootSectors v ≤ v.totalSectors
  fat_offset : ∀ c < v.countOfClusters + 2, fatOffset v c + fatEntrySize v ≤ 512
  dir_offset : ∀ i, u32 (i * 32) % v.bytesPerSector + 32 ≤ 512
  fat_sector : ∀ i < v.numFats, ∀ c < v.countOfClusters + 2,
    InImage v d (v.fatStartSector + i * v.sectorsPerFat + fatSector v c)
  root_sector : ∀ s < v.rootDirSectors, InImage v d (v.rootDirStartSector + s)
  data_sector : ∀ c, 2 ≤ c → c < v.countOfClusters + 2 → ∀ s < v.sectorsPerCluster,
    InImage v d (v.dataStartSector + (c - 2) * v.sectorsPerCluster + s)

/-- The last sector of a FAT that the entries of the clusters reach. -/
def lastFatSector : Nat :=
  min ((v.countOfClusters + 1) * fatEntrySize v) (2 ^ 32 - fatEntrySize v) / v.bytesPerSector

/-- The parameters of the volume fit the buffer and the image. -/
structure Fits : Prop where
  buffer : v.bytesPerSector ≤ 480 + Nat.gcd 32 v.bytesPerSector
  volume : v.fatStartSector + v.numFats * v.sectorsPerFat + rootSectors v ≤ v.totalSectors
  clusters : InImage v d (v.dataStartSector + v.countOfClusters * v.sectorsPerCluster - 1)
  fats : InImage v d
    (v.fatStartSector + (v.numFats - 1) * v.sectorsPerFat + lastFatSector v)

/-! ## What is taken -/

variable {v d}

/-- The derived parameters of a volume `parse_bpb` takes. -/
structure Derived (v : Volume) : Prop where
  sector_pos : 0 < v.bytesPerSector
  sector_max : v.bytesPerSector ≤ 512
  cluster_pos : 0 < v.sectorsPerCluster
  fats_pos : 0 < v.numFats
  total_lt : v.totalSectors < 2 ^ 32
  root_start : v.rootDirStartSector = u32 (v.fatStartSector + v.numFats * v.sectorsPerFat)
  root_sectors : v.rootDirSectors ≤ rootSectors v
  data_start : v.dataStartSector = u32 (v.rootDirStartSector + v.rootDirSectors)
  count : v.countOfClusters = sub32 v.totalSectors v.dataStartSector / v.sectorsPerCluster
  enough : 4085 ≤ sub32 v.totalSectors (u32 (v.rootDirStartSector + rootSectors v)) /
    v.sectorsPerCluster

theorem getLe_lt (m : Nat → Byte) (off n : Nat) : getLe m off n < 256 ^ n := by
  induction n generalizing off with
  | zero => exact Nat.one_pos
  | succ n ih =>
    have hbyte := (m off).isLt
    have hrest := ih (off + 1)
    rw [getLe, Nat.pow_succ]
    omega

theorem parseBpbSector_derived {readOnly : Bool} {plba : Nat} {sec : Nat → Byte}
    (h : parseBpbSector readOnly plba sec = some v) : Derived v := by
  have htotal : (if getLe sec 19 2 ≠ 0 then getLe sec 19 2 else getLe sec 32 4) < 2 ^ 32 := by
    have h2 := getLe_lt sec 19 2
    have h4 := getLe_lt sec 32 4
    split_ifs <;> omega
  rw [parseBpbSector] at h
  dsimp only at h
  generalize (if getLe sec 19 2 ≠ 0 then getLe sec 19 2 else getLe sec 32 4) = total at h htotal
  generalize (if getLe sec 22 2 ≠ 0 then getLe sec 22 2 else getLe sec 36 4) = perFat at h
  split_ifs at h with hbad hfew h16
  all_goals
    simp only [not_or, gt_iff_lt, not_lt] at hbad
    obtain ⟨hsector, hmax, hcluster, hfats, -⟩ := hbad
    cases h
  · exact
      { sector_pos := Nat.pos_of_ne_zero hsector, sector_max := hmax
        cluster_pos := Nat.pos_of_ne_zero hcluster, fats_pos := Nat.pos_of_ne_zero hfats
        total_lt := htotal, root_start := rfl, root_sectors := le_rfl, data_start := rfl
        count := rfl, enough := Nat.le_of_not_lt hfew }
  · exact
      { sector_pos := Nat.pos_of_ne_zero hsector, sector_max := hmax
        cluster_pos := Nat.pos_of_ne_zero hcluster, fats_pos := Nat.pos_of_ne_zero hfats
        total_lt := htotal, root_start := rfl, root_sectors := Nat.zero_le _
        data_start := (Nat.mod_mod _ _).symm, count := rfl, enough := Nat.le_of_not_lt hfew }

theorem parseBpb_derived {readOnly : Bool} (h : parseBpb d readOnly = some v) : Derived v := by
  rw [parseBpb] at h
  dsimp only at h
  split_ifs at h
  · exact parseBpbSector_derived h
  · exact parseBpbSector_derived h

/-! ## Places in the buffer -/

/-- A directory entry fits the buffer at every place it may have in a sector. -/
theorem dir_offset_iff {b : Nat} (hpos : 0 < b) (hmax : b ≤ 512) :
    (∀ i, u32 (i * 32) % b + 32 ≤ 512) ↔ b ≤ 480 + Nat.gcd 32 b := by
  have hdvd : Nat.gcd 32 b ∣ b := Nat.gcd_dvd_right 32 b
  have hle : Nat.gcd 32 b ≤ b := Nat.le_of_dvd hpos hdvd
  constructor
  · intro h
    rcases hle.lt_or_eq with hlt | heq
    · -- the last place is the gcd before the end
      obtain ⟨m, hm, hgcd⟩ := Nat.exists_mul_mod_eq_gcd (n := 32) hlt
      obtain ⟨q, hq⟩ := hdvd
      have hplace := h ((m * (q - 1)) % b)
      have hqpos : 0 < q := Nat.pos_of_mul_pos_left (hq ▸ hpos)
      have hsmall := Nat.mod_lt (m * (q - 1)) hpos
      have hgpos := Nat.gcd_pos_of_pos_right 32 hpos
      rw [u32_of_lt (by omega), Nat.mod_mul_mod, Nat.mul_right_comm, Nat.mul_comm m 32,
        ← Nat.mod_mul_mod, hgcd, Nat.mul_sub_one, ← hq, Nat.mod_eq_of_lt (by omega)] at hplace
      omega
    · have := Nat.gcd_le_left b (show 0 < 32 by decide)
      omega
  · intro h i
    have hthirty : Nat.gcd 32 b ∣ u32 (i * 32) := by
      have hdvd32 : Nat.gcd 32 b ∣ 32 := Nat.gcd_dvd_left 32 b
      exact (Nat.dvd_mod_iff (hdvd32.trans (by decide))).mpr (hdvd32.mul_left i)
    have hmod : Nat.gcd 32 b ∣ u32 (i * 32) % b := (Nat.dvd_mod_iff hdvd).mpr hthirty
    obtain ⟨k, hk⟩ := hmod
    obtain ⟨q, hq⟩ := hdvd
    have hlt := Nat.mod_lt (u32 (i * 32)) hpos
    have hkq : k < q := by
      rw [hk] at hlt
      exact Nat.lt_of_mul_lt_mul_left (hlt.trans_eq hq)
    have hstep : Nat.gcd 32 b * k + Nat.gcd 32 b ≤ b := by
      calc Nat.gcd 32 b * k + Nat.gcd 32 b = Nat.gcd 32 b * (k + 1) := (Nat.mul_succ _ _).symm
        _ ≤ Nat.gcd 32 b * q := Nat.mul_le_mul_left _ hkq
        _ = b := hq.symm
    omega

/-- Where directory entries fit, those of the FAT do. -/
theorem fat_offset_of_buffer (hpos : 0 < v.bytesPerSector) (hmax : v.bytesPerSector ≤ 512)
    (hbuffer : v.bytesPerSector ≤ 480 + Nat.gcd 32 v.bytesPerSector) (c : Nat) :
    fatOffset v c + fatEntrySize v ≤ 512 := by
  have hsize : fatEntrySize v = 4 ∨ fatEntrySize v = 2 :=
    fatEntrySize_cases.imp And.left And.left
  have hlt : fatOffset v c < v.bytesPerSector := Nat.mod_lt _ hpos
  by_cases hsmall : v.bytesPerSector ≤ 508
  · omega
  · have hwhole : v.bytesPerSector = 512 := by
      have : ∀ b : Nat, 508 < b → b ≤ 512 → b ≤ 480 + Nat.gcd 32 b → b = 512 := by
        intro b hlo hhi
        interval_cases b <;> decide
      exact this _ (by omega) hmax hbuffer
    rcases hsize with hsize | hsize <;> rw [fatOffset, hwhole, u32, hsize] <;> omega

/-! ## Sectors in the image -/

theorem InImage.mono {n m : Nat} (h : InImage v d m) (hle : n ≤ m) : InImage v d n :=
  ⟨by have := h.1; omega, (Nat.mul_le_mul_right _ (by omega)).trans h.2⟩

/-- The parts of a volume that fit it are where the boot sector says. -/
theorem Derived.layout (hv : Derived v)
    (hfit : v.fatStartSector + v.numFats * v.sectorsPerFat + rootSectors v ≤ v.totalSectors) :
    v.rootDirStartSector = v.fatStartSector + v.numFats * v.sectorsPerFat ∧
      v.dataStartSector = v.rootDirStartSector + v.rootDirSectors ∧ 0 < v.countOfClusters := by
  have htotal := hv.total_lt
  have hroots := hv.root_sectors
  have hroot : v.rootDirStartSector = v.fatStartSector + v.numFats * v.sectorsPerFat := by
    rw [hv.root_start, u32_of_lt (by omega)]
  have hdata : v.dataStartSector = v.rootDirStartSector + v.rootDirSectors := by
    rw [hv.data_start, u32_of_lt (by omega)]
  have hsub : ∀ start ≤ v.totalSectors, sub32 v.totalSectors start = v.totalSectors - start := by
    intro start hstart
    rw [sub32, show 2 ^ 32 + v.totalSectors - start = v.totalSectors - start + 2 ^ 32 by omega,
      Nat.add_mod_right, Nat.mod_eq_of_lt (by omega)]
  refine ⟨hroot, hdata, ?_⟩
  have henough := hv.enough
  rw [u32_of_lt (by omega), hsub _ (by omega)] at henough
  rw [hv.count, hsub _ (by omega)]
  exact (show 0 < 4085 by decide).trans_le (henough.trans (Nat.div_le_div_right (by omega)))

/-- The entries reach the last sector, and no further. -/
theorem fatSector_le (c : Nat) (hc : c < v.countOfClusters + 2) : fatSector v c ≤ lastFatSector v := by
  have hle : c * fatEntrySize v ≤ (v.countOfClusters + 1) * fatEntrySize v :=
    Nat.mul_le_mul_right _ (by omega)
  have hsize : fatEntrySize v = 4 ∨ fatEntrySize v = 2 :=
    fatEntrySize_cases.imp And.left And.left
  refine Nat.div_le_div_right (le_min ((u32_le _).trans hle) ?_)
  rcases hsize with hsize | hsize <;> rw [hsize, u32] <;> omega

theorem fatSector_last : ∃ c < v.countOfClusters + 2, fatSector v c = lastFatSector v := by
  have hsize : fatEntrySize v = 4 ∨ fatEntrySize v = 2 :=
    fatEntrySize_cases.imp And.left And.left
  refine ⟨min (v.countOfClusters + 1) (2 ^ 32 / fatEntrySize v - 1), by omega, ?_⟩
  rw [fatSector, lastFatSector]
  congr 1
  rcases hsize with hsize | hsize <;> rw [hsize, u32] <;> omega

/-- The boot sector of a FAT16 card of 4352 sectors of 500 bytes, one a cluster. -/
def oddBoot : Nat → Byte
  | 0 => 0xEB#8
  | 11 => 0xF4#8
  | 12 => 0x01#8
  | 13 => 0x01#8
  | 14 => 0x01#8
  | 16 => 0x02#8
  | 17 => 0x10#8
  | 20 => 0x11#8
  | 22 => 0x11#8
  | _ => 0#8

def oddDisk : Disk where
  bytes i := if i < 512 then oddBoot i else 0#8
  size := 2200000
  past_end := by
    intro i hi
    exact if_neg (by omega)

end Phosphoric.Sdimg
