import Phosphoric.Sdimg.Files

/-!
# The copies of the FAT

What `include/io/loci_sdimg.h` promises: the caller never sees an inconsistent mirror state.

**Theorem (`fats_mirrored`).** On a laid out volume whose FATs are alike, every run keeps them alike
and keeps the top four bits of the entries of FAT32, as long as no step writes a file's or a
directory's sector over a FAT, or extends a chain at a number that is no cluster's.

A handle kept open while its file was truncated leads there: the link of a free cluster is 0, and
the sectors of cluster 0 are those of the last FAT.
-/

namespace Phosphoric.Sdimg

open Function (update)
open Store Machine

/-! ## The invariant -/

/-- The FATs hold the same bytes. -/
def FatsAlike (v : Volume) (d : Disk) : Prop :=
  ∀ i < v.numFats, ∀ p < fatBytes v, fatByte v d i p = fatByte v d 0 p

/-- The top four bits of an entry of FAT32. -/
def reservedBits (v : Volume) (d : Disk) (i c : Nat) : Byte := fatByte v d i (4 * c + 3) >>> 4

/-- The top four bits of the entries of FAT32 are what they were. -/
def ReservedKept (v : Volume) (d₀ d : Disk) : Prop :=
  v.fsKind = .fat32 → ∀ i < v.numFats, ∀ c, 4 * c + 3 < fatBytes v →
    reservedBits v d i c = reservedBits v d₀ i c

/-- The sector is in no FAT. -/
def OutsideFats (v : Volume) (lba : Nat) : Prop :=
  u32 (lba + v.partitionLba) < v.fatStartSector + v.partitionLba ∨
    v.fatStartSector + v.partitionLba + v.numFats * v.sectorsPerFat ≤ u32 (lba + v.partitionLba)

/-- A sector of the root directory or of the clusters. -/
def DataSector (v : Volume) (lba : Nat) : Prop :=
  v.rootDirStartSector ≤ lba ∧ lba < v.totalSectors

structure Mirrored (v : Volume) (d₀ d : Disk) : Prop where
  laid : LaidOut v d
  alike : FatsAlike v d
  reserved : ReservedKept v d₀ d

section Steps

variable {v : Volume} {d₀ d d' : Disk}

theorem fatByte_outside {lba : Nat} (hout : OutsideFats v lba) {j p : Nat} (hj : j < v.numFats)
    (hp : p < fatBytes v) (sec : Nat → Byte) :
    fatByte v (d.blit (sectorPos v lba) v.bytesPerSector sec) j p = fatByte v d j p := by
  have hstart : (v.fatStartSector + v.partitionLba) * v.bytesPerSector ≤ fatPos v j :=
    Nat.mul_le_mul_right _ (by omega)
  have hend : fatPos v j + fatBytes v ≤
      (v.fatStartSector + v.partitionLba + v.numFats * v.sectorsPerFat) * v.bytesPerSector :=
    fatPos_lt hj
  rw [fatByte, fatByte, Disk.blit_bytes, blit_of_not_mem]
  rintro ⟨hlo, hhi⟩
  rw [sectorPos] at hlo hhi
  rcases hout with hbefore | hafter
  · have hle := Nat.mul_le_mul_right v.bytesPerSector (Nat.succ_le_of_lt hbefore)
    rw [Nat.succ_mul] at hle
    omega
  · have hle := Nat.mul_le_mul_right v.bytesPerSector hafter
    omega

theorem Mirrored.writeSector (h : Mirrored v d₀ d) {lba : Nat} (hout : OutsideFats v lba)
    {sec : Nat → Byte} (hwrite : writeSector v d lba sec = some d') : Mirrored v d₀ d' := by
  rw [Sdimg.writeSector] at hwrite
  split_ifs at hwrite
  cases hwrite
  refine ⟨h.laid.of_size_le (Nat.le_max_left _ _), ?_, ?_⟩
  · intro i hi p hp
    rw [fatByte_outside hout hi hp, fatByte_outside hout h.laid.fats_pos hp]
    exact h.alike i hi p hp
  · intro hfs i hi c hc
    rw [reservedBits, fatByte_outside hout hi hc]
    exact h.reserved hfs i hi c hc

theorem Mirrored.changeSector (h : Mirrored v d₀ d) {lba : Nat} (hout : OutsideFats v lba)
    (change : (Nat → Byte) → Nat → Byte) :
    Mirrored v d₀ ((changeSector v lba change d).getD d) := by
  rw [Sdimg.changeSector]
  cases hread : readSector v d lba with
  | none => exact h
  | some sec =>
    rw [Option.bind_some]
    cases hwrite : Sdimg.writeSector v d lba (change sec) with
    | none => exact h
    | some d' => exact h.writeSector hout hwrite

/-! ## Sectors past the FATs -/

namespace LaidOut

variable (h : LaidOut v d)
include h

/-- Where a sector past the FATs is. -/
theorem sectorPos_of_data {lba : Nat} (hlba : DataSector v lba) :
    sectorPos v lba = (lba + v.partitionLba) * v.bytesPerSector := by
  have hnum := h.numbers
  have hlt := hlba.2
  rw [sectorPos, u32_of_lt (by omega)]

theorem outsideFats {lba : Nat} (hlba : DataSector v lba) : OutsideFats v lba := by
  have hnum := h.numbers
  have hroot := h.root_start
  obtain ⟨hlo, hhi⟩ := hlba
  rw [OutsideFats, u32_of_lt (by omega)]
  omega

theorem readSector_of_data {lba : Nat} (hlba : DataSector v lba) :
    readSector v d lba =
      some (clip v fun i => d.bytes ((lba + v.partitionLba) * v.bytesPerSector + i)) := by
  have hin : (lba + v.partitionLba) * v.bytesPerSector + v.bytesPerSector ≤ d.size := by
    rw [← Nat.succ_mul]
    exact (Nat.mul_le_mul_right _ (by have := hlba.2; omega)).trans h.in_file
  rw [readSector, h.sectorPos_of_data hlba, if_pos hin]

/-- A sector of a cluster. -/
theorem clusterSector {c s : Nat} (hlo : 2 ≤ c) (hc : c < v.countOfClusters + 2)
    (hs : s < v.sectorsPerCluster) :
    u32 (clusterFirstSector v c + s) = v.dataStartSector + (c - 2) * v.sectorsPerCluster + s ∧
      DataSector v (v.dataStartSector + (c - 2) * v.sectorsPerCluster + s) := by
  have hdata := h.data_start
  have hend := h.data_end
  have hnum := h.numbers
  have hcount : v.countOfClusters ≤ v.countOfClusters * v.sectorsPerCluster :=
    Nat.le_mul_of_pos_right _ h.cluster_pos
  have hlast : (c - 2) * v.sectorsPerCluster + v.sectorsPerCluster ≤
      v.countOfClusters * v.sectorsPerCluster := by
    rw [← Nat.succ_mul]
    exact Nat.mul_le_mul_right _ (by omega)
  have hsub : sub32 c 2 = c - 2 := by
    rw [sub32, show 2 ^ 32 + c - 2 = c - 2 + 2 ^ 32 by omega, Nat.add_mod_right,
      Nat.mod_eq_of_lt (by omega)]
  have hfirst : clusterFirstSector v c = v.dataStartSector + (c - 2) * v.sectorsPerCluster := by
    rw [clusterFirstSector, hsub, u32_of_lt (by omega)]
  rw [hfirst, u32_of_lt (by omega)]
  exact ⟨rfl, by omega, by omega⟩

/-- The sectors of the clusters lie past the FATs. -/
theorem outside_data {c s : Nat} (hlo : 2 ≤ c) (hc : c < v.countOfClusters + 2)
    (hs : s < v.sectorsPerCluster) : OutsideFats v (u32 (clusterFirstSector v c + s)) := by
  obtain ⟨hlba, hdata⟩ := h.clusterSector hlo hc hs
  rw [hlba]
  exact h.outsideFats hdata

end LaidOut

/-! ## Entries -/

/-- The top four bits of a FAT32 entry are kept by a write to it. -/
theorem newEntry_reserved (hfs : v.fsKind = .fat32) (c value : Nat) :
    BitVec.ofNat 8 (newEntry v d c value / 256 ^ 3) >>> 4 =
      fatByte v d 0 (entryPos v c + 3) >>> 4 := by
  have h0 := (fatByte v d 0 (entryPos v c)).isLt
  have h1 := (fatByte v d 0 (entryPos v c + 1)).isLt
  have h2 := (fatByte v d 0 (entryPos v c + 1 + 1)).isLt
  have h3 := (fatByte v d 0 (entryPos v c + 1 + 1 + 1)).isLt
  change _ = fatByte v d 0 (entryPos v c + 1 + 1 + 1) >>> 4
  rw [newEntry, if_pos hfs]
  simp only [getLe, Nat.mul_zero, Nat.add_zero]
  apply BitVec.eq_of_toNat_eq
  simp only [BitVec.toNat_ushiftRight, BitVec.toNat_ofNat, Nat.shiftRight_eq_div_pow]
  omega

theorem writeFatEntry_writable (hpos : 0 < v.numFats) {c value : Nat}
    (hwrite : writeFatEntry v d c value = some d') : v.readOnly = false := by
  rw [writeFatEntry] at hwrite
  obtain ⟨sec, -, hfats⟩ := Option.bind_eq_some_iff.mp hwrite
  obtain ⟨n, hn⟩ : ∃ n, v.numFats = n + 1 := ⟨v.numFats - 1, by omega⟩
  rw [hn, writeFats] at hfats
  obtain ⟨d'', hfirst, -⟩ := Option.bind_eq_some_iff.mp hfats
  rw [Sdimg.writeSector] at hfirst
  split_ifs at hfirst with hro
  exact Bool.eq_false_iff.mpr hro

theorem Mirrored.writeFatEntry (h : Mirrored v d₀ d) {c value : Nat} (hc : HasEntry v c)
    (hwrite : writeFatEntry v d c value = some d') : Mirrored v d₀ d' := by
  have hro := writeFatEntry_writable h.laid.fats_pos hwrite
  obtain ⟨d'', hwrite', hlaid, hbytes⟩ := h.laid.writeFatEntry_spec hro hc value
  obtain rfl : d'' = d' := Option.some.inj (hwrite'.symm.trans hwrite)
  -- the FATs being alike, each is the first one with the entry changed
  have hsame : ∀ j < v.numFats, ∀ p < fatBytes v, fatByte v d'' j p =
      setLe (fatByte v d 0) (entryPos v c) (fatEntrySize v) (newEntry v d c value) p := by
    intro j hj p hp
    have hbase : fatBase v d c j p = fatByte v d 0 p := by
      rw [fatBase]
      split_ifs
      · rfl
      · exact h.alike j hj p hp
    rw [hbytes j hj p hp]
    by_cases hin : entryPos v c ≤ p ∧ p < entryPos v c + fatEntrySize v
    · rw [setLe, setLe, blit_of_mem hin, blit_of_mem hin]
    · rw [setLe_of_not_mem hin, setLe_of_not_mem hin, hbase]
  refine ⟨hlaid, ?_, ?_⟩
  · intro i hi p hp
    rw [hsame i hi p hp, hsame 0 hlaid.fats_pos p hp]
  · intro hfs i hi c' hc'
    rw [← h.reserved hfs i hi c' hc', reservedBits, reservedBits, hsame i hi _ hc',
      h.alike i hi _ hc']
    have hsize : fatEntrySize v = 4 := if_pos hfs
    have haligned := (h.laid.entry_place hc).2.1
    rw [hsize] at haligned ⊢
    by_cases hin : entryPos v c ≤ 4 * c' + 3 ∧ 4 * c' + 3 < entryPos v c + 4
    · have hthird : 4 * c' + 3 = entryPos v c + 3 := by omega
      rw [setLe, blit_of_mem hin, hthird, Nat.add_sub_cancel_left]
      exact newEntry_reserved hfs c value
    · rw [setLe_of_not_mem hin]

/-! ## Chains -/

theorem findFree_range {n c c' : Nat} (hfind : findFree v d n c = some c') :
    c ≤ c' ∧ c' < c + n := by
  have hmem := List.mem_of_find?_eq_some hfind
  rw [List.mem_range'_1] at hmem
  exact hmem

/-- A cluster is taken among the volume's. -/
theorem Mirrored.allocFreeCluster (h : Mirrored v d₀ d) {hint : Nat}
    (hhint : hint ≤ v.countOfClusters + 2) :
    Mirrored v d₀ (allocFreeCluster v d hint).2 ∧
      ((allocFreeCluster v d hint).1 ≠ 0 → 2 ≤ (allocFreeCluster v d hint).1 ∧
        (allocFreeCluster v d hint).1 < v.countOfClusters + 2) := by
  have hend := h.laid.clusterEnd_eq
  rw [Sdimg.allocFreeCluster]
  generalize hstart : (if hint < 2 then 2 else hint) = start
  have hlo : 2 ≤ start ∧ start ≤ v.countOfClusters + 2 := by
    split_ifs at hstart <;> omega
  cases hfind : (findFree v d (clusterEnd v - start) start).or (findFree v d (start - 2) 2) with
  | none => exact ⟨h, fun hne => absurd rfl hne⟩
  | some c =>
    have hc : 2 ≤ c ∧ c < v.countOfClusters + 2 := by
      rcases Option.or_eq_some_iff.mp hfind with hfirst | ⟨-, hsecond⟩
      · have := findFree_range hfirst
        omega
      · have := findFree_range hsecond
        omega
    dsimp only
    cases hwrite : Sdimg.writeFatEntry v d c (eocMark v) with
    | none => exact ⟨h, fun hne => absurd rfl hne⟩
    | some d' => exact ⟨h.writeFatEntry (h.laid.hasEntry hc.2) hwrite, fun _ => hc⟩

theorem Mirrored.extendChain (h : Mirrored v d₀ d) {last : Nat}
    (hlast : last < v.countOfClusters + 2) :
    Mirrored v d₀ (extendChain v d last).2 ∧
      ((extendChain v d last).1 ≠ 0 → 2 ≤ (extendChain v d last).1 ∧
        (extendChain v d last).1 < v.countOfClusters + 2) := by
  have hhint : u32 (last + 1) ≤ v.countOfClusters + 2 := (u32_le _).trans hlast
  obtain ⟨halloc, hrange⟩ := h.allocFreeCluster hhint
  rw [Sdimg.extendChain]
  by_cases hzero : (Sdimg.allocFreeCluster v d (u32 (last + 1))).1 = 0
  · rw [if_pos hzero]
    exact ⟨halloc, fun hne => absurd rfl hne⟩
  · rw [if_neg hzero]
    cases hwrite : Sdimg.writeFatEntry v (Sdimg.allocFreeCluster v d (u32 (last + 1))).2 last
        (Sdimg.allocFreeCluster v d (u32 (last + 1))).1 with
    | none => exact ⟨halloc, fun hne => absurd rfl hne⟩
    | some d' => exact ⟨halloc.writeFatEntry (h.laid.hasEntry hlast) hwrite, hrange⟩

theorem Mirrored.freeChain (h : Mirrored v d₀ d) (fuel : Nat) {c : Nat} {ok : Bool}
    (hfree : freeChain v fuel d c = some (ok, d')) : Mirrored v d₀ d' := by
  induction fuel generalizing d c with
  | zero => cases hfree
  | succ fuel ih =>
    rw [Sdimg.freeChain] at hfree
    by_cases hc : 2 ≤ c ∧ c < clusterEnd v
    · rw [if_pos hc] at hfree
      rw [h.laid.clusterEnd_eq] at hc
      cases hwrite : Sdimg.writeFatEntry v d c 0 with
      | none =>
        rw [hwrite] at hfree
        cases hfree
        exact h
      | some d'' =>
        have hnext := h.writeFatEntry (h.laid.hasEntry hc.2) hwrite
        rw [hwrite] at hfree
        dsimp only at hfree
        split_ifs at hfree
        · cases hfree
          exact hnext
        · exact ih hnext hfree
    · rw [if_neg hc] at hfree
      cases hfree
      exact h

theorem Mirrored.freeClusters (h : Mirrored v d₀ d) (first : Nat) :
    Mirrored v d₀ (freeClusters v first d) := by
  rw [Sdimg.freeClusters]
  split_ifs
  · cases hfree : freeClusterChain v d first with
    | none => exact h
    | some r => exact h.freeChain _ hfree
  · exact h

theorem Mirrored.zeroSectors (h : Mirrored v d₀ d) {c : Nat} (hlo : 2 ≤ c)
    (hc : c < v.countOfClusters + 2) (n i : Nat) (hn : i + n ≤ v.sectorsPerCluster) :
    Mirrored v d₀ (zeroSectors v (clusterFirstSector v c) n i d) := by
  induction n generalizing d i with
  | zero => exact h
  | succ n ih =>
    rw [Sdimg.zeroSectors]
    cases hwrite : Sdimg.writeSector v d (u32 (clusterFirstSector v c + i)) fun _ => 0#8 with
    | none => exact h
    | some d' =>
      have hout := h.laid.outside_data hlo hc (s := i) (by omega)
      exact ih (h.writeSector hout hwrite) (i + 1) (by omega)

/-! ## Directories -/

theorem Mirrored.extendDir (h : Mirrored v d₀ d) {cluster : Nat}
    (hcluster : readFatEntry v d cluster = eoc → cluster < v.countOfClusters + 2) :
    Mirrored v d₀ (extendDir v cluster d) := by
  rw [Sdimg.extendDir]
  by_cases hend : readFatEntry v d cluster = eoc
  · obtain ⟨hextend, hrange⟩ := h.extendChain (hcluster hend)
    rw [if_pos hend]
    dsimp only
    split_ifs with hzero
    · exact hextend
    · exact hextend.zeroSectors (hrange hzero).1 (hrange hzero).2 _ 0 (by omega)
  · rw [if_neg hend]
    exact h

theorem Mirrored.makeDir (h : Mirrored v d₀ d) (parent : Nat) :
    Mirrored v d₀ (makeDir v parent d) := by
  obtain ⟨halloc, hrange⟩ := h.allocFreeCluster (Nat.le_add_left 2 _)
  rw [Sdimg.makeDir]
  dsimp only
  split_ifs with hzero
  · exact halloc
  · obtain ⟨hlo, hhi⟩ := hrange hzero
    have hzeros := halloc.zeroSectors hlo hhi v.sectorsPerCluster 0 (by omega)
    have hout := halloc.laid.outside_data hlo hhi halloc.laid.cluster_pos
    have hfirst : u32 (clusterFirstSector v (Sdimg.allocFreeCluster v d 2).1) =
        clusterFirstSector v (Sdimg.allocFreeCluster v d 2).1 := Nat.mod_mod _ _
    rw [Nat.add_zero, hfirst] at hout
    cases hwrite : Sdimg.writeSector v _ _ (dotSector _ parent) with
    | none => exact hzeros
    | some d' => exact hzeros.writeSector hout hwrite

theorem Mirrored.unlink (h : Mirrored v d₀ d) {lba : Nat} (hout : OutsideFats v lba) (off : Nat) :
    Mirrored v d₀ (unlink v lba off d) := by
  rw [Sdimg.unlink]
  cases readSector v d lba with
  | none => exact h
  | some sec =>
    dsimp only
    split_ifs
    · exact h
    · exact (h.freeClusters _).changeSector hout _

/-! ## Writing a file -/

/-- A turn of the loop of `loci_sdimg_fwrite` writes to no FAT, and extends the chain of a cluster
of the volume only. -/
def TurnSafe (v : Volume) (data : List Byte) (h : Handle) (d : Disk) : Prop :=
  OutsideFats v (fileSector v h) ∧
    ∀ d', fwriteSector v data h d = some d' → nextNeeded v data h →
      readFatEntry v d' h.currentCluster = eoc → h.currentCluster < v.countOfClusters + 2

/-- The turns of the loop are safe. -/
def LoopSafe (v : Volume) : Nat → List Byte → Handle → Disk → Prop
  | 0, _, _, _ => True
  | fuel + 1, data, h, d =>
    data ≠ [] → TurnSafe v data h d ∧
      match fwriteTurn v data h d with
      | .leave _ _ _ => True
      | .go d h rest => LoopSafe v fuel rest h d

/-- The disk after a turn. -/
def FwriteTurn.disk : FwriteTurn → Disk
  | .leave _ d _ => d
  | .go d _ _ => d

/-- The place of the directory entry after a turn. -/
def FwriteTurn.entryLba : FwriteTurn → Nat
  | .leave _ _ h => h.dirEntryLba
  | .go _ h _ => h.dirEntryLba

theorem Mirrored.fwriteTurn (hm : Mirrored v d₀ d) {data : List Byte} {h : Handle}
    (hsafe : TurnSafe v data h d) : Mirrored v d₀ (fwriteTurn v data h d).disk := by
  have hsector := hm.changeSector hsafe.1 fun sec =>
    blit sec (h.clusterByteOffset % v.bytesPerSector) (fileChunk v h data.length)
      fun i => data.getD i 0#8
  change Mirrored v d₀ ((fwriteSector v data h d).getD d) at hsector
  rw [Sdimg.fwriteTurn]
  cases hwrite : fwriteSector v data h d with
  | none => exact hm
  | some d' =>
    rw [hwrite, Option.getD_some] at hsector
    dsimp only
    by_cases hnext : nextNeeded v data h
    · rw [if_pos hnext]
      by_cases hend : readFatEntry v d' h.currentCluster = eoc
      · have hextend := (hsector.extendChain (hsafe.2 d' hwrite hnext hend)).1
        rw [if_pos hend]
        split_ifs <;> exact hextend
      · rw [if_neg hend]
        exact hsector
    · rw [if_neg hnext]
      exact hsector

/-- A turn leaves the place of the directory entry alone. -/
theorem fwriteTurn_entryLba (data : List Byte) (h : Handle) (d : Disk) :
    (fwriteTurn v data h d).entryLba = h.dirEntryLba := by
  rw [Sdimg.fwriteTurn]
  cases fwriteSector v data h d with
  | none => rfl
  | some d' =>
    dsimp only
    split_ifs <;> rfl

theorem Mirrored.fwriteLoop (fuel : Nat) {data : List Byte} {h : Handle} (hm : Mirrored v d₀ d)
    (hsafe : LoopSafe v fuel data h d) :
    Mirrored v d₀ (fwriteLoop v fuel data h d).2.2 ∧
      (fwriteLoop v fuel data h d).2.1.dirEntryLba = h.dirEntryLba := by
  induction fuel generalizing data h d with
  | zero => exact ⟨hm, rfl⟩
  | succ fuel ih =>
    rw [Sdimg.fwriteLoop]
    by_cases hdata : data = []
    · rw [if_pos hdata]
      exact ⟨hm, rfl⟩
    · obtain ⟨hturn, hrest⟩ := hsafe hdata
      have hdisk := hm.fwriteTurn hturn
      have hlba := fwriteTurn_entryLba (v := v) data h d
      rw [if_neg hdata]
      cases hgo : Sdimg.fwriteTurn v data h d with
      | leave upd d' h' =>
        rw [hgo] at hdisk hlba
        exact ⟨hdisk, hlba⟩
      | go d' h' rest =>
        rw [hgo] at hdisk hlba hrest
        obtain ⟨hend, hend'⟩ := ih hdisk hrest
        exact ⟨hend, hend'.trans hlba⟩

/-- The writes of `loci_sdimg_fwrite` are safe. -/
def FwriteSafe (v : Volume) (data : List Byte) (h : Handle) (d : Disk) : Prop :=
  match fwriteFirst v h d with
  | (none, _) => True
  | (some h, d) => OutsideFats v h.dirEntryLba ∧ LoopSafe v data.length data h d

theorem Mirrored.fwriteFirst (hm : Mirrored v d₀ d) (h : Handle) :
    Mirrored v d₀ (fwriteFirst v h d).2 := by
  obtain ⟨halloc, -⟩ := hm.allocFreeCluster (Nat.le_add_left 2 _)
  rw [Sdimg.fwriteFirst]
  dsimp only
  split_ifs
  · exact halloc
  · exact halloc
  · exact hm

/-! ## Steps -/

/-- The step writes to no FAT but by its entries, and extends the chain of a cluster of the volume
only. -/
def Step.Safe (v : Volume) (img : Image) : Step → Prop
  | .fopen _ _ | .fclose _ | .fread _ _ | .lseek _ _ _ | .makeDir _ => True
  | .fopenWrite lba _ | .create lba _ _ | .unlink lba _ | .newEntry lba _ _ _ _ _
  | .rename lba _ _ | .delete lba _ => OutsideFats v lba
  | .extendDir cluster => readFatEntry v img.disk cluster = eoc → cluster < v.countOfClusters + 2
  | .fwrite fd data => (img.files fd).used = true → (img.files fd).writable = true →
      FwriteSafe v data (img.files fd) img.disk

/-- Opening a file leaves the disk alone. -/
theorem fopenExistingRead_disk (writable : Bool) (lba off : Nat) (img : Image) :
    (fopenExistingRead v writable lba off img).2.disk = img.disk := by
  rw [fopenExistingRead]
  cases readSector v img.disk lba with
  | none => rfl
  | some sec =>
    dsimp only
    split_ifs
    · rfl
    · cases allocFile img.files <;> rfl

/-- The slot of a file opened keeps the place of its directory entry. -/
theorem fopenExistingRead_lba {writable : Bool} {lba off : Nat} {img : Image} {slot : Fin 16}
    (hopen : (fopenExistingRead v writable lba off img).1 = some slot) :
    ((fopenExistingRead v writable lba off img).2.files slot).dirEntryLba = lba := by
  rw [fopenExistingRead] at hopen ⊢
  cases hread : readSector v img.disk lba with
  | none => simp [hread] at hopen
  | some sec =>
    rw [hread] at hopen
    dsimp only at hopen ⊢
    split_ifs at hopen ⊢
    cases halloc : allocFile img.files with
    | none => simp [halloc] at hopen
    | some slot' =>
      rw [halloc] at hopen
      cases hopen
      simp

theorem Mirrored.fopenWrite {img : Image} (h : Mirrored v d₀ img.disk) {lba : Nat}
    (hout : OutsideFats v lba) (off : Nat) : Mirrored v d₀ (fopenWrite v lba off img).disk := by
  rw [Sdimg.fopenWrite]
  split_ifs
  · exact h
  · have hdisk := fopenExistingRead_disk (v := v) true lba off img
    have hlba : ∀ slot, (fopenExistingRead v true lba off img).1 = some slot →
        ((fopenExistingRead v true lba off img).2.files slot).dirEntryLba = lba :=
      fun _ => fopenExistingRead_lba
    generalize fopenExistingRead v true lba off img = opened at hdisk hlba ⊢
    obtain ⟨slot?, img'⟩ := opened
    rw [← hdisk] at h
    cases slot? with
    | none => exact h
    | some slot =>
      have hentry : OutsideFats v (img'.files slot).dirEntryLba := by
        rw [hlba slot rfl]
        exact hout
      have hfreed := h.freeClusters (img'.files slot).firstCluster
      exact hfreed.changeSector hentry _

theorem Mirrored.createNewFile {img : Image} (h : Mirrored v d₀ img.disk) {lba : Nat}
    (hout : OutsideFats v lba) (off : Nat) (name83 : Nat → Byte) :
    Mirrored v d₀ (createNewFile v lba off name83 img).disk := by
  have hnew : Mirrored v d₀
      ((writeNewEntry v lba off name83 attrArchive 0 0 img.disk).getD img.disk) :=
    h.changeSector hout _
  rw [Sdimg.createNewFile]
  cases hwrite : writeNewEntry v lba off name83 attrArchive 0 0 img.disk with
  | none => exact h
  | some d' =>
    rw [hwrite] at hnew
    cases halloc : allocFile img.files <;> exact hnew

theorem fread_disk (fd : Fin 16) (count : Nat) (img : Image) :
    (fread v fd count img).2.disk = img.disk := by
  rw [fread]
  split_ifs <;> rfl

theorem lseek_disk (fd : Fin 16) (offset : Int) (whence : Byte) (img : Image) :
    (lseek v fd offset whence img).disk = img.disk := by
  rw [lseek]
  split_ifs
  · rfl
  · rfl
  · split <;> rfl

theorem Mirrored.fwrite {img : Image} (hm : Mirrored v d₀ img.disk) {fd : Fin 16}
    {data : List Byte} (hsafe : (Step.fwrite fd data).Safe v img) :
    Mirrored v d₀ (fwrite v fd data img).disk := by
  rw [Sdimg.fwrite]
  dsimp only
  split_ifs with hno
  · exact hm
  · simp only [Bool.or_eq_true, Bool.not_eq_true', not_or, Bool.not_eq_false] at hno
    have hwrites := hsafe hno.1.1.1 hno.1.1.2
    have hfirst := hm.fwriteFirst (img.files fd)
    rw [FwriteSafe] at hwrites
    generalize Sdimg.fwriteFirst v (img.files fd) img.disk = first at hfirst hwrites ⊢
    obtain ⟨h?, d⟩ := first
    cases h? with
    | none => exact hfirst
    | some h =>
      obtain ⟨hentry, hloop⟩ := hwrites
      obtain ⟨hend, hlba⟩ := hfirst.fwriteLoop data.length hloop
      dsimp only
      split_ifs
      · exact hend.changeSector (hlba ▸ hentry) _
      · exact hend

/-- A safe step keeps the FATs alike. -/
theorem Mirrored.step {img : Image} (h : Mirrored v d₀ img.disk) {op : Step}
    (hsafe : op.Safe v img) : Mirrored v d₀ (sdimgStep v img op).disk := by
  cases op with
  | fopen lba off =>
    rw [sdimgStep, fopenExistingRead_disk]
    exact h
  | fopenWrite lba off => exact h.fopenWrite hsafe off
  | create lba off name83 => exact h.createNewFile hsafe off name83
  | fclose fd => exact h
  | fread fd count =>
    rw [sdimgStep, fread_disk]
    exact h
  | fwrite fd data => exact h.fwrite hsafe
  | lseek fd offset whence =>
    rw [sdimgStep, lseek_disk]
    exact h
  | unlink lba off => exact h.unlink hsafe off
  | extendDir cluster => exact h.extendDir hsafe
  | makeDir parent => exact h.makeDir parent
  | newEntry lba off name83 attrib first size => exact h.changeSector hsafe _
  | rename lba off new83 => exact h.changeSector hsafe _
  | delete lba off => exact h.changeSector hsafe _

end Steps

/-! ## Runs -/

/-- A run of safe steps keeps the FATs alike and the reserved bits of their entries. -/
theorem fats_mirrored {v : Volume} (steps : List Step) {img : Image} (hlaid : LaidOut v img.disk)
    (halike : FatsAlike v img.disk)
    (hsafe : Throughout (sdimgStep v) (fun img op => op.Safe v img) steps img) :
    FatsAlike v (steps.foldl (sdimgStep v) img).disk ∧
      ReservedKept v img.disk (steps.foldl (sdimgStep v) img).disk := by
  have hstart : Mirrored v img.disk img.disk := ⟨hlaid, halike, fun _ _ _ _ _ => rfl⟩
  let Inv : Image → Prop := fun img' => Mirrored v img.disk img'.disk
  have hstep : ∀ img' op, Inv img' → op.Safe v img' → Inv (sdimgStep v img' op) :=
    fun _ _ h hop => h.step hop
  have hend : Mirrored v img.disk (steps.foldl (sdimgStep v) img).disk :=
    Throughout.invariant hstep steps hstart hsafe
  exact ⟨hend.alike, hend.reserved⟩

/-! ## A card -/

/-- The boot sector of a FAT32 card of 66581 sectors, one a cluster. -/
def sampleBoot : Nat → Byte
  | 0 => 0xEB#8
  | 12 => 0x02#8
  | 13 => 0x01#8
  | 14 => 0x20#8
  | 16 => 0x02#8
  | 32 => 0x15#8
  | 33 => 0x04#8
  | 34 => 0x01#8
  | 37 => 0x02#8
  | 44 => 0x02#8
  | _ => 0#8

/-- Its FAT: the root directory's cluster is the only one in use. -/
def sampleFat (p : Nat) : Byte :=
  if p = 0 then 0xF8#8 else if p < 12 then (if p % 4 = 3 then 0x0F#8 else 0xFF#8) else 0#8

/-- The card: an empty file is the first entry of the root directory. -/
def sampleDisk : Disk where
  bytes i :=
    if i < 512 then sampleBoot i
    else if 16384 ≤ i ∧ i < 278528 then sampleFat (i - 16384)
    else if 278528 ≤ i ∧ i < 540672 then sampleFat (i - 278528)
    else if i = 540672 then 0x41#8
    else 0#8
  size := 34089472
  past_end := by
    intro i hi
    rw [if_neg (by omega), if_neg (by omega), if_neg (by omega), if_neg (by omega)]

def sampleVolume : Volume where
  fsKind := .fat32
  readOnly := false
  partitionLba := 0
  bytesPerSector := 512
  sectorsPerCluster := 1
  reservedSectors := 32
  numFats := 2
  rootEntries := 0
  totalSectors := 66581
  sectorsPerFat := 512
  rootCluster := 2
  fatStartSector := 32
  rootDirStartSector := 1056
  rootDirSectors := 0
  dataStartSector := 1056
  bytesPerCluster := 512
  countOfClusters := 65525

/-- The card as it is opened. -/
def sampleImage : Image where
  disk := sampleDisk
  files _ :=
    { used := false, writable := false, firstCluster := 0, sizeBytes := 0, cursor := 0,
      currentCluster := 0, clusterByteOffset := 0, dirEntryLba := 0, dirEntryOff := 0 }

theorem sampleDisk_laidOut : LaidOut sampleVolume sampleDisk where
  sector_pos := by decide
  sector_dvd := by decide
  cluster_pos := by decide
  fats_pos := by decide
  fat_room := by decide
  entry_max := by decide
  root_start := by decide
  data_start := by decide
  data_end := by decide
  numbers := by decide
  in_file := by decide

theorem sampleDisk_fatByte {i p : Nat} (hi : i < 2) (hp : p < 262144) :
    fatByte sampleVolume sampleDisk i p = sampleFat p := by
  have hpos : fatPos sampleVolume i = 16384 + i * 262144 := by
    rw [fatPos]
    change (32 + 0 + i * 512) * 512 = _
    ring
  rw [fatByte, hpos]
  simp only [sampleDisk]
  obtain rfl | rfl : i = 0 ∨ i = 1 := by omega
  · rw [if_neg (by omega), if_pos (by omega), show 16384 + 0 * 262144 + p - 16384 = p by omega]
  · rw [if_neg (by omega), if_neg (by omega), if_pos (by omega),
      show 16384 + 1 * 262144 + p - 278528 = p by omega]

/-- The file is opened for writing, the root directory is extended and a directory made. -/
theorem fats_mirrored_directory :
    let steps : List Step := [.fopenWrite 1056 0, .extendDir 2, .makeDir 2]
    FatsAlike sampleVolume (steps.foldl (sdimgStep sampleVolume) sampleImage).disk ∧
      ReservedKept sampleVolume sampleDisk
        (steps.foldl (sdimgStep sampleVolume) sampleImage).disk := by
  have hsafe : OutsideFats sampleVolume 1056 := .inr (by decide)
  refine fats_mirrored _ sampleDisk_laidOut ?_ ⟨hsafe, fun _ => by decide, trivial, trivial⟩
  intro i hi p hp
  exact (sampleDisk_fatByte hi hp).trans (sampleDisk_fatByte (by decide) hp).symm

/-- The file is written, truncated through a second handle, and written again through the first
one: the second sector written is one of the last FAT. -/
def staleSteps : List Step :=
  [.fopenWrite 1056 0, .fwrite 0 (List.replicate 513 0x78#8), .fopenWrite 1056 0, .lseek 0 0 0#8,
    .fwrite 0 (List.replicate 513 0x78#8)]

/-- The FATs, alike at the start, differ in the end. -/
theorem fats_diverge :
    FatsAlike sampleVolume sampleImage.disk ∧
      ¬FatsAlike sampleVolume (staleSteps.foldl (sdimgStep sampleVolume) sampleImage).disk := by
  constructor
  · intro i hi p hp
    exact (sampleDisk_fatByte hi hp).trans (sampleDisk_fatByte (by decide) hp).symm
  · intro halike
    have hsame := halike 1 (by decide) 261120 (by decide)
    revert hsame
    decide +kernel

end Phosphoric.Sdimg
