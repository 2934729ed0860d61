import Phosphoric.Sdimg.Mirror
import Mathlib.Data.Set.Insert

/-!
# What writes change

Sectors past the FATs and entries of the FAT are written by different steps. `Changes` says which
clusters' entries and which sectors a step may change; taking a cluster changes one entry, and
extending a chain two.
-/

namespace Phosphoric.Sdimg

open Store

/-- The disk keeps the entries of the clusters, those of `F` apart, and the sectors past the FATs,
those of `S` apart. -/
structure Changes (v : Volume) (F S : Set Nat) (d d' : Disk) : Prop where
  laid : LaidOut v d'
  size : d.size ≤ d'.size
  entry : ∀ c < v.countOfClusters + 2, c ∉ F → readFatEntry v d' c = readFatEntry v d c
  sector : ∀ lba, DataSector v lba → lba ∉ S → readSector v d' lba = readSector v d lba

/-- The sectors of a cluster. -/
def clusterSectors (v : Volume) (c : Nat) : Set Nat :=
  {lba | ∃ s < v.sectorsPerCluster, lba = v.dataStartSector + (c - 2) * v.sectorsPerCluster + s}

section Writes

variable {v : Volume} {F S : Set Nat} {d d' d'' : Disk}

theorem Changes.refl (h : LaidOut v d) : Changes v F S d d :=
  ⟨h, le_rfl, fun _ _ _ => rfl, fun _ _ _ => rfl⟩

theorem Changes.trans (h : Changes v F S d d') (h' : Changes v F S d' d'') :
    Changes v F S d d'' where
  laid := h'.laid
  size := h.size.trans h'.size
  entry c hc hF := (h'.entry c hc hF).trans (h.entry c hc hF)
  sector lba hlba hS := (h'.sector lba hlba hS).trans (h.sector lba hlba hS)

theorem Changes.mono {F' S' : Set Nat} (h : Changes v F S d d') (hF : F ⊆ F') (hS : S ⊆ S') :
    Changes v F' S' d d' where
  laid := h.laid
  size := h.size
  entry c hc hc' := h.entry c hc fun hmem => hc' (hF hmem)
  sector lba hlba hlba' := h.sector lba hlba fun hmem => hlba' (hS hmem)

/-! ## Places -/

namespace LaidOut

variable (h : LaidOut v d)
include h

/-- A sector of the root directory of FAT16. -/
theorem rootSector {s : Nat} (hs : s < v.rootDirSectors) :
    u32 (v.rootDirStartSector + s) = v.rootDirStartSector + s ∧
      DataSector v (v.rootDirStartSector + s) := by
  have hdata := h.data_start
  have hend := h.data_end
  have hnum := h.numbers
  rw [u32_of_lt (by omega)]
  exact ⟨rfl, by omega, by omega⟩

/-! ## Writing -/

/-- A sector past the FATs, written. -/
theorem writeSector_data (hro : v.readOnly = false) {lba : Nat} (hlba : DataSector v lba)
    (sec : Nat → Byte) : ∃ d', writeSector v d lba sec = some d' ∧ Changes v ∅ {lba} d d' ∧
      readSector v d' lba = some (clip v sec) := by
  have hpos := h.sectorPos_of_data hlba
  have hlaid : LaidOut v (d.blit (sectorPos v lba) v.bytesPerSector sec) :=
    h.of_size_le (Nat.le_max_left _ _)
  refine ⟨_, by rw [writeSector, hro]; rfl, ⟨hlaid, Nat.le_max_left _ _, ?_, ?_⟩, ?_⟩
  · intro c hc _
    have hbytes : getLe (fatByte v (d.blit (sectorPos v lba) v.bytesPerSector sec) 0)
        (entryPos v c) (fatEntrySize v) = getLe (fatByte v d 0) (entryPos v c) (fatEntrySize v) := by
      have hplace := (h.entry_place (h.hasEntry hc)).1
      apply getLe_congr
      intro p hlo hhi
      exact fatByte_outside (h.outsideFats hlba) h.fats_pos (by omega) sec
    rw [hlaid.readFatEntry_eq (h.hasEntry hc), h.readFatEntry_eq (h.hasEntry hc), hbytes]
  · intro lba' hlba' hne
    rw [hlaid.readSector_of_data hlba', h.readSector_of_data hlba', Disk.blit_bytes, hpos]
    congr 1
    funext i
    rw [clip, clip]
    split_ifs with hi
    · rw [blit_of_not_mem]
      rintro ⟨hlo, hhi⟩
      rcases Nat.lt_or_gt_of_ne (show lba' ≠ lba from hne) with hlt | hgt
      · have hle := Nat.mul_le_mul_right v.bytesPerSector
          (show lba' + v.partitionLba + 1 ≤ lba + v.partitionLba by omega)
        rw [Nat.succ_mul] at hle
        omega
      · have hle := Nat.mul_le_mul_right v.bytesPerSector
          (show lba + v.partitionLba + 1 ≤ lba' + v.partitionLba by omega)
        rw [Nat.succ_mul] at hle
        omega
    · rfl
  · rw [hlaid.readSector_of_data hlba, Disk.blit_bytes, hpos]
    congr 1
    funext i
    rw [clip, clip]
    split_ifs with hi
    · exact blit_add _ _ _ _ hi
    · rfl

/-- The sectors of a cluster, zeroed from the `i`-th on. -/
theorem zeroSectors_data (hro : v.readOnly = false) {c : Nat} (hlo : 2 ≤ c)
    (hc : c < v.countOfClusters + 2) (n i : Nat) (hn : i + n ≤ v.sectorsPerCluster) :
    Changes v ∅ {lba | ∃ s, i ≤ s ∧ s < i + n ∧
        lba = v.dataStartSector + (c - 2) * v.sectorsPerCluster + s} d
        (zeroSectors v (clusterFirstSector v c) n i d) ∧
      ∀ s, i ≤ s → s < i + n → readSector v (zeroSectors v (clusterFirstSector v c) n i d)
        (v.dataStartSector + (c - 2) * v.sectorsPerCluster + s) = some fun _ => 0#8 := by
  induction n generalizing d i with
  | zero => exact ⟨.refl h, fun s hs hs' => absurd hs' (by omega)⟩
  | succ n ih =>
    obtain ⟨hlba, hdata⟩ := h.clusterSector hlo hc (show i < v.sectorsPerCluster by omega)
    obtain ⟨d', hwrite, hchanges, hread⟩ := h.writeSector_data hro hdata fun _ => 0#8
    obtain ⟨hrest, hzero⟩ := ih hchanges.laid (i + 1) (by omega)
    rw [zeroSectors, hlba, hwrite]
    constructor
    · refine (hchanges.mono subset_rfl ?_).trans (hrest.mono subset_rfl ?_)
      · rintro _ rfl
        exact ⟨i, le_rfl, by omega, rfl⟩
      · rintro _ ⟨s, hs, hs', rfl⟩
        exact ⟨s, by omega, by omega, rfl⟩
    · intro s hs hs'
      rcases hs.eq_or_lt with rfl | hlt
      · -- the other sectors zeroed come after it
        have hclip : clip v (fun _ => 0#8) = fun _ => 0#8 := funext fun _ => ite_self _
        refine (hrest.sector _ hdata ?_).trans (hread.trans (congrArg some hclip))
        rintro ⟨s, hs, -, heq⟩
        omega
      · exact hzero s hlt (by omega)

/-- A cluster zeroed. -/
theorem zeroCluster (hro : v.readOnly = false) {c : Nat} (hlo : 2 ≤ c)
    (hc : c < v.countOfClusters + 2) :
    Changes v ∅ (clusterSectors v c) d
        (zeroSectors v (clusterFirstSector v c) v.sectorsPerCluster 0 d) ∧
      ∀ s < v.sectorsPerCluster,
        readSector v (zeroSectors v (clusterFirstSector v c) v.sectorsPerCluster 0 d)
          (v.dataStartSector + (c - 2) * v.sectorsPerCluster + s) = some fun _ => 0#8 := by
  obtain ⟨hchanges, hzero⟩ := h.zeroSectors_data hro hlo hc v.sectorsPerCluster 0 (by omega)
  refine ⟨hchanges.mono subset_rfl ?_, fun s hs => hzero s (Nat.zero_le s) (by omega)⟩
  rintro _ ⟨s, -, hs, rfl⟩
  exact ⟨s, by omega, rfl⟩

/-! ## Entries -/

/-- The FATs, written from the `i`-th on, and nothing past them. -/
theorem writeFats_data (hro : v.readOnly = false) (sec : Nat → Byte) {s : Nat}
    (hs : s < v.sectorsPerFat) (n i : Nat) (hn : i + n ≤ v.numFats) {d' : Disk}
    (hwrite : writeFats v sec s n i d = some d') :
    d.size ≤ d'.size ∧ ∀ lba, DataSector v lba → readSector v d' lba = readSector v d lba := by
  induction n generalizing d i with
  | zero =>
    cases hwrite
    exact ⟨le_rfl, fun _ _ => rfl⟩
  | succ n ih =>
    have hlaid : LaidOut v (d.blit (fatPos v i + s * v.bytesPerSector) v.bytesPerSector sec) :=
      h.of_size_le (Nat.le_max_left _ _)
    have hfirst : writeSector v d (u32 (v.fatStartSector + i * v.sectorsPerFat + s)) sec =
        some (d.blit (fatPos v i + s * v.bytesPerSector) v.bytesPerSector sec) := by
      rw [writeSector, hro, h.sectorPos_fat (by omega) hs]
      rfl
    rw [writeFats, hfirst, Option.bind_some] at hwrite
    obtain ⟨hsize, hrest⟩ := ih hlaid (i + 1) (by omega) hwrite
    refine ⟨(Nat.le_max_left _ _).trans hsize, fun lba hlba => ?_⟩
    rw [hrest lba hlba, hlaid.readSector_of_data hlba, h.readSector_of_data hlba, Disk.blit_bytes]
    congr 1
    funext j
    rw [clip, clip]
    split_ifs with hj
    · rw [blit_of_not_mem]
      have hend : fatPos v i + s * v.bytesPerSector + v.bytesPerSector ≤
          (lba + v.partitionLba) * v.bytesPerSector := by
        have hlast : i * v.sectorsPerFat + v.sectorsPerFat ≤ v.numFats * v.sectorsPerFat := by
          rw [← Nat.succ_mul]
          exact Nat.mul_le_mul_right _ (by omega)
        have hroot := h.root_start
        have hlo := hlba.1
        calc fatPos v i + s * v.bytesPerSector + v.bytesPerSector
            = (v.fatStartSector + v.partitionLba + i * v.sectorsPerFat + s + 1) *
                v.bytesPerSector := by
              rw [fatPos]
              ring
          _ ≤ (lba + v.partitionLba) * v.bytesPerSector := Nat.mul_le_mul_right _ (by omega)
      omega
    · rfl

/-- What is read of an entry written. -/
theorem readFatEntry_put (hro : v.readOnly = false) {c : Nat} (hc : c < v.countOfClusters + 2)
    (value : Nat) : ∃ d', writeFatEntry v d c value = some d' ∧ Changes v {c} ∅ d d' ∧
      readFatEntry v d' c = fatDecode v (value % 256 ^ fatEntrySize v) := by
  obtain ⟨d', hwrite, hlaid, hread, hothers⟩ := h.readFatEntry_written hro hc value
  have hfats : d.size ≤ d'.size ∧ ∀ lba, DataSector v lba →
      readSector v d' lba = readSector v d lba := by
    rw [writeFatEntry] at hwrite
    obtain ⟨sec, -, hfats⟩ := Option.bind_eq_some_iff.mp hwrite
    exact h.writeFats_data hro _ (h.entry_place (h.hasEntry hc)).2.2.1 _ 0 (by omega) hfats
  exact ⟨d', hwrite, ⟨hlaid, hfats.1, hothers, fun lba hlba _ => hfats.2 lba hlba⟩, hread⟩

/-- A link to a cluster of the volume is read as it was written. -/
theorem fatDecode_cluster {c : Nat} (hc : c < v.countOfClusters + 2) :
    fatDecode v (c % 256 ^ fatEntrySize v) = c := by
  have hmax := h.entry_max
  rcases fatEntrySize_cases (v := v) with ⟨hsize, hfs⟩ | ⟨hsize, hfs⟩
  · rw [if_pos hfs] at hmax
    rw [hsize, fatDecode, if_pos hfs, show c % 256 ^ 4 % 2 ^ 28 = c by omega, if_neg (by omega)]
  · rw [if_neg hfs] at hmax
    rw [hsize, fatDecode, if_neg hfs, show c % 256 ^ 2 = c by omega, if_neg (by omega)]

omit h in
theorem fatDecode_eocMark : fatDecode v (eocMark v % 256 ^ fatEntrySize v) = eoc := by
  rcases fatEntrySize_cases (v := v) with ⟨hsize, hfs⟩ | ⟨hsize, hfs⟩
  · rw [hsize, fatDecode, if_pos hfs, eocMark, if_pos hfs]
    rfl
  · rw [hsize, fatDecode, if_neg hfs, eocMark, if_neg hfs]
    rfl

end LaidOut

/-! ## Taking a cluster -/

/-- A free cluster of the volume. -/
def Free (v : Volume) (d : Disk) (c : Nat) : Prop :=
  2 ≤ c ∧ c < v.countOfClusters + 2 ∧ readFatEntry v d c = 0

theorem findFree_eq_none {n c : Nat} : findFree v d n c = none ↔
    ∀ c', c ≤ c' → c' < c + n → readFatEntry v d c' ≠ 0 := by
  simp only [findFree, List.find?_eq_none, List.mem_range'_1, beq_iff_eq, and_imp]

theorem findFree_eq_some {n c c' : Nat} (h : findFree v d n c = some c') :
    readFatEntry v d c' = 0 := by
  have hfound := List.find?_some h
  exact beq_iff_eq.mp hfound

/-- A free cluster is taken, if there is one. -/
theorem LaidOut.allocFreeCluster_spec (h : LaidOut v d) (hro : v.readOnly = false) {hint : Nat}
    (hhint : hint ≤ v.countOfClusters + 2) :
    ((¬∃ c, Free v d c) ∧ allocFreeCluster v d hint = (0, d)) ∨
      ∃ c d', Free v d c ∧ allocFreeCluster v d hint = (c, d') ∧ Changes v {c} ∅ d d' ∧
        readFatEntry v d' c = eoc := by
  have hend := h.clusterEnd_eq
  rw [allocFreeCluster]
  generalize hstart : (if hint < 2 then 2 else hint) = start
  have hlo : 2 ≤ start ∧ start ≤ v.countOfClusters + 2 := by
    split_ifs at hstart <;> omega
  cases hfind : (findFree v d (clusterEnd v - start) start).or (findFree v d (start - 2) 2) with
  | none =>
    obtain ⟨hfirst, hsecond⟩ := Option.or_eq_none_iff.mp hfind
    refine .inl ⟨?_, rfl⟩
    rintro ⟨c, hc, hc', hzero⟩
    rcases Nat.lt_or_ge c start with hlt | hge
    · exact findFree_eq_none.mp hsecond c hc (by omega) hzero
    · exact findFree_eq_none.mp hfirst c hge (by omega) hzero
  | some c =>
    have hfree : Free v d c := by
      rcases Option.or_eq_some_iff.mp hfind with hfirst | ⟨-, hsecond⟩
      · have := findFree_range hfirst
        exact ⟨by omega, by omega, findFree_eq_some hfirst⟩
      · have := findFree_range hsecond
        exact ⟨by omega, by omega, findFree_eq_some hsecond⟩
    obtain ⟨d', hwrite, hchanges, hread⟩ := h.readFatEntry_put hro hfree.2.1 (eocMark v)
    dsimp only
    rw [hwrite]
    exact .inr ⟨c, d', hfree, rfl, hchanges, hread.trans fatDecode_eocMark⟩

/-- A chain is extended by a free cluster, if there is one. -/
theorem LaidOut.extendChain_spec (h : LaidOut v d) (hro : v.readOnly = false) {last : Nat}
    (hlast : last < v.countOfClusters + 2) (hused : readFatEntry v d last ≠ 0) :
    ((¬∃ c, Free v d c) ∧ extendChain v d last = (0, d)) ∨
      ∃ c d', Free v d c ∧ extendChain v d last = (c, d') ∧ Changes v {c, last} ∅ d d' ∧
        readFatEntry v d' c = eoc ∧ readFatEntry v d' last = c := by
  have hhint : u32 (last + 1) ≤ v.countOfClusters + 2 := (u32_le _).trans hlast
  rw [extendChain]
  rcases h.allocFreeCluster_spec hro hhint with
    ⟨hnone, halloc⟩ | ⟨c, d₁, hfree, halloc, hchanges, hend⟩
  · rw [halloc]
    exact .inl ⟨hnone, rfl⟩
  · have hne : c ≠ last := by
      rintro rfl
      exact hused hfree.2.2
    have hzero : c ≠ 0 := by
      have := hfree.1
      omega
    obtain ⟨d₂, hwrite, hchanges', hread⟩ := hchanges.laid.readFatEntry_put hro hlast c
    rw [halloc]
    dsimp only
    rw [if_neg hzero, hwrite]
    refine .inr ⟨c, d₂, hfree, rfl, ?_, ?_, ?_⟩
    · exact (hchanges.mono (by simp) subset_rfl).trans (hchanges'.mono (by simp) subset_rfl)
    · exact (hchanges'.entry c hfree.2.1 hne).trans hend
    · exact hread.trans (h.fatDecode_cluster hfree.2.1)

end Writes

end Phosphoric.Sdimg
