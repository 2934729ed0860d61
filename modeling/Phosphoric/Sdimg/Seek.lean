import Phosphoric.Sdimg.Mirror

/-!
# Seeking in a file

A file is a chain of clusters, as many as its size needs. `loci_sdimg_lseek` walks the chain to the
cluster of its target; at the end of a file that fills its last cluster there is none.

**Theorem (`lseek_reads`).** On a well-formed volume a seek to an offset within the file returns the
offset if and only if it fits the result and is not the end of a file of whole clusters. The reads
after it give the file's bytes from there on, as long as none but the last ends at the end of a
cluster short of the end of the file.
-/

namespace Phosphoric.Sdimg

open Function (update)
open Store

/-! ## Files -/

/-- A laid out volume as `parse_bpb` derives it. -/
structure Attached (v : Volume) (d : Disk) : Prop extends LaidOut v d where
  cluster_bytes : v.bytesPerCluster = v.bytesPerSector * v.sectorsPerCluster
  sector_max : v.bytesPerSector ≤ 512
  cluster_max : v.sectorsPerCluster < 256

/-- A file: its clusters are linked, and as many as its size needs. -/
structure IsFile (v : Volume) (d : Disk) (first size : Nat) (chain : List Nat) : Prop where
  clusters : ∀ c ∈ chain, 2 ≤ c ∧ c < v.countOfClusters + 2
  starts : ∀ c ∈ chain.head?, c = first
  linked : ∀ i (hi : i < chain.length), nextCluster v d chain[i] = chain[i + 1]?
  enough : chain.length = (size + v.bytesPerCluster - 1) / v.bytesPerCluster

/-- Byte `k` of a file. -/
def fileByte (v : Volume) (d : Disk) (chain : List Nat) (k : Nat) : Byte :=
  d.bytes (sectorPos v (u32 (clusterFirstSector v (chain.getD (k / v.bytesPerCluster) 0) +
    k % v.bytesPerCluster / v.bytesPerSector)) + k % v.bytesPerCluster % v.bytesPerSector)

/-- `n` bytes of a file from `k` on. -/
def fileBytes (v : Volume) (d : Disk) (chain : List Nat) (k n : Nat) : List Byte :=
  (List.range n).map fun i => fileByte v d chain (k + i)

/-- What `loci_sdimg_lseek` returns; `none` is an error. -/
def lseekReturn (v : Volume) (fd : Fin 16) (offset : Int) (whence : Byte) (img : Image) :
    Option (BitVec 32) :=
  let h := img.files fd
  let target := seekTarget h offset whence
  if !h.used ∨ 2#8 < whence ∨ target < 0 then none
  else if target = 0 then some 0#32
  else (seekToOffset v img.disk h.firstCluster target.toNat).map fun _ =>
    BitVec.ofNat 32 target.toNat

/-- The reads of a program one after another: what each gives. -/
def freads (v : Volume) (fd : Fin 16) : List Nat → Image → List (Option (List Byte))
  | [], _ => []
  | count :: counts, img => (fread v fd count img).1 :: freads v fd counts (fread v fd count img).2

/-- What the reads should give, from `k` on. -/
def fileReads (v : Volume) (d : Disk) (chain : List Nat) (size : Nat) :
    List Nat → Nat → List (Option (List Byte))
  | [], _ => []
  | count :: counts, k =>
    some (fileBytes v d chain k (min count (size - k))) ::
      fileReads v d chain size counts (k + min count (size - k))

/-- No read but the last ends at the end of a cluster, the end of the file apart. -/
def ReadsInside (v : Volume) (size : Nat) : List Nat → Nat → Prop
  | [], _ => True
  | [_], _ => True
  | count :: counts, k =>
    let stop := k + min count (size - k)
    (stop < size → stop = k ∨ stop % v.bytesPerCluster ≠ 0) ∧ ReadsInside v size counts stop

/-- A handle of the file, at `k`. -/
structure At (v : Volume) (chain : List Nat) (size k : Nat) (h : Handle) : Prop where
  used : h.used = true
  size_eq : h.sizeBytes = size
  cursor_eq : h.cursor = k
  cluster : k < size → h.currentCluster = chain.getD (k / v.bytesPerCluster) 0
  offset : k < size → h.clusterByteOffset = k % v.bytesPerCluster

section File

variable {v : Volume} {d : Disk} {first size : Nat} {chain : List Nat}

theorem Attached.cluster_bytes_pos (h : Attached v d) : 0 < v.bytesPerCluster := by
  rw [h.cluster_bytes]
  exact Nat.mul_pos h.sector_pos h.cluster_pos

/-- The chain, walked. -/
theorem IsFile.walkChain (h : IsFile v d first size chain) (k i : Nat) (hi : i < chain.length) :
    walkChain v d k chain[i] = chain[i + k]? :=
  walkChain_getElem h.linked k hi

/-- A place in a cluster is in one of its sectors. -/
theorem LaidOut.sector_of_lt (h : LaidOut v d)
    (hbpc : v.bytesPerCluster = v.bytesPerSector * v.sectorsPerCluster) {off : Nat}
    (hoff : off < v.bytesPerCluster) : off / v.bytesPerSector < v.sectorsPerCluster := by
  rw [Nat.div_lt_iff_lt_mul h.sector_pos, Nat.mul_comm, ← hbpc]
  exact hoff

theorem Attached.sector_of_mod (hv : Attached v d) (k : Nat) :
    k % v.bytesPerCluster / v.bytesPerSector < v.sectorsPerCluster :=
  hv.sector_of_lt hv.cluster_bytes (Nat.mod_lt k hv.cluster_bytes_pos)

/-- A sector of a cluster of the volume can be read. -/
theorem LaidOut.readSector_data (h : LaidOut v d) {c s : Nat} (hlo : 2 ≤ c)
    (hc : c < v.countOfClusters + 2) (hs : s < v.sectorsPerCluster) :
    readSector v d (u32 (clusterFirstSector v c + s)) =
      some (clip v fun i => d.bytes (sectorPos v (u32 (clusterFirstSector v c + s)) + i)) := by
  obtain ⟨hlba, hdata⟩ := h.clusterSector hlo hc hs
  rw [hlba, h.readSector_of_data hdata, h.sectorPos_of_data hdata]

/-- There is a cluster for each offset short of the end. -/
theorem IsFile.chain_lt (h : IsFile v d first size chain) (hv : Attached v d) {k : Nat}
    (hk : k < size) : k / v.bytesPerCluster < chain.length := by
  have hpos := hv.cluster_bytes_pos
  rw [h.enough, Nat.div_lt_iff_lt_mul hpos]
  have hdiv := Nat.div_add_mod (size + v.bytesPerCluster - 1) v.bytesPerCluster
  have hmod := Nat.mod_lt (size + v.bytesPerCluster - 1) hpos
  rw [Nat.mul_comm]
  omega

theorem fileBytes_add (k a b : Nat) :
    fileBytes v d chain k (a + b) = fileBytes v d chain k a ++ fileBytes v d chain (k + a) b := by
  rw [fileBytes, List.range_add, List.map_append, List.map_map]
  refine congrArg (_ ++ ·) (List.map_congr_left fun i _ => ?_)
  rw [Function.comp_apply, ← Nat.add_assoc]

/-- What a handle is at after reading up to `stop`: at the end of a cluster it stays there. -/
def After (v : Volume) (chain : List Nat) (size stop : Nat) (h : Handle) : Prop :=
  h.used = true ∧ h.sizeBytes = size ∧ h.cursor = stop ∧
    (stop % v.bytesPerCluster ≠ 0 → At v chain size stop h)

/-- A place in a cluster, a few bytes on. -/
theorem mod_add_of_lt {k n i : Nat} (h : k % n + i < n) :
    (k + i) / n = k / n ∧ (k + i) % n = k % n + i := by
  have hdiv := Nat.div_add_mod k n
  have hsum : k + i = k % n + i + n * (k / n) := by omega
  rw [hsum, Nat.add_mul_div_left _ _ (by omega), Nat.add_mul_mod_self_left, Nat.div_eq_of_lt h,
    Nat.mod_eq_of_lt h, Nat.zero_add]
  exact ⟨rfl, rfl⟩

/-- What is left of a sector ends within the cluster. -/
theorem Attached.chunk_le (hv : Attached v d) (k : Nat) {n : Nat}
    (hn : k % v.bytesPerCluster % v.bytesPerSector + n ≤ v.bytesPerSector) :
    k % v.bytesPerCluster + n ≤ v.bytesPerCluster := by
  have hlt := Nat.mod_lt k hv.cluster_bytes_pos
  have hdiv := Nat.div_add_mod (k % v.bytesPerCluster) v.bytesPerSector
  have hsector := hv.sector_of_mod k
  have hle : v.bytesPerSector * (k % v.bytesPerCluster / v.bytesPerSector) + v.bytesPerSector ≤
      v.bytesPerSector * v.sectorsPerCluster := by
    rw [← Nat.mul_succ]
    exact Nat.mul_le_mul_left _ hsector
  rw [← hv.cluster_bytes] at hle
  omega

/-- The bytes of a file up to the end of a sector. -/
theorem Attached.fileBytes_chunk (hv : Attached v d) (k : Nat) {n : Nat}
    (hn : k % v.bytesPerCluster % v.bytesPerSector + n ≤ v.bytesPerSector) :
    fileBytes v d chain k n = (List.range n).map fun i =>
      clip v (fun i => d.bytes (sectorPos v (u32 (clusterFirstSector v
        (chain.getD (k / v.bytesPerCluster) 0) + k % v.bytesPerCluster / v.bytesPerSector)) + i))
        (k % v.bytesPerCluster % v.bytesPerSector + i) := by
  refine List.map_congr_left fun i hi => ?_
  rw [List.mem_range] at hi
  have hcluster := hv.chunk_le k hn
  obtain ⟨hdiv, hmod⟩ := mod_add_of_lt (show k % v.bytesPerCluster + i < v.bytesPerCluster by omega)
  obtain ⟨hdiv', hmod'⟩ := mod_add_of_lt
    (show k % v.bytesPerCluster % v.bytesPerSector + i < v.bytesPerSector by omega)
  rw [fileByte, hdiv, hmod, hdiv', hmod', clip, if_pos (by omega)]

/-- The loop of `loci_sdimg_fread` reads the file. -/
theorem IsFile.freadLoop (h : IsFile v d first size chain) (hv : Attached v d)
    (hsize : size < 2 ^ 32) (fuel : Nat) {count k : Nat} {hd : Handle} (hfuel : count ≤ fuel)
    (hpos : 0 < count) (hstop : k + count ≤ size) (hat : At v chain size k hd) :
    (freadLoop v d fuel count hd).1 = some (fileBytes v d chain k count) ∧
      After v chain size (k + count) (freadLoop v d fuel count hd).2 := by
  induction fuel generalizing count k hd with
  | zero => omega
  | succ fuel ih =>
    have hcpos := hv.cluster_bytes_pos
    have hspos := hv.sector_pos
    have hlt := h.chain_lt hv (show k < size by omega)
    have hcluster := hat.cluster (by omega)
    have hoffset := hat.offset (by omega)
    have hgetD : chain.getD (k / v.bytesPerCluster) 0 = chain[k / v.bytesPerCluster] := by
      rw [List.getD_eq_getElem?_getD, List.getElem?_eq_getElem hlt]
      rfl
    obtain ⟨hlo, hhi⟩ := h.clusters _ (hgetD ▸ List.getElem_mem hlt)
    have hsector := hv.sector_of_mod k
    have hread := hv.toLaidOut.readSector_data hlo hhi hsector
    have hin := Nat.mod_lt (k % v.bytesPerCluster) hspos
    have hchunk : fileChunk v hd count =
        min (v.bytesPerSector - k % v.bytesPerCluster % v.bytesPerSector) count := by
      rw [fileChunk, hoffset]
    rw [Sdimg.freadLoop, if_neg hpos.ne', fileSector, hcluster, hoffset, hread]
    dsimp only
    rw [hchunk]
    generalize hn : min (v.bytesPerSector - k % v.bytesPerCluster % v.bytesPerSector) count = n
    have hle : n ≤ count := by omega
    have hone : 0 < n := by omega
    have hfits : k % v.bytesPerCluster % v.bytesPerSector + n ≤ v.bytesPerSector := by omega
    have hend := hv.chunk_le k hfits
    have hcursor : (hd.advance n).cursor = k + n := by
      rw [Handle.advance, hat.cursor_eq, u32_of_lt (by omega)]
    have hoff : (hd.advance n).clusterByteOffset = k % v.bytesPerCluster + n := by
      rw [Handle.advance, hoffset]
    have hused : (hd.advance n).used = true := hat.used
    have hsizes : (hd.advance n).sizeBytes = size := hat.size_eq
    rw [← hv.fileBytes_chunk k hfits, hoff]
    -- the rest of the bytes, from a handle that is in its place
    have hrest (hd' : Handle) (hmore : n < count) (hat' : At v chain size (k + n) hd') :
        ((Sdimg.freadLoop v d fuel (count - n) hd').1.map (fileBytes v d chain k n ++ ·)) =
            some (fileBytes v d chain k count) ∧
          After v chain size (k + count) (Sdimg.freadLoop v d fuel (count - n) hd').2 := by
      obtain ⟨hbytes, hafter⟩ := ih (show count - n ≤ fuel by omega)
        (show 0 < count - n by omega) (show k + n + (count - n) ≤ size by omega) hat'
      have hsum : k + n + (count - n) = k + count := by omega
      have hall : fileBytes v d chain k (n + (count - n)) =
          fileBytes v d chain k n ++ fileBytes v d chain (k + n) (count - n) := fileBytes_add _ _ _
      rw [show n + (count - n) = count by omega] at hall
      rw [hbytes, hall, ← hsum]
      exact ⟨rfl, hafter⟩
    by_cases hfull : k % v.bytesPerCluster + n = v.bytesPerCluster
    · have hnext : (k + n) % v.bytesPerCluster = 0 ∧
          (k + n) / v.bytesPerCluster = k / v.bytesPerCluster + 1 := by
        have hdiv := Nat.div_add_mod k v.bytesPerCluster
        have hsum : k + n = v.bytesPerCluster * (k / v.bytesPerCluster + 1) := by
          rw [Nat.mul_succ]
          omega
        rw [hsum, Nat.mul_mod_right, Nat.mul_div_cancel_left _ hcpos]
        exact ⟨rfl, rfl⟩
      by_cases hmore : n < count
      · have hlt' := h.chain_lt hv (show k + n < size by omega)
        rw [hnext.2] at hlt'
        have hlink := h.linked _ hlt
        rw [List.getElem?_eq_getElem hlt', nextCluster] at hlink
        have hsame : (hd.advance n).currentCluster = chain[k / v.bytesPerCluster] :=
          hcluster.trans hgetD
        rw [if_pos ⟨hfull.ge, hmore⟩, hsame]
        split_ifs at hlink with hfree
        rw [if_neg hfree]
        refine hrest _ hmore ⟨hused, hsizes, hcursor, fun _ => ?_, fun _ => hnext.1.symm⟩
        rw [hnext.2, List.getD_eq_getElem?_getD, List.getElem?_eq_getElem hlt']
        exact Option.some.inj hlink
      · have hlast : n = count := by omega
        rw [if_neg fun hboth => hmore hboth.2, hlast, Nat.sub_self]
        have hnone : Sdimg.freadLoop v d fuel 0 (hd.advance count) = (some [], hd.advance count) := by
          cases fuel <;> rfl
        rw [hnone]
        subst hlast
        exact ⟨congrArg some (List.append_nil _),
          hused, hsizes, hcursor, fun hne => absurd hnext.1 hne⟩
    · rw [if_neg fun hboth => hfull (Nat.le_antisymm hend hboth.1)]
      obtain ⟨hdiv, hmod⟩ :=
        mod_add_of_lt (show k % v.bytesPerCluster + n < v.bytesPerCluster by omega)
      have hat' : At v chain size (k + n) (hd.advance n) := by
        refine ⟨hused, hsizes, hcursor, fun _ => ?_, fun _ => ?_⟩
        · rw [hdiv]
          exact hcluster
        · rw [hmod]
          exact hoff
      by_cases hmore : n < count
      · exact hrest _ hmore hat'
      · have hlast : n = count := by omega
        have hnone : Sdimg.freadLoop v d fuel 0 (hd.advance n) = (some [], hd.advance n) := by
          cases fuel <;> rfl
        subst hlast
        rw [Nat.sub_self, hnone]
        exact ⟨congrArg some (List.append_nil _), hused, hsizes, hcursor, fun _ => hat'⟩

/-! ## Calls -/

/-- A read of an open file. -/
theorem IsFile.fread (h : IsFile v d first size chain) (hv : Attached v d) (hsize : size < 2 ^ 32)
    {fd : Fin 16} {img : Image} (hdisk : img.disk = d) {k : Nat} (hk : k ≤ size)
    (hat : At v chain size k (img.files fd)) (count : Nat) :
    (fread v fd count img).1 = some (fileBytes v d chain k (min count (size - k))) ∧
      (fread v fd count img).2.disk = d ∧
      (0 < min count (size - k) →
        After v chain size (k + min count (size - k)) ((fread v fd count img).2.files fd)) ∧
      (min count (size - k) = 0 → At v chain size k ((fread v fd count img).2.files fd)) := by
  have hused : (!(img.files fd).used) = false := by rw [hat.used]; rfl
  rw [Sdimg.fread]
  simp only [hused, Bool.false_eq_true, if_false, hat.size_eq, hat.cursor_eq]
  by_cases hend : size ≤ k
  · have hzero : min count (size - k) = 0 := by omega
    rw [if_pos hend, hzero]
    exact ⟨rfl, hdisk, fun hpos => absurd hpos (Nat.lt_irrefl 0), fun _ => hat⟩
  · rw [if_neg hend]
    dsimp only
    rw [Function.update_self, hdisk]
    by_cases hzero : min count (size - k) = 0
    · rw [hzero]
      exact ⟨rfl, rfl, fun hpos => absurd hpos (Nat.lt_irrefl 0), fun _ => hat⟩
    · obtain ⟨hbytes, hafter⟩ := h.freadLoop hv hsize (min count (size - k)) le_rfl
        (Nat.pos_of_ne_zero hzero) (show k + min count (size - k) ≤ size by omega) hat
      exact ⟨hbytes, rfl, fun _ => hafter, fun h => absurd h hzero⟩

/-- At the end of the file it does not matter where the handle's cluster is. -/
theorem After.at {stop : Nat} {hd : Handle} (h : After v chain size stop hd)
    (hinside : stop < size → stop % v.bytesPerCluster ≠ 0) : At v chain size stop hd := by
  obtain ⟨hused, hsizes, hcursor, hat⟩ := h
  by_cases hlt : stop < size
  · exact hat (hinside hlt)
  · exact ⟨hused, hsizes, hcursor, fun h => absurd h hlt, fun h => absurd h hlt⟩

/-- Reads one after another. -/
theorem IsFile.freads (h : IsFile v d first size chain) (hv : Attached v d) (hsize : size < 2 ^ 32)
    {fd : Fin 16} (counts : List Nat) {img : Image} (hdisk : img.disk = d) {k : Nat} (hk : k ≤ size)
    (hat : At v chain size k (img.files fd)) (hinside : ReadsInside v size counts k) :
    freads v fd counts img = fileReads v d chain size counts k := by
  induction counts generalizing img k with
  | nil => rfl
  | cons count counts ih =>
    obtain ⟨hbytes, hdisk', hafter, hstay⟩ := h.fread hv hsize hdisk hk hat count
    rw [Sdimg.freads, fileReads, hbytes]
    refine congrArg (_ :: ·) ?_
    cases counts with
    | nil => rfl
    | cons next counts =>
      obtain ⟨hstop, hrest⟩ := hinside
      have hat' : At v chain size (k + min count (size - k))
          ((Sdimg.fread v fd count img).2.files fd) := by
        by_cases hzero : min count (size - k) = 0
        · rw [hzero, Nat.add_zero]
          exact hstay hzero
        · refine (hafter (Nat.pos_of_ne_zero hzero)).at fun hlt => ?_
          exact (hstop hlt).resolve_left (by omega)
      exact ih hdisk' (by omega) hat' hrest

/-- The cluster `loci_sdimg_lseek` comes to, short of the end of the chain. -/
theorem IsFile.seekToOffset (h : IsFile v d first size chain) (hv : Attached v d) {k : Nat}
    (hk : k ≤ size) (hpos : 0 < k) (hfits : k < 2 ^ 31) :
    seekToOffset v d first k = chain[k / v.bytesPerCluster]? := by
  have hcpos := hv.cluster_bytes_pos
  have hlen : 0 < chain.length := (Nat.zero_le _).trans_lt (h.chain_lt hv (show k - 1 < size by omega))
  have hfirst : chain[0] = first :=
    h.starts _ (by rw [List.head?_eq_getElem?, List.getElem?_eq_getElem hlen]; rfl)
  have hmax : v.bytesPerCluster ≤ 512 * 255 := by
    rw [hv.cluster_bytes]
    exact Nat.mul_le_mul hv.sector_max (Nat.le_of_lt_succ hv.cluster_max)
  have hle := Nat.div_mul_le_self k v.bytesPerCluster
  rw [Sdimg.seekToOffset, if_pos (by omega), ← hfirst, h.walkChain _ 0 hlen, Nat.zero_add]

/-- The end of a file of whole clusters has no cluster. -/
theorem IsFile.chain_end (h : IsFile v d first size chain) (hv : Attached v d) {k : Nat}
    (hk : k ≤ size) : chain[k / v.bytesPerCluster]? = none ↔
      k = size ∧ size % v.bytesPerCluster = 0 := by
  have hcpos := hv.cluster_bytes_pos
  rw [List.getElem?_eq_none_iff]
  constructor
  · intro hle
    have hend : k = size := by
      by_contra hne
      exact absurd (h.chain_lt hv (Nat.lt_of_le_of_ne hk hne)) (Nat.not_lt.mpr hle)
    subst hend
    refine ⟨rfl, ?_⟩
    by_contra hmod
    rw [h.enough, Nat.div_le_iff_le_mul_add_pred hcpos] at hle
    have hdiv := Nat.div_add_mod k v.bytesPerCluster
    omega
  · rintro ⟨rfl, hmod⟩
    rw [h.enough, Nat.div_le_iff_le_mul_add_pred hcpos]
    have hdiv := Nat.div_add_mod k v.bytesPerCluster
    omega

end File

section Lseek

variable {v : Volume} {img : Image} {fd : Fin 16} {chain : List Nat} {offset : Int} {whence : Byte}
  {k : Nat}

theorem lseek_guard (hused : (img.files fd).used = true) (hwhence : whence ≤ 2#8) :
    ¬((!(img.files fd).used) = true ∨ 2#8 < whence ∨ (k : Int) < 0) := by
  rintro (h | h | h)
  · rw [hused] at h
    cases h
  · exact absurd h (BitVec.not_lt.mpr hwhence)
  · omega

/-- The seek that comes to the offset. -/
theorem lseekReturn_iff (hv : Attached v img.disk) (hused : (img.files fd).used = true)
    (hfile : IsFile v img.disk (img.files fd).firstCluster (img.files fd).sizeBytes chain)
    (hwhence : whence ≤ 2#8) (hk : seekTarget (img.files fd) offset whence = k)
    (hle : k ≤ (img.files fd).sizeBytes) :
    (∃ r, lseekReturn v fd offset whence img = some r ∧ r.toInt = k) ↔
      k < 2 ^ 31 ∧ ¬(0 < k ∧ k = (img.files fd).sizeBytes ∧ k % v.bytesPerCluster = 0) := by
  rw [lseekReturn, hk, if_neg (lseek_guard hused hwhence)]
  by_cases hzero : k = 0
  · subst hzero
    exact iff_of_true ⟨0#32, rfl, rfl⟩ ⟨by decide, fun h => absurd h.1 (Nat.lt_irrefl 0)⟩
  · rw [if_neg (by omega), Int.toNat_natCast]
    by_cases hfits : k < 2 ^ 31
    · have hend := hfile.chain_end hv hle
      have hvalue : (BitVec.ofNat 32 k).toInt = k := by
        rw [BitVec.toInt_eq_toNat_cond, BitVec.toNat_ofNat]
        split_ifs <;> omega
      rw [hfile.seekToOffset hv hle (Nat.pos_of_ne_zero hzero) hfits]
      cases hcluster : chain[k / v.bytesPerCluster]? with
      | none =>
        obtain ⟨hlast, hmod⟩ := hend.mp hcluster
        refine iff_of_false ?_ ?_
        · rintro ⟨r, hr, -⟩
          cases hr
        · rintro ⟨-, hnot⟩
          exact hnot ⟨Nat.pos_of_ne_zero hzero, hlast, hlast ▸ hmod⟩
      | some c =>
        refine iff_of_true ⟨_, rfl, hvalue⟩ ⟨hfits, ?_⟩
        rintro ⟨-, hlast, hmod⟩
        rw [hend.mpr ⟨hlast, hlast ▸ hmod⟩] at hcluster
        cases hcluster
    · refine iff_of_false ?_ fun h => hfits h.1
      rintro ⟨r, -, hr⟩
      have hlt := BitVec.toInt_lt (x := r)
      omega

/-- The handle after it. -/
theorem lseek_at (hv : Attached v img.disk) (hused : (img.files fd).used = true)
    (hfile : IsFile v img.disk (img.files fd).firstCluster (img.files fd).sizeBytes chain)
    (hwhence : whence ≤ 2#8) (hk : seekTarget (img.files fd) offset whence = k)
    (hle : k ≤ (img.files fd).sizeBytes) (hfits : k < 2 ^ 31)
    (hend : ¬(0 < k ∧ k = (img.files fd).sizeBytes ∧ k % v.bytesPerCluster = 0)) :
    (lseek v fd offset whence img).disk = img.disk ∧
      At v chain (img.files fd).sizeBytes k ((lseek v fd offset whence img).files fd) := by
  rw [lseek, hk, if_neg (lseek_guard hused hwhence)]
  by_cases hzero : k = 0
  · subst hzero
    rw [if_pos Nat.cast_zero]
    refine ⟨rfl, ?_⟩
    dsimp only
    rw [Function.update_self]
    refine ⟨hused, rfl, rfl, fun hpos => ?_, fun _ => (Nat.zero_mod _).symm⟩
    have hlen : 0 < chain.length := (Nat.zero_le _).trans_lt (hfile.chain_lt hv hpos)
    have hhead : chain.head? = some chain[0] := by
      rw [List.head?_eq_getElem?, List.getElem?_eq_getElem hlen]
    rw [Nat.zero_div, List.getD_eq_getElem?_getD, List.getElem?_eq_getElem hlen]
    exact (hfile.starts _ hhead).symm
  · rw [if_neg (by omega), Int.toNat_natCast,
      hfile.seekToOffset hv hle (Nat.pos_of_ne_zero hzero) hfits]
    cases hcluster : chain[k / v.bytesPerCluster]? with
    | none =>
      obtain ⟨hlast, hmod⟩ := (hfile.chain_end hv hle).mp hcluster
      exact absurd ⟨Nat.pos_of_ne_zero hzero, hlast, hlast ▸ hmod⟩ hend
    | some c =>
      refine ⟨rfl, ?_⟩
      dsimp only
      rw [Function.update_self]
      refine ⟨hused, rfl, rfl, fun _ => ?_, fun _ => rfl⟩
      rw [List.getD_eq_getElem?_getD, hcluster]
      rfl

/-- A seek to an offset within a file, and the reads after it. -/
theorem lseek_reads (hv : Attached v img.disk) (hused : (img.files fd).used = true)
    (hsize : (img.files fd).sizeBytes < 2 ^ 32)
    (hfile : IsFile v img.disk (img.files fd).firstCluster (img.files fd).sizeBytes chain)
    (hwhence : whence ≤ 2#8) (hk : seekTarget (img.files fd) offset whence = k) :
    ((∃ r, lseekReturn v fd offset whence img = some r ∧ r.toInt = k) ↔
      k < 2 ^ 31 ∧ ¬(0 < k ∧ k = (img.files fd).sizeBytes ∧ k % v.bytesPerCluster = 0)) ∧
    (k < 2 ^ 31 ∧ ¬(0 < k ∧ k = (img.files fd).sizeBytes ∧ k % v.bytesPerCluster = 0) →
      ∀ counts, ReadsInside v (img.files fd).sizeBytes counts k →
        freads v fd counts (lseek v fd offset whence img) =
          fileReads v img.disk chain (img.files fd).sizeBytes counts k) := by
  have hmin : seekTarget (img.files fd) offset whence ≤ (img.files fd).sizeBytes :=
    min_le_right _ _
  have hle : k ≤ (img.files fd).sizeBytes := by omega
  refine ⟨lseekReturn_iff hv hused hfile hwhence hk hle, ?_⟩
  rintro ⟨hfits, hend⟩ counts hinside
  obtain ⟨hdisk, hat⟩ := lseek_at hv hused hfile hwhence hk hle hfits hend
  exact hfile.freads hv hsize counts hdisk hle hat hinside

end Lseek

/-! ## A file of one whole cluster -/

/-- A card with a second cluster in use. -/
def wholeDisk : Disk where
  bytes i :=
    if 16396 ≤ i ∧ i < 16400 then (if i = 16399 then 0x0F#8 else 0xFF#8) else sampleDisk.bytes i
  size := sampleDisk.size
  past_end := by
    intro i hi
    rw [if_neg]
    · exact sampleDisk.past_end i hi
    · change 34089472 ≤ i at hi
      omega

/-- A file of 512 bytes, read to byte 7. -/
def wholeImage : Image where
  disk := wholeDisk
  files _ :=
    { used := true, writable := false, firstCluster := 3, sizeBytes := 512, cursor := 7,
      currentCluster := 3, clusterByteOffset := 7, dirEntryLba := 1056, dirEntryOff := 0 }

theorem wholeDisk_attached : Attached sampleVolume wholeDisk where
  toLaidOut := sampleDisk_laidOut.of_size_le (Nat.le_refl _)
  cluster_bytes := by decide
  sector_max := by decide
  cluster_max := by decide

theorem wholeDisk_isFile : IsFile sampleVolume wholeDisk 3 512 [3] where
  clusters := by decide
  starts := by decide
  linked := by decide
  enough := by decide

/-- A seek back into the file. -/
theorem lseek_reads_whole :
    (∃ r, lseekReturn sampleVolume 0 93 1#8 wholeImage = some r ∧ r.toInt = (100 : Nat)) ∧
      freads sampleVolume 0 [200, 300] (lseek sampleVolume 0 93 1#8 wholeImage) =
        fileReads sampleVolume wholeDisk [3] 512 [200, 300] 100 := by
  obtain ⟨hreturn, hreads⟩ := @lseek_reads sampleVolume wholeImage 0 [3] 93 1#8 100
    wholeDisk_attached rfl (by decide) wholeDisk_isFile (by decide) (by decide)
  have hinside : ReadsInside sampleVolume 512 [200, 300] 100 := ⟨fun _ => .inr (by decide), trivial⟩
  exact ⟨hreturn.mpr (by decide), hreads (by decide) _ hinside⟩

/-- A seek to its end. -/
theorem lseek_whole_end :
    IsFile sampleVolume wholeDisk 3 512 [3] ∧ seekTarget (wholeImage.files 0) 0 2#8 = 512 ∧
      lseekReturn sampleVolume 0 0 2#8 wholeImage = none :=
  ⟨wholeDisk_isFile, by decide, by decide⟩

end Phosphoric.Sdimg
