import Phosphoric.Sdimg.Errors
import Phosphoric.Sdimg.Seek

/-!
# Writing through one handle

A file owns the clusters of its chain, and those it takes from the free ones. `loci_sdimg_fwrite`
writes to the cluster its handle is at, and goes on to the next one of the chain within a call. When
a call ends at the end of a cluster it does not, and the next call writes to the cluster that comes
next on the card, which may be another file's.

**Theorem (`writes_owned`).** In every run of writes and seeks on a handle of a well-formed volume
in which no write starts at the end of a cluster, the bytes of the image that change are in the
FATs, in clusters of its chain that it had or that were free, and in the 32 bytes of its directory
entry; and the contents, chains and directory entries of other files stay as they are.
-/

namespace Phosphoric.Sdimg

open Function (update)
open Store Machine

/-! ## Places -/

/-- The bytes of the FATs. -/
def fatArea (v : Volume) : Set Nat := {i | fatPos v 0 ≤ i ∧ i < fatPos v v.numFats}

/-- The bytes of a sector. -/
def sectorBytes (v : Volume) (lba : Nat) : Set Nat :=
  {i | sectorPos v lba ≤ i ∧ i < sectorPos v lba + v.bytesPerSector}

/-- The bytes of a cluster. -/
def clusterBytes (v : Volume) (c : Nat) : Set Nat :=
  {i | ∃ lba ∈ clusterSectors v c, i ∈ sectorBytes v lba}

/-- The bytes of a directory entry. -/
def entryBytes (v : Volume) (lba off : Nat) : Set Nat :=
  {i | sectorPos v lba + off ≤ i ∧ i < sectorPos v lba + off + 32}

section Frames

variable {v : Volume} {d d' : Disk}

theorem changeSector_bytes {lba : Nat} {change : (Nat → Byte) → Nat → Byte}
    (h : changeSector v lba change d = some d') {i : Nat} (hi : i ∉ sectorBytes v lba) :
    d'.bytes i = d.bytes i := by
  obtain ⟨sec, -, hwrite⟩ := Option.bind_eq_some_iff.mp h
  rw [writeSector] at hwrite
  split_ifs at hwrite
  cases hwrite
  exact blit_of_not_mem hi

/-- A byte of the entry's sector, its entry apart. -/
theorem updateDirEntry_bytes {lba off first size : Nat}
    (h : updateDirEntry v lba off first size d = some d') {i : Nat}
    (hi : i ∉ entryBytes v lba off) : d'.bytes i = d.bytes i := by
  by_cases hin : i ∈ sectorBytes v lba
  · obtain ⟨sec, hread, hwrite⟩ := Option.bind_eq_some_iff.mp h
    rw [writeSector] at hwrite
    split_ifs at hwrite
    cases hwrite
    rw [readSector] at hread
    split_ifs at hread
    cases hread
    obtain ⟨hlo, hhi⟩ := hin
    have hout : ¬(sectorPos v lba + off ≤ i ∧ i < sectorPos v lba + off + 32) := hi
    rw [Disk.blit_bytes, blit_of_mem ⟨hlo, hhi⟩]
    dsimp only [putEntry, setLe]
    rw [blit_of_not_mem (by omega), blit_of_not_mem (by omega), blit_of_not_mem (by omega), clip,
      if_pos (by omega), Nat.add_sub_cancel' hlo]
  · exact changeSector_bytes h hin

namespace LaidOut

variable (h : LaidOut v d)
include h

theorem writeFats_bytes (hro : v.readOnly = false) (sec : Nat → Byte) {s : Nat}
    (hs : s < v.sectorsPerFat) (n i : Nat) (hn : i + n ≤ v.numFats)
    (hwrite : writeFats v sec s n i d = some d') {p : Nat} (hp : p ∉ fatArea v) :
    d'.bytes p = d.bytes p := by
  induction n generalizing d i with
  | zero =>
    cases hwrite
    rfl
  | succ n ih =>
    have hlaid : LaidOut v (d.blit (fatPos v i + s * v.bytesPerSector) v.bytesPerSector sec) :=
      h.of_size_le (Nat.le_max_left _ _)
    have hfirst : writeSector v d (u32 (v.fatStartSector + i * v.sectorsPerFat + s)) sec =
        some (d.blit (fatPos v i + s * v.bytesPerSector) v.bytesPerSector sec) := by
      rw [writeSector, hro, h.sectorPos_fat (by omega) hs]
      rfl
    rw [writeFats, hfirst, Option.bind_some] at hwrite
    have hstart : fatPos v 0 ≤ fatPos v i := by
      rcases Nat.eq_zero_or_pos i with rfl | hpos
      · exact le_rfl
      · exact (Nat.le_add_right _ _).trans (fatPos_lt hpos)
    have hend : fatPos v i + fatBytes v ≤ fatPos v v.numFats := fatPos_lt (by omega)
    have hsector : s * v.bytesPerSector + v.bytesPerSector ≤ fatBytes v := by
      rw [fatBytes, ← Nat.succ_mul]
      exact Nat.mul_le_mul_right _ hs
    have hout : ¬(fatPos v 0 ≤ p ∧ p < fatPos v v.numFats) := hp
    rw [ih hlaid (i + 1) (by omega) hwrite, Disk.blit_bytes, blit_of_not_mem (by omega)]

theorem writeFatEntry_bytes (hro : v.readOnly = false) {c value : Nat}
    (hc : c < v.countOfClusters + 2) (hwrite : writeFatEntry v d c value = some d') {i : Nat}
    (hi : i ∉ fatArea v) : d'.bytes i = d.bytes i := by
  obtain ⟨sec, -, hfats⟩ := Option.bind_eq_some_iff.mp hwrite
  exact h.writeFats_bytes hro _ (h.entry_place (h.hasEntry hc)).2.2.1 _ 0 (by omega) hfats hi

theorem allocFreeCluster_bytes (hro : v.readOnly = false) {hint : Nat}
    (hhint : hint ≤ v.countOfClusters + 2) {i : Nat} (hi : i ∉ fatArea v) :
    (allocFreeCluster v d hint).2.bytes i = d.bytes i := by
  rcases h.allocFreeCluster_spec hro hhint with ⟨-, hfull⟩ | ⟨c, d₁, hfree, halloc, -⟩
  · rw [hfull]
  · rw [halloc]
    have hlo := hfree.1
    rw [allocFreeCluster] at halloc
    split at halloc
    · cases halloc
      omega
    · split at halloc
      · cases halloc
        omega
      · rename_i hwrite
        cases halloc
        exact h.writeFatEntry_bytes hro hfree.2.1 hwrite hi

theorem extendChain_bytes (hro : v.readOnly = false) {last : Nat}
    (hlast : last < v.countOfClusters + 2) {i : Nat} (hi : i ∉ fatArea v) :
    (extendChain v d last).2.bytes i = d.bytes i := by
  have hhint : u32 (last + 1) ≤ v.countOfClusters + 2 := (u32_le _).trans hlast
  have halloc := h.allocFreeCluster_bytes hro hhint hi
  have hlaid : LaidOut v (allocFreeCluster v d (u32 (last + 1))).2 := by
    rcases h.allocFreeCluster_spec hro hhint with ⟨-, hfull⟩ | ⟨c, d₁, -, hnew, hchanges, -⟩
    · rw [hfull]
      exact h
    · rw [hnew]
      exact hchanges.laid
  rw [extendChain]
  split_ifs
  · exact halloc
  · cases hwrite : writeFatEntry v (allocFreeCluster v d (u32 (last + 1))).2 last
        (allocFreeCluster v d (u32 (last + 1))).1 with
    | none => exact halloc
    | some d₂ => exact (hlaid.writeFatEntry_bytes hro hlast hwrite hi).trans halloc

end LaidOut

end Frames

/-! ## The clusters of a file -/

/-- A link of a chain within some clusters. -/
def LinkIn (v : Volume) (d : Disk) (own : Set Nat) (a b : Nat) : Prop :=
  a ∈ own ∧ nextCluster v d a = some b

/-- What a file owns on a disk that came from `d₀`: its clusters are those of `own₀` and some that
were free, and nothing changed but in them, in the FATs and in its entry. -/
structure Owned (v : Volume) (d₀ : Disk) (own₀ : Set Nat) (lba off : Nat) (d : Disk)
    (own : Set Nat) : Prop where
  laid : LaidOut v d
  taken : ∀ c ∈ own, c ∈ own₀ ∨ Free v d₀ c
  cluster : ∀ c ∈ own, 2 ≤ c ∧ c < v.countOfClusters + 2
  used : ∀ c ∈ own, readFatEntry v d c ≠ 0
  closed : ∀ c ∈ own, readFatEntry v d c ≠ eoc → readFatEntry v d c ∈ own
  entries : ∀ c < v.countOfClusters + 2, c ∉ own → readFatEntry v d c = readFatEntry v d₀ c
  bytes : ∀ i, i ∉ fatArea v → (∀ c ∈ own, i ∉ clusterBytes v c) → i ∉ entryBytes v lba off →
    d.bytes i = d₀.bytes i

/-- A handle of that file. -/
structure Held (v : Volume) (lba off : Nat) (d : Disk) (own : Set Nat) (h : Handle) : Prop where
  current : 2 ≤ h.firstCluster → h.currentCluster ∈ own
  chain : 2 ≤ h.firstCluster → h.firstCluster ∈ own ∧
    ∀ c ∈ own, Relation.ReflTransGen (LinkIn v d own) h.firstCluster c
  empty : h.firstCluster < 2 → own = ∅
  lba_eq : h.dirEntryLba = lba
  off_eq : h.dirEntryOff = off

section Steps

variable {v : Volume} {d₀ d d' : Disk} {own₀ own : Set Nat} {lba off : Nat} {h : Handle}

/-- A write into the file's clusters or its entry. -/
theorem Owned.written (ho : Owned v d₀ own₀ lba off d own) (hlaid : LaidOut v d')
    (hentry : ∀ c < v.countOfClusters + 2, readFatEntry v d' c = readFatEntry v d c)
    (hbytes : ∀ i, i ∉ fatArea v → (∀ c ∈ own, i ∉ clusterBytes v c) → i ∉ entryBytes v lba off →
      d'.bytes i = d.bytes i) : Owned v d₀ own₀ lba off d' own where
  laid := hlaid
  taken := ho.taken
  cluster := ho.cluster
  used c hc := by
    rw [hentry c (ho.cluster c hc).2]
    exact ho.used c hc
  closed c hc := by
    rw [hentry c (ho.cluster c hc).2]
    exact ho.closed c hc
  entries c hc hnot := (hentry c hc).trans (ho.entries c hc hnot)
  bytes i hfat hown hout := (hbytes i hfat hown hout).trans (ho.bytes i hfat hown hout)

/-- The chain stays where its links do. -/
theorem Held.kept (hh : Held v lba off d own h) (ho : Owned v d₀ own₀ lba off d own)
    (hentry : ∀ c < v.countOfClusters + 2, readFatEntry v d' c = readFatEntry v d c) :
    Held v lba off d' own h where
  current := hh.current
  chain hfirst := by
    have hlinks : ∀ a b, LinkIn v d own a b → LinkIn v d' own a b := by
      rintro a b ⟨ha, hnext⟩
      refine ⟨ha, ?_⟩
      rw [nextCluster, hentry a (ho.cluster a ha).2]
      exact hnext
    obtain ⟨hmem, hreach⟩ := hh.chain hfirst
    exact ⟨hmem, fun c hc => Relation.ReflTransGen.mono hlinks _ _ (hreach c hc)⟩
  empty := hh.empty
  lba_eq := hh.lba_eq
  off_eq := hh.off_eq

/-- A free cluster is taken, with nothing after it. -/
theorem Owned.took {c : Nat} (ho : Owned v d₀ own₀ lba off d own) (hfree : Free v d c)
    (hlaid : LaidOut v d') (hend : readFatEntry v d' c = eoc)
    (hlinks : ∀ a ∈ own, readFatEntry v d' a = readFatEntry v d a ∨ readFatEntry v d' a = c)
    (hentry : ∀ a < v.countOfClusters + 2, a ∉ insert c own →
      readFatEntry v d' a = readFatEntry v d a)
    (hbytes : ∀ i, i ∉ fatArea v → d'.bytes i = d.bytes i) :
    Owned v d₀ own₀ lba off d' (insert c own) := by
  have hnot : c ∉ own := fun hc => ho.used c hc hfree.2.2
  have hnew : Free v d₀ c :=
    ⟨hfree.1, hfree.2.1, (ho.entries c hfree.2.1 hnot).symm.trans hfree.2.2⟩
  refine ⟨hlaid, ?_, ?_, ?_, ?_, ?_, ?_⟩
  · rintro a (rfl | ha)
    · exact .inr hnew
    · exact ho.taken a ha
  · rintro a (rfl | ha)
    · exact ⟨hfree.1, hfree.2.1⟩
    · exact ho.cluster a ha
  · rintro a (rfl | ha)
    · rw [hend]
      decide
    · rcases hlinks a ha with hsame | hlink
      · rw [hsame]
        exact ho.used a ha
      · rw [hlink]
        have := hfree.1
        omega
  · rintro a (rfl | ha) hne
    · exact absurd hend hne
    · rcases hlinks a ha with hsame | hlink
      · rw [hsame] at hne ⊢
        exact .inr (ho.closed a ha hne)
      · exact .inl hlink
  · intro a ha hout
    exact (hentry a ha hout).trans (ho.entries a ha fun h => hout (.inr h))
  · intro i hfat hown hout
    exact (hbytes i hfat).trans (ho.bytes i hfat (fun a ha => hown a (.inr ha)) hout)

/-- The bytes of a turn go into a cluster of the file. -/
theorem Owned.fwriteSector (ho : Owned v d₀ own₀ lba off d own) (hro : v.readOnly = false)
    (hbpc : v.bytesPerCluster = v.bytesPerSector * v.sectorsPerCluster)
    (hcur : h.currentCluster ∈ own) (hoff : h.clusterByteOffset < v.bytesPerCluster)
    (data : List Byte) :
    ∃ d', fwriteSector v data h d = some d' ∧ Owned v d₀ own₀ lba off d' own ∧
      ∀ c < v.countOfClusters + 2, readFatEntry v d' c = readFatEntry v d c := by
  obtain ⟨hlo, hhi⟩ := ho.cluster _ hcur
  have hs := ho.laid.sector_of_lt hbpc hoff
  obtain ⟨hsector, hdata⟩ := ho.laid.clusterSector hlo hhi hs
  obtain ⟨-, d', -, hwrite, hchanges, -⟩ := ho.laid.changeSector_data hro hdata fun sec =>
    blit sec (h.clusterByteOffset % v.bytesPerSector) (fileChunk v h data.length)
      fun i => data.getD i 0#8
  have hentry : ∀ c < v.countOfClusters + 2, readFatEntry v d' c = readFatEntry v d c :=
    fun c hc => hchanges.entry c hc (Set.notMem_empty c)
  refine ⟨d', ?_, ho.written hchanges.laid hentry fun i _ hi _ => ?_, hentry⟩
  · rw [Sdimg.fwriteSector, fileSector, hsector]
    exact hwrite
  · exact changeSector_bytes hwrite fun hin => hi _ hcur ⟨_, ⟨_, hs, rfl⟩, hin⟩

/-- The handle after the bytes of a turn. -/
theorem Held.wrote (hh : Held v lba off d own h) (hfirst : 2 ≤ h.firstCluster) (chunk : Nat) :
    Held v lba off d own (h.wrote chunk) where
  current := hh.current
  chain := hh.chain
  empty hlt := absurd hfirst (Nat.not_le.mpr hlt)
  lba_eq := hh.lba_eq
  off_eq := hh.off_eq

/-- The handle at the start of a cluster of the file. -/
theorem Held.at (hh : Held v lba off d own h) {c : Nat} (hc : c ∈ own) :
    Held v lba off d own { h with currentCluster := c, clusterByteOffset := 0 } where
  current _ := hc
  chain := hh.chain
  empty := hh.empty
  lba_eq := hh.lba_eq
  off_eq := hh.off_eq

/-- The chain is extended at the handle's cluster, its last. -/
theorem Held.extended {c : Nat} (hh : Held v lba off d own h) (ho : Owned v d₀ own₀ lba off d own)
    (hfirst : 2 ≤ h.firstCluster) (hlast : readFatEntry v d h.currentCluster = eoc)
    (hfree : Free v d c) (hlink : readFatEntry v d' h.currentCluster = c)
    (hentry : ∀ a < v.countOfClusters + 2, a ≠ c → a ≠ h.currentCluster →
      readFatEntry v d' a = readFatEntry v d a) (hne : c ≠ eoc) :
    Held v lba off d' (insert c own) { h with currentCluster := c, clusterByteOffset := 0 } where
  current _ := .inl rfl
  chain _ := by
    obtain ⟨hmem, hreach⟩ := hh.chain hfirst
    have hnot : c ∉ own := fun hc => ho.used c hc hfree.2.2
    have hlinks : ∀ a b, LinkIn v d own a b → LinkIn v d' (insert c own) a b := by
      rintro a b ⟨ha, hnext⟩
      have hcur : a ≠ h.currentCluster := by
        rintro rfl
        rw [nextCluster, hlast] at hnext
        exact absurd hnext (by simp)
      refine ⟨.inr ha, ?_⟩
      rw [nextCluster, hentry a (ho.cluster a ha).2 (fun hac => hnot (hac ▸ ha)) hcur]
      exact hnext
    have hold : ∀ a ∈ own,
        Relation.ReflTransGen (LinkIn v d' (insert c own)) h.firstCluster a :=
      fun a ha => Relation.ReflTransGen.mono hlinks _ _ (hreach a ha)
    refine ⟨.inr hmem, ?_⟩
    rintro a (rfl | ha)
    · refine (hold _ (hh.current hfirst)).tail ⟨.inr (hh.current hfirst), ?_⟩
      have hzero : a ≠ 0 := by
        have := hfree.1
        omega
      rw [nextCluster, hlink]
      exact if_neg (not_or.mpr ⟨hzero, hne⟩)
    · exact hold a ha
  empty hlt := absurd hfirst (Nat.not_le.mpr hlt)
  lba_eq := hh.lba_eq
  off_eq := hh.off_eq

/-- Where a turn of the loop of `loci_sdimg_fwrite` leaves the file and the handle: with more to
write the handle is within a cluster. -/
def TurnOwned (v : Volume) (d₀ : Disk) (own₀ : Set Nat) (lba off : Nat) (own : Set Nat) :
    FwriteTurn → Prop
  | .leave _ d h => Owned v d₀ own₀ lba off d own ∧ Held v lba off d own h ∧ 2 ≤ h.firstCluster
  | .go d h rest => Owned v d₀ own₀ lba off d own ∧ Held v lba off d own h ∧
      2 ≤ h.firstCluster ∧ (rest = [] ∨ h.clusterByteOffset < v.bytesPerCluster)

/-- A turn of the loop. -/
theorem Owned.fwriteTurn (ho : Owned v d₀ own₀ lba off d own) (hro : v.readOnly = false)
    (hbpc : v.bytesPerCluster = v.bytesPerSector * v.sectorsPerCluster)
    (hh : Held v lba off d own h) (hfirst : 2 ≤ h.firstCluster)
    (hoff : h.clusterByteOffset < v.bytesPerCluster) (data : List Byte) :
    ∃ own', TurnOwned v d₀ own₀ lba off own' (fwriteTurn v data h d) := by
  have hcur := hh.current hfirst
  obtain ⟨d', hwrite, ho', hentry⟩ := ho.fwriteSector hro hbpc hcur hoff data
  have hh' := (hh.wrote hfirst (fileChunk v h data.length)).kept ho hentry
  have hpos : 0 < v.bytesPerCluster := (Nat.zero_le _).trans_lt hoff
  rw [Sdimg.fwriteTurn, hwrite]
  dsimp only
  by_cases hnext : nextNeeded v data h
  · rw [if_pos hnext]
    by_cases hend : readFatEntry v d' h.currentCluster = eoc
    · rw [if_pos hend]
      have hhi := (ho'.cluster _ hcur).2
      have hbytes := fun i (hi : i ∉ fatArea v) => ho'.laid.extendChain_bytes hro hhi hi
      rcases ho'.laid.extendChain_spec hro hhi (ho'.used _ hcur) with
        ⟨-, hfull⟩ | ⟨c, d₂, hfree, hextend, hchanges, hlast, hlink⟩
      · rw [hfull]
        exact ⟨own, ho', hh', hfirst⟩
      · rw [hextend] at hbytes ⊢
        have hzero : c ≠ 0 := by
          have := hfree.1
          omega
        dsimp only
        rw [if_neg hzero]
        have hother : ∀ a < v.countOfClusters + 2, a ≠ c → a ≠ h.currentCluster →
            readFatEntry v d₂ a = readFatEntry v d' a :=
          fun a ha hac hacur => hchanges.entry a ha (by simp [hac, hacur])
        have hnot : c ∉ own := fun hc => ho'.used c hc hfree.2.2
        refine ⟨insert c own, ?_, ?_, hfirst, .inr hpos⟩
        · refine ho'.took hfree hchanges.laid hlast (fun a ha => ?_) (fun a ha hout => ?_) hbytes
          · by_cases hacur : a = h.currentCluster
            · exact .inr (hacur ▸ hlink)
            · exact .inl (hother a (ho'.cluster a ha).2 (fun hac => hnot (hac ▸ ha)) hacur)
          · exact hother a ha (fun hac => hout (.inl hac)) fun hacur => hout (.inr (hacur ▸ hcur))
        · have hne : c ≠ eoc := (ho'.laid.lt_eoc hfree.2.1).ne
          exact hh'.extended ho' hfirst hend hfree hlink hother hne
    · rw [if_neg hend]
      exact ⟨own, ho', hh'.at (ho'.closed _ hcur hend), hfirst, .inr hpos⟩
  · rw [if_neg hnext]
    refine ⟨own, ho', hh', hfirst, ?_⟩
    by_cases hmore : fileChunk v h data.length < data.length
    · exact .inr (Nat.not_le.mp fun hle => hnext ⟨hle, hmore⟩)
    · exact .inl (List.drop_eq_nil_of_le (Nat.not_lt.mp hmore))

/-- The loop. -/
theorem Owned.fwriteLoop (hro : v.readOnly = false)
    (hbpc : v.bytesPerCluster = v.bytesPerSector * v.sectorsPerCluster) (fuel : Nat)
    {data : List Byte} (ho : Owned v d₀ own₀ lba off d own) (hh : Held v lba off d own h)
    (hfirst : 2 ≤ h.firstCluster)
    (hoff : data = [] ∨ h.clusterByteOffset < v.bytesPerCluster) :
    ∃ own', Owned v d₀ own₀ lba off (fwriteLoop v fuel data h d).2.2 own' ∧
      Held v lba off (fwriteLoop v fuel data h d).2.2 own' (fwriteLoop v fuel data h d).2.1 ∧
      2 ≤ (fwriteLoop v fuel data h d).2.1.firstCluster := by
  induction fuel generalizing data h d own with
  | zero => exact ⟨own, ho, hh, hfirst⟩
  | succ fuel ih =>
    rw [Sdimg.fwriteLoop]
    by_cases hdata : data = []
    · rw [if_pos hdata]
      exact ⟨own, ho, hh, hfirst⟩
    · rw [if_neg hdata]
      obtain ⟨own', hturn⟩ :=
        ho.fwriteTurn hro hbpc hh hfirst (hoff.resolve_left hdata) data
      cases hgo : Sdimg.fwriteTurn v data h d with
      | leave upd d' h' =>
        rw [hgo] at hturn
        exact ⟨own', hturn⟩
      | go d' h' rest =>
        rw [hgo] at hturn
        obtain ⟨ho', hh', hfirst', hoff'⟩ := hturn
        exact ih ho' hh' hfirst' hoff'

/-! ## The calls -/

/-- The first cluster of a file that has none. -/
theorem Owned.fwriteFirst (ho : Owned v d₀ own₀ lba off d own) (hro : v.readOnly = false)
    (hpos : 0 < v.bytesPerCluster) (hh : Held v lba off d own h)
    (hoff : 2 ≤ h.firstCluster → h.clusterByteOffset < v.bytesPerCluster) :
    fwriteFirst v h d = (none, d) ∨ ∃ h' d' own', fwriteFirst v h d = (some h', d') ∧
      Owned v d₀ own₀ lba off d' own' ∧ Held v lba off d' own' h' ∧ 2 ≤ h'.firstCluster ∧
      h'.clusterByteOffset < v.bytesPerCluster := by
  by_cases hfirst : h.firstCluster < 2
  · obtain rfl := hh.empty hfirst
    have hhint : 2 ≤ v.countOfClusters + 2 := Nat.le_add_left 2 _
    have hbytes := fun i (hi : i ∉ fatArea v) => ho.laid.allocFreeCluster_bytes hro hhint hi
    rcases ho.laid.allocFreeCluster_spec hro hhint with
      ⟨-, hfull⟩ | ⟨c, d', hfree, halloc, hchanges, hend⟩
    · rw [Sdimg.fwriteFirst, if_pos hfirst, hfull]
      exact .inl rfl
    · rw [halloc] at hbytes
      have hlo := hfree.1
      have hzero : c ≠ 0 := by omega
      have howned : Owned v d₀ own₀ lba off d' (insert c ∅) :=
        ho.took hfree hchanges.laid hend (fun a ha => absurd ha (Set.notMem_empty a))
          (fun a ha hout => hchanges.entry a ha fun hac => hout (.inl hac)) hbytes
      have hself : ∀ a ∈ (insert c ∅ : Set Nat), c = a := by
        rintro a (rfl | ha)
        · rfl
        · exact absurd ha (Set.notMem_empty a)
      refine .inr ⟨{ h with firstCluster := c, currentCluster := c, clusterByteOffset := 0 }, d',
        insert c ∅, ?_, howned, ?_, hlo, hpos⟩
      · rw [Sdimg.fwriteFirst, if_pos hfirst, halloc]
        exact if_neg hzero
      · refine ⟨fun _ => .inl rfl, fun _ => ⟨.inl rfl, fun a ha => ?_⟩, fun hlt => ?_, hh.lba_eq,
          hh.off_eq⟩
        · rw [← hself a ha]
        · exact absurd hlo (Nat.not_le.mpr hlt)
  · rw [Sdimg.fwriteFirst, if_neg hfirst]
    exact .inr ⟨h, d, own, rfl, ho, hh, Nat.not_lt.mp hfirst, hoff (Nat.not_lt.mp hfirst)⟩

/-- The directory entry is brought up to date. -/
theorem Owned.updateDirEntry (ho : Owned v d₀ own₀ lba off d own) (hro : v.readOnly = false)
    (hlba : DataSector v lba) (first size : Nat) :
    Owned v d₀ own₀ lba off ((updateDirEntry v lba off first size d).getD d) own ∧
      ∀ c < v.countOfClusters + 2,
        readFatEntry v ((updateDirEntry v lba off first size d).getD d) c = readFatEntry v d c := by
  obtain ⟨-, d', -, hwrite, hchanges, -⟩ :=
    ho.laid.changeSector_data hro hlba fun sec => putEntry sec off first size
  have hupdate : Sdimg.updateDirEntry v lba off first size d = some d' := hwrite
  have hentry : ∀ c < v.countOfClusters + 2, readFatEntry v d' c = readFatEntry v d c :=
    fun c hc => hchanges.entry c hc (Set.notMem_empty c)
  rw [hupdate, Option.getD_some]
  exact ⟨ho.written hchanges.laid hentry fun i _ _ hi => updateDirEntry_bytes hupdate hi, hentry⟩

/-- `loci_sdimg_fwrite`, not at the end of a cluster. -/
theorem Owned.fwrite {img : Image} {fd : Fin 16} (ho : Owned v d₀ own₀ lba off img.disk own)
    (hh : Held v lba off img.disk own (img.files fd))
    (hbpc : v.bytesPerCluster = v.bytesPerSector * v.sectorsPerCluster)
    (hlba : DataSector v lba) {data : List Byte}
    (hoff : data ≠ [] → 2 ≤ (img.files fd).firstCluster →
      (img.files fd).clusterByteOffset < v.bytesPerCluster) :
    ∃ own', Owned v d₀ own₀ lba off (fwrite v fd data img).disk own' ∧
      Held v lba off (fwrite v fd data img).disk own' ((fwrite v fd data img).files fd) := by
  have hpos : 0 < v.bytesPerCluster := by
    rw [hbpc]
    exact Nat.mul_pos ho.laid.sector_pos ho.laid.cluster_pos
  rw [Sdimg.fwrite]
  dsimp only
  split_ifs with hguard
  · exact ⟨own, ho, hh⟩
  · simp only [Bool.or_eq_true, Bool.not_eq_true', not_or, Bool.not_eq_false,
      Bool.not_eq_true, List.isEmpty_eq_false_iff] at hguard
    obtain ⟨⟨-, hro⟩, hdata⟩ := hguard
    rcases ho.fwriteFirst hro hpos hh (hoff hdata) with
      hfull | ⟨h', d', own', hfirst, ho', hh', hfirst', hoff'⟩
    · rw [hfull]
      exact ⟨own, ho, hh⟩
    · rw [hfirst]
      obtain ⟨own'', ho'', hh'', -⟩ :=
        ho'.fwriteLoop hro hbpc data.length hh' hfirst' (.inr hoff')
      dsimp only
      generalize Sdimg.fwriteLoop v data.length data h' d' = out at ho'' hh''
      obtain ⟨upd, hend, dend⟩ := out
      dsimp only at ho'' hh'' ⊢
      rw [Function.update_self, hh''.lba_eq, hh''.off_eq]
      refine ⟨own'', ?_⟩
      split_ifs
      · obtain ⟨howned, hentry⟩ :=
          ho''.updateDirEntry hro hlba hend.firstCluster hend.sizeBytes
        exact ⟨howned, hh''.kept ho'' hentry⟩
      · exact ⟨ho'', hh''⟩

theorem Owned.walkChain (ho : Owned v d₀ own₀ lba off d own) (k : Nat) {a c : Nat} (ha : a ∈ own)
    (hwalk : walkChain v d k a = some c) : c ∈ own := by
  induction k generalizing a with
  | zero =>
    cases hwalk
    exact ha
  | succ k ih =>
    rw [Sdimg.walkChain] at hwalk
    obtain ⟨b, hnext, hrest⟩ := Option.bind_eq_some_iff.mp hwalk
    rw [nextCluster] at hnext
    split_ifs at hnext with hstop
    cases hnext
    exact ih (ho.closed a ha fun hend => hstop (.inr hend)) hrest

/-- `loci_sdimg_lseek` stays in the file. -/
theorem Owned.lseek {img : Image} {fd : Fin 16} (ho : Owned v d₀ own₀ lba off img.disk own)
    (hh : Held v lba off img.disk own (img.files fd)) (offset : Int) (whence : Byte) :
    (lseek v fd offset whence img).disk = img.disk ∧
      Held v lba off img.disk own ((lseek v fd offset whence img).files fd) := by
  rw [Sdimg.lseek]
  split_ifs with hguard hzero
  · exact ⟨rfl, hh⟩
  · refine ⟨rfl, ?_⟩
    dsimp only
    rw [Function.update_self]
    exact ⟨fun hfirst => (hh.chain hfirst).1, hh.chain, hh.empty, hh.lba_eq, hh.off_eq⟩
  · cases hseek : seekToOffset v img.disk (img.files fd).firstCluster
        (seekTarget (img.files fd) offset whence).toNat with
    | none => exact ⟨rfl, hh⟩
    | some c =>
      refine ⟨rfl, ?_⟩
      dsimp only
      rw [Function.update_self]
      refine ⟨fun hfirst => ?_, hh.chain, hh.empty, hh.lba_eq, hh.off_eq⟩
      rw [Sdimg.seekToOffset] at hseek
      split_ifs at hseek
      exact ho.walkChain _ (hh.chain hfirst).1 hseek

end Steps

/-! ## Runs -/

/-- A call on a handle open for writing. -/
inductive WriteOp where
  | fwrite (data : List Byte)
  | lseek (offset : Int) (whence : Byte)

def WriteOp.run (v : Volume) (fd : Fin 16) (img : Image) : WriteOp → Image
  | .fwrite data => Sdimg.fwrite v fd data img
  | .lseek offset whence => Sdimg.lseek v fd offset whence img

/-- A write does not start at the end of a cluster. -/
def Inside (v : Volume) (fd : Fin 16) (img : Image) : WriteOp → Prop
  | .fwrite data => data ≠ [] → 2 ≤ (img.files fd).firstCluster →
      (img.files fd).clusterByteOffset < v.bytesPerCluster
  | .lseek _ _ => True

/-- A handle of a file with this chain. -/
structure OpenOn (v : Volume) (d : Disk) (chain : List Nat) (h : Handle) : Prop where
  chained : 2 ≤ h.firstCluster → Chain v d h.firstCluster chain
  current : 2 ≤ h.firstCluster → h.currentCluster ∈ chain
  empty : h.firstCluster < 2 → chain = []
  entry : DataSector v h.dirEntryLba
  slot : 32 ∣ h.dirEntryOff ∧ h.dirEntryOff + 32 ≤ v.bytesPerSector

section Runs

variable {v : Volume} {d d' : Disk} {chain : List Nat} {h : Handle}

theorem Chain.used (hchain : Chain v d h.firstCluster chain) {c : Nat} (hc : c ∈ chain) :
    readFatEntry v d c ≠ 0 := by
  intro hzero
  obtain ⟨hlo, hhi⟩ := hchain.clusters c hc
  exact hchain.not_free ⟨hlo, hhi, hzero⟩ hc

theorem Chain.closed (hchain : Chain v d h.firstCluster chain) {c : Nat} (hc : c ∈ chain)
    (hmore : readFatEntry v d c ≠ eoc) : readFatEntry v d c ∈ chain := by
  obtain ⟨i, hi, rfl⟩ := List.getElem_of_mem hc
  by_cases hnext : i + 1 < chain.length
  · rw [hchain.link hnext]
    exact List.getElem_mem hnext
  · exact absurd (hchain.end_link (by omega)) hmore

/-- Every cluster of a chain is some links from the first. -/
theorem Chain.reach (hchain : Chain v d h.firstCluster chain) (hlaid : LaidOut v d) (i : Nat)
    (hi : i < chain.length) :
    Relation.ReflTransGen (LinkIn v d {c | c ∈ chain}) h.firstCluster chain[i] := by
  induction i with
  | zero =>
    have hstart := hchain.starts
    rw [List.head?_eq_getElem?, List.getElem?_eq_getElem hi] at hstart
    rw [Option.some.inj hstart]
  | succ i ih =>
    have hlt : i < chain.length := Nat.lt_of_succ_lt hi
    obtain ⟨hlo, hhi⟩ := hchain.clusters _ (List.getElem_mem hi)
    have hend := hlaid.lt_eoc hhi
    refine (ih hlt).tail ⟨List.getElem_mem hlt, ?_⟩
    rw [nextCluster, hchain.link hi]
    exact if_neg (by omega)

theorem OpenOn.owned (ho : OpenOn v d chain h) (hlaid : LaidOut v d) :
    Owned v d {c | c ∈ chain} h.dirEntryLba h.dirEntryOff d {c | c ∈ chain} ∧
      Held v h.dirEntryLba h.dirEntryOff d {c | c ∈ chain} h := by
  by_cases hfirst : 2 ≤ h.firstCluster
  · have hchain := ho.chained hfirst
    refine ⟨⟨hlaid, fun c hc => .inl hc, hchain.clusters, fun c => hchain.used,
      fun c => hchain.closed, fun _ _ _ => rfl, fun _ _ _ _ => rfl⟩, ho.current,
      fun _ => ⟨?_, ?_⟩, fun hlt => absurd hfirst (Nat.not_le.mpr hlt), rfl, rfl⟩
    · exact List.mem_of_head? hchain.starts
    · intro c hc
      obtain ⟨i, hi, rfl⟩ := List.getElem_of_mem hc
      exact hchain.reach hlaid i hi
  · obtain rfl := ho.empty (Nat.not_le.mp hfirst)
    have hnone : ∀ c ∈ {c : Nat | c ∈ ([] : List Nat)}, False := fun c hc =>
      absurd hc List.not_mem_nil
    exact ⟨⟨hlaid, fun c hc => .inl hc, fun c hc => (hnone c hc).elim,
      fun c hc => (hnone c hc).elim, fun c hc => (hnone c hc).elim, fun _ _ _ => rfl,
      fun _ _ _ _ => rfl⟩, fun hlo => absurd hlo hfirst, fun hlo => absurd hlo hfirst,
      fun _ => Set.eq_empty_of_forall_notMem hnone, rfl, rfl⟩

/-- The run so far has stayed in the file. -/
def InFile (v : Volume) (d₀ : Disk) (own₀ : Set Nat) (lba off : Nat) (fd : Fin 16) (img : Image) :
    Prop :=
  ∃ own, Owned v d₀ own₀ lba off img.disk own ∧ Held v lba off img.disk own (img.files fd)

/-- One call. -/
theorem InFile.run {d₀ : Disk} {own₀ : Set Nat} {lba off : Nat} {fd : Fin 16} {img : Image}
    (hbpc : v.bytesPerCluster = v.bytesPerSector * v.sectorsPerCluster) (hlba : DataSector v lba)
    (op : WriteOp) (h : InFile v d₀ own₀ lba off fd img) (hin : Inside v fd img op) :
    InFile v d₀ own₀ lba off fd (op.run v fd img) := by
  obtain ⟨own, ho, hh⟩ := h
  cases op with
  | fwrite data => exact ho.fwrite hh hbpc hlba hin
  | lseek offset whence =>
    obtain ⟨hdisk, hheld⟩ := ho.lseek hh offset whence
    refine ⟨own, ?_, ?_⟩
    · rw [WriteOp.run, hdisk]
      exact ho
    · rw [WriteOp.run, hdisk]
      exact hheld

end Runs

/-! ## Other files -/

theorem clusterSectors_inj {v : Volume} {c c' lba : Nat} (hc : 2 ≤ c) (hc' : 2 ≤ c')
    (h : lba ∈ clusterSectors v c) (h' : lba ∈ clusterSectors v c') : c = c' := by
  obtain ⟨s, hs, rfl⟩ := h
  obtain ⟨s', hs', heq⟩ := h'
  have hpos : 0 < v.sectorsPerCluster := Nat.zero_lt_of_lt hs
  have hsum : s + v.sectorsPerCluster * (c - 2) = s' + v.sectorsPerCluster * (c' - 2) := by
    rw [Nat.mul_comm _ (c - 2), Nat.mul_comm _ (c' - 2)]
    omega
  have hdiv : (s + v.sectorsPerCluster * (c - 2)) / v.sectorsPerCluster =
      (s' + v.sectorsPerCluster * (c' - 2)) / v.sectorsPerCluster := by
    rw [hsum]
  rw [Nat.add_mul_div_left _ _ hpos, Nat.add_mul_div_left _ _ hpos, Nat.div_eq_of_lt hs,
    Nat.div_eq_of_lt hs'] at hdiv
  omega

section Others

variable {v : Volume} {d : Disk}

theorem LaidOut.sectorBytes_div (h : LaidOut v d) {lba i : Nat} (hlba : DataSector v lba)
    (hi : i ∈ sectorBytes v lba) : i / v.bytesPerSector = lba + v.partitionLba := by
  obtain ⟨hlo, hhi⟩ := hi
  rw [h.sectorPos_of_data hlba] at hlo hhi
  exact Nat.div_eq_of_lt_le hlo (by rwa [Nat.succ_mul])

theorem LaidOut.sectorBytes_inj (h : LaidOut v d) {lba lba' i : Nat} (hlba : DataSector v lba)
    (hlba' : DataSector v lba') (hi : i ∈ sectorBytes v lba) (hi' : i ∈ sectorBytes v lba') :
    lba = lba' :=
  Nat.add_right_cancel ((h.sectorBytes_div hlba hi).symm.trans (h.sectorBytes_div hlba' hi'))

/-- The FATs end before the directories and the files. -/
theorem LaidOut.notMem_fatArea (h : LaidOut v d) {lba i : Nat} (hlba : DataSector v lba)
    (hi : i ∈ sectorBytes v lba) : i ∉ fatArea v := by
  rintro ⟨-, hlt⟩
  obtain ⟨hlo, -⟩ := hi
  rw [h.sectorPos_of_data hlba] at hlo
  have hroot := h.root_start
  have hstart := hlba.1
  have hend : fatPos v v.numFats ≤ (lba + v.partitionLba) * v.bytesPerSector :=
    Nat.mul_le_mul_right _ (by omega)
  omega

theorem LaidOut.data_of_cluster (h : LaidOut v d) {c lba : Nat}
    (hc : 2 ≤ c ∧ c < v.countOfClusters + 2) (hlba : lba ∈ clusterSectors v c) :
    DataSector v lba := by
  obtain ⟨s, hs, rfl⟩ := hlba
  exact (h.clusterSector hc.1 hc.2 hs).2

theorem LaidOut.clusterBytes_inj (h : LaidOut v d) {c c' i : Nat}
    (hc : 2 ≤ c ∧ c < v.countOfClusters + 2) (hc' : 2 ≤ c' ∧ c' < v.countOfClusters + 2)
    (hi : i ∈ clusterBytes v c) (hi' : i ∈ clusterBytes v c') : c = c' := by
  obtain ⟨lba, hlba, hin⟩ := hi
  obtain ⟨lba', hlba', hin'⟩ := hi'
  obtain rfl := h.sectorBytes_inj (h.data_of_cluster hc hlba) (h.data_of_cluster hc' hlba') hin hin'
  exact clusterSectors_inj hc.1 hc'.1 hlba hlba'

theorem entryBytes_subset {lba off i : Nat} (hoff : off + 32 ≤ v.bytesPerSector)
    (hi : i ∈ entryBytes v lba off) : i ∈ sectorBytes v lba := by
  obtain ⟨hlo, hhi⟩ := hi
  exact ⟨by omega, by omega⟩

/-- Each byte of a file is in a cluster of its chain. -/
theorem IsFile.fileByte_place {first size k : Nat} {other : List Nat}
    (h : IsFile v d first size other) (hv : Attached v d) (hk : k < size) :
    ∃ c ∈ other, ∃ i ∈ clusterBytes v c, ∀ d', fileByte v d' other k = d'.bytes i := by
  have hlt := h.chain_lt hv hk
  have hmem := List.getElem_mem hlt
  obtain ⟨hlo, hhi⟩ := h.clusters _ hmem
  have hs := hv.sector_of_mod k
  refine ⟨_, hmem, sectorPos v (u32 (clusterFirstSector v other[k / v.bytesPerCluster] +
    k % v.bytesPerCluster / v.bytesPerSector)) + k % v.bytesPerCluster % v.bytesPerSector,
    ⟨_, ⟨_, hs, (hv.toLaidOut.clusterSector hlo hhi hs).1⟩, Nat.le_add_right _ _,
      Nat.add_lt_add_left (Nat.mod_lt _ hv.sector_pos) _⟩, fun d' => ?_⟩
  rw [fileByte, List.getD_eq_getElem _ _ hlt]

/-- A cluster of another file. -/
structure Foreign (v : Volume) (d : Disk) (chain : List Nat) (lba c : Nat) : Prop where
  notMem : c ∉ chain
  not_free : ¬Free v d c
  not_entry : lba ∉ clusterSectors v c

/-- The calls, one after the other. -/
def writes (v : Volume) (fd : Fin 16) (ops : List WriteOp) (img : Image) : Image :=
  ops.foldl (WriteOp.run v fd) img

variable {d₀ : Disk} {own : Set Nat} {chain other : List Nat} {lba off : Nat}

theorem Foreign.notMem_own {c : Nat} (hc : Foreign v d₀ chain lba c)
    (ho : Owned v d₀ {c | c ∈ chain} lba off d own) : c ∉ own :=
  fun hown => (ho.taken c hown).elim hc.notMem hc.not_free

/-- Another file stays as it is. -/
theorem Owned.other_file (ho : Owned v d₀ {c | c ∈ chain} lba off d own) (hv : Attached v d₀)
    (hlba : DataSector v lba) (hoff : off + 32 ≤ v.bytesPerSector) {first size : Nat}
    (hfile : IsFile v d₀ first size other) (hother : ∀ c ∈ other, Foreign v d₀ chain lba c) :
    IsFile v d first size other ∧ fileBytes v d other 0 size = fileBytes v d₀ other 0 size := by
  constructor
  · refine ⟨hfile.clusters, hfile.starts, fun i hi => ?_, hfile.enough⟩
    have hmem := List.getElem_mem hi
    rw [← hfile.linked i hi, nextCluster, nextCluster,
      ho.entries _ (hfile.clusters _ hmem).2 ((hother _ hmem).notMem_own ho)]
  · refine List.map_congr_left fun k hk => ?_
    rw [Nat.zero_add]
    obtain ⟨c, hc, i, hi, hbyte⟩ := hfile.fileByte_place hv (List.mem_range.mp hk)
    have hnot := (hother c hc).notMem_own ho
    have hplace := hfile.clusters c hc
    rw [hbyte, hbyte]
    refine ho.bytes i ?_ (fun c' hc' hi' => ?_) fun hentry => ?_
    · obtain ⟨lba', hlba', hin⟩ := hi
      exact hv.notMem_fatArea (hv.data_of_cluster hplace hlba') hin
    · exact hnot (hv.clusterBytes_inj (ho.cluster c' hc') hplace hi' hi ▸ hc')
    · obtain ⟨lba', hlba', hin⟩ := hi
      have hsame : lba = lba' := hv.sectorBytes_inj hlba (hv.data_of_cluster hplace hlba')
        (entryBytes_subset hoff hentry) hin
      exact (hother c hc).not_entry (hsame ▸ hlba')

/-- So does the directory entry of another file. -/
theorem Owned.other_entry (ho : Owned v d₀ {c | c ∈ chain} lba off d own) (hv : Attached v d₀)
    (hlba : DataSector v lba) (hoff : 32 ∣ off ∧ off + 32 ≤ v.bytesPerSector) {lba' off' : Nat}
    (hlba' : DataSector v lba') (hoff' : 32 ∣ off' ∧ off' + 32 ≤ v.bytesPerSector)
    (hne : (lba', off') ≠ (lba, off))
    (hdir : ∀ c, c ∈ chain ∨ Free v d₀ c → lba' ∉ clusterSectors v c) {i : Nat}
    (hi : i ∈ entryBytes v lba' off') : d.bytes i = d₀.bytes i := by
  have hin := entryBytes_subset hoff'.2 hi
  refine ho.bytes i (hv.notMem_fatArea hlba' hin) (fun c hc hown => ?_) fun hentry => ?_
  · obtain ⟨lba₁, hlba₁, hin₁⟩ := hown
    have hsame : lba₁ = lba' :=
      hv.sectorBytes_inj (hv.data_of_cluster (ho.cluster c hc) hlba₁) hlba' hin₁ hin
    exact hdir c (ho.taken c hc) (hsame ▸ hlba₁)
  · obtain rfl : lba' = lba :=
      hv.sectorBytes_inj hlba' hlba hin (entryBytes_subset hoff.2 hentry)
    obtain ⟨hlo, hhi⟩ := hi
    obtain ⟨hlo', hhi'⟩ := hentry
    refine hne (congrArg (Prod.mk lba') ?_)
    obtain ⟨a, rfl⟩ := hoff.1
    obtain ⟨b, rfl⟩ := hoff'.1
    omega

end Others

/-- **The writes of a run stay in the file**, and other files stay as they are. -/
theorem writes_owned {v : Volume} {img : Image} {fd : Fin 16} {chain : List Nat}
    {ops : List WriteOp} (hv : Attached v img.disk) (hopen : OpenOn v img.disk chain (img.files fd))
    (hin : Throughout (WriteOp.run v fd) (Inside v fd) ops img) :
    (∃ own : Set Nat, (∀ c ∈ own, c ∈ chain ∨ Free v img.disk c) ∧
      (∀ c ∈ own, Relation.ReflTransGen
        (fun a b => nextCluster v (writes v fd ops img).disk a = some b)
        ((writes v fd ops img).files fd).firstCluster c) ∧
      ∀ i, (writes v fd ops img).disk.bytes i ≠ img.disk.bytes i →
        i ∈ fatArea v ∨ (∃ c ∈ own, i ∈ clusterBytes v c) ∨
          i ∈ entryBytes v (img.files fd).dirEntryLba (img.files fd).dirEntryOff) ∧
    (∀ first size other, IsFile v img.disk first size other →
      (∀ c ∈ other, Foreign v img.disk chain (img.files fd).dirEntryLba c) →
      IsFile v (writes v fd ops img).disk first size other ∧
        fileBytes v (writes v fd ops img).disk other 0 size =
          fileBytes v img.disk other 0 size) ∧
    ∀ lba off, DataSector v lba → 32 ∣ off ∧ off + 32 ≤ v.bytesPerSector →
      (lba, off) ≠ ((img.files fd).dirEntryLba, (img.files fd).dirEntryOff) →
      (∀ c, c ∈ chain ∨ Free v img.disk c → lba ∉ clusterSectors v c) →
      ∀ i ∈ entryBytes v lba off, (writes v fd ops img).disk.bytes i = img.disk.bytes i := by
  have hstart : InFile v img.disk {c | c ∈ chain} (img.files fd).dirEntryLba
      (img.files fd).dirEntryOff fd img := ⟨_, hopen.owned hv.toLaidOut⟩
  obtain ⟨own, ho, hh⟩ := Throughout.invariant
    (fun _ op hown hok => InFile.run hv.cluster_bytes hopen.entry op hown hok) ops hstart hin
  refine ⟨⟨own, ho.taken, fun c hc => ?_, fun i hi => ?_⟩, fun first size other hfile hother => ?_,
    fun lba off hlba hoff hne hdir i hi => ?_⟩
  · by_cases hfirst : 2 ≤ ((writes v fd ops img).files fd).firstCluster
    · exact Relation.ReflTransGen.mono (fun _ _ hlink => hlink.2) _ _ ((hh.chain hfirst).2 c hc)
    · rw [hh.empty (Nat.not_le.mp hfirst)] at hc
      exact absurd hc (Set.notMem_empty c)
  · by_contra hnot
    simp only [not_or, not_exists, not_and] at hnot
    exact hi (ho.bytes i hnot.1 hnot.2.1 hnot.2.2)
  · exact ho.other_file hv hopen.entry hopen.slot.2 hfile hother
  · exact ho.other_entry hv hopen.entry hopen.slot hlba hoff hne hdir hi

/-! ## Two files of a card -/

/-- The entry of a file of 512 bytes, or of one with nothing in it. -/
def shortEntry (name cluster : Byte) : Nat → Byte
  | 0 => name
  | 11 => attrArchive
  | 26 => cluster
  | 29 => if cluster = 0#8 then 0#8 else 0x02#8
  | i => if i < 11 then blank else 0#8

/-- A card with an empty file `A`, and 512 bytes of a file `B` in cluster 4. -/
def neighbourDisk : Disk where
  bytes i :=
    if 16400 ≤ i ∧ i < 16404 ∨ 278544 ≤ i ∧ i < 278548 then (if i % 4 = 3 then 0x0F#8 else 0xFF#8)
    else if 540672 ≤ i ∧ i < 540704 then shortEntry 0x41#8 0#8 (i - 540672)
    else if 540704 ≤ i ∧ i < 540736 then shortEntry 0x42#8 4#8 (i - 540704)
    else sampleDisk.bytes i
  size := sampleDisk.size
  past_end := by
    intro i hi
    have hlo : 34089472 ≤ i := hi
    rw [if_neg (by omega), if_neg (by omega), if_neg (by omega)]
    exact sampleDisk.past_end i hi

/-- `A` opened for writing. -/
def neighbourImage : Image where
  disk := neighbourDisk
  files _ :=
    { used := true, writable := true, firstCluster := 0, sizeBytes := 0, cursor := 0,
      currentCluster := 0, clusterByteOffset := 0, dirEntryLba := 1056, dirEntryOff := 0 }

theorem neighbourDisk_attached : Attached sampleVolume neighbourDisk where
  toLaidOut := sampleDisk_laidOut.of_size_le (Nat.le_refl _)
  cluster_bytes := by decide
  sector_max := by decide
  cluster_max := by decide

theorem neighbourImage_openOn :
    OpenOn sampleVolume neighbourDisk [] (neighbourImage.files 0) where
  chained hfirst := absurd hfirst (by decide)
  current hfirst := absurd hfirst (by decide)
  empty _ := rfl
  entry := ⟨by decide, by decide⟩
  slot := by decide

theorem neighbourDisk_isFile : IsFile sampleVolume neighbourDisk 4 512 [4] where
  clusters := by decide
  starts := by decide
  linked := by decide
  enough := by decide

theorem neighbourDisk_foreign :
    ∀ c ∈ [4], Foreign sampleVolume neighbourDisk [] 1056 c := by
  intro c hc
  obtain rfl := List.mem_singleton.mp hc
  refine ⟨List.not_mem_nil, fun hfree => absurd hfree.2.2 (by decide), ?_⟩
  rintro ⟨s, -, heq⟩
  change 1056 = 1056 + (4 - 2) * 1 + s at heq
  omega

/-- Writes that do not start at the end of a cluster. -/
def neighbourOps : List WriteOp :=
  [.fwrite (List.replicate 513 0x78#8), .lseek 100 0#8, .fwrite [0x79#8]]

theorem writes_owned_neighbour :
    IsFile sampleVolume (writes sampleVolume 0 neighbourOps neighbourImage).disk 4 512 [4] ∧
      fileBytes sampleVolume (writes sampleVolume 0 neighbourOps neighbourImage).disk [4] 0 512 =
        fileBytes sampleVolume neighbourDisk [4] 0 512 := by
  have hinside : Throughout (WriteOp.run sampleVolume 0) (Inside sampleVolume 0) neighbourOps
      neighbourImage := by
    refine ⟨fun _ hfirst => absurd hfirst (by decide), trivial, fun _ _ => ?_, trivial⟩
    decide +kernel
  exact (writes_owned neighbourDisk_attached neighbourImage_openOn hinside).2.1 4 512 [4]
    neighbourDisk_isFile neighbourDisk_foreign

/-- A write that starts at the end of cluster 3 goes to cluster 4. -/
theorem writes_not_owned :
    Attached sampleVolume neighbourImage.disk ∧
      OpenOn sampleVolume neighbourImage.disk [] (neighbourImage.files 0) ∧
      IsFile sampleVolume neighbourImage.disk 4 512 [4] ∧
      (∀ c ∈ [4], Foreign sampleVolume neighbourImage.disk [] 1056 c) ∧
      fileByte sampleVolume (writes sampleVolume 0
        [.fwrite (List.replicate 512 0x78#8), .fwrite [0x79#8]] neighbourImage).disk [4] 0 ≠
        fileByte sampleVolume neighbourImage.disk [4] 0 :=
  ⟨neighbourDisk_attached, neighbourImage_openOn, neighbourDisk_isFile, neighbourDisk_foreign,
    by decide +kernel⟩

end Phosphoric.Sdimg
