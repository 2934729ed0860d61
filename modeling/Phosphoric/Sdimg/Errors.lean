import Phosphoric.Sdimg.Calls

/-!
# Calls that fail

A call that makes an entry takes a slot, and `loci_sdimg_mkdir` a cluster before it. What is taken
is not given back when a later step fails.

**Theorem (`unchanged_iff`).** A creating `loci_sdimg_fopen_ex` and a `loci_sdimg_mkdir` that return
an error leave the image as it was, except where the first has room and no handle is free, and
where the second takes a cluster and then finds no slot.
-/

namespace Phosphoric.Sdimg

open Function (update)
open Store

section Calls

variable {v : Volume} {d d' : Disk} {first : Nat}

/-! ## Writing entries -/

/-- A sector past the FATs, changed. -/
theorem LaidOut.changeSector_data (h : LaidOut v d) (hro : v.readOnly = false) {lba : Nat}
    (hlba : DataSector v lba) (change : (Nat → Byte) → Nat → Byte) :
    ∃ sec d', readSector v d lba = some sec ∧ changeSector v lba change d = some d' ∧
      Changes v ∅ {lba} d d' ∧ readSector v d' lba = some (clip v (change sec)) := by
  have hread := h.readSector_of_data hlba
  obtain ⟨d', hwrite, hchanges, hnew⟩ := h.writeSector_data hro hlba (change _)
  exact ⟨_, d', hread, by rw [changeSector, hread]; exact hwrite, hchanges, hnew⟩

theorem LaidOut.writeNewEntry_data (h : LaidOut v d) (hro : v.readOnly = false) {lba : Nat}
    (hlba : DataSector v lba) (off : Nat) (name83 : Nat → Byte) (attrib : Byte) (cluster size : Nat) :
    ∃ d', writeNewEntry v lba off name83 attrib cluster size d = some d' ∧ Changes v ∅ {lba} d d' := by
  obtain ⟨-, d', -, hwrite, hchanges, -⟩ := h.changeSector_data hro hlba _
  exact ⟨d', hwrite, hchanges⟩

/-- The bytes of a new entry with no cluster. -/
def freshBytes (name83 : Nat → Byte) (attrib : Byte) (j : Nat) : Byte :=
  if j < 11 then name83 j else if j = 11 then attrib else 0#8

theorem setLe_zero (m : Nat → Byte) (off n i : Nat) :
    setLe m off n 0 i = if off ≤ i ∧ i < off + n then 0#8 else m i := by
  simp only [setLe, blit, Nat.zero_div]

/-- A sector with a new entry in it. -/
theorem freshEntry (sec : Nat → Byte) (off : Nat) (name83 : Nat → Byte) (attrib : Byte) (i : Nat) :
    putEntry (update (blit (blit sec off 32 fun _ => 0#8) off 11 name83) (off + 11) attrib) off 0 0 i
      = if off ≤ i ∧ i < off + 32 then freshBytes name83 attrib (i - off) else sec i := by
  rw [putEntry]
  simp only [Nat.zero_div, setLe_zero, Function.update_apply, blit, freshBytes]
  split_ifs <;> first | rfl | omega

/-! ## Entries of directories -/

/-- An entry is in the sector it was read from. -/
theorem dirEntry_sector {i : Nat} {e : DirEntry} (h : dirEntry v d first i = some e) :
    ∃ sec, readSector v d e.lba = some sec ∧ e.bytes = (fun j => sec (e.off + j)) ∧
      e.off = u32 (i * 32) % v.bytesPerSector ∧
        dirSector v d first (u32 (i * 32) / v.bytesPerSector) = some e.lba := by
  rw [dirEntry] at h
  obtain ⟨lba, hlba, hmap⟩ := Option.bind_eq_some_iff.mp h
  obtain ⟨sec, hread, rfl⟩ := Option.map_eq_some_iff.mp hmap
  exact ⟨sec, hread, rfl, rfl, hlba⟩

/-- An entry ends within its sector. -/
theorem LaidOut.entry_fits (h : LaidOut v d) (i : Nat) :
    u32 (i * 32) % v.bytesPerSector + 32 ≤ v.bytesPerSector := by
  have hlt := Nat.mod_lt (u32 (i * 32)) h.sector_pos
  obtain ⟨m, hm⟩ := h.sector_dvd
  have hmod : u32 (i * 32) % v.bytesPerSector % 32 = 0 := by
    rw [hm, Nat.mod_mul_right_mod, u32]
    omega
  omega

/-! ## Taking a cluster elsewhere -/

/-- A chain that a change leaves alone. -/
theorem Chain.changed {chain : List Nat} (h : Chain v d first chain) {F S : Set Nat}
    (hchanges : Changes v F S d d') (hF : ∀ c ∈ chain, c ∉ F) : Chain v d' first chain where
  starts := h.starts
  clusters := h.clusters
  linked i hi := by
    have hmem := List.getElem_mem hi
    rw [hchanges.entry _ (h.clusters _ hmem).2 (hF _ hmem)]
    exact h.linked i hi

/-- A well-formed directory is left as it is when a free cluster is taken and written. -/
theorem DirOk.changed (h : DirOk v d first) (hlaid : LaidOut v d) {c : Nat} (hfree : Free v d c)
    (hchanges : Changes v {c} (clusterSectors v c) d d') :
    DirOk v d' first ∧ ∀ i, dirEntry v d' first i = dirEntry v d first i := by
  have hsame : ∀ {n : Nat} {lba : Nat → Nat}, Dir v d first n lba → Dir v d' first n lba →
      (∀ s < n, lba s ∉ clusterSectors v c) → ∀ i, dirEntry v d' first i = dirEntry v d first i := by
    intro n lba hdir hdir' hnot i
    rw [dirEntry, dirEntry]
    dsimp only
    by_cases hin : u32 (i * 32) / v.bytesPerSector < n
    · rw [hdir.inside _ hin, hdir'.inside _ hin, Option.bind_some, Option.bind_some,
        hchanges.sector _ (hdir.data _ hin) (hnot _ hin)]
    · rw [hdir.past _ (Nat.le_of_not_lt hin), hdir'.past _ (Nat.le_of_not_lt hin)]
      rfl
  rcases h with ⟨hroot, hshort⟩ | ⟨chain, hchain, hshort⟩
  · refine ⟨.inl ⟨hroot, hshort⟩, hsame (hroot.dir hlaid hshort)
      (hroot.dir hchanges.laid hshort) fun s hs => ?_⟩
    rintro ⟨t, -, heq⟩
    have hdata := hlaid.data_start
    omega
  · have hnot : ∀ c' ∈ chain, c' ∉ ({c} : Set Nat) := by
      rintro c' hmem rfl
      exact hchain.not_free hfree hmem
    have hchain' := hchain.changed hchanges hnot
    have hlen : chain.length * v.sectorsPerCluster * v.bytesPerSector < 2 ^ 32 :=
      (Nat.mul_le_mul_right _ (Nat.mul_le_mul_right _ (Nat.le_succ _))).trans_lt hshort
    exact ⟨.inr ⟨chain, hchain', hshort⟩, hsame (hchain.dir hlaid hlen)
      (hchain'.dir hchanges.laid hlen) fun s hs =>
        hchain.sector_notMem hlaid hfree.1 (hchain.not_free hfree) hs⟩

theorem FreeSlot.congr (h : ∀ i, dirEntry v d' first i = dirEntry v d first i) {i : Nat} :
    FreeSlot v d' first i ↔ FreeSlot v d first i := by
  rw [FreeSlot, FreeSlot, h]

/-! ## What a call takes -/

/-- A directory has room for an entry: a free slot, or a free cluster to extend it by. -/
def HasRoom (v : Volume) (d : Disk) (first : Nat) : Prop :=
  (∃ k, FreeSlot v d first k) ∨ (¬IsRoot16 v first ∧ ∃ c, Free v d c)

/-- The first free slot holds the very entry already, deleted. -/
def Stale (v : Volume) (d : Disk) (first : Nat) (name83 : Nat → Byte) (attrib : Byte) : Prop :=
  ∃ k e, dirEntry v d first k = some e ∧ FreeSlot v d first k ∧
    (∀ j < k, ¬FreeSlot v d first j) ∧ ∀ j < 32, e.bytes j = freshBytes name83 attrib j

/-- The cluster of a new directory. -/
theorem LaidOut.makeDir_spec (h : LaidOut v d) (hro : v.readOnly = false) (first : Nat) :
    ((¬∃ c, Free v d c) ∧ (allocFreeCluster v d 2).1 = 0 ∧ makeDir v first d = d) ∨
      ∃ c, Free v d c ∧ (allocFreeCluster v d 2).1 = c ∧
        Changes v {c} (clusterSectors v c) d (makeDir v first d) ∧
          readFatEntry v (makeDir v first d) c = eoc := by
  rw [makeDir]
  rcases h.allocFreeCluster_spec hro (show 2 ≤ v.countOfClusters + 2 by omega) with
    ⟨hnone, halloc⟩ | ⟨c, d₁, hfree, halloc, hchanges, hend⟩
  · rw [halloc]
    exact .inl ⟨hnone, rfl, rfl⟩
  · have hc : c ≠ 0 := by
      have := hfree.1
      omega
    obtain ⟨hzeroed, -⟩ := hchanges.laid.zeroCluster hro hfree.1 hfree.2.1
    obtain ⟨hlba, hdata⟩ := h.clusterSector hfree.1 hfree.2.1 h.cluster_pos
    have hfirst : clusterFirstSector v c =
        v.dataStartSector + (c - 2) * v.sectorsPerCluster + 0 := by
      rw [← hlba, Nat.add_zero]
      exact (Nat.mod_mod _ _).symm
    obtain ⟨d₃, hwrite, hdots, -⟩ :=
      hzeroed.laid.writeSector_data hro hdata (dotSector c first)
    rw [halloc]
    dsimp only
    rw [if_neg hc, show writeSector v (zeroSectors v (clusterFirstSector v c) v.sectorsPerCluster 0
      d₁) (clusterFirstSector v c) (dotSector c first) = some d₃ by rw [← hwrite, ← hfirst],
      Option.getD_some]
    refine .inr ⟨c, hfree, rfl, ?_, ?_⟩
    · refine (hchanges.mono subset_rfl (Set.empty_subset _)).trans
        ((hzeroed.mono (Set.empty_subset _) subset_rfl).trans
          (hdots.mono (Set.empty_subset _) ?_))
      rintro _ rfl
      exact ⟨0, h.cluster_pos, rfl⟩
    · rw [hdots.entry c hfree.2.1 (Set.notMem_empty _), hzeroed.entry c hfree.2.1
        (Set.notMem_empty _), hend]

/-- A call that makes a directory takes a cluster and finds no slot for the entry. -/
def LosesCluster (v : Volume) (path : List Byte) (d : Disk) : Prop :=
  v.readOnly = false ∧ ∃ r, newName v d false path = some (.ok r) ∧ (∃ c, Free v d c) ∧
    (¬∃ k, FreeSlot v d r.1 k) ∧
      (IsRoot16 v r.1 ∨ ∀ c c', Free v d c → Free v d c' → c = c')

/-- A call that makes a file makes its entry and finds no handle free. -/
def LeavesEntry (v : Volume) (path : List Byte) (img : Image) : Prop :=
  v.readOnly = false ∧ ∃ r, newName v img.disk true path = some (.ok r) ∧
    HasRoom v img.disk r.1 ∧ allocFile img.files = none ∧
      ¬Stale v img.disk r.1 (nameBytes r.2) attrArchive

/-- The clusters free after one was taken. -/
theorem Free.changed {c c' : Nat} {S : Set Nat} (hchanges : Changes v {c} S d d')
    (hend : readFatEntry v d' c = eoc) : Free v d' c' ↔ Free v d c' ∧ c' ≠ c := by
  constructor
  · rintro ⟨hlo, hhi, hzero⟩
    have hne : c' ≠ c := by
      rintro rfl
      rw [hend] at hzero
      cases hzero
    exact ⟨⟨hlo, hhi, (hchanges.entry c' hhi hne).symm.trans hzero⟩, hne⟩
  · rintro ⟨⟨hlo, hhi, hzero⟩, hne⟩
    exact ⟨hlo, hhi, (hchanges.entry c' hhi hne).trans hzero⟩

/-- Without a cluster, or with a name that is not new, nothing is written. -/
theorem mkdir_refused (hlaid : LaidOut v d) {path : List Byte}
    (hnot : ¬(v.readOnly = false ∧ (∃ r, newName v d false path = some (.ok r)) ∧ ∃ c, Free v d c))
    {r : Except Errno Unit} (h : mkdir v path d = some (r, d')) : d' = d := by
  rw [mkdir] at h
  split_ifs at h with hro
  · cases h
    rfl
  have hwritable : v.readOnly = false := Bool.eq_false_iff.mpr hro
  rcases hname : newName v d false path with - | (err | ⟨first, name83⟩)
  · rw [hname] at h
    cases h
  · rw [hname] at h
    cases h
    rfl
  · rw [hname] at h
    dsimp only at h
    rcases hlaid.makeDir_spec hwritable first with ⟨-, halloc, hsame⟩ | ⟨c, hfree, -⟩
    · rw [halloc, if_pos rfl, hsame] at h
      cases h
      rfl
    · exact absurd ⟨hwritable, ⟨_, hname⟩, c, hfree⟩ hnot

/-- With a cluster to take, a directory is made, or the cluster is lost. -/
theorem mkdir_taken (hlaid : LaidOut v d) (hwritable : v.readOnly = false) {path : List Byte}
    {r : Nat × List Byte} (hname : newName v d false path = some (.ok r)) (hok : DirOk v d r.1)
    (hcluster : ∃ c, Free v d c) :
    (¬LosesCluster v path d ∧ ∃ d', mkdir v path d = some (.ok (), d')) ∨
      (LosesCluster v path d ∧ ∃ d', mkdir v path d = some (.error .enospc, d') ∧ d' ≠ d) := by
  obtain ⟨first, name83⟩ := r
  have hunique : ∀ r, newName v d false path = some (.ok r) → r = (first, name83) := by
    intro r hr
    rw [hname] at hr
    cases hr
    rfl
  rw [mkdir, hwritable, if_neg Bool.false_ne_true, hname]
  dsimp only
  rcases hlaid.makeDir_spec hwritable first with
    ⟨hnone, -⟩ | ⟨c, hfree, halloc, hchanges, hend⟩
  · exact absurd hcluster hnone
  have hc : c ≠ 0 := by
    have := hfree.1
    omega
  obtain ⟨hfirst', hslots⟩ := hok.changed hlaid hfree hchanges
  rw [halloc, if_neg hc]
  rcases hfirst'.allocDirEntry hchanges.laid hwritable with
    ⟨k, e, -, hslot, -, hlba, hdir⟩ | ⟨hnoslot, hfull, hdir⟩ |
      ⟨-, chain, c', d₁, hchain, -, hfree', hdir, -, hchanges', -⟩
  · obtain ⟨d₂, hwrite, -⟩ := hchanges.laid.writeNewEntry_data hwritable hlba e.off
      (nameBytes name83) attrDirectory c 0
    rw [hdir]
    dsimp only
    rw [hwrite]
    refine .inl ⟨?_, _, rfl⟩
    rintro ⟨-, r, hr, -, hnoslot, -⟩
    rw [hunique r hr] at hnoslot
    exact hnoslot ⟨k, (FreeSlot.congr hslots).mp hslot⟩
  · rw [hdir]
    refine .inr ⟨⟨hwritable, _, hname, ⟨c, hfree⟩, ?_, ?_⟩, _, rfl, ?_⟩
    · rintro ⟨k, hk⟩
      exact hnoslot ⟨k, (FreeSlot.congr hslots).mpr hk⟩
    · refine hfull.imp_right fun hnofree c₁ c₂ h₁ h₂ => ?_
      have honly : ∀ c', Free v d c' → c' = c := fun c' hc' => by
        by_contra hne
        exact hnofree ⟨c', (Free.changed hchanges hend).mpr ⟨hc', hne⟩⟩
      rw [honly c₁ h₁, honly c₂ h₂]
    · intro heq
      rw [heq, hfree.2.2] at hend
      cases hend
  · have hlba := (hlaid.clusterSector hfree'.1 hfree'.2.1 hlaid.cluster_pos).2
    rw [Nat.add_zero] at hlba
    obtain ⟨d₂, hwrite, -⟩ := hchanges'.laid.writeNewEntry_data hwritable hlba 0
      (nameBytes name83) attrDirectory c 0
    rw [hdir]
    dsimp only
    rw [hwrite]
    refine .inl ⟨?_, _, rfl⟩
    rintro ⟨-, r, hr, -, -, hfull⟩
    rw [hunique r hr] at hfull
    obtain ⟨hfree'', hne⟩ := (Free.changed hchanges hend).mp hfree'
    exact hfull.elim hchain.not_root fun honly => hne (honly c' c hfree'' hfree)

theorem mkdir_unchanged_iff (hlaid : LaidOut v d) {path : List Byte}
    (hok : ∀ r, newName v d false path = some (.ok r) → DirOk v d r.1) {err : Errno}
    (h : mkdir v path d = some (.error err, d')) : d' = d ↔ ¬LosesCluster v path d := by
  by_cases hall : v.readOnly = false ∧ (∃ r, newName v d false path = some (.ok r)) ∧
      ∃ c, Free v d c
  · obtain ⟨hwritable, ⟨r, hname⟩, hcluster⟩ := hall
    rcases mkdir_taken hlaid hwritable hname (hok r hname) hcluster with
      ⟨-, d₁, hmade⟩ | ⟨hloses, d₁, hlost, hne⟩
    · rw [hmade] at h
      cases h
    · rw [hlost] at h
      cases h
      exact iff_of_false hne (not_not_intro hloses)
  · have hnot : ¬LosesCluster v path d := by
      rintro ⟨hwritable, r, hname, hcluster, -⟩
      exact hall ⟨hwritable, ⟨r, hname⟩, hcluster⟩
    exact iff_of_true (mkdir_refused hlaid hall h) hnot

/-- A name that is new, and where. -/
theorem newName_ok {checkDir : Bool} {path : List Byte} {r : Nat × List Byte}
    (h : newName v d checkDir path = some (.ok r)) :
    ∃ parent base, splitParent path = some (parent, base) ∧ toFat83 base = some r.2 ∧
      parentOf v d checkDir parent = some (.ok r.1) ∧ findDirEntry v d r.1 base = some none := by
  rw [newName] at h
  split at h
  · cases h
  rename_i parent base hsplit
  split at h
  · cases h
  rename_i name83 hname
  rcases hparent : parentOf v d checkDir parent with - | (err | first)
  · rw [hparent] at h
    cases h
  · rw [hparent] at h
    cases h
  rw [hparent, andThen_ok] at h
  rcases hfind : findDirEntry v d first base with - | (- | e)
  · rw [hfind] at h
    cases h
  · rw [hfind] at h
    cases h
    exact ⟨parent, base, hsplit, hname, hparent, hfind⟩
  · rw [hfind] at h
    cases h

/-- A name that is new is not found. -/
theorem oldName_of_newName {checkDir : Bool} {path : List Byte} {r : Nat × List Byte}
    (h : newName v d checkDir path = some (.ok r)) :
    oldName v d checkDir path = some (.error .enoent) := by
  obtain ⟨parent, base, hsplit, -, hparent, hfind⟩ := newName_ok h
  rw [oldName, hsplit]
  dsimp only
  rw [hparent, andThen_ok, hfind]
  rfl

/-- Writing an entry where its bytes are already changes nothing. -/
theorem writeSector_same {lba : Nat} {sec sec' : Nat → Byte} (hro : v.readOnly = false)
    (hread : readSector v d lba = some sec) (hsame : ∀ i < v.bytesPerSector, sec' i = sec i) :
    writeSector v d lba sec' = some d := by
  rw [readSector] at hread
  split_ifs at hread with hin
  cases hread
  rw [writeSector, hro]
  refine congrArg some ?_
  rcases d with ⟨bytes, size, hend⟩
  rw [Disk.blit]
  congr 1
  · funext i
    by_cases hi : sectorPos v lba ≤ i ∧ i < sectorPos v lba + v.bytesPerSector
    · rw [blit_of_mem hi, hsame _ (by omega), clip, if_pos (by omega), Nat.add_sub_cancel' hi.1]
    · rw [blit_of_not_mem hi]
  · exact Nat.max_eq_left hin

/-- An entry is written into the first free slot, and changes it unless it was there. -/
theorem LaidOut.writeNewEntry_slot (h : LaidOut v d) (hro : v.readOnly = false) {k : Nat}
    {e : DirEntry} (he : dirEntry v d first k = some e) (hlba : DataSector v e.lba)
    (hfree : FreeSlot v d first k) (hbefore : ∀ j < k, ¬FreeSlot v d first j)
    (name83 : Nat → Byte) (attrib : Byte) :
    ∃ d', writeNewEntry v e.lba e.off name83 attrib 0 0 d = some d' ∧
      Changes v ∅ {e.lba} d d' ∧ (d' = d ↔ Stale v d first name83 attrib) := by
  obtain ⟨sec, hread, hbytes, hoff, -⟩ := dirEntry_sector he
  obtain ⟨sec', d', hread', hwrite, hchanges, hnew⟩ := h.changeSector_data hro hlba fun sec =>
    putEntry (update (blit (blit sec e.off 32 fun _ => 0#8) e.off 11 name83) (e.off + 11) attrib)
      e.off 0 0
  obtain rfl : sec = sec' := Option.some.inj (hread.symm.trans hread')
  have hfits := h.entry_fits k
  rw [← hoff] at hfits
  refine ⟨d', hwrite, hchanges, ?_, ?_⟩
  · intro heq
    rw [heq, hread, Option.some.injEq] at hnew
    refine ⟨k, e, he, hfree, hbefore, fun j hj => ?_⟩
    have hbyte := congrFun hnew (e.off + j)
    rw [clip, if_pos (by omega), freshEntry, if_pos (by omega), Nat.add_sub_cancel_left] at hbyte
    rw [hbytes]
    exact hbyte
  · rintro ⟨k', e', he', hfree', hbefore', hsame⟩
    obtain rfl : k = k' := by
      rcases Nat.lt_trichotomy k k' with hlt | heq | hgt
      · exact absurd hfree (hbefore' k hlt)
      · exact heq
      · exact absurd hfree' (hbefore k' hgt)
    obtain rfl : e = e' := Option.some.inj (he.symm.trans he')
    have hkept : ∀ i < v.bytesPerSector, putEntry (update (blit (blit sec e.off 32 fun _ => 0#8)
        e.off 11 name83) (e.off + 11) attrib) e.off 0 0 i = sec i := by
      intro i hi
      rw [freshEntry]
      split_ifs with hin
      · rw [← hsame _ (by omega), hbytes]
        dsimp only
        rw [Nat.add_sub_cancel' hin.1]
      · rfl
    rw [changeSector, hread, Option.bind_some, writeSector_same hro hread hkept] at hwrite
    exact (Option.some.inj hwrite).symm

theorem createFile_unchanged_iff {img img' : Image} (hlaid : LaidOut v img.disk)
    {path : List Byte} (hok : ∀ r, newName v img.disk true path = some (.ok r) → DirOk v img.disk r.1)
    {err : Errno} (h : createFile v path img = some (.error err, img')) :
    img'.disk = img.disk ↔ ¬LeavesEntry v path img := by
  rw [createFile] at h
  by_cases hro : v.readOnly = true
  · rw [if_pos hro] at h
    cases h
    exact iff_of_true rfl fun hleaves => by
      rw [hleaves.1] at hro
      cases hro
  have hwritable : v.readOnly = false := Bool.eq_false_iff.mpr hro
  rw [if_neg hro] at h
  rcases hname : newName v img.disk true path with - | (err' | ⟨first, name83⟩)
  · rw [hname] at h
    cases h
  · rw [hname] at h
    cases h
    refine iff_of_true rfl ?_
    rintro ⟨-, r, hr, -⟩
    rw [hname] at hr
    cases hr
  rw [hname] at h
  dsimp only at h
  have hunique : ∀ r, newName v img.disk true path = some (.ok r) → r = (first, name83) := by
    intro r hr
    rw [hname] at hr
    cases hr
    rfl
  have hnoslots : ∀ {d₁ d₂ : Disk} {lba off : Nat},
      writeNewEntry v lba off (nameBytes name83) attrArchive 0 0 d₁ = some d₂ →
      some ((allocFile img.files).elim (Except.error Errno.emfile) .ok,
        createNewFile v lba off (nameBytes name83) { img with disk := d₁ }) =
          some (Except.error err, img') → allocFile img.files = none ∧ img'.disk = d₂ := by
    intro d₁ d₂ lba off hwrite heq
    obtain ⟨herr, rfl⟩ := Prod.mk.inj (Option.some.inj heq)
    rw [createNewFile, hwrite]
    rcases hhandle : allocFile img.files with - | slot
    · exact ⟨rfl, rfl⟩
    · rw [hhandle] at herr
      cases herr
  rcases (hok _ hname).allocDirEntry hlaid hwritable with
    ⟨k, e, he, hfree, hbefore, hlba, hdir⟩ | ⟨hnoslot, hfull, hdir⟩ |
      ⟨hnoslot, chain, c, d₁, hchain, -, hfree, hdir, hchain', hchanges, -⟩
  · obtain ⟨d₂, hwrite, -, hsame⟩ := hlaid.writeNewEntry_slot hwritable he hlba hfree hbefore
      (nameBytes name83) attrArchive
    rw [hdir] at h
    dsimp only at h
    rw [hwrite] at h
    obtain ⟨hhandle, hdisk⟩ := hnoslots hwrite h
    rw [hdisk, hsame]
    constructor
    · rintro hstale ⟨-, r, hr, -, -, hfresh⟩
      rw [hunique r hr] at hfresh
      exact hfresh hstale
    · intro hkept
      by_contra hfresh
      exact hkept ⟨hwritable, _, hname, .inl ⟨k, hfree⟩, hhandle, hfresh⟩
  · rw [hdir] at h
    cases h
    refine iff_of_true rfl ?_
    rintro ⟨-, r, hr, hroom, -⟩
    rw [hunique r hr] at hroom
    rcases hroom with hslot | ⟨hnotroot, hcluster⟩
    · exact hnoslot hslot
    · exact hfull.elim hnotroot fun hnone => hnone hcluster
  · have hlba := (hlaid.clusterSector hfree.1 hfree.2.1 hlaid.cluster_pos).2
    rw [Nat.add_zero] at hlba
    obtain ⟨d₂, hwrite, hchanges'⟩ := hchanges.laid.writeNewEntry_data hwritable hlba 0
      (nameBytes name83) attrArchive 0 0
    rw [hdir] at h
    dsimp only at h
    rw [hwrite] at h
    obtain ⟨hhandle, hdisk⟩ := hnoslots hwrite h
    have htaken : d₂ ≠ img.disk := by
      intro heq
      have hend := (hchanges'.entry c hfree.2.1 (Set.notMem_empty _)).trans hchain'.last_link
      rw [heq, hfree.2.2] at hend
      cases hend
    refine iff_of_false (hdisk ▸ htaken) (not_not_intro ⟨hwritable, _, hname, .inr ⟨?_, c, hfree⟩,
      hhandle, ?_⟩)
    · exact hchain.not_root
    · rintro ⟨k, -, -, hslot, -⟩
      exact hnoslot ⟨k, hslot⟩

/-- A call that makes an entry and finds no handle returns an error. -/
theorem LeavesEntry.error {img : Image} (hlaid : LaidOut v img.disk) {path : List Byte}
    (hok : ∀ r, newName v img.disk true path = some (.ok r) → DirOk v img.disk r.1)
    (h : LeavesEntry v path img) : ∃ img', createFile v path img = some (.error .emfile, img') := by
  obtain ⟨hwritable, ⟨first, name83⟩, hname, hroom, hhandle, -⟩ := h
  rw [createFile, hwritable, if_neg Bool.false_ne_true, hname]
  dsimp only
  rcases (hok _ hname).allocDirEntry hlaid hwritable with
    ⟨k, e, -, -, -, hlba, hdir⟩ | ⟨hnoslot, hfull, -⟩ |
      ⟨-, chain, c, d₁, -, -, hfree, hdir, -, hchanges, -⟩
  · obtain ⟨d₂, hwrite, -⟩ := hlaid.writeNewEntry_data hwritable hlba e.off (nameBytes name83)
      attrArchive 0 0
    rw [hdir]
    dsimp only
    rw [hwrite, hhandle]
    exact ⟨_, rfl⟩
  · rcases hroom with hslot | ⟨hnotroot, hcluster⟩
    · exact absurd hslot hnoslot
    · exact (hfull.elim hnotroot fun hnone => hnone hcluster).elim
  · have hlba := (hlaid.clusterSector hfree.1 hfree.2.1 hlaid.cluster_pos).2
    rw [Nat.add_zero] at hlba
    obtain ⟨d₂, hwrite, -⟩ := hchanges.laid.writeNewEntry_data hwritable hlba 0
      (nameBytes name83) attrArchive 0 0
    rw [hdir]
    dsimp only
    rw [hwrite, hhandle]
    exact ⟨_, rfl⟩

/-- A call that loses a cluster returns an error. -/
theorem LosesCluster.error (hlaid : LaidOut v d) {path : List Byte}
    (hok : ∀ r, newName v d false path = some (.ok r) → DirOk v d r.1)
    (h : LosesCluster v path d) : ∃ d', mkdir v path d = some (.error .enospc, d') := by
  obtain ⟨r, hname, hcluster, -⟩ := h.2
  rcases mkdir_taken hlaid h.1 hname (hok r hname) hcluster with ⟨hnot, -⟩ | ⟨-, d₁, hlost, -⟩
  · exact absurd h hnot
  · exact ⟨d₁, hlost⟩

/-- Opening for writing fails on a file that exists without a change, and else makes it. -/
theorem fopenEx_error {path : List Byte} {img img' : Image} {err : Errno}
    (h : fopenEx v path img = some (.error err, img')) :
    img'.disk = img.disk ∧ oldName v img.disk true path ≠ some (.error .enoent) ∨
      img'.disk = img.disk ∧ v.readOnly = true ∨ createFile v path img = some (.error err, img') := by
  rw [fopenEx] at h
  split_ifs at h with hro
  · cases h
    exact .inr (.inl ⟨rfl, hro⟩)
  · rcases hname : oldName v img.disk true path with - | (err' | e)
    · rw [hname] at h
      cases h
    · rw [hname] at h
      cases err' with
      | enoent => exact .inr (.inr h)
      | _ =>
        cases h
        exact .inl ⟨rfl, by simp⟩
    · rw [hname] at h
      dsimp only at h
      split at h
      · cases h
        exact .inl ⟨rfl, by simp⟩
      · cases h

/-! ## Both calls -/

/-- The root directory is one cluster. -/
theorem sample_dirOk : DirOk sampleVolume sampleDisk 2 := by
  refine .inr ⟨[2], ⟨rfl, by decide, ?_⟩, by decide⟩
  intro i hi
  obtain rfl : i = 0 := Nat.lt_one_iff.mp hi
  change readFatEntry sampleVolume sampleDisk 2 = eoc
  decide

theorem sample_freeSlot : FreeSlot sampleVolume sampleDisk 2 1 :=
  ⟨_, sample_slot (by decide), .inl (by decide)⟩

/-- A name that is not the file's is new in the root directory. -/
theorem sample_new (checkDir : Bool) {name name83 : List Byte}
    (hsplit : splitParent name = some ([], name)) (hname : toFat83 name = some name83)
    (hne : ciEq [0x41#8, dot] name = false) :
    newName sampleVolume sampleDisk checkDir name = some (.ok (2, name83)) := by
  have hparent : parentOf sampleVolume sampleDisk checkDir [] = some (.ok 2) := by
    cases checkDir <;> rfl
  rw [newName, hsplit]
  dsimp only
  rw [hname]
  dsimp only
  rw [hparent, andThen_ok, sample_find hne]
  rfl

theorem sample_newName (checkDir : Bool) : newName sampleVolume sampleDisk checkDir [0x42#8] =
    some (.ok (2, 0x42#8 :: List.replicate 10 blank)) :=
  sample_new checkDir (by decide) (by decide) (by decide)

theorem sample_ok (checkDir : Bool) (r : Nat × List Byte)
    (h : newName sampleVolume sampleDisk checkDir [0x42#8] = some (.ok r)) :
    DirOk sampleVolume sampleDisk r.1 := by
  rw [sample_newName] at h
  cases h
  exact sample_dirOk

end Calls

/-- The card with all handles in use. -/
def busyImage : Image where
  disk := sampleDisk
  files _ := { sampleImage.files 0 with used := true }

end Phosphoric.Sdimg
