import Phosphoric.Sdimg.Errors

/-!
# Parents that are files

Opening a file checks that the parent is a directory. `loci_sdimg_mkdir`, `loci_sdimg_unlink` and
`loci_sdimg_rename` do not: the clusters of a file are searched for entries, and written.

**Theorem (`fileParent_refused_iff`).** With a file for a parent, a call fails and leaves the image
as it was if and only if it is one that opens a file, or its lookups in the bytes of the file fail,
or there is no room.
-/

namespace Phosphoric.Sdimg

open Function (update)
open Store

/-! ## Calls -/

/-- The calls that make, remove or move entries. -/
inductive Call
  | create (path : List Byte)
  | mkdir (path : List Byte)
  | unlink (path : List Byte)
  | rename (oldPath newPath : List Byte)

/-- What a call returns, and the image after it. -/
def Call.run (v : Volume) (img : Image) : Call → Option (Except Errno Unit × Image)
  | .create path => (fopenEx v path img).map fun r => (r.1.map fun _ => (), r.2)
  | .mkdir path => (Sdimg.mkdir v path img.disk).map fun r => (r.1, { img with disk := r.2 })
  | .unlink path => (unlinkPath v path img.disk).map fun r => (r.1, { img with disk := r.2 })
  | .rename oldPath newPath =>
    (Sdimg.rename v oldPath newPath img.disk).map fun r => (r.1, { img with disk := r.2 })

/-- The parent of a path is a file. -/
def FileParent (v : Volume) (d : Disk) (path : List Byte) : Prop :=
  ∃ parent base t, splitParent path = some (parent, base) ∧
    resolvePath v d parent = some (some t) ∧ t.isDir = false

def Call.HasFileParent (v : Volume) (d : Disk) : Call → Prop
  | .create path | .mkdir path | .unlink path => FileParent v d path
  | .rename oldPath newPath => FileParent v d oldPath ∨ FileParent v d newPath

/-- The lookups of a call fail, or there is no room. -/
def Call.Refused (v : Volume) (d : Disk) : Call → Prop
  | .create _ => True
  | .mkdir path => v.readOnly = true ∨ (∃ err, newName v d false path = some (.error err)) ∨
    ∃ r, newName v d false path = some (.ok r) ∧ ¬∃ c, Free v d c
  | .unlink path => v.readOnly = true ∨ (∃ err, oldName v d false path = some (.error err)) ∨
    ∃ e, oldName v d false path = some (.ok e) ∧ e.target.isDir
  | .rename oldPath newPath => v.readOnly = true ∨ splitParent oldPath = none ∨
    (splitParent newPath).bind (fun r => toFat83 r.2) = none ∨
    (∃ err, oldName v d false oldPath = some (.error err)) ∨
    ∃ e, oldName v d false oldPath = some (.ok e) ∧
      (splitParent oldPath).map Prod.fst ≠ (splitParent newPath).map Prod.fst ∧
      ((∃ err, newName v d false newPath = some (.error err)) ∨
        ∃ r, newName v d false newPath = some (.ok r) ∧ ¬HasRoom v d r.1)

section Parents

variable {v : Volume} {d d' : Disk} {img : Image}

/-! ## Entries found -/

/-- The sector can be read as long as the image does not shrink. -/
theorem readSector_isSome {lba : Nat} (h : (readSector v d lba).isSome) (hsize : d.size ≤ d'.size) :
    (readSector v d' lba).isSome := by
  rw [readSector] at h ⊢
  split_ifs at h with hin
  · rw [if_pos (hin.trans hsize)]
    rfl
  · cases h

theorem changeSector_isSome (hro : v.readOnly = false) {lba : Nat}
    (h : (readSector v d lba).isSome) (change : (Nat → Byte) → Nat → Byte) :
    ∃ d', changeSector v lba change d = some d' := by
  obtain ⟨sec, hread⟩ := Option.isSome_iff_exists.mp h
  rw [changeSector, hread, Option.bind_some, writeSector, hro]
  exact ⟨_, rfl⟩

/-- An entry that is found was read. -/
theorem oldName_sector {checkDir : Bool} {path : List Byte} {e : DirEntry}
    (h : oldName v d checkDir path = some (.ok e)) :
    ∃ sec, readSector v d e.lba = some sec ∧ e.bytes = fun j => sec (e.off + j) := by
  rw [oldName] at h
  split at h
  · cases h
  · rename_i parent base hsplit
    rcases hparent : parentOf v d checkDir parent with - | (err | first)
    · rw [hparent] at h
      cases h
    · rw [hparent] at h
      cases h
    · rw [hparent, andThen_ok] at h
      rcases hfind : findDirEntry v d first base with - | (- | ⟨i, e'⟩)
      · rw [hfind] at h
        cases h
      · rw [hfind] at h
        cases h
      · rw [hfind] at h
        cases h
        obtain ⟨raw, he, -⟩ := search_found hfind
        obtain ⟨sec, hread, hbytes, -⟩ := dirEntry_sector he
        exact ⟨sec, hread, hbytes⟩

/-- Freeing does not shrink the image. -/
theorem LaidOut.freeChain_size (h : LaidOut v d) (hro : v.readOnly = false) {fuel c : Nat} {ok : Bool}
    (hfree : freeChain v fuel d c = some (ok, d')) : d.size ≤ d'.size := by
  induction fuel generalizing d c with
  | zero => cases hfree
  | succ fuel ih =>
    rw [freeChain] at hfree
    split_ifs at hfree with hc
    · rw [h.clusterEnd_eq] at hc
      obtain ⟨d₁, hwrite, hchanges, -⟩ := h.readFatEntry_put hro hc.2 0
      rw [hwrite] at hfree
      dsimp only at hfree
      split_ifs at hfree
      · cases hfree
        exact hchanges.size
      · exact hchanges.size.trans (ih hchanges.laid hfree)
    · cases hfree
      exact le_rfl

theorem LaidOut.freeClusters_size (h : LaidOut v d) (hro : v.readOnly = false) (first : Nat) :
    d.size ≤ (freeClusters v first d).size := by
  rw [freeClusters]
  split_ifs
  · rcases hfree : freeClusterChain v d first with - | ⟨ok, d₁⟩
    · exact le_rfl
    · exact h.freeChain_size hro hfree
  · exact le_rfl

/-! ## The calls -/

/-- Opening a file checks the parent. -/
theorem fopenEx_fileParent {path : List Byte} (hfile : FileParent v img.disk path) :
    ∃ err, fopenEx v path img = some (.error err, img) := by
  obtain ⟨parent, base, t, hsplit, hresolve, hdir⟩ := hfile
  have hparent : parentOf v img.disk true parent = some (.error .enotdir) := by
    rw [parentOf, hresolve, Option.map_some]
    dsimp only
    rw [hdir]
    rfl
  rw [fopenEx]
  split_ifs
  · exact ⟨_, rfl⟩
  · rw [oldName, hsplit]
    dsimp only
    rw [hparent, andThen_error]
    exact ⟨_, rfl⟩

theorem mkdir_refused_iff (hlaid : LaidOut v d) {path : List Byte}
    (hok : ∀ r, newName v d false path = some (.ok r) → DirOk v d r.1) :
    (∃ err, mkdir v path d = some (.error err, d)) ↔ (Call.mkdir path).Refused v d := by
  rw [Call.Refused]
  by_cases hall : v.readOnly = false ∧ (∃ r, newName v d false path = some (.ok r)) ∧
      ∃ c, Free v d c
  · obtain ⟨hwritable, ⟨r, hname⟩, hcluster⟩ := hall
    refine iff_of_false ?_ ?_
    · rintro ⟨err, h⟩
      rcases mkdir_taken hlaid hwritable hname (hok r hname) hcluster with
        ⟨-, d₁, hmade⟩ | ⟨-, d₁, hlost, hne⟩
      · rw [hmade] at h
        cases h
      · rw [hlost] at h
        cases h
        exact hne rfl
    · rintro (hro | ⟨err, herr⟩ | ⟨-, -, hnone⟩)
      · rw [hwritable] at hro
        cases hro
      · rw [hname] at herr
        cases herr
      · exact hnone hcluster
  · rw [mkdir]
    by_cases hro : v.readOnly = true
    · rw [if_pos hro]
      exact iff_of_true ⟨_, rfl⟩ (.inl hro)
    have hwritable : v.readOnly = false := Bool.eq_false_iff.mpr hro
    rw [if_neg hro]
    rcases hname : newName v d false path with - | (err | ⟨first, name83⟩)
    · simp [hro]
    · exact iff_of_true ⟨_, rfl⟩ (.inr (.inl ⟨err, rfl⟩))
    · rcases hlaid.makeDir_spec hwritable first with ⟨hnone, halloc, hsame⟩ | ⟨c, hfree, -⟩
      · dsimp only
        rw [halloc, if_pos rfl, hsame]
        exact iff_of_true ⟨_, rfl⟩ (.inr (.inr ⟨_, rfl, hnone⟩))
      · exact absurd ⟨hwritable, ⟨_, hname⟩, c, hfree⟩ hall

theorem unlinkPath_refused_iff (hlaid : LaidOut v d) (path : List Byte) :
    (∃ err, unlinkPath v path d = some (.error err, d)) ↔ (Call.unlink path).Refused v d := by
  rw [unlinkPath, Call.Refused]
  by_cases hro : v.readOnly = true
  · rw [if_pos hro]
    exact iff_of_true ⟨_, rfl⟩ (.inl hro)
  have hwritable : v.readOnly = false := Bool.eq_false_iff.mpr hro
  rw [if_neg hro]
  rcases hname : oldName v d false path with - | (err | e)
  · simp [hro]
  · exact iff_of_true ⟨_, rfl⟩ (.inr (.inl ⟨err, rfl⟩))
  · obtain ⟨sec, hread, hbytes⟩ := oldName_sector hname
    have hdir : e.target.isDir = true ↔ sec (e.off + 11) &&& attrDirectory ≠ 0#8 := by
      rw [DirEntry.target, hbytes]
      exact decide_eq_true_iff
    dsimp only
    rw [hread]
    dsimp only
    by_cases hisdir : sec (e.off + 11) &&& attrDirectory ≠ 0#8
    · rw [if_pos hisdir]
      exact iff_of_true ⟨_, rfl⟩ (.inr (.inr ⟨e, rfl, hdir.mpr hisdir⟩))
    · have hsome : (readSector v d e.lba).isSome := by
        rw [hread]
        rfl
      obtain ⟨d₁, hmark⟩ := changeSector_isSome hwritable
        (readSector_isSome hsome (hlaid.freeClusters_size hwritable (entryCluster sec e.off)))
        fun sec => update sec e.off 0xE5#8
      rw [if_neg hisdir, markEntryDeleted, hmark]
      refine iff_of_false ?_ ?_
      · rintro ⟨err, ⟨⟩⟩
      · rintro (hro' | ⟨err, ⟨⟩⟩ | ⟨e', he', hdir'⟩)
        · exact hro hro'
        · cases he'
          exact hisdir (hdir.mp hdir')

/-- An entry is moved into a directory with room for it. -/
theorem moveEntry_spec (hlaid : LaidOut v d) (hwritable : v.readOnly = false) {e : DirEntry}
    (he : (readSector v d e.lba).isSome) {first : Nat} (hok : DirOk v d first)
    (new83 : List Byte) :
    (HasRoom v d first ∧ ∃ d', moveEntry v e first new83 d = some (.ok (), d')) ∨
      (¬HasRoom v d first ∧ moveEntry v e first new83 d = some (.error .enospc, d)) := by
  have hwrites : ∀ {d₁ : Disk} {lba off : Nat}, LaidOut v d₁ → d.size ≤ d₁.size →
      DataSector v lba → allocDirEntry v first d = some (.ok (lba, off), d₁) →
      ∃ d', moveEntry v e first new83 d = some (.ok (), d') := by
    intro d₁ lba off hlaid₁ hsize hlba hdir
    obtain ⟨d₂, hwrite, hchanges⟩ := hlaid₁.writeNewEntry_data hwritable hlba off
      (nameBytes new83) (e.bytes 11) (entryCluster e.bytes 0) (getLe e.bytes 28 4)
    obtain ⟨d₃, hmark⟩ := changeSector_isSome hwritable
      (readSector_isSome he (hsize.trans hchanges.size)) fun sec => update sec e.off 0xE5#8
    refine ⟨d₃, ?_⟩
    rw [moveEntry, hdir]
    dsimp only
    rw [hwrite]
    dsimp only
    rw [markEntryDeleted, hmark]
  rcases hok.allocDirEntry hlaid hwritable with
    ⟨k, e', -, hslot, -, hlba, hdir⟩ | ⟨hnoslot, hfull, hdir⟩ |
      ⟨-, chain, c, d₁, hchain, -, hfree, hdir, -, hchanges, -⟩
  · exact .inl ⟨.inl ⟨k, hslot⟩, hwrites hlaid le_rfl hlba hdir⟩
  · refine .inr ⟨?_, ?_⟩
    · rintro (hslot | ⟨hnotroot, hcluster⟩)
      · exact hnoslot hslot
      · exact hfull.elim hnotroot fun hnone => hnone hcluster
    · rw [moveEntry, hdir]
  · have hlba := (hlaid.clusterSector hfree.1 hfree.2.1 hlaid.cluster_pos).2
    rw [Nat.add_zero] at hlba
    exact .inl ⟨.inr ⟨hchain.not_root, c, hfree⟩, hwrites hchanges.laid hchanges.size hlba hdir⟩

theorem rename_refused_iff (hlaid : LaidOut v d) {oldPath newPath : List Byte}
    (hok : ∀ r, newName v d false newPath = some (.ok r) → DirOk v d r.1) :
    (∃ err, rename v oldPath newPath d = some (.error err, d)) ↔
      (Call.rename oldPath newPath).Refused v d := by
  rw [rename, Call.Refused]
  by_cases hro : v.readOnly = true
  · rw [if_pos hro]
    exact iff_of_true ⟨_, rfl⟩ (.inl hro)
  have hwritable : v.readOnly = false := Bool.eq_false_iff.mpr hro
  rw [if_neg hro]
  rcases hold : splitParent oldPath with - | ⟨oldParent, oldBase⟩
  · exact iff_of_true ⟨_, rfl⟩ (.inr (.inl rfl))
  rcases hnew : splitParent newPath with - | ⟨newParent, newBase⟩
  · exact iff_of_true ⟨_, rfl⟩ (.inr (.inr (.inl rfl)))
  dsimp only
  rcases hname : toFat83 newBase with - | new83
  · exact iff_of_true ⟨_, rfl⟩ (.inr (.inr (.inl hname)))
  have hnamed : (some (newParent, newBase)).bind (fun r => toFat83 r.2) ≠ none := by
    rw [Option.bind_some, hname]
    exact Option.some_ne_none _
  rcases hfound : oldName v d false oldPath with - | (err | e)
  · refine iff_of_false ?_ ?_
    · rintro ⟨err, ⟨⟩⟩
    · rintro (h | ⟨⟨⟩⟩ | h | ⟨err, ⟨⟩⟩ | ⟨e, ⟨⟩, -⟩)
      · exact hro h
      · exact hnamed h
  · exact iff_of_true ⟨_, rfl⟩ (.inr (.inr (.inr (.inl ⟨err, rfl⟩))))
  obtain ⟨sec, hread, -⟩ := oldName_sector hfound
  have hsome : (readSector v d e.lba).isSome := by
    rw [hread]
    rfl
  dsimp only
  by_cases hsame : oldParent = newParent
  · obtain ⟨d₁, hwrite⟩ := changeSector_isSome hwritable hsome
      fun sec => blit sec e.off 11 (nameBytes new83)
    rw [if_pos hsame, renameEntry, hwrite]
    refine iff_of_false ?_ ?_
    · rintro ⟨err, ⟨⟩⟩
    · rintro (h | ⟨⟨⟩⟩ | h | ⟨err, ⟨⟩⟩ | ⟨e', -, hne, -⟩)
      · exact hro h
      · exact hnamed h
      · exact hne (congrArg some hsame)
  have hne : some oldParent ≠ some newParent := fun heq => hsame (Option.some.inj heq)
  rw [if_neg hsame]
  rcases hfresh : newName v d false newPath with - | (err | ⟨first, name83⟩)
  · refine iff_of_false ?_ ?_
    · rintro ⟨err, ⟨⟩⟩
    · rintro (h | ⟨⟨⟩⟩ | h | ⟨err, ⟨⟩⟩ | ⟨e', -, -, ⟨err, ⟨⟩⟩ | ⟨r, ⟨⟩, -⟩⟩)
      · exact hro h
      · exact hnamed h
  · exact iff_of_true ⟨_, rfl⟩ (.inr (.inr (.inr (.inr ⟨e, rfl, hne, .inl ⟨err, rfl⟩⟩))))
  rcases moveEntry_spec hlaid hwritable hsome (hok _ hfresh) new83 with
    ⟨hroom, d₁, hmoved⟩ | ⟨hnoroom, hmoved⟩
  · dsimp only
    rw [hmoved]
    refine iff_of_false ?_ ?_
    · rintro ⟨err, ⟨⟩⟩
    · rintro (h | ⟨⟨⟩⟩ | h | ⟨err, ⟨⟩⟩ | ⟨e', -, -, ⟨err, ⟨⟩⟩ | ⟨r, ⟨⟩, hnone⟩⟩)
      · exact hro h
      · exact hnamed h
      · exact hnone hroom
  · dsimp only
    rw [hmoved]
    exact iff_of_true ⟨_, rfl⟩
      (.inr (.inr (.inr (.inr ⟨e, rfl, hne, .inr ⟨_, rfl, hnoroom⟩⟩))))

/-! ## Files for parents -/

/-- The path a call makes an entry at. -/
def Call.target : Call → List Byte
  | .create path | .mkdir path | .unlink path | .rename _ path => path

theorem error_of_map {α : Type} {x : Option (Except Errno α × Disk)} {err : Errno} :
    (x.map fun r => (r.1, { img with disk := r.2 })) = some (.error err, img) ↔
      x = some (.error err, img.disk) := by
  constructor
  · intro h
    obtain ⟨⟨r, d⟩, rfl, heq⟩ := Option.map_eq_some_iff.mp h
    obtain ⟨rfl, himg⟩ := Prod.mk.inj heq
    exact congrArg some (Prod.ext rfl (congrArg Image.disk himg))
  · rintro rfl
    rfl

end Parents

/-! ## A file -/

/-- The entry of a file `A` of 16 bytes, in cluster 3. -/
def fileEntry : Nat → Byte
  | 0 => 0x41#8
  | 11 => attrArchive
  | 26 => 0x03#8
  | 28 => 0x10#8
  | i => if i < 11 then blank else 0#8

/-- The card of `sampleDisk` with that file, of zeros, in its root directory. -/
def fileDisk : Disk where
  bytes i :=
    if i < 16396 then sampleDisk.bytes i
    else if i < 16399 then 0xFF#8
    else if i = 16399 then 0x0F#8
    else if i < 540672 then sampleDisk.bytes i
    else if i < 540704 then fileEntry (i - 540672)
    else 0#8
  size := 34089472
  past_end := by
    intro i hi
    rw [if_neg (by omega), if_neg (by omega), if_neg (by omega), if_neg (by omega),
      if_neg (by omega)]

def fileImage : Image where
  disk := fileDisk
  files := sampleImage.files

theorem fileDisk_laidOut : LaidOut sampleVolume fileDisk :=
  sampleDisk_laidOut.of_size_le le_rfl

/-- `A/B`. -/
def filePath : List Byte := [0x41#8, 0x2F#8, 0x42#8]

/-- The first slot of its root directory. -/
def fileSlot : DirEntry where
  lba := 1056
  off := 0 * 32
  bytes j := clip sampleVolume (fun q => fileDisk.bytes (540672 + q)) (0 * 32 + j)

theorem file_resolve : resolvePath sampleVolume fileDisk [0x41#8] = some (some fileSlot.target) := by
  have hslot : dirEntry sampleVolume fileDisk 2 0 = some fileSlot :=
    firstSector_slot (by decide) (by decide) rfl
  have hfind : findDirEntry sampleVolume fileDisk 2 [0x41#8] = some (some (0, fileSlot)) :=
    findDirEntry_named (by decide) hslot (by decide : _ = Slot.named [0x41#8]) (by decide)
      fun j hj => absurd hj (Nat.not_lt_zero j)
  rw [resolvePath, show components [0x41#8] = [[0x41#8]] by decide, resolveFrom,
    show (rootTarget sampleVolume).isDir = true from rfl, if_pos rfl,
    show (rootTarget sampleVolume).cluster = 2 from rfl, hfind]
  rfl

theorem file_split : splitParent filePath = some ([0x41#8], [0x42#8]) := by decide

theorem file_parent : FileParent sampleVolume fileDisk filePath :=
  ⟨_, _, _, file_split, file_resolve, by decide⟩

/-- The first bytes of the file are taken for the end of a directory. -/
theorem file_newName : newName sampleVolume fileDisk false filePath =
    some (.ok (3, 0x42#8 :: List.replicate 10 blank)) := by
  have hend : EndsAt sampleVolume fileDisk 3 0 := by
    intro e he
    have hslot : dirEntry sampleVolume fileDisk 3 0 = some _ :=
      firstSector_slot (by decide) (show dirSector sampleVolume fileDisk 3 0 = some 1057 by decide)
        rfl
    obtain rfl := Option.some.inj (hslot.symm.trans he)
    decide
  have hfind : findDirEntry sampleVolume fileDisk 3 [0x42#8] = some none :=
    search_eq_some.mpr ⟨0, le_rfl, by decide, hend.look, fun j _ hj => absurd hj (by omega)⟩
  have hparent : parentOf sampleVolume fileDisk false [0x41#8] = some (.ok 3) := by
    rw [parentOf, file_resolve]
    rfl
  rw [newName, file_split]
  dsimp only
  rw [show toFat83 [0x42#8] = some (0x42#8 :: List.replicate 10 blank) by decide]
  dsimp only
  rw [hparent, andThen_ok, hfind]
  rfl

theorem file_dirOk (r : Nat × List Byte)
    (h : newName sampleVolume fileDisk false filePath = some (.ok r)) :
    DirOk sampleVolume fileDisk r.1 := by
  rw [file_newName] at h
  cases h
  refine .inr ⟨[3], ⟨rfl, by decide, ?_⟩, by decide⟩
  intro i hi
  obtain rfl : i = 0 := Nat.lt_one_iff.mp hi
  change readFatEntry sampleVolume fileDisk 3 = eoc
  decide

end Phosphoric.Sdimg
