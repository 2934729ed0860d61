import Phosphoric.Emu.Loader

/-!
# What a savestate leaves out

The sections `savestate_save` writes, and what becomes of a device that has none: a ULA-NG that is
locked, and a drive without media, of which the DSK section has no record.

**Theorem (`savestateLoad_omitted`).** Loading leaves such a device as it is in the machine loaded
into. A section left out means "unchanged" and not "default", as a savestate without the section of
a card does: a ULA-NG open with its sprites on stays so (`savestateLoad_omitted_unlocked`).

The loop visits the sections there are. What a reader cannot reach, a run of readers cannot
(`loadEach_view`), and only the records of the other drives are in the DSK section.
-/

namespace Phosphoric

open Binary
open Function (update update_of_ne)

variable {σ α : Type}

/-! ## Devices -/

/-- `u->unlocked`, the first byte of the record. -/
def HostUlaNg.unlocked (u : HostUlaNg) : Bool :=
  if h : 0 < u.sizeof then u.bytes ⟨0, h⟩ != 0#8 else false

/-- What a controller knows of the medium of a drive. -/
structure OstMedium where
  data : Option Nat
  size : Nat
  tracks : Byte
  sectors : Byte

/-- A drive of the machine, and of the two controllers. -/
structure OstDrive where
  disk : Option OstDisk
  microdisc : OstMedium
  jasmin : OstMedium

def Microdisc.medium (md : Microdisc) (d : Fin 4) : OstMedium :=
  ⟨md.diskData d, md.diskSize d, md.diskTracks d, md.diskSectors d⟩

def Jasmin.medium (j : Jasmin) (d : Fin 4) : OstMedium :=
  ⟨j.diskData d, j.diskSize d, j.diskTracks d, j.diskSectors d⟩

namespace OstEmulator

def drive (emu : OstEmulator σ) (d : Fin 4) : OstDrive :=
  ⟨emu.disks d, emu.microdisc.medium d, emu.jasmin.medium d⟩

/-! ## Saving -/

/-- The bytes of a disk's image. -/
def imageBytes (emu : OstEmulator σ) (disk : OstDisk) : List Byte :=
  let heap := if emu.cardMicrodisc then emu.microdisc.fdc.heap else emu.jasmin.fdc.heap
  (List.range disk.size).map fun i => (disk.data.map fun buf => heap.load ⟨buf, i⟩).getD 0#8

/-- A loaded drive's record in the DSK section. -/
def imageRecord (emu : OstEmulator σ) (drive : Fin 4 × OstDisk) : List Byte :=
  writeU8 (.ofNat 8 drive.1.val) ++ (writeU32le (.ofNat 32 drive.2.size) ++
    (writeU8 drive.2.tracks ++ (writeU8 drive.2.sectors ++ (writeU8 drive.2.sides ++
      emu.imageBytes drive.2))))

/-- The drives with a disk, in order. -/
def loadedDrives (emu : OstEmulator σ) : List (Fin 4 × OstDisk) :=
  (List.finRange 4).filterMap fun d => (emu.disks d).map fun disk => (d, disk)

/-- The data of the DSK section. -/
def saveDsk (emu : OstEmulator σ) : List Byte :=
  writeU8 (.ofNat 8 emu.loadedDrives.length) ++ emu.loadedDrives.flatMap emu.imageRecord

end OstEmulator

/-- The cards a machine has, beside its disk controllers and its ULA-NG. -/
structure OstCards where
  acia : Bool
  dtl2000 : Bool
  mageco : Bool
  sp0256 : Bool
  mea8000 : Bool

/-- The sections in the order of the file, those of the cards in the order of `cards_list.h`. -/
def ostOrder : List OstKind :=
  [.cpu, .mem, .via, .psg, .vid, .clk, .kbd, .fdc, .mdc, .dsk, .bad, .tap, .ser,
    .jas, .dtl, .mag, .spo, .mea, .ung, .info]

/-- `savestate_save` writes the section. The header of one whose `save` hook returns false is
overwritten by the section after it; META comes last and is always written. -/
def OstEmulator.emits (emu : OstEmulator σ) (cards : OstCards) : OstKind → Bool
  | .fdc | .mdc | .bad => emu.cardMicrodisc
  | .dsk => emu.cardMicrodisc || emu.cardJasmin
  | .ser => cards.acia
  | .jas => emu.cardJasmin
  | .dtl => cards.dtl2000
  | .mag => cards.mageco
  | .spo => cards.sp0256
  | .mea => cards.mea8000
  | .ung => emu.ulaNg.unlocked
  | .unknown => false
  | _ => true

/-- The data of a section; `others` has that of the sections of the other devices. -/
def OstEmulator.sectionData (emu : OstEmulator σ) (others : OstKind → List Byte) :
    OstKind → List Byte
  | .dsk => emu.saveDsk
  | .ung => List.ofFn emu.ulaNg.bytes
  | kind => others kind

/-- The sections of `savestate_save`, by what they are and their data. -/
def OstEmulator.saved (emu : OstEmulator σ) (cards : OstCards) (others : OstKind → List Byte) :
    List (OstKind × List Byte) :=
  (ostOrder.filter (emu.emits cards)).map fun kind => (kind, emu.sectionData others kind)

/-- A section as it is read. -/
def OstSection.read (s : OstSection) : OstKind × List Byte := (ostKind s.tag, s.data)

/-! ## What readers reach -/

section View

variable {E : Type} {view : E → α}

/-- A reader leaves what is viewed of the machine as it is. -/
def Keeps (view : E → α) (emu : E) (r : Reader E) : Prop :=
  ∀ file, view (r file).1 = view emu

theorem Keeps.pure {emu emu' : E} (h : view emu' = view emu) : Keeps view emu (pure emu') :=
  fun _ => h

theorem Keeps.bind {β : Type} {emu : E} {k : β → Reader E} (h : ∀ b, Keeps view emu (k b))
    (m : Reader β) : Keeps view emu (m >>= k) :=
  fun _ => h _ _

/-- A reader that goes on from what another has read. -/
theorem Keeps.bind_of {β γ : Type} {part : β → γ} {b : β} {emu : E} {m : Reader β}
    {k : β → Reader E} (hm : Keeps part b m) (h : ∀ b', part b' = part b → Keeps view emu (k b')) :
    Keeps view emu (m >>= k) :=
  fun file => h _ (hm file) _

/-- Sections none of which changes the view. -/
theorem loadEach_view {view : OstEmulator σ → α} (sections : List OstSection)
    (hview : ∀ s ∈ sections, ∀ (emu : OstEmulator σ) rest,
      view (ostLoad s.tag s.data.length (s.data ++ rest) emu) = view emu)
    (emu : OstEmulator σ) : view (loadEach ostLoad sections emu) = view emu := by
  induction sections generalizing emu with
  | nil => rfl
  | cons s rest ih =>
    obtain ⟨hs, hrest⟩ := List.forall_mem_cons.mp hview
    exact (ih hrest _).trans (hs emu _)

end View

section Readers

theorem jasminLoad_medium (j : Jasmin) (size : Nat) :
    Keeps Jasmin.medium j (jasminLoad j size) := by
  unfold jasminLoad
  split_ifs with hsize
  · exact Keeps.pure rfl
  refine Keeps.bind (fun version => ?_) _
  cases jasminFdcSize version with
  | none => exact Keeps.pure rfl
  | some fdcSize =>
    dsimp only
    split_ifs with hfdc
    · exact Keeps.pure rfl
    unfold jasminLoadLatches
    repeat refine Keeps.bind (fun _ => ?_) _
    exact Keeps.pure rfl

variable (emu : OstEmulator σ) (d : Fin 4)

/-- What may be left out of a savestate: the ULA-NG, and the drive `d`. -/
def OstEmulator.left (d : Fin 4) (emu : OstEmulator σ) : HostUlaNg × OstDrive :=
  (emu.ulaNg, emu.drive d)

theorem loadPsg_left (size : Nat) : Keeps (OstEmulator.left d) emu (emu.loadPsg size) := by
  have hfields : Keeps (OstEmulator.left d) emu emu.loadPsgFields := by
    unfold OstEmulator.loadPsgFields
    repeat refine Keeps.bind (fun _ => ?_) _
    exact Keeps.pure rfl
  unfold OstEmulator.loadPsg
  refine Keeps.bind_of hfields ?_
  intro read hread
  dsimp only
  split_ifs
  all_goals
    repeat refine Keeps.bind (fun _ => ?_) _
    refine Keeps.pure ?_
    calc OstEmulator.left d _ = OstEmulator.left d read := rfl
      _ = OstEmulator.left d emu := hread

theorem loadVid_left (size : Nat) : Keeps (OstEmulator.left d) emu (emu.loadVid size) := by
  unfold OstEmulator.loadVid
  dsimp only
  split_ifs
  all_goals
    repeat refine Keeps.bind (fun _ => ?_) _
    refine Keeps.pure ?_
    simp only [OstEmulator.left, OstEmulator.drive]

theorem loadMdc_left : Keeps (OstEmulator.left d) emu emu.loadMdc := by
  unfold OstEmulator.loadMdc
  repeat refine Keeps.bind (fun _ => ?_) _
  refine Keeps.pure ?_
  split <;> rfl

theorem microdiscSyncBadMap_medium (md : Microdisc) (drive : Fin 4) :
    (microdiscSyncBadMap md drive).medium = md.medium := by
  unfold microdiscSyncBadMap
  split_ifs <;> rfl

theorem loadBad_left : Keeps (OstEmulator.left d) emu emu.loadBad := by
  unfold OstEmulator.loadBad
  repeat refine Keeps.bind (fun _ => ?_) _
  refine Keeps.pure ?_
  unfold OstEmulator.left OstEmulator.drive
  dsimp only
  split_ifs
  · rw [microdiscSyncBadMap_medium]
    rfl
  · rfl

theorem loadJas_left (size : Nat) : Keeps (OstEmulator.left d) emu (emu.loadJas size) := by
  unfold OstEmulator.loadJas
  refine Keeps.bind_of (jasminLoad_medium emu.jasmin size) ?_
  intro j hj
  refine Keeps.pure ?_
  unfold OstEmulator.left OstEmulator.drive
  dsimp only
  rw [hj]

/-- Only the sections UNG and DSK have what may be left out. -/
theorem loadKind_left {kind : OstKind} (hung : kind ≠ .ung) (hdsk : kind ≠ .dsk) (size : Nat) :
    Keeps (OstEmulator.left d) emu (emu.loadKind size kind) := by
  cases kind with
  | ung => exact absurd rfl hung
  | dsk => exact absurd rfl hdsk
  | psg => exact loadPsg_left emu d size
  | mdc => exact loadMdc_left emu d
  | bad => exact loadBad_left emu d
  | jas => exact loadJas_left emu d size
  | unknown => exact Keeps.pure rfl
  | vid => exact loadVid_left emu d size
  | _ =>
    simp only [OstEmulator.loadKind, OstEmulator.loadCpu, OstEmulator.loadMem,
      OstEmulator.loadVia, OstEmulator.loadKbd, OstEmulator.loadFdc, OstEmulator.loadTap,
      OstEmulator.loadSer, OstEmulator.loadClk, OstEmulator.loadMeta]
    repeat refine Keeps.bind (fun _ => ?_) _
    exact Keeps.pure rfl

end Readers

/-! ## Disk images -/

section Images

variable {emu : OstEmulator σ} {d drive : Fin 4}

theorem microdiscDrive_ofNat (drive : Fin 4) : microdiscDrive (.ofNat 8 drive.val) = some drive := by
  fin_cases drive <;> rfl

theorem jasminDrive_ofNat (drive : Fin 4) : jasminDrive (.ofNat 8 drive.val) = some drive := by
  fin_cases drive <;> rfl

theorem microdiscSetDisk_medium (hne : d ≠ drive) (md : Microdisc) (data : Option Nat) (size : Nat)
    (tracks sectors : Byte) :
    (microdiscSetDisk md (.ofNat 8 drive.val) data size tracks sectors).medium d = md.medium d := by
  unfold microdiscSetDisk
  rw [microdiscDrive_ofNat]
  dsimp only
  split_ifs <;> simp only [Microdisc.medium, update_of_ne hne]

theorem jasminSetDisk_medium (hne : d ≠ drive) (j : Jasmin) (data : Option Nat) (size : Nat)
    (tracks sectors : Byte) :
    (jasminSetDisk j (.ofNat 8 drive.val) data size tracks sectors).medium d = j.medium d := by
  unfold jasminSetDisk
  rw [jasminDrive_ofNat]
  dsimp only
  split_ifs <;> simp only [Jasmin.medium, update_of_ne hne]

theorem setMicrodisc_medium (hne : d ≠ drive) (buf dsize : Nat) (tracks sectors : Byte) :
    (emu.setMicrodisc drive buf dsize tracks sectors).medium d = emu.microdisc.medium d := by
  unfold OstEmulator.setMicrodisc
  have hset := microdiscSetDisk_medium hne emu.microdisc (some buf) dsize tracks sectors
  dsimp only
  split_ifs
  · exact hset
  · exact hset

/-- An image changes its own drive only. -/
theorem setImage_left (hne : d ≠ drive) (buf dsize : Nat) (tracks sectors sides : Byte)
    (bytes : List Byte) :
    (emu.setImage drive buf dsize tracks sectors sides bytes).left d = emu.left d := by
  unfold OstEmulator.setImage OstEmulator.left OstEmulator.drive
  dsimp only
  rw [setMicrodisc_medium hne, update_of_ne hne]
  split_ifs
  · rw [jasminSetDisk_medium hne]
    rfl
  · rfl

theorem ensureDisk_left (hne : d ≠ drive) : (emu.ensureDisk drive).left d = emu.left d := by
  unfold OstEmulator.ensureDisk
  split_ifs
  · simp only [OstEmulator.left, OstEmulator.drive, update_of_ne hne]
  · rfl

/-- The bytes of an image are read or skipped, all of them. -/
theorem loadImageData_left (hne : d ≠ drive) {target : Option (Fin 4)}
    (htarget : target = none ∨ target = some drive) (tracks sectors sides : Byte)
    (image rest : List Byte) :
    ((emu.loadImageData target image.length tracks sectors sides) (image ++ rest)).2 = rest ∧
      ((emu.loadImageData target image.length tracks sectors sides) (image ++ rest)).1.left d =
        emu.left d := by
  have hskip : (image ++ rest).drop image.length = rest := List.drop_left
  obtain rfl | rfl := htarget
  · exact ⟨hskip, rfl⟩
  · unfold OstEmulator.loadImageData
    dsimp only
    cases (emu.ensureDisk drive).sizedBuffer drive image.length with
    | none => exact ⟨hskip, ensureDisk_left hne⟩
    | some buf => exact ⟨hskip, (setImage_left hne ..).trans (ensureDisk_left hne)⟩

theorem imageBytes_length (saved : OstEmulator σ) (disk : OstDisk) :
    (saved.imageBytes disk).length = disk.size := by
  rw [OstEmulator.imageBytes, List.length_map, List.length_range]

theorem imageDrive_ofNat (drive : Fin 4) (size : BitVec 32) :
    OstEmulator.imageDrive (.ofNat 8 drive.val) size = none ∨
      OstEmulator.imageDrive (.ofNat 8 drive.val) size = some drive := by
  unfold OstEmulator.imageDrive
  split_ifs
  · exact .inl rfl
  · exact .inr (microdiscDrive_ofNat drive)

variable {saved : OstEmulator σ}

/-- A record is read to its end. -/
theorem loadImage_left {disk : OstDisk} (hne : d ≠ drive) (hsize : disk.size < 2 ^ 32)
    (rest : List Byte) :
    (emu.loadImage (saved.imageRecord (drive, disk) ++ rest)).2 = rest ∧
      (emu.loadImage (saved.imageRecord (drive, disk) ++ rest)).1.left d = emu.left d := by
  have hread : emu.loadImage (saved.imageRecord (drive, disk) ++ rest) =
      emu.loadImageData (OstEmulator.imageDrive (.ofNat 8 drive.val) (.ofNat 32 disk.size))
        (BitVec.ofNat 32 disk.size).toNat disk.tracks disk.sectors disk.sides
        (saved.imageBytes disk ++ rest) := by
    unfold OstEmulator.loadImage OstEmulator.imageRecord
    simp only [List.append_assoc, readU8_bind, readU32le_bind]
  have hlength : (BitVec.ofNat 32 disk.size).toNat = (saved.imageBytes disk).length := by
    rw [imageBytes_length, BitVec.toNat_ofNat, Nat.mod_eq_of_lt hsize]
  rw [hread, hlength]
  exact loadImageData_left hne (imageDrive_ofNat drive _) ..

theorem loadImages_left (drives : List (Fin 4 × OstDisk))
    (hdrives : ∀ p ∈ drives, d ≠ p.1 ∧ p.2.size < 2 ^ 32) (emu : OstEmulator σ)
    (rest : List Byte) :
    (emu.loadImages drives.length (drives.flatMap saved.imageRecord ++ rest)).1.left d =
      emu.left d := by
  induction drives generalizing emu with
  | nil => rfl
  | cons p drives ih =>
    obtain ⟨⟨hne, hsize⟩, hrest⟩ := List.forall_mem_cons.mp hdrives
    obtain ⟨hend, hleft⟩ := @loadImage_left σ emu d _ saved _ hne hsize
      (drives.flatMap saved.imageRecord ++ rest)
    rw [List.flatMap_cons, List.append_assoc, List.length_cons]
    unfold OstEmulator.loadImages
    show ((emu.loadImage _).1.loadImages drives.length (emu.loadImage _).2).1.left d = _
    rw [hend, ih hrest, hleft]

/-- The size of an image is a `uint32_t`. -/
def OstEmulator.DisksSized (emu : OstEmulator σ) : Prop :=
  ∀ d, ∀ disk ∈ emu.disks d, disk.size < 2 ^ 32

theorem loadDsk_left (hsized : saved.DisksSized) (hnone : saved.disks d = none)
    (emu : OstEmulator σ) (rest : List Byte) :
    (emu.loadDsk (saved.saveDsk ++ rest)).1.left d = emu.left d := by
  have hdrives : ∀ p ∈ saved.loadedDrives, d ≠ p.1 ∧ p.2.size < 2 ^ 32 := by
    intro p hp
    obtain ⟨drive, -, hdrive⟩ := List.mem_filterMap.mp hp
    obtain ⟨disk, hdisk, rfl⟩ := Option.map_eq_some_iff.mp hdrive
    refine ⟨?_, hsized drive disk hdisk⟩
    rintro rfl
    rw [hnone] at hdisk
    nomatch hdisk
  have hcount : (BitVec.ofNat 8 saved.loadedDrives.length).toNat = saved.loadedDrives.length := by
    have hlength : saved.loadedDrives.length ≤ 4 := List.length_filterMap_le _ _
    rw [BitVec.toNat_ofNat, Nat.mod_eq_of_lt (by omega)]
  unfold OstEmulator.loadDsk OstEmulator.saveDsk
  rw [List.append_assoc, readU8_bind, hcount]
  exact loadImages_left _ hdrives emu rest

end Images

/-! ## Loading what was saved -/

theorem loadImageData_ulaNg (emu : OstEmulator σ) (target : Option (Fin 4)) (dsize : Nat)
    (tracks sectors sides : Byte) : Keeps OstEmulator.ulaNg emu
      (emu.loadImageData target dsize tracks sectors sides) := by
  have hensure : ∀ d, (emu.ensureDisk d).ulaNg = emu.ulaNg := by
    intro d
    unfold OstEmulator.ensureDisk
    split_ifs <;> rfl
  unfold OstEmulator.loadImageData
  cases target with
  | none => exact Keeps.bind (fun _ => Keeps.pure rfl) _
  | some d =>
    dsimp only
    cases (emu.ensureDisk d).sizedBuffer d dsize with
    | none => exact Keeps.bind (fun _ => Keeps.pure (hensure d)) _
    | some buf =>
      refine Keeps.bind (fun _ => ?_) _
      exact Keeps.pure (hensure d)

theorem loadDsk_ulaNg (emu : OstEmulator σ) : Keeps OstEmulator.ulaNg emu emu.loadDsk := by
  have himage : ∀ emu : OstEmulator σ, Keeps OstEmulator.ulaNg emu emu.loadImage := by
    intro emu
    unfold OstEmulator.loadImage
    repeat refine Keeps.bind (fun _ => ?_) _
    exact loadImageData_ulaNg emu _ _ _ _ _
  have himages : ∀ n (emu : OstEmulator σ), Keeps OstEmulator.ulaNg emu (emu.loadImages n) := by
    intro n
    induction n with
    | zero => exact fun emu => Keeps.pure rfl
    | succ n ih =>
      intro emu
      exact Keeps.bind_of (himage emu) fun read hread file => (ih read file).trans hread
  unfold OstEmulator.loadDsk
  refine Keeps.bind (fun ndrives => ?_) _
  exact himages ndrives.toNat emu

section Saved

variable {saved : OstEmulator σ} {cards : OstCards} {others : OstKind → List Byte}
  {sections : List OstSection}

/-- What is read of each section is of a kind that is written, and its data. -/
theorem saved_mem (hsections : sections.map OstSection.read = saved.saved cards others)
    {s : OstSection} (hs : s ∈ sections) : saved.emits cards (ostKind s.tag) = true ∧
      s.data = saved.sectionData others (ostKind s.tag) := by
  have hmem : s.read ∈ saved.saved cards others := hsections ▸ List.mem_map_of_mem hs
  obtain ⟨kind, hkind, hread⟩ := List.mem_map.mp hmem
  obtain ⟨rfl, hdata⟩ := Prod.mk.inj hread
  exact ⟨(List.mem_filter.mp hkind).2, hdata.symm⟩

theorem loadEach_ulaNg (hsections : sections.map OstSection.read = saved.saved cards others)
    (hlocked : saved.ulaNg.unlocked = false) (target : OstEmulator σ) :
    (loadEach ostLoad sections target).ulaNg = target.ulaNg := by
  refine loadEach_view sections (fun s hs emu rest => ?_) target
  obtain ⟨hemits, -⟩ := saved_mem hsections hs
  have hung : ostKind s.tag ≠ .ung := by
    intro hkind
    rw [hkind] at hemits
    exact absurd (hlocked.symm.trans hemits) Bool.false_ne_true
  unfold ostLoad OstEmulator.loadSection
  by_cases hdsk : ostKind s.tag = .dsk
  · rw [hdsk]
    exact loadDsk_ulaNg emu _
  · exact congrArg Prod.fst (loadKind_left emu 0 hung hdsk s.data.length _)

theorem loadEach_drive (hsections : sections.map OstSection.read = saved.saved cards others)
    (hsized : saved.DisksSized) {d : Fin 4} (hnone : saved.disks d = none)
    (target : OstEmulator σ) :
    (loadEach ostLoad sections target).drive d = target.drive d := by
  refine @loadEach_view σ _ (fun emu => emu.drive d) sections (fun s hs emu rest => ?_) target
  obtain ⟨-, hdata⟩ := saved_mem hsections hs
  unfold ostLoad OstEmulator.loadSection
  by_cases hdsk : ostKind s.tag = .dsk
  · rw [hdsk] at hdata ⊢
    rw [hdata]
    exact congrArg Prod.snd (loadDsk_left hsized hnone emu rest)
  · by_cases hung : ostKind s.tag = .ung
    · rw [hung]
      rfl
    · exact congrArg Prod.snd (loadKind_left emu d hung hdsk s.data.length _)

theorem loaded_left (emu : OstEmulator σ) (d : Fin 4) : emu.loaded.left d = emu.left d := by
  unfold OstEmulator.loaded
  split_ifs <;> rfl

/-- A ULA-NG saved locked, and a drive saved without a disk, are as they were in the machine loaded
into. -/
theorem savestateLoad_omitted (hsections : sections.map OstSection.read = saved.saved cards others)
    (hsized : saved.DisksSized) (emuVersion : Vector Byte 32) (target : OstEmulator σ) :
    ∃ restored, savestateLoad ostLoad (savestateSave emuVersion sections) target = some restored ∧
      (saved.ulaNg.unlocked = false → restored.loaded.ulaNg = target.ulaNg) ∧
      ∀ d, saved.disks d = none → restored.loaded.drive d = target.drive d := by
  refine ⟨_, savestateLoad_save ostLoad emuVersion sections target, ?_, ?_⟩
  · intro hlocked
    have hloaded := congrArg Prod.fst (loaded_left (loadEach ostLoad sections target) 0)
    exact hloaded.trans (loadEach_ulaNg hsections hlocked target)
  · intro d hnone
    have hloaded := congrArg Prod.snd (loaded_left (loadEach ostLoad sections target) d)
    exact hloaded.trans (loadEach_drive hsections hsized hnone target)

end Saved

/-- The sections of a machine just switched on, those of no interest here empty. -/
def ostOmitted : List OstSection :=
  [⟨ostTagCpu, [], ostEmpty_fits⟩,
    ⟨ostTagMem, [], ostEmpty_fits⟩,
    ⟨ostTagVia, [], ostEmpty_fits⟩,
    ⟨ostTagPsg, [], ostEmpty_fits⟩,
    ⟨ostTagVid, [], ostEmpty_fits⟩,
    ⟨ostTagClk, [], ostEmpty_fits⟩,
    ⟨ostTagKbd, [], ostEmpty_fits⟩,
    ⟨ostTagFdc, [], ostEmpty_fits⟩,
    ⟨ostTagMdc, [], ostEmpty_fits⟩,
    ⟨ostTagDsk, [0x00], by decide⟩,
    ⟨ostTagBad, [], ostEmpty_fits⟩,
    ⟨ostTagTap, [], ostEmpty_fits⟩,
    ⟨ostTagInfo, [], ostEmpty_fits⟩]

def ostNoCards : OstCards := ⟨false, false, false, false, false⟩

theorem ostOmitted_saved :
    ostOmitted.map OstSection.read = ostSample.saved ostNoCards fun _ => [] := by
  decide +kernel

theorem ostSample_sized : ostSample.DisksSized := by
  intro d disk hdisk
  nomatch hdisk

/-- The ULA-NG open, with every flag set, and a disk in the first drive. -/
def ostInUse : OstEmulator Unit :=
  { ostSample with
    ulaNg := { sizeof := 4, bytes := fun _ => 1, reset := fun _ => 0 }
    disks := update (fun _ => none) 0 (some ⟨some 7, 256, 1, 1, 1⟩) }

theorem savestateLoad_omitted_sample : ∃ restored,
    savestateLoad ostLoad (savestateSave (.replicate 32 0) ostOmitted) ostInUse = some restored ∧
      (ostSample.ulaNg.unlocked = false → restored.loaded.ulaNg = ostInUse.ulaNg) ∧
      ∀ d, ostSample.disks d = none → restored.loaded.drive d = ostInUse.drive d :=
  savestateLoad_omitted ostOmitted_saved ostSample_sized _ ostInUse

/-- The ULA-NG is not locked by the load, and the disk is not taken out. -/
theorem savestateLoad_omitted_unlocked :
    ¬∀ (saved target : OstEmulator Unit) (cards : OstCards) (others : OstKind → List Byte)
      (sections : List OstSection), sections.map OstSection.read = saved.saved cards others →
      saved.DisksSized → saved.cardMicrodisc = target.cardMicrodisc →
      saved.cardJasmin = target.cardJasmin → saved.ulaNg.sizeof = target.ulaNg.sizeof →
      ∀ (emuVersion : Vector Byte 32) (restored : OstEmulator Unit),
        savestateLoad ostLoad (savestateSave emuVersion sections) target = some restored →
        (saved.ulaNg.unlocked = false → restored.loaded.ulaNg = saved.ulaNg) ∧
        ∀ d, saved.disks d = none → restored.loaded.drive d = saved.drive d := by
  intro hall
  obtain ⟨hng, -⟩ := hall ostSample ostInUse ostNoCards (fun _ => []) ostOmitted ostOmitted_saved
    ostSample_sized rfl rfl rfl (.replicate 32 0) _ (savestateLoad_save ostLoad _ _ _)
  have hloaded := congrArg Prod.fst (loaded_left (loadEach ostLoad ostOmitted ostInUse) 0)
  have hkept : ostInUse.ulaNg = ostSample.ulaNg := by
    rw [← loadEach_ulaNg ostOmitted_saved rfl ostInUse]
    exact hloaded.symm.trans (hng rfl)
  have hunlocked : ostInUse.ulaNg.unlocked = ostSample.ulaNg.unlocked := congrArg _ hkept
  exact absurd hunlocked (by decide)

end Phosphoric
