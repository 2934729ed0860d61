import Phosphoric.Microdisc.Controller
import Phosphoric.Fdc.Stores

/-!
# The WD1793 works on the selected drive

**Theorem (`microdisc_attached_iff`).** In a run from `microdiscInit` whose resets are all made
with drive 0 and side 0 selected, the medium, the tab, the damage and the side of the WD1793 are
those of the selected drive after every step; and so is the geometry, from the first insertion
into the selected drive or change of drive on.

`microdiscReset` selects drive 0 without pointing the WD1793 at it, and before the first insertion
the WD1793 has the default geometry of `fdcInit`.
-/

namespace Phosphoric

/-- The WD1793 has the selected drive's medium, tab and damage, and the selected side. -/
structure MicrodiscLinked (md : Microdisc) : Prop where
  diskData : md.fdc.diskData = md.diskData md.drive
  diskSize : md.fdc.diskSize = md.diskSize md.drive
  bad : md.fdc.bad = md.badMap md.drive
  writeProtected : md.fdc.writeProtected = md.writeProtect md.drive
  side : md.fdc.side = md.side

/-- And its geometry. -/
structure MicrodiscAttached (md : Microdisc) : Prop extends MicrodiscLinked md where
  tracks : md.fdc.tracks = md.diskTracks md.drive
  sectorsPerTrack : md.fdc.sectorsPerTrack = md.diskSectors md.drive

/-- A reset with another drive or side selected. -/
def MicrodiscBlindReset (md : Microdisc) : MicrodiscOp → Prop
  | .reset => md.drive ≠ 0 ∨ md.side ≠ 0
  | _ => False

/-- An operation that points the WD1793 at a drive: an insertion into the selected drive, or a
change of drive. -/
def MicrodiscRepoints (md : Microdisc) : MicrodiscOp → Prop
  | .write addr value => addr = 0x0314#16 ∧ microdiscDriveBits value ≠ md.drive
  | .setDisk drive _ _ _ _ => microdiscDrive drive = some md.drive
  | _ => False

/-! ## Calls of the WD1793 -/

theorem microdiscSignals_frame (signals : List FdcSignal) (md : Microdisc) :
    ∃ intrq drq calls, signals.foldl microdiscSignal md =
      { md with intrq := intrq, drq := drq, cpuIrqCalls := calls } := by
  induction signals generalizing md with
  | nil => exact ⟨_, _, _, rfl⟩
  | cons s signals ih =>
    obtain ⟨intrq, drq, calls, heq⟩ := ih (microdiscSignal md s)
    obtain ⟨intrq', drq', calls', heq'⟩ : ∃ intrq drq calls, microdiscSignal md s =
        { md with intrq := intrq, drq := drq, cpuIrqCalls := calls } := by
      unfold microdiscSignal Microdisc.cpuIrq
      cases s with
      | setDrq => exact ⟨_, _, _, rfl⟩
      | clrDrq => exact ⟨_, _, _, rfl⟩
      | setIntrq => dsimp only; split_ifs <;> exact ⟨_, _, _, rfl⟩
      | clrIntrq => dsimp only; split_ifs <;> exact ⟨_, _, _, rfl⟩
    rw [List.foldl_cons, heq, heq']
    exact ⟨intrq, drq, calls, rfl⟩

/-- Delivering the callbacks touches the lines only. -/
theorem withFdc_frame (md : Microdisc) (fdc : Fdc) :
    ∃ intrq drq calls, md.withFdc fdc = { md with
      fdc := { fdc with signals := [] }, intrq := intrq, drq := drq, cpuIrqCalls := calls } := by
  obtain ⟨intrq, drq, calls, heq⟩ := microdiscSignals_frame fdc.signals.reverse
    { md with fdc := { fdc with signals := [] } }
  exact ⟨intrq, drq, calls, heq⟩

/-- The invariant of every run: the WD1793's own, and the link to the selected drive. -/
structure MicrodiscInv (md : Microdisc) : Prop where
  fdc : FdcInv False md.fdc
  linked : MicrodiscLinked md

/-- An access leaves the medium. -/
theorem fdcAccess_media {fdc : Fdc} (h : FdcInv False fdc) (a : FdcAccess) :
    (fdcAccess fdc a).media = fdc.media := by
  let Q : FdcPlace → Ptr → Prop := fun _ _ => True
  have hQ : FdcFinds Q := fun _ _ _ _ => trivial
  have hp : FdcPlaced Q fdc := fun _ _ _ => trivial
  have heffect :=
    (fdcAccess_step hQ h hp a (by decide : 256 ≤ 65536) fun _ => fdc.curOffset.isLt).effect
  exact heffect.media

/-- What a call of the WD1793 keeps of the controller: all but the WD1793, the lines and the
dirty flags. -/
structure MicrodiscCalled (md md' : Microdisc) : Prop where
  drive : md'.drive = md.drive
  side : md'.side = md.side
  diskData : md'.diskData = md.diskData
  diskSize : md'.diskSize = md.diskSize
  diskTracks : md'.diskTracks = md.diskTracks
  diskSectors : md'.diskSectors = md.diskSectors
  badMap : md'.badMap = md.badMap
  writeProtect : md'.writeProtect = md.writeProtect
  media : md'.fdc.media = md.fdc.media
  fdcInv : FdcInv False md'.fdc

theorem withFdc_called {md : Microdisc} (h : FdcInv False md.fdc) (a : FdcAccess) :
    MicrodiscCalled md (md.withFdc (fdcAccess md.fdc a)) := by
  have hmedia := fdcAccess_media h a
  have hinv : FdcInv False (fdcAccess md.fdc a) := fdcInput_inv h (.access a) nofun
  obtain ⟨intrq, drq, calls, heq⟩ := withFdc_frame md (fdcAccess md.fdc a)
  rw [heq]
  exact ⟨rfl, rfl, rfl, rfl, rfl, rfl, rfl, rfl, hmedia, { hinv with }⟩

theorem MicrodiscCalled.markDirty {md md' : Microdisc} (h : MicrodiscCalled md md') :
    MicrodiscCalled md (microdiscMarkDirty md') := by
  unfold microdiscMarkDirty
  split_ifs
  · exact { h with fdcInv := { h.fdcInv with } }
  · exact h

theorem MicrodiscCalled.inv {md md' : Microdisc} (h : MicrodiscCalled md md')
    (hinv : MicrodiscInv md) : MicrodiscInv md' := by
  have hm := h.media
  simp only [Fdc.media, FdcMedia.mk.injEq] at hm
  obtain ⟨hdata, hsize, htracks, hspt, hbad, hprotect, hside⟩ := hm
  have hlinked := hinv.linked
  refine ⟨h.fdcInv, ⟨?_, ?_, ?_, ?_, ?_⟩⟩
  · rw [hdata, h.diskData, h.drive, hlinked.diskData]
  · rw [hsize, h.diskSize, h.drive, hlinked.diskSize]
  · rw [hbad, h.badMap, h.drive, hlinked.bad]
  · rw [hprotect, h.writeProtect, h.drive, hlinked.writeProtected]
  · rw [hside, h.side, hlinked.side]

theorem MicrodiscCalled.refl {md : Microdisc} (h : FdcInv False md.fdc) : MicrodiscCalled md md :=
  ⟨rfl, rfl, rfl, rfl, rfl, rfl, rfl, rfl, rfl, h⟩

/-! ## Operations -/

/-- What a register write does: a call of the WD1793, or the control register without or with a
change of drive. -/
theorem microdiscWrite_cases {md : Microdisc} (h : FdcInv False md.fdc) (addr : Word)
    (value : Byte) :
    (addr ≠ 0x0314#16 ∧ MicrodiscCalled md (microdiscWrite md addr value)) ∨
      (addr = 0x0314#16 ∧ microdiscDriveBits value = md.drive ∧
        microdiscWrite md addr value = microdiscControl md value) ∨
      (addr = 0x0314#16 ∧ microdiscDriveBits value ≠ md.drive ∧ microdiscWrite md addr value =
        microdiscSelectDrive (microdiscControl md value) (microdiscDriveBits value)) := by
  have hdrive : (microdiscControl md value).drive = md.drive := by
    unfold microdiscControl Microdisc.cpuIrq
    dsimp only
    split_ifs <;> rfl
  unfold microdiscWrite
  dsimp only
  split_ifs with hfdc hctrl hchange
  · refine .inl ⟨?_, (withFdc_called h (.write _ value)).markDirty⟩
    rintro rfl
    exact absurd hfdc (by decide)
  · exact .inr (.inr ⟨by simpa using hctrl, hdrive ▸ hchange, rfl⟩)
  · exact .inr (.inl ⟨by simpa using hctrl, by simpa [hdrive] using hchange, rfl⟩)
  · exact .inl ⟨by simpa using hctrl, .refl h⟩

/-- The control register gives the WD1793 its side, and no more. -/
theorem microdiscControl_frame (md : Microdisc) (value : Byte) :
    ∃ status intena romdis diskrom calls side, microdiscControl md value = { md with
      status := status, intena := intena, romdis := romdis, diskrom := diskrom,
      cpuIrqCalls := calls, side := side, fdc := { md.fdc with side := side } } := by
  unfold microdiscControl Microdisc.cpuIrq
  dsimp only
  split_ifs <;> exact ⟨_, _, _, _, _, _, rfl⟩

theorem microdiscControl_inv {md : Microdisc} (h : MicrodiscInv md) (value : Byte) :
    MicrodiscInv (microdiscControl md value) := by
  obtain ⟨status, intena, romdis, diskrom, calls, side, heq⟩ := microdiscControl_frame md value
  rw [heq]
  exact ⟨{ h.fdc with }, { h.linked with side := rfl }⟩

/-- A drive selected is a drive attached. -/
theorem microdiscSelectDrive_attached {md : Microdisc} (h : MicrodiscInv md) (d : Fin 4) :
    MicrodiscInv (microdiscSelectDrive md d) ∧ MicrodiscAttached (microdiscSelectDrive md d) :=
  ⟨⟨{ h.fdc with }, rfl, rfl, rfl, rfl, h.linked.side⟩,
    ⟨rfl, rfl, rfl, rfl, h.linked.side⟩, rfl, rfl⟩

theorem microdiscTick_called {md : Microdisc} (h : FdcInv False md.fdc) (cycles : BitVec 32) :
    MicrodiscCalled md (microdiscTick md cycles) :=
  withFdc_called h (.ticktock cycles)

theorem microdiscRead_called {md : Microdisc} (h : FdcInv False md.fdc) (addr : Word) :
    MicrodiscCalled md (microdiscRead md addr).2 := by
  unfold microdiscRead
  split_ifs
  · exact withFdc_called h (.read _)
  · exact .refl h
  · exact .refl h
  · exact .refl h

theorem microdiscSetDisk_inv {md : Microdisc} (h : MicrodiscInv md) (drive : Byte)
    (data : Option Nat) (size : Nat) (tracks sectorsPerTrack : Byte) :
    MicrodiscInv (microdiscSetDisk md drive data size tracks sectorsPerTrack) := by
  unfold microdiscSetDisk
  cases microdiscDrive drive with
  | none => exact h
  | some d =>
    dsimp only
    by_cases hd : d = md.drive
    · rw [if_pos hd]
      refine ⟨{ h.fdc with }, ?_, ?_, ?_, h.linked.writeProtected, h.linked.side⟩
      · simp [fdcSetDisk, fdcSetBadMap, hd]
      · simp [fdcSetDisk, fdcSetBadMap, hd]
      · simp [fdcSetBadMap, hd]
    · rw [if_neg hd]
      have hne : md.drive ≠ d := fun heq => hd heq.symm
      refine ⟨h.fdc, ?_, ?_, ?_, h.linked.writeProtected, h.linked.side⟩
      · simp [hne, h.linked.diskData]
      · simp [hne, h.linked.diskSize]
      · split_ifs <;> simp [hne, h.linked.bad]

theorem microdiscSetWriteProtect_inv {md : Microdisc} (h : MicrodiscInv md) (drive : Byte)
    (on : Bool) : MicrodiscInv (microdiscSetWriteProtect md drive on) := by
  unfold microdiscSetWriteProtect
  cases microdiscDrive drive with
  | none => exact h
  | some d =>
    dsimp only
    by_cases hd : d = md.drive
    · rw [if_pos hd]
      exact ⟨{ h.fdc with }, { h.linked with
        writeProtected := by simp [fdcSetWriteProtect, hd] }⟩
    · rw [if_neg hd]
      have hne : md.drive ≠ d := fun heq => hd heq.symm
      exact ⟨h.fdc, { h.linked with
        writeProtected := by simp [hne, h.linked.writeProtected] }⟩

theorem microdiscAddBadSector_inv {md : Microdisc} (h : MicrodiscInv md)
    (drive side track sector : Byte) :
    MicrodiscInv (microdiscAddBadSector md drive side track sector).2 := by
  unfold microdiscAddBadSector microdiscSyncBadMap
  cases microdiscDrive drive with
  | none => exact h
  | some d =>
    dsimp only
    cases fdcBadMapAdd (md.badMap d) side track sector with
    | none => exact h
    | some map =>
      dsimp only
      by_cases hd : d = md.drive
      · rw [if_pos hd]
        exact ⟨{ h.fdc with }, { h.linked with bad := by simp [fdcSetBadMap, hd] }⟩
      · rw [if_neg hd]
        have hne : md.drive ≠ d := fun heq => hd heq.symm
        exact ⟨h.fdc, { h.linked with bad := by simp [hne, h.linked.bad] }⟩

/-- With drive 0 and side 0 selected, a reset selects what is selected. -/
theorem microdiscReset_inv {md : Microdisc} (h : MicrodiscInv md) (hdrive : md.drive = 0)
    (hside : md.side = 0) : MicrodiscInv (microdiscReset md) := by
  have hbase : FdcBase (fdcReset md.fdc) :=
    { h.fdc with
      ddStatus := rfl, stream := nofun, diStatus := fun hd => absurd hd (Int.lt_irrefl 0) }
  have hl := h.linked
  refine ⟨hbase.inv_of_idle rfl 0 rfl (by decide), ?_, ?_, ?_, ?_, ?_⟩
  · exact hl.diskData.trans (congrArg md.diskData hdrive)
  · exact hl.diskSize.trans (congrArg md.diskSize hdrive)
  · exact hl.bad.trans (congrArg md.badMap hdrive)
  · exact hl.writeProtected.trans (congrArg md.writeProtect hdrive)
  · exact hl.side.trans hside

theorem microdiscStep_inv {md : Microdisc} (h : MicrodiscInv md) (op : MicrodiscOp)
    (hok : ¬MicrodiscBlindReset md op) : MicrodiscInv (microdiscStep md op) := by
  cases op with
  | write addr value =>
    change MicrodiscInv (microdiscWrite md addr value)
    rcases microdiscWrite_cases h.fdc addr value with ⟨-, hcall⟩ | ⟨-, -, heq⟩ | ⟨-, -, heq⟩
    · exact hcall.inv h
    · exact heq ▸ microdiscControl_inv h value
    · exact heq ▸ (microdiscSelectDrive_attached (microdiscControl_inv h value) _).1
  | read addr => exact (microdiscRead_called h.fdc addr).inv h
  | ticktock cycles => exact (microdiscTick_called h.fdc cycles).inv h
  | setDisk drive data size tracks sectorsPerTrack => exact microdiscSetDisk_inv h ..
  | setWriteProtect drive on => exact microdiscSetWriteProtect_inv h ..
  | addBadSector drive side track sector => exact microdiscAddBadSector_inv h ..
  | reset =>
    simp only [MicrodiscBlindReset, not_or, not_not] at hok
    exact microdiscReset_inv h hok.1 hok.2

/-! ## Geometry -/

/-- The geometry of the selected drive, in the WD1793 and in the tables, is left as it was. -/
structure MicrodiscSameGeometry (md md' : Microdisc) : Prop where
  drive : md'.drive = md.drive
  fdcTracks : md'.fdc.tracks = md.fdc.tracks
  fdcSectors : md'.fdc.sectorsPerTrack = md.fdc.sectorsPerTrack
  tracks : md'.diskTracks md.drive = md.diskTracks md.drive
  sectors : md'.diskSectors md.drive = md.diskSectors md.drive

theorem MicrodiscCalled.sameGeometry {md md' : Microdisc} (h : MicrodiscCalled md md') :
    MicrodiscSameGeometry md md' := by
  have hm := h.media
  simp only [Fdc.media, FdcMedia.mk.injEq] at hm
  exact ⟨h.drive, hm.2.2.1, hm.2.2.2.1, by rw [h.diskTracks], by rw [h.diskSectors]⟩

/-- The WD1793 has the selected drive's geometry. -/
def MicrodiscGeometry (md : Microdisc) : Prop :=
  md.fdc.tracks = md.diskTracks md.drive ∧ md.fdc.sectorsPerTrack = md.diskSectors md.drive

theorem MicrodiscSameGeometry.geometry {md md' : Microdisc} (h : MicrodiscSameGeometry md md')
    (hg : MicrodiscGeometry md) : MicrodiscGeometry md' := by
  refine ⟨?_, ?_⟩
  · rw [h.fdcTracks, h.drive, h.tracks, hg.1]
  · rw [h.fdcSectors, h.drive, h.sectors, hg.2]

/-- A step points the WD1793 at the selected drive, or leaves its geometry. -/
theorem microdiscStep_geometry {md : Microdisc} (h : MicrodiscInv md) (op : MicrodiscOp)
    (hok : ¬MicrodiscBlindReset md op) :
    (MicrodiscRepoints md op ∧ MicrodiscGeometry (microdiscStep md op)) ∨
      (¬MicrodiscRepoints md op ∧ MicrodiscSameGeometry md (microdiscStep md op)) := by
  cases op with
  | write addr value =>
    change (_ ∧ MicrodiscGeometry (microdiscWrite md addr value)) ∨
      (_ ∧ MicrodiscSameGeometry md (microdiscWrite md addr value))
    rcases microdiscWrite_cases h.fdc addr value with ⟨haddr, hcall⟩ | ⟨-, hsame, heq⟩ |
      ⟨haddr, hchange, heq⟩
    · exact .inr ⟨fun hr => haddr hr.1, hcall.sameGeometry⟩
    · obtain ⟨status, intena, romdis, diskrom, calls, side, heq'⟩ :=
        microdiscControl_frame md value
      rw [heq, heq']
      exact .inr ⟨fun hr => hr.2 hsame, rfl, rfl, rfl, rfl, rfl⟩
    · have hattached := (microdiscSelectDrive_attached (microdiscControl_inv h value)
        (microdiscDriveBits value)).2
      rw [heq]
      exact .inl ⟨⟨haddr, hchange⟩, hattached.tracks, hattached.sectorsPerTrack⟩
  | read addr => exact .inr ⟨id, (microdiscRead_called h.fdc addr).sameGeometry⟩
  | ticktock cycles => exact .inr ⟨id, (microdiscTick_called h.fdc cycles).sameGeometry⟩
  | setDisk drive data size tracks sectorsPerTrack =>
    change (microdiscDrive drive = some md.drive ∧
      MicrodiscGeometry (microdiscSetDisk _ _ _ _ _ _)) ∨
      (¬microdiscDrive drive = some md.drive ∧
        MicrodiscSameGeometry md (microdiscSetDisk _ _ _ _ _ _))
    unfold microdiscSetDisk
    cases microdiscDrive drive with
    | none => exact .inr ⟨nofun, rfl, rfl, rfl, rfl, rfl⟩
    | some d =>
      dsimp only
      by_cases hd : d = md.drive
      · rw [if_pos hd]
        exact .inl ⟨by rw [hd], by simp [MicrodiscGeometry, fdcSetBadMap, hd]⟩
      · rw [if_neg hd]
        have hne : md.drive ≠ d := fun heq => hd heq.symm
        exact .inr ⟨by simpa using hd, rfl, rfl, rfl, by simp [hne], by simp [hne]⟩
  | setWriteProtect drive on =>
    refine .inr ⟨id, ?_⟩
    change MicrodiscSameGeometry md (microdiscSetWriteProtect md drive on)
    unfold microdiscSetWriteProtect
    split
    · exact ⟨rfl, rfl, rfl, rfl, rfl⟩
    · dsimp only
      split_ifs <;> exact ⟨rfl, rfl, rfl, rfl, rfl⟩
  | addBadSector drive side track sector =>
    refine .inr ⟨id, ?_⟩
    change MicrodiscSameGeometry md (microdiscAddBadSector md drive side track sector).2
    unfold microdiscAddBadSector microdiscSyncBadMap
    split
    · exact ⟨rfl, rfl, rfl, rfl, rfl⟩
    · split
      · exact ⟨rfl, rfl, rfl, rfl, rfl⟩
      · dsimp only
        split_ifs <;> exact ⟨rfl, rfl, rfl, rfl, rfl⟩
  | reset =>
    simp only [MicrodiscBlindReset, not_or, not_not] at hok
    exact .inr ⟨id, hok.1.symm, rfl, rfl, rfl, rfl⟩

/-! ## Runs -/

theorem microdiscInit_inv (heap : Heap Ptr Byte) (cpuWired : Bool) :
    MicrodiscInv (microdiscInit heap cpuWired) :=
  ⟨fdcInit_inv ⟨heap, .real, rfl⟩, rfl, rfl, rfl, rfl, rfl⟩

/-- A run whose resets are all made with drive 0 and side 0 selected. -/
abbrev MicrodiscSighted : List MicrodiscOp → Microdisc → Prop :=
  Machine.Throughout microdiscStep fun md op => ¬MicrodiscBlindReset md op

theorem microdiscRun_inv {md : Microdisc} (h : MicrodiscInv md) {ops : List MicrodiscOp}
    (hok : MicrodiscSighted ops md) : MicrodiscInv (microdiscRun md ops) := by
  have hstep : ∀ md op, MicrodiscInv md → ¬MicrodiscBlindReset md op →
      MicrodiscInv (microdiscStep md op) := fun _ op h hop => microdiscStep_inv h op hop
  exact Machine.Throughout.invariant hstep ops h hok

/-- The state before the WD1793 is first pointed at a drive. -/
structure MicrodiscFresh (md : Microdisc) : Prop extends MicrodiscInv md where
  drive : md.drive = 0
  fdcTracks : md.fdc.tracks = 80#8
  tracks : md.diskTracks 0 = 0#8

theorem microdiscInit_fresh (heap : Heap Ptr Byte) (cpuWired : Bool) :
    MicrodiscFresh (microdiscInit heap cpuWired) :=
  ⟨microdiscInit_inv heap cpuWired, rfl, rfl, rfl⟩

theorem microdiscStep_fresh {md : Microdisc} (h : MicrodiscFresh md) (op : MicrodiscOp)
    (hok : ¬MicrodiscBlindReset md op) (hno : ¬MicrodiscRepoints md op) :
    MicrodiscFresh (microdiscStep md op) := by
  rcases microdiscStep_geometry h.toMicrodiscInv op hok with ⟨hr, -⟩ | ⟨-, hsame⟩
  · exact absurd hr hno
  · refine ⟨microdiscStep_inv h.toMicrodiscInv op hok, hsame.drive.trans h.drive,
      hsame.fdcTracks.trans h.fdcTracks, ?_⟩
    have htracks := hsame.tracks
    rw [h.drive] at htracks
    exact htracks.trans h.tracks

theorem microdisc_attached_iff (heap : Heap Ptr Byte) (cpuWired : Bool) (ops : List MicrodiscOp)
    (hok : MicrodiscSighted ops (microdiscInit heap cpuWired)) :
    MicrodiscLinked (microdiscRun (microdiscInit heap cpuWired) ops) ∧
      (MicrodiscAttached (microdiscRun (microdiscInit heap cpuWired) ops) ↔
        Machine.Sometime microdiscStep MicrodiscRepoints ops (microdiscInit heap cpuWired)) := by
  have hinit := microdiscInit_inv heap cpuWired
  have hlinked := (microdiscRun_inv hinit hok).linked
  refine ⟨hlinked, fun hattached => ?_, fun hsome => ?_⟩
  · by_contra hno
    have hstep : ∀ md op, MicrodiscFresh md → ¬MicrodiscBlindReset md op →
        ¬MicrodiscRepoints md op → MicrodiscFresh (microdiscStep md op) :=
      fun _ op h => microdiscStep_fresh h op
    have hfresh : MicrodiscFresh (microdiscRun (microdiscInit heap cpuWired) ops) :=
      Machine.Sometime.never hstep ops (microdiscInit_fresh heap cpuWired) hok hno
    have htracks := hattached.tracks
    rw [hfresh.drive, hfresh.fdcTracks, hfresh.tracks] at htracks
    exact absurd htracks (by decide)
  · have hstep : ∀ md op, MicrodiscInv md → ¬MicrodiscBlindReset md op →
        MicrodiscInv (microdiscStep md op) := fun _ op h hop => microdiscStep_inv h op hop
    have hest : ∀ md op, MicrodiscInv md → ¬MicrodiscBlindReset md op →
        MicrodiscRepoints md op → MicrodiscGeometry (microdiscStep md op) := by
      intro md op h hop hr
      rcases microdiscStep_geometry h op hop with ⟨-, hg⟩ | ⟨hno, -⟩
      · exact hg
      · exact absurd hr hno
    have hkeep : ∀ md op, MicrodiscInv md → ¬MicrodiscBlindReset md op →
        MicrodiscGeometry md → MicrodiscGeometry (microdiscStep md op) := by
      intro md op h hop hg
      rcases microdiscStep_geometry h op hop with ⟨-, hg'⟩ | ⟨-, hsame⟩
      · exact hg'
      · exact hsame.geometry hg
    have hgeometry : MicrodiscGeometry (microdiscRun (microdiscInit heap cpuWired) ops) :=
      Machine.Sometime.established hstep hest hkeep ops hinit hok hsome
    exact { hlinked with tracks := hgeometry.1, sectorsPerTrack := hgeometry.2 }

/-- Two media, and the second drive on side 1. -/
def microdiscSampleOps : List MicrodiscOp :=
  [.setDisk 0 (some 0) 348160 80 17, .setDisk 1 (some 1) 696320 80 17, .write 0x0314 0x30]

theorem microdisc_attached_iff_secondDrive :
    MicrodiscLinked (microdiscRun (microdiscInit ⟨fun _ => 0, []⟩ true) microdiscSampleOps) ∧
      (MicrodiscAttached (microdiscRun (microdiscInit ⟨fun _ => 0, []⟩ true) microdiscSampleOps) ↔
        Machine.Sometime microdiscStep MicrodiscRepoints microdiscSampleOps
          (microdiscInit ⟨fun _ => 0, []⟩ true)) :=
  microdisc_attached_iff _ _ _ ⟨id, id, id, trivial⟩

/-- A reset with the second drive on side 1 selected leaves the WD1793 there. -/
theorem microdiscReset_detaches :
    ¬∀ (heap : Heap Ptr Byte) (cpuWired : Bool) (ops : List MicrodiscOp),
      MicrodiscAttached (microdiscRun (microdiscInit heap cpuWired) ops) := by
  intro hall
  have hdata := (hall ⟨fun _ => 0, []⟩ true (microdiscSampleOps ++ [.reset])).diskData
  exact absurd hdata (by decide)

end Phosphoric
