import Phosphoric.Fdc.Past

/-!
# Events outstanding when a command is written

The delayed DRQ and the delayed INTRQ are two counts that every command shares (`fdc_ticktock`).

**Theorem (`fdcCommand_own`).** A command written while events of the one before are outstanding
behaves, in every later run, as if they had been cancelled, exactly if it overwrites or cancels
both of them that are: Force Interrupt and an accepted Write Track do; a seek leaves the DRQ, a
sector command the INTRQ, and a command refused both.

Cancelling takes the status the INTRQ was to bring along with it. Where a command only stops the
count, that status stays behind, which makes no difference (`fdcRun_past`).
-/

namespace Phosphoric

/-! ## What a command does to the counts -/

/-- The command schedules or cancels the delayed DRQ. -/
def fdcSetsDrq (fdc : Fdc) (value : Byte) : Bool :=
  match fdcCommand value with
  | .restoreSeek | .step | .stepIn | .stepOut => false
  | .readSector => (fdcFindSector fdc fdc.sector).isSome
  | .writeSector => !fdc.writeProtected && (fdcFindSector fdc fdc.sector).isSome
  | .readAddress => fdc.timingMode == .real && (fdcFindSector fdc 1#8).isSome
  | .forceInterrupt => true
  | .readTrack => fdc.diskData.isSome
  | .writeTrack => fdc.diskData.isSome && !fdc.writeProtected

/-- The command schedules or cancels the delayed INTRQ. -/
def fdcSetsInt (fdc : Fdc) (value : Byte) : Bool :=
  match fdcCommand value with
  | .restoreSeek | .step | .stepIn => fdc.diskData.isSome
  | .stepOut => fdc.diskData.isSome && decide (fdc.cTrack > 0#8)
  | .readSector =>
    fdc.diskData.isSome && fdc.timingMode == .real && (fdcFindSector fdc fdc.sector).isNone
  | .writeSector =>
    fdc.diskData.isSome && !fdc.writeProtected && fdc.timingMode == .real &&
      (fdcFindSector fdc fdc.sector).isNone
  | .readAddress => fdc.diskData.isSome && fdc.timingMode == .real && (fdcFindSector fdc 1#8).isNone
  | .forceInterrupt => true
  | .readTrack => false
  | .writeTrack => fdc.diskData.isSome && !fdc.writeProtected

/-- Only a positive count runs. -/
def Fdc.withoutDrq (fdc : Fdc) : Fdc := { fdc with delayedDrq := min fdc.delayedDrq 0 }

def Fdc.withoutInt (fdc : Fdc) : Fdc :=
  { fdc with delayedInt := min fdc.delayedInt 0, diStatus := none }

/-- The controller with nothing outstanding, and no status to be brought. -/
def Fdc.cancelled (fdc : Fdc) : Fdc :=
  { fdc with
    delayedDrq := min fdc.delayedDrq 0, ddStatus := none
    delayedInt := min fdc.delayedInt 0, diStatus := none }

variable {fdc : Fdc}

theorem fdcNotReady_ready {buf : Nat} (h : fdc.diskData = some buf) (command : Fdc → Fdc) :
    fdcNotReady fdc command = command fdc := by
  unfold fdcNotReady
  rw [h]

theorem fdcNotReady_none (h : fdc.diskData = none) (command : Fdc → Fdc) :
    fdcNotReady fdc command = fdcRefuse fdc fdcStNotReady := by
  unfold fdcNotReady
  rw [h]

theorem fdcWriteProtected_open (h : fdc.writeProtected = false) (command : Fdc → Fdc) :
    fdcWriteProtected fdc command = command fdc := by
  unfold fdcWriteProtected
  rw [if_neg (by rw [h]; decide)]

theorem fdcWriteProtected_tab (h : fdc.writeProtected = true) (command : Fdc → Fdc) :
    fdcWriteProtected fdc command = fdcRefuse fdc fdcStWriteProt := by
  unfold fdcWriteProtected
  rw [if_pos h]

theorem fdcFindSector_ready {secId : Byte} (h : (fdcFindSector fdc secId).isSome) :
    ∃ buf, fdc.diskData = some buf := by
  cases hdisk : fdc.diskData with
  | none =>
    rw [fdcFindSector, hdisk] at h
    cases h
  | some buf => exact ⟨buf, rfl⟩

theorem fdcSectorCommand_none (h : fdcFindSector fdc fdc.sector = none) (value : Byte) (delay : Int)
    (single multiple : FdcOp) :
    fdcSectorCommand value delay single multiple fdc =
      fdcRecordNotFound { fdc with
        curOffset := 0, curSectorData := none, curSectorId := fdc.sector } := by
  have h' : fdcFindSector { fdc with curOffset := 0 } fdc.sector = none := h
  unfold fdcSectorCommand
  dsimp only [Fdc.lookup]
  rw [h']

/-- The delayed DRQ is the only count an accepted sector command sets. -/
theorem fdcSectorCommand_found {p : Ptr} (h : fdcFindSector fdc fdc.sector = some p)
    (value : Byte) (delay : Int) (single multiple : FdcOp) :
    fdcSectorCommand value delay single multiple fdc = { fdc with
      curOffset := 0, curSectorData := some p, curSectorId := fdc.sector, curSectorLen := 256
      status := fdcStBusy ||| fdcStNotReady
      delayedDrq := match fdc.timingMode with
        | .real => fdcRotWait fdc fdc.sector +
            (if value &&& 0x04#8 != 0#8 then fdcSettleCycles else 0)
        | .fast => delay
      currentop := if value &&& 0x10#8 != 0#8 then multiple else single } := by
  have h' : fdcFindSector { fdc with curOffset := 0 } fdc.sector = some p := h
  unfold fdcSectorCommand
  dsimp only [Fdc.lookup]
  rw [h']
  rfl

theorem fdcAddressFound_none (h : fdc.curSectorData = none) :
    fdcAddressFound fdc = fdcRecordNotFound fdc := by
  unfold fdcAddressFound
  rw [h]

theorem fdcAddressFound_found {p : Ptr} (h : fdc.curSectorData = some p) :
    fdcAddressFound fdc = match fdc.timingMode with
      | .real =>
        { fdc with
          status := fdcStNotReady ||| fdcStBusy, delayedDrq := fdcRotWait fdc 1#8,
          currentop := .readAddress }
      | .fast =>
        { fdc with
          status := fdcStNotReady ||| fdcStBusy ||| fdcStDrq, currentop := .readAddress }.signal
          .setDrq := by
  unfold fdcAddressFound
  split
  · simp_all
  · rfl

theorem fdcReadSector_open {buf : Nat} (hdisk : fdc.diskData = some buf) (value : Byte) :
    fdcReadSector fdc value =
      fdcSectorCommand value 60 .readSector .readSectors { fdc with statusType1 := false } := by
  have hdisk' : { fdc with statusType1 := false }.diskData = some buf := hdisk
  exact fdcNotReady_ready hdisk' _

theorem fdcWriteSector_open {buf : Nat} (hdisk : fdc.diskData = some buf)
    (hwp : fdc.writeProtected = false) (value : Byte) :
    fdcWriteSector fdc value =
      fdcSectorCommand value 500 .writeSector .writeSectors { fdc with statusType1 := false } := by
  have hdisk' : { fdc with statusType1 := false }.diskData = some buf := hdisk
  have hwp' : { fdc with statusType1 := false }.writeProtected = false := hwp
  exact (fdcNotReady_ready hdisk' _).trans (fdcWriteProtected_open hwp' _)

theorem fdcReadAddress_open {buf : Nat} (hdisk : fdc.diskData = some buf) :
    fdcReadAddress fdc =
      fdcAddressFound ({ fdc with statusType1 := false, curOffset := 0 }.lookup 1#8) := by
  have hdisk' : { fdc with statusType1 := false }.diskData = some buf := hdisk
  exact fdcNotReady_ready hdisk' _

theorem fdcReadTrack_open {buf : Nat} (hdisk : fdc.diskData = some buf) :
    fdcReadTrack fdc = { fdc with
      statusType1 := false, status := fdcStBusy ||| fdcStNotReady, delayedDrq := 60
      currentop := .readTrack } := by
  have hdisk' : { fdc with statusType1 := false }.diskData = some buf := hdisk
  exact fdcNotReady_ready hdisk' _

theorem fdcWriteTrack_open {buf : Nat} (hdisk : fdc.diskData = some buf)
    (hwp : fdc.writeProtected = false) :
    fdcWriteTrack fdc = { (fdc.signal .clrDrq).signal .clrIntrq with
      statusType1 := false, status := fdcStNotReady ||| fdcStBusy
      delayedDrq := match fdc.timingMode with
        | .real => (fdcRevCycles - fdc.rotPos : Int)
        | .fast => 500
      delayedInt := 0, wtState := .scan, wtFieldIdx := 0, wtDataLen := 0, wtSectorsDone := 0,
      curSectorData := none, currentop := .writeTrack } := by
  have hdisk' : { fdc with statusType1 := false }.diskData = some buf := hdisk
  have hwp' : { fdc with statusType1 := false }.writeProtected = false := hwp
  unfold fdcWriteTrack
  rw [fdcNotReady_ready hdisk', fdcWriteProtected_open hwp']
  rfl

/-- A command starts by clearing INTRQ and stopping the stream. -/
theorem fdcBeginCommand_counts (fdc : Fdc) (value : Byte) :
    fdcBeginCommand fdc.withoutDrq value = (fdcBeginCommand fdc value).withoutDrq ∧
      fdcBeginCommand fdc.withoutInt value = (fdcBeginCommand fdc value).withoutInt ∧
      fdcSetsDrq (fdcBeginCommand fdc value) value = fdcSetsDrq fdc value ∧
      fdcSetsInt (fdcBeginCommand fdc value) value = fdcSetsInt fdc value ∧
      (fdcBeginCommand fdc value).delayedDrq = fdc.delayedDrq ∧
      (fdcBeginCommand fdc value).delayedInt = fdc.delayedInt := by
  unfold fdcBeginCommand
  dsimp only
  split_ifs <;> exact ⟨rfl, rfl, rfl, rfl, rfl, rfl⟩

/-! ## The delayed DRQ -/

theorem fdcSectorCommand_setsDrq (h : (fdcFindSector fdc fdc.sector).isSome) (value : Byte)
    (delay : Int) (single multiple : FdcOp) :
    fdcSectorCommand value delay single multiple fdc =
      fdcSectorCommand value delay single multiple fdc.withoutDrq := by
  obtain ⟨p, hp⟩ := Option.isSome_iff_exists.mp h
  have hp' : fdcFindSector fdc.withoutDrq fdc.withoutDrq.sector = some p := hp
  rw [fdcSectorCommand_found hp, fdcSectorCommand_found hp']
  rfl

/-- A command that sets the delayed DRQ does not look at it. -/
theorem fdcWriteCommand_setsDrq {value : Byte} (h : fdcSetsDrq fdc value = true) :
    fdcWriteCommand fdc value = fdcWriteCommand fdc.withoutDrq value := by
  obtain ⟨hbegin, -, hsets, -⟩ := fdcBeginCommand_counts fdc value
  rw [← hsets] at h
  unfold fdcWriteCommand
  rw [hbegin]
  generalize fdcBeginCommand fdc value = fdc at h
  unfold fdcSetsDrq at h
  cases hcommand : fdcCommand value with
  | restoreSeek => simp [hcommand] at h
  | step => simp [hcommand] at h
  | stepIn => simp [hcommand] at h
  | stepOut => simp [hcommand] at h
  | readSector =>
    simp only [hcommand] at h
    obtain ⟨buf, hdisk⟩ := fdcFindSector_ready h
    have hdisk' : fdc.withoutDrq.diskData = some buf := hdisk
    have hfound : (fdcFindSector { fdc with statusType1 := false } fdc.sector).isSome := h
    show fdcReadSector fdc value = fdcReadSector fdc.withoutDrq value
    rw [fdcReadSector_open hdisk, fdcReadSector_open hdisk', fdcSectorCommand_setsDrq hfound]
    rfl
  | writeSector =>
    simp only [hcommand, Bool.and_eq_true, Bool.not_eq_true'] at h
    obtain ⟨hwp, h⟩ := h
    obtain ⟨buf, hdisk⟩ := fdcFindSector_ready h
    have hdisk' : fdc.withoutDrq.diskData = some buf := hdisk
    have hwp' : fdc.withoutDrq.writeProtected = false := hwp
    have hfound : (fdcFindSector { fdc with statusType1 := false } fdc.sector).isSome := h
    show fdcWriteSector fdc value = fdcWriteSector fdc.withoutDrq value
    rw [fdcWriteSector_open hdisk hwp, fdcWriteSector_open hdisk' hwp',
      fdcSectorCommand_setsDrq hfound]
    rfl
  | readAddress =>
    simp only [hcommand, Bool.and_eq_true, beq_iff_eq] at h
    obtain ⟨hmode, h⟩ := h
    obtain ⟨buf, hdisk⟩ := fdcFindSector_ready h
    obtain ⟨p, hp⟩ := Option.isSome_iff_exists.mp h
    have hdisk' : fdc.withoutDrq.diskData = some buf := hdisk
    have hfound : ∀ fdc : Fdc, fdcFindSector fdc 1#8 = some p →
        ({ fdc with statusType1 := false, curOffset := 0 }.lookup 1#8).curSectorData = some p :=
      fun fdc hp => hp
    show fdcReadAddress fdc = fdcReadAddress fdc.withoutDrq
    rw [fdcReadAddress_open hdisk, fdcReadAddress_open hdisk',
      fdcAddressFound_found (hfound fdc hp), fdcAddressFound_found (hfound fdc.withoutDrq hp)]
    dsimp only [Fdc.lookup, Fdc.withoutDrq]
    rw [hmode]
    rfl
  | forceInterrupt =>
    show fdcForceInterrupt fdc value = fdcForceInterrupt fdc.withoutDrq value
    unfold fdcForceInterrupt
    rfl
  | readTrack =>
    simp only [hcommand] at h
    obtain ⟨buf, hdisk⟩ := Option.isSome_iff_exists.mp h
    have hdisk' : fdc.withoutDrq.diskData = some buf := hdisk
    exact (fdcReadTrack_open hdisk).trans (fdcReadTrack_open hdisk').symm
  | writeTrack =>
    simp only [hcommand, Bool.and_eq_true, Bool.not_eq_true'] at h
    obtain ⟨h, hwp⟩ := h
    obtain ⟨buf, hdisk⟩ := Option.isSome_iff_exists.mp h
    have hdisk' : fdc.withoutDrq.diskData = some buf := hdisk
    have hwp' : fdc.withoutDrq.writeProtected = false := hwp
    exact (fdcWriteTrack_open hdisk hwp).trans (fdcWriteTrack_open hdisk' hwp').symm

/-- No stream, and none to start. -/
def Fdc.unstreamed (fdc : Fdc) : Prop := fdc.stream = false ∧ fdcStreamed fdc = false

theorem Fdc.unstreamed_of_none {fdc : Fdc} (hstream : fdc.stream = false)
    (hop : fdc.currentop = .none) : fdc.unstreamed :=
  ⟨hstream, by simp [fdcStreamed, hop]⟩

/-- The delayed DRQ of `f` is left to `g`, which has no stream to start. -/
def FdcKeepsDrq (f g : Fdc) : Prop := g.delayedDrq = f.delayedDrq ∧ g.unstreamed

theorem fdcRecordNotFound_keepsDrq (h : fdc.stream = false) :
    FdcKeepsDrq fdc (fdcRecordNotFound fdc) := by
  unfold fdcRecordNotFound
  dsimp only
  split
  · exact ⟨rfl, Fdc.unstreamed_of_none h rfl⟩
  · exact ⟨rfl, Fdc.unstreamed_of_none h rfl⟩

theorem fdcNotReady_keepsDrq (h : fdc.stream = false) {command : Fdc → Fdc}
    (hc : fdc.diskData.isSome = true → FdcKeepsDrq fdc (command fdc)) :
    FdcKeepsDrq fdc (fdcNotReady fdc command) := by
  cases hdisk : fdc.diskData with
  | none =>
    rw [fdcNotReady_none hdisk]
    exact ⟨rfl, Fdc.unstreamed_of_none h rfl⟩
  | some buf =>
    rw [fdcNotReady_ready hdisk]
    exact hc (by rw [hdisk]; rfl)

theorem fdcWriteProtected_keepsDrq (h : fdc.stream = false) {command : Fdc → Fdc}
    (hc : fdc.writeProtected = false → FdcKeepsDrq fdc (command fdc)) :
    FdcKeepsDrq fdc (fdcWriteProtected fdc command) := by
  cases hwp : fdc.writeProtected with
  | false =>
    rw [fdcWriteProtected_open hwp]
    exact hc hwp
  | true =>
    rw [fdcWriteProtected_tab hwp]
    exact ⟨rfl, Fdc.unstreamed_of_none h rfl⟩

theorem fdcSectorCommand_keepsDrq (h : fdc.stream = false)
    (hnone : fdcFindSector fdc fdc.sector = none) (value : Byte) (delay : Int)
    (single multiple : FdcOp) :
    FdcKeepsDrq fdc (fdcSectorCommand value delay single multiple fdc) := by
  rw [fdcSectorCommand_none hnone]
  have hstopped : { fdc with
      curOffset := 0, curSectorData := none, curSectorId := fdc.sector }.stream = false := h
  exact fdcRecordNotFound_keepsDrq hstopped

theorem fdcSeekTrack_keepsDrq (h : fdc.stream = false) (target cmd : Byte) (update : Bool) :
    FdcKeepsDrq fdc { fdcSeekTrack fdc target cmd update with currentop := .none } := by
  unfold fdcSeekTrack
  split
  · exact ⟨rfl, Fdc.unstreamed_of_none h rfl⟩
  · exact ⟨rfl, Fdc.unstreamed_of_none h rfl⟩

theorem fdcStep_keepsDrq (h : fdc.stream = false) (value : Byte) :
    FdcKeepsDrq fdc (fdcStep fdc value) := by
  have hstopped : (fdcTypeI fdc value).stream = false := h
  unfold fdcStep
  dsimp only
  split
  · exact fdcSeekTrack_keepsDrq hstopped ..
  · exact fdcSeekTrack_keepsDrq hstopped ..

theorem fdcStepOut_keepsDrq (h : fdc.stream = false) (value : Byte) :
    FdcKeepsDrq fdc (fdcStepOut fdc value) := by
  have hstopped : { fdcTypeI fdc value with direction := 1 }.stream = false := h
  unfold fdcStepOut
  dsimp only
  split
  · exact fdcSeekTrack_keepsDrq hstopped ..
  · exact ⟨rfl, Fdc.unstreamed_of_none h rfl⟩

/-- A command that does not set the delayed DRQ leaves it running. -/
theorem fdcWriteCommand_keepsDrq {value : Byte} (h : fdcSetsDrq fdc value = false) :
    FdcKeepsDrq fdc (fdcWriteCommand fdc value) := by
  obtain ⟨-, -, hsets, -, hdrq, -⟩ := fdcBeginCommand_counts fdc value
  have hstop : fdcCommand value ≠ .forceInterrupt → (fdcBeginCommand fdc value).stream = false :=
    fdcBeginCommand_stream fdc
  rw [← hsets] at h
  unfold fdcWriteCommand
  generalize fdcBeginCommand fdc value = begun at h hdrq hstop
  suffices hkeeps : FdcKeepsDrq begun _ from ⟨hkeeps.1.trans hdrq, hkeeps.2⟩
  unfold fdcSetsDrq at h
  cases hcommand : fdcCommand value with
  | restoreSeek =>
    have hstream : (fdcTypeI begun value).stream = false := hstop (by rw [hcommand]; rintro ⟨⟩)
    exact fdcSeekTrack_keepsDrq hstream ..
  | step => exact fdcStep_keepsDrq (hstop (by rw [hcommand]; rintro ⟨⟩)) value
  | stepIn =>
    have hstream : { fdcTypeI begun value with direction := 0 }.stream = false :=
      hstop (by rw [hcommand]; rintro ⟨⟩)
    exact fdcSeekTrack_keepsDrq hstream ..
  | stepOut => exact fdcStepOut_keepsDrq (hstop (by rw [hcommand]; rintro ⟨⟩)) value
  | readSector =>
    have hstream : { begun with statusType1 := false }.stream = false :=
      hstop (by rw [hcommand]; rintro ⟨⟩)
    simp only [hcommand, Option.isSome_eq_false_iff, Option.isNone_iff_eq_none] at h
    exact fdcNotReady_keepsDrq hstream fun _ => fdcSectorCommand_keepsDrq hstream h ..
  | writeSector =>
    have hstream : { begun with statusType1 := false }.stream = false :=
      hstop (by rw [hcommand]; rintro ⟨⟩)
    refine fdcNotReady_keepsDrq hstream fun _ => fdcWriteProtected_keepsDrq hstream fun hwp => ?_
    have hnone : fdcFindSector begun begun.sector = none := by
      have hwp' : begun.writeProtected = false := hwp
      simpa [hcommand, hwp'] using h
    exact fdcSectorCommand_keepsDrq hstream hnone ..
  | readAddress =>
    have hstream : { begun with statusType1 := false }.stream = false :=
      hstop (by rw [hcommand]; rintro ⟨⟩)
    refine fdcNotReady_keepsDrq hstream fun _ => ?_
    show FdcKeepsDrq begun
      (fdcAddressFound ({ begun with statusType1 := false, curOffset := 0 }.lookup 1#8))
    cases hfind : fdcFindSector begun 1#8 with
    | none =>
      have hnone : ({ begun with statusType1 := false, curOffset := 0 }.lookup 1#8).curSectorData =
          none := hfind
      rw [fdcAddressFound_none hnone]
      exact fdcRecordNotFound_keepsDrq hstream
    | some p =>
      have hfound : ({ begun with statusType1 := false, curOffset := 0 }.lookup 1#8).curSectorData =
          some p := hfind
      have hfast : ({ begun with statusType1 := false, curOffset := 0 }.lookup 1#8).timingMode =
          .fast := by
        have hreal : begun.timingMode ≠ .real := by simpa [hcommand, hfind] using h
        show begun.timingMode = .fast
        cases hmode : begun.timingMode with
        | real => exact absurd hmode hreal
        | fast => rfl
      rw [fdcAddressFound_found hfound, hfast]
      refine ⟨rfl, hstream, ?_⟩
      have hmode : begun.timingMode = .fast := hfast
      simp [fdcStreamed, Fdc.signal, Fdc.lookup, hmode]
  | forceInterrupt => simp [hcommand] at h
  | readTrack =>
    have hstream : { begun with statusType1 := false }.stream = false :=
      hstop (by rw [hcommand]; rintro ⟨⟩)
    refine fdcNotReady_keepsDrq hstream fun hdisk => ?_
    have hdisk' : begun.diskData.isSome = true := hdisk
    simp [hcommand, hdisk'] at h
  | writeTrack =>
    have hstream : { begun with statusType1 := false }.stream = false :=
      hstop (by rw [hcommand]; rintro ⟨⟩)
    refine fdcNotReady_keepsDrq hstream fun hdisk =>
      fdcWriteProtected_keepsDrq hstream fun hwp => ?_
    have hdisk' : begun.diskData.isSome = true := hdisk
    have hwp' : begun.writeProtected = false := hwp
    simp [hcommand, hdisk', hwp'] at h

/-! ## The delayed INTRQ -/

theorem FdcPast.refl (a : Fdc) : FdcPast a a := ⟨a.diStatus, rfl, fun _ => rfl⟩

theorem fdcSeekTrack_setsInt (h : fdc.diskData.isSome = true) (target cmd : Byte) (update : Bool) :
    fdcSeekTrack fdc target cmd update = fdcSeekTrack fdc.withoutInt target cmd update := by
  obtain ⟨buf, hdisk⟩ := Option.isSome_iff_exists.mp h
  have hdisk' : fdc.withoutInt.diskData = some buf := hdisk
  unfold fdcSeekTrack
  rw [hdisk, hdisk']
  rfl

theorem fdcSeekTrack_keepsInt (h : fdc.diskData.isSome = false) (target cmd : Byte)
    (update : Bool) :
    { fdcSeekTrack fdc target cmd update with currentop := .none }.delayedInt =
      fdc.delayedInt := by
  unfold fdcSeekTrack
  split
  case h_1 hdisk => simp [hdisk] at h
  · rfl

theorem fdcRecordNotFound_setsInt (h : fdc.timingMode = .real) :
    fdcRecordNotFound fdc = fdcRecordNotFound fdc.withoutInt := by
  unfold fdcRecordNotFound
  dsimp only [Fdc.signal, Fdc.withoutInt]
  rw [h]

theorem fdcRecordNotFound_keepsInt (h : fdc.timingMode ≠ .real) :
    (fdcRecordNotFound fdc).delayedInt = fdc.delayedInt := by
  unfold fdcRecordNotFound
  dsimp only
  split
  case h_1 hmode => exact absurd hmode h
  · rfl

theorem fdcStep_setsInt (h : fdc.diskData.isSome = true) (value : Byte) :
    fdcStep fdc value = fdcStep fdc.withoutInt value := by
  have hdisk : (fdcTypeI fdc value).diskData.isSome = true := h
  unfold fdcStep fdcStepInward
  dsimp only
  rw [fdcSeekTrack_setsInt hdisk, fdcSeekTrack_setsInt hdisk]
  rfl

/-- A sector not found sets the delayed INTRQ in the REAL model. -/
theorem fdcSectorCommand_setsInt (hmode : fdc.timingMode = .real)
    (hnone : fdcFindSector fdc fdc.sector = none) (value : Byte) (delay : Int)
    (single multiple : FdcOp) :
    fdcSectorCommand value delay single multiple fdc =
      fdcSectorCommand value delay single multiple fdc.withoutInt := by
  have hnone' : fdcFindSector fdc.withoutInt fdc.withoutInt.sector = none := hnone
  have hmode' : { fdc with
      curOffset := 0, curSectorData := none, curSectorId := fdc.sector }.timingMode = .real :=
    hmode
  rw [fdcSectorCommand_none hnone, fdcSectorCommand_none hnone']
  exact fdcRecordNotFound_setsInt hmode'

/-- A command that sets the delayed INTRQ does not look at it; one that only stops it leaves its
status behind. -/
theorem fdcWriteCommand_setsInt {value : Byte} (h : fdcSetsInt fdc value = true) :
    FdcPast (fdcWriteCommand fdc value) (fdcWriteCommand fdc.withoutInt value) := by
  obtain ⟨-, hbegin, -, hsets, -⟩ := fdcBeginCommand_counts fdc value
  rw [← hsets] at h
  unfold fdcWriteCommand
  rw [hbegin]
  generalize fdcBeginCommand fdc value = fdc at h
  have heq : ∀ {f g : Fdc}, f = g → FdcPast f g := fun {f g} hfg => hfg ▸ FdcPast.refl f
  unfold fdcSetsInt at h
  cases hcommand : fdcCommand value with
  | restoreSeek =>
    simp only [hcommand] at h
    have hdisk : (fdcTypeI fdc value).diskData.isSome = true := h
    refine heq ?_
    show fdcRestoreSeek fdc value = fdcRestoreSeek fdc.withoutInt value
    unfold fdcRestoreSeek
    dsimp only
    rw [fdcSeekTrack_setsInt hdisk]
    rfl
  | step =>
    simp only [hcommand] at h
    exact heq (fdcStep_setsInt h value)
  | stepIn =>
    simp only [hcommand] at h
    have hdisk : { fdcTypeI fdc value with direction := 0 }.diskData.isSome = true := h
    refine heq ?_
    show fdcStepIn fdc value = fdcStepIn fdc.withoutInt value
    unfold fdcStepIn fdcStepInward
    rw [fdcSeekTrack_setsInt hdisk]
    rfl
  | stepOut =>
    simp only [hcommand, Bool.and_eq_true, decide_eq_true_eq] at h
    obtain ⟨h, htrack⟩ := h
    have hdisk : { fdcTypeI fdc value with direction := 1 }.diskData.isSome = true := h
    refine heq ?_
    show fdcStepOut fdc value = fdcStepOut fdc.withoutInt value
    unfold fdcStepOut
    dsimp only
    rw [fdcSeekTrack_setsInt hdisk]
    have hgo : ∀ fdc : Fdc, fdc.cTrack > 0#8 → (fdcTypeI fdc value).cTrack > 0#8 := fun _ h => h
    rw [if_pos (hgo fdc htrack), if_pos (hgo fdc.withoutInt htrack)]
    rfl
  | readSector =>
    simp only [hcommand, Bool.and_eq_true, beq_iff_eq, Option.isNone_iff_eq_none] at h
    obtain ⟨⟨h, hmode⟩, hnone⟩ := h
    obtain ⟨buf, hdisk⟩ := Option.isSome_iff_exists.mp h
    have hdisk' : fdc.withoutInt.diskData = some buf := hdisk
    refine heq ?_
    show fdcReadSector fdc value = fdcReadSector fdc.withoutInt value
    rw [fdcReadSector_open hdisk, fdcReadSector_open hdisk']
    have hmode' : { fdc with statusType1 := false }.timingMode = .real := hmode
    have hnone' : fdcFindSector { fdc with statusType1 := false } fdc.sector = none := hnone
    exact fdcSectorCommand_setsInt hmode' hnone' ..
  | writeSector =>
    simp only [hcommand, Bool.and_eq_true, beq_iff_eq, Option.isNone_iff_eq_none,
      Bool.not_eq_true'] at h
    obtain ⟨⟨⟨h, hwp⟩, hmode⟩, hnone⟩ := h
    obtain ⟨buf, hdisk⟩ := Option.isSome_iff_exists.mp h
    have hdisk' : fdc.withoutInt.diskData = some buf := hdisk
    have hwp' : fdc.withoutInt.writeProtected = false := hwp
    refine heq ?_
    show fdcWriteSector fdc value = fdcWriteSector fdc.withoutInt value
    rw [fdcWriteSector_open hdisk hwp, fdcWriteSector_open hdisk' hwp']
    have hmode' : { fdc with statusType1 := false }.timingMode = .real := hmode
    have hnone' : fdcFindSector { fdc with statusType1 := false } fdc.sector = none := hnone
    exact fdcSectorCommand_setsInt hmode' hnone' ..
  | readAddress =>
    simp only [hcommand, Bool.and_eq_true, beq_iff_eq, Option.isNone_iff_eq_none] at h
    obtain ⟨⟨h, hmode⟩, hnone⟩ := h
    obtain ⟨buf, hdisk⟩ := Option.isSome_iff_exists.mp h
    have hdisk' : fdc.withoutInt.diskData = some buf := hdisk
    have hmissing : ∀ fdc : Fdc, fdcFindSector fdc 1#8 = none →
        ({ fdc with statusType1 := false, curOffset := 0 }.lookup 1#8).curSectorData = none :=
      fun fdc hnone => hnone
    have hmode' : ({ fdc with statusType1 := false, curOffset := 0 }.lookup 1#8).timingMode =
        .real := hmode
    refine heq ?_
    show fdcReadAddress fdc = fdcReadAddress fdc.withoutInt
    rw [fdcReadAddress_open hdisk, fdcReadAddress_open hdisk',
      fdcAddressFound_none (hmissing fdc hnone),
      fdcAddressFound_none (hmissing fdc.withoutInt hnone)]
    exact fdcRecordNotFound_setsInt hmode'
  | forceInterrupt =>
    show FdcPast (fdcForceInterrupt fdc value) (fdcForceInterrupt fdc.withoutInt value)
    unfold fdcForceInterrupt
    dsimp only
    split
    · exact ⟨none, rfl, nofun⟩
    · exact ⟨none, rfl, nofun⟩
  | readTrack => simp [hcommand] at h
  | writeTrack =>
    simp only [hcommand, Bool.and_eq_true, Bool.not_eq_true'] at h
    obtain ⟨h, hwp⟩ := h
    obtain ⟨buf, hdisk⟩ := Option.isSome_iff_exists.mp h
    have hdisk' : fdc.withoutInt.diskData = some buf := hdisk
    have hwp' : fdc.withoutInt.writeProtected = false := hwp
    show FdcPast (fdcWriteTrack fdc) (fdcWriteTrack fdc.withoutInt)
    rw [fdcWriteTrack_open hdisk hwp, fdcWriteTrack_open hdisk' hwp']
    exact ⟨none, rfl, nofun⟩

theorem fdcNotReady_keepsInt {command : Fdc → Fdc}
    (hc : fdc.diskData.isSome = true → (command fdc).delayedInt = fdc.delayedInt) :
    (fdcNotReady fdc command).delayedInt = fdc.delayedInt := by
  cases hdisk : fdc.diskData with
  | none =>
    rw [fdcNotReady_none hdisk]
    rfl
  | some buf =>
    rw [fdcNotReady_ready hdisk]
    exact hc (by rw [hdisk]; rfl)

theorem fdcWriteProtected_keepsInt {command : Fdc → Fdc}
    (hc : fdc.writeProtected = false → (command fdc).delayedInt = fdc.delayedInt) :
    (fdcWriteProtected fdc command).delayedInt = fdc.delayedInt := by
  cases hwp : fdc.writeProtected with
  | false =>
    rw [fdcWriteProtected_open hwp]
    exact hc hwp
  | true =>
    rw [fdcWriteProtected_tab hwp]
    rfl

theorem fdcSectorCommand_keepsInt
    (h : fdc.timingMode = .real → (fdcFindSector fdc fdc.sector).isNone = false) (value : Byte)
    (delay : Int) (single multiple : FdcOp) :
    (fdcSectorCommand value delay single multiple fdc).delayedInt = fdc.delayedInt := by
  cases hfind : fdcFindSector fdc fdc.sector with
  | none =>
    rw [fdcSectorCommand_none hfind]
    exact fdcRecordNotFound_keepsInt fun hmode => by simp [hfind] at h; exact h hmode
  | some p =>
    rw [fdcSectorCommand_found hfind]

/-- A command that does not set the delayed INTRQ leaves it running. -/
theorem fdcWriteCommand_keepsInt {value : Byte} (h : fdcSetsInt fdc value = false) :
    (fdcWriteCommand fdc value).delayedInt = fdc.delayedInt := by
  obtain ⟨-, -, -, hsets, -, hint⟩ := fdcBeginCommand_counts fdc value
  rw [← hsets] at h
  unfold fdcWriteCommand
  rw [← hint]
  generalize fdcBeginCommand fdc value = fdc at h
  unfold fdcSetsInt at h
  cases hcommand : fdcCommand value with
  | restoreSeek =>
    simp only [hcommand] at h
    have hdisk : (fdcTypeI fdc value).diskData.isSome = false := h
    exact fdcSeekTrack_keepsInt hdisk ..
  | step =>
    simp only [hcommand] at h
    have hdisk : (fdcTypeI fdc value).diskData.isSome = false := h
    show (fdcStep fdc value).delayedInt = fdc.delayedInt
    unfold fdcStep
    dsimp only
    split
    · exact fdcSeekTrack_keepsInt hdisk ..
    · exact fdcSeekTrack_keepsInt hdisk ..
  | stepIn =>
    simp only [hcommand] at h
    have hdisk : { fdcTypeI fdc value with direction := 0 }.diskData.isSome = false := h
    exact fdcSeekTrack_keepsInt hdisk ..
  | stepOut =>
    simp only [hcommand] at h
    show (fdcStepOut fdc value).delayedInt = fdc.delayedInt
    unfold fdcStepOut
    dsimp only
    split
    case isTrue htrack =>
      have htrack' : fdc.cTrack > 0#8 := htrack
      have hnone : fdc.diskData.isSome = false := by simpa [htrack'] using h
      have hdisk : { fdcTypeI fdc value with direction := 1 }.diskData.isSome = false := hnone
      exact fdcSeekTrack_keepsInt hdisk ..
    · rfl
  | readSector =>
    simp only [hcommand] at h
    refine fdcNotReady_keepsInt fun hdisk => fdcSectorCommand_keepsInt (fun hmode => ?_) ..
    have hdisk' : fdc.diskData.isSome = true := hdisk
    have hmode' : fdc.timingMode = .real := hmode
    show (fdcFindSector fdc fdc.sector).isNone = false
    simpa [hdisk', hmode'] using h
  | writeSector =>
    simp only [hcommand] at h
    refine fdcNotReady_keepsInt fun hdisk => fdcWriteProtected_keepsInt fun hwp =>
      fdcSectorCommand_keepsInt (fun hmode => ?_) ..
    have hdisk' : fdc.diskData.isSome = true := hdisk
    have hwp' : fdc.writeProtected = false := hwp
    have hmode' : fdc.timingMode = .real := hmode
    show (fdcFindSector fdc fdc.sector).isNone = false
    simpa [hdisk', hwp', hmode'] using h
  | readAddress =>
    simp only [hcommand] at h
    refine fdcNotReady_keepsInt fun hdisk => ?_
    show (fdcAddressFound
      ({ fdc with statusType1 := false, curOffset := 0 }.lookup 1#8)).delayedInt = fdc.delayedInt
    have hdisk' : fdc.diskData.isSome = true := hdisk
    cases hfind : fdcFindSector fdc 1#8 with
    | none =>
      have hnone : ({ fdc with statusType1 := false, curOffset := 0 }.lookup 1#8).curSectorData =
          none := hfind
      have hreal : fdc.timingMode ≠ .real := by simpa [hdisk', hfind] using h
      rw [fdcAddressFound_none hnone]
      exact fdcRecordNotFound_keepsInt hreal
    | some p =>
      have hfound : ({ fdc with statusType1 := false, curOffset := 0 }.lookup 1#8).curSectorData =
          some p := hfind
      rw [fdcAddressFound_found hfound]
      split
      · rfl
      · rfl
  | forceInterrupt => simp [hcommand] at h
  | readTrack => exact fdcNotReady_keepsInt fun _ => rfl
  | writeTrack =>
    simp only [hcommand] at h
    refine fdcNotReady_keepsInt fun hdisk => fdcWriteProtected_keepsInt fun hwp => ?_
    have hdisk' : fdc.diskData.isSome = true := hdisk
    have hwp' : fdc.writeProtected = false := hwp
    simp [hdisk', hwp'] at h

/-! ## Signals -/

/-- As many cycles as the count, modulo the width of an `int`, bring it to 0. -/
theorem cInt_elapsed (count : Int) : cInt (count - (BitVec.ofInt 32 count).toNat) = 0 := by
  unfold cInt
  rw [BitVec.toNat_ofInt]
  have hmod : ((count % ((2 ^ 32 : Nat) : Int)).toNat : Int) = count % 2 ^ 32 :=
    Int.toNat_of_nonneg (Int.emod_nonneg _ (by decide))
  rw [hmod]
  have hdvd : (2 ^ 32 : Int) ∣ count - count % 2 ^ 32 := Int.dvd_self_sub_emod
  exact Int.bmod_eq_zero_of_dvd hdvd

theorem fdcTickInt_signals (fdc : Fdc) (cycles : BitVec 32) :
    (fdcTickInt fdc cycles).signals =
      if 0 < fdc.delayedInt ∧ cInt (fdc.delayedInt - cycles.toNat) ≤ 0 then
        .setIntrq :: fdc.signals
      else fdc.signals := by
  unfold fdcTickInt
  dsimp only
  by_cases hint : fdc.delayedInt > 0
  · by_cases hleft : cInt (fdc.delayedInt - cycles.toNat) ≤ 0
    · rw [if_pos hint, if_pos hleft, if_pos ⟨hint, hleft⟩]
      rfl
    · rw [if_pos hint, if_neg hleft, if_neg fun h => hleft h.2]
  · rw [if_neg hint, if_neg fun h => hint h.1]

theorem fdcTickLost_signals (fdc : Fdc) (cycles : BitVec 32) :
    (fdcTickLost fdc cycles).signals = fdc.signals := by
  unfold fdcTickLost
  dsimp only
  split_ifs <;> rfl

/-- The callbacks other than INTRQ's. -/
def FdcSameInt (f g : Fdc) : Prop :=
  g.signals.count FdcSignal.setIntrq = f.signals.count FdcSignal.setIntrq

theorem fdcStreamSectorDone_sameInt (fdc : Fdc) : FdcSameInt fdc (fdcStreamSectorDone fdc) := by
  unfold fdcStreamSectorDone
  dsimp only
  split_ifs
  · split <;> exact List.count_cons_of_ne (by decide)
  · exact List.count_cons_of_ne (by decide)

theorem storeByte_signals (fdc : Fdc) (b : Byte) : (fdc.storeByte b).signals = fdc.signals := by
  unfold Fdc.storeByte
  split <;> rfl

theorem fdcStreamPut_signals (fdc : Fdc) : (fdcStreamPut fdc).signals = fdc.signals := by
  unfold fdcStreamPut
  dsimp only
  rw [storeByte_signals]
  split_ifs <;> rfl

theorem fdcStreamGet_signals (fdc : Fdc) : (fdcStreamGet fdc).signals = fdc.signals := by
  unfold fdcStreamGet
  dsimp only
  split_ifs <;> rfl

theorem fdcStreamStep_sameInt (fdc : Fdc) : FdcSameInt fdc (fdcStreamStep fdc) := by
  have hne : ∀ {signals : List FdcSignal} {s : FdcSignal}, s ≠ .setIntrq →
      (s :: signals).count FdcSignal.setIntrq = signals.count FdcSignal.setIntrq :=
    fun hs => List.count_cons_of_ne hs
  unfold fdcStreamStep
  split_ifs
  · exact fdcStreamSectorDone_sameInt (fdcStreamLost fdc)
  · exact fdcStreamSectorDone_sameInt fdc
  · unfold fdcStreamStepWrite
    dsimp only
    split
    · exact (fdcStreamSectorDone_sameInt _).trans (hne (by decide))
    · split
      · exact (hne (by decide)).trans (congrArg _ (fdcStreamPut_signals fdc))
      · exact (hne (by decide)).trans (congrArg _ (fdcStreamPut_signals fdc))
  · unfold fdcStreamStepRead
    dsimp only
    split
    · exact (hne (by decide)).trans (congrArg _ (fdcStreamGet_signals fdc))
    · rfl

theorem fdcStreamLoop_sameInt (fuel : Nat) (fdc : Fdc) :
    FdcSameInt fdc (fdcStreamLoop fuel fdc) := by
  induction fuel generalizing fdc with
  | zero => rfl
  | succ fuel ih =>
    unfold fdcStreamLoop
    split_ifs
    · exact (ih (fdcStreamStep fdc)).trans (fdcStreamStep_sameInt fdc)
    · rfl

theorem fdcTickStream_sameInt (fdc : Fdc) (cycles : BitVec 32) :
    FdcSameInt fdc (fdcTickStream fdc cycles) := by
  unfold fdcTickStream
  split_ifs
  · exact fdcStreamLoop_sameInt _ _
  · exact congrArg _ (fdcTickLost_signals _ cycles)
  · exact congrArg _ (fdcTickLost_signals _ cycles)

theorem fdcTickDrq_sameInt (fdc : Fdc) (cycles : BitVec 32) :
    FdcSameInt fdc (fdcTickDrq fdc cycles) := by
  have hstart : ∀ fdc : Fdc, FdcSameInt fdc (fdcStreamStart fdc) := by
    intro fdc
    unfold fdcStreamStart
    dsimp only
    split_ifs <;> exact List.count_cons_of_ne (by decide)
  unfold fdcTickDrq
  dsimp only
  split
  · split
    · split
      · exact hstart _
      · exact List.count_cons_of_ne (by decide)
    · rfl
  · rfl

/-- A tick delivers INTRQ when the count ends. -/
theorem fdcTicktock_intrq (fdc : Fdc) (cycles : BitVec 32) :
    (fdcTicktock fdc cycles).signals.count FdcSignal.setIntrq =
      fdc.signals.count FdcSignal.setIntrq +
        if 0 < fdc.delayedInt ∧ cInt (fdc.delayedInt - cycles.toNat) ≤ 0 then 1 else 0 := by
  unfold fdcTicktock
  dsimp only
  rw [fdcTickStream_sameInt, fdcTickDrq_sameInt, fdcTickInt_signals]
  dsimp only
  split
  · rw [List.count_cons_self]
  · rfl

/-- Without a stream a tick delivers DRQ when the count ends, and not otherwise. -/
theorem fdcTicktock_drq (h : fdc.unstreamed) (cycles : BitVec 32) :
    (fdcTicktock fdc cycles).signals.count FdcSignal.setDrq =
      fdc.signals.count FdcSignal.setDrq +
        if 0 < fdc.delayedDrq ∧ cInt (fdc.delayedDrq - cycles.toNat) ≤ 0 then 1 else 0 := by
  unfold fdcTicktock
  dsimp only
  generalize hturned : { fdc with
    rotPos := (fdc.rotPos + cycles.toNat) % 2 ^ 32 % fdcRevCycles } = turned
  have hsame : turned.signals = fdc.signals ∧ turned.delayedDrq = fdc.delayedDrq ∧
      turned.unstreamed := by
    rw [← hturned]
    exact ⟨rfl, rfl, h⟩
  rw [← hsame.1, ← hsame.2.1]
  generalize hticked : fdcTickInt turned cycles = ticked
  have hticked' : ticked.signals.count FdcSignal.setDrq =
        turned.signals.count FdcSignal.setDrq ∧
      ticked.delayedDrq = turned.delayedDrq ∧ ticked.unstreamed := by
    rw [← hticked, fdcTickInt_signals]
    refine ⟨?_, ?_, ?_⟩
    · split
      · exact List.count_cons_of_ne (by decide)
      · rfl
    · unfold fdcTickInt
      dsimp only
      split_ifs <;> rfl
    · unfold fdcTickInt
      dsimp only
      split_ifs <;> exact hsame.2.2
  rw [← hticked'.1, ← hticked'.2.1]
  have hquiet : ∀ fdc : Fdc, fdc.stream = false →
      (fdcTickStream fdc cycles).signals = fdc.signals := by
    intro fdc hstream
    unfold fdcTickStream
    rw [if_neg (by rw [hstream]; decide)]
    exact fdcTickLost_signals fdc cycles
  obtain ⟨hstream, hstreamed⟩ := hticked'.2.2
  have hdue : fdcStreamed { ticked with
      delayedDrq := 0, status := ticked.ddStatus.getD ticked.status, ddStatus := none } =
        false := hstreamed
  unfold fdcTickDrq
  dsimp only
  rw [hdue]
  by_cases hdrq : ticked.delayedDrq > 0
  · by_cases hleft : cInt (ticked.delayedDrq - cycles.toNat) ≤ 0
    · simp only [if_pos hdrq, if_pos hleft, if_pos (And.intro hdrq hleft), Bool.false_and,
        Bool.false_eq_true, if_false]
      have hdelivered := hquiet (fdcStreamDrq { ticked with
        delayedDrq := 0, status := ticked.ddStatus.getD ticked.status, ddStatus := none }) hstream
      rw [hdelivered]
      exact List.count_cons_self
    · rw [if_pos hdrq, if_neg hleft, if_neg fun h => hleft h.2]
      exact congrArg _ (hquiet _ hstream)
  · rw [if_neg hdrq, if_neg fun h => hdrq h.1]
    exact congrArg _ (hquiet _ hstream)

/-! ## The second command -/

/-- From the command `value` on, everything goes as if nothing had been outstanding: the same
callbacks and the same status. -/
def FdcOwn (fdc : Fdc) (value : Byte) : Prop :=
  ∀ inputs : List FdcInput,
    (inputs.foldl fdcInput (fdcWrite fdc 0#8 value)).signals =
        (inputs.foldl fdcInput (fdcWrite fdc.cancelled 0#8 value)).signals ∧
      (inputs.foldl fdcInput (fdcWrite fdc 0#8 value)).status =
        (inputs.foldl fdcInput (fdcWrite fdc.cancelled 0#8 value)).status

/-- The command leaves nothing of the one before on its way. -/
def FdcSettles (fdc : Fdc) (value : Byte) : Prop :=
  (0 < fdc.delayedDrq → fdcSetsDrq fdc value = true) ∧
    (0 < fdc.delayedInt → fdcSetsInt fdc value = true)

theorem fdcWriteCommand_settled {value : Byte} (hdd : fdc.ddStatus = none)
    (h : FdcSettles fdc value) :
    FdcPast (fdcWriteCommand fdc value) (fdcWriteCommand fdc.cancelled value) := by
  have hcancelled : fdc.cancelled = fdc.withoutDrq.withoutInt := by
    unfold Fdc.cancelled Fdc.withoutInt Fdc.withoutDrq
    rw [← hdd]
  have hdrq : fdcWriteCommand fdc value = fdcWriteCommand fdc.withoutDrq value := by
    by_cases hpos : 0 < fdc.delayedDrq
    · exact fdcWriteCommand_setsDrq (h.1 hpos)
    · have hsame : fdc.withoutDrq = fdc := by
        unfold Fdc.withoutDrq
        rw [min_eq_left (by omega)]
      rw [hsame]
  rw [hcancelled, hdrq]
  by_cases hpos : 0 < fdc.delayedInt
  · exact fdcWriteCommand_setsInt (h.2 hpos)
  · have hnone : ¬0 < fdc.withoutDrq.delayedInt := hpos
    refine fdcWriteCommand_past ⟨none, ?_, fun hint => absurd hint hnone⟩ value
    have hzero : min fdc.withoutDrq.delayedInt 0 = fdc.withoutDrq.delayedInt :=
      min_eq_left (Int.not_lt.mp hpos)
    unfold Fdc.withoutInt
    rw [hzero]

/-- A DRQ left running is delivered. -/
theorem FdcOwn.setsDrq {value : Byte} (h : FdcOwn fdc value) (hpos : 0 < fdc.delayedDrq) :
    fdcSetsDrq fdc value = true := by
  by_contra hsets
  have hsets : fdcSetsDrq fdc value = false := by simpa using hsets
  have hkept := fdcWriteCommand_keepsDrq hsets
  have hkept' : FdcKeepsDrq fdc.cancelled (fdcWriteCommand fdc.cancelled value) :=
    fdcWriteCommand_keepsDrq hsets
  have hnow : (fdcWriteCommand fdc value).signals = (fdcWriteCommand fdc.cancelled value).signals :=
    (h []).1
  have hdue : (fdcTicktock (fdcWriteCommand fdc value) (BitVec.ofInt 32 fdc.delayedDrq)).signals =
      (fdcTicktock (fdcWriteCommand fdc.cancelled value)
        (BitVec.ofInt 32 fdc.delayedDrq)).signals :=
    (h [.access (.ticktock (BitVec.ofInt 32 fdc.delayedDrq))]).1
  have hcount := congrArg (List.count FdcSignal.setDrq) hdue
  have hnone : ¬0 < fdc.cancelled.delayedDrq := Int.not_lt.mpr (min_le_right _ _)
  rw [fdcTicktock_drq hkept.2, fdcTicktock_drq hkept'.2, hkept.1, hkept'.1, hnow, cInt_elapsed,
    if_pos ⟨hpos, le_refl _⟩, if_neg fun h => hnone h.1] at hcount
  omega

/-- An INTRQ left running is delivered. -/
theorem FdcOwn.setsInt {value : Byte} (h : FdcOwn fdc value) (hpos : 0 < fdc.delayedInt) :
    fdcSetsInt fdc value = true := by
  by_contra hsets
  have hsets : fdcSetsInt fdc value = false := by simpa using hsets
  have hkept := fdcWriteCommand_keepsInt hsets
  have hkept' : (fdcWriteCommand fdc.cancelled value).delayedInt = fdc.cancelled.delayedInt :=
    fdcWriteCommand_keepsInt hsets
  have hnow : (fdcWriteCommand fdc value).signals = (fdcWriteCommand fdc.cancelled value).signals :=
    (h []).1
  have hdue : (fdcTicktock (fdcWriteCommand fdc value) (BitVec.ofInt 32 fdc.delayedInt)).signals =
      (fdcTicktock (fdcWriteCommand fdc.cancelled value)
        (BitVec.ofInt 32 fdc.delayedInt)).signals :=
    (h [.access (.ticktock (BitVec.ofInt 32 fdc.delayedInt))]).1
  have hcount := congrArg (List.count FdcSignal.setIntrq) hdue
  have hnone : ¬0 < fdc.cancelled.delayedInt := Int.not_lt.mpr (min_le_right _ _)
  rw [fdcTicktock_intrq, fdcTicktock_intrq, hkept, hkept', hnow, cInt_elapsed,
    if_pos ⟨hpos, le_refl _⟩, if_neg fun h => hnone h.1] at hcount
  omega

theorem fdcCommand_own {start : Fdc} (h : FdcStart start) (before : List FdcInput) (value : Byte) :
    let fdc := before.foldl fdcInput start
    FdcOwn fdc value ↔ FdcSettles fdc value := by
  intro fdc
  have hinv : FdcInv False fdc := List.foldlRecOn before fdcInput (fdcInit_inv h)
    fun _ hinv op _ => fdcInput_inv hinv op nofun
  refine ⟨fun hown => ⟨hown.setsDrq, hown.setsInt⟩, fun hsettles inputs => ?_⟩
  obtain ⟨di, hlater, -⟩ := fdcRun_past inputs (fdcWriteCommand_settled hinv.ddStatus hsettles)
  exact ⟨(congrArg Fdc.signals hlater).symm, (congrArg Fdc.status hlater).symm⟩

/-- A Seek just written, on a disk of 80 tracks. -/
def fdcSeeking : List FdcInput :=
  [.setDisk (some 0) 348160 80 17, .access (.write 2 1), .access (.write 0 0x10)]

/-- A Force Interrupt during the seek ends it. -/
theorem fdcCommand_own_forceInterrupt :
    FdcStart (fdcInit ⟨fun _ => 0, []⟩) ∧
      0 < (fdcSeeking.foldl fdcInput (fdcInit ⟨fun _ => 0, []⟩)).delayedInt ∧
      FdcOwn (fdcSeeking.foldl fdcInput (fdcInit ⟨fun _ => 0, []⟩)) 0xD0#8 := by
  have hstart : FdcStart (fdcInit ⟨fun _ => 0, []⟩) := ⟨_, .fast, rfl⟩
  refine ⟨hstart, by decide, (fdcCommand_own hstart fdcSeeking 0xD0#8).mpr ⟨?_, ?_⟩⟩
  · decide
  · decide

/-- A Read Sector during the seek is accepted, and the seek's INTRQ and status end it. -/
theorem fdcCommand_seekThenRead :
    let fdc := fdcWrite (fdcSeeking.foldl fdcInput (fdcInit ⟨fun _ => 0, []⟩)) 0#8 0x80#8
    fdc.currentop = .readSector ∧ fdc.signals.head? = some .clrIntrq ∧
      (fdcTicktock fdc 20).signals.head? = some .setIntrq ∧
      (fdcTicktock fdc 20).status = (fdcStiHeadl ||| fdcStiPulse ||| fdcStiTrk0) ∧
      ¬FdcOwn (fdcSeeking.foldl fdcInput (fdcInit ⟨fun _ => 0, []⟩)) 0x80#8 := by
  refine ⟨by decide, by decide, by decide, by decide, fun h => ?_⟩
  have hsets := h.setsInt (by decide)
  revert hsets
  decide

end Phosphoric
