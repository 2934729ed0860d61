import Phosphoric.Fdc.State

/-!
# The pointer in use is the one resuming finds

`FdcKept`: while a sector is in progress its pointer is the one `fdcStateResume` would look up, by
the sector register, by 1 in Read Address, by the ID field in a format; and the numbers fit their
encodings.

**Theorem (`fdcRun_resumable`).** `FdcKept` holds at the end of a run that, from a state without a
sector in progress on, neither gives the sector register another number during a sector transfer
nor changes the side, the medium or its damage while a sector is in progress.

A command finds its sector whatever was in progress, and starts from `FdcInts`; a data access and a
tick start from `FdcKept`.
-/

namespace Phosphoric

/-! ## The pointer is the one resuming finds -/

/-- A sector is in progress: the pointer to it may be used. -/
def Fdc.sectorLive (fdc : Fdc) : Bool :=
  fdc.currentop.isSector || fdc.currentop == .readAddress ||
    (fdc.currentop == .writeTrack && fdc.wtState == .dataField)

/-- What resuming a saved state relies on. `found` says that the run is one where the pointer has
to be the one resuming finds. -/
structure FdcKept (found : Prop) (fdc : Fdc) : Prop extends FdcInts fdc where
  sector : found → fdc.currentop.isSector = true →
    fdc.curSectorData = fdcFindSector fdc fdc.sector
  address : found → fdc.currentop = .readAddress → fdc.curSectorData = fdcFindSector fdc 1#8
  field : found → fdc.currentop = .writeTrack → fdc.wtState = .dataField →
    fdc.curSectorData = fdcFindSector fdc fdc.wtSector

variable {fdc f : Fdc} {found : Prop}

theorem FdcInts.kept_of_op (h : FdcInts fdc) (op : FdcOp) (hop : fdc.currentop = op)
    (hs : op.isSector = false) (ha : op ≠ .readAddress) (hw : op ≠ .writeTrack) :
    FdcKept found fdc := by
  subst hop
  exact { h with
    sector := by simp [hs]
    address := fun _ h => absurd h ha
    field := fun _ h => absurd h hw }

theorem FdcInts.kept_of_none (h : FdcInts fdc) (hop : fdc.currentop = .none) : FdcKept found fdc :=
  h.kept_of_op .none hop rfl nofun nofun

theorem FdcInts.kept_of_sector (h : FdcInts fdc) (hop : fdc.currentop.isSector = true)
    (hcur : fdc.curSectorData = fdcFindSector fdc fdc.sector) : FdcKept found fdc where
  toFdcInts := h
  sector := fun _ _ => hcur
  address := fun _ ha => absurd ha (FdcOp.ne_readAddress_of_isSector hop)
  field := fun _ hw => by rw [hw] at hop; cases hop

theorem isInt_zero : IsInt 0 := .of_bounds (by decide) (by decide)

theorem fdcRotWait_lt (fdc : Fdc) (secId : Byte) : fdcRotWait fdc secId < 200000 := by
  unfold fdcRotWait
  simp only [fdcRevCycles]
  split <;> omega

theorem fdcRotWait_isInt (fdc : Fdc) (secId : Byte) : IsInt (fdcRotWait fdc secId) := by
  have hpos := fdcRotWait_pos fdc secId
  have hlt := fdcRotWait_lt fdc secId
  exact .of_bounds (by omega) (by omega)

/-! ### Commands -/

theorem fdcSeekSteps_le (fdc : Fdc) (target : Byte) : fdcSeekSteps fdc target ≤ 255 := by
  unfold fdcSeekSteps
  dsimp only
  split_ifs <;> bv_omega

theorem fdcStepRateMs_le (r : Byte) : fdcStepRateMs r ≤ 30 := by
  unfold fdcStepRateMs
  split_ifs <;> decide

theorem fdcSeekCycles_isInt (fdc : Fdc) (target cmd : Byte) :
    IsInt (fdcSeekCycles fdc target cmd) := by
  have hpos := fdcSeekCycles_pos fdc target cmd
  have hmul : fdcSeekSteps fdc target * fdcStepRateMs (cmd &&& 3#8) ≤ 255 * 30 :=
    Int.mul_le_mul (fdcSeekSteps_le fdc target) (fdcStepRateMs_le _) (fdcStepRateMs_pos _).le
      (by decide)
  refine .of_bounds (by omega) ?_
  unfold fdcSeekCycles fdcSettleCycles
  cases fdc.timingMode with
  | fast => exact (by decide : (20 : Int) < 2 ^ 31)
  | real => dsimp only; split_ifs <;> omega

theorem fdcSeekTrack_kept (h : FdcInts fdc) (target cmd : Byte) (update : Bool) :
    FdcKept found { fdcSeekTrack fdc target cmd update with currentop := .none } := by
  unfold fdcSeekTrack
  cases fdc.diskData with
  | none => exact FdcInts.kept_of_none { h with } rfl
  | some buf => exact FdcInts.kept_of_none { h with delayedInt := fdcSeekCycles_isInt .. } rfl

theorem fdcRecordNotFound_kept (h : FdcInts fdc) : FdcKept found (fdcRecordNotFound fdc) := by
  have hrnf : IsInt fdcRnfCycles := .of_bounds (by decide) (by decide)
  unfold fdcRecordNotFound
  dsimp only
  split
  · exact FdcInts.kept_of_none { h with delayedInt := hrnf } rfl
  · exact FdcInts.kept_of_none { h with } rfl

theorem fdcRefuse_kept (h : FdcInts fdc) (st : Byte) : FdcKept found (fdcRefuse fdc st) :=
  FdcInts.kept_of_none { h with } rfl

theorem fdcNotReady_kept (h : FdcInts fdc) {command : Fdc → Fdc}
    (hc : FdcKept found (command fdc)) :
    FdcKept found (fdcNotReady fdc command) := by
  unfold fdcNotReady
  split
  · exact hc
  · exact fdcRefuse_kept h _

theorem fdcWriteProtected_kept (h : FdcInts fdc) {command : Fdc → Fdc}
    (hc : FdcKept found (command fdc)) : FdcKept found (fdcWriteProtected fdc command) := by
  unfold fdcWriteProtected
  split
  · exact fdcRefuse_kept h _
  · exact hc

/-- The first DRQ's delay. -/
theorem fdcSectorDelay_isInt (fdc : Fdc) (secId value : Byte) {delay : Int} (hd : IsInt delay) :
    IsInt (match fdc.timingMode with
      | .real => fdcRotWait fdc secId + (if value &&& 0x04#8 != 0#8 then fdcSettleCycles else 0)
      | .fast => delay) := by
  have hpos := fdcRotWait_pos fdc secId
  have hlt := fdcRotWait_lt fdc secId
  split
  · unfold fdcSettleCycles
    split_ifs <;> exact .of_bounds (by omega) (by omega)
  · exact hd

theorem fdcSectorCommand_kept (h : FdcInts fdc) (value : Byte) {delay : Int} (hd : IsInt delay)
    {single multiple : FdcOp} (hsingle : single.isSector = true)
    (hmultiple : multiple.isSector = true) :
    FdcKept found (fdcSectorCommand value delay single multiple fdc) := by
  have h₀ : FdcInts ({ fdc with curOffset := 0 }.lookup fdc.sector) := { h with }
  unfold fdcSectorCommand
  dsimp only
  split
  · exact fdcRecordNotFound_kept h₀
  · refine FdcInts.kept_of_sector { h with delayedDrq := fdcSectorDelay_isInt _ _ _ hd } ?_ rfl
    dsimp only
    split_ifs
    · exact hmultiple
    · exact hsingle

theorem fdcReadAddress_kept (h : FdcInts fdc) : FdcKept found (fdcReadAddress fdc) := by
  have h₀ : FdcInts { fdc with statusType1 := false } := { h with }
  refine fdcNotReady_kept h₀ ?_
  have h₁ : FdcInts
      (({ fdc with statusType1 := false, curOffset := 0 } : Fdc).lookup 1#8) := { h with }
  dsimp only
  split
  · exact fdcRecordNotFound_kept h₁
  · split
    · exact { h₁ with
        delayedDrq := fdcRotWait_isInt _ _
        sector := fun _ => nofun
        address := fun _ _ => rfl
        field := fun _ => nofun }
    · exact { h₁ with sector := fun _ => nofun, address := fun _ _ => rfl, field := fun _ => nofun }

theorem fdcForceInterrupt_kept (h : FdcInts fdc) (value : Byte) :
    FdcKept found (fdcForceInterrupt fdc value) := by
  unfold fdcForceInterrupt
  dsimp only
  split_ifs <;>
    exact FdcInts.kept_of_none { h with delayedInt := isInt_zero, delayedDrq := isInt_zero } rfl

theorem fdcReadTrack_kept (h : FdcInts fdc) : FdcKept found (fdcReadTrack fdc) := by
  have h60 : IsInt 60 := .of_bounds (by decide) (by decide)
  have h₀ : FdcInts { fdc with statusType1 := false } := { h with }
  exact fdcNotReady_kept h₀
    (FdcInts.kept_of_op { h with delayedDrq := h60 } .readTrack rfl rfl nofun nofun)

/-- The format starts scanning, without a sector. -/
theorem fdcWriteTrack_kept (h : FdcInts fdc) : FdcKept found (fdcWriteTrack fdc) := by
  have h₀ : FdcInts { fdc with statusType1 := false } := { h with }
  have hdrq : IsInt (match fdc.timingMode with
      | .real => (fdcRevCycles - fdc.rotPos : Int)
      | .fast => 500) := by
    have hrot : fdc.rotPos < 200000 := h.rotPos
    split
    · exact .of_bounds (by simp only [fdcRevCycles]; omega) (by simp only [fdcRevCycles]; omega)
    · exact .of_bounds (by decide) (by decide)
  exact fdcNotReady_kept h₀ (fdcWriteProtected_kept h₀
    { h with
      delayedDrq := hdrq
      delayedInt := isInt_zero
      wtState := rfl
      wtFieldIdx := nofun
      sector := fun _ => nofun
      address := fun _ => nofun
      field := fun _ => nofun })

theorem fdcStep_kept (h : FdcInts fdc) (value : Byte) : FdcKept found (fdcStep fdc value) := by
  have h₀ : FdcInts (fdcTypeI fdc value) := { h with }
  unfold fdcStep
  dsimp only
  split <;> exact fdcSeekTrack_kept h₀ ..

theorem fdcStepOut_kept (h : FdcInts fdc) (value : Byte) :
    FdcKept found (fdcStepOut fdc value) := by
  have h₀ : FdcInts { fdcTypeI fdc value with direction := 1 } := { h with }
  unfold fdcStepOut
  dsimp only
  split_ifs
  · exact fdcSeekTrack_kept h₀ ..
  · exact FdcInts.kept_of_none { h with } rfl

theorem fdcBeginCommand_ints (h : FdcInts fdc) (value : Byte) :
    FdcInts (fdcBeginCommand fdc value) := by
  unfold fdcBeginCommand
  dsimp only
  split_ifs <;> exact { h with }

/-- A command finds its sector itself, whatever was in progress. -/
theorem fdcWriteCommand_kept (h : FdcInts fdc) (value : Byte) :
    FdcKept found (fdcWriteCommand fdc value) := by
  have h60 : IsInt 60 := .of_bounds (by decide) (by decide)
  have h500 : IsInt 500 := .of_bounds (by decide) (by decide)
  unfold fdcWriteCommand
  have h := fdcBeginCommand_ints h value
  generalize fdcBeginCommand fdc value = f at h
  have h₀ : FdcInts { f with statusType1 := false } := { h with }
  have h₁ : ∀ direction, FdcInts { fdcTypeI f value with direction := direction } :=
    fun _ => { h with }
  cases fdcCommand value with
  | restoreSeek => exact fdcSeekTrack_kept (h₁ f.direction) ..
  | step => exact fdcStep_kept h value
  | stepIn => exact fdcSeekTrack_kept (h₁ 0) ..
  | stepOut => exact fdcStepOut_kept h value
  | readSector => exact fdcNotReady_kept h₀ (fdcSectorCommand_kept h₀ value h60 rfl rfl)
  | writeSector =>
    exact fdcNotReady_kept h₀
      (fdcWriteProtected_kept h₀ (fdcSectorCommand_kept h₀ value h500 rfl rfl))
  | readAddress => exact fdcReadAddress_kept h
  | forceInterrupt => exact fdcForceInterrupt_kept h value
  | readTrack => exact fdcReadTrack_kept h
  | writeTrack => exact fdcWriteTrack_kept h

/-! ### The data register -/

theorem fdcNextSector_kept (h : FdcInts fdc) (hop : fdc.currentop.isSector = true) :
    FdcKept found (fdcNextSector fdc) := by
  have h180 : IsInt 180 := .of_bounds (by decide) (by decide)
  have h20 : IsInt 20 := .of_bounds (by decide) (by decide)
  unfold fdcNextSector
  dsimp only
  split
  · refine FdcInts.kept_of_sector { h with delayedDrq := ?_ } hop rfl
    split
    · exact fdcRotWait_isInt _ _
    · exact h180
  · exact FdcInts.kept_of_none { h with delayedInt := h20 } rfl

theorem fdcByteServed_kept (h : FdcKept found fdc) (hop : fdc.currentop.isSector = true) :
    FdcKept found (fdcByteServed fdc) := by
  have h32 : IsInt 32 := .of_bounds (by decide) (by decide)
  have h₀ : FdcInts (fdcClrDrq fdc) := { h.toFdcInts with }
  unfold fdcByteServed
  dsimp only
  split_ifs
  · exact fdcNextSector_kept h₀ hop
  · exact FdcInts.kept_of_none { h₀ with delayedInt := h32 } rfl
  · exact { h with delayedDrq := h32 }

theorem fdcReadSectorByte_kept (h : FdcKept found fdc) (hop : fdc.currentop.isSector = true) :
    FdcKept found (fdcReadSectorByte fdc) := by
  unfold fdcReadSectorByte
  split
  · exact FdcInts.kept_of_none { h.toFdcInts with } rfl
  · dsimp only
    split_ifs
    · exact { h with }
    · exact fdcByteServed_kept { h with } hop
    · exact fdcByteServed_kept { h with } hop

theorem fdcReadAddressByte_kept (h : FdcKept found fdc) (hop : fdc.currentop = .readAddress) :
    FdcKept found (fdcReadAddressByte fdc) := by
  have h20 : IsInt 20 := .of_bounds (by decide) (by decide)
  have h32 : IsInt 32 := .of_bounds (by decide) (by decide)
  have hsector : ∀ {P : Prop}, fdc.currentop.isSector = true → P := by
    intro P hs
    rw [hop] at hs
    cases hs
  have h₀ : FdcKept found (fdcClrDrq (fdcIdByte fdc)) := by
    unfold fdcIdByte
    split
    · exact { h with sector := fun _ => hsector }
    · exact { h with }
  unfold fdcReadAddressByte
  dsimp only
  split_ifs
  · exact FdcInts.kept_of_none { h₀.toFdcInts with delayedInt := h20 } rfl
  · exact { h₀ with delayedDrq := h32 }

theorem fdcReadData_kept (h : FdcKept found fdc) : FdcKept found (fdcReadData fdc) := by
  unfold fdcReadData
  split
  case h_1 hop => exact fdcReadSectorByte_kept h (by rw [hop]; rfl)
  case h_2 hop => exact fdcReadSectorByte_kept h (by rw [hop]; rfl)
  case h_3 hop => exact fdcReadAddressByte_kept h hop
  case h_4 => exact h

theorem fdcWriteSectorByte_kept (h : FdcKept found fdc) (hop : fdc.currentop.isSector = true)
    (value : Byte) : FdcKept found (fdcWriteSectorByte fdc value) := by
  unfold fdcWriteSectorByte
  split
  · exact FdcInts.kept_of_none { h.toFdcInts with } rfl
  · obtain ⟨heap, hstore⟩ := storeByte_frame fdc value
    rw [hstore]
    split_ifs
    · exact { h with }
    · exact fdcByteServed_kept { h with } hop

/-- A data mark looks the sector up, and nothing moves it until the field ends. -/
theorem fdcWtParse_kept (h : FdcKept found fdc) (hop : fdc.currentop = .writeTrack) (value : Byte) :
    FdcKept found (fdcWtParse fdc value) := by
  have hsector : ∀ {P : Prop}, fdc.currentop.isSector = true → P := by
    intro P hs
    rw [hop] at hs
    cases hs
  have haddress : ∀ {P : Prop}, fdc.currentop = .readAddress → P := by
    intro P ha
    rw [hop] at ha
    cases ha
  unfold fdcWtParse
  cases hst : fdc.wtState with
  | scan =>
    dsimp only
    split_ifs
    · have hzero : (0#8 : Byte) < 4#8 := by decide
      exact { h with wtState := rfl, wtFieldIdx := fun _ => hzero, field := fun _ => nofun }
    · exact { h with
        wtState := rfl
        wtFieldIdx := nofun
        sector := fun _ => hsector
        address := fun _ => haddress
        field := fun _ _ _ => rfl }
    · exact h
  | idField =>
    dsimp only
    split_ifs with hend
    · exact { h with wtState := rfl, wtFieldIdx := nofun, field := fun _ => nofun }
    · exact { h with
        wtState := rfl, wtFieldIdx := fun _ => BitVec.not_le.mp hend, field := fun _ => nofun }
  | dataField =>
    obtain ⟨heap, hstore⟩ := storeByte_frame fdc value
    rw [hstore]
    dsimp only
    split_ifs <;> first
      | exact { h with wtState := rfl, wtFieldIdx := nofun, field := fun _ => nofun }
      | exact { h with }
  | other _ => exact h

theorem fdcWriteTrackByte_kept (h : FdcKept found fdc) (hop : fdc.currentop = .writeTrack)
    (value : Byte) : FdcKept found (fdcWriteTrackByte fdc value) := by
  have h32 : IsInt 32 := .of_bounds (by decide) (by decide)
  have h₀ : FdcKept found { fdc with diskModified := true } := { h with }
  have h₁ := fdcWtParse_kept h₀ hop value
  unfold fdcWriteTrackByte
  dsimp only
  split_ifs
  · exact FdcInts.kept_of_none { h₁.toFdcInts with delayedInt := h32 } rfl
  · exact { h₁ with delayedDrq := h32 }

theorem fdcWriteData_kept (h : FdcKept found fdc) (value : Byte) :
    FdcKept found (fdcWriteData fdc value) := by
  have h₀ : FdcKept found { fdc with data := value } := { h with }
  unfold fdcWriteData
  dsimp only
  split
  case h_1 hop => exact fdcWriteSectorByte_kept h₀ (by rw [hop]; rfl) value
  case h_2 hop => exact fdcWriteSectorByte_kept h₀ (by rw [hop]; rfl) value
  case h_3 hop => exact fdcWriteTrackByte_kept h₀ hop value
  case h_4 => exact h₀

/-! ### Ticks -/

theorem fdcTickInt_kept (h : FdcKept found fdc) (cycles : BitVec 32) :
    FdcKept found (fdcTickInt fdc cycles) := by
  unfold fdcTickInt
  dsimp only
  split_ifs
  · exact { h with delayedInt := isInt_zero }
  · exact { h with delayedInt := cInt_isInt _ }
  · exact h

theorem fdcStreamStart_kept (h : FdcKept found fdc) : FdcKept found (fdcStreamStart fdc) := by
  have hgap : IsInt (fdcWriteGapBytes * fdcByteCycles) := .of_bounds (by decide) (by decide)
  have hbyte : IsInt fdcByteCycles := .of_bounds (by decide) (by decide)
  unfold fdcStreamStart
  dsimp only
  split_ifs
  · exact { h with streamDue := hgap, drqAge := isInt_zero }
  · exact { h with streamDue := hbyte, drqAge := isInt_zero }

theorem fdcTickDrq_kept (h : FdcKept found fdc) (cycles : BitVec 32) :
    FdcKept found (fdcTickDrq fdc cycles) := by
  have h₀ : FdcKept found { fdc with
      delayedDrq := 0, status := fdc.ddStatus.getD fdc.status, ddStatus := none } :=
    { h with delayedDrq := isInt_zero }
  unfold fdcTickDrq
  dsimp only
  split_ifs
  · exact fdcStreamStart_kept h₀
  · exact { h₀ with drqAge := isInt_zero }
  · exact { h with delayedDrq := cInt_isInt _ }
  · exact h

theorem fdcTickLost_kept (h : FdcKept found fdc) (cycles : BitVec 32) :
    FdcKept found (fdcTickLost fdc cycles) := by
  unfold fdcTickLost
  dsimp only
  split_ifs
  · exact { h with drqAge := cInt_isInt _ }
  · exact { h with drqAge := cInt_isInt _ }
  · exact { h with drqAge := isInt_zero }

theorem fdcStreamSectorDone_kept (h : FdcInts fdc) (hop : fdc.currentop.isSector = true) :
    FdcKept found (fdcStreamSectorDone fdc) := by
  have hone : IsInt 1 := .of_bounds (by decide) (by decide)
  unfold fdcStreamSectorDone
  dsimp only
  split_ifs
  · split
    · exact FdcInts.kept_of_sector { h with delayedDrq := fdcRotWait_isInt _ _ } hop rfl
    · exact FdcInts.kept_of_none { h with delayedInt := hone } rfl
  · exact FdcInts.kept_of_none { h with delayedInt := hone } rfl

theorem fdcStreamStep_kept (h : FdcKept found fdc) (hop : fdc.currentop.isSector = true) :
    FdcKept found (fdcStreamStep fdc) := by
  unfold fdcStreamStep
  split_ifs
  · exact fdcStreamSectorDone_kept { h.toFdcInts with } hop
  · exact fdcStreamSectorDone_kept h.toFdcInts hop
  · unfold fdcStreamStepWrite
    split
    · refine fdcStreamSectorDone_kept { h.toFdcInts with } ?_
      dsimp only
      split_ifs
      · rfl
      · exact hop
    · obtain ⟨status, lost, heap, hput⟩ := fdcStreamPut_frame fdc
      rw [hput]
      dsimp only
      split_ifs
      · exact { h with streamDue := cInt_isInt _, drqAge := isInt_zero }
      · exact { h with streamDue := cInt_isInt _ }
  · unfold fdcStreamStepRead
    split_ifs
    · obtain ⟨status, lost, data, hget⟩ := fdcStreamGet_frame fdc
      rw [hget]
      exact { h with streamDue := cInt_isInt _, drqAge := isInt_zero }
    · exact { h with streamDue := cInt_isInt _ }

/-- The loop, by induction on its fuel: the stream is a sector transfer's until it stops. -/
theorem fdcStreamLoop_kept {live : Prop} (fuel : Nat) (hinv : FdcStreaming live fdc)
    (h : FdcKept found fdc) : FdcKept found (fdcStreamLoop fuel fdc) := by
  induction fuel generalizing fdc with
  | zero => exact h
  | succ fuel ih =>
    unfold fdcStreamLoop
    split_ifs with hcond
    · have hstep := fdcStreamStep_kept h hinv.op
      rcases fdcStreamStep_next hinv with ⟨_, hend⟩ | ⟨hnext, _⟩
      · rwa [fdcStreamLoop_of_stopped hend]
      · exact ih hnext hstep
    · exact h

theorem fdcTickStream_kept {live : Prop} (hinv : FdcInv live fdc) (h : FdcKept found fdc)
    (cycles : BitVec 32) : FdcKept found (fdcTickStream fdc cycles) := by
  have hstop : FdcKept found { fdc with stream := false } := { h with }
  unfold fdcTickStream
  split_ifs with hs hst
  · have hinv₀ : FdcStreaming live { fdc with streamDue := cInt (fdc.streamDue - cycles.toInt) } :=
      { hinv with running := hs, streamed := hst }
    exact fdcStreamLoop_kept fdcStreamFuel hinv₀ { h with streamDue := cInt_isInt _ }
  · exact fdcTickLost_kept hstop cycles
  · exact fdcTickLost_kept h cycles

theorem fdcTicktock_kept {live : Prop} (hinv : FdcInv live fdc) (h : FdcKept found fdc)
    (cycles : BitVec 32) : FdcKept found (fdcTicktock fdc cycles) := by
  have hlt : (fdc.rotPos + cycles.toNat) % 2 ^ 32 % fdcRevCycles < fdcRevCycles :=
    Nat.mod_lt _ (by decide)
  have hinv₀ : FdcInv live
      { fdc with rotPos := (fdc.rotPos + cycles.toNat) % 2 ^ 32 % fdcRevCycles } :=
    { hinv with rotPos := hlt }
  have h₀ : FdcKept found
      { fdc with rotPos := (fdc.rotPos + cycles.toNat) % 2 ^ 32 % fdcRevCycles } :=
    { h with rotPos := hlt }
  exact fdcTickStream_kept (fdcTickDrq_inv (fdcTickInt_inv hinv₀ cycles) cycles)
    (fdcTickDrq_kept (fdcTickInt_kept h₀ cycles) cycles) cycles

/-! ### Runs -/

/-- During a sector transfer the sector register gets no other number, and while a sector is in
progress the side, the medium and its damage stay. -/
def FdcKeepsSector (fdc : Fdc) : FdcInput → Prop
  | .access (.write reg value) =>
    fdcReg reg = .sector → fdc.currentop.isSector = true → value = fdc.sector
  | .access _ => True
  | .setSide side => fdc.sectorLive = true → side = fdc.side
  | .setDisk data size tracks sectorsPerTrack => fdc.sectorLive = true →
    data = fdc.diskData ∧ size = fdc.diskSize ∧ tracks = fdc.tracks ∧
      sectorsPerTrack = fdc.sectorsPerTrack
  | .setWriteProtect _ => True
  | .setBadMap map => fdc.sectorLive = true → map.getD .empty = fdc.bad

instance (fdc : Fdc) : ∀ op, Decidable (FdcKeepsSector fdc op)
  | .access (.write reg value) => inferInstanceAs
    (Decidable (fdcReg reg = .sector → fdc.currentop.isSector = true → value = fdc.sector))
  | .access (.read _) => isTrue trivial
  | .access (.ticktock _) => isTrue trivial
  | .setSide side => inferInstanceAs (Decidable (fdc.sectorLive = true → side = fdc.side))
  | .setDisk data size tracks sectorsPerTrack => inferInstanceAs
    (Decidable (fdc.sectorLive = true → data = fdc.diskData ∧ size = fdc.diskSize ∧
      tracks = fdc.tracks ∧ sectorsPerTrack = fdc.sectorsPerTrack))
  | .setWriteProtect _ => isTrue trivial
  | .setBadMap map => inferInstanceAs
    (Decidable (fdc.sectorLive = true → map.getD .empty = fdc.bad))

/-- Without a sector in progress there is no pointer to find. -/
theorem FdcInts.kept_of_dead (h : FdcInts fdc) (hlive : fdc.sectorLive = false) :
    FdcKept found fdc := by
  simp only [Fdc.sectorLive, Bool.or_eq_false_iff, Bool.and_eq_false_iff, beq_eq_false_iff_ne]
    at hlive
  obtain ⟨⟨hs, ha⟩, hw⟩ := hlive
  exact { h with
    sector := by simp [hs]
    address := fun _ h => absurd h ha
    field := fun _ hop hst => hw.elim (absurd hop) (absurd hst) }

theorem fdcAccess_kept {live : Prop} (hinv : FdcInv live fdc) (h : FdcKept found fdc)
    (a : FdcAccess)
    (hok : found → FdcKeepsSector fdc (.access a)) : FdcKept found (fdcAccess fdc a) := by
  cases a with
  | write reg value =>
    show FdcKept found (fdcWrite fdc reg value)
    unfold fdcWrite
    cases hreg : fdcReg reg with
    | command => exact fdcWriteCommand_kept h.toFdcInts value
    | track => exact { h with }
    | sector =>
      exact { h with
        sector := fun hfound hop => by
          rw [h.sector hfound hop]
          show fdcFindSector fdc fdc.sector = fdcFindSector fdc value
          rw [hok hfound hreg hop] }
    | data => exact fdcWriteData_kept h value
  | read reg =>
    show FdcKept found (fdcRead fdc reg).2
    unfold fdcRead
    cases fdcReg reg with
    | command => exact { h with }
    | track => exact h
    | sector => exact h
    | data => exact fdcReadData_kept h
  | ticktock cycles => exact fdcTicktock_kept hinv h cycles

/-- A change of what the lookup depends on, while no sector is in progress or to the same. -/
theorem FdcKept.of_lookup (h : FdcKept found fdc) (hints : FdcInts f)
    (hop : f.currentop = fdc.currentop) (hwt : f.wtState = fdc.wtState)
    (hsame : found → fdc.sectorLive = true → f = fdc) : FdcKept found f := by
  by_cases hfound : found
  · cases hlive : fdc.sectorLive with
    | true => exact hsame hfound hlive ▸ h
    | false =>
      apply hints.kept_of_dead
      rw [Fdc.sectorLive, hop, hwt]
      exact hlive
  · exact { hints with
      sector := fun h => absurd h hfound
      address := fun h => absurd h hfound
      field := fun h => absurd h hfound }

theorem fdcInput_kept {live : Prop} (hinv : FdcInv live fdc) (h : FdcKept found fdc)
    (op : FdcInput) (hok : found → FdcKeepsSector fdc op) : FdcKept found (fdcInput fdc op) := by
  cases op with
  | access a => exact fdcAccess_kept hinv h a hok
  | setSide side =>
    refine h.of_lookup { h.toFdcInts with } rfl rfl fun hfound hlive => ?_
    show { fdc with side := side } = fdc
    rw [hok hfound hlive]
  | setDisk data size tracks sectorsPerTrack =>
    refine h.of_lookup { h.toFdcInts with } rfl rfl fun hfound hlive => ?_
    obtain ⟨rfl, rfl, rfl, rfl⟩ := hok hfound hlive
    rfl
  | setWriteProtect protect => exact { h with }
  | setBadMap map =>
    refine h.of_lookup { h.toFdcInts with } rfl rfl fun hfound hlive => ?_
    show { fdc with bad := map.getD .empty } = fdc
    rw [hok hfound hlive]

/-- What a run carries. -/
structure FdcResumable (found : Prop) (fdc : Fdc) : Prop where
  inv : FdcInv False fdc
  kept : FdcKept found fdc

theorem fdcStart_resumable (h : FdcStart fdc) : FdcResumable found fdc := by
  refine ⟨fdcInit_inv h, ?_⟩
  obtain ⟨heap, mode, rfl⟩ := h
  have hrot : 0 < fdcRevCycles := by decide
  exact FdcInts.kept_of_none
    ⟨isInt_zero, isInt_zero, isInt_zero, isInt_zero, hrot, rfl, nofun⟩ rfl

theorem fdcInput_resumable (h : FdcResumable found fdc) (op : FdcInput)
    (hok : found → FdcKeepsSector fdc op) : FdcResumable found (fdcInput fdc op) :=
  ⟨fdcInput_inv h.inv op nofun, fdcInput_kept h.inv h.kept op hok⟩

/-- A run from a start to a state without a sector in progress, then one that keeps its
sectors. -/
theorem fdcRun_resumable (hstart : FdcStart fdc) (before after : List FdcInput)
    (hdead : (before.foldl fdcInput fdc).sectorLive = false)
    (hok : Machine.Throughout fdcInput FdcKeepsSector after (before.foldl fdcInput fdc)) :
    FdcResumable True (after.foldl fdcInput (before.foldl fdcInput fdc)) := by
  have hbefore : FdcResumable False (before.foldl fdcInput fdc) :=
    List.foldlRecOn before fdcInput (fdcStart_resumable hstart) fun _ h op _ =>
      fdcInput_resumable h op False.elim
  have hidle : FdcResumable True (before.foldl fdcInput fdc) :=
    ⟨hbefore.inv, hbefore.kept.toFdcInts.kept_of_dead hdead⟩
  have hstep : ∀ fdc op, FdcResumable True fdc → FdcKeepsSector fdc op →
      FdcResumable True (fdcInput fdc op) := fun _ op h hok => fdcInput_resumable h op fun _ => hok
  exact Machine.Throughout.invariant hstep after hidle hok

end Phosphoric
