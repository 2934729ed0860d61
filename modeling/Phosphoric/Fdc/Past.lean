import Phosphoric.Fdc.Resume

/-!
# The status of no event

A command that stops the delayed INTRQ leaves the status it was to bring (`di_status`) behind.
Nothing brings it: the next INTRQ scheduled has a status of its own. Two states are `FdcPast` of
each other when they differ in that status and no INTRQ is on its way.

**Lemma (`fdcRun_past`).** Every operation keeps this, one lemma for each function.
-/

namespace Phosphoric

variable {a b : Fdc}

/-! ## Commands -/

/-- `b` is `a` up to the status of an INTRQ that is not on its way. -/
def FdcPast (a b : Fdc) : Prop :=
  ∃ di, b = { a with diStatus := di } ∧ (0 < a.delayedInt → di = a.diStatus)

theorem fdcSeekTrack_past (h : FdcPast a b) (target cmd : Byte) (update : Bool) :
    FdcPast { fdcSeekTrack a target cmd update with currentop := .none }
      { fdcSeekTrack b target cmd update with currentop := .none } := by
  obtain ⟨di, rfl, hdi⟩ := h
  cases a
  simp only [fdcSeekTrack]
  split
  · exact ⟨_, rfl, fun _ => rfl⟩
  · exact ⟨di, rfl, hdi⟩

theorem fdcRecordNotFound_past (h : FdcPast a b) :
    FdcPast (fdcRecordNotFound a) (fdcRecordNotFound b) := by
  obtain ⟨di, rfl, hdi⟩ := h
  cases a
  simp only [fdcRecordNotFound, Fdc.signal]
  split
  · exact ⟨_, rfl, fun _ => rfl⟩
  · exact ⟨di, rfl, hdi⟩

theorem fdcRefuse_past (h : FdcPast a b) (st : Byte) :
    FdcPast (fdcRefuse a st) (fdcRefuse b st) := by
  obtain ⟨di, rfl, hdi⟩ := h
  exact ⟨di, rfl, hdi⟩

theorem fdcNotReady_past (h : FdcPast a b) {command : Fdc → Fdc}
    (hc : FdcPast (command a) (command b)) :
    FdcPast (fdcNotReady a command) (fdcNotReady b command) := by
  have hdata : b.diskData = a.diskData := by
    obtain ⟨di, rfl, -⟩ := h
    rfl
  simp only [fdcNotReady, hdata]
  split
  · exact hc
  · exact fdcRefuse_past h _

theorem fdcWriteProtected_past (h : FdcPast a b) {command : Fdc → Fdc}
    (hc : FdcPast (command a) (command b)) :
    FdcPast (fdcWriteProtected a command) (fdcWriteProtected b command) := by
  have htab : b.writeProtected = a.writeProtected := by
    obtain ⟨di, rfl, -⟩ := h
    rfl
  simp only [fdcWriteProtected, htab]
  split
  · exact fdcRefuse_past h _
  · exact hc

theorem fdcSectorFound_past (h : FdcPast a b) (value : Byte) (delay : Int)
    (single multiple : FdcOp) :
    FdcPast (fdcSectorFound value delay single multiple a)
      (fdcSectorFound value delay single multiple b) := by
  have hnone := fdcRecordNotFound_past h
  obtain ⟨di, rfl, hdi⟩ := h
  unfold fdcSectorFound
  dsimp only
  split
  · exact hnone
  · exact ⟨di, rfl, hdi⟩

theorem fdcLookup_past (h : FdcPast a b) (secId : Byte) :
    FdcPast (a.lookup secId) (b.lookup secId) := by
  obtain ⟨di, rfl, hdi⟩ := h
  exact ⟨di, rfl, hdi⟩

theorem FdcPast.rewound (h : FdcPast a b) :
    FdcPast { a with curOffset := 0 } { b with curOffset := 0 } := by
  obtain ⟨di, rfl, hdi⟩ := h
  exact ⟨di, rfl, hdi⟩

theorem fdcSectorCommand_past (h : FdcPast a b) (value : Byte) (delay : Int)
    (single multiple : FdcOp) :
    FdcPast (fdcSectorCommand value delay single multiple a)
      (fdcSectorCommand value delay single multiple b) := by
  have hfound := fdcLookup_past h.rewound a.sector
  obtain ⟨di, rfl, -⟩ := h
  exact fdcSectorFound_past hfound value delay single multiple

theorem fdcAddressFound_past (h : FdcPast a b) :
    FdcPast (fdcAddressFound a) (fdcAddressFound b) := by
  have hnone := fdcRecordNotFound_past h
  obtain ⟨di, rfl, hdi⟩ := h
  unfold fdcAddressFound
  dsimp only
  split
  · exact hnone
  · split
    · exact ⟨di, rfl, hdi⟩
    · exact ⟨di, rfl, hdi⟩

theorem fdcForceInterrupt_past (h : FdcPast a b) (value : Byte) :
    FdcPast (fdcForceInterrupt a value) (fdcForceInterrupt b value) := by
  obtain ⟨di, rfl, hdi⟩ := h
  simp only [fdcForceInterrupt]
  split_ifs
  · exact ⟨di, rfl, by rintro ⟨⟩⟩
  · exact ⟨di, rfl, by rintro ⟨⟩⟩

theorem fdcTypeI_past (h : FdcPast a b) (value : Byte) :
    FdcPast (fdcTypeI a value) (fdcTypeI b value) := by
  obtain ⟨di, rfl, hdi⟩ := h
  exact ⟨di, rfl, hdi⟩

theorem FdcPast.direction (h : FdcPast a b) (direction : Byte) :
    FdcPast { a with direction := direction } { b with direction := direction } := by
  obtain ⟨di, rfl, hdi⟩ := h
  exact ⟨di, rfl, hdi⟩

theorem fdcRestoreSeek_past (h : FdcPast a b) (value : Byte) :
    FdcPast (fdcRestoreSeek a value) (fdcRestoreSeek b value) := by
  have h₀ := fdcTypeI_past h value
  obtain ⟨di, rfl, -⟩ := h
  exact fdcSeekTrack_past h₀ (if value &&& 0x10#8 == 0#8 then 0#8 else a.data) value true

theorem fdcStep_past (h : FdcPast a b) (value : Byte) :
    FdcPast (fdcStep a value) (fdcStep b value) := by
  have h₀ := fdcTypeI_past h value
  obtain ⟨di, rfl, -⟩ := h
  unfold fdcStep
  dsimp only [fdcTypeI] at h₀ ⊢
  split
  · exact fdcSeekTrack_past h₀ ..
  · exact fdcSeekTrack_past h₀ ..

theorem fdcStepIn_past (h : FdcPast a b) (value : Byte) :
    FdcPast (fdcStepIn a value) (fdcStepIn b value) := by
  have h₀ := (fdcTypeI_past h value).direction 0
  obtain ⟨di, rfl, -⟩ := h
  exact fdcSeekTrack_past h₀ (a.cTrack + 1#8) value (value &&& 0x10#8 != 0#8)

theorem fdcStepOut_past (h : FdcPast a b) (value : Byte) :
    FdcPast (fdcStepOut a value) (fdcStepOut b value) := by
  have h₀ := (fdcTypeI_past h value).direction 1
  obtain ⟨di, rfl, hdi⟩ := h
  unfold fdcStepOut
  dsimp only [fdcTypeI] at h₀ ⊢
  split
  · exact fdcSeekTrack_past h₀ ..
  · exact ⟨di, rfl, hdi⟩

theorem fdcBeginCommand_past (h : FdcPast a b) (value : Byte) :
    FdcPast (fdcBeginCommand a value) (fdcBeginCommand b value) := by
  obtain ⟨di, rfl, hdi⟩ := h
  unfold fdcBeginCommand
  dsimp only
  split_ifs
  · exact ⟨di, rfl, hdi⟩
  · exact ⟨di, rfl, hdi⟩

theorem fdcWriteCommand_past (h : FdcPast a b) (value : Byte) :
    FdcPast (fdcWriteCommand a value) (fdcWriteCommand b value) := by
  unfold fdcWriteCommand
  have h := fdcBeginCommand_past h value
  generalize fdcBeginCommand a value = f at h
  generalize fdcBeginCommand b value = g at h
  have h₀ : FdcPast { f with statusType1 := false } { g with statusType1 := false } := by
    obtain ⟨di, rfl, hdi⟩ := h
    exact ⟨di, rfl, hdi⟩
  cases fdcCommand value with
  | restoreSeek => exact fdcRestoreSeek_past h value
  | step => exact fdcStep_past h value
  | stepIn => exact fdcStepIn_past h value
  | stepOut => exact fdcStepOut_past h value
  | readSector => exact fdcNotReady_past h₀ (fdcSectorCommand_past h₀ value 60 _ _)
  | writeSector =>
    exact fdcNotReady_past h₀ (fdcWriteProtected_past h₀ (fdcSectorCommand_past h₀ value 500 _ _))
  | readAddress =>
    exact fdcNotReady_past h₀ (fdcAddressFound_past (fdcLookup_past h₀.rewound 1#8))
  | forceInterrupt => exact fdcForceInterrupt_past h value
  | readTrack =>
    refine fdcNotReady_past h₀ ?_
    obtain ⟨di, rfl, hdi⟩ := h
    exact ⟨di, rfl, hdi⟩
  | writeTrack =>
    refine fdcNotReady_past h₀ (fdcWriteProtected_past h₀ ?_)
    obtain ⟨di, rfl, -⟩ := h
    exact ⟨di, rfl, nofun⟩

/-! ## Transfers -/

theorem fdcStreamLost_past (h : FdcPast a b) : FdcPast (fdcStreamLost a) (fdcStreamLost b) := by
  obtain ⟨di, rfl, hdi⟩ := h
  exact ⟨di, rfl, hdi⟩

theorem fdcClrDrq_past (h : FdcPast a b) : FdcPast (fdcClrDrq a) (fdcClrDrq b) := by
  obtain ⟨di, rfl, hdi⟩ := h
  exact ⟨di, rfl, hdi⟩

theorem fdcStreamDrq_past (h : FdcPast a b) : FdcPast (fdcStreamDrq a) (fdcStreamDrq b) := by
  obtain ⟨di, rfl, hdi⟩ := h
  exact ⟨di, rfl, hdi⟩

theorem fdcStreamSectorDone_past (h : FdcPast a b) :
    FdcPast (fdcStreamSectorDone a) (fdcStreamSectorDone b) := by
  obtain ⟨di, rfl, hdi⟩ := h
  unfold fdcStreamSectorDone fdcClrDrq Fdc.signal Fdc.lookup
  simp only [fdcFindSector_eq]
  generalize fdcFind _ _ _ _ _ _ _ _ = found
  split_ifs
  · cases found with
    | some p => exact ⟨di, rfl, hdi⟩
    | none => exact ⟨_, rfl, fun _ => rfl⟩
  · exact ⟨_, rfl, fun _ => rfl⟩

theorem fdcStreamStart_past (h : FdcPast a b) : FdcPast (fdcStreamStart a) (fdcStreamStart b) := by
  obtain ⟨di, rfl, hdi⟩ := h
  cases a
  simp only [fdcStreamStart, fdcStreamDrq, Fdc.signal]
  split
  · exact ⟨di, rfl, hdi⟩
  · exact ⟨di, rfl, hdi⟩

/-- A byte stored in the sector, and the next offset. -/
theorem fdcStoreNext_past (h : FdcPast a b) (value : Byte) :
    FdcPast { a.storeByte value with curOffset := a.curOffset + 1#16, diskModified := true }
      { b.storeByte value with curOffset := b.curOffset + 1#16, diskModified := true } := by
  obtain ⟨di, rfl, hdi⟩ := h
  cases a
  simp only [Fdc.storeByte]
  split
  · exact ⟨di, rfl, hdi⟩
  · exact ⟨di, rfl, hdi⟩

theorem fdcStreamPut_past (h : FdcPast a b) : FdcPast (fdcStreamPut a) (fdcStreamPut b) := by
  have hlost := fdcStoreNext_past (fdcStreamLost_past h) 0
  have hdata := fdcStoreNext_past h a.data
  obtain ⟨di, rfl, hdi⟩ := h
  unfold fdcStreamPut
  dsimp only
  split_ifs
  · exact hdata
  · exact hlost

theorem fdcStreamGet_past (h : FdcPast a b) : FdcPast (fdcStreamGet a) (fdcStreamGet b) := by
  obtain ⟨di, rfl, hdi⟩ := h
  unfold fdcStreamGet
  dsimp only
  split_ifs
  · exact ⟨di, rfl, hdi⟩
  · exact ⟨di, rfl, hdi⟩

theorem fdcStreamStepRead_past (h : FdcPast a b) :
    FdcPast (fdcStreamStepRead a) (fdcStreamStepRead b) := by
  have hget := fdcStreamGet_past h
  obtain ⟨di, rfl, hdi⟩ := h
  unfold fdcStreamStepRead
  dsimp only
  split_ifs
  · obtain ⟨di, heq, hdi⟩ := hget
    rw [heq]
    exact ⟨di, rfl, hdi⟩
  · exact ⟨di, rfl, hdi⟩

theorem fdcStreamStepWrite_past (h : FdcPast a b) :
    FdcPast (fdcStreamStepWrite a) (fdcStreamStepWrite b) := by
  have hput := fdcStreamPut_past h
  obtain ⟨di, rfl, hdi⟩ := h
  unfold fdcStreamStepWrite
  dsimp only
  split
  · exact fdcStreamSectorDone_past ⟨di, rfl, hdi⟩
  · obtain ⟨di, heq, hdi⟩ := hput
    rw [heq]
    generalize fdcStreamPut a = f at hdi
    dsimp only
    split_ifs
    · exact ⟨di, rfl, hdi⟩
    · exact ⟨di, rfl, hdi⟩

theorem fdcStreamStep_past (h : FdcPast a b) : FdcPast (fdcStreamStep a) (fdcStreamStep b) := by
  have hlost := fdcStreamSectorDone_past (fdcStreamLost_past h)
  have hdone := fdcStreamSectorDone_past h
  have hwrite := fdcStreamStepWrite_past h
  have hread := fdcStreamStepRead_past h
  obtain ⟨di, rfl, hdi⟩ := h
  unfold fdcStreamStep
  dsimp only
  split_ifs
  · exact hlost
  · exact hdone
  · exact hwrite
  · exact hread

theorem fdcStreamLoop_past (fuel : Nat) (h : FdcPast a b) :
    FdcPast (fdcStreamLoop fuel a) (fdcStreamLoop fuel b) := by
  induction fuel generalizing a b with
  | zero => exact h
  | succ fuel ih =>
    have hstep := ih (fdcStreamStep_past h)
    have hsame : b.stream = a.stream ∧ b.streamDue = a.streamDue := by
      obtain ⟨di, rfl, -⟩ := h
      exact ⟨rfl, rfl⟩
    unfold fdcStreamLoop
    rw [hsame.1, hsame.2]
    split_ifs
    · exact hstep
    · exact h

/-! ## Ticks -/

/-- The INTRQ brings its own status. -/
theorem fdcTickInt_past (h : FdcPast a b) (cycles : BitVec 32) :
    FdcPast (fdcTickInt a cycles) (fdcTickInt b cycles) := by
  obtain ⟨di, rfl, hdi⟩ := h
  unfold fdcTickInt
  dsimp only
  by_cases hint : a.delayedInt > 0
  · obtain rfl := hdi hint
    simp only [if_pos hint]
    split
    · exact ⟨none, rfl, fun _ => rfl⟩
    · exact ⟨_, rfl, fun _ => rfl⟩
  · simp only [if_neg hint]
    exact ⟨di, rfl, hdi⟩

/-- The delayed DRQ arrives. -/
theorem fdcDrqDue_past (h : FdcPast a b) :
    FdcPast (if fdcStreamed a && a.curSectorData.isSome then fdcStreamStart a else fdcStreamDrq a)
      (if fdcStreamed b && b.curSectorData.isSome then fdcStreamStart b else fdcStreamDrq b) := by
  have hstart := fdcStreamStart_past h
  have hdrq := fdcStreamDrq_past h
  have hsame : fdcStreamed b = fdcStreamed a ∧ b.curSectorData = a.curSectorData := by
    obtain ⟨di, rfl, -⟩ := h
    exact ⟨rfl, rfl⟩
  rw [hsame.1, hsame.2]
  split
  · exact hstart
  · exact hdrq

theorem fdcTickDrq_past (h : FdcPast a b) (cycles : BitVec 32) :
    FdcPast (fdcTickDrq a cycles) (fdcTickDrq b cycles) := by
  have hdue : FdcPast { a with
        delayedDrq := 0, status := a.ddStatus.getD a.status, ddStatus := none }
      { b with delayedDrq := 0, status := b.ddStatus.getD b.status, ddStatus := none } := by
    obtain ⟨di, rfl, hdi⟩ := h
    exact ⟨di, rfl, hdi⟩
  have hend := fdcDrqDue_past hdue
  obtain ⟨di, rfl, hdi⟩ := h
  unfold fdcTickDrq
  by_cases hd : a.delayedDrq > 0
  · by_cases hleft : cInt (a.delayedDrq - cycles.toNat) ≤ 0
    · simpa only [if_pos hd, if_pos hleft] using hend
    · simp only [if_pos hd, if_neg hleft]
      exact ⟨di, rfl, hdi⟩
  · simp only [if_neg hd]
    exact ⟨di, rfl, hdi⟩

theorem fdcTickLost_past (h : FdcPast a b) (cycles : BitVec 32) :
    FdcPast (fdcTickLost a cycles) (fdcTickLost b cycles) := by
  obtain ⟨di, rfl, hdi⟩ := h
  unfold fdcTickLost
  dsimp only
  split_ifs <;> exact ⟨di, rfl, hdi⟩

theorem fdcTickStream_past (h : FdcPast a b) (cycles : BitVec 32) :
    FdcPast (fdcTickStream a cycles) (fdcTickStream b cycles) := by
  have hlost := fdcTickLost_past h cycles
  obtain ⟨di, rfl, hdi⟩ := h
  have hstopped : FdcPast { a with stream := false } { a with stream := false, diStatus := di } :=
    ⟨di, rfl, hdi⟩
  have hstop := fdcTickLost_past hstopped cycles
  have hpaced : FdcPast { a with streamDue := cInt (a.streamDue - cycles.toInt) }
      { a with streamDue := cInt (a.streamDue - cycles.toInt), diStatus := di } :=
    ⟨di, rfl, hdi⟩
  have hloop := fdcStreamLoop_past fdcStreamFuel hpaced
  have hstreamed : fdcStreamed { a with diStatus := di } = fdcStreamed a := rfl
  unfold fdcTickStream
  rw [hstreamed]
  dsimp only
  split_ifs
  · exact hloop
  · exact hstop
  · exact hlost

theorem fdcTicktock_past (h : FdcPast a b) (cycles : BitVec 32) :
    FdcPast (fdcTicktock a cycles) (fdcTicktock b cycles) := by
  refine fdcTickStream_past (fdcTickDrq_past (fdcTickInt_past ?_ cycles) cycles) cycles
  obtain ⟨di, rfl, hdi⟩ := h
  exact ⟨di, rfl, hdi⟩

/-! ## The data register -/

theorem fdcNextSector_past (h : FdcPast a b) : FdcPast (fdcNextSector a) (fdcNextSector b) := by
  obtain ⟨di, rfl, hdi⟩ := h
  unfold fdcNextSector Fdc.lookup
  simp only [fdcFindSector_eq]
  generalize fdcFind _ _ _ _ _ _ _ _ = found
  cases found with
  | some p => exact ⟨di, rfl, hdi⟩
  | none => exact ⟨_, rfl, fun _ => rfl⟩

theorem fdcByteServed_past (h : FdcPast a b) : FdcPast (fdcByteServed a) (fdcByteServed b) := by
  have hnext := fdcNextSector_past (fdcClrDrq_past h)
  obtain ⟨di, rfl, hdi⟩ := h
  unfold fdcByteServed
  dsimp only [fdcClrDrq, Fdc.signal] at hnext ⊢
  split_ifs
  · exact hnext
  · exact ⟨_, rfl, fun _ => rfl⟩
  · exact ⟨di, rfl, hdi⟩

/-- The byte read, from the start of a sector or not. -/
theorem fdcReadNext_past (h : FdcPast a b) (secType : Byte) :
    FdcPast (fdcByteServed { a with
        secType := secType, data := a.sectorByte, curOffset := a.curOffset + 1#16 })
      (fdcByteServed { b with
        secType := secType, data := b.sectorByte, curOffset := b.curOffset + 1#16 }) := by
  obtain ⟨di, rfl, hdi⟩ := h
  exact fdcByteServed_past ⟨di, rfl, hdi⟩

theorem fdcReadSectorByte_past (h : FdcPast a b) :
    FdcPast (fdcReadSectorByte a) (fdcReadSectorByte b) := by
  have hfirst := fdcReadNext_past h 0
  have hnext := fdcReadNext_past h a.secType
  obtain ⟨di, rfl, hdi⟩ := h
  unfold fdcReadSectorByte
  dsimp only
  split
  · exact ⟨di, rfl, hdi⟩
  · split_ifs
    · exact ⟨di, rfl, hdi⟩
    · exact hfirst
    · exact hnext

theorem fdcWriteSectorByte_past (h : FdcPast a b) (value : Byte) :
    FdcPast (fdcWriteSectorByte a value) (fdcWriteSectorByte b value) := by
  have hnext := fdcByteServed_past (fdcStoreNext_past h value)
  obtain ⟨di, rfl, hdi⟩ := h
  unfold fdcWriteSectorByte
  dsimp only
  split
  · exact ⟨di, rfl, hdi⟩
  · split_ifs
    · exact ⟨di, rfl, hdi⟩
    · exact hnext

theorem fdcReadAddressByte_past (h : FdcPast a b) :
    FdcPast (fdcReadAddressByte a) (fdcReadAddressByte b) := by
  have hid : FdcPast (fdcClrDrq (fdcIdByte a)) (fdcClrDrq (fdcIdByte b)) := by
    obtain ⟨di, rfl, hdi⟩ := h
    cases a
    simp only [fdcIdByte]
    split
    · exact ⟨di, rfl, hdi⟩
    · exact ⟨di, rfl, hdi⟩
  unfold fdcReadAddressByte
  generalize fdcClrDrq (fdcIdByte a) = f at hid
  generalize fdcClrDrq (fdcIdByte b) = g at hid
  obtain ⟨di, rfl, hdi⟩ := hid
  dsimp only
  split_ifs
  · exact ⟨_, rfl, fun _ => rfl⟩
  · exact ⟨di, rfl, hdi⟩

theorem FdcPast.currentop (h : FdcPast a b) : b.currentop = a.currentop := by
  obtain ⟨di, rfl, -⟩ := h
  rfl

theorem fdcReadData_past (h : FdcPast a b) : FdcPast (fdcReadData a) (fdcReadData b) := by
  unfold fdcReadData
  rw [h.currentop]
  split
  · exact fdcReadSectorByte_past h
  · exact fdcReadSectorByte_past h
  · exact fdcReadAddressByte_past h
  · exact h

theorem fdcWtParse_past (h : FdcPast a b) (value : Byte) :
    FdcPast (fdcWtParse a value) (fdcWtParse b value) := by
  have hsame := h
  have hlookup := fdcLookup_past h a.wtId[2]
  obtain ⟨di, rfl, hdi⟩ := h
  have hstore : ∃ heap, ∀ di, (if a.curOffset < a.wtDataLen then
      ({ a with diStatus := di } : Fdc).storeByte value else { a with diStatus := di }) =
        { a with diStatus := di, heap := heap } := by
    unfold Fdc.storeByte
    dsimp only
    split
    · split
      · exact ⟨_, fun _ => rfl⟩
      · exact ⟨_, fun _ => rfl⟩
    · exact ⟨_, fun _ => rfl⟩
  unfold fdcWtParse
  dsimp only
  split
  · split_ifs
    · exact ⟨di, rfl, hdi⟩
    · exact ⟨di, rfl, hdi⟩
    · exact hsame
  · exact ⟨di, rfl, hdi⟩
  · obtain ⟨heap, hstore⟩ := hstore
    have ha := hstore a.diStatus
    have hb := hstore di
    rw [ha, hb]
    dsimp only
    split_ifs
    · exact ⟨di, rfl, hdi⟩
    · exact ⟨di, rfl, hdi⟩
    · exact ⟨di, rfl, hdi⟩
  · exact hsame

theorem fdcWriteTrackByte_past (h : FdcPast a b) (value : Byte) :
    FdcPast (fdcWriteTrackByte a value) (fdcWriteTrackByte b value) := by
  have hmodified : FdcPast { a with diskModified := true } { b with diskModified := true } := by
    obtain ⟨di, rfl, hdi⟩ := h
    exact ⟨di, rfl, hdi⟩
  have hparse := fdcClrDrq_past (fdcWtParse_past hmodified value)
  unfold fdcWriteTrackByte
  generalize fdcClrDrq (fdcWtParse { a with diskModified := true } value) = f at hparse
  generalize fdcClrDrq (fdcWtParse { b with diskModified := true } value) = g at hparse
  obtain ⟨di, rfl, hdi⟩ := hparse
  dsimp only
  split_ifs
  · exact ⟨_, rfl, fun _ => rfl⟩
  · exact ⟨di, rfl, hdi⟩

theorem fdcByteWritten_past (h : FdcPast a b) (value : Byte) :
    FdcPast (fdcByteWritten a value) (fdcByteWritten b value) := by
  unfold fdcByteWritten
  rw [h.currentop]
  split
  · exact fdcWriteSectorByte_past h value
  · exact fdcWriteSectorByte_past h value
  · exact fdcWriteTrackByte_past h value
  · exact h

theorem fdcWrite_past (h : FdcPast a b) (reg value : Byte) :
    FdcPast (fdcWrite a reg value) (fdcWrite b reg value) := by
  unfold fdcWrite
  cases fdcReg reg with
  | command => exact fdcWriteCommand_past h value
  | track =>
    obtain ⟨di, rfl, hdi⟩ := h
    exact ⟨di, rfl, hdi⟩
  | sector =>
    obtain ⟨di, rfl, hdi⟩ := h
    exact ⟨di, rfl, hdi⟩
  | data =>
    have hdata : FdcPast { a with data := value } { b with data := value } := by
      obtain ⟨di, rfl, hdi⟩ := h
      exact ⟨di, rfl, hdi⟩
    exact fdcByteWritten_past hdata value

theorem fdcRead_past (h : FdcPast a b) (reg : Byte) :
    FdcPast (fdcRead a reg).2 (fdcRead b reg).2 := by
  have hdata := fdcReadData_past h
  unfold fdcRead
  cases fdcReg reg with
  | command =>
    obtain ⟨di, rfl, hdi⟩ := h
    exact ⟨di, rfl, hdi⟩
  | track => exact h
  | sector => exact h
  | data => exact hdata

/-! ## Runs -/

/-- The step lemma. -/
theorem fdcInput_past (h : FdcPast a b) (op : FdcInput) :
    FdcPast (fdcInput a op) (fdcInput b op) := by
  cases op with
  | access access =>
    cases access with
    | write reg value => exact fdcWrite_past h reg value
    | read reg => exact fdcRead_past h reg
    | ticktock cycles => exact fdcTicktock_past h cycles
  | setSide side =>
    obtain ⟨di, rfl, hdi⟩ := h
    exact ⟨di, rfl, hdi⟩
  | setDisk data size tracks sectorsPerTrack =>
    obtain ⟨di, rfl, hdi⟩ := h
    exact ⟨di, rfl, hdi⟩
  | setWriteProtect protect =>
    obtain ⟨di, rfl, hdi⟩ := h
    exact ⟨di, rfl, hdi⟩
  | setBadMap map =>
    obtain ⟨di, rfl, hdi⟩ := h
    exact ⟨di, rfl, hdi⟩

theorem fdcRun_past (inputs : List FdcInput) (h : FdcPast a b) :
    FdcPast (inputs.foldl fdcInput a) (inputs.foldl fdcInput b) := by
  induction inputs generalizing a b with
  | nil => exact h
  | cons op inputs ih => exact ih (fdcInput_past h op)

end Phosphoric
