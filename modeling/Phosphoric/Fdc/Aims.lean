import Phosphoric.Fdc.Invariant

/-!
# Where the WD1793 points

The controller keeps two pointers into image buffers: the image (`diskData`) and the sector of the
last lookup (`curSectorData`).

**Theorem (`fdcAccess_aims`).** An access leaves the image, and its sector pointer is the one there
was or one into the image. Nothing is assumed of the controller.
-/

namespace Phosphoric

/-- The image is `base`'s; the sector pointer is `base`'s or points into the image. -/
structure FdcAims (base fdc : Fdc) : Prop where
  diskData : fdc.diskData = base.diskData
  diskSize : fdc.diskSize = base.diskSize
  curSectorData : ∀ p, fdc.curSectorData = some p →
    base.curSectorData = some p ∨ base.diskData = some p.buf

variable {base fdc : Fdc}

theorem FdcAims.refl (fdc : Fdc) : FdcAims fdc fdc := ⟨rfl, rfl, fun _ => .inl⟩

theorem lookup_aims (h : FdcAims base fdc) (secId : Byte) : FdcAims base (fdc.lookup secId) where
  diskData := h.diskData
  diskSize := h.diskSize
  curSectorData p hp := by
    right
    change fdcFindSector fdc secId = some p at hp
    unfold fdcFindSector at hp
    cases hdata : fdc.diskData with
    | none => simp [hdata] at hp
    | some buf =>
      simp only [hdata] at hp
      split_ifs at hp
      rw [← h.diskData, hdata, ← Option.some.inj hp]

theorem storeByte_aims (h : FdcAims base fdc) (b : Byte) : FdcAims base (fdc.storeByte b) := by
  unfold Fdc.storeByte
  split
  · exact { h with }
  · exact h

/-! ## Commands -/

theorem fdcSeekTrack_aims (h : FdcAims base fdc) (target cmd : Byte) (update : Bool) :
    FdcAims base (fdcSeekTrack fdc target cmd update) := by
  unfold fdcSeekTrack
  split
  · exact { h with }
  · exact { h with }

theorem fdcRecordNotFound_aims (h : FdcAims base fdc) : FdcAims base (fdcRecordNotFound fdc) := by
  unfold fdcRecordNotFound
  dsimp only
  split
  · exact { h with }
  · exact { h with }

theorem fdcRefuse_aims (h : FdcAims base fdc) (st : Byte) : FdcAims base (fdcRefuse fdc st) :=
  { h with }

theorem fdcNotReady_aims {command : Fdc → Fdc} (h : FdcAims base fdc)
    (hc : FdcAims base (command fdc)) : FdcAims base (fdcNotReady fdc command) := by
  unfold fdcNotReady
  split
  · exact hc
  · exact fdcRefuse_aims h _

theorem fdcWriteProtected_aims {command : Fdc → Fdc} (h : FdcAims base fdc)
    (hc : FdcAims base (command fdc)) : FdcAims base (fdcWriteProtected fdc command) := by
  unfold fdcWriteProtected
  split_ifs
  · exact fdcRefuse_aims h _
  · exact hc

theorem fdcSectorCommand_aims (h : FdcAims base fdc) (value : Byte) (delay : Int)
    (single multiple : FdcOp) :
    FdcAims base (fdcSectorCommand value delay single multiple fdc) := by
  have hstart : FdcAims base { fdc with curOffset := 0 } := { h with }
  have hfound := lookup_aims hstart fdc.sector
  unfold fdcSectorCommand
  dsimp only
  split
  · exact fdcRecordNotFound_aims hfound
  · exact { hfound with }

theorem fdcReadAddress_aims (h : FdcAims base fdc) : FdcAims base (fdcReadAddress fdc) := by
  have hstart : FdcAims base { fdc with statusType1 := false, curOffset := 0 } := { h with }
  have hfound := lookup_aims hstart 1#8
  refine fdcNotReady_aims { h with } ?_
  dsimp only
  split
  · exact fdcRecordNotFound_aims hfound
  · split
    · exact { hfound with }
    · exact { hfound with }

theorem fdcForceInterrupt_aims (h : FdcAims base fdc) (value : Byte) :
    FdcAims base (fdcForceInterrupt fdc value) := by
  unfold fdcForceInterrupt
  dsimp only
  split_ifs
  · exact { h with }
  · exact { h with }

theorem fdcWriteTrack_aims (h : FdcAims base fdc) : FdcAims base (fdcWriteTrack fdc) :=
  fdcNotReady_aims { h with } (fdcWriteProtected_aims { h with }
    ⟨h.diskData, h.diskSize, fun _ hp => nomatch hp⟩)

theorem fdcStep_aims (h : FdcAims base fdc) (value : Byte) : FdcAims base (fdcStep fdc value) := by
  have htyped : FdcAims base (fdcTypeI fdc value) := { h with }
  have hseek : ∀ target track, FdcAims base
      { fdcSeekTrack (fdcTypeI fdc value) target value track with currentop := .none } := by
    intro target track
    have hsought := fdcSeekTrack_aims htyped target value track
    exact { hsought with }
  unfold fdcStep fdcStepInward
  dsimp only
  by_cases hdir : (fdcTypeI fdc value).direction = 0#8
  · rw [if_pos (by simpa using hdir)]
    exact hseek _ _
  · rw [if_neg (by simpa using hdir)]
    exact hseek _ _

theorem fdcStepOut_aims (h : FdcAims base fdc) (value : Byte) :
    FdcAims base (fdcStepOut fdc value) := by
  have hstart : FdcAims base { fdcTypeI fdc value with direction := 1 } := { h with }
  unfold fdcStepOut
  dsimp only
  split_ifs
  · have hsought := fdcSeekTrack_aims hstart (fdc.cTrack - 1#8) value (value &&& 0x10#8 != 0#8)
    exact { hsought with }
  · exact { hstart with }

theorem fdcWriteCommand_aims (h : FdcAims base fdc) (value : Byte) :
    FdcAims base (fdcWriteCommand fdc value) := by
  have hbegin : FdcAims base (fdcBeginCommand fdc value) := by
    unfold fdcBeginCommand
    dsimp only
    split_ifs
    · exact { h with }
    · exact { h with }
  unfold fdcWriteCommand
  generalize fdcBeginCommand fdc value = fdc at hbegin
  dsimp only
  have hready : FdcAims base { fdc with statusType1 := false } := { hbegin with }
  have htyped : FdcAims base (fdcTypeI fdc value) := { hbegin with }
  cases fdcCommand value with
  | restoreSeek =>
    have hsought := fdcSeekTrack_aims htyped
      (if value &&& 0x10#8 == 0#8 then 0#8 else fdc.data) value true
    exact { hsought with }
  | step => exact fdcStep_aims hbegin value
  | stepIn =>
    have hinward : FdcAims base { fdcTypeI fdc value with direction := 0 } := { hbegin with }
    have hsought := fdcSeekTrack_aims hinward (fdc.cTrack + 1#8) value (value &&& 0x10#8 != 0#8)
    exact { hsought with }
  | stepOut => exact fdcStepOut_aims hbegin value
  | readSector => exact fdcNotReady_aims hready (fdcSectorCommand_aims hready _ _ _ _)
  | writeSector =>
    exact fdcNotReady_aims hready
      (fdcWriteProtected_aims hready (fdcSectorCommand_aims hready _ _ _ _))
  | readAddress => exact fdcReadAddress_aims hbegin
  | forceInterrupt => exact fdcForceInterrupt_aims hbegin value
  | readTrack => exact fdcNotReady_aims hready { hready with }
  | writeTrack => exact fdcWriteTrack_aims hbegin

/-! ## The data register -/

theorem fdcNextSector_aims (h : FdcAims base fdc) : FdcAims base (fdcNextSector fdc) := by
  have hstart : FdcAims base { fdc with sector := fdc.sector + 1#8, curOffset := 0 } :=
    { h with }
  have hfound := lookup_aims hstart (fdc.sector + 1#8)
  unfold fdcNextSector
  dsimp only
  split
  · exact { hfound with }
  · exact { hfound with }

theorem fdcByteServed_aims (h : FdcAims base fdc) : FdcAims base (fdcByteServed fdc) := by
  have hcleared : FdcAims base (fdcClrDrq fdc) := { h with }
  unfold fdcByteServed
  dsimp only
  split_ifs
  · exact fdcNextSector_aims hcleared
  · exact { hcleared with }
  · exact { hcleared with }

theorem fdcReadData_aims (h : FdcAims base fdc) : FdcAims base (fdcReadData fdc) := by
  have hsector : FdcAims base (fdcReadSectorByte fdc) := by
    unfold fdcReadSectorByte
    split
    · exact { h with }
    · dsimp only
      split_ifs
      · exact { h with }
      · exact fdcByteServed_aims { h with }
      · exact fdcByteServed_aims { h with }
  unfold fdcReadData
  split
  · exact hsector
  · exact hsector
  · have hid : FdcAims base (fdcIdByte fdc) := by
      unfold fdcIdByte
      split
      · exact { h with }
      · exact h
    unfold fdcReadAddressByte
    dsimp only
    split_ifs
    · exact { hid with }
    · exact { hid with }
  · exact h

theorem fdcWriteSectorByte_aims (h : FdcAims base fdc) (value : Byte) :
    FdcAims base (fdcWriteSectorByte fdc value) := by
  have hstored := storeByte_aims h value
  unfold fdcWriteSectorByte
  split
  · exact { h with }
  · split_ifs
    · exact { h with }
    · exact fdcByteServed_aims { hstored with }

theorem fdcWtParse_aims (h : FdcAims base fdc) (value : Byte) :
    FdcAims base (fdcWtParse fdc value) := by
  have hstored := storeByte_aims h value
  have hfound := lookup_aims h fdc.wtId[2]
  unfold fdcWtParse
  split
  · split_ifs
    · exact { h with }
    · exact { hfound with }
    · exact h
  · exact { h with }
  · have hput : FdcAims base
        (if fdc.curOffset < fdc.wtDataLen then fdc.storeByte value else fdc) := by
      split_ifs
      · exact hstored
      · exact h
    generalize (if fdc.curOffset < fdc.wtDataLen then fdc.storeByte value else fdc) = fdc' at hput
    dsimp only
    split_ifs
    · exact { hput with }
    · exact { hput with }
    · exact { hput with }
  · exact h

theorem fdcWriteData_aims (h : FdcAims base fdc) (value : Byte) :
    FdcAims base (fdcWriteData fdc value) := by
  have hdata : FdcAims base { fdc with data := value } := { h with }
  unfold fdcWriteData
  dsimp only
  split
  · exact fdcWriteSectorByte_aims hdata value
  · exact fdcWriteSectorByte_aims hdata value
  · have hmarked : FdcAims base { fdc with data := value, diskModified := true } := { h with }
    have hparsed := fdcWtParse_aims hmarked value
    unfold fdcWriteTrackByte
    dsimp only
    split_ifs
    · exact { hparsed with }
    · exact { hparsed with }
  · exact hdata

/-! ## Time -/

theorem fdcStreamSectorDone_aims (h : FdcAims base fdc) :
    FdcAims base (fdcStreamSectorDone fdc) := by
  have hstart : FdcAims base
      { fdcClrDrq { fdc with stream := false, streamCrc := false } with
        sector := fdc.sector + 1#8, curOffset := 0 } := { h with }
  have hfound := lookup_aims hstart (fdc.sector + 1#8)
  unfold fdcStreamSectorDone
  dsimp only
  split_ifs
  · split
    · exact { hfound with }
    · exact { hfound with }
  · exact { h with }

theorem fdcStreamPut_aims (h : FdcAims base fdc) : FdcAims base (fdcStreamPut fdc) := by
  have hserved : FdcAims base
      (if fdc.status &&& fdcStDrq == 0#8 then fdc else fdcStreamLost fdc) := by
    split_ifs
    · exact h
    · exact { h with }
  have hstored := storeByte_aims hserved
    (if fdc.status &&& fdcStDrq == 0#8 then fdc.data else 0x00#8)
  exact { hstored with }

theorem fdcStreamStepWrite_aims (h : FdcAims base fdc) :
    FdcAims base (fdcStreamStepWrite fdc) := by
  have hput := fdcStreamPut_aims h
  unfold fdcStreamStepWrite
  dsimp only
  by_cases hmissed : (fdc.curOffset == 0#16 && fdc.status &&& fdcStDrq != 0#8) = true
  · rw [if_pos hmissed]
    exact fdcStreamSectorDone_aims { h with }
  · rw [if_neg hmissed]
    split_ifs
    · exact { hput with }
    · exact { hput with }

theorem fdcStreamStepRead_aims (h : FdcAims base fdc) : FdcAims base (fdcStreamStepRead fdc) := by
  have hget : FdcAims base (fdcStreamGet fdc) := by
    unfold fdcStreamGet
    by_cases hdrq : (fdc.status &&& fdcStDrq != 0#8) = true
    · simp only [if_pos hdrq]
      exact { h with }
    · simp only [if_neg hdrq]
      exact { h with }
  unfold fdcStreamStepRead
  split_ifs
  · exact { hget with }
  · exact { h with }

theorem fdcStreamStep_aims (h : FdcAims base fdc) : FdcAims base (fdcStreamStep fdc) := by
  unfold fdcStreamStep
  by_cases hcrc : fdc.streamCrc = true
  · rw [if_pos hcrc]
    apply fdcStreamSectorDone_aims
    split_ifs
    · exact { h with }
    · exact h
  · rw [if_neg hcrc]
    split_ifs
    · exact fdcStreamStepWrite_aims h
    · exact fdcStreamStepRead_aims h

theorem fdcStreamLoop_aims (fuel : Nat) (h : FdcAims base fdc) :
    FdcAims base (fdcStreamLoop fuel fdc) := by
  induction fuel generalizing fdc with
  | zero => exact h
  | succ fuel ih =>
    unfold fdcStreamLoop
    split_ifs
    · exact ih (fdcStreamStep_aims h)
    · exact h

theorem fdcTickLost_aims (h : FdcAims base fdc) (cycles : BitVec 32) :
    FdcAims base (fdcTickLost fdc cycles) := by
  unfold fdcTickLost
  dsimp only
  split_ifs
  · exact { h with }
  · exact { h with }
  · exact { h with }

theorem fdcTicktock_aims (h : FdcAims base fdc) (cycles : BitVec 32) :
    FdcAims base (fdcTicktock fdc cycles) := by
  have hint : ∀ {fdc}, FdcAims base fdc → FdcAims base (fdcTickInt fdc cycles) := by
    intro fdc h
    unfold fdcTickInt
    dsimp only
    split_ifs
    · exact { h with }
    · exact { h with }
    · exact h
  have hdrq : ∀ {fdc}, FdcAims base fdc → FdcAims base (fdcTickDrq fdc cycles) := by
    intro fdc h
    unfold fdcTickDrq fdcStreamStart
    dsimp only
    split_ifs
    · exact { h with }
    · exact { h with }
    · exact { h with }
    · exact { h with }
    · exact h
  have hstream : ∀ {fdc}, FdcAims base fdc → FdcAims base (fdcTickStream fdc cycles) := by
    intro fdc h
    unfold fdcTickStream
    by_cases hon : fdc.stream = true
    · rw [if_pos hon]
      split_ifs
      · exact fdcStreamLoop_aims fdcStreamFuel { h with }
      · have hoff : FdcAims base { fdc with stream := false } := { h with }
        exact fdcTickLost_aims hoff cycles
    · rw [if_neg hon]
      exact fdcTickLost_aims h cycles
  exact hstream (hdrq (hint { h with }))

theorem fdcAccess_aims (fdc : Fdc) (a : FdcAccess) : FdcAims fdc (fdcAccess fdc a) := by
  have h := FdcAims.refl fdc
  cases a with
  | write reg value =>
    change FdcAims fdc (fdcWrite fdc reg value)
    unfold fdcWrite
    cases fdcReg reg with
    | command => exact fdcWriteCommand_aims h value
    | track => exact { h with }
    | sector => exact { h with }
    | data => exact fdcWriteData_aims h value
  | read reg =>
    change FdcAims fdc (fdcRead fdc reg).2
    unfold fdcRead
    cases fdcReg reg with
    | command => exact { h with }
    | track => exact h
    | sector => exact h
    | data => exact fdcReadData_aims h
  | ticktock cycles => exact fdcTicktock_aims h cycles

end Phosphoric
