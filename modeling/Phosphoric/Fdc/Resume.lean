import Phosphoric.Fdc.Kept

/-!
# A resumed controller answers like the original

**Theorem (`fdcResume_answers`).** In a run whose steps keep the sectors in progress
(`FdcKeepsSector`), saving the controller and resuming it in one with the same medium gives a
controller that answers every later run of accesses with the same bytes, callbacks and image.

Saved and resumed states are `FdcLike`: equal but for the count of lost bytes, the dirty mark, the
pointer when no sector is in progress and the index of a finished ID field. No access looks at
those, so likeness is kept (`fdcAccess_like`) and the answers are the same. A transfer whose
pointers agree is `FdcTwin`, which the functions of a transfer keep without looking at it.
-/

namespace Phosphoric

/-! ## Likeness -/

/-- `b` is `a` up to what only a transfer or a format looks at. -/
def FdcAlmost (a b : Fdc) : Prop :=
  ∃ lost modified id ptr idx, b = { a with
    lostDataCount := lost, diskModified := modified, curSectorId := id, curSectorData := ptr
    wtFieldIdx := idx }

/-- `b` is `a` up to what no access looks at. -/
def FdcLike (a b : Fdc) : Prop :=
  ∃ lost modified id ptr idx, b = { a with
      lostDataCount := lost, diskModified := modified, curSectorId := id, curSectorData := ptr
      wtFieldIdx := idx } ∧
    (a.sectorLive = true → ptr = a.curSectorData) ∧
    (a.currentop = .writeTrack → a.wtState = .idField → idx = a.wtFieldIdx)

/-- Alike with the same pointer, and not in a format. -/
structure FdcTwin (a b : Fdc) : Prop where
  op : a.currentop ≠ .writeTrack
  eq : ∃ lost modified id idx, b = { a with
    lostDataCount := lost, diskModified := modified, curSectorId := id, wtFieldIdx := idx }

variable {a b : Fdc}

theorem FdcLike.almost (h : FdcLike a b) : FdcAlmost a b := by
  obtain ⟨lost, modified, id, ptr, idx, rfl, -, -⟩ := h
  exact ⟨lost, modified, id, ptr, idx, rfl⟩

theorem FdcAlmost.like_of_none (h : FdcAlmost a b) (hop : a.currentop = .none) : FdcLike a b := by
  obtain ⟨lost, modified, id, ptr, idx, rfl⟩ := h
  refine ⟨lost, modified, id, ptr, idx, rfl, fun hlive => ?_, fun hw => ?_⟩
  · simp [Fdc.sectorLive, FdcOp.isSector, hop] at hlive
  · rw [hop] at hw
    cases hw

theorem FdcTwin.like (h : FdcTwin a b) : FdcLike a b := by
  obtain ⟨hop, lost, modified, id, idx, rfl⟩ := h
  exact ⟨lost, modified, id, a.curSectorData, idx, rfl, fun _ => rfl, fun hw => absurd hw hop⟩

/-- During a transfer the pointers agree. -/
theorem FdcLike.twin (h : FdcLike a b) (hlive : a.sectorLive = true)
    (hop : a.currentop ≠ .writeTrack) : FdcTwin a b := by
  obtain ⟨lost, modified, id, ptr, idx, rfl, hptr, -⟩ := h
  rw [hptr hlive]
  exact ⟨hop, lost, modified, id, idx, rfl⟩

theorem sectorLive_of_isSector (h : a.currentop.isSector = true) : a.sectorLive = true := by
  simp [Fdc.sectorLive, h]

theorem ne_writeTrack_of_isSector (h : a.currentop.isSector = true) :
    a.currentop ≠ .writeTrack := by
  intro hw
  rw [hw] at h
  cases h

/-! ## Commands -/

theorem fdcSeekTrack_like (h : FdcAlmost a b) (target cmd : Byte) (update : Bool) :
    FdcLike { fdcSeekTrack a target cmd update with currentop := .none }
      { fdcSeekTrack b target cmd update with currentop := .none } := by
  refine FdcAlmost.like_of_none ?_ rfl
  obtain ⟨lost, modified, id, ptr, idx, rfl⟩ := h
  cases a
  simp only [fdcSeekTrack]
  split <;> exact ⟨lost, modified, id, ptr, idx, rfl⟩

theorem fdcRecordNotFound_like (h : FdcAlmost a b) :
    FdcLike (fdcRecordNotFound a) (fdcRecordNotFound b) := by
  obtain ⟨lost, modified, id, ptr, idx, rfl⟩ := h
  cases a
  simp only [fdcRecordNotFound, Fdc.signal]
  split <;> exact FdcAlmost.like_of_none ⟨lost, modified, id, ptr, idx, rfl⟩ rfl

theorem fdcRefuse_like (h : FdcAlmost a b) (st : Byte) :
    FdcLike (fdcRefuse a st) (fdcRefuse b st) := by
  obtain ⟨lost, modified, id, ptr, idx, rfl⟩ := h
  exact FdcAlmost.like_of_none ⟨lost, modified, id, ptr, idx, rfl⟩ rfl

theorem fdcNotReady_like (h : FdcAlmost a b) {command : Fdc → Fdc}
    (hc : FdcLike (command a) (command b)) :
    FdcLike (fdcNotReady a command) (fdcNotReady b command) := by
  have hdata : b.diskData = a.diskData := by
    obtain ⟨lost, modified, id, ptr, idx, rfl⟩ := h
    rfl
  simp only [fdcNotReady, hdata]
  split
  · exact hc
  · exact fdcRefuse_like h _

theorem fdcWriteProtected_like (h : FdcAlmost a b) {command : Fdc → Fdc}
    (hc : FdcLike (command a) (command b)) :
    FdcLike (fdcWriteProtected a command) (fdcWriteProtected b command) := by
  have htab : b.writeProtected = a.writeProtected := by
    obtain ⟨lost, modified, id, ptr, idx, rfl⟩ := h
    rfl
  simp only [fdcWriteProtected, htab]
  split
  · exact fdcRefuse_like h _
  · exact hc

/-- `fdcSectorCommand` after its lookup. -/
def fdcSectorFound (value : Byte) (delay : Int) (single multiple : FdcOp) (fdc : Fdc) : Fdc :=
  match fdc.curSectorData with
  | none => fdcRecordNotFound fdc
  | some _ =>
    { fdc with
      curSectorLen := 256
      status := fdcStBusy ||| fdcStNotReady
      delayedDrq := match fdc.timingMode with
        | .real => fdcRotWait fdc fdc.sector +
            (if value &&& 0x04#8 != 0#8 then fdcSettleCycles else 0)
        | .fast => delay
      currentop := if value &&& 0x10#8 != 0#8 then multiple else single }

theorem fdcSectorFound_like {value : Byte} {single multiple : FdcOp}
    (hsingle : single ≠ .writeTrack) (hmultiple : multiple ≠ .writeTrack) (delay : Int) (f : Fdc)
    (lost : BitVec 32) (modified : Bool) (idx : Byte) :
    FdcLike (fdcSectorFound value delay single multiple f)
      (fdcSectorFound value delay single multiple { f with
        lostDataCount := lost, diskModified := modified, wtFieldIdx := idx }) := by
  have hop : (if value &&& 0x10#8 != 0#8 then multiple else single) ≠ .writeTrack := by
    split_ifs
    · exact hmultiple
    · exact hsingle
  cases f
  simp only [fdcSectorFound]
  split
  · exact fdcRecordNotFound_like ⟨lost, modified, _, _, idx, rfl⟩
  · exact FdcTwin.like ⟨hop, lost, modified, _, idx, rfl⟩

/-- The lookup finds the same sector, whatever the pointer was. -/
theorem fdcSectorCommand_like (h : FdcAlmost a b) {value : Byte} {single multiple : FdcOp}
    (hsingle : single ≠ .writeTrack) (hmultiple : multiple ≠ .writeTrack) (delay : Int) :
    FdcLike (fdcSectorCommand value delay single multiple a)
      (fdcSectorCommand value delay single multiple b) := by
  obtain ⟨lost, modified, id, ptr, idx, rfl⟩ := h
  exact fdcSectorFound_like hsingle hmultiple delay
    ({ a with curOffset := 0 }.lookup a.sector) lost modified idx

/-- `fdcReadAddress` after its lookup. -/
def fdcAddressFound (fdc : Fdc) : Fdc :=
  match fdc.curSectorData with
  | none => fdcRecordNotFound fdc
  | some _ =>
    match fdc.timingMode with
    | .real =>
      { fdc with
        status := fdcStNotReady ||| fdcStBusy, delayedDrq := fdcRotWait fdc 1#8,
        currentop := .readAddress }
    | .fast =>
      { fdc with
        status := fdcStNotReady ||| fdcStBusy ||| fdcStDrq, currentop := .readAddress }.signal
        .setDrq

theorem fdcAddressFound_like (f : Fdc) (lost : BitVec 32) (modified : Bool) (idx : Byte) :
    FdcLike (fdcAddressFound f) (fdcAddressFound { f with
      lostDataCount := lost, diskModified := modified, wtFieldIdx := idx }) := by
  cases f
  simp only [fdcAddressFound]
  split
  · exact fdcRecordNotFound_like ⟨lost, modified, _, _, idx, rfl⟩
  · split <;> exact FdcTwin.like ⟨nofun, lost, modified, _, idx, rfl⟩

theorem fdcReadAddress_like (h : FdcAlmost a b) :
    FdcLike (fdcReadAddress a) (fdcReadAddress b) := by
  obtain ⟨lost, modified, id, ptr, idx, rfl⟩ := h
  refine fdcNotReady_like ⟨lost, modified, id, ptr, idx, rfl⟩ ?_
  exact fdcAddressFound_like
    (({ a with statusType1 := false, curOffset := 0 } : Fdc).lookup 1#8) lost modified idx

theorem fdcForceInterrupt_like (h : FdcAlmost a b) (value : Byte) :
    FdcLike (fdcForceInterrupt a value) (fdcForceInterrupt b value) := by
  obtain ⟨lost, modified, id, ptr, idx, rfl⟩ := h
  simp only [fdcForceInterrupt]
  split_ifs <;> exact FdcAlmost.like_of_none ⟨lost, modified, id, ptr, idx, rfl⟩ rfl

theorem fdcReadTrack_like (h : FdcAlmost a b) : FdcLike (fdcReadTrack a) (fdcReadTrack b) := by
  obtain ⟨lost, modified, id, ptr, idx, rfl⟩ := h
  exact fdcNotReady_like ⟨lost, modified, id, ptr, idx, rfl⟩
    ⟨lost, modified, id, ptr, idx, rfl, nofun, nofun⟩

theorem fdcWriteTrack_like (h : FdcAlmost a b) : FdcLike (fdcWriteTrack a) (fdcWriteTrack b) := by
  obtain ⟨lost, modified, id, ptr, idx, rfl⟩ := h
  refine fdcNotReady_like ⟨lost, modified, id, ptr, idx, rfl⟩
    (fdcWriteProtected_like ⟨lost, modified, id, ptr, idx, rfl⟩ ?_)
  exact ⟨lost, modified, id, none, 0, rfl, nofun, nofun⟩

theorem fdcTypeI_almost (h : FdcAlmost a b) (value : Byte) :
    FdcAlmost (fdcTypeI a value) (fdcTypeI b value) := by
  obtain ⟨lost, modified, id, ptr, idx, rfl⟩ := h
  exact ⟨lost, modified, id, ptr, idx, rfl⟩

theorem FdcAlmost.direction (h : FdcAlmost a b) (direction : Byte) :
    FdcAlmost { a with direction := direction } { b with direction := direction } := by
  obtain ⟨lost, modified, id, ptr, idx, rfl⟩ := h
  exact ⟨lost, modified, id, ptr, idx, rfl⟩

theorem fdcStep_like (h : FdcAlmost a b) (value : Byte) :
    FdcLike (fdcStep a value) (fdcStep b value) := by
  have h₀ := fdcTypeI_almost h value
  obtain ⟨lost, modified, id, ptr, idx, rfl⟩ := h
  unfold fdcStep
  dsimp only [fdcTypeI] at h₀ ⊢
  split <;> exact fdcSeekTrack_like h₀ ..

theorem fdcStepOut_like (h : FdcAlmost a b) (value : Byte) :
    FdcLike (fdcStepOut a value) (fdcStepOut b value) := by
  have h₀ := (fdcTypeI_almost h value).direction 1
  obtain ⟨lost, modified, id, ptr, idx, rfl⟩ := h
  unfold fdcStepOut
  dsimp only [fdcTypeI] at h₀ ⊢
  split
  · exact fdcSeekTrack_like h₀ ..
  · exact FdcAlmost.like_of_none ⟨lost, modified, id, ptr, idx, rfl⟩ rfl

theorem fdcBeginCommand_almost (h : FdcAlmost a b) (value : Byte) :
    FdcAlmost (fdcBeginCommand a value) (fdcBeginCommand b value) := by
  obtain ⟨lost, modified, id, ptr, idx, rfl⟩ := h
  unfold fdcBeginCommand
  dsimp only
  split_ifs <;> exact ⟨lost, modified, id, ptr, idx, rfl⟩

theorem fdcRestoreSeek_like (h : FdcAlmost a b) (value : Byte) :
    FdcLike (fdcRestoreSeek a value) (fdcRestoreSeek b value) := by
  have h₀ := fdcTypeI_almost h value
  obtain ⟨lost, modified, id, ptr, idx, rfl⟩ := h
  exact fdcSeekTrack_like h₀ (if value &&& 0x10#8 == 0#8 then 0#8 else a.data) value true

theorem fdcStepIn_like (h : FdcAlmost a b) (value : Byte) :
    FdcLike (fdcStepIn a value) (fdcStepIn b value) := by
  have h₀ := (fdcTypeI_almost h value).direction 0
  obtain ⟨lost, modified, id, ptr, idx, rfl⟩ := h
  exact fdcSeekTrack_like h₀ (a.cTrack + 1#8) value (value &&& 0x10#8 != 0#8)

/-- A command does not look at what was in progress. -/
theorem fdcWriteCommand_like (h : FdcAlmost a b) (value : Byte) :
    FdcLike (fdcWriteCommand a value) (fdcWriteCommand b value) := by
  unfold fdcWriteCommand
  have h := fdcBeginCommand_almost h value
  generalize fdcBeginCommand a value = f at h
  generalize fdcBeginCommand b value = g at h
  have h₀ : FdcAlmost { f with statusType1 := false } { g with statusType1 := false } := by
    obtain ⟨lost, modified, id, ptr, idx, rfl⟩ := h
    exact ⟨lost, modified, id, ptr, idx, rfl⟩
  cases fdcCommand value with
  | restoreSeek => exact fdcRestoreSeek_like h value
  | step => exact fdcStep_like h value
  | stepIn => exact fdcStepIn_like h value
  | stepOut => exact fdcStepOut_like h value
  | readSector =>
    have hsingle : FdcOp.readSector ≠ .writeTrack := nofun
    have hmultiple : FdcOp.readSectors ≠ .writeTrack := nofun
    exact fdcNotReady_like h₀ (fdcSectorCommand_like h₀ hsingle hmultiple 60)
  | writeSector =>
    have hsingle : FdcOp.writeSector ≠ .writeTrack := nofun
    have hmultiple : FdcOp.writeSectors ≠ .writeTrack := nofun
    exact fdcNotReady_like h₀
      (fdcWriteProtected_like h₀ (fdcSectorCommand_like h₀ hsingle hmultiple 500))
  | readAddress => exact fdcReadAddress_like h
  | forceInterrupt => exact fdcForceInterrupt_like h value
  | readTrack => exact fdcReadTrack_like h
  | writeTrack => exact fdcWriteTrack_like h

/-! ## Transfers -/

/-- `fdc_find_sector` as a function of what it reads. -/
def fdcFind (diskData : Option Nat) (diskSize : Nat) (side cTrack tracks sectorsPerTrack : Byte)
    (bad : FdcBadMap) (secId : Byte) : Option Ptr :=
  match diskData with
  | none => none
  | some buf =>
    let offset := (side.toNat * tracks.toNat * sectorsPerTrack.toNat
      + cTrack.toNat * sectorsPerTrack.toNat + (secId.toNat - 1)) * 256
    if cTrack ≥ tracks || secId == 0#8 || secId > sectorsPerTrack then none
    else if ⟨side, cTrack, secId⟩ ∈ bad.entry then none
    else if offset + 256 > diskSize then none
    else some ⟨buf, offset⟩

theorem fdcFindSector_eq (fdc : Fdc) (secId : Byte) :
    fdcFindSector fdc secId = fdcFind fdc.diskData fdc.diskSize fdc.side fdc.cTrack fdc.tracks
      fdc.sectorsPerTrack fdc.bad secId := rfl

theorem fdcStreamLost_twin (h : FdcTwin a b) : FdcTwin (fdcStreamLost a) (fdcStreamLost b) := by
  obtain ⟨hop, lost, modified, id, idx, rfl⟩ := h
  exact ⟨hop, _, modified, id, idx, rfl⟩

theorem fdcStreamSectorDone_twin (h : FdcTwin a b) :
    FdcTwin (fdcStreamSectorDone a) (fdcStreamSectorDone b) := by
  obtain ⟨hop, lost, modified, id, idx, rfl⟩ := h
  unfold fdcStreamSectorDone fdcClrDrq Fdc.signal Fdc.lookup
  simp only [fdcFindSector_eq]
  generalize fdcFind _ _ _ _ _ _ _ _ = found
  split_ifs
  · cases found with
    | some p => exact ⟨hop, lost, modified, _, idx, rfl⟩
    | none => exact ⟨nofun, lost, modified, _, idx, rfl⟩
  · exact ⟨nofun, lost, modified, _, idx, rfl⟩

theorem fdcStreamStart_twin (h : FdcTwin a b) : FdcTwin (fdcStreamStart a) (fdcStreamStart b) := by
  obtain ⟨hop, lost, modified, id, idx, rfl⟩ := h
  cases a
  simp only [fdcStreamStart, fdcStreamDrq, Fdc.signal]
  split <;> exact ⟨hop, lost, modified, id, idx, rfl⟩

/-- A byte stored in the sector, and the next offset. -/
theorem fdcStoreNext_twin (h : FdcTwin a b) (value : Byte) :
    FdcTwin { a.storeByte value with curOffset := a.curOffset + 1#16, diskModified := true }
      { b.storeByte value with curOffset := b.curOffset + 1#16, diskModified := true } := by
  obtain ⟨hop, lost, modified, id, idx, rfl⟩ := h
  cases a
  simp only [Fdc.storeByte]
  split <;> exact ⟨hop, lost, true, id, idx, rfl⟩

theorem fdcStreamPut_twin (h : FdcTwin a b) : FdcTwin (fdcStreamPut a) (fdcStreamPut b) := by
  have hlost := fdcStoreNext_twin (fdcStreamLost_twin h) 0
  have hdata := fdcStoreNext_twin h a.data
  obtain ⟨hop, lost, modified, id, idx, rfl⟩ := h
  unfold fdcStreamPut
  dsimp only
  split_ifs
  · exact hdata
  · exact hlost

theorem fdcStreamGet_twin (h : FdcTwin a b) : FdcTwin (fdcStreamGet a) (fdcStreamGet b) := by
  obtain ⟨hop, lost, modified, id, idx, rfl⟩ := h
  unfold fdcStreamGet
  dsimp only
  split_ifs <;> exact ⟨hop, _, modified, id, idx, rfl⟩

theorem fdcStreamStepRead_twin (h : FdcTwin a b) :
    FdcTwin (fdcStreamStepRead a) (fdcStreamStepRead b) := by
  have hget := fdcStreamGet_twin h
  obtain ⟨hop, lost, modified, id, idx, rfl⟩ := h
  unfold fdcStreamStepRead
  dsimp only
  split_ifs
  · obtain ⟨hop, lost, modified, id, idx, heq⟩ := hget
    rw [heq]
    exact ⟨hop, lost, modified, id, idx, rfl⟩
  · exact ⟨hop, lost, modified, id, idx, rfl⟩

theorem fdcStreamStepWrite_twin (h : FdcTwin a b) :
    FdcTwin (fdcStreamStepWrite a) (fdcStreamStepWrite b) := by
  have hput := fdcStreamPut_twin h
  obtain ⟨hop, lost, modified, id, idx, rfl⟩ := h
  unfold fdcStreamStepWrite
  dsimp only
  split
  · refine fdcStreamSectorDone_twin ⟨?_, _, modified, id, idx, rfl⟩
    show (if a.currentop == .writeSectors then FdcOp.writeSector else a.currentop) ≠ .writeTrack
    split_ifs
    · exact nofun
    · exact hop
  · obtain ⟨hop, lost, modified, id, idx, heq⟩ := hput
    rw [heq]
    generalize fdcStreamPut a = f at hop
    dsimp only
    split_ifs <;> exact ⟨hop, lost, modified, id, idx, rfl⟩

theorem fdcStreamStep_twin (h : FdcTwin a b) : FdcTwin (fdcStreamStep a) (fdcStreamStep b) := by
  have hlost := fdcStreamSectorDone_twin (fdcStreamLost_twin h)
  have hdone := fdcStreamSectorDone_twin h
  have hwrite := fdcStreamStepWrite_twin h
  have hread := fdcStreamStepRead_twin h
  obtain ⟨hop, lost, modified, id, idx, rfl⟩ := h
  unfold fdcStreamStep
  dsimp only
  split_ifs
  · exact hlost
  · exact hdone
  · exact hwrite
  · exact hread

theorem fdcStreamLoop_twin (fuel : Nat) (h : FdcTwin a b) :
    FdcTwin (fdcStreamLoop fuel a) (fdcStreamLoop fuel b) := by
  induction fuel generalizing a b with
  | zero => exact h
  | succ fuel ih =>
    have hstep := ih (fdcStreamStep_twin h)
    have hsame : b.stream = a.stream ∧ b.streamDue = a.streamDue := by
      obtain ⟨-, lost, modified, id, idx, rfl⟩ := h
      exact ⟨rfl, rfl⟩
    unfold fdcStreamLoop
    rw [hsame.1, hsame.2]
    split_ifs
    · exact hstep
    · exact h

/-! ## Ticks -/

theorem fdcTickInt_like (h : FdcLike a b) (cycles : BitVec 32) :
    FdcLike (fdcTickInt a cycles) (fdcTickInt b cycles) := by
  obtain ⟨lost, modified, id, ptr, idx, rfl, hptr, hidx⟩ := h
  unfold fdcTickInt
  dsimp only
  split_ifs <;> exact ⟨lost, modified, id, ptr, idx, rfl, hptr, hidx⟩

theorem fdcStreamDrq_like (h : FdcLike a b) : FdcLike (fdcStreamDrq a) (fdcStreamDrq b) := by
  obtain ⟨lost, modified, id, ptr, idx, rfl, hptr, hidx⟩ := h
  exact ⟨lost, modified, id, ptr, idx, rfl, hptr, hidx⟩

theorem FdcLike.streamed (h : FdcLike a b) : fdcStreamed b = fdcStreamed a := by
  obtain ⟨lost, modified, id, ptr, idx, rfl, -, -⟩ := h
  rfl

/-- A sector transfer in the REAL model. -/
theorem FdcLike.twin_of_streamed (h : FdcLike a b) (hst : fdcStreamed a = true) : FdcTwin a b :=
  have hop := ((fdcStreamed_iff a).mp hst).2
  h.twin (sectorLive_of_isSector hop) (ne_writeTrack_of_isSector hop)

/-- The delayed DRQ arrives. Only a streamed transfer looks at its pointer. -/
theorem fdcDrqDue_like (h : FdcLike a b) :
    FdcLike (if fdcStreamed a && a.curSectorData.isSome then fdcStreamStart a else fdcStreamDrq a)
      (if fdcStreamed b && b.curSectorData.isSome then fdcStreamStart b else fdcStreamDrq b) := by
  have hdrq := fdcStreamDrq_like h
  rw [h.streamed]
  cases hst : fdcStreamed a with
  | false => simpa only [Bool.false_and, Bool.false_eq_true, if_false] using hdrq
  | true =>
    have htwin := h.twin_of_streamed hst
    have hcur : b.curSectorData = a.curSectorData := by
      obtain ⟨-, lost, modified, id, idx, rfl⟩ := htwin
      rfl
    rw [hcur]
    split
    · exact (fdcStreamStart_twin htwin).like
    · exact hdrq

theorem fdcTickDrq_like (h : FdcLike a b) (cycles : BitVec 32) :
    FdcLike (fdcTickDrq a cycles) (fdcTickDrq b cycles) := by
  obtain ⟨lost, modified, id, ptr, idx, rfl, hptr, hidx⟩ := h
  have hdue := fdcDrqDue_like (a := { a with
    delayedDrq := 0, status := a.ddStatus.getD a.status, ddStatus := none })
    ⟨lost, modified, id, ptr, idx, rfl, hptr, hidx⟩
  by_cases hd : a.delayedDrq > 0
  · by_cases hleft : cInt (a.delayedDrq - cycles.toNat) ≤ 0
    · simpa only [fdcTickDrq, if_pos hd, if_pos hleft] using hdue
    · simp only [fdcTickDrq, if_pos hd, if_neg hleft]
      exact ⟨lost, modified, id, ptr, idx, rfl, hptr, hidx⟩
  · simp only [fdcTickDrq, if_neg hd]
    exact ⟨lost, modified, id, ptr, idx, rfl, hptr, hidx⟩

theorem fdcTickLost_like (h : FdcLike a b) (cycles : BitVec 32) :
    FdcLike (fdcTickLost a cycles) (fdcTickLost b cycles) := by
  obtain ⟨lost, modified, id, ptr, idx, rfl, hptr, hidx⟩ := h
  unfold fdcTickLost
  dsimp only
  split_ifs <;> exact ⟨_, modified, id, ptr, idx, rfl, hptr, hidx⟩

theorem fdcTickStream_like (h : FdcLike a b) (cycles : BitVec 32) :
    FdcLike (fdcTickStream a cycles) (fdcTickStream b cycles) := by
  have hlost := fdcTickLost_like h cycles
  have hstreamed := h.streamed
  obtain ⟨lost, modified, id, ptr, idx, rfl, hptr, hidx⟩ := h
  have hstop := fdcTickLost_like (a := { a with stream := false })
    ⟨lost, modified, id, ptr, idx, rfl, hptr, hidx⟩ cycles
  unfold fdcTickStream
  rw [hstreamed]
  dsimp only
  split_ifs with hs hst
  · have htwin : FdcTwin { a with streamDue := cInt (a.streamDue - cycles.toInt) } _ :=
      FdcLike.twin_of_streamed ⟨lost, modified, id, ptr, idx, rfl, hptr, hidx⟩ hst
    exact (fdcStreamLoop_twin fdcStreamFuel htwin).like
  · exact hstop
  · exact hlost

theorem fdcTicktock_like (h : FdcLike a b) (cycles : BitVec 32) :
    FdcLike (fdcTicktock a cycles) (fdcTicktock b cycles) := by
  obtain ⟨lost, modified, id, ptr, idx, rfl, hptr, hidx⟩ := h
  refine fdcTickStream_like (fdcTickDrq_like (fdcTickInt_like ?_ cycles) cycles) cycles
  exact ⟨lost, modified, id, ptr, idx, rfl, hptr, hidx⟩

/-! ## The data register -/

theorem fdcNextSector_twin (h : FdcTwin a b) : FdcTwin (fdcNextSector a) (fdcNextSector b) := by
  obtain ⟨hop, lost, modified, id, idx, rfl⟩ := h
  unfold fdcNextSector Fdc.lookup
  simp only [fdcFindSector_eq]
  generalize fdcFind _ _ _ _ _ _ _ _ = found
  cases found with
  | some p => exact ⟨hop, lost, modified, _, idx, rfl⟩
  | none => exact ⟨nofun, lost, modified, _, idx, rfl⟩

theorem fdcByteServed_twin (h : FdcTwin a b) : FdcTwin (fdcByteServed a) (fdcByteServed b) := by
  have hclr : FdcTwin (fdcClrDrq a) (fdcClrDrq b) := by
    obtain ⟨hop, lost, modified, id, idx, rfl⟩ := h
    exact ⟨hop, lost, modified, id, idx, rfl⟩
  have hnext := fdcNextSector_twin hclr
  obtain ⟨hop, lost, modified, id, idx, rfl⟩ := h
  unfold fdcByteServed
  dsimp only [fdcClrDrq, Fdc.signal] at hnext ⊢
  split_ifs
  · exact hnext
  · exact ⟨nofun, lost, modified, id, idx, rfl⟩
  · exact ⟨hop, lost, modified, id, idx, rfl⟩

/-- The byte read, from the start of a sector or not. -/
theorem fdcReadNext_twin (h : FdcTwin a b) (secType : Byte) :
    FdcTwin (fdcByteServed { a with
        secType := secType, data := a.sectorByte, curOffset := a.curOffset + 1#16 })
      (fdcByteServed { b with
        secType := secType, data := b.sectorByte, curOffset := b.curOffset + 1#16 }) := by
  obtain ⟨hop, lost, modified, id, idx, rfl⟩ := h
  exact fdcByteServed_twin ⟨hop, lost, modified, id, idx, rfl⟩

theorem fdcReadSectorByte_twin (h : FdcTwin a b) :
    FdcTwin (fdcReadSectorByte a) (fdcReadSectorByte b) := by
  have hfirst := fdcReadNext_twin h 0
  have hnext := fdcReadNext_twin h a.secType
  obtain ⟨hop, lost, modified, id, idx, rfl⟩ := h
  unfold fdcReadSectorByte
  dsimp only
  split
  · exact ⟨nofun, lost, modified, id, idx, rfl⟩
  · split_ifs
    · exact ⟨hop, lost, modified, id, idx, rfl⟩
    · exact hfirst
    · exact hnext

theorem fdcWriteSectorByte_twin (h : FdcTwin a b) (value : Byte) :
    FdcTwin (fdcWriteSectorByte a value) (fdcWriteSectorByte b value) := by
  have hnext := fdcByteServed_twin (fdcStoreNext_twin h value)
  obtain ⟨hop, lost, modified, id, idx, rfl⟩ := h
  unfold fdcWriteSectorByte
  dsimp only
  split
  · exact ⟨nofun, lost, modified, id, idx, rfl⟩
  · split_ifs
    · exact ⟨hop, lost, modified, id, idx, rfl⟩
    · exact hnext

theorem fdcReadAddressByte_twin (h : FdcTwin a b) :
    FdcTwin (fdcReadAddressByte a) (fdcReadAddressByte b) := by
  have hid : FdcTwin (fdcClrDrq (fdcIdByte a)) (fdcClrDrq (fdcIdByte b)) := by
    obtain ⟨hop, lost, modified, id, idx, rfl⟩ := h
    cases a
    simp only [fdcIdByte]
    split <;> exact ⟨hop, lost, modified, id, idx, rfl⟩
  unfold fdcReadAddressByte
  generalize fdcClrDrq (fdcIdByte a) = f at hid
  generalize fdcClrDrq (fdcIdByte b) = g at hid
  obtain ⟨hop, lost, modified, id, idx, rfl⟩ := hid
  dsimp only
  split_ifs
  · exact ⟨nofun, lost, modified, id, idx, rfl⟩
  · exact ⟨hop, lost, modified, id, idx, rfl⟩

theorem FdcLike.currentop (h : FdcLike a b) : b.currentop = a.currentop := by
  obtain ⟨lost, modified, id, ptr, idx, rfl, -, -⟩ := h
  rfl

/-- A sector transfer. -/
theorem FdcLike.twin_of_sector (h : FdcLike a b) (hop : a.currentop.isSector = true) :
    FdcTwin a b :=
  h.twin (sectorLive_of_isSector hop) (ne_writeTrack_of_isSector hop)

theorem fdcReadData_like (h : FdcLike a b) : FdcLike (fdcReadData a) (fdcReadData b) := by
  unfold fdcReadData
  rw [h.currentop]
  split
  case h_1 hop => exact (fdcReadSectorByte_twin (h.twin_of_sector (by rw [hop]; rfl))).like
  case h_2 hop => exact (fdcReadSectorByte_twin (h.twin_of_sector (by rw [hop]; rfl))).like
  case h_3 hop =>
    have hlive : a.sectorLive = true := by simp [Fdc.sectorLive, hop]
    exact (fdcReadAddressByte_twin (h.twin hlive (by rw [hop]; rintro ⟨⟩))).like
  case h_4 => exact h

/-- A data field byte: the same store whatever else differs. -/
theorem fdcFieldStore_frame (a : Fdc) (value : Byte) :
    ∃ heap, ∀ lost modified id idx,
      (if a.curOffset < a.wtDataLen then ({ a with
          lostDataCount := lost, diskModified := modified, curSectorId := id
          wtFieldIdx := idx } : Fdc).storeByte value
        else { a with
          lostDataCount := lost, diskModified := modified, curSectorId := id
          wtFieldIdx := idx }) =
        { a with
          lostDataCount := lost, diskModified := modified, curSectorId := id
          wtFieldIdx := idx, heap := heap } := by
  unfold Fdc.storeByte
  dsimp only
  split
  · split
    · exact ⟨_, fun _ _ _ _ => rfl⟩
    · exact ⟨_, fun _ _ _ _ => rfl⟩
  · exact ⟨_, fun _ _ _ _ => rfl⟩

theorem not_sectorLive {P : Prop} (hlive : a.sectorLive = true) (hop : a.currentop = .writeTrack)
    (hst : a.wtState ≠ .dataField) : P := by
  simp [Fdc.sectorLive, FdcOp.isSector, hop, hst] at hlive

/-- A byte of a format. The pointer is the data field's, the index the ID field's. -/
theorem fdcWtParse_like (h : FdcLike a b) (hop : a.currentop = .writeTrack) (value : Byte) :
    FdcLike (fdcWtParse a value) (fdcWtParse b value) := by
  have hsame := h
  obtain ⟨lost, modified, id, ptr, idx, rfl, hptr, hidx⟩ := h
  unfold fdcWtParse
  dsimp only
  split
  case h_1 hst =>
    split_ifs
    · exact ⟨lost, modified, id, ptr, 0, rfl, fun hlive => not_sectorLive hlive hop (by rintro ⟨⟩),
        fun _ _ => rfl⟩
    · exact ⟨lost, modified, _, _, idx, rfl, fun _ => rfl, by rintro - ⟨⟩⟩
    · exact hsame
  case h_2 hst =>
    obtain rfl := hidx hop hst
    refine ⟨lost, modified, id, ptr, _, rfl, fun hlive => not_sectorLive hlive hop ?_,
      fun _ _ => rfl⟩
    dsimp only
    split_ifs <;> rintro ⟨⟩
  case h_3 hst =>
    have hlive : a.sectorLive = true := by simp [Fdc.sectorLive, hop, hst]
    obtain rfl := hptr hlive
    obtain ⟨heap, hstore⟩ := fdcFieldStore_frame a value
    have ha := hstore a.lostDataCount a.diskModified a.curSectorId a.wtFieldIdx
    have hb := hstore lost modified id idx
    rw [ha, hb]
    dsimp only
    split_ifs
    · exact ⟨lost, modified, id, _, idx, rfl, fun _ => rfl, by rintro - ⟨⟩⟩
    · exact ⟨lost, modified, id, _, idx, rfl, fun _ => rfl, by rintro - ⟨⟩⟩
    · exact ⟨lost, modified, id, _, idx, rfl, fun _ => rfl, fun _ hid => by simp [hst] at hid⟩
  case h_4 hst => exact hsame

/-- The end of a format, or the next byte of it. -/
theorem fdcFormatServed_like (h : FdcLike a b) :
    FdcLike
      (if a.sectorsPerTrack > 0#8 && a.wtSectorsDone ≥ a.sectorsPerTrack then
          fdcEndCommand a 32 0#8
        else { a with delayedDrq := 32 })
      (if b.sectorsPerTrack > 0#8 && b.wtSectorsDone ≥ b.sectorsPerTrack then
          fdcEndCommand b 32 0#8
        else { b with delayedDrq := 32 }) := by
  obtain ⟨lost, modified, id, ptr, idx, rfl, hptr, hidx⟩ := h
  dsimp only
  split_ifs
  · exact FdcAlmost.like_of_none ⟨lost, modified, id, ptr, idx, rfl⟩ rfl
  · exact ⟨lost, modified, id, ptr, idx, rfl, hptr, hidx⟩

theorem fdcWriteTrackByte_like (h : FdcLike a b) (hop : a.currentop = .writeTrack)
    (value : Byte) : FdcLike (fdcWriteTrackByte a value) (fdcWriteTrackByte b value) := by
  have hmodified : FdcLike { a with diskModified := true } { b with diskModified := true } := by
    obtain ⟨lost, modified, id, ptr, idx, rfl, hptr, hidx⟩ := h
    exact ⟨lost, true, id, ptr, idx, rfl, hptr, hidx⟩
  have hparse := fdcWtParse_like hmodified hop value
  refine fdcFormatServed_like (a := fdcClrDrq _) (b := fdcClrDrq _) ?_
  obtain ⟨lost, modified, id, ptr, idx, heq, hptr, hidx⟩ := hparse
  rw [heq]
  exact ⟨lost, modified, id, ptr, idx, rfl, hptr, hidx⟩

/-- `fdcWriteData` once the data register has the byte. -/
def fdcByteWritten (fdc : Fdc) (value : Byte) : Fdc :=
  match fdc.currentop with
  | .writeSector | .writeSectors => fdcWriteSectorByte fdc value
  | .writeTrack => fdcWriteTrackByte fdc value
  | _ => fdc

theorem fdcByteWritten_like (h : FdcLike a b) (value : Byte) :
    FdcLike (fdcByteWritten a value) (fdcByteWritten b value) := by
  unfold fdcByteWritten
  rw [h.currentop]
  split
  case h_1 hop => exact (fdcWriteSectorByte_twin (h.twin_of_sector (by rw [hop]; rfl)) value).like
  case h_2 hop => exact (fdcWriteSectorByte_twin (h.twin_of_sector (by rw [hop]; rfl)) value).like
  case h_3 hop => exact fdcWriteTrackByte_like h hop value
  case h_4 => exact h

theorem fdcWriteData_like (h : FdcLike a b) (value : Byte) :
    FdcLike (fdcWriteData a value) (fdcWriteData b value) := by
  refine fdcByteWritten_like (a := { a with data := value }) (b := { b with data := value })
    ?_ value
  obtain ⟨lost, modified, id, ptr, idx, rfl, hptr, hidx⟩ := h
  exact ⟨lost, modified, id, ptr, idx, rfl, hptr, hidx⟩

/-! ## Answers -/

theorem fdcWrite_like (h : FdcLike a b) (reg value : Byte) :
    FdcLike (fdcWrite a reg value) (fdcWrite b reg value) := by
  unfold fdcWrite
  cases fdcReg reg with
  | command => exact fdcWriteCommand_like h.almost value
  | track =>
    obtain ⟨lost, modified, id, ptr, idx, rfl, hptr, hidx⟩ := h
    exact ⟨lost, modified, id, ptr, idx, rfl, hptr, hidx⟩
  | sector =>
    obtain ⟨lost, modified, id, ptr, idx, rfl, hptr, hidx⟩ := h
    exact ⟨lost, modified, id, ptr, idx, rfl, hptr, hidx⟩
  | data => exact fdcWriteData_like h value

/-- A read returns the same byte. -/
theorem fdcRead_like (h : FdcLike a b) (reg : Byte) :
    (fdcRead a reg).1 = (fdcRead b reg).1 ∧ FdcLike (fdcRead a reg).2 (fdcRead b reg).2 := by
  have hdata := fdcReadData_like h
  unfold fdcRead
  cases fdcReg reg with
  | command =>
    obtain ⟨lost, modified, id, ptr, idx, rfl, hptr, hidx⟩ := h
    exact ⟨rfl, lost, modified, id, ptr, idx, rfl, hptr, hidx⟩
  | track =>
    refine ⟨?_, h⟩
    obtain ⟨lost, modified, id, ptr, idx, rfl, -, -⟩ := h
    rfl
  | sector =>
    refine ⟨?_, h⟩
    obtain ⟨lost, modified, id, ptr, idx, rfl, -, -⟩ := h
    rfl
  | data =>
    refine ⟨?_, hdata⟩
    obtain ⟨lost, modified, id, ptr, idx, heq, -, -⟩ := hdata
    show (fdcReadData a).data = (fdcReadData b).data
    rw [heq]

/-- What an access shows: the byte a read returns, the callbacks called, last first, and the image
buffers after it. -/
structure FdcAnswer where
  byte : Option Byte
  signals : List FdcSignal
  heap : Heap Ptr Byte

/-- The byte a read returns. -/
def fdcByteRead (fdc : Fdc) : FdcAccess → Option Byte
  | .read reg => some (fdcRead fdc reg).1
  | _ => none

/-- An access, from a state whose callbacks have been heard. -/
def fdcAnswer (fdc : Fdc) (a : FdcAccess) : FdcAnswer × Fdc :=
  let fdc := { fdc with signals := [] }
  (⟨fdcByteRead fdc a, (fdcAccess fdc a).signals, (fdcAccess fdc a).heap⟩, fdcAccess fdc a)

/-- What a run of accesses shows. -/
def fdcAnswers (accesses : List FdcAccess) (fdc : Fdc) : List FdcAnswer :=
  (Machine.runOut fdcAnswer accesses fdc).1

theorem fdcByteRead_like (h : FdcLike a b) (access : FdcAccess) :
    fdcByteRead a access = fdcByteRead b access := by
  cases access with
  | write reg value => rfl
  | read reg => exact congrArg some (fdcRead_like h reg).1
  | ticktock cycles => rfl

theorem fdcAccess_like (h : FdcLike a b) (access : FdcAccess) :
    FdcLike (fdcAccess a access) (fdcAccess b access) := by
  cases access with
  | write reg value => exact fdcWrite_like h reg value
  | read reg => exact (fdcRead_like h reg).2
  | ticktock cycles => exact fdcTicktock_like h cycles

/-- Alike when the callbacks have been heard. -/
def FdcHeard (a b : Fdc) : Prop := FdcLike { a with signals := [] } { b with signals := [] }

theorem FdcLike.shown (h : FdcLike a b) :
    a.signals = b.signals ∧ a.heap = b.heap ∧ FdcHeard a b := by
  obtain ⟨lost, modified, id, ptr, idx, rfl, hptr, hidx⟩ := h
  exact ⟨rfl, rfl, lost, modified, id, ptr, idx, rfl, hptr, hidx⟩

theorem fdcAnswer_like (h : FdcHeard a b) (access : FdcAccess) :
    (fdcAnswer a access).1 = (fdcAnswer b access).1 ∧
      FdcHeard (fdcAnswer a access).2 (fdcAnswer b access).2 := by
  have hbyte := fdcByteRead_like h access
  obtain ⟨hsignals, hheap, hheard⟩ := (fdcAccess_like h access).shown
  simp only [fdcAnswer]
  rw [hbyte, hsignals, hheap]
  exact ⟨rfl, hheard⟩

theorem FdcHeard.answers (h : FdcHeard a b) (accesses : List FdcAccess) :
    fdcAnswers accesses a = fdcAnswers accesses b :=
  (Machine.runOut_simulation (R := FdcHeard)
    (fun a b access hab => fdcAnswer_like (a := a) (b := b) hab access) accesses a b h).1

/-! ## Resuming -/

/-- The same medium, mode and buffers. -/
structure FdcSameMedia (saved target : Fdc) : Prop where
  diskData : target.diskData = saved.diskData
  diskSize : target.diskSize = saved.diskSize
  tracks : target.tracks = saved.tracks
  sectorsPerTrack : target.sectorsPerTrack = saved.sectorsPerTrack
  writeProtected : target.writeProtected = saved.writeProtected
  bad : target.bad = saved.bad
  timingMode : target.timingMode = saved.timingMode
  heap : target.heap = saved.heap

theorem wtFieldIdx_and {idx : Byte} (h : idx < 4#8) : idx &&& 3#8 = idx := by
  revert idx
  decide

/-- Resuming looks the pointer up where it was found. -/
theorem fdcStateResume_heard {saved : Fdc} (h : FdcKept True saved) (lost : BitVec 32)
    (modified : Bool) (id : Byte) (ptr : Option Ptr) (signals : List FdcSignal) :
    FdcHeard saved (fdcStateResume { saved with
      lostDataCount := lost, diskModified := modified, curSectorId := id, curSectorData := ptr
      wtFieldIdx := saved.wtFieldIdx &&& 3#8, signals := signals }) := by
  have hidx : saved.currentop = .writeTrack → saved.wtState = .idField →
      saved.wtFieldIdx &&& 3#8 = saved.wtFieldIdx := fun _ hid => wtFieldIdx_and (h.wtFieldIdx hid)
  have hsector : saved.currentop.isSector = true →
      fdcFindSector saved saved.sector = saved.curSectorData := fun hop =>
    (h.sector trivial hop).symm
  unfold fdcStateResume
  dsimp only
  split
  case h_1 hop => exact ⟨lost, modified, _, _, _, rfl, fun _ => hsector (by rw [hop]; rfl), hidx⟩
  case h_2 hop => exact ⟨lost, modified, _, _, _, rfl, fun _ => hsector (by rw [hop]; rfl), hidx⟩
  case h_3 hop => exact ⟨lost, modified, _, _, _, rfl, fun _ => hsector (by rw [hop]; rfl), hidx⟩
  case h_4 hop => exact ⟨lost, modified, _, _, _, rfl, fun _ => hsector (by rw [hop]; rfl), hidx⟩
  case h_5 hop =>
    exact ⟨lost, modified, _, _, _, rfl, fun _ => (h.address trivial hop).symm, hidx⟩
  case h_6 hop =>
    split_ifs with hst
    · exact ⟨lost, modified, _, _, _, rfl, fun _ => (h.field trivial hop hst).symm, hidx⟩
    · exact ⟨lost, modified, _, _, _, rfl, fun hlive => not_sectorLive hlive hop hst, hidx⟩
  case h_7 hread haddr hw =>
    refine ⟨lost, modified, _, _, _, rfl, fun hlive => ?_, hidx⟩
    simp_all [Fdc.sectorLive, FdcOp.isSector]

theorem fdcRestore_heard {saved target : Fdc} (h : FdcKept True saved)
    (hmedia : FdcSameMedia saved target) : FdcHeard saved (fdcRestore saved target) := by
  unfold fdcRestore
  rw [fdcStateLoad_save h.toFdcInts, hmedia.diskData, hmedia.diskSize, hmedia.tracks,
    hmedia.sectorsPerTrack, hmedia.writeProtected, hmedia.bad, hmedia.timingMode, hmedia.heap]
  exact fdcStateResume_heard h ..

/-- A run to a state without a sector in progress, then one that keeps its sectors: the state it
ends in, saved and resumed with the same medium, answers every run of accesses the same way. -/
theorem fdcResume_answers {start : Fdc} (hstart : FdcStart start) (before after : List FdcInput)
    (hdead : (before.foldl fdcInput start).sectorLive = false)
    (hok : Machine.Throughout fdcInput FdcKeepsSector after (before.foldl fdcInput start))
    (target : Fdc)
    (hmedia : FdcSameMedia (after.foldl fdcInput (before.foldl fdcInput start)) target)
    (accesses : List FdcAccess) :
    fdcAnswers accesses (fdcRestore (after.foldl fdcInput (before.foldl fdcInput start)) target) =
      fdcAnswers accesses (after.foldl fdcInput (before.foldl fdcInput start)) := by
  have hkept := (fdcRun_resumable hstart before after hdead hok).kept
  exact ((fdcRestore_heard hkept hmedia).answers accesses).symm

/-- A controller for a track of two sectors, of ones and of twos. -/
def fdcTwoSectors : Fdc := fdcInit ⟨fun p => if p.off < 256 then 1 else 2, []⟩

/-- The track, and a Read Sector that reaches its first byte. -/
def fdcReadingFirst : List FdcInput :=
  [.setDisk (some 0) 512 1 2, .access (.write 2 1), .access (.write 0 0x80),
    .access (.ticktock 60)]

theorem fdcResume_answers_reading :
    fdcAnswers [.read 3] (fdcRestore (fdcReadingFirst.foldl fdcInput fdcTwoSectors)
        (fdcInput fdcTwoSectors (.setDisk (some 0) 512 1 2))) =
      fdcAnswers [.read 3] (fdcReadingFirst.foldl fdcInput fdcTwoSectors) := by
  have hstart : FdcStart fdcTwoSectors := ⟨_, _, rfl⟩
  have hmedia : FdcSameMedia (fdcReadingFirst.foldl fdcInput fdcTwoSectors)
      (fdcInput fdcTwoSectors (.setDisk (some 0) 512 1 2)) :=
    ⟨rfl, rfl, rfl, rfl, rfl, rfl, rfl, rfl⟩
  exact fdcResume_answers hstart [] fdcReadingFirst (by decide) (by decide) _ hmedia _

/-- The sector register gets the next sector's number while the first is read: the resumed
controller reads the next. -/
theorem fdcResume_answers_moved :
    ¬∀ (start : Fdc) (inputs : List FdcInput) (target : Fdc) (accesses : List FdcAccess),
      FdcStart start → (inputs.foldl fdcInput start).diskData.isSome = true →
      FdcSameMedia (inputs.foldl fdcInput start) target →
      fdcAnswers accesses (fdcRestore (inputs.foldl fdcInput start) target) =
        fdcAnswers accesses (inputs.foldl fdcInput start) := by
  intro hall
  have hstart : FdcStart fdcTwoSectors := ⟨_, _, rfl⟩
  have hmedia : FdcSameMedia
      ((fdcReadingFirst ++ [FdcInput.access (.write 2 2)]).foldl fdcInput fdcTwoSectors)
      (fdcInput fdcTwoSectors (.setDisk (some 0) 512 1 2)) :=
    ⟨rfl, rfl, rfl, rfl, rfl, rfl, rfl, rfl⟩
  have hsame := hall fdcTwoSectors (fdcReadingFirst ++ [FdcInput.access (.write 2 2)]) _
    [.read 3] hstart
    (by decide) hmedia
  exact absurd (congrArg (List.map FdcAnswer.byte) hsame) (by decide)

end Phosphoric
