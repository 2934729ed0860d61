import Phosphoric.Fdc.Chip
import Phosphoric.Lib.Machine

/-!
# The controller's invariant

The operations on a running controller, and `FdcInv`, what all of them keep:

* a transfer has its sector, of 256 bytes, and is inside it;
* a delayed interrupt ends the command: the status it brings is not BUSY;
* a running stream is a sector transfer's, or one a Force Interrupt cut short;
* a busy controller waits for something (`FdcPending`), unless it is in Read Track.

The last clause fails after a Step-out with the head at track 0 (`FdcBlindStepOut`), and the
others do not, so it is under a flag: `FdcInv True` is kept without such a Step-out, `FdcInv
False` by every run.

Each function has one lemma. A command does not care what was in progress and starts from
`FdcBase`; a data access and a tick start from `FdcInv`. The stream's loop is an induction over
its steps (`fdcStreamStep_next`), which also shows that its fuel is enough.
-/

namespace Phosphoric

/-! ## Operations -/

/-- What the host and the machine around it do to the controller while it runs. -/
inductive FdcAccess
  | write (reg value : Byte)
  | read (reg : Byte)
  | ticktock (cycles : BitVec 32)

def fdcAccess (fdc : Fdc) : FdcAccess → Fdc
  | .write reg value => fdcWrite fdc reg value
  | .read reg => (fdcRead fdc reg).2
  | .ticktock cycles => fdcTicktock fdc cycles

/-- Accesses, and changes of side, of media, of the tab and of the damage. -/
inductive FdcInput
  | access (a : FdcAccess)
  | setSide (side : Byte)
  | setDisk (data : Option Nat) (size : Nat) (tracks sectorsPerTrack : Byte)
  | setWriteProtect (protect : Bool)
  | setBadMap (map : Option FdcBadMap)

def fdcInput (fdc : Fdc) : FdcInput → Fdc
  | .access a => fdcAccess fdc a
  | .setSide side => { fdc with side := side }
  | .setDisk data size tracks sectorsPerTrack =>
    { fdcSetDisk fdc data size with tracks := tracks, sectorsPerTrack := sectorsPerTrack }
  | .setWriteProtect protect => fdcSetWriteProtect fdc protect
  | .setBadMap map => fdcSetBadMap fdc map

/-- A controller just initialised, in either timing mode. -/
def FdcStart (fdc : Fdc) : Prop :=
  ∃ heap mode, fdc = { fdcInit heap with timingMode := mode }

/-! ## Status bits -/

/-- `status & FDC_ST_BUSY`. -/
def Fdc.busy (fdc : Fdc) : Bool := fdc.status.getLsbD 0

/-- `status & FDC_ST_DRQ`. -/
def Fdc.drq (fdc : Fdc) : Bool := fdc.status.getLsbD 1

/-! ## The invariant -/

def FdcOp.isSector (op : FdcOp) : Bool :=
  op == .readSector || op == .readSectors || op == .writeSector || op == .writeSectors

/-- The operations whose FDC_DATA accesses advance them. -/
def FdcOp.isServed (op : FdcOp) : Bool :=
  op.isSector || op == .readAddress || op == .writeTrack

/-- What holds whatever the operation in progress. -/
structure FdcBase (fdc : Fdc) : Prop where
  ddStatus : fdc.ddStatus = none
  secType : fdc.secType = 0#8
  rotPos : fdc.rotPos < fdcRevCycles
  /-- The delayed interrupt ends the command. -/
  diStatus : 0 < fdc.delayedInt → ∃ st, fdc.diStatus = some st ∧ st.getLsbD 0 = false
  stream : fdc.stream = true → fdc.timingMode = .real

/-- What a busy controller waits for. -/
def FdcPending (fdc : Fdc) : Prop :=
  0 < fdc.delayedInt ∨
    (fdc.currentop.isServed = true ∧
      (0 < fdc.delayedDrq ∨ (fdc.drq = true ∧ fdc.stream = false))) ∨
    (fdc.stream = true ∧ fdcStreamed fdc = true)

/-- The invariant of every run. `live` says that the run is one where a busy controller has to be
waiting for something. -/
structure FdcInv (live : Prop) (fdc : Fdc) : Prop extends FdcBase fdc where
  sector : fdc.currentop.isSector = true → fdc.curSectorData.isSome ∧ fdc.curSectorLen = 256#16
  address : fdc.currentop = .readAddress → fdc.curSectorData.isSome ∧ fdc.curOffset < 6#16
  /-- The stream is a sector's, or one a Force Interrupt cut short. -/
  streamOp : fdc.stream = true → fdc.currentop.isSector = true ∨ fdc.currentop = .none
  /-- A transfer is inside its sector, or the stream is past its last byte. -/
  offset : fdc.currentop.isSector = true → fdc.curOffset < 256#16 ∨
    (fdc.stream = true ∧ fdc.curOffset = 256#16 ∧
      (fdc.streamCrc = true ∨ fdcOpIsWrite fdc.currentop = false))
  busy : live → fdc.busy = true → fdc.currentop = .readTrack ∨ FdcPending fdc

variable {live : Prop}

theorem FdcBase.inv_of_op {fdc : Fdc} (h : FdcBase fdc) (op : FdcOp) (hop : fdc.currentop = op)
    (hsector : op.isSector = false)
    (haddress : op = .readAddress → fdc.curSectorData.isSome ∧ fdc.curOffset < 6#16)
    (hstream : fdc.stream = true → op = .none)
    (hbusy : live → fdc.busy = true → op = .readTrack ∨ FdcPending fdc) : FdcInv live fdc := by
  subst hop
  exact { h with
    sector := by simp [hsector]
    address := haddress
    offset := by simp [hsector]
    streamOp := fun hs => .inr (hstream hs)
    busy := hbusy }

theorem FdcBase.inv_of_none {fdc : Fdc} (h : FdcBase fdc) (hop : fdc.currentop = .none)
    (hb : live → fdc.busy = true → 0 < fdc.delayedInt) : FdcInv live fdc :=
  h.inv_of_op .none hop rfl nofun (fun _ => rfl) fun hlive hbusy => .inr (.inl (hb hlive hbusy))

theorem FdcBase.inv_of_idle {fdc : Fdc} (h : FdcBase fdc) (hop : fdc.currentop = .none)
    (st : Byte) (hst : fdc.status = st) (hb : st.getLsbD 0 = false) : FdcInv live fdc := by
  refine h.inv_of_none hop fun _ hbusy => ?_
  rw [Fdc.busy, hst, hb] at hbusy
  cases hbusy

/-- Between commands only the delayed interrupt keeps the controller busy. -/
theorem FdcBase.inv_of_ending {fdc : Fdc} (h : FdcBase fdc) (hop : fdc.currentop = .none)
    (hd : 0 < fdc.delayedInt) : FdcInv live fdc :=
  h.inv_of_none hop fun _ _ => hd

theorem fdcInit_inv {fdc : Fdc} (h : FdcStart fdc) : FdcInv live fdc := by
  obtain ⟨heap, mode, rfl⟩ := h
  refine FdcBase.inv_of_idle ⟨rfl, rfl, Nat.zero_lt_succ _, ?_, ?_⟩ rfl 0#8 rfl (by decide)
  · intro h; exact absurd h (Int.lt_irrefl 0)
  · intro h; cases h

/-! ## Commands -/

theorem fdcRotWait_pos (fdc : Fdc) (secId : Byte) : 0 < fdcRotWait fdc secId := by
  unfold fdcRotWait
  dsimp only
  split <;> omega

theorem fdcStepRateMs_pos (r : Byte) : 0 < fdcStepRateMs r := by
  unfold fdcStepRateMs
  split_ifs <;> decide

theorem fdcSeekSteps_pos (fdc : Fdc) (target : Byte) : 0 < fdcSeekSteps fdc target := by
  unfold fdcSeekSteps
  dsimp only
  split_ifs <;> bv_omega

theorem fdcSeekCycles_pos (fdc : Fdc) (target cmd : Byte) : 0 < fdcSeekCycles fdc target cmd := by
  have hpos := Int.mul_pos (fdcSeekSteps_pos fdc target) (fdcStepRateMs_pos (cmd &&& 3#8))
  unfold fdcSeekCycles fdcSettleCycles
  cases fdc.timingMode with
  | fast => exact Int.natCast_pos.mpr (Nat.zero_lt_succ 19)
  | real => dsimp only; split_ifs <;> omega

theorem fdcSeekTarget_not_busy (fdc : Fdc) (target : Byte) :
    (fdcSeekTarget fdc target).2.getLsbD 0 = false := by
  unfold fdcSeekTarget
  split_ifs <;> dsimp only <;> decide

/-- A seek schedules its end, or has ended. -/
theorem fdcSeekTrack_inv {fdc : Fdc} (h : FdcBase fdc) (target cmd : Byte) (update : Bool) :
    FdcInv live { fdcSeekTrack fdc target cmd update with currentop := .none } := by
  unfold fdcSeekTrack
  cases fdc.diskData with
  | none =>
    exact FdcBase.inv_of_idle { h with } rfl (fdcStNotReady ||| fdcStiSeekErr) rfl (by decide)
  | some buf =>
    refine FdcBase.inv_of_ending { h with diStatus := fun _ => ⟨_, rfl, ?_⟩ } rfl
      (fdcSeekCycles_pos ..)
    have hst := fdcSeekTarget_not_busy fdc target
    split_ifs
    · rw [BitVec.getLsbD_or, hst]; decide
    · exact hst

theorem fdcTypeI_base {fdc : Fdc} (h : FdcBase fdc) (value : Byte) :
    FdcBase (fdcTypeI fdc value) := { h with }

theorem fdcRecordNotFound_inv {fdc : Fdc} (h : FdcBase fdc) :
    FdcInv live (fdcRecordNotFound fdc) := by
  unfold fdcRecordNotFound
  dsimp only
  split
  · exact FdcBase.inv_of_ending { h with diStatus := fun _ => ⟨fdcStNotFound, rfl, by decide⟩ } rfl
      (by decide : 0 < fdcRnfCycles)
  · exact FdcBase.inv_of_idle { h with } rfl fdcStNotFound rfl (by decide)

theorem fdcRefuse_inv {fdc : Fdc} (h : FdcBase fdc) {st : Byte} (hst : st.getLsbD 0 = false) :
    FdcInv live (fdcRefuse fdc st) :=
  FdcBase.inv_of_idle { h with } rfl st rfl hst

theorem fdcNotReady_inv {fdc : Fdc} {command : Fdc → Fdc} (h : FdcBase fdc)
    (hc : FdcInv live (command fdc)) : FdcInv live (fdcNotReady fdc command) := by
  unfold fdcNotReady
  split
  · exact hc
  · exact fdcRefuse_inv h (by decide)

theorem fdcWriteProtected_inv {fdc : Fdc} {command : Fdc → Fdc} (h : FdcBase fdc)
    (hc : FdcInv live (command fdc)) : FdcInv live (fdcWriteProtected fdc command) := by
  unfold fdcWriteProtected
  split
  · exact fdcRefuse_inv h (by decide)
  · exact hc

/-- A served operation waiting for its DRQ. -/
theorem FdcPending.of_drq_scheduled {fdc : Fdc} (hop : fdc.currentop.isServed = true)
    (hd : 0 < fdc.delayedDrq) : FdcPending fdc :=
  .inr (.inl ⟨hop, .inl hd⟩)

theorem FdcOp.isServed_of_isSector {op : FdcOp} (h : op.isSector = true) : op.isServed = true := by
  simp [FdcOp.isServed, h]

theorem FdcOp.ne_readAddress_of_isSector {op : FdcOp} (h : op.isSector = true) :
    op ≠ .readAddress := by
  rintro rfl
  cases h

/-- The first DRQ is scheduled, and the sector is there. -/
theorem fdcSectorCommand_inv {fdc : Fdc} (h : FdcBase fdc) (value : Byte) {delay : Int}
    {single multiple : FdcOp} (hdelay : 0 < delay) (hs : single.isSector = true)
    (hm : multiple.isSector = true) :
    FdcInv live (fdcSectorCommand value delay single multiple fdc) := by
  have h₀ : FdcBase ({ fdc with curOffset := 0 }.lookup fdc.sector) := { h with }
  have hoff : ({ fdc with curOffset := 0 }.lookup fdc.sector).curOffset = 0 := rfl
  unfold fdcSectorCommand
  dsimp only
  generalize ({ fdc with curOffset := 0 } : Fdc).lookup fdc.sector = f at h₀ hoff
  cases hcur : f.curSectorData with
  | none => exact fdcRecordNotFound_inv h₀
  | some p =>
    have hop : (if (value &&& 0x10#8 != 0#8) = true then multiple else single).isSector = true := by
      split_ifs <;> assumption
    refine { h₀ with
      sector := fun _ => ⟨by simp, rfl⟩
      address := fun ha => absurd ha (FdcOp.ne_readAddress_of_isSector hop)
      offset := fun _ => .inl (by simp [hoff])
      streamOp := fun _ => .inl hop
      busy := fun _ _ => .inr (.of_drq_scheduled (FdcOp.isServed_of_isSector hop) ?_) }
    have hrot := fdcRotWait_pos f f.sector
    cases f.timingMode with
    | fast => exact hdelay
    | real => dsimp only [fdcSettleCycles]; split_ifs <;> omega

theorem fdcReadAddress_inv {fdc : Fdc} (h : FdcBase fdc) (hs : fdc.stream = false) :
    FdcInv live (fdcReadAddress fdc) := by
  have h₀ : FdcBase { fdc with statusType1 := false } := { h with }
  refine fdcNotReady_inv h₀ ?_
  have h₁ : FdcBase ({ fdc with statusType1 := false, curOffset := 0 }.lookup 1#8) := { h with }
  have hoff : ({ fdc with statusType1 := false, curOffset := 0 }.lookup 1#8).curOffset = 0 := rfl
  have hs₁ : ({ fdc with statusType1 := false, curOffset := 0 }.lookup 1#8).stream = false := hs
  dsimp only
  generalize ({ fdc with statusType1 := false, curOffset := 0 } : Fdc).lookup 1#8 = f
    at h₁ hoff hs₁
  cases hcur : f.curSectorData with
  | none => exact fdcRecordNotFound_inv h₁
  | some p =>
    have haddr : ∀ {P : Prop}, P → (some p).isSome = true ∧ f.curOffset < 6#16 :=
      fun _ => ⟨rfl, by simp [hoff]⟩
    have hstream : ∀ {P : Prop}, f.stream = true → P := fun hs => by simp [hs₁] at hs
    cases f.timingMode with
    | real =>
      exact FdcBase.inv_of_op { h₁ with stream := hstream } .readAddress rfl rfl haddr hstream
        fun _ _ => .inr (.of_drq_scheduled rfl (fdcRotWait_pos ..))
    | fast =>
      refine FdcBase.inv_of_op { h₁ with stream := hstream } .readAddress rfl rfl haddr hstream
        fun _ _ => .inr (.inr (.inl ⟨rfl, .inr ⟨?_, hs₁⟩⟩))
      exact (by decide : (fdcStNotReady ||| fdcStBusy ||| fdcStDrq).getLsbD 1 = true)

theorem fdcForceInterrupt_inv {fdc : Fdc} (h : FdcBase fdc) (value : Byte) :
    FdcInv live (fdcForceInterrupt fdc value) := by
  have hd : ∀ {P : Prop}, (0 : Int) < 0 → P := fun h => absurd h (Int.lt_irrefl 0)
  unfold fdcForceInterrupt
  dsimp only
  split_ifs <;>
    exact FdcBase.inv_of_idle { h with diStatus := hd } rfl 0#8 rfl (by decide)

theorem fdcReadTrack_inv {fdc : Fdc} (h : FdcBase fdc) (hs : fdc.stream = false) :
    FdcInv live (fdcReadTrack fdc) := by
  have hstream : ∀ {P : Prop}, fdc.stream = true → P := fun hs' => by simp [hs] at hs'
  have h₀ : FdcBase { fdc with statusType1 := false } := { h with }
  exact fdcNotReady_inv h₀
    (FdcBase.inv_of_op { h with } .readTrack rfl rfl nofun hstream fun _ _ => .inl rfl)

theorem fdcWriteTrack_inv {fdc : Fdc} (h : FdcBase fdc) (hs : fdc.stream = false) :
    FdcInv live (fdcWriteTrack fdc) := by
  have hstream : ∀ {P : Prop}, fdc.stream = true → P := fun hs' => by simp [hs] at hs'
  have h₀ : FdcBase { fdc with statusType1 := false } := { h with }
  refine fdcNotReady_inv h₀ (fdcWriteProtected_inv h₀ ?_)
  refine FdcBase.inv_of_op { h with diStatus := fun hd => absurd hd (Int.lt_irrefl 0) } .writeTrack
    rfl rfl nofun hstream fun _ _ => .inr (.of_drq_scheduled rfl ?_)
  have hrot := h.rotPos
  dsimp only [Fdc.signal]
  cases fdc.timingMode with
  | real => dsimp only; omega
  | fast => exact Int.natCast_pos.mpr (Nat.zero_lt_succ 499)

theorem fdcStepOut_inv {fdc : Fdc} (h : FdcBase fdc) (value : Byte)
    (hok : live → fdc.cTrack = 0#8 → 0 < fdc.delayedInt) : FdcInv live (fdcStepOut fdc value) := by
  have h₀ : FdcBase { fdcTypeI fdc value with direction := 1 } := { h with }
  unfold fdcStepOut
  dsimp only
  split_ifs with htrack
  · exact fdcSeekTrack_inv h₀ ..
  · have h₁ : FdcBase { fdcTypeI fdc value with direction := 1, currentop := .none } := { h with }
    refine h₁.inv_of_none rfl fun hl _ => hok hl ?_
    simpa [fdcTypeI] using htrack

theorem fdcStep_inv {fdc : Fdc} (h : FdcBase fdc) (value : Byte) :
    FdcInv live (fdcStep fdc value) := by
  unfold fdcStep
  dsimp only
  split
  · exact fdcSeekTrack_inv (fdcTypeI_base h value) ..
  · exact fdcSeekTrack_inv (fdcTypeI_base h value) ..

theorem fdcStepIn_inv {fdc : Fdc} (h : FdcBase fdc) (value : Byte) :
    FdcInv live (fdcStepIn fdc value) := by
  have h₀ : FdcBase { fdcTypeI fdc value with direction := 0 } := { h with }
  exact fdcSeekTrack_inv h₀ ..

theorem fdcBeginCommand_base {fdc : Fdc} (h : FdcBase fdc) (value : Byte) :
    FdcBase (fdcBeginCommand fdc value) := by
  unfold fdcBeginCommand
  dsimp only
  split_ifs
  · exact { h with stream := nofun }
  · exact { h with }

theorem fdcBeginCommand_stream (fdc : Fdc) {value : Byte}
    (hc : fdcCommand value ≠ .forceInterrupt) : (fdcBeginCommand fdc value).stream = false := by
  have hvalue : ∀ v : Byte, fdcCommand v ≠ .forceInterrupt → (v &&& 0xF0#8 != 0xD0#8) = true := by
    decide
  simp [fdcBeginCommand, hvalue value hc]

theorem fdcBeginCommand_frame (fdc : Fdc) (value : Byte) :
    (fdcBeginCommand fdc value).cTrack = fdc.cTrack ∧
      (fdcBeginCommand fdc value).delayedInt = fdc.delayedInt := by
  unfold fdcBeginCommand
  dsimp only
  split_ifs <;> exact ⟨rfl, rfl⟩

theorem fdcWriteCommand_inv {fdc : Fdc} (h : FdcBase fdc) (value : Byte)
    (hok : live → fdcCommand value = .stepOut → fdc.cTrack = 0#8 → 0 < fdc.delayedInt) :
    FdcInv live (fdcWriteCommand fdc value) := by
  have h₁ := fdcBeginCommand_base h value
  have h₂ : FdcBase { fdcBeginCommand fdc value with statusType1 := false } := { h₁ with }
  have hs : fdcCommand value ≠ .forceInterrupt → (fdcBeginCommand fdc value).stream = false :=
    fdcBeginCommand_stream fdc
  obtain ⟨htrack, hint⟩ := fdcBeginCommand_frame fdc value
  unfold fdcWriteCommand
  cases hc : fdcCommand value with
  | restoreSeek => exact fdcSeekTrack_inv (fdcTypeI_base h₁ value) ..
  | step => exact fdcStep_inv h₁ value
  | stepIn => exact fdcStepIn_inv h₁ value
  | stepOut => exact fdcStepOut_inv h₁ value fun hl h0 => hint ▸ hok hl hc (htrack ▸ h0)
  | readSector =>
    exact fdcNotReady_inv h₂ (fdcSectorCommand_inv h₂ value (by decide : (0 : Int) < 60) rfl rfl)
  | writeSector =>
    exact fdcNotReady_inv h₂ (fdcWriteProtected_inv h₂
      (fdcSectorCommand_inv h₂ value (by decide : (0 : Int) < 500) rfl rfl))
  | readAddress => exact fdcReadAddress_inv h₁ (hs (by simp [hc]))
  | forceInterrupt => exact fdcForceInterrupt_inv h₁ value
  | readTrack => exact fdcReadTrack_inv h₁ (hs (by simp [hc]))
  | writeTrack => exact fdcWriteTrack_inv h₁ (hs (by simp [hc]))

/-! ## Data accesses -/

@[simp] theorem fdcClrDrq_drq (fdc : Fdc) : (fdcClrDrq fdc).drq = false := by
  have hbit : ∀ st : Byte, (st &&& ~~~fdcStDrq).getLsbD 1 = false := by decide
  exact hbit fdc.status

@[simp] theorem fdcClrDrq_busy (fdc : Fdc) : (fdcClrDrq fdc).busy = fdc.busy := by
  have hbit : ∀ st : Byte, (st &&& ~~~fdcStDrq).getLsbD 0 = st.getLsbD 0 := by decide
  exact hbit fdc.status

theorem fdcClrDrq_base {fdc : Fdc} (h : FdcBase fdc) : FdcBase (fdcClrDrq fdc) := { h with }

/-- Servicing a DRQ does not stop the stream. -/
theorem fdcClrDrq_inv {fdc : Fdc} (h : FdcInv live fdc) (hs : fdc.stream = true) :
    FdcInv live (fdcClrDrq fdc) := by
  refine { h with busy := fun hl hb => ?_ }
  rw [fdcClrDrq_busy] at hb
  rcases h.busy hl hb with hr | hint | ⟨hop, hdrq | ⟨_, hns⟩⟩ | hst
  · exact .inl hr
  · exact .inr (.inl hint)
  · exact .inr (.of_drq_scheduled hop hdrq)
  · simp [hs] at hns
  · exact .inr (.inr (.inr hst))

/-- A command on its way to its interrupt. -/
theorem fdcEndCommand_inv {fdc : Fdc} (h : FdcBase fdc) {delay : Int} {st : Byte}
    (hd : 0 < delay) (hst : st.getLsbD 0 = false) : FdcInv live (fdcEndCommand fdc delay st) :=
  FdcBase.inv_of_ending { h with diStatus := fun _ => ⟨st, rfl, hst⟩ } rfl hd

theorem fdcClrDrq_endCommand_inv {fdc : Fdc} (h : FdcBase fdc) {delay : Int} {st : Byte}
    (hd : 0 < delay) (hst : st.getLsbD 0 = false) :
    FdcInv live (fdcClrDrq (fdcEndCommand fdc delay st)) :=
  FdcBase.inv_of_ending { h with diStatus := fun _ => ⟨st, rfl, hst⟩ } rfl hd

/-- A sector transfer whose next DRQ is scheduled. -/
theorem FdcBase.inv_of_waiting {fdc : Fdc} (h : FdcBase fdc) (hop : fdc.currentop.isSector = true)
    (hcur : fdc.curSectorData.isSome) (hlen : fdc.curSectorLen = 256#16)
    (hoff : fdc.curOffset < 256#16) (hd : 0 < fdc.delayedDrq) : FdcInv live fdc :=
  { h with
    sector := fun _ => ⟨hcur, hlen⟩
    address := fun ha => absurd ha (FdcOp.ne_readAddress_of_isSector hop)
    offset := fun _ => .inl hoff
    streamOp := fun _ => .inl hop
    busy := fun _ _ => .inr (.of_drq_scheduled (FdcOp.isServed_of_isSector hop) hd) }

theorem fdcNextSector_inv {fdc : Fdc} (h : FdcBase fdc) (hop : fdc.currentop.isSector = true)
    (hlen : fdc.curSectorLen = 256#16) : FdcInv live (fdcNextSector fdc) := by
  unfold fdcNextSector
  dsimp only
  have h₀ : FdcBase ({ fdc with sector := fdc.sector + 1#8, curOffset := 0 }.lookup
      (fdc.sector + 1#8)) := { h with }
  have hsec : fdc.secType = 0#8 := h.secType
  generalize hf : ({ fdc with sector := fdc.sector + 1#8, curOffset := 0 } : Fdc).lookup
    (fdc.sector + 1#8) = f at h₀
  have hop' : f.currentop.isSector = true := hf ▸ hop
  have hlen' : f.curSectorLen = 256#16 := hf ▸ hlen
  have hoff' : f.curOffset = 0 := hf ▸ rfl
  cases hcur : f.curSectorData with
  | some p =>
    refine FdcBase.inv_of_waiting { h₀ with } hop' (by simp) hlen' (by simp [hoff']) ?_
    cases f.timingMode with
    | real => exact fdcRotWait_pos ..
    | fast => exact Int.natCast_pos.mpr (Nat.zero_lt_succ 179)
  | none =>
    refine fdcClrDrq_endCommand_inv h₀ (by decide : (0 : Int) < 20) ?_
    rw [h₀.secType]
    decide

theorem fdcByteServed_inv {fdc : Fdc} (h : FdcBase fdc) (hop : fdc.currentop.isSector = true)
    (hcur : fdc.curSectorData.isSome) (hlen : fdc.curSectorLen = 256#16) :
    FdcInv live (fdcByteServed fdc) := by
  unfold fdcByteServed
  dsimp only
  split_ifs with hend hmulti
  · exact fdcNextSector_inv (fdcClrDrq_base h) hop hlen
  · refine fdcClrDrq_endCommand_inv (fdcClrDrq_base h) (by decide : (0 : Int) < 32) ?_
    rw [(fdcClrDrq_base h).secType]
    decide
  · refine FdcBase.inv_of_waiting { h with } hop hcur hlen ?_ (by decide : (0 : Int) < 32)
    have hend' : ¬fdc.curOffset ≥ fdc.curSectorLen := hend
    rw [hlen] at hend'
    exact BitVec.not_le.mp hend'

theorem fdcReadSectorByte_inv {fdc : Fdc} (h : FdcInv live fdc)
    (hop : fdc.currentop.isSector = true) :
    FdcInv live (fdcReadSectorByte fdc) := by
  obtain ⟨hcur, hlen⟩ := h.sector hop
  unfold fdcReadSectorByte
  cases hc : fdc.curSectorData with
  | none => simp [hc] at hcur
  | some p =>
    dsimp only
    split_ifs with hs h0
    · exact fdcClrDrq_inv h hs
    · exact fdcByteServed_inv { h.toFdcBase with secType := rfl } hop rfl hlen
    · exact fdcByteServed_inv { h.toFdcBase with } hop hcur hlen

theorem storeByte_frame (fdc : Fdc) (b : Byte) :
    ∃ heap, fdc.storeByte b = { fdc with heap := heap } := by
  unfold Fdc.storeByte
  split
  · exact ⟨_, rfl⟩
  · exact ⟨fdc.heap, rfl⟩

theorem fdcWriteSectorByte_inv {fdc : Fdc} (h : FdcInv live fdc)
    (hop : fdc.currentop.isSector = true) (value : Byte) :
    FdcInv live (fdcWriteSectorByte fdc value) := by
  obtain ⟨hcur, hlen⟩ := h.sector hop
  unfold fdcWriteSectorByte
  cases hc : fdc.curSectorData with
  | none => simp [hc] at hcur
  | some p =>
    dsimp only
    split_ifs with hs
    · exact fdcClrDrq_inv h hs
    · obtain ⟨heap, hstore⟩ := storeByte_frame fdc value
      rw [hstore]
      exact fdcByteServed_inv { h.toFdcBase with } hop hcur hlen

theorem fdcIdByte_frame {fdc : Fdc} (h : FdcBase fdc) (hcur : fdc.curSectorData.isSome) :
    FdcBase (fdcIdByte fdc) ∧ (fdcIdByte fdc).currentop = fdc.currentop ∧
      (fdcIdByte fdc).stream = fdc.stream ∧ (fdcIdByte fdc).curSectorData.isSome := by
  unfold fdcIdByte
  cases hc : fdc.curSectorData with
  | none => simp [hc] at hcur
  | some p => exact ⟨{ h with }, rfl, rfl, rfl⟩

theorem fdcReadAddressByte_inv {fdc : Fdc} (h : FdcInv live fdc)
    (hop : fdc.currentop = .readAddress) :
    FdcInv live (fdcReadAddressByte fdc) := by
  have hs : ∀ {P : Prop}, fdc.stream = true → P := by
    intro P hs
    rcases h.streamOp hs with h' | h' <;> rw [hop] at h' <;> cases h'
  obtain ⟨hbase, hop', hs', hcur'⟩ := fdcIdByte_frame h.toFdcBase (h.address hop).1
  unfold fdcReadAddressByte
  dsimp only
  split_ifs with hend
  · exact fdcEndCommand_inv (fdcClrDrq_base hbase) (by decide : (0 : Int) < 20)
      (by decide : (0#8).getLsbD 0 = false)
  · refine FdcBase.inv_of_op { hbase with } .readAddress (hop'.trans hop) rfl (fun _ => ?_)
      (fun hst => hs (hs'.symm.trans hst))
      fun _ _ => .inr (.of_drq_scheduled ?_ (by decide : (0 : Int) < 32))
    · exact ⟨hcur', BitVec.not_le.mp hend⟩
    · exact (congrArg FdcOp.isServed (hop'.trans hop)).trans rfl

theorem fdcWtParse_frame {fdc : Fdc} (h : FdcBase fdc) (value : Byte) :
    FdcBase (fdcWtParse fdc value) ∧ (fdcWtParse fdc value).currentop = fdc.currentop ∧
      (fdcWtParse fdc value).stream = fdc.stream := by
  unfold fdcWtParse
  cases fdc.wtState with
  | scan =>
    dsimp only
    split_ifs
    · exact ⟨{ h with }, rfl, rfl⟩
    · exact ⟨{ h with }, rfl, rfl⟩
    · exact ⟨h, rfl, rfl⟩
  | idField => exact ⟨{ h with }, rfl, rfl⟩
  | other _ => exact ⟨h, rfl, rfl⟩
  | dataField =>
    obtain ⟨heap, hstore⟩ := storeByte_frame fdc value
    rw [hstore]
    dsimp only
    split_ifs <;> exact ⟨{ h with }, rfl, rfl⟩

theorem fdcWriteTrackByte_inv {fdc : Fdc} (h : FdcInv live fdc) (hop : fdc.currentop = .writeTrack)
    (value : Byte) : FdcInv live (fdcWriteTrackByte fdc value) := by
  have hs : fdc.stream = false := by
    by_contra hs
    rcases h.streamOp (by simpa using hs) with h' | h' <;> rw [hop] at h' <;> cases h'
  have h₀ : FdcBase { fdc with diskModified := true } := { h.toFdcBase with }
  obtain ⟨hbase, hop', hs'⟩ := fdcWtParse_frame h₀ value
  unfold fdcWriteTrackByte
  dsimp only
  split_ifs
  · exact fdcEndCommand_inv (fdcClrDrq_base hbase) (by decide : (0 : Int) < 32)
      (by decide : (0#8).getLsbD 0 = false)
  · refine FdcBase.inv_of_op { hbase with } .writeTrack (hop'.trans hop) rfl nofun (fun hst => ?_)
      fun _ _ => .inr (.of_drq_scheduled ?_ (by decide : (0 : Int) < 32))
    · have hst' := hst.symm.trans (hs'.trans hs)
      cases hst'
    · exact (congrArg FdcOp.isServed (hop'.trans hop)).trans rfl

theorem fdcReadData_inv {fdc : Fdc} (h : FdcInv live fdc) : FdcInv live (fdcReadData fdc) := by
  unfold fdcReadData
  split
  case h_1 hop => exact fdcReadSectorByte_inv h (by rw [hop]; rfl)
  case h_2 hop => exact fdcReadSectorByte_inv h (by rw [hop]; rfl)
  case h_3 hop => exact fdcReadAddressByte_inv h hop
  case h_4 => exact h

theorem fdcWriteData_inv {fdc : Fdc} (h : FdcInv live fdc) (value : Byte) :
    FdcInv live (fdcWriteData fdc value) := by
  have h₀ : FdcInv live { fdc with data := value } := { h with }
  unfold fdcWriteData
  dsimp only
  split
  case h_1 hop => exact fdcWriteSectorByte_inv h₀ (by rw [hop]; rfl) value
  case h_2 hop => exact fdcWriteSectorByte_inv h₀ (by rw [hop]; rfl) value
  case h_3 hop => exact fdcWriteTrackByte_inv h₀ hop value
  case h_4 => exact h₀

/-! ## The stream -/

theorem fdcStreamed_iff (fdc : Fdc) :
    fdcStreamed fdc = true ↔ fdc.timingMode = .real ∧ fdc.currentop.isSector = true := by
  simp only [fdcStreamed, FdcOp.isSector, Bool.and_eq_true, beq_iff_eq]

/-- The stream's own steps: a sector transfer in the REAL model, at a byte of its field or past
the last one. -/
structure FdcStreaming (live : Prop) (fdc : Fdc) : Prop extends FdcInv live fdc where
  running : fdc.stream = true
  streamed : fdcStreamed fdc = true

/-- The steps the stream has left, at most. -/
def fdcStreamLeft (fdc : Fdc) : Nat := if fdc.streamCrc then 1 else 258 - fdc.curOffset.toNat

theorem fdcStreamLeft_of_not_crc {fdc : Fdc} (h : fdc.streamCrc = false) :
    fdcStreamLeft fdc = 258 - fdc.curOffset.toNat := by
  simp [fdcStreamLeft, h]

theorem fdcStreamLost_base {fdc : Fdc} (h : FdcBase fdc) : FdcBase (fdcStreamLost fdc) := { h with }

theorem fdcStreamSectorDone_stream (fdc : Fdc) : (fdcStreamSectorDone fdc).stream = false := by
  unfold fdcStreamSectorDone
  dsimp only
  split_ifs
  · split <;> rfl
  · rfl

theorem fdcStreamSectorDone_inv {fdc : Fdc} (h : FdcBase fdc)
    (hop : fdc.currentop.isSector = true) (hlen : fdc.curSectorLen = 256#16) :
    FdcInv live (fdcStreamSectorDone fdc) := by
  have hlost : (fdc.status &&& fdcStLostData).getLsbD 0 = false := by
    have hbit : ∀ st : Byte, (st &&& fdcStLostData).getLsbD 0 = false := by decide
    exact hbit _
  have hdone : (0 : Int) < 1 := by decide
  have hstop : FdcBase (fdcClrDrq { fdc with stream := false, streamCrc := false }) :=
    { h with stream := nofun }
  have hop₀ : (fdcClrDrq { fdc with stream := false, streamCrc := false }).currentop.isSector =
    true := hop
  have hlen₀ : (fdcClrDrq { fdc with stream := false, streamCrc := false }).curSectorLen =
    256#16 := hlen
  unfold fdcStreamSectorDone
  dsimp only
  generalize fdcClrDrq { fdc with stream := false, streamCrc := false } = f at hstop hop₀ hlen₀
  split_ifs
  · have h₀ : FdcBase ({ f with sector := f.sector + 1#8, curOffset := 0 }.lookup
        (f.sector + 1#8)) := { hstop with }
    generalize hg : ({ f with sector := f.sector + 1#8, curOffset := 0 } : Fdc).lookup
      (f.sector + 1#8) = g at h₀
    have hop' : g.currentop.isSector = true := hg ▸ hop₀
    have hlen' : g.curSectorLen = 256#16 := hg ▸ hlen₀
    have hoff' : g.curOffset = 0 := hg ▸ rfl
    cases hcur : g.curSectorData with
    | some p =>
      exact FdcBase.inv_of_waiting { h₀ with } hop' (by simp) hlen' (by simp [hoff'])
        (fdcRotWait_pos ..)
    | none =>
      refine FdcBase.inv_of_ending { h₀ with diStatus := fun _ => ⟨_, rfl, ?_⟩ } rfl hdone
      rw [h₀.secType, BitVec.getLsbD_or, hlost]
      decide
  · refine FdcBase.inv_of_ending { hstop with diStatus := fun _ => ⟨_, rfl, ?_⟩ } rfl hdone
    rw [hstop.secType, BitVec.getLsbD_or, hlost]
    decide

/-- What a step of the stream leaves: the stream still running, with less of its field to go, or
the end of the field. -/
def FdcStreamNext (live : Prop) (fdc fdc' : Fdc) : Prop :=
  (FdcInv live fdc' ∧ fdc'.stream = false) ∨
    (FdcStreaming live fdc' ∧ fdcStreamLeft fdc' < fdcStreamLeft fdc)

theorem FdcStreaming.op {fdc : Fdc} (h : FdcStreaming live fdc) : fdc.currentop.isSector = true :=
  ((fdcStreamed_iff fdc).mp h.streamed).2

/-- The stream goes on, from a state in the middle of a step. -/
theorem FdcStreaming.next {fdc : Fdc} (h : FdcBase fdc) (hrun : fdc.stream = true)
    (hst : fdcStreamed fdc = true) (hcur : fdc.curSectorData.isSome)
    (hlen : fdc.curSectorLen = 256#16)
    (hoff : fdc.curOffset < 256#16 ∨
      (fdc.curOffset = 256#16 ∧ (fdc.streamCrc = true ∨ fdcOpIsWrite fdc.currentop = false))) :
    FdcStreaming live fdc :=
  have hop := ((fdcStreamed_iff fdc).mp hst).2
  { h with
    sector := fun _ => ⟨hcur, hlen⟩
    address := fun ha => absurd ha (FdcOp.ne_readAddress_of_isSector hop)
    offset := fun _ => hoff.imp_right fun ho => ⟨hrun, ho.1, ho.2⟩
    streamOp := fun _ => .inl hop
    busy := fun _ _ => .inr (.inr (.inr ⟨hrun, hst⟩))
    running := hrun
    streamed := hst }

theorem fdcStreamPut_frame (fdc : Fdc) :
    ∃ status lost heap, fdcStreamPut fdc = { fdc with
      status := status, lostDataCount := lost, heap := heap,
      curOffset := fdc.curOffset + 1#16, diskModified := true } := by
  unfold fdcStreamPut
  dsimp only
  split_ifs
  · obtain ⟨heap, hstore⟩ := storeByte_frame fdc fdc.data
    rw [hstore]
    exact ⟨_, _, heap, rfl⟩
  · obtain ⟨heap, hstore⟩ := storeByte_frame (fdcStreamLost fdc) 0#8
    rw [hstore]
    exact ⟨_, _, heap, rfl⟩

theorem fdcStreamGet_frame (fdc : Fdc) :
    ∃ status lost data, fdcStreamGet fdc = { fdc with
      status := status, lostDataCount := lost, data := data,
      curOffset := fdc.curOffset + 1#16 } := by
  unfold fdcStreamGet
  dsimp only
  split_ifs
  · exact ⟨_, _, _, rfl⟩
  · exact ⟨fdc.status, fdc.lostDataCount, _, rfl⟩

/-- A write stream stores before the 256th byte. -/
theorem FdcStreaming.offset_lt {fdc : Fdc} (h : FdcStreaming live fdc)
    (hcrc : fdc.streamCrc = false) (hw : fdcOpIsWrite fdc.currentop = true) :
    fdc.curOffset < 256#16 := by
  rcases h.offset h.op with hlt | ⟨_, _, hc | hr⟩
  · exact hlt
  · simp [hcrc] at hc
  · simp [hw] at hr

theorem fdcStreamStepWrite_next {fdc : Fdc} (h : FdcStreaming live fdc)
    (hcrc : fdc.streamCrc = false)
    (hw : fdcOpIsWrite fdc.currentop = true) :
    FdcStreamNext live fdc (fdcStreamStepWrite fdc) := by
  obtain ⟨hcur, hlen⟩ := h.sector h.op
  have hlt := h.offset_lt hcrc hw
  have hleft := fdcStreamLeft_of_not_crc hcrc
  unfold fdcStreamStepWrite
  split
  · left
    refine ⟨fdcStreamSectorDone_inv { h.toFdcBase with } ?_ hlen, fdcStreamSectorDone_stream _⟩
    dsimp only
    split_ifs
    · rfl
    · exact h.op
  · right
    obtain ⟨status, lost, heap, hput⟩ := fdcStreamPut_frame fdc
    rw [hput]
    dsimp only
    split_ifs with hin
    · rw [hlen] at hin
      refine ⟨FdcStreaming.next { h.toFdcBase with } h.running h.streamed hcur hlen (.inl hin), ?_⟩
      rw [hleft, fdcStreamLeft_of_not_crc (by exact hcrc)]
      change 258 - (fdc.curOffset + 1#16).toNat < _
      bv_omega
    · rw [hlen] at hin
      refine ⟨FdcStreaming.next { h.toFdcBase with } h.running h.streamed hcur hlen
        (.inr ⟨?_, .inl rfl⟩), ?_⟩
      · change fdc.curOffset + 1#16 = 256#16
        bv_omega
      · rw [hleft]
        change 1 < _
        bv_omega

theorem fdcStreamStepRead_next {fdc : Fdc} (h : FdcStreaming live fdc)
    (hcrc : fdc.streamCrc = false)
    (hr : fdcOpIsWrite fdc.currentop = false) :
    FdcStreamNext live fdc (fdcStreamStepRead fdc) := by
  obtain ⟨hcur, hlen⟩ := h.sector h.op
  have hleft := fdcStreamLeft_of_not_crc hcrc
  right
  unfold fdcStreamStepRead
  split_ifs with hin
  · rw [hlen] at hin
    obtain ⟨status, lost, data, hget⟩ := fdcStreamGet_frame fdc
    rw [hget]
    refine ⟨FdcStreaming.next { h.toFdcBase with } h.running h.streamed hcur hlen ?_, ?_⟩
    · change fdc.curOffset + 1#16 < 256#16 ∨ fdc.curOffset + 1#16 = 256#16 ∧ _
      rcases (by bv_omega : fdc.curOffset + 1#16 < 256#16 ∨ fdc.curOffset + 1#16 = 256#16) with
        hlt | heq
      · exact .inl hlt
      · exact .inr ⟨heq, .inr hr⟩
    · rw [hleft, fdcStreamLeft_of_not_crc (by exact hcrc)]
      change 258 - (fdc.curOffset + 1#16).toNat < _
      bv_omega
  · rw [hlen] at hin
    have heq : fdc.curOffset = 256#16 := by
      rcases h.offset h.op with hlt | ⟨_, heq, _⟩
      · exact absurd hlt hin
      · exact heq
    refine ⟨FdcStreaming.next { h.toFdcBase with } h.running h.streamed hcur hlen
      (.inr ⟨heq, .inl rfl⟩), ?_⟩
    rw [hleft, heq]
    exact (by decide : 1 < 258 - (256#16).toNat)

theorem fdcStreamStep_next {fdc : Fdc} (h : FdcStreaming live fdc) :
    FdcStreamNext live fdc (fdcStreamStep fdc) := by
  obtain ⟨hcur, hlen⟩ := h.sector h.op
  unfold fdcStreamStep
  split_ifs with hcrc hlost hw
  · exact .inl ⟨fdcStreamSectorDone_inv (fdcStreamLost_base h.toFdcBase) h.op hlen,
      fdcStreamSectorDone_stream _⟩
  · exact .inl ⟨fdcStreamSectorDone_inv h.toFdcBase h.op hlen, fdcStreamSectorDone_stream _⟩
  · exact fdcStreamStepWrite_next h (by simpa using hcrc) hw
  · exact fdcStreamStepRead_next h (by simpa using hcrc) (by simpa using hw)

theorem fdcStreamLoop_of_stopped {fuel : Nat} {fdc : Fdc} (h : fdc.stream = false) :
    fdcStreamLoop fuel fdc = fdc := by
  cases fuel <;> simp [fdcStreamLoop, h]

/-- The loop keeps the invariant, and with fuel for the field it ends because its condition
does. -/
theorem fdcStreamLoop_inv (fuel : Nat) {fdc : Fdc} (h : FdcStreaming live fdc) :
    FdcInv live (fdcStreamLoop fuel fdc) ∧
      (fdcStreamLeft fdc ≤ fuel →
        ¬((fdcStreamLoop fuel fdc).stream = true ∧ (fdcStreamLoop fuel fdc).streamDue ≤ 0)) := by
  induction fuel generalizing fdc with
  | zero =>
    refine ⟨h.toFdcInv, fun hfuel => ?_⟩
    have hpos : 0 < fdcStreamLeft fdc := by
      have hoff : fdc.curOffset ≤ 256#16 := by
        rcases h.offset h.op with hlt | ⟨_, heq, _⟩
        · exact BitVec.le_of_lt hlt
        · exact heq ▸ BitVec.le_refl _
      unfold fdcStreamLeft
      split_ifs
      · exact Nat.one_pos
      · bv_omega
    omega
  | succ fuel ih =>
    unfold fdcStreamLoop
    split_ifs with hcond
    · rcases fdcStreamStep_next h with ⟨hinv, hend⟩ | ⟨hnext, hless⟩
      · rw [fdcStreamLoop_of_stopped hend]
        exact ⟨hinv, fun _ hrun => by simp [hend] at hrun⟩
      · obtain ⟨hinv, hend⟩ := ih hnext
        exact ⟨hinv, fun hfuel => hend (by omega)⟩
    · refine ⟨h.toFdcInv, fun _ hrun => hcond ?_⟩
      simpa using hrun

/-! ## Time -/

theorem fdcTickInt_inv {fdc : Fdc} (h : FdcInv live fdc) (cycles : BitVec 32) :
    FdcInv live (fdcTickInt fdc cycles) := by
  unfold fdcTickInt
  dsimp only
  split_ifs with hint hleft
  · obtain ⟨st, hst, hbusy⟩ := h.diStatus hint
    refine { h with
      diStatus := fun hd => absurd hd (Int.lt_irrefl 0)
      busy := fun hl hb => ?_ }
    have hbusy' : (fdc.diStatus.getD fdc.status).getLsbD 0 = true := hb
    rw [hst, Option.getD_some, hbusy] at hbusy'
    cases hbusy'
  · exact { h with
      diStatus := fun _ => h.diStatus hint
      busy := fun _ _ => .inr (.inl (Int.not_le.mp hleft)) }
  · exact h

@[simp] theorem fdcStreamDrq_drq (fdc : Fdc) : (fdcStreamDrq fdc).drq = true := by
  have hbit : ∀ st : Byte, (st ||| fdcStDrq).getLsbD 1 = true := by decide
  exact hbit fdc.status

@[simp] theorem fdcStreamDrq_busy (fdc : Fdc) : (fdcStreamDrq fdc).busy = fdc.busy := by
  have hbit : ∀ st : Byte, (st ||| fdcStDrq).getLsbD 0 = st.getLsbD 0 := by decide
  exact hbit fdc.status

theorem fdcStreamStart_streaming {fdc : Fdc} (h : FdcBase fdc) (hst : fdcStreamed fdc = true)
    (hcur : fdc.curSectorData.isSome) (hlen : fdc.curSectorLen = 256#16) :
    FdcStreaming live (fdcStreamStart fdc) := by
  have hreal := ((fdcStreamed_iff fdc).mp hst).1
  unfold fdcStreamStart
  dsimp only
  split_ifs
  · exact FdcStreaming.next { h with stream := fun _ => hreal } rfl hst hcur hlen
      (.inl (by decide : (0#16 : Word) < 256#16))
  · exact FdcStreaming.next { h with stream := fun _ => hreal, secType := rfl } rfl hst hcur hlen
      (.inl (by decide : (0#16 : Word) + 1#16 < 256#16))

theorem fdcTickDrq_inv {fdc : Fdc} (h : FdcInv live fdc) (cycles : BitVec 32) :
    FdcInv live (fdcTickDrq fdc cycles) := by
  unfold fdcTickDrq
  dsimp only
  split_ifs with hdrq hleft hstart
  · rw [Bool.and_eq_true] at hstart
    have hlen := (h.sector ((fdcStreamed_iff _).mp hstart.1).2).2
    have h₀ : FdcBase { fdc with
        delayedDrq := 0, status := fdc.ddStatus.getD fdc.status, ddStatus := none } :=
      { h.toFdcBase with ddStatus := rfl }
    exact (fdcStreamStart_streaming h₀ hstart.1 hstart.2 hlen).toFdcInv
  · -- the DRQ of a transfer the CPU paces: a stream would have started instead
    have hns : fdc.currentop.isServed = true → fdc.stream = false := by
      intro hop
      by_contra hs
      have hs : fdc.stream = true := by simpa using hs
      have hsector : fdc.currentop.isSector = true := by
        rcases h.streamOp hs with h' | h'
        · exact h'
        · rw [h'] at hop; cases hop
      refine hstart (Bool.and_eq_true _ _ ▸ ⟨?_, (h.sector hsector).1⟩)
      exact (fdcStreamed_iff _).mpr ⟨h.stream hs, hsector⟩
    refine { h with ddStatus := rfl, busy := fun hl hb => ?_ }
    rw [fdcStreamDrq_busy] at hb
    have hb' : fdc.busy = true := by
      simpa [Fdc.busy, h.ddStatus] using hb
    rcases h.busy hl hb' with hr | hint | ⟨hop, _⟩ | hst
    · exact .inl hr
    · exact .inr (.inl hint)
    · exact .inr (.inr (.inl ⟨hop, .inr ⟨fdcStreamDrq_drq _, hns hop⟩⟩))
    · exact .inr (.inr (.inr hst))
  · refine { h with busy := fun hl hb => ?_ }
    rcases h.busy hl hb with hr | hint | ⟨hop, _⟩ | hst
    · exact .inl hr
    · exact .inr (.inl hint)
    · exact .inr (.of_drq_scheduled hop (Int.not_le.mp hleft))
    · exact .inr (.inr (.inr hst))
  · exact h

theorem fdcTickLost_inv {fdc : Fdc} (h : FdcInv live fdc) (cycles : BitVec 32) :
    FdcInv live (fdcTickLost fdc cycles) := by
  have hbusy : ∀ st : Byte, (st ||| fdcStLostData).getLsbD 0 = st.getLsbD 0 := by decide
  have hdrq : ∀ st : Byte, (st ||| fdcStLostData).getLsbD 1 = st.getLsbD 1 := by decide
  unfold fdcTickLost
  dsimp only
  split_ifs
  · refine { h with busy := fun hl hb => ?_ }
    rw [Fdc.busy, hbusy] at hb
    rcases h.busy hl hb with hr | hint | ⟨hop, hd | ⟨hd, hns⟩⟩ | hst
    · exact .inl hr
    · exact .inr (.inl hint)
    · exact .inr (.of_drq_scheduled hop hd)
    · exact .inr (.inr (.inl ⟨hop, .inr ⟨(hdrq _).trans hd, hns⟩⟩))
    · exact .inr (.inr (.inr hst))
  · exact { h with }
  · exact { h with }

theorem fdcTickStream_inv {fdc : Fdc} (h : FdcInv live fdc) (cycles : BitVec 32) :
    FdcInv live (fdcTickStream fdc cycles) := by
  unfold fdcTickStream
  split_ifs with hs hst
  · have h₀ : FdcStreaming live { fdc with streamDue := cInt (fdc.streamDue - cycles.toInt) } :=
      { h with running := hs, streamed := hst }
    exact (fdcStreamLoop_inv _ h₀).1
  · -- the command was interrupted
    have hop : fdc.currentop = .none := by
      rcases h.streamOp hs with hsector | hop
      · exact absurd ((fdcStreamed_iff fdc).mpr ⟨h.stream hs, hsector⟩) hst
      · exact hop
    have h₀ : FdcBase { fdc with stream := false } := { h with stream := nofun }
    refine fdcTickLost_inv (h₀.inv_of_none hop fun hl hb => ?_) cycles
    rcases h.busy hl hb with hr | hint | ⟨hop', _⟩ | ⟨_, hst'⟩
    · rw [hop] at hr; cases hr
    · exact hint
    · rw [hop] at hop'; cases hop'
    · exact absurd hst' hst
  · exact fdcTickLost_inv h cycles

theorem fdcTicktock_inv {fdc : Fdc} (h : FdcInv live fdc) (cycles : BitVec 32) :
    FdcInv live (fdcTicktock fdc cycles) := by
  have h₀ : FdcInv live
      { fdc with rotPos := (fdc.rotPos + cycles.toNat) % 2 ^ 32 % fdcRevCycles } :=
    { h with rotPos := Nat.mod_lt _ (by decide) }
  exact fdcTickStream_inv (fdcTickDrq_inv (fdcTickInt_inv h₀ cycles) cycles) cycles

/-! ## Runs -/

/-- Step-out with the head at track 0 and no interrupt on its way. -/
def FdcBlindStepOut (fdc : Fdc) : FdcInput → Prop
  | .access (.write reg value) =>
    fdcReg reg = .command ∧ fdcCommand value = .stepOut ∧ fdc.cTrack = 0#8 ∧ ¬0 < fdc.delayedInt
  | _ => False

theorem fdcInput_inv {fdc : Fdc} (h : FdcInv live fdc) (op : FdcInput)
    (hok : live → ¬FdcBlindStepOut fdc op) : FdcInv live (fdcInput fdc op) := by
  cases op with
  | access a =>
    cases a with
    | write reg value =>
      change FdcInv live (fdcWrite fdc reg value)
      unfold fdcWrite
      cases hreg : fdcReg reg with
      | command =>
        refine fdcWriteCommand_inv h.toFdcBase value fun hl hc htrack => ?_
        by_contra hint
        exact hok hl ⟨hreg, hc, htrack, hint⟩
      | track => exact { h with }
      | sector => exact { h with }
      | data => exact fdcWriteData_inv h value
    | read reg =>
      change FdcInv live (fdcRead fdc reg).2
      unfold fdcRead
      cases fdcReg reg with
      | command => exact { h with }
      | track => exact h
      | sector => exact h
      | data => exact fdcReadData_inv h
    | ticktock cycles => exact fdcTicktock_inv h cycles
  | setSide side => exact { h with }
  | setDisk data size tracks sectorsPerTrack => exact { h with }
  | setWriteProtect protect => exact { h with }
  | setBadMap map => exact { h with }

end Phosphoric
