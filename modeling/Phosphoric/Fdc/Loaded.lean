import Phosphoric.Fdc.State

/-!
# The image bytes a resumed controller touches

`fdcCells` lists the places of the image an access reads or stores through `cur_sector_data`, a
null pointer's among them, branch for branch with `fdc_read`, `fdc_write` and `fdc_ticktock`.
Loading takes the offsets, lengths and flags of a transfer from the file as they are.

**Theorem (`fdcLoaded_inImage`).** A resumed controller touches no byte outside
`disk_data[0..disk_size)` if the transfer it resumes fits its sector pointer and the image
(`FdcLoadFits`), and no data mark of a format asks for a field that runs past the image
(`FdcFieldFits`).

The controller takes both without a look: `fdcLoaded_outside` resumes a transfer at offset 65535.

The proof is one invariant, `FdcWithin`: what the file must satisfy is what every access keeps.
-/

namespace Phosphoric

/-! ## The places touched -/

/-- `&cur_sector_data[cur_offset]`, `none` through the null pointer. -/
def Fdc.cell (fdc : Fdc) : Option Ptr :=
  fdc.curSectorData.map fun p => ⟨p.buf, p.off + fdc.curOffset.toNat⟩

def fdcStreamStepCells (fdc : Fdc) : List (Option Ptr) :=
  if fdc.streamCrc then []
  else if fdcOpIsWrite fdc.currentop then
    if fdc.curOffset == 0#16 && fdc.status &&& fdcStDrq != 0#8 then [] else [fdc.cell]
  else if fdc.curOffset < fdc.curSectorLen then [fdc.cell]
  else []

def fdcStreamLoopCells : Nat → Fdc → List (Option Ptr)
  | 0, _ => []
  | fuel + 1, fdc =>
    if fdc.stream && fdc.streamDue ≤ 0 then
      fdcStreamStepCells fdc ++ fdcStreamLoopCells fuel (fdcStreamStep fdc)
    else []

/-- `fdc_stream_start` of a read takes the sector's first byte. -/
def fdcTickDrqCells (fdc : Fdc) (cycles : BitVec 32) : List (Option Ptr) :=
  if fdc.delayedDrq > 0 ∧ cInt (fdc.delayedDrq - cycles.toNat) ≤ 0 then
    if fdcStreamed fdc && fdc.curSectorData.isSome && !fdcOpIsWrite fdc.currentop then
      [{ fdc with curOffset := 0 }.cell]
    else []
  else []

def fdcTickStreamCells (fdc : Fdc) (cycles : BitVec 32) : List (Option Ptr) :=
  if fdc.stream && fdcStreamed fdc then
    fdcStreamLoopCells fdcStreamFuel
      { fdc with streamDue := cInt (fdc.streamDue - cycles.toInt) }
  else []

def fdcTicktockCells (fdc : Fdc) (cycles : BitVec 32) : List (Option Ptr) :=
  let fdc := { fdc with rotPos := (fdc.rotPos + cycles.toNat) % 2 ^ 32 % fdcRevCycles }
  let fdc := fdcTickInt fdc cycles
  fdcTickDrqCells fdc cycles ++ fdcTickStreamCells (fdcTickDrq fdc cycles) cycles

/-- FDC_DATA in a sector transfer. -/
def fdcSectorByteCells (fdc : Fdc) : List (Option Ptr) :=
  if fdc.curSectorData.isSome && !fdc.stream then [fdc.cell] else []

def fdcReadDataCells (fdc : Fdc) : List (Option Ptr) :=
  match fdc.currentop with
  | .readSector | .readSectors => fdcSectorByteCells fdc
  | _ => []

def fdcWriteDataCells (fdc : Fdc) : List (Option Ptr) :=
  match fdc.currentop with
  | .writeSector | .writeSectors => fdcSectorByteCells fdc
  | .writeTrack =>
    if fdc.wtState = .dataField ∧ fdc.curSectorData.isSome ∧ fdc.curOffset < fdc.wtDataLen then
      [fdc.cell]
    else []
  | _ => []

/-- The places of the image an access reads or stores, in order. -/
def fdcCells (fdc : Fdc) : FdcAccess → List (Option Ptr)
  | .write reg _ => if fdcReg reg = .data then fdcWriteDataCells fdc else []
  | .read reg => if fdcReg reg = .data then fdcReadDataCells fdc else []
  | .ticktock cycles => fdcTicktockCells fdc cycles

/-- The place is a byte of `disk_data[0..disk_size)`. -/
def Fdc.InImage (fdc : Fdc) (cell : Option Ptr) : Prop :=
  ∃ a ∈ cell, fdc.diskData = some a.buf ∧ a.off < fdc.diskSize

/-! ## What the file and the format must satisfy -/

def FdcOp.isMultiple (op : FdcOp) : Bool := op == .readSectors || op == .writeSectors

/-- The transfer in progress fits its sector pointer and the image. -/
structure FdcLoadFits (fdc : Fdc) : Prop where
  /-- A running stream has its sector. -/
  found : fdc.stream = true → fdcStreamed fdc = true → fdc.curSectorData.isSome
  /-- The length is no more than what the image has from the sector on. -/
  length : fdc.currentop.isSector = true → ∀ p, fdc.curSectorData = some p →
    p.off + fdc.curSectorLen.toNat ≤ fdc.diskSize
  /-- So is the offset, unless the stream is past its last byte. -/
  offset : fdc.currentop.isSector = true → ∀ p, fdc.curSectorData = some p →
    p.off + fdc.curOffset.toNat < fdc.diskSize ∨
      (fdc.stream = true ∧ fdcStreamed fdc = true ∧ (fdc.streamCrc = true ∨
        (fdcOpIsWrite fdc.currentop = false ∧ fdc.curSectorLen ≤ fdc.curOffset)))
  /-- A multi-sector transfer keeps its length, on the sectors it goes on to. -/
  next : fdc.currentop.isMultiple = true → ∀ secId p, fdcFindSector fdc secId = some p →
    p.off + fdc.curSectorLen.toNat ≤ fdc.diskSize
  /-- A data field does not run past the image. The offset after 65535 is 0. -/
  field : fdc.currentop = .writeTrack → fdc.wtState = .dataField →
    ∀ p, fdc.curSectorData = some p →
      fdc.curOffset < fdc.wtDataLen ∨ fdc.curOffset = 0xFFFF#16 →
        p.off + fdc.wtDataLen.toNat ≤ fdc.diskSize

/-- The access is no data mark of a Write Track whose ID field has a size code that asks for more
bytes than the image has from its sector on. -/
def FdcFieldFits (fdc : Fdc) : FdcAccess → Prop
  | .write reg value =>
    fdcReg reg = .data → fdc.currentop = .writeTrack → fdc.wtState = .scan →
      value = 0xFB#8 ∨ value = 0xF8#8 →
        ∀ p ∈ fdcFindSector fdc fdc.wtSector, p.off + (fdcWtLen fdc.wtSizeCode).toNat ≤ fdc.diskSize
  | _ => True

/-! ## The invariant -/

/-- The medium is the one of `base`, and a sector pointer points to 256 bytes of it. -/
structure FdcOn (base fdc : Fdc) : Prop where
  disk : fdc.diskData = base.diskData
  size : fdc.diskSize = base.diskSize
  sector : ∀ p, fdc.curSectorData = some p →
    base.diskData = some p.buf ∧ p.off + 256 ≤ base.diskSize

/-- The medium is that of `base`, and the transfer fits it. -/
structure FdcWithin (base fdc : Fdc) : Prop extends FdcOn base fdc, FdcLoadFits fdc

variable {base fdc : Fdc}

theorem fdcFindSector_inImage {secId : Byte} {p : Ptr} (h : fdcFindSector fdc secId = some p) :
    fdc.diskData = some p.buf ∧ p.off + 256 ≤ fdc.diskSize := by
  unfold fdcFindSector at h
  split at h
  · cases h
  · rename_i buf hdata
    split_ifs at h with hgeom hbad hsize
    cases h
    exact ⟨hdata, Nat.le_of_not_lt hsize⟩

theorem FdcOn.lookup (h : FdcOn base fdc) (secId : Byte) : FdcOn base (fdc.lookup secId) where
  disk := h.disk
  size := h.size
  sector := by
    intro p hp
    have hfind := fdcFindSector_inImage (show fdcFindSector fdc secId = some p from hp)
    rwa [h.disk, h.size] at hfind

theorem FdcOp.isSector_of_isMultiple {op : FdcOp} (h : op.isMultiple = true) :
    op.isSector = true := by
  cases op <;> first | rfl | cases h

theorem fdcStreamed_isSector (h : fdcStreamed fdc = true) : fdc.currentop.isSector = true := by
  simp only [fdcStreamed, Bool.and_eq_true] at h
  exact h.2

/-- Between transfers there is nothing to fit. -/
theorem FdcOn.within_of_op (h : FdcOn base fdc) (op : FdcOp) (hop : fdc.currentop = op)
    (hsector : op.isSector = false) (htrack : op ≠ .writeTrack) : FdcWithin base fdc := by
  subst hop
  have hnone : ∀ {P : Prop}, fdc.currentop.isSector = true → P := fun hs => by
    rw [hsector] at hs; cases hs
  exact { h with
    found := fun _ hst => hnone (fdcStreamed_isSector hst)
    length := hnone
    offset := hnone
    next := fun hm => hnone (FdcOp.isSector_of_isMultiple hm)
    field := fun hop => absurd hop htrack }

theorem FdcOn.within_of_none (h : FdcOn base fdc) (hop : fdc.currentop = .none) :
    FdcWithin base fdc :=
  h.within_of_op .none hop rfl (by decide)

/-- A transfer the host paces: its length fits, and its offset. -/
theorem FdcOn.within_of_paced (h : FdcOn base fdc) (hs : fdc.stream = false)
    (hop : fdc.currentop ≠ .writeTrack)
    (hlen : ∀ p, fdc.curSectorData = some p → p.off + fdc.curSectorLen.toNat ≤ fdc.diskSize)
    (hnext : fdc.currentop.isMultiple = true → ∀ secId p, fdcFindSector fdc secId = some p →
      p.off + fdc.curSectorLen.toNat ≤ fdc.diskSize)
    (hoff : ∀ p, fdc.curSectorData = some p → p.off + fdc.curOffset.toNat < fdc.diskSize) :
    FdcWithin base fdc :=
  { h with
    found := fun hs' => by rw [hs] at hs'; cases hs'
    length := fun _ => hlen
    offset := fun _ p hp => .inl (hoff p hp)
    next := hnext
    field := fun hop' => absurd hop' hop }

/-- A sector's first byte is in the image. -/
theorem FdcOn.start_inImage (h : FdcOn base fdc) (hoff : fdc.curOffset = 0#16) :
    ∀ p, fdc.curSectorData = some p → p.off + fdc.curOffset.toNat < fdc.diskSize := by
  intro p hp
  obtain ⟨-, hsize⟩ := h.sector p hp
  rw [hoff, h.size]
  simp only [BitVec.toNat_ofNat, Nat.zero_mod]
  omega

/-! ## Commands -/

theorem fdcSeekTrack_on (h : FdcOn base fdc) (target cmd : Byte) (update : Bool) :
    FdcOn base (fdcSeekTrack fdc target cmd update) := by
  unfold fdcSeekTrack
  split
  · exact { h with }
  · exact { h with }

theorem fdcTypeI_on (h : FdcOn base fdc) (value : Byte) : FdcOn base (fdcTypeI fdc value) :=
  { h with }

/-- A Type I command leaves no operation in progress. -/
theorem FdcOn.seek_within (h : FdcOn base fdc) (target cmd : Byte) (update : Bool) :
    FdcWithin base { fdcSeekTrack fdc target cmd update with currentop := .none } :=
  FdcOn.within_of_none { fdcSeekTrack_on h target cmd update with } rfl

theorem fdcRecordNotFound_within (h : FdcOn base fdc) :
    FdcWithin base (fdcRecordNotFound fdc) := by
  unfold fdcRecordNotFound
  dsimp only
  split
  · exact FdcOn.within_of_none { h with } rfl
  · exact FdcOn.within_of_none { h with } rfl

theorem fdcRefuse_within (h : FdcOn base fdc) (st : Byte) : FdcWithin base (fdcRefuse fdc st) :=
  FdcOn.within_of_none { h with } rfl

theorem fdcNotReady_within {command : Fdc → Fdc} (h : FdcOn base fdc)
    (hc : FdcWithin base (command fdc)) : FdcWithin base (fdcNotReady fdc command) := by
  unfold fdcNotReady
  split
  · exact hc
  · exact fdcRefuse_within h _

theorem fdcWriteProtected_within {command : Fdc → Fdc} (h : FdcOn base fdc)
    (hc : FdcWithin base (command fdc)) : FdcWithin base (fdcWriteProtected fdc command) := by
  unfold fdcWriteProtected
  split
  · exact fdcRefuse_within h _
  · exact hc

/-- The commands set a length of 256, which every sector found has. -/
theorem fdcSectorCommand_within (h : FdcOn base fdc) (hs : fdc.stream = false) (value : Byte)
    (delay : Int) {single multiple : FdcOp} (hsingle : single ≠ .writeTrack)
    (hmultiple : multiple ≠ .writeTrack) :
    FdcWithin base (fdcSectorCommand value delay single multiple fdc) := by
  have h₁ : FdcOn base { fdc with curOffset := 0 } := { h with }
  have h₂ := h₁.lookup fdc.sector
  have hs₂ : ({ fdc with curOffset := 0 }.lookup fdc.sector).stream = false := hs
  have hoff : ({ fdc with curOffset := 0 }.lookup fdc.sector).curOffset = 0 := rfl
  unfold fdcSectorCommand
  dsimp only
  generalize ({ fdc with curOffset := 0 } : Fdc).lookup fdc.sector = f at h₂ hs₂ hoff
  cases hcur : f.curSectorData with
  | none => exact fdcRecordNotFound_within h₂
  | some p =>
    have hsector : ∀ q, some p = some q →
        base.diskData = some q.buf ∧ q.off + 256 ≤ base.diskSize :=
      fun q hq => h₂.sector q (hcur.trans hq)
    refine FdcOn.within_of_paced { disk := h₂.disk, size := h₂.size, sector := hsector } hs₂ ?_ ?_
      ?_ ?_
    · dsimp only
      split_ifs
      · exact hmultiple
      · exact hsingle
    · intro q hq
      exact h₂.size ▸ (hsector q hq).2
    · intro _ secId q hq
      exact (fdcFindSector_inImage hq).2
    · intro q hq
      exact h₂.start_inImage hoff q (hcur.trans hq)

theorem fdcReadAddress_within (h : FdcOn base fdc) : FdcWithin base (fdcReadAddress fdc) := by
  have h₀ : FdcOn base { fdc with statusType1 := false } := { h with }
  refine fdcNotReady_within h₀ ?_
  have h₁ : FdcOn base { fdc with statusType1 := false, curOffset := 0 } := { h with }
  have h₂ := h₁.lookup 1#8
  dsimp only
  generalize ({ fdc with statusType1 := false, curOffset := 0 } : Fdc).lookup 1#8 = f at h₂
  split
  · exact fdcRecordNotFound_within h₂
  · split
    · exact FdcOn.within_of_op { h₂ with } .readAddress rfl rfl (by decide)
    · exact FdcOn.within_of_op { h₂ with } .readAddress rfl rfl (by decide)

theorem fdcForceInterrupt_within (h : FdcOn base fdc) (value : Byte) :
    FdcWithin base (fdcForceInterrupt fdc value) := by
  unfold fdcForceInterrupt
  dsimp only
  split_ifs
  · exact FdcOn.within_of_none { h with } rfl
  · exact FdcOn.within_of_none { h with } rfl

theorem fdcReadTrack_within (h : FdcOn base fdc) : FdcWithin base (fdcReadTrack fdc) := by
  have h₀ : FdcOn base { fdc with statusType1 := false } := { h with }
  exact fdcNotReady_within h₀ (FdcOn.within_of_op { h with } .readTrack rfl rfl (by decide))

/-- A format starts without a sector. -/
theorem fdcWriteTrack_within (h : FdcOn base fdc) : FdcWithin base (fdcWriteTrack fdc) := by
  have h₀ : FdcOn base { fdc with statusType1 := false } := { h with }
  refine fdcNotReady_within h₀ (fdcWriteProtected_within h₀ ?_)
  exact {
    disk := h.disk
    size := h.size
    sector := nofun
    found := fun _ hst => by cases fdcStreamed_isSector hst
    length := nofun
    offset := nofun
    next := nofun
    field := fun _ hscan => by cases hscan }

theorem fdcStep_within (h : FdcOn base fdc) (value : Byte) :
    FdcWithin base (fdcStep fdc value) := by
  unfold fdcStep
  dsimp only
  split
  · exact (fdcTypeI_on h value).seek_within ..
  · exact (fdcTypeI_on h value).seek_within ..

theorem fdcStepOut_within (h : FdcOn base fdc) (value : Byte) :
    FdcWithin base (fdcStepOut fdc value) := by
  have h₀ : FdcOn base { fdcTypeI fdc value with direction := 1 } := { h with }
  unfold fdcStepOut
  dsimp only
  split
  · exact h₀.seek_within ..
  · exact FdcOn.within_of_none { h with } rfl

theorem fdcBeginCommand_on (h : FdcOn base fdc) (value : Byte) :
    FdcOn base (fdcBeginCommand fdc value) := by
  unfold fdcBeginCommand
  dsimp only
  split_ifs
  · exact { h with }
  · exact { h with }

/-- A command does not care what was loaded. -/
theorem fdcWriteCommand_within (h : FdcOn base fdc) (value : Byte) :
    FdcWithin base (fdcWriteCommand fdc value) := by
  have h₁ := fdcBeginCommand_on h value
  have h₂ : FdcOn base { fdcBeginCommand fdc value with statusType1 := false } := { h₁ with }
  have hs : fdcCommand value ≠ .forceInterrupt → (fdcBeginCommand fdc value).stream = false :=
    fdcBeginCommand_stream fdc
  unfold fdcWriteCommand
  cases hc : fdcCommand value with
  | restoreSeek => exact (fdcTypeI_on h₁ value).seek_within ..
  | step => exact fdcStep_within h₁ value
  | stepIn =>
    have h₃ : FdcOn base { fdcTypeI (fdcBeginCommand fdc value) value with direction := 0 } :=
      { h₁ with }
    exact h₃.seek_within ..
  | stepOut => exact fdcStepOut_within h₁ value
  | readSector =>
    exact fdcNotReady_within h₂ (fdcSectorCommand_within h₂ (hs (by simp [hc])) value 60
      (by decide) (by decide))
  | writeSector =>
    exact fdcNotReady_within h₂ (fdcWriteProtected_within h₂
      (fdcSectorCommand_within h₂ (hs (by simp [hc])) value 500 (by decide) (by decide)))
  | readAddress => exact fdcReadAddress_within h₁
  | forceInterrupt => exact fdcForceInterrupt_within h₁ value
  | readTrack => exact fdcReadTrack_within h₁
  | writeTrack => exact fdcWriteTrack_within h₁

/-! ## Data accesses -/

theorem fdcClrDrq_on (h : FdcOn base fdc) : FdcOn base (fdcClrDrq fdc) := { h with }

theorem fdcClrDrq_within (h : FdcWithin base fdc) : FdcWithin base (fdcClrDrq fdc) := { h with }

theorem fdcEndCommand_within (h : FdcOn base fdc) (delay : Int) (st : Byte) :
    FdcWithin base (fdcEndCommand fdc delay st) :=
  FdcOn.within_of_none { h with } rfl

theorem fdcNextSector_within (h : FdcOn base fdc) (hs : fdc.stream = false)
    (hop : fdc.currentop ≠ .writeTrack)
    (hnext : ∀ secId p, fdcFindSector fdc secId = some p →
      p.off + fdc.curSectorLen.toNat ≤ fdc.diskSize) : FdcWithin base (fdcNextSector fdc) := by
  have h₁ : FdcOn base { fdc with sector := fdc.sector + 1#8, curOffset := 0 } := { h with }
  have h₂ := h₁.lookup (fdc.sector + 1#8)
  unfold fdcNextSector
  dsimp only
  split
  · exact FdcOn.within_of_paced { h₂ with } hs hop (hnext (fdc.sector + 1#8)) (fun _ => hnext)
      (h₂.start_inImage rfl)
  · exact fdcClrDrq_within (fdcEndCommand_within h₂ _ _)

/-- Either the offset stays below the length, or the sector is over. -/
theorem fdcByteServed_within (h : FdcOn base fdc) (hs : fdc.stream = false)
    (hop : fdc.currentop ≠ .writeTrack)
    (hlen : ∀ p, fdc.curSectorData = some p → p.off + fdc.curSectorLen.toNat ≤ fdc.diskSize)
    (hnext : fdc.currentop.isMultiple = true → ∀ secId p, fdcFindSector fdc secId = some p →
      p.off + fdc.curSectorLen.toNat ≤ fdc.diskSize) : FdcWithin base (fdcByteServed fdc) := by
  have h₁ := fdcClrDrq_on h
  unfold fdcByteServed
  dsimp only
  split_ifs with hend hmult
  · exact fdcNextSector_within h₁ hs hop (hnext hmult)
  · exact fdcClrDrq_within (fdcEndCommand_within h₁ _ _)
  · refine FdcOn.within_of_paced { h₁ with } hs hop hlen hnext fun p hp => ?_
    have hlt : fdc.curOffset < fdc.curSectorLen := BitVec.not_le.mp hend
    have hfit := hlen p hp
    change p.off + fdc.curOffset.toNat < fdc.diskSize
    bv_omega

theorem fdcNoSector_within (h : FdcOn base fdc) : FdcWithin base (fdcNoSector fdc) :=
  FdcOn.within_of_none { h with } rfl

theorem fdcReadSectorByte_within (h : FdcWithin base fdc) (hop : fdc.currentop.isSector = true) :
    FdcWithin base (fdcReadSectorByte fdc) := by
  have hwt : fdc.currentop ≠ .writeTrack := fun heq => by rw [heq] at hop; cases hop
  unfold fdcReadSectorByte
  split
  · exact fdcNoSector_within h.toFdcOn
  · split_ifs with hs hzero
    · exact fdcClrDrq_within h
    · exact fdcByteServed_within { h.toFdcOn with } (Bool.eq_false_iff.mpr hs) hwt (h.length hop)
        h.next
    · exact fdcByteServed_within { h.toFdcOn with } (Bool.eq_false_iff.mpr hs) hwt (h.length hop)
        h.next

theorem fdcWriteSectorByte_within (h : FdcWithin base fdc) (hop : fdc.currentop.isSector = true)
    (value : Byte) : FdcWithin base (fdcWriteSectorByte fdc value) := by
  have hwt : fdc.currentop ≠ .writeTrack := fun heq => by rw [heq] at hop; cases hop
  unfold fdcWriteSectorByte
  split
  · exact fdcNoSector_within h.toFdcOn
  · split_ifs with hs
    · exact fdcClrDrq_within h
    · obtain ⟨heap, hstore⟩ := storeByte_frame fdc value
      rw [hstore]
      exact fdcByteServed_within { h.toFdcOn with } (Bool.eq_false_iff.mpr hs) hwt (h.length hop)
        h.next

theorem fdcReadAddressByte_within (h : FdcOn base fdc) (hop : fdc.currentop = .readAddress) :
    FdcWithin base (fdcReadAddressByte fdc) := by
  have hid : FdcOn base (fdcIdByte fdc) ∧ (fdcIdByte fdc).currentop = .readAddress := by
    unfold fdcIdByte
    split
    · exact ⟨{ h with }, hop⟩
    · exact ⟨h, hop⟩
  obtain ⟨hid, hop'⟩ := hid
  unfold fdcReadAddressByte
  dsimp only
  split_ifs
  · exact fdcEndCommand_within (fdcClrDrq_on hid) _ _
  · exact FdcOn.within_of_op { hid with } .readAddress hop' rfl (by decide)

/-- In a format only the data field has to fit. -/
theorem FdcOn.within_of_format (h : FdcOn base fdc) (hop : fdc.currentop = .writeTrack)
    (hfield : fdc.wtState = .dataField → ∀ p, fdc.curSectorData = some p →
      fdc.curOffset < fdc.wtDataLen ∨ fdc.curOffset = 0xFFFF#16 →
        p.off + fdc.wtDataLen.toNat ≤ fdc.diskSize) : FdcWithin base fdc := by
  have hnone : ∀ {P : Prop}, fdc.currentop.isSector = true → P := fun hs => by
    rw [hop] at hs; cases hs
  exact { h with
    found := fun _ hst => hnone (fdcStreamed_isSector hst)
    length := hnone
    offset := hnone
    next := fun hm => hnone (FdcOp.isSector_of_isMultiple hm)
    field := fun _ => hfield }

/-- A data mark is where the field's length is decided; the bytes of the field keep below it. -/
theorem fdcWtParse_within (h : FdcWithin base fdc) (hop : fdc.currentop = .writeTrack)
    (value : Byte)
    (hfit : fdc.wtState = .scan → value = 0xFB#8 ∨ value = 0xF8#8 →
      ∀ p ∈ fdcFindSector fdc fdc.wtSector, p.off + (fdcWtLen fdc.wtSizeCode).toNat ≤ fdc.diskSize) :
    FdcWithin base (fdcWtParse fdc value) := by
  unfold fdcWtParse
  split
  · rename_i hscan
    split_ifs with hid hmark
    · exact FdcOn.within_of_format { h with } hop nofun
    · refine FdcOn.within_of_format { h.toFdcOn.lookup fdc.wtSector with } hop fun _ p hp _ => ?_
      exact hfit hscan (by simpa using hmark) p hp
    · exact h
  · refine FdcOn.within_of_format { h with } hop fun hdata => ?_
    dsimp only at hdata
    split_ifs at hdata
  · rename_i hdata
    obtain ⟨heap, hstore⟩ : ∃ heap, (if fdc.curOffset < fdc.wtDataLen then fdc.storeByte value
        else fdc) = { fdc with heap := heap } := by
      split_ifs
      · exact storeByte_frame fdc value
      · exact ⟨fdc.heap, rfl⟩
    rw [hstore]
    dsimp only
    by_cases hend : fdc.curOffset + 1#16 ≥ fdc.wtDataLen
    · rw [if_pos hend]
      exact FdcOn.within_of_format { h with } hop nofun
    · rw [if_neg hend]
      refine FdcOn.within_of_format { h with } hop fun _ p hp _ => ?_
      have hlt : fdc.curOffset + 1#16 < fdc.wtDataLen := BitVec.not_le.mp hend
      refine h.field hop hdata p hp ?_
      by_cases hlast : fdc.curOffset = 0xFFFF#16
      · exact .inr hlast
      · left; bv_omega
  · exact h

theorem fdcWriteTrackByte_within (h : FdcWithin base fdc) (hop : fdc.currentop = .writeTrack)
    (value : Byte)
    (hfit : fdc.wtState = .scan → value = 0xFB#8 ∨ value = 0xF8#8 →
      ∀ p ∈ fdcFindSector fdc fdc.wtSector, p.off + (fdcWtLen fdc.wtSizeCode).toNat ≤ fdc.diskSize) :
    FdcWithin base (fdcWriteTrackByte fdc value) := by
  have h₀ : FdcWithin base { fdc with diskModified := true } := { h with }
  have h₁ := fdcWtParse_within h₀ hop value hfit
  unfold fdcWriteTrackByte
  dsimp only
  split_ifs
  · exact fdcEndCommand_within (fdcClrDrq_on h₁.toFdcOn) _ _
  · exact { h₁ with }

theorem fdcReadData_within (h : FdcWithin base fdc) : FdcWithin base (fdcReadData fdc) := by
  unfold fdcReadData
  split
  · rename_i hop
    exact fdcReadSectorByte_within h (by rw [hop]; rfl)
  · rename_i hop
    exact fdcReadSectorByte_within h (by rw [hop]; rfl)
  · rename_i hop
    exact fdcReadAddressByte_within h.toFdcOn hop
  · exact h

theorem fdcWriteData_within (h : FdcWithin base fdc) (value : Byte)
    (hfit : fdc.currentop = .writeTrack → fdc.wtState = .scan → value = 0xFB#8 ∨ value = 0xF8#8 →
      ∀ p ∈ fdcFindSector fdc fdc.wtSector, p.off + (fdcWtLen fdc.wtSizeCode).toNat ≤ fdc.diskSize) :
    FdcWithin base (fdcWriteData fdc value) := by
  have h₀ : FdcWithin base { fdc with data := value } := { h with }
  unfold fdcWriteData
  dsimp only
  split
  · rename_i hop
    exact fdcWriteSectorByte_within h₀ (by rw [hop]; rfl) value
  · rename_i hop
    exact fdcWriteSectorByte_within h₀ (by rw [hop]; rfl) value
  · rename_i hop
    exact fdcWriteTrackByte_within h₀ hop value (hfit hop)
  · exact h₀

/-! ## Ticks -/

theorem fdcTickInt_within (h : FdcWithin base fdc) (cycles : BitVec 32) :
    FdcWithin base (fdcTickInt fdc cycles) := by
  unfold fdcTickInt
  dsimp only
  split_ifs <;> exact { h with }

theorem fdcTickLost_within (h : FdcWithin base fdc) (cycles : BitVec 32) :
    FdcWithin base (fdcTickLost fdc cycles) := by
  unfold fdcTickLost
  dsimp only
  split_ifs <;> exact { h with }

/-- The stream starts at the sector's first byte, or after it. -/
theorem fdcStreamStart_within (h : FdcWithin base fdc) (hst : fdcStreamed fdc = true)
    (hcur : fdc.curSectorData.isSome) : FdcWithin base (fdcStreamStart fdc) := by
  have hoff : ∀ k : Word, k ≤ 1#16 → ∀ p, fdc.curSectorData = some p →
      p.off + k.toNat < fdc.diskSize := by
    intro k hk p hp
    obtain ⟨-, hsize⟩ := h.sector p hp
    rw [h.size]
    bv_omega
  have hwt : ∀ {P : Prop}, fdc.currentop = .writeTrack → P := fun hop => by
    have hsector := fdcStreamed_isSector hst
    rw [hop] at hsector
    cases hsector
  unfold fdcStreamStart
  dsimp only
  split_ifs
  · exact { h with
      found := fun _ _ => hcur
      offset := fun _ p hp => .inl (hoff 0#16 (by decide) p hp)
      field := hwt }
  · exact { h with
      found := fun _ _ => hcur
      offset := fun _ p hp => .inl (hoff 1#16 (by decide) p hp)
      field := hwt }

theorem fdcStreamDrq_within (h : FdcWithin base fdc) : FdcWithin base (fdcStreamDrq fdc) :=
  { h with }

theorem fdcTickDrq_within (h : FdcWithin base fdc) (cycles : BitVec 32) :
    FdcWithin base (fdcTickDrq fdc cycles) := by
  unfold fdcTickDrq
  dsimp only
  split_ifs with hd hexp hstart
  · rw [Bool.and_eq_true] at hstart
    exact fdcStreamStart_within { h with } hstart.1 hstart.2
  · exact fdcStreamDrq_within { h with }
  · exact { h with }
  · exact h

/-! ## The stream -/

theorem fdcStreamLost_within (h : FdcWithin base fdc) : FdcWithin base (fdcStreamLost fdc) :=
  { h with }

theorem fdcStreamSectorDone_within (h : FdcOn base fdc) (hop : fdc.currentop.isSector = true)
    (hnext : fdc.currentop.isMultiple = true → ∀ secId p, fdcFindSector fdc secId = some p →
      p.off + fdc.curSectorLen.toNat ≤ fdc.diskSize) :
    FdcWithin base (fdcStreamSectorDone fdc) := by
  have hwt : fdc.currentop ≠ .writeTrack := fun heq => by rw [heq] at hop; cases hop
  have h₁ : FdcOn base { fdc with sector := fdc.sector + 1#8, curOffset := 0 } := { h with }
  have h₂ := h₁.lookup (fdc.sector + 1#8)
  unfold fdcStreamSectorDone
  dsimp only
  split_ifs with hmult
  · split
    · exact FdcOn.within_of_paced { h₂ with } rfl hwt (hnext hmult (fdc.sector + 1#8))
        (fun _ => hnext hmult) (h₂.start_inImage rfl)
    · exact FdcOn.within_of_none { h₂ with } rfl
  · exact FdcOn.within_of_none { h with } rfl

/-- A running stream. -/
structure FdcFlowing (base fdc : Fdc) : Prop extends FdcWithin base fdc where
  running : fdc.stream = true
  streamed : fdcStreamed fdc = true

/-- What a step leads to: the stream ends, or goes on. -/
def FdcFlowsTo (base fdc : Fdc) : Prop :=
  (FdcWithin base fdc ∧ fdc.stream = false) ∨ FdcFlowing base fdc

theorem FdcFlowing.op (h : FdcFlowing base fdc) : fdc.currentop.isSector = true :=
  fdcStreamed_isSector h.streamed

theorem FdcFlowing.fits (h : FdcFlowing base fdc) :
    ∀ p, fdc.curSectorData = some p → p.off + fdc.curSectorLen.toNat ≤ fdc.diskSize :=
  h.length h.op

/-- A stream goes on at an offset below its length, or past its last byte. -/
theorem FdcFlowing.of_step (h : FdcOn base fdc) (hrun : fdc.stream = true)
    (hst : fdcStreamed fdc = true) (hcur : fdc.curSectorData.isSome)
    (hlen : ∀ p, fdc.curSectorData = some p → p.off + fdc.curSectorLen.toNat ≤ fdc.diskSize)
    (hnext : fdc.currentop.isMultiple = true → ∀ secId p, fdcFindSector fdc secId = some p →
      p.off + fdc.curSectorLen.toNat ≤ fdc.diskSize)
    (hoff : fdc.curOffset < fdc.curSectorLen ∨ fdc.streamCrc = true ∨
      (fdcOpIsWrite fdc.currentop = false ∧ fdc.curSectorLen ≤ fdc.curOffset)) :
    FdcFlowing base fdc :=
  { h with
    found := fun _ _ => hcur
    length := fun _ => hlen
    offset := fun _ p hp => by
      rcases hoff with hlt | hpast
      · have hfit := hlen p hp
        left
        bv_omega
      · exact .inr ⟨hrun, hst, hpast⟩
    next := hnext
    field := fun hop => by
      have hsector := fdcStreamed_isSector hst
      rw [hop] at hsector
      cases hsector
    running := hrun
    streamed := hst }

theorem fdcStreamStepWrite_flows (h : FdcFlowing base fdc) :
    FdcFlowsTo base (fdcStreamStepWrite fdc) := by
  have hcur := h.found h.running h.streamed
  unfold fdcStreamStepWrite
  split
  · left
    refine ⟨fdcStreamSectorDone_within { h.toFdcOn with } ?_ ?_, fdcStreamSectorDone_stream _⟩
    · dsimp only
      split_ifs
      · rfl
      · exact h.op
    · intro hmult
      refine h.next ?_
      dsimp only at hmult
      split_ifs at hmult with hws
      · cases hmult
      · exact hmult
  · right
    obtain ⟨status, lost, heap, hput⟩ := fdcStreamPut_frame fdc
    rw [hput]
    dsimp only
    split_ifs with hin
    · exact .of_step { h.toFdcOn with } h.running h.streamed hcur h.fits h.next (.inl hin)
    · exact .of_step { h.toFdcOn with } h.running h.streamed hcur h.fits h.next (.inr (.inl rfl))

theorem fdcStreamStepRead_flows (h : FdcFlowing base fdc)
    (hr : fdcOpIsWrite fdc.currentop = false) : FdcFlowsTo base (fdcStreamStepRead fdc) := by
  have hcur := h.found h.running h.streamed
  right
  unfold fdcStreamStepRead
  split_ifs with hin
  · obtain ⟨status, lost, data, hget⟩ := fdcStreamGet_frame fdc
    rw [hget]
    refine .of_step { h.toFdcOn with } h.running h.streamed hcur h.fits h.next ?_
    by_cases hlt : fdc.curOffset + 1#16 < fdc.curSectorLen
    · exact .inl hlt
    · exact .inr (.inr ⟨hr, BitVec.not_lt.mp hlt⟩)
  · exact .of_step { h.toFdcOn with } h.running h.streamed hcur h.fits h.next (.inr (.inl rfl))

theorem fdcStreamStep_flows (h : FdcFlowing base fdc) : FdcFlowsTo base (fdcStreamStep fdc) := by
  unfold fdcStreamStep
  split_ifs with hcrc hlost hw
  · exact .inl ⟨fdcStreamSectorDone_within (fdcStreamLost_within h.toFdcWithin).toFdcOn h.op h.next,
      fdcStreamSectorDone_stream _⟩
  · exact .inl ⟨fdcStreamSectorDone_within h.toFdcOn h.op h.next, fdcStreamSectorDone_stream _⟩
  · exact fdcStreamStepWrite_flows h
  · exact fdcStreamStepRead_flows h (by simpa using hw)

theorem fdcStreamLoop_within (fuel : Nat) (h : FdcFlowing base fdc) :
    FdcWithin base (fdcStreamLoop fuel fdc) := by
  induction fuel generalizing fdc with
  | zero => exact h.toFdcWithin
  | succ fuel ih =>
    unfold fdcStreamLoop
    split_ifs with hdue
    · rcases fdcStreamStep_flows h with ⟨hend, hstop⟩ | hgo
      · rwa [fdcStreamLoop_of_stopped hstop]
      · exact ih hgo
    · exact h.toFdcWithin

theorem fdcTickStream_within (h : FdcWithin base fdc) (cycles : BitVec 32) :
    FdcWithin base (fdcTickStream fdc cycles) := by
  unfold fdcTickStream
  split_ifs with hs hst
  · exact fdcStreamLoop_within _ { h with running := hs, streamed := hst }
  · have hstop : FdcWithin base { fdc with stream := false } := { h with
      found := fun hs' => by cases hs'
      offset := fun hop p hp => by
        rcases h.offset hop p hp with hin | ⟨-, hst', -⟩
        · exact .inl hin
        · exact absurd hst' hst }
    exact fdcTickLost_within hstop cycles
  · exact fdcTickLost_within h cycles

theorem fdcTicktock_within (h : FdcWithin base fdc) (cycles : BitVec 32) :
    FdcWithin base (fdcTicktock fdc cycles) := by
  have hspin : FdcWithin base
      { fdc with rotPos := (fdc.rotPos + cycles.toNat) % 2 ^ 32 % fdcRevCycles } := { h with }
  exact fdcTickStream_within (fdcTickDrq_within (fdcTickInt_within hspin cycles) cycles) cycles

/-- What the file must satisfy is what every access keeps. -/
theorem fdcAccess_within (h : FdcWithin base fdc) (a : FdcAccess) (hfit : FdcFieldFits fdc a) :
    FdcWithin base (fdcAccess fdc a) := by
  cases a with
  | write reg value =>
    change FdcWithin base (fdcWrite fdc reg value)
    unfold fdcWrite
    cases hreg : fdcReg reg with
    | command => exact fdcWriteCommand_within h.toFdcOn value
    | track => exact { h with }
    | sector => exact { h with }
    | data => exact fdcWriteData_within h value (hfit hreg)
  | read reg =>
    change FdcWithin base (fdcRead fdc reg).2
    unfold fdcRead
    cases fdcReg reg with
    | command => exact { h with }
    | track => exact h
    | sector => exact h
    | data => exact fdcReadData_within h
  | ticktock cycles => exact fdcTicktock_within h cycles

/-! ## The places touched are in the image -/

/-- A byte a transfer is at is a byte of the image. -/
theorem FdcOn.cell_inImage (h : FdcOn base fdc) (hcur : fdc.curSectorData.isSome)
    (hlt : ∀ p, fdc.curSectorData = some p → p.off + fdc.curOffset.toNat < fdc.diskSize) :
    base.InImage fdc.cell := by
  obtain ⟨p, hp⟩ := Option.isSome_iff_exists.mp hcur
  refine ⟨⟨p.buf, p.off + fdc.curOffset.toNat⟩, ?_, (h.sector p hp).1, ?_⟩
  · simp [Fdc.cell, hp]
  · exact h.size ▸ hlt p hp

theorem fdcStreamStepCells_inImage (h : FdcFlowing base fdc) :
    ∀ c ∈ fdcStreamStepCells fdc, base.InImage c := by
  have hcur := h.found h.running h.streamed
  intro c hc
  unfold fdcStreamStepCells at hc
  split_ifs at hc with hcrc hw hlate hlt
  · cases hc
  · cases hc
  · rw [List.mem_singleton] at hc
    subst hc
    refine h.cell_inImage hcur fun p hp => ?_
    rcases h.offset h.op p hp with hin | ⟨-, -, hpast⟩
    · exact hin
    · rcases hpast with hcrc' | ⟨hr, -⟩
      · exact absurd hcrc' hcrc
      · rw [hr] at hw; cases hw
  · rw [List.mem_singleton] at hc
    subst hc
    refine h.cell_inImage hcur fun p hp => ?_
    have hfit := h.fits p hp
    bv_omega
  · cases hc

theorem fdcStreamLoopCells_of_stopped {fuel : Nat} (h : fdc.stream = false) :
    fdcStreamLoopCells fuel fdc = [] := by
  cases fuel <;> simp [fdcStreamLoopCells, h]

theorem fdcStreamLoopCells_inImage (fuel : Nat) (h : FdcFlowing base fdc) :
    ∀ c ∈ fdcStreamLoopCells fuel fdc, base.InImage c := by
  induction fuel generalizing fdc with
  | zero => exact nofun
  | succ fuel ih =>
    intro c hc
    unfold fdcStreamLoopCells at hc
    split_ifs at hc with hdue
    · rcases List.mem_append.mp hc with hstep | hrest
      · exact fdcStreamStepCells_inImage h c hstep
      · rcases fdcStreamStep_flows h with ⟨-, hstop⟩ | hgo
        · rw [fdcStreamLoopCells_of_stopped hstop] at hrest
          cases hrest
        · exact ih hgo c hrest
    · cases hc

theorem fdcTickDrqCells_inImage (h : FdcWithin base fdc) (cycles : BitVec 32) :
    ∀ c ∈ fdcTickDrqCells fdc cycles, base.InImage c := by
  intro c hc
  unfold fdcTickDrqCells at hc
  split_ifs at hc with hexp hstart
  · rw [List.mem_singleton] at hc
    subst hc
    simp only [Bool.and_eq_true] at hstart
    have h₀ : FdcOn base { fdc with curOffset := 0 } := { h with }
    exact h₀.cell_inImage hstart.1.2 (h₀.start_inImage rfl)
  · cases hc
  · cases hc

theorem fdcTickStreamCells_inImage (h : FdcWithin base fdc) (cycles : BitVec 32) :
    ∀ c ∈ fdcTickStreamCells fdc cycles, base.InImage c := by
  unfold fdcTickStreamCells
  split_ifs with hrun
  · rw [Bool.and_eq_true] at hrun
    exact fdcStreamLoopCells_inImage _ { h with running := hrun.1, streamed := hrun.2 }
  · exact nofun

theorem fdcTicktockCells_inImage (h : FdcWithin base fdc) (cycles : BitVec 32) :
    ∀ c ∈ fdcTicktockCells fdc cycles, base.InImage c := by
  have hspin : FdcWithin base
      { fdc with rotPos := (fdc.rotPos + cycles.toNat) % 2 ^ 32 % fdcRevCycles } := { h with }
  have hint := fdcTickInt_within hspin cycles
  have hdrq := fdcTickDrq_within hint cycles
  intro c hc
  rcases List.mem_append.mp hc with hstart | hstream
  · exact fdcTickDrqCells_inImage hint cycles c hstart
  · exact fdcTickStreamCells_inImage hdrq cycles c hstream

/-- The host's byte, in a transfer the host paces. -/
theorem fdcSectorByteCells_inImage (h : FdcWithin base fdc) (hop : fdc.currentop.isSector = true) :
    ∀ c ∈ fdcSectorByteCells fdc, base.InImage c := by
  intro c hc
  unfold fdcSectorByteCells at hc
  split_ifs at hc with hcur
  · rw [List.mem_singleton] at hc
    subst hc
    simp only [Bool.and_eq_true, Bool.not_eq_true'] at hcur
    refine h.cell_inImage hcur.1 fun p hp => ?_
    rcases h.offset hop p hp with hin | ⟨hs, -⟩
    · exact hin
    · rw [hs] at hcur; cases hcur.2
  · cases hc

theorem fdcReadDataCells_inImage (h : FdcWithin base fdc) :
    ∀ c ∈ fdcReadDataCells fdc, base.InImage c := by
  unfold fdcReadDataCells
  split
  · rename_i hop
    exact fdcSectorByteCells_inImage h (by rw [hop]; rfl)
  · rename_i hop
    exact fdcSectorByteCells_inImage h (by rw [hop]; rfl)
  · exact nofun

theorem fdcWriteDataCells_inImage (h : FdcWithin base fdc) :
    ∀ c ∈ fdcWriteDataCells fdc, base.InImage c := by
  unfold fdcWriteDataCells
  split
  · rename_i hop
    exact fdcSectorByteCells_inImage h (by rw [hop]; rfl)
  · rename_i hop
    exact fdcSectorByteCells_inImage h (by rw [hop]; rfl)
  · rename_i hop
    intro c hc
    split_ifs at hc with hin
    · rw [List.mem_singleton] at hc
      subst hc
      obtain ⟨hdata, hcur, hlt⟩ := hin
      refine h.cell_inImage hcur fun p hp => ?_
      have hfit := h.field hop hdata p hp (.inl hlt)
      bv_omega
    · cases hc
  · exact nofun

theorem fdcCells_inImage (h : FdcWithin base fdc) (a : FdcAccess) :
    ∀ c ∈ fdcCells fdc a, base.InImage c := by
  cases a with
  | write reg value =>
    unfold fdcCells
    dsimp only
    split_ifs
    · exact fdcWriteDataCells_inImage h
    · exact nofun
  | read reg =>
    unfold fdcCells
    dsimp only
    split_ifs
    · exact fdcReadDataCells_inImage h
    · exact nofun
  | ticktock cycles => exact fdcTicktockCells_inImage h cycles

/-! ## The loop ends

Whatever offset and length were loaded, a tick's loop stops before its fuel does. -/

/-- Steps left of a stream. A write at offset 65535 goes on at 0. -/
def fdcStreamRoom (fdc : Fdc) : Nat :=
  if fdc.stream = false then 0
  else if fdc.streamCrc = true then 1
  else if fdcOpIsWrite fdc.currentop = true ∧ fdc.curOffset = 0xFFFF#16 then 65538
  else 2 + (fdc.curSectorLen.toNat - fdc.curOffset.toNat)

theorem fdcStreamRoom_le (fdc : Fdc) : fdcStreamRoom fdc ≤ 65538 := by
  unfold fdcStreamRoom
  split_ifs <;> omega

theorem fdcStreamRoom_of_stopped (h : fdc.stream = false) : fdcStreamRoom fdc = 0 := if_pos h

theorem fdcStreamRoom_of_crc (hs : fdc.stream = true) (hcrc : fdc.streamCrc = true) :
    fdcStreamRoom fdc = 1 := by
  simp [fdcStreamRoom, hs, hcrc]

theorem fdcStreamRoom_of_bytes (hs : fdc.stream = true) (hcrc : fdc.streamCrc = false)
    (hwrap : fdcOpIsWrite fdc.currentop = true → fdc.curOffset ≠ 0xFFFF#16) :
    fdcStreamRoom fdc = 2 + (fdc.curSectorLen.toNat - fdc.curOffset.toNat) := by
  have hnot : ¬(fdcOpIsWrite fdc.currentop = true ∧ fdc.curOffset = 0xFFFF#16) :=
    fun h => hwrap h.1 h.2
  unfold fdcStreamRoom
  rw [if_neg (by simp [hs]), if_neg (by simp [hcrc]), if_neg hnot]

/-- Before the CRC more than its step is left. -/
theorem fdcStreamRoom_gt (hs : fdc.stream = true) (hcrc : fdc.streamCrc = false) :
    1 < fdcStreamRoom fdc := by
  unfold fdcStreamRoom
  rw [if_neg (by simp [hs]), if_neg (by simp [hcrc])]
  split_ifs <;> omega

theorem fdcStreamStepWrite_room (hs : fdc.stream = true) (hcrc : fdc.streamCrc = false)
    (hw : fdcOpIsWrite fdc.currentop = true) :
    fdcStreamRoom (fdcStreamStepWrite fdc) < fdcStreamRoom fdc := by
  have hgt := fdcStreamRoom_gt hs hcrc
  unfold fdcStreamStepWrite
  split
  · rw [fdcStreamRoom_of_stopped (fdcStreamSectorDone_stream _)]
    omega
  · obtain ⟨status, lost, heap, hput⟩ := fdcStreamPut_frame fdc
    rw [hput]
    dsimp only
    split_ifs with hin
    · have hnext : fdc.curOffset + 1#16 ≠ 0xFFFF#16 := by bv_omega
      refine lt_of_eq_of_lt (fdcStreamRoom_of_bytes (by exact hs) (by exact hcrc) fun _ => hnext) ?_
      change 2 + (fdc.curSectorLen.toNat - (fdc.curOffset + 1#16).toNat) < _
      by_cases hlast : fdc.curOffset = 0xFFFF#16
      · have hwrap : fdcStreamRoom fdc = 65538 := by
          simp [fdcStreamRoom, hs, hcrc, hw, hlast]
        rw [hwrap]
        omega
      · rw [fdcStreamRoom_of_bytes hs hcrc fun _ => hlast]
        bv_omega
    · exact lt_of_eq_of_lt (fdcStreamRoom_of_crc (by exact hs) (by rfl)) hgt

theorem fdcStreamStepRead_room (hs : fdc.stream = true) (hcrc : fdc.streamCrc = false)
    (hr : fdcOpIsWrite fdc.currentop = false) :
    fdcStreamRoom (fdcStreamStepRead fdc) < fdcStreamRoom fdc := by
  have hread : ∀ {P : Prop}, fdcOpIsWrite fdc.currentop = true → P := fun hw => by
    rw [hr] at hw; cases hw
  unfold fdcStreamStepRead
  split_ifs with hin
  · obtain ⟨status, lost, data, hget⟩ := fdcStreamGet_frame fdc
    rw [hget, fdcStreamRoom_of_bytes hs hcrc hread]
    refine lt_of_eq_of_lt (fdcStreamRoom_of_bytes (by exact hs) (by exact hcrc) hread) ?_
    change 2 + (fdc.curSectorLen.toNat - (fdc.curOffset + 1#16).toNat) < _
    bv_omega
  · exact lt_of_eq_of_lt (fdcStreamRoom_of_crc (by exact hs) (by rfl)) (fdcStreamRoom_gt hs hcrc)

theorem fdcStreamStep_room (hs : fdc.stream = true) :
    fdcStreamRoom (fdcStreamStep fdc) < fdcStreamRoom fdc := by
  unfold fdcStreamStep
  by_cases hcrc : fdc.streamCrc = true
  · rw [if_pos hcrc, fdcStreamRoom_of_stopped (fdcStreamSectorDone_stream _)]
    simp [fdcStreamRoom, hs, hcrc]
  · rw [if_neg hcrc]
    split_ifs with hw
    · exact fdcStreamStepWrite_room hs (by simpa using hcrc) hw
    · exact fdcStreamStepRead_room hs (by simpa using hcrc) (by simpa using hw)

theorem fdcStreamLoop_settles (fuel : Nat) (h : fdcStreamRoom fdc ≤ fuel) :
    ¬((fdcStreamLoop fuel fdc).stream = true ∧ (fdcStreamLoop fuel fdc).streamDue ≤ 0) := by
  induction fuel generalizing fdc with
  | zero =>
    rintro ⟨hs, -⟩
    have hs' : fdc.stream = true := hs
    have hstep := fdcStreamStep_room hs'
    omega
  | succ fuel ih =>
    unfold fdcStreamLoop
    split_ifs with hdue
    · rw [Bool.and_eq_true] at hdue
      have hstep := fdcStreamStep_room hdue.1
      exact ih (by omega)
    · simpa using hdue

/-! ## Loading -/

/-- A section of `size` bytes loaded from the bytes of `file`, and resumed. -/
def fdcLoaded (target : Fdc) (size : Nat) (file : List Byte) : Fdc :=
  fdcStateResume (fdcStateLoad target size file).1

/-- The controllers have the same medium. -/
def FdcMediumOf (target fdc : Fdc) : Prop :=
  fdc.diskData = target.diskData ∧ fdc.diskSize = target.diskSize

theorem fdcStateLoadRegisters_medium (file : List Byte) :
    FdcMediumOf fdc (fdcStateLoadRegisters fdc file).1 := by
  unfold fdcStateLoadRegisters
  repeat refine Binary.bind_result (P := FdcMediumOf fdc) _ _ (fun _ _ => ?_) _
  exact ⟨rfl, rfl⟩

theorem fdcStateLoadTiming_medium (size : Nat) (file : List Byte) :
    FdcMediumOf fdc (fdcStateLoadTiming fdc size file).1 := by
  unfold fdcStateLoadTiming
  split_ifs
  · repeat refine Binary.bind_result (P := FdcMediumOf fdc) _ _ (fun _ _ => ?_) _
    exact ⟨rfl, rfl⟩
  · exact ⟨rfl, rfl⟩

theorem fdcStateLoadFormat_medium (size : Nat) (file : List Byte) :
    FdcMediumOf fdc (fdcStateLoadFormat fdc size file).1 := by
  unfold fdcStateLoadFormat
  split_ifs
  · repeat refine Binary.bind_result (P := FdcMediumOf fdc) _ _ (fun _ _ => ?_) _
    exact ⟨rfl, rfl⟩
  · exact ⟨rfl, rfl⟩

theorem fdcStateLoadStream_medium (size : Nat) (file : List Byte) :
    FdcMediumOf fdc (fdcStateLoadStream fdc size file).1 := by
  unfold fdcStateLoadStream
  split_ifs
  · repeat refine Binary.bind_result (P := FdcMediumOf fdc) _ _ (fun _ _ => ?_) _
    exact ⟨rfl, rfl⟩
  · exact ⟨rfl, rfl⟩

theorem FdcMediumOf.trans {a b c : Fdc} (h : FdcMediumOf a b) (h' : FdcMediumOf b c) :
    FdcMediumOf a c :=
  ⟨h'.1.trans h.1, h'.2.trans h.2⟩

theorem fdcStateLoad_medium (target : Fdc) (size : Nat) (file : List Byte) :
    FdcMediumOf target (fdcStateLoad target size file).1 := by
  unfold fdcStateLoad
  refine Binary.bind_result_of (Q := FdcMediumOf target) (fdcStateLoadRegisters_medium file) ?_
  intro f₁ rest₁ h₁
  refine Binary.bind_result_of (Q := FdcMediumOf target)
    (h₁.trans (fdcStateLoadTiming_medium size rest₁)) ?_
  intro f₂ rest₂ h₂
  refine Binary.bind_result_of (Q := FdcMediumOf target)
    (h₂.trans (fdcStateLoadFormat_medium size rest₂)) ?_
  intro f₃ rest₃ h₃
  exact h₃.trans (fdcStateLoadStream_medium size rest₃)

/-- Whatever was loaded, the pointer is one to a sector of the medium. -/
theorem fdcLoaded_on (target : Fdc) (size : Nat) (file : List Byte) :
    FdcOn target (fdcLoaded target size file) := by
  obtain ⟨hdisk, hsize⟩ := fdcStateLoad_medium target size file
  unfold fdcLoaded
  generalize (fdcStateLoad target size file).1 = fdc at hdisk hsize
  have hnone : FdcOn target { fdc with curSectorData := none } := ⟨hdisk, hsize, nofun⟩
  have hlook : ∀ secId, FdcOn target (fdc.lookup secId) := fun secId => hnone.lookup secId
  unfold fdcStateResume
  split
  · exact hlook _
  · exact hlook _
  · exact hlook _
  · exact hlook _
  · exact hlook _
  · split_ifs
    · exact hlook _
    · exact hnone
  · exact hnone

theorem fdcLoaded_inImage (target : Fdc) (size : Nat) (file : List Byte) (ops : List FdcAccess)
    (hload : FdcLoadFits (fdcLoaded target size file))
    (hops : Machine.Throughout fdcAccess FdcFieldFits ops (fdcLoaded target size file)) :
    Machine.Throughout fdcAccess (fun fdc a => ∀ c ∈ fdcCells fdc a, target.InImage c) ops
      (fdcLoaded target size file) := by
  have hstart : FdcWithin target (fdcLoaded target size file) :=
    { fdcLoaded_on target size file, hload with }
  exact Machine.Throughout.of_invariant (fun _ a h hfit => fdcAccess_within h a hfit)
    (fun _ a h _ => fdcCells_inImage h a) ops hstart hops

/-- A section saved in the middle of a read of the last sector of `fdcSampleMounted`, at an
offset. -/
def fdcReadingFile (offset : Word) : List Byte :=
  fdcStateSave { fdcSampleMounted with
    currentop := .readSector, cTrack := 79, sector := 17, curSectorLen := 256, curOffset := offset }

/-- The last byte is read, at offset 255. -/
theorem fdcLoaded_inImage_lastByte :
    Machine.Throughout fdcAccess (fun fdc a => ∀ c ∈ fdcCells fdc a, fdcSampleMounted.InImage c)
      [.read 3, .ticktock 32] (fdcLoaded fdcSampleMounted fdcStateSize (fdcReadingFile 255)) := by
  have hcur : (fdcLoaded fdcSampleMounted fdcStateSize (fdcReadingFile 255)).curSectorData =
      some ⟨0, 696064⟩ := by decide
  refine fdcLoaded_inImage fdcSampleMounted fdcStateSize (fdcReadingFile 255) _ ?_
    ⟨trivial, trivial, trivial⟩
  exact {
    found := by decide
    length := fun _ p hp => by
      rw [hcur] at hp
      cases hp
      decide
    offset := fun _ p hp => by
      rw [hcur] at hp
      cases hp
      left
      decide
    next := fun hmult => absurd hmult (by decide)
    field := fun hop => absurd hop (by decide) }

/-- The offset is taken from the file: a section that says 65535 reads past the image. -/
theorem fdcLoaded_outside :
    ¬∀ (target : Fdc) (size : Nat) (file : List Byte) (ops : List FdcAccess), FdcMounted target →
      Machine.Throughout fdcAccess (fun fdc a => ∀ c ∈ fdcCells fdc a, target.InImage c) ops
        (fdcLoaded target size file) := by
  intro hall
  have hrun := hall fdcSampleMounted fdcStateSize (fdcReadingFile 0xFFFF) [.read 3]
    fdcSampleMounted_mounted
  have hcells : fdcCells (fdcLoaded fdcSampleMounted fdcStateSize (fdcReadingFile 0xFFFF))
      (.read 3) = [some ⟨0, 761599⟩] := by decide
  obtain ⟨a, ha, -, hlt⟩ := hrun.1 (some ⟨0, 761599⟩) (by rw [hcells]; exact List.mem_cons_self)
  cases ha
  exact absurd hlt (by decide)

end Phosphoric
