import Phosphoric.Lib.Heap
import Phosphoric.Lib.Word

/-!
# The WD1793 floppy disk controller

The controller of `src/storage/disk.c`: registers, delayed DRQ and INTRQ, the byte stream tied to
the platter and the track format parser. `FdcTiming.fast` serves bytes on CPU demand,
`FdcTiming.real` adds step rates, rotation and the stream.

The image buffers are a `Heap` of pointers, a buffer and an offset into it. The media is a plain
image: the HTTP-backed one (`web`) is not modelled.
-/

namespace Phosphoric

/-! ## State -/

/-- `fdc_op_t`. -/
inductive FdcOp
  | none | readSector | readSectors | writeSector | writeSectors | readAddress | readTrack
  | writeTrack
  deriving DecidableEq, Repr

/-- `FDC_TIMING_FAST`, `FDC_TIMING_REAL`. -/
inductive FdcTiming
  | fast | real
  deriving DecidableEq, Repr

/-- `wt_state`: scanning for marks, in an ID field, in a data field; and the values only a file
brings, which no operation acts on. -/
inductive WtState
  | scan | idField | dataField
  | other (value : Byte)
  deriving DecidableEq, Repr

/-- The calls the controller makes on its callbacks. -/
inductive FdcSignal
  | setDrq | clrDrq | setIntrq | clrIntrq
  deriving DecidableEq, Repr

structure FdcBadSector where
  side : Byte
  track : Byte
  sector : Byte
  deriving DecidableEq, Repr

/-- `fdc_bad_map_t`, its entries in use. -/
structure FdcBadMap where
  entry : List FdcBadSector
  count_le : entry.length ≤ 16
  deriving DecidableEq, Repr

def FdcBadMap.empty : FdcBadMap := ⟨[], by decide⟩

/-- A pointer into an image buffer. -/
structure Ptr where
  buf : Nat
  off : Nat
  deriving DecidableEq, Repr

/-- `fdc_t`. `diStatus` and `ddStatus` are `none` for the source's -1, pointers are `none` for
null. -/
structure Fdc where
  status : Byte
  track : Byte
  sector : Byte
  data : Byte
  direction : Byte
  cTrack : Byte
  side : Byte
  /-- The buffer `disk_data` points to the start of. -/
  diskData : Option Nat
  diskSize : Nat
  tracks : Byte
  sectorsPerTrack : Byte
  diskModified : Bool
  currentop : FdcOp
  curSectorData : Option Ptr
  /-- The number `curSectorData` was looked up by. A ghost: no operation reads it. -/
  curSectorId : Byte
  curSectorLen : Word
  curOffset : Word
  secType : Byte
  wtState : WtState
  wtFieldIdx : Byte
  wtId : Vector Byte 4
  wtDataLen : Word
  wtSectorsDone : Byte
  delayedDrq : Int
  delayedInt : Int
  diStatus : Option Byte
  ddStatus : Option Byte
  timingMode : FdcTiming
  rotPos : Nat
  lostDataCount : BitVec 32
  writeProtected : Bool
  drqAge : Int
  stream : Bool
  streamCrc : Bool
  streamDue : Int
  statusType1 : Bool
  bad : FdcBadMap
  /-- The callbacks called, last first. -/
  signals : List FdcSignal
  /-- The buffers the pointers point into. -/
  heap : Heap Ptr Byte

abbrev fdcStBusy : Byte := 0x01#8
abbrev fdcStiPulse : Byte := 0x02#8
abbrev fdcStDrq : Byte := 0x02#8
abbrev fdcStiTrk0 : Byte := 0x04#8
abbrev fdcStLostData : Byte := 0x04#8
abbrev fdcStiSeekErr : Byte := 0x10#8
abbrev fdcStNotFound : Byte := 0x10#8
abbrev fdcStiHeadl : Byte := 0x20#8
abbrev fdcStWriteProt : Byte := 0x40#8
abbrev fdcStNotReady : Byte := 0x80#8

abbrev fdcRevCycles : Nat := 200000
abbrev fdcByteCycles : Int := 32
abbrev fdcIndexPulseCycles : Nat := 4000
abbrev fdcSettleCycles : Int := 30000
abbrev fdcWriteGapBytes : Int := 22
abbrev fdcRnfCycles : Int := 5 * fdcRevCycles

/-- The value an `int` holds after an operation whose exact result is `x`. -/
def cInt (x : Int) : Int := x.bmod (2 ^ 32)

/-- A call of one of the callbacks. -/
def Fdc.signal (fdc : Fdc) (s : FdcSignal) : Fdc := { fdc with signals := s :: fdc.signals }

/-! ## Media -/

def fdcInit (heap : Heap Ptr Byte) : Fdc where
  status := 0
  track := 0
  sector := 0
  data := 0
  direction := 0
  cTrack := 0
  side := 0
  diskData := none
  diskSize := 0
  tracks := 80
  sectorsPerTrack := 17
  diskModified := false
  currentop := .none
  curSectorData := none
  curSectorId := 0
  curSectorLen := 0
  curOffset := 0
  secType := 0
  wtState := .scan
  wtFieldIdx := 0
  wtId := Vector.replicate 4 0
  wtDataLen := 0
  wtSectorsDone := 0
  delayedDrq := 0
  delayedInt := 0
  diStatus := none
  ddStatus := none
  timingMode := .fast
  rotPos := 0
  lostDataCount := 0
  writeProtected := false
  drqAge := 0
  stream := false
  streamCrc := false
  streamDue := 0
  statusType1 := false
  bad := .empty
  signals := []
  heap := heap

/-- The platter keeps spinning across a reset. -/
def fdcReset (fdc : Fdc) : Fdc :=
  { fdc with
    status := 0, statusType1 := false, track := 0, sector := 1, cTrack := 0, currentop := .none,
    curSectorData := none, curOffset := 0, wtState := .scan, wtFieldIdx := 0,
    wtSectorsDone := 0, delayedDrq := 0, delayedInt := 0, diStatus := none, ddStatus := none,
    stream := false, streamCrc := false, streamDue := 0 }

def fdcSetDisk (fdc : Fdc) (data : Option Nat) (size : Nat) : Fdc :=
  { fdc with diskData := data, diskSize := size }

/-- `none` for the source's -1. -/
def fdcBadMapAdd (map : FdcBadMap) (side track sector : Byte) : Option FdcBadMap :=
  if h : map.entry.length ≥ 16 then none
  else some ⟨map.entry ++ [⟨side, track, sector⟩], by simp; omega⟩

/-- A null map is a pristine one. -/
def fdcSetBadMap (fdc : Fdc) (map : Option FdcBadMap) : Fdc :=
  { fdc with bad := map.getD .empty }

def fdcSetWriteProtect (fdc : Fdc) (protect : Bool) : Fdc := { fdc with writeProtected := protect }

/-- Byte offset of a sector of the current side and head track: sides, then tracks, then
sectors. It fits 32 bits. -/
def fdcSectorOffset (fdc : Fdc) (secId : Byte) : Nat :=
  (fdc.side.toNat * fdc.tracks.toNat * fdc.sectorsPerTrack.toNat
    + fdc.cTrack.toNat * fdc.sectorsPerTrack.toNat + (secId.toNat - 1)) * 256

def fdcFindSector (fdc : Fdc) (secId : Byte) : Option Ptr :=
  match fdc.diskData with
  | none => none
  | some buf =>
    if fdc.cTrack ≥ fdc.tracks || secId == 0#8 || secId > fdc.sectorsPerTrack then none
    else if ⟨fdc.side, fdc.cTrack, secId⟩ ∈ fdc.bad.entry then none
    else if fdcSectorOffset fdc secId + 256 > fdc.diskSize then none
    else some ⟨buf, fdcSectorOffset fdc secId⟩

/-- `cur_sector_data = fdc_find_sector(...)`. -/
def Fdc.lookup (fdc : Fdc) (secId : Byte) : Fdc :=
  { fdc with curSectorData := fdcFindSector fdc secId, curSectorId := secId }

/-- The byte `cur_sector_data[cur_offset]`. -/
def Fdc.sectorByte (fdc : Fdc) : Byte :=
  match fdc.curSectorData with
  | some p => fdc.heap.load ⟨p.buf, p.off + fdc.curOffset.toNat⟩
  | none => 0

/-- `cur_sector_data[cur_offset] = b`. -/
def Fdc.storeByte (fdc : Fdc) (b : Byte) : Fdc :=
  match fdc.curSectorData with
  | some p => { fdc with heap := fdc.heap.store ⟨p.buf, p.off + fdc.curOffset.toNat⟩ b }
  | none => fdc

/-! ## Head and rotation -/

/-- `fdc_step_rate_ms`. -/
def fdcStepRateMs (r : Byte) : Int :=
  if r == 0#8 then 6 else if r == 1#8 then 12 else if r == 2#8 then 20 else 30

/-- Cycles until the sector's data field passes under the head. -/
def fdcRotWait (fdc : Fdc) (secId : Byte) : Int :=
  let spt := if fdc.sectorsPerTrack != 0#8 then fdc.sectorsPerTrack.toNat else 17
  let slice := fdcRevCycles / spt
  let target := (((secId.toNat + 2 ^ 32 - 1) % 2 ^ 32 * slice + slice / 8) % 2 ^ 32) % fdcRevCycles
  let wait := (target + fdcRevCycles - fdc.rotPos) % fdcRevCycles
  if wait < 2 then 2 else wait

/-- The head's target, and the status a seek will end with. -/
def fdcSeekTarget (fdc : Fdc) (target : Byte) : Byte × Byte :=
  if target ≥ fdc.tracks then
    (if fdc.tracks > 0#8 then fdc.tracks - 1#8 else 0#8, fdcStiHeadl ||| fdcStiSeekErr)
  else (target, fdcStiHeadl ||| fdcStiPulse)

/-- Tracks crossed by a seek, at least one. -/
def fdcSeekSteps (fdc : Fdc) (target : Byte) : Int :=
  let steps : Int := if target > fdc.cTrack then target.toNat - fdc.cTrack.toNat
    else fdc.cTrack.toNat - target.toNat
  if steps = 0 then 1 else steps

/-- Cycles a seek takes: a step rate for each track, and the settling time when V asks for a
verify. -/
def fdcSeekCycles (fdc : Fdc) (target cmd : Byte) : Int :=
  match fdc.timingMode with
  | .real =>
    let cycles := fdcSeekSteps fdc target * fdcStepRateMs (cmd &&& 3#8) * 1000
    if cmd &&& 0x04#8 != 0#8 then cycles + fdcSettleCycles else cycles
  | .fast => 20

def fdcSeekTrack (fdc : Fdc) (target cmd : Byte) (updateTrack : Bool) : Fdc :=
  match fdc.diskData with
  | some _ =>
    let (target, st) := fdcSeekTarget fdc target
    { fdc with
      delayedInt := fdcSeekCycles fdc target cmd
      cTrack := target
      track := if updateTrack then target else fdc.track
      diStatus := some (if target == 0#8 then st ||| fdcStiTrk0 else st) }
  | none =>
    { fdc.signal .setIntrq with track := 0, status := fdcStNotReady ||| fdcStiSeekErr }

/-! ## Error exits -/

/-- The controller scans ID fields for five revolutions before it gives up; FAST reports at
once. -/
def fdcRecordNotFound (fdc : Fdc) : Fdc :=
  let fdc := { fdc.signal .clrDrq with currentop := .none }
  match fdc.timingMode with
  | .real =>
    { fdc with status := fdcStBusy, diStatus := some fdcStNotFound, delayedInt := fdcRnfCycles }
  | .fast => { fdc with status := fdcStNotFound }.signal .setIntrq

/-- A command the medium or the tab refuses ends at once, with `st`. -/
def fdcRefuse (fdc : Fdc) (st : Byte) : Fdc :=
  { fdc.signal .clrDrq with currentop := .none, status := st }.signal .setIntrq

/-- `fdc_not_ready`, then the command. -/
def fdcNotReady (fdc : Fdc) (command : Fdc → Fdc) : Fdc :=
  match fdc.diskData with
  | some _ => command fdc
  | none => fdcRefuse fdc fdcStNotReady

/-- `fdc_write_protected`, then the command. -/
def fdcWriteProtected (fdc : Fdc) (command : Fdc → Fdc) : Fdc :=
  if fdc.writeProtected then fdcRefuse fdc fdcStWriteProt else command fdc

/-! ## The byte stream -/

def fdcOpTransfersData (op : FdcOp) : Bool :=
  op == .readSector || op == .readSectors || op == .writeSector || op == .writeSectors ||
    op == .readAddress || op == .readTrack

def fdcOpIsWrite (op : FdcOp) : Bool := op == .writeSector || op == .writeSectors

/-- Sector transfers whose bytes the platter paces. -/
def fdcStreamed (fdc : Fdc) : Bool :=
  fdc.timingMode == .real &&
    (fdc.currentop == .readSector || fdc.currentop == .readSectors ||
      fdc.currentop == .writeSector || fdc.currentop == .writeSectors)

def fdcStreamDrq (fdc : Fdc) : Fdc :=
  { fdc with status := fdc.status ||| fdcStDrq, drqAge := 0 }.signal .setDrq

/-- `status &= ~FDC_ST_DRQ; clr_drq()`. -/
def fdcClrDrq (fdc : Fdc) : Fdc :=
  { fdc with status := fdc.status &&& ~~~fdcStDrq }.signal .clrDrq

def fdcStreamLost (fdc : Fdc) : Fdc :=
  { fdc with
    lostDataCount :=
      if fdc.status &&& fdcStLostData == 0#8 then fdc.lostDataCount + 1 else fdc.lostDataCount
    status := fdc.status ||| fdcStLostData }

/-- End of the data field: next sector or end of command. S2 stays in the final status. -/
def fdcStreamSectorDone (fdc : Fdc) : Fdc :=
  let lost := fdc.status &&& fdcStLostData
  let fdc := fdcClrDrq { fdc with stream := false, streamCrc := false }
  if fdc.currentop == .readSectors || fdc.currentop == .writeSectors then
    let fdc := { fdc with sector := fdc.sector + 1#8, curOffset := 0 }
    let fdc := fdc.lookup fdc.sector
    match fdc.curSectorData with
    | some _ => { fdc with delayedDrq := fdcRotWait fdc fdc.sector }
    | none =>
      { fdc with
        diStatus := some (fdc.secType ||| fdcStNotFound ||| lost), currentop := .none,
        delayedInt := 1 }
  else
    { fdc with diStatus := some (fdc.secType ||| lost), currentop := .none, delayedInt := 1 }

/-- The data field reaches the head. -/
def fdcStreamStart (fdc : Fdc) : Fdc :=
  let fdc := { fdc with stream := true, streamCrc := false, curOffset := 0 }
  if fdcOpIsWrite fdc.currentop then
    { fdcStreamDrq fdc with streamDue := fdcWriteGapBytes * fdcByteCycles }
  else
    let fdc := { fdc with secType := 0, data := fdc.sectorByte, curOffset := fdc.curOffset + 1#16 }
    { fdcStreamDrq fdc with streamDue := fdcByteCycles }

/-- The byte under the head is written: the data register's, or zero if it was not supplied in
time. -/
def fdcStreamPut (fdc : Fdc) : Fdc :=
  let served := fdc.status &&& fdcStDrq == 0#8
  let b := if served then fdc.data else 0x00#8
  let fdc := if served then fdc else fdcStreamLost fdc
  { fdc.storeByte b with curOffset := fdc.curOffset + 1#16, diskModified := true }

/-- The byte under the head goes to the data register, over one not read before it. -/
def fdcStreamGet (fdc : Fdc) : Fdc :=
  let fdc := if fdc.status &&& fdcStDrq != 0#8 then fdcStreamLost fdc else fdc
  { fdc with data := fdc.sectorByte, curOffset := fdc.curOffset + 1#16 }

/-- The write half of `fdc_stream_step`. If the first byte is missing at the end of the gap,
nothing is written and the command ends. -/
def fdcStreamStepWrite (fdc : Fdc) : Fdc :=
  if fdc.curOffset == 0#16 && fdc.status &&& fdcStDrq != 0#8 then
    let fdc := fdcClrDrq { fdcStreamLost fdc with curOffset := fdc.curSectorLen }
    fdcStreamSectorDone
      { fdc with
        currentop := if fdc.currentop == .writeSectors then .writeSector else fdc.currentop }
  else
    let fdc := fdcStreamPut fdc
    if fdc.curOffset < fdc.curSectorLen then
      { fdcStreamDrq fdc with streamDue := cInt (fdc.streamDue + fdcByteCycles) }
    else
      { fdcClrDrq fdc with
        streamCrc := true, streamDue := cInt (fdc.streamDue + 2 * fdcByteCycles) }

/-- The read half of `fdc_stream_step`. -/
def fdcStreamStepRead (fdc : Fdc) : Fdc :=
  if fdc.curOffset < fdc.curSectorLen then
    let fdc := fdcStreamGet fdc
    { fdcStreamDrq fdc with streamDue := cInt (fdc.streamDue + fdcByteCycles) }
  else { fdc with streamCrc := true, streamDue := cInt (fdc.streamDue + fdcByteCycles) }

/-- One byte time elapsed. -/
def fdcStreamStep (fdc : Fdc) : Fdc :=
  if fdc.streamCrc then
    fdcStreamSectorDone (if fdc.status &&& fdcStDrq != 0#8 then fdcStreamLost fdc else fdc)
  else if fdcOpIsWrite fdc.currentop then fdcStreamStepWrite fdc
  else fdcStreamStepRead fdc

/-- `while (stream && stream_due <= 0) fdc_stream_step()`, at most `fuel` times. -/
def fdcStreamLoop : Nat → Fdc → Fdc
  | 0, fdc => fdc
  | fuel + 1, fdc =>
    if fdc.stream && fdc.streamDue ≤ 0 then fdcStreamLoop fuel (fdcStreamStep fdc) else fdc

/-- A data field ends within the 16 bits of its offset, and a step for the CRC ends it. -/
abbrev fdcStreamFuel : Nat := 65540

/-! ## Time -/

/-- The delayed INTRQ. -/
def fdcTickInt (fdc : Fdc) (cycles : BitVec 32) : Fdc :=
  if fdc.delayedInt > 0 then
    let left := cInt (fdc.delayedInt - cycles.toNat)
    if left ≤ 0 then
      { fdc with
        delayedInt := 0, status := fdc.diStatus.getD fdc.status, diStatus := none }.signal .setIntrq
    else { fdc with delayedInt := left }
  else fdc

/-- The delayed DRQ. -/
def fdcTickDrq (fdc : Fdc) (cycles : BitVec 32) : Fdc :=
  if fdc.delayedDrq > 0 then
    let left := cInt (fdc.delayedDrq - cycles.toNat)
    if left ≤ 0 then
      let fdc :=
        { fdc with delayedDrq := 0, status := fdc.ddStatus.getD fdc.status, ddStatus := none }
      if fdcStreamed fdc && fdc.curSectorData.isSome then fdcStreamStart fdc
      else fdcStreamDrq fdc
    else { fdc with delayedDrq := left }
  else fdc

/-- The lost data watchdog of the transfers the CPU paces. -/
def fdcTickLost (fdc : Fdc) (cycles : BitVec 32) : Fdc :=
  if fdc.status &&& fdcStDrq != 0#8 && fdcOpTransfersData fdc.currentop then
    let fdc := { fdc with drqAge := cInt (fdc.drqAge + cycles.toInt) }
    if fdc.drqAge > fdcByteCycles && fdc.status &&& fdcStLostData == 0#8 then
      { fdc with status := fdc.status ||| fdcStLostData, lostDataCount := fdc.lostDataCount + 1 }
    else fdc
  else { fdc with drqAge := 0 }

def fdcTickStream (fdc : Fdc) (cycles : BitVec 32) : Fdc :=
  if fdc.stream then
    if fdcStreamed fdc then
      fdcStreamLoop fdcStreamFuel { fdc with streamDue := cInt (fdc.streamDue - cycles.toInt) }
    else fdcTickLost { fdc with stream := false } cycles
  else fdcTickLost fdc cycles

def fdcTicktock (fdc : Fdc) (cycles : BitVec 32) : Fdc :=
  let fdc := { fdc with rotPos := (fdc.rotPos + cycles.toNat) % 2 ^ 32 % fdcRevCycles }
  fdcTickStream (fdcTickDrq (fdcTickInt fdc cycles) cycles) cycles

/-! ## Register reads -/

/-- A transfer without a sector: the register access ends it. -/
def fdcNoSector (fdc : Fdc) : Fdc :=
  { fdcClrDrq fdc with
    status := (fdcClrDrq fdc).status ||| fdcStNotFound, currentop := .none }

/-- The command ends, with `st`, after `delay` cycles. -/
def fdcEndCommand (fdc : Fdc) (delay : Int) (st : Byte) : Fdc :=
  { fdc with delayedInt := delay, diStatus := some st, currentop := .none }

/-- A multi-sector command at the end of a sector: the next one, or Record Not Found at the end
of the track. -/
def fdcNextSector (fdc : Fdc) : Fdc :=
  let fdc := { fdc with sector := fdc.sector + 1#8, curOffset := 0 }
  let fdc := fdc.lookup fdc.sector
  match fdc.curSectorData with
  | some _ =>
    { fdc with
      delayedDrq := match fdc.timingMode with
        | .real => fdcRotWait fdc fdc.sector
        | .fast => 180 }
  | none => fdcClrDrq (fdcEndCommand fdc 20 (fdc.secType ||| fdcStNotFound))

/-- What follows a byte transferred on CPU demand. -/
def fdcByteServed (fdc : Fdc) : Fdc :=
  let fdc := fdcClrDrq fdc
  if fdc.curOffset ≥ fdc.curSectorLen then
    if fdc.currentop == .readSectors || fdc.currentop == .writeSectors then fdcNextSector fdc
    else fdcClrDrq (fdcEndCommand fdc 32 fdc.secType)
  else { fdc with delayedDrq := 32 }

/-- FDC_DATA in Read Sector. -/
def fdcReadSectorByte (fdc : Fdc) : Fdc :=
  match fdc.curSectorData with
  | none => fdcNoSector fdc
  | some _ =>
    if fdc.stream then fdcClrDrq fdc
    else
      let fdc := if fdc.curOffset == 0#16 then { fdc with secType := 0 } else fdc
      fdcByteServed { fdc with data := fdc.sectorByte, curOffset := fdc.curOffset + 1#16 }

/-- The ID field Read Address synthesizes. -/
def fdcAddrField (fdc : Fdc) : List Byte := [fdc.cTrack, fdc.side, fdc.sector, 1#8, 0#8, 0#8]

/-- The next byte of the ID field. The first one, the track, also goes to the sector register. -/
def fdcIdByte (fdc : Fdc) : Fdc :=
  match fdc.curSectorData with
  | some _ =>
    { fdc with
      sector := if fdc.curOffset == 0#16 then fdc.cTrack else fdc.sector
      data := (fdcAddrField fdc).getD fdc.curOffset.toNat 0
      curOffset := fdc.curOffset + 1#16 }
  | none => fdc

/-- FDC_DATA in Read Address. -/
def fdcReadAddressByte (fdc : Fdc) : Fdc :=
  let fdc := fdcClrDrq (fdcIdByte fdc)
  if fdc.curOffset ≥ 6#16 then fdcEndCommand fdc 20 0#8 else { fdc with delayedDrq := 32 }

def fdcReadData (fdc : Fdc) : Fdc :=
  match fdc.currentop with
  | .readSector | .readSectors => fdcReadSectorByte fdc
  | .readAddress => fdcReadAddressByte fdc
  | _ => fdc

/-- The status register. In the REAL model a Type I status shows the index pulse, track 0 and the
tab as they are now. -/
def fdcStatusByte (fdc : Fdc) : Byte :=
  if fdc.timingMode == .real && fdc.statusType1 && fdc.status &&& fdcStBusy == 0#8 then
    let st := fdc.status &&& ~~~(fdcStiPulse ||| fdcStiTrk0)
    let st := if fdc.diskData.isSome && fdc.rotPos < fdcIndexPulseCycles then st ||| fdcStiPulse
      else st
    let st := if fdc.cTrack == 0#8 then st ||| fdcStiTrk0 else st
    if fdc.writeProtected then st ||| fdcStWriteProt else st
  else fdc.status

/-- The four registers. -/
inductive FdcReg
  | command | track | sector | data
  deriving DecidableEq, Repr

/-- `reg & 3`. Reading the command register reads the status. -/
def fdcReg (reg : Byte) : FdcReg :=
  match (reg &&& 3#8).toNat with
  | 0 => .command
  | 1 => .track
  | 2 => .sector
  | _ => .data

def fdcRead (fdc : Fdc) (reg : Byte) : Byte × Fdc :=
  match fdcReg reg with
  | .command => (fdcStatusByte fdc, fdc.signal .clrIntrq)
  | .track => (fdc.track, fdc)
  | .sector => (fdc.sector, fdc)
  | .data => ((fdcReadData fdc).data, fdcReadData fdc)

/-! ## Commands -/

/-- What the Type I commands start with. -/
def fdcTypeI (fdc : Fdc) (value : Byte) : Fdc :=
  { fdc with
    status := if value &&& 0x08#8 != 0#8 then fdcStBusy ||| fdcStiHeadl else fdcStBusy
    statusType1 := true }

def fdcRestoreSeek (fdc : Fdc) (value : Byte) : Fdc :=
  let fdc := fdcTypeI fdc value
  { fdcSeekTrack fdc (if value &&& 0x10#8 == 0#8 then 0#8 else fdc.data) value true with
    currentop := .none }

/-- Step, one track in. -/
def fdcStepInward (fdc : Fdc) (value : Byte) : Fdc :=
  fdcSeekTrack fdc (fdc.cTrack + 1#8) value (value &&& 0x10#8 != 0#8)

def fdcStep (fdc : Fdc) (value : Byte) : Fdc :=
  let fdc := fdcTypeI fdc value
  { (if fdc.direction == 0#8 then fdcStepInward fdc value
      else fdcSeekTrack fdc (if fdc.cTrack > 0#8 then fdc.cTrack - 1#8 else 0#8) value
        (value &&& 0x10#8 != 0#8)) with
    currentop := .none }

def fdcStepIn (fdc : Fdc) (value : Byte) : Fdc :=
  { fdcStepInward { fdcTypeI fdc value with direction := 0 } value with currentop := .none }

/-- With the head at track 0 nothing is scheduled. -/
def fdcStepOut (fdc : Fdc) (value : Byte) : Fdc :=
  let fdc := { fdcTypeI fdc value with direction := 1 }
  { (if fdc.cTrack > 0#8 then
        fdcSeekTrack fdc (fdc.cTrack - 1#8) value (value &&& 0x10#8 != 0#8)
      else fdc) with
    currentop := .none }

/-- Read Sector and Write Sector once the medium accepts them. `delay` is the first DRQ's in the
FAST model. -/
def fdcSectorCommand (value : Byte) (delay : Int) (single multiple : FdcOp) (fdc : Fdc) : Fdc :=
  let fdc := { fdc with curOffset := 0 }.lookup fdc.sector
  match fdc.curSectorData with
  | none => fdcRecordNotFound fdc
  | some _ =>
    { fdc with
      curSectorLen := 256
      status := fdcStBusy ||| fdcStNotReady
      delayedDrq := match fdc.timingMode with
        | .real => fdcRotWait fdc fdc.sector +
            (if value &&& 0x04#8 != 0#8 then fdcSettleCycles else 0)
        | .fast => delay
      currentop := if value &&& 0x10#8 != 0#8 then multiple else single }

def fdcReadSector (fdc : Fdc) (value : Byte) : Fdc :=
  fdcNotReady { fdc with statusType1 := false }
    (fdcSectorCommand value 60 .readSector .readSectors)

def fdcWriteSector (fdc : Fdc) (value : Byte) : Fdc :=
  fdcNotReady { fdc with statusType1 := false } fun fdc =>
    fdcWriteProtected fdc (fdcSectorCommand value 500 .writeSector .writeSectors)

def fdcReadAddress (fdc : Fdc) : Fdc :=
  fdcNotReady { fdc with statusType1 := false } fun fdc =>
    let fdc := { fdc with curOffset := 0 }.lookup 1#8
    match fdc.curSectorData with
    | none => fdcRecordNotFound fdc
    | some _ =>
      match fdc.timingMode with
      | .real =>
        { fdc with
          status := fdcStNotReady ||| fdcStBusy, delayedDrq := fdcRotWait fdc 1#8,
          currentop := .readAddress }
      | .fast =>
        { fdc with
          status := fdcStNotReady ||| fdcStBusy ||| fdcStDrq, currentop := .readAddress }.signal
          .setDrq

/-- Terminates the command; only i3 interrupts. -/
def fdcForceInterrupt (fdc : Fdc) (value : Byte) : Fdc :=
  let fdc :=
    { fdc with
      status := 0, statusType1 := true, delayedInt := 0, delayedDrq := 0,
      currentop := .none }.signal .clrDrq
  if value &&& 0x08#8 != 0#8 then fdc.signal .setIntrq else fdc

/-- Not fully implemented: no register access advances it. -/
def fdcReadTrack (fdc : Fdc) : Fdc :=
  fdcNotReady { fdc with statusType1 := false } fun fdc =>
    { fdc with status := fdcStBusy ||| fdcStNotReady, delayedDrq := 60, currentop := .readTrack }

def fdcWriteTrack (fdc : Fdc) : Fdc :=
  fdcNotReady { fdc with statusType1 := false } fun fdc =>
    fdcWriteProtected fdc fun fdc =>
      { (fdc.signal .clrDrq).signal .clrIntrq with
        status := fdcStNotReady ||| fdcStBusy
        delayedDrq := match fdc.timingMode with
          | .real => (fdcRevCycles - fdc.rotPos : Int)
          | .fast => 500
        delayedInt := 0, wtState := .scan, wtFieldIdx := 0, wtDataLen := 0, wtSectorsDone := 0,
        curSectorData := none, currentop := .writeTrack }

/-- The commands, by their upper bits. -/
inductive FdcCommand
  | restoreSeek | step | stepIn | stepOut | readSector | writeSector | readAddress
  | forceInterrupt | readTrack | writeTrack
  deriving DecidableEq, Repr

/-- `value & 0xE0`, then bit 4 where it decides. -/
def fdcCommand (value : Byte) : FdcCommand :=
  match (value >>> 5).toNat with
  | 0 => .restoreSeek
  | 1 => .step
  | 2 => .stepIn
  | 3 => .stepOut
  | 4 => .readSector
  | 5 => .writeSector
  | 6 => if value &&& 0x10#8 == 0#8 then .readAddress else .forceInterrupt
  | _ => if value &&& 0x10#8 == 0#8 then .readTrack else .writeTrack

/-- Every command clears INTRQ; all but Force Interrupt stop the stream. -/
def fdcBeginCommand (fdc : Fdc) (value : Byte) : Fdc :=
  let fdc := fdc.signal .clrIntrq
  if value &&& 0xF0#8 != 0xD0#8 then { fdc with stream := false, streamCrc := false } else fdc

def fdcWriteCommand (fdc : Fdc) (value : Byte) : Fdc :=
  let fdc := fdcBeginCommand fdc value
  match fdcCommand value with
  | .restoreSeek => fdcRestoreSeek fdc value
  | .step => fdcStep fdc value
  | .stepIn => fdcStepIn fdc value
  | .stepOut => fdcStepOut fdc value
  | .readSector => fdcReadSector fdc value
  | .writeSector => fdcWriteSector fdc value
  | .readAddress => fdcReadAddress fdc
  | .forceInterrupt => fdcForceInterrupt fdc value
  | .readTrack => fdcReadTrack fdc
  | .writeTrack => fdcWriteTrack fdc

/-! ## Data register writes -/

/-- FDC_DATA in Write Sector. In a stream the byte is taken as it passes under the head. -/
def fdcWriteSectorByte (fdc : Fdc) (value : Byte) : Fdc :=
  match fdc.curSectorData with
  | none => fdcNoSector fdc
  | some _ =>
    if fdc.stream then fdcClrDrq fdc
    else
      fdcByteServed
        { fdc.storeByte value with curOffset := fdc.curOffset + 1#16, diskModified := true }

/-- The data field length of a size code. -/
def fdcWtLen (sizeCode : Byte) : Word :=
  let len := 128#16 <<< (sizeCode &&& 3#8).toNat
  if len == 0#16 || len > 1024#16 then 256#16 else len

/-- The sector number of the ID field written last. -/
abbrev Fdc.wtSector (fdc : Fdc) : Byte := fdc.wtId[2]

/-- Its size code. -/
abbrev Fdc.wtSizeCode (fdc : Fdc) : Byte := fdc.wtId[3]

/-- One byte of the format stream. Only address marks matter, and inside a data field nothing is
a mark. -/
def fdcWtParse (fdc : Fdc) (value : Byte) : Fdc :=
  match fdc.wtState with
  | .scan =>
    if value == 0xFE#8 then { fdc with wtState := .idField, wtFieldIdx := 0 }
    else if value == 0xFB#8 || value == 0xF8#8 then
      { fdc.lookup fdc.wtId[2] with
        wtDataLen := fdcWtLen fdc.wtId[3], curOffset := 0, wtState := .dataField }
    else fdc
  | .idField =>
    { fdc with
      wtId := fdc.wtId.setIfInBounds fdc.wtFieldIdx.toNat value
      wtFieldIdx := fdc.wtFieldIdx + 1#8
      wtState := if fdc.wtFieldIdx + 1#8 ≥ 4#8 then .scan else .idField }
  | .dataField =>
    let fdc := if fdc.curOffset < fdc.wtDataLen then fdc.storeByte value else fdc
    let fdc := { fdc with curOffset := fdc.curOffset + 1#16 }
    if fdc.curOffset ≥ fdc.wtDataLen then
      { fdc with
        wtState := .scan
        wtSectorsDone :=
          if fdc.wtSectorsDone < 0xFF#8 then fdc.wtSectorsDone + 1#8 else fdc.wtSectorsDone }
    else fdc
  | .other _ => fdc

/-- FDC_DATA in Write Track: complete after one data field for each sector of the track. -/
def fdcWriteTrackByte (fdc : Fdc) (value : Byte) : Fdc :=
  let fdc := fdcClrDrq (fdcWtParse { fdc with diskModified := true } value)
  if fdc.sectorsPerTrack > 0#8 && fdc.wtSectorsDone ≥ fdc.sectorsPerTrack then
    fdcEndCommand fdc 32 0#8
  else { fdc with delayedDrq := 32 }

def fdcWriteData (fdc : Fdc) (value : Byte) : Fdc :=
  let fdc := { fdc with data := value }
  match fdc.currentop with
  | .writeSector | .writeSectors => fdcWriteSectorByte fdc value
  | .writeTrack => fdcWriteTrackByte fdc value
  | _ => fdc

def fdcWrite (fdc : Fdc) (reg value : Byte) : Fdc :=
  match fdcReg reg with
  | .command => fdcWriteCommand fdc value
  | .track => { fdc with track := value }
  | .sector => { fdc with sector := value }
  | .data => fdcWriteData fdc value

end Phosphoric
