import Phosphoric.Fdc.Stores
import Phosphoric.Lib.Binary

/-!
# Saving and resuming the controller

`fdcStateSave`, `fdcStateLoad` and `fdcStateResume` of `src/storage/disk.c`. The pointer to the
sector in progress is not saved: resuming looks it up again, by the operation and the registers.

**Theorem (`fdcStateLoad_save`).** Loading a saved state restores its fields, beside those of the
controller loaded into that are not saved, if they fit their encodings (`FdcInts`).

`command` and `c_sector` of the source hold 0 in every run and decide nothing: they are written as
zeros, and skipped.
-/

namespace Phosphoric

open Binary

/-! ## The format -/

/-- `(uint8_t)fdc->currentop`. -/
def FdcOp.code : FdcOp → Byte
  | .none => 0
  | .readSector => 1
  | .readSectors => 2
  | .writeSector => 3
  | .writeSectors => 4
  | .readAddress => 5
  | .readTrack => 6
  | .writeTrack => 7

/-- A code of no operation acts as none. -/
def FdcOp.ofCode (code : Byte) : FdcOp :=
  match code.toNat with
  | 1 => .readSector
  | 2 => .readSectors
  | 3 => .writeSector
  | 4 => .writeSectors
  | 5 => .readAddress
  | 6 => .readTrack
  | 7 => .writeTrack
  | _ => .none

theorem FdcOp.ofCode_code (op : FdcOp) : FdcOp.ofCode op.code = op := by
  cases op <;> decide

def WtState.code : WtState → Byte
  | .scan => 0
  | .idField => 1
  | .dataField => 2
  | .other value => value

def WtState.ofCode (code : Byte) : WtState :=
  match code.toNat with
  | 0 => .scan
  | 1 => .idField
  | 2 => .dataField
  | _ => .other code

/-- `di_status` and `dd_status`: a status, or -1. -/
def fdcStatusCode : Option Byte → BitVec 32
  | none => -1
  | some status => status.setWidth 32

/-- Only the low byte of a status other than -1 is ever used. -/
def fdcStatusOfCode (code : BitVec 32) : Option Byte :=
  if code = -1 then none else some (code.setWidth 8)

theorem fdcStatusOfCode_code (status : Option Byte) :
    fdcStatusOfCode (fdcStatusCode status) = status := by
  cases status with
  | none => rfl
  | some status =>
    have hne : status.setWidth 32 ≠ -1 := by
      intro heq
      have hnat := congrArg BitVec.toNat heq
      have hlt := status.isLt
      simp at hnat
      omega
    rw [fdcStatusCode, fdcStatusOfCode, if_neg hne]
    simp

/-- `FDC_STATE_SIZE_V1`. -/
def fdcStateSizeV1 : Nat := 36

/-- `FDC_STATE_SIZE_V2`. -/
def fdcStateSizeV2 : Nat := 49

/-- `FDC_STATE_SIZE`. -/
def fdcStateSize : Nat := 55

def binWU8 : Byte → List Byte := bytesLe 1
def binWU16 : Word → List Byte := bytesLe 2
def binWU32 : BitVec 32 → List Byte := bytesLe 4
def binWI32 (v : Int) : List Byte := bytesLe 4 (BitVec.ofInt 32 v)
def binWBool (v : Bool) : List Byte := binWU8 (if v then 1 else 0)

def binRU8 : Reader Byte := readLeAll 1 8
def binRU16 : Reader Word := readLeAll 2 16
def binRU32 : Reader (BitVec 32) := readLeAll 4 32
def binRI32 : Reader Int := do return (← binRU32).toInt
def binRBool : Reader Bool := do return (← binRU8) != 0#8

/-- `fdc_state_save`. -/
def fdcStateSave (fdc : Fdc) : List Byte :=
  [ binWU8 fdc.status,
    binWU8 0,
    binWU8 fdc.track,
    binWU8 fdc.sector,
    binWU8 fdc.data,
    binWU8 fdc.direction,
    binWU8 fdc.cTrack,
    binWU8 0,
    binWU8 fdc.side,
    binWU8 fdc.currentop.code,
    binWU16 fdc.curSectorLen,
    binWU16 fdc.curOffset,
    binWU8 fdc.secType,
    binWI32 fdc.delayedDrq,
    binWI32 fdc.delayedInt,
    binWU32 (fdcStatusCode fdc.diStatus),
    binWU32 (fdcStatusCode fdc.ddStatus),
    binWBool fdc.statusType1,
    binWU32 (BitVec.ofNat 32 fdc.rotPos),
    binWI32 fdc.drqAge,
    binWU8 fdc.wtState.code,
    binWU8 fdc.wtFieldIdx,
    fdc.wtId.toList,
    binWU16 fdc.wtDataLen,
    binWU8 fdc.wtSectorsDone,
    binWBool fdc.stream,
    binWBool fdc.streamCrc,
    binWI32 fdc.streamDue ].flatten

/-- The fields every version has. -/
def fdcStateLoadRegisters (fdc : Fdc) : Reader Fdc := do
  let status ← binRU8
  let _ ← binRU8
  let track ← binRU8
  let sector ← binRU8
  let data ← binRU8
  let direction ← binRU8
  let cTrack ← binRU8
  let _ ← binRU8
  let side ← binRU8
  let currentop ← binRU8
  let curSectorLen ← binRU16
  let curOffset ← binRU16
  let secType ← binRU8
  let delayedDrq ← binRI32
  let delayedInt ← binRI32
  let diStatus ← binRU32
  let ddStatus ← binRU32
  return { fdc with
    status, track, sector, data, direction, cTrack, side, curSectorLen, curOffset, secType,
    delayedDrq, delayedInt
    currentop := .ofCode currentop
    diStatus := fdcStatusOfCode diStatus
    ddStatus := fdcStatusOfCode ddStatus }

/-- v1.42: mechanical timing state. -/
def fdcStateLoadTiming (fdc : Fdc) (size : Nat) : Reader Fdc :=
  if size ≥ fdcStateSizeV1 then do
    let statusType1 ← binRBool
    let rotPos ← binRU32
    return { fdc with statusType1, rotPos := rotPos.toNat % fdcRevCycles }
  else return fdc

/-- v2: pending DRQ and formatting. -/
def fdcStateLoadFormat (fdc : Fdc) (size : Nat) : Reader Fdc :=
  if size ≥ fdcStateSizeV2 then do
    let drqAge ← binRI32
    let wtState ← binRU8
    let wtFieldIdx ← binRU8
    let wtId ← readBytes 4
    let wtDataLen ← binRU16
    let wtSectorsDone ← binRU8
    return { fdc with
      drqAge, wtId, wtDataLen, wtSectorsDone
      wtState := .ofCode wtState
      wtFieldIdx := wtFieldIdx &&& 3#8 }
  else
    return { fdc with
      drqAge := 0, wtState := .scan, wtFieldIdx := 0, wtDataLen := 0, wtSectorsDone := 0 }

/-- v3: byte stream. -/
def fdcStateLoadStream (fdc : Fdc) (size : Nat) : Reader Fdc :=
  if size ≥ fdcStateSize then do
    let stream ← binRBool
    let streamCrc ← binRBool
    let streamDue ← binRI32
    return { fdc with stream, streamCrc, streamDue }
  else return { fdc with stream := false, streamCrc := false, streamDue := 0 }

/-- `fdc_state_load` of a section of `size` bytes. -/
def fdcStateLoad (fdc : Fdc) (size : Nat) : Reader Fdc := do
  let fdc ← fdcStateLoadRegisters fdc
  let fdc ← fdcStateLoadTiming fdc size
  let fdc ← fdcStateLoadFormat fdc size
  fdcStateLoadStream fdc size

/-- `fdc_state_resume`. -/
def fdcStateResume (fdc : Fdc) : Fdc :=
  match fdc.currentop with
  | .readSector | .readSectors | .writeSector | .writeSectors => fdc.lookup fdc.sector
  | .readAddress => fdc.lookup 1#8
  | .writeTrack =>
    if fdc.wtState = .dataField then fdc.lookup fdc.wtSector else { fdc with curSectorData := none }
  | _ => { fdc with curSectorData := none }

/-- Save, load into `target`, resume. -/
def fdcRestore (saved target : Fdc) : Fdc :=
  fdcStateResume (fdcStateLoad target fdcStateSize (fdcStateSave saved)).1

/-! ## What is read back -/

/-- The value is an `int`. -/
def IsInt (x : Int) : Prop := cInt x = x

theorem cInt_isInt (x : Int) : IsInt (cInt x) := by
  simp [IsInt, cInt]

theorem IsInt.of_bounds {x : Int} (hlo : -2 ^ 31 ≤ x) (hhi : x < 2 ^ 31) : IsInt x := by
  simp only [IsInt, cInt]
  apply Int.bmod_eq_of_le <;> omega

section Readers

variable {α : Type} (rest : List Byte)

theorem binRU8_bind (v : Byte) (k : Byte → Reader α) :
    (binRU8 >>= k) (binWU8 v ++ rest) = k v rest := readLeAll_bind (by decide) v rest k

theorem binRU16_bind (v : Word) (k : Word → Reader α) :
    (binRU16 >>= k) (binWU16 v ++ rest) = k v rest := readLeAll_bind (by decide) v rest k

theorem binRU32_bind (v : BitVec 32) (k : BitVec 32 → Reader α) :
    (binRU32 >>= k) (binWU32 v ++ rest) = k v rest := readLeAll_bind (by decide) v rest k

theorem binRI32_bind {v : Int} (hv : IsInt v) (k : Int → Reader α) :
    (binRI32 >>= k) (binWI32 v ++ rest) = k v rest := by
  have hread := binRU32_bind rest (BitVec.ofInt 32 v) fun x => k x.toInt
  rw [BitVec.toInt_ofInt, show v.bmod (2 ^ 32) = v from hv] at hread
  exact hread

theorem binRBool_bind (v : Bool) (k : Bool → Reader α) :
    (binRBool >>= k) (binWBool v ++ rest) = k v rest := by
  have hread := binRU8_bind rest (if v then 1 else 0) fun b => k (b != 0#8)
  cases v
  · exact hread
  · exact hread

end Readers

/-- The fields the file holds fit their encodings. -/
structure FdcInts (fdc : Fdc) : Prop where
  delayedDrq : IsInt fdc.delayedDrq
  delayedInt : IsInt fdc.delayedInt
  drqAge : IsInt fdc.drqAge
  streamDue : IsInt fdc.streamDue
  rotPos : fdc.rotPos < fdcRevCycles
  wtState : WtState.ofCode fdc.wtState.code = fdc.wtState
  wtFieldIdx : fdc.wtState = .idField → fdc.wtFieldIdx < 4#8

theorem fdcStateSave_length (fdc : Fdc) : (fdcStateSave fdc).length = fdcStateSize := by
  simp [fdcStateSave, binWU8, binWU16, binWU32, binWI32, binWBool, fdcStateSize]

/-- What is loaded from a saved state: its fields, beside those of `target` not saved. -/
theorem fdcStateLoad_bind {α : Type} {saved : Fdc} (h : FdcInts saved) (target : Fdc)
    (rest : List Byte) (k : Fdc → Reader α) :
    (fdcStateLoad target fdcStateSize >>= k) (fdcStateSave saved ++ rest) = k { saved with
      diskData := target.diskData, diskSize := target.diskSize, tracks := target.tracks
      sectorsPerTrack := target.sectorsPerTrack, diskModified := target.diskModified
      curSectorData := target.curSectorData, curSectorId := target.curSectorId
      wtFieldIdx := saved.wtFieldIdx &&& 3#8, timingMode := target.timingMode
      lostDataCount := target.lostDataCount, writeProtected := target.writeProtected
      bad := target.bad, signals := target.signals, heap := target.heap } rest := by
  have hrot : (BitVec.ofNat 32 saved.rotPos).toNat % fdcRevCycles = saved.rotPos := by
    have hlt : saved.rotPos < 200000 := h.rotPos
    rw [BitVec.toNat_ofNat, Nat.mod_eq_of_lt (by omega : saved.rotPos < 2 ^ 32),
      Nat.mod_eq_of_lt h.rotPos]
  have hsizes : fdcStateSize ≥ fdcStateSizeV1 ∧ fdcStateSize ≥ fdcStateSizeV2 ∧
      fdcStateSize ≥ fdcStateSize := by decide
  simp only [fdcStateSave, List.flatten_cons, List.flatten_nil, List.append_assoc, List.nil_append,
    fdcStateLoad, fdcStateLoadRegisters, fdcStateLoadTiming, fdcStateLoadFormat,
    fdcStateLoadStream, hsizes, if_true, bind_assoc, pure_bind, binRU8_bind, binRU16_bind,
    binRU32_bind, binRBool_bind, readBytes_bind,
    binRI32_bind _ h.delayedDrq, binRI32_bind _ h.delayedInt, binRI32_bind _ h.drqAge,
    binRI32_bind _ h.streamDue, FdcOp.ofCode_code, fdcStatusOfCode_code, hrot, h.wtState]

/-- A saved state alone in its file. -/
theorem fdcStateLoad_save {saved : Fdc} (h : FdcInts saved) (target : Fdc) :
    (fdcStateLoad target fdcStateSize (fdcStateSave saved)).1 = { saved with
      diskData := target.diskData, diskSize := target.diskSize, tracks := target.tracks
      sectorsPerTrack := target.sectorsPerTrack, diskModified := target.diskModified
      curSectorData := target.curSectorData, curSectorId := target.curSectorId
      wtFieldIdx := saved.wtFieldIdx &&& 3#8, timingMode := target.timingMode
      lostDataCount := target.lostDataCount, writeProtected := target.writeProtected
      bad := target.bad, signals := target.signals, heap := target.heap } := by
  have hbind := fdcStateLoad_bind h target [] pure
  rw [bind_pure, List.append_nil] at hbind
  rw [hbind]
  rfl

end Phosphoric
