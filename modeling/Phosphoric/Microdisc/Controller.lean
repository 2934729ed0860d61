import Phosphoric.Fdc.Chip

/-!
# The Microdisc interface

The controller of `src/io/microdisc.c`: a WD1793 on the bus at $0310-$0313, a control register at
$0314 that selects the drive and the side, and the tables of what is in the four drives. The
media of the selected drive is kept twice, in the tables and in the WD1793.

The WD1793's callbacks are its `signals`, delivered when the call that made them returns. What
they do depends on no register of the WD1793. The overlay ROM's loading is not modelled.
-/

namespace Phosphoric

/-- `microdisc_t`. The CPU's interrupt callbacks are a log, `true` for `cpu_irq_set`. -/
structure Microdisc where
  fdc : Fdc
  status : Byte
  /-- 0x00 when INTRQ is active. -/
  intrq : Byte
  /-- 0x00 when DRQ is active. -/
  drq : Byte
  diskrom : Bool
  romdis : Bool
  intena : Bool
  drive : Fin 4
  side : Byte
  diskData : Fin 4 → Option Nat
  diskSize : Fin 4 → Nat
  diskTracks : Fin 4 → Byte
  diskSectors : Fin 4 → Byte
  diskDirty : Fin 4 → Bool
  badMap : Fin 4 → FdcBadMap
  writeProtect : Fin 4 → Bool
  /-- The CPU's interrupt callbacks are set. -/
  cpuWired : Bool
  cpuIrqCalls : List Bool

abbrev microdiscCtrlIntena : Byte := 0x01#8
abbrev microdiscCtrlRomdis : Byte := 0x02#8
abbrev microdiscCtrlSide : Byte := 0x10#8
abbrev microdiscCtrlEprom : Byte := 0x80#8

/-! ## Interrupt lines -/

def Microdisc.cpuIrq (md : Microdisc) (level : Bool) : Microdisc :=
  if md.cpuWired then { md with cpuIrqCalls := md.cpuIrqCalls ++ [level] } else md

/-- `microdisc_fdc_set_drq` and its siblings. -/
def microdiscSignal (md : Microdisc) : FdcSignal → Microdisc
  | .setDrq => { md with drq := 0x00#8 }
  | .clrDrq => { md with drq := 0x80#8 }
  | .setIntrq =>
    let md := { md with intrq := 0x00#8 }
    if md.status &&& microdiscCtrlIntena != 0#8 then md.cpuIrq true else md
  | .clrIntrq => { md with intrq := 0x80#8 }.cpuIrq false

/-- The WD1793 after a call, and the callbacks the call made. -/
def Microdisc.withFdc (md : Microdisc) (fdc : Fdc) : Microdisc :=
  fdc.signals.reverse.foldl microdiscSignal { md with fdc := { fdc with signals := [] } }

/-! ## Drives -/

/-- Points the WD1793 at a drive's media, and its tab and damage at what they are there. -/
def microdiscSelectDrive (md : Microdisc) (drive : Fin 4) : Microdisc :=
  let fdc := fdcSetDisk md.fdc (md.diskData drive) (md.diskSize drive)
  let fdc :=
    { fdc with tracks := md.diskTracks drive, sectorsPerTrack := md.diskSectors drive }
  let fdc := fdcSetBadMap fdc (some (md.badMap drive))
  { md with drive := drive, fdc := fdcSetWriteProtect fdc (md.writeProtect drive) }

def microdiscInit (heap : Heap Ptr Byte) (cpuWired : Bool) : Microdisc where
  fdc := { fdcInit heap with timingMode := .real }
  status := 0
  intrq := 0x80
  drq := 0x80
  diskrom := true
  romdis := true
  intena := false
  drive := 0
  side := 0
  diskData := fun _ => none
  diskSize := fun _ => 0
  diskTracks := fun _ => 0
  diskSectors := fun _ => 0
  diskDirty := fun _ => false
  badMap := fun _ => .empty
  writeProtect := fun _ => false
  cpuWired := cpuWired
  cpuIrqCalls := []

/-- Drive 0 and side 0 are selected, and the WD1793 is not told. -/
def microdiscReset (md : Microdisc) : Microdisc :=
  { md with
    fdc := fdcReset md.fdc, status := 0, intrq := 0x80, drq := 0x80, diskrom := true,
    romdis := true, intena := false, drive := 0, side := 0 }

/-! ## Register accesses -/

def microdiscRead (md : Microdisc) (addr : Word) : Byte × Microdisc :=
  if addr ≥ 0x0310#16 && addr ≤ 0x0313#16 then
    let (value, fdc) := fdcRead md.fdc (Word.lo (addr &&& 3#16))
    (value, md.withFdc fdc)
  else if addr == 0x0314#16 then (md.intrq ||| 0x7F#8, md)
  else if addr == 0x0318#16 then (md.drq ||| 0x7F#8, md)
  else (0xFF#8, md)

/-- If the WD1793 has mutated the image, the selected drive is dirty. -/
def microdiscMarkDirty (md : Microdisc) : Microdisc :=
  if md.fdc.diskModified then
    { md with
      diskDirty := Function.update md.diskDirty md.drive true
      fdc := { md.fdc with diskModified := false } }
  else md

/-- Bits 6:5 of the control register. -/
def microdiscDriveBits (value : Byte) : Fin 4 := ⟨(value >>> 5).toNat % 4, Nat.mod_lt _ (by decide)⟩

/-- The control register's own bits. -/
def microdiscControl (md : Microdisc) (value : Byte) : Microdisc :=
  let md := { md with status := value }
  let md :=
    if value &&& microdiscCtrlIntena != 0#8 && md.intrq == 0x00#8 then md.cpuIrq true
    else md.cpuIrq false
  let side : Byte := if value &&& microdiscCtrlSide != 0#8 then 1 else 0
  { md with
    intena := value &&& microdiscCtrlIntena != 0#8
    romdis := value &&& microdiscCtrlRomdis == 0#8
    side := side
    diskrom := value &&& microdiscCtrlEprom == 0#8
    fdc := { md.fdc with side := side } }

def microdiscWrite (md : Microdisc) (addr : Word) (value : Byte) : Microdisc :=
  if addr ≥ 0x0310#16 && addr ≤ 0x0313#16 then
    microdiscMarkDirty (md.withFdc (fdcWrite md.fdc (Word.lo (addr &&& 3#16)) value))
  else if addr == 0x0314#16 then
    let md := microdiscControl md value
    let newDrive := microdiscDriveBits value
    if newDrive ≠ md.drive then microdiscSelectDrive md newDrive else md
  else md

/-- `fdc_ticktock(&md->fdc, cycles)`. -/
def microdiscTick (md : Microdisc) (cycles : BitVec 32) : Microdisc :=
  md.withFdc (fdcTicktock md.fdc cycles)

/-! ## Media -/

/-- `drive >= MICRODISC_MAX_DRIVES` is refused. -/
def microdiscDrive (drive : Byte) : Option (Fin 4) :=
  if h : drive.toNat < 4 then some ⟨drive.toNat, h⟩ else none

/-- A new medium's surface is pristine; the same image keeps its map. -/
def microdiscSetDisk (md : Microdisc) (drive : Byte) (data : Option Nat) (size : Nat)
    (tracks sectorsPerTrack : Byte) : Microdisc :=
  match microdiscDrive drive with
  | none => md
  | some d =>
    let mediaChanged := md.diskData d ≠ data
    let md := { md with
      diskData := Function.update md.diskData d data
      diskSize := Function.update md.diskSize d size
      diskTracks := Function.update md.diskTracks d tracks
      diskSectors := Function.update md.diskSectors d sectorsPerTrack
      badMap := if mediaChanged then Function.update md.badMap d .empty else md.badMap }
    if d = md.drive then
      let fdc := fdcSetDisk md.fdc data size
      let fdc := { fdc with tracks := tracks, sectorsPerTrack := sectorsPerTrack }
      { md with fdc := fdcSetBadMap fdc (some (md.badMap d)) }
    else md

def microdiscSetWriteProtect (md : Microdisc) (drive : Byte) (on : Bool) : Microdisc :=
  match microdiscDrive drive with
  | none => md
  | some d =>
    let md := { md with writeProtect := Function.update md.writeProtect d on }
    if d = md.drive then { md with fdc := fdcSetWriteProtect md.fdc on } else md

def microdiscSyncBadMap (md : Microdisc) (d : Fin 4) : Microdisc :=
  if d = md.drive then { md with fdc := fdcSetBadMap md.fdc (some (md.badMap d)) } else md

/-- Returns -1 on a bad drive or a full map. -/
def microdiscAddBadSector (md : Microdisc) (drive side track sector : Byte) : Int × Microdisc :=
  match microdiscDrive drive with
  | none => (-1, md)
  | some d =>
    match fdcBadMapAdd (md.badMap d) side track sector with
    | none => (-1, md)
    | some map =>
      (0, microdiscSyncBadMap { md with badMap := Function.update md.badMap d map } d)

/-! ## Operations -/

inductive MicrodiscOp
  | write (addr : Word) (value : Byte)
  | read (addr : Word)
  | ticktock (cycles : BitVec 32)
  | setDisk (drive : Byte) (data : Option Nat) (size : Nat) (tracks sectorsPerTrack : Byte)
  | setWriteProtect (drive : Byte) (on : Bool)
  | addBadSector (drive side track sector : Byte)
  | reset

def microdiscStep (md : Microdisc) : MicrodiscOp → Microdisc
  | .write addr value => microdiscWrite md addr value
  | .read addr => (microdiscRead md addr).2
  | .ticktock cycles => microdiscTick md cycles
  | .setDisk drive data size tracks sectorsPerTrack =>
    microdiscSetDisk md drive data size tracks sectorsPerTrack
  | .setWriteProtect drive on => microdiscSetWriteProtect md drive on
  | .addBadSector drive side track sector => (microdiscAddBadSector md drive side track sector).2
  | .reset => microdiscReset md

/-- The controller after the operations, in order. -/
def microdiscRun (md : Microdisc) (ops : List MicrodiscOp) : Microdisc := ops.foldl microdiscStep md

end Phosphoric
