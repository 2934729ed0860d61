import Phosphoric.Fdc.State

/-!
# The Jasmin interface

The controller of `src/io/jasmin.c`: a WD1793 on the bus at $03F4-$03F7, latches for the side, the
overlay, the ROM and the drive at $03F8-$03FF, and the tables of what is in the four drives. DRQ,
not INTRQ, drives the CPU's interrupt line.

The WD1793's callbacks are its `signals`, delivered when the call that made them returns. The boot
ROM's loading is not modelled.

`jasminSave` and `jasminLoad` are the section `JAS` of a save state.
-/

namespace Phosphoric

open Binary

/-- `jasmin_t`. -/
structure Jasmin where
  fdc : Fdc
  romdis : Bool
  olay : Bool
  drive : Fin 4
  side : Byte
  /-- 0x00 when INTRQ is active. -/
  intrq : Byte
  /-- 0x00 when DRQ is active. -/
  drq : Byte
  autobootDone : Bool
  diskData : Fin 4 → Option Nat
  diskSize : Fin 4 → Nat
  diskTracks : Fin 4 → Byte
  diskSectors : Fin 4 → Byte
  diskDirty : Fin 4 → Bool
  badMap : Fin 4 → FdcBadMap
  writeProtect : Fin 4 → Bool
  /-- The CPU's interrupt callbacks are set. -/
  cpuWired : Bool
  /-- The CPU's line `IRQF_DISK`, which the callbacks drive. -/
  cpuIrq : Bool

/-! ## Interrupt lines -/

def Jasmin.driveIrq (j : Jasmin) (level : Bool) : Jasmin :=
  if j.cpuWired then { j with cpuIrq := level } else j

/-- `jasmin_fdc_set_drq` and its siblings. -/
def jasminSignal (j : Jasmin) : FdcSignal → Jasmin
  | .setDrq => { j with drq := 0x00#8 }.driveIrq true
  | .clrDrq => { j with drq := 0x80#8 }.driveIrq false
  | .setIntrq => { j with intrq := 0x00#8 }
  | .clrIntrq => { j with intrq := 0x80#8 }

/-- The WD1793 after a call, and the callbacks the call made. -/
def Jasmin.withFdc (j : Jasmin) (fdc : Fdc) : Jasmin :=
  fdc.signals.reverse.foldl jasminSignal { j with fdc := { fdc with signals := [] } }

/-! ## Drives -/

/-- Points the WD1793 at a drive's media, and its tab and damage at what they are there. -/
def jasminSelectDrive (j : Jasmin) (drive : Fin 4) : Jasmin :=
  let fdc := fdcSetDisk j.fdc (j.diskData drive) (j.diskSize drive)
  let fdc := { fdc with tracks := j.diskTracks drive, sectorsPerTrack := j.diskSectors drive }
  let fdc := fdcSetBadMap fdc (some (j.badMap drive))
  { j with drive := drive, fdc := fdcSetWriteProtect fdc (j.writeProtect drive) }

/-- `drive >= JASMIN_MAX_DRIVES` is refused. -/
def jasminDrive (drive : Byte) : Option (Fin 4) :=
  if h : drive.toNat < 4 then some ⟨drive.toNat, h⟩ else none

/-- `jasmin_init` before any medium is inserted. -/
def jasminInit (heap : Heap Ptr Byte) (cpuWired : Bool) : Jasmin where
  fdc := { fdcInit heap with timingMode := .real }
  romdis := false
  olay := false
  drive := 0
  side := 0
  intrq := 0x80
  drq := 0x80
  autobootDone := false
  diskData := fun _ => none
  diskSize := fun _ => 0
  diskTracks := fun _ => 0
  diskSectors := fun _ => 0
  diskDirty := fun _ => false
  badMap := fun _ => .empty
  writeProtect := fun _ => false
  cpuWired := cpuWired
  cpuIrq := false

/-- Drive 0 and side 0 are selected, and the WD1793 is not told. -/
def jasminReset (j : Jasmin) : Jasmin :=
  { j with
    fdc := fdcReset j.fdc, romdis := false, olay := false, drive := 0, side := 0
    intrq := 0x80, drq := 0x80 }

/-! ## Register accesses -/

def jasminRead (j : Jasmin) (addr : Word) : Byte × Jasmin :=
  if addr ≥ 0x03F4#16 && addr ≤ 0x03F7#16 then
    let (value, fdc) := fdcRead j.fdc (Word.lo (addr &&& 3#16))
    (value, j.withFdc fdc)
  else if addr == 0x03FB#16 then (if j.romdis then 1 else 0, j)
  else (0xFF#8, j)

/-- If the WD1793 has mutated the image, the selected drive is dirty. -/
def jasminMarkDirty (j : Jasmin) : Jasmin :=
  if j.fdc.diskModified then
    { j with
      diskDirty := Function.update j.diskDirty j.drive true
      fdc := { j.fdc with diskModified := false } }
  else j

/-- The latches from $03F8 on. -/
inductive JasminReg
  | side | reset | olay | romdis
  | drive (new : Fin 4)
  deriving DecidableEq, Repr

def jasminReg (addr : Word) : Option JasminReg :=
  match addr.toNat with
  | 0x03F8 => some .side
  | 0x03F9 => some .reset
  | 0x03FA => some .olay
  | 0x03FB => some .romdis
  | 0x03FC => some (.drive 0)
  | 0x03FD => some (.drive 1)
  | 0x03FE => some (.drive 2)
  | 0x03FF => some (.drive 3)
  | _ => none

def jasminWriteLatch (j : Jasmin) (value : Byte) : JasminReg → Jasmin
  | .side => { j with side := value &&& 1#8, fdc := { j.fdc with side := value &&& 1#8 } }
  | .reset => { j with fdc := fdcReset j.fdc, intrq := 0x80, drq := 0x80 }.driveIrq false
  | .olay => { j with olay := value != 0#8 }
  | .romdis => { j with romdis := value &&& 1#8 != 0#8 }
  | .drive new => if new ≠ j.drive then jasminSelectDrive j new else j

def jasminWrite (j : Jasmin) (addr : Word) (value : Byte) : Jasmin :=
  if addr ≥ 0x03F4#16 && addr ≤ 0x03F7#16 then
    jasminMarkDirty (j.withFdc (fdcWrite j.fdc (Word.lo (addr &&& 3#16)) value))
  else
    match jasminReg addr with
    | some reg => jasminWriteLatch j value reg
    | none => j

/-- `fdc_ticktock(&emu->jasmin.fdc, cycles)`. -/
def jasminTick (j : Jasmin) (cycles : BitVec 32) : Jasmin :=
  j.withFdc (fdcTicktock j.fdc cycles)

/-! ## Media -/

/-- A new medium's surface is pristine; the same image keeps its map. -/
def jasminSetDisk (j : Jasmin) (drive : Byte) (data : Option Nat) (size : Nat)
    (tracks sectorsPerTrack : Byte) : Jasmin :=
  match jasminDrive drive with
  | none => j
  | some d =>
    let mediaChanged := j.diskData d ≠ data
    let j := { j with
      diskData := Function.update j.diskData d data
      diskSize := Function.update j.diskSize d size
      diskTracks := Function.update j.diskTracks d tracks
      diskSectors := Function.update j.diskSectors d sectorsPerTrack
      badMap := if mediaChanged then Function.update j.badMap d .empty else j.badMap }
    if d = j.drive then
      let fdc := fdcSetDisk j.fdc data size
      let fdc := { fdc with tracks := tracks, sectorsPerTrack := sectorsPerTrack }
      { j with fdc := fdcSetBadMap fdc (some (j.badMap d)) }
    else j

def jasminSetWriteProtect (j : Jasmin) (drive : Byte) (on : Bool) : Jasmin :=
  match jasminDrive drive with
  | none => j
  | some d =>
    let j := { j with writeProtect := Function.update j.writeProtect d on }
    if d = j.drive then { j with fdc := fdcSetWriteProtect j.fdc on } else j

def jasminSyncBadMap (j : Jasmin) (d : Fin 4) : Jasmin :=
  if d = j.drive then { j with fdc := fdcSetBadMap j.fdc (some (j.badMap d)) } else j

/-- A bad drive or a full map is refused. -/
def jasminAddBadSector (j : Jasmin) (drive side track sector : Byte) : Jasmin :=
  match jasminDrive drive with
  | none => j
  | some d =>
    match fdcBadMapAdd (j.badMap d) side track sector with
    | none => j
    | some map => jasminSyncBadMap { j with badMap := Function.update j.badMap d map } d

/-! ## Operations -/

/-- What the host and the machine around it do. `cpuReset` is a reset of the CPU, which clears its
lines; `autoboot` is the trap that pages the ROM in. -/
inductive JasminOp
  | write (addr : Word) (value : Byte)
  | read (addr : Word)
  | ticktock (cycles : BitVec 32)
  | setDisk (drive : Byte) (data : Option Nat) (size : Nat) (tracks sectorsPerTrack : Byte)
  | setWriteProtect (drive : Byte) (on : Bool)
  | addBadSector (drive side track sector : Byte)
  | reset
  | cpuReset
  | autoboot

/-- The trap fires once, while the BASIC ROM is mapped. -/
def jasminAutoboot (j : Jasmin) : Jasmin :=
  if !j.autobootDone && !j.romdis then
    { jasminWrite j 0x03FB 1 with cpuIrq := false, autobootDone := true }
  else j

def jasminStep (j : Jasmin) : JasminOp → Jasmin
  | .write addr value => jasminWrite j addr value
  | .read addr => (jasminRead j addr).2
  | .ticktock cycles => jasminTick j cycles
  | .setDisk drive data size tracks sectorsPerTrack =>
    jasminSetDisk j drive data size tracks sectorsPerTrack
  | .setWriteProtect drive on => jasminSetWriteProtect j drive on
  | .addBadSector drive side track sector => jasminAddBadSector j drive side track sector
  | .reset => jasminReset j
  | .cpuReset => { j with cpuIrq := false }
  | .autoboot => jasminAutoboot j

/-! ## Save states -/

def jasminSaveEntry (e : FdcBadSector) : List Byte :=
  binWU8 e.side ++ (binWU8 e.track ++ binWU8 e.sector)

def jasminSaveMap (map : FdcBadMap) : List Byte :=
  binWU8 (BitVec.ofNat 8 map.entry.length) ++ (map.entry.map jasminSaveEntry).flatten

/-- `jasmin_save`, of version `JASMIN_SAVE_VERSION`. -/
def jasminSave (j : Jasmin) : List Byte :=
  [ binWU8 2,
    fdcStateSave j.fdc,
    binWBool j.romdis,
    binWBool j.olay,
    binWU8 (BitVec.ofNat 8 j.drive.val),
    binWU8 j.side,
    binWU8 j.intrq,
    binWU8 j.drq,
    binWBool j.autobootDone,
    jasminSaveMap (j.badMap 0),
    jasminSaveMap (j.badMap 1),
    jasminSaveMap (j.badMap 2),
    jasminSaveMap (j.badMap 3) ].flatten

def jasminReadEntries : Nat → Reader (List FdcBadSector)
  | 0 => return []
  | n + 1 => do
    let side ← binRU8
    let track ← binRU8
    let sector ← binRU8
    return ⟨side, track, sector⟩ :: (← jasminReadEntries n)

/-- A count over `FDC_MAX_BAD_SECTORS` is cut. -/
def jasminReadMap : Reader FdcBadMap := do
  let n ← binRU8
  let entry ← jasminReadEntries (min n.toNat 16)
  return ⟨entry.take 16, List.length_take_le 16 entry⟩

/-- The maps of the four drives, as read. -/
def jasminMaps (map0 map1 map2 map3 : FdcBadMap) : Fin 4 → FdcBadMap
  | 0 => map0
  | 1 => map1
  | 2 => map2
  | 3 => map3

/-- The fields after the version and the WD1793's. -/
def jasminLoadLatches (j : Jasmin) : Reader Jasmin := do
  let romdis ← binRBool
  let olay ← binRBool
  let drive ← binRU8
  let side ← binRU8
  let intrq ← binRU8
  let drq ← binRU8
  let autobootDone ← binRBool
  let map0 ← jasminReadMap
  let map1 ← jasminReadMap
  let map2 ← jasminReadMap
  let map3 ← jasminReadMap
  let side := side &&& 1#8
  let j := { j with
    romdis, olay, side, intrq, drq, autobootDone
    badMap := jasminMaps map0 map1 map2 map3 }
  let j := jasminSelectDrive j ((jasminDrive drive).getD 0)
  return { j with fdc := fdcStateResume { j.fdc with side } }

/-- `JASMIN_SAVE_VERSION` 2, and the older 1. -/
def jasminFdcSize (version : Byte) : Option Nat :=
  if version = 1#8 then some fdcStateSizeV2
  else if version = 2#8 then some fdcStateSize
  else none

/-- `jasmin_load` of a section of `size` bytes. A truncated section and one of another version are
ignored. -/
def jasminLoad (j : Jasmin) (size : Nat) : Reader Jasmin :=
  if size < 1 + fdcStateSizeV2 + 7 + 4 then return j
  else do
    let version ← binRU8
    match jasminFdcSize version with
    | none => return j
    | some fdcSize =>
      if size < 1 + fdcSize + 7 + 4 then return j
      else
        let fdc ← fdcStateLoad j.fdc fdcSize
        jasminLoadLatches { j with fdc }

/-- Save, and load into `target`. -/
def jasminRestore (saved target : Jasmin) : Jasmin :=
  (jasminLoad target (jasminSave saved).length (jasminSave saved)).1

end Phosphoric
