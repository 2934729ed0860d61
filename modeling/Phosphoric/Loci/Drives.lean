import Phosphoric.Fdc.Chip
import Phosphoric.Lib.Ownership
import Phosphoric.Sedoric.Mfm

/-!
# The LOCI's disk drives

The drives of `src/io/loci_bus.c`: a WD1793 at $0310-$0313, a control register at $0314 that
selects one of four drives, and the images mounted in them. An image is a heap buffer; a mount
allocates it, the next mount or an unmount of the drive frees it.

The host is outside: what loading a file or a header answers is an argument of the mount
(`DskHost`, `DskWebHost`), and the write-back to the file is left out. The tracks a web-backed
image gets from its server come in between two accesses (`lociDskServe`).
-/

open Function (update)

open Buffer (slice)

namespace Phosphoric

/-! ## State -/

/-- The calls the drives make on the bus. -/
inductive LociBusCall
  | cpuIrqSet
  | cpuIrqClr
  | syncOverlay (romdis diskrom : Bool)
  deriving DecidableEq, Repr

/-- The `dsk_` fields of `loci_t`. -/
structure LociDsk where
  enabled : Bool
  selected : Fin 4
  ctrl : Byte
  intena : Bool
  /-- 0x00 when INTRQ is active. -/
  intrq : Byte
  /-- 0x00 when DRQ is active. -/
  drq : Byte
  spare : Fin 2 → Byte
  fdc : Fdc
  /-- `none` for null. -/
  image : Fin 4 → Option Nat
  imageSize : Fin 4 → Nat
  tracks : Fin 4 → Byte
  sectors : Fin 4 → Byte
  web : Fin 4 → Bool
  badMap : Fin 4 → FdcBadMap
  badCli : Fin 4 → FdcBadMap
  buffers : Buffers
  /-- The bus callbacks are set. -/
  wired : Bool
  busCalls : List LociBusCall

/-- What `loci_init` sets; `loci_set_dsk_bus_callbacks` and the card set the rest. -/
def lociDskInit (heap : Heap Ptr Byte) (enabled wired : Bool) : LociDsk where
  enabled := enabled
  selected := 0
  ctrl := 0
  intena := false
  intrq := 0x80
  drq := 0x80
  spare := fun _ => 0
  fdc := fdcInit heap
  image := fun _ => none
  imageSize := fun _ => 0
  tracks := fun _ => 41
  sectors := fun _ => 17
  web := fun _ => false
  badMap := fun _ => .empty
  badCli := fun _ => .empty
  buffers := .initial
  wired := wired
  busCalls := []

def LociDsk.busCall (loci : LociDsk) (call : LociBusCall) : LociDsk :=
  if loci.wired then { loci with busCalls := loci.busCalls ++ [call] } else loci

/-- `loci_fdc_set_drq` and its siblings. -/
def lociFdcSignal (loci : LociDsk) : FdcSignal → LociDsk
  | .setDrq => { loci with drq := 0x00#8 }
  | .clrDrq => { loci with drq := 0x80#8 }
  | .setIntrq =>
    let loci := { loci with intrq := 0x00#8 }
    if loci.intena then loci.busCall .cpuIrqSet else loci
  | .clrIntrq => { loci with intrq := 0x80#8 }.busCall .cpuIrqClr

/-- The WD1793 after a call, and the callbacks the call made. -/
def LociDsk.withFdc (loci : LociDsk) (fdc : Fdc) : LociDsk :=
  fdc.signals.reverse.foldl lociFdcSignal { loci with fdc := { fdc with signals := [] } }

/-! ## Images -/

/-- `drive >= 4` is refused. -/
def lociDrive (drive : Byte) : Option (Fin 4) :=
  if h : drive.toNat < 4 then some ⟨drive.toNat, h⟩ else none

/-- What an image buffer holds. -/
def fillBuffer (heap : Heap Ptr Byte) (b : Nat) (contents : Nat → Byte) : Heap Ptr Byte :=
  { heap with load := fun p => if p.buf = b then contents p.off else heap.load p }

/-- `malloc` or `calloc` of a drive's image, and what is put there. -/
def LociDsk.allocate (loci : LociDsk) (d : Fin 4) (data : List Byte) (size : Nat) : LociDsk :=
  let (b, buffers) := loci.buffers.malloc
  { loci with
    buffers := buffers, image := update loci.image d (some b)
    imageSize := update loci.imageSize d size
    fdc := { loci.fdc with heap := fillBuffer loci.fdc.heap b fun i => data.getD i 0#8 } }

/-- Frees the image of a drive; its size stays. -/
def lociDskFree (loci : LociDsk) (d : Fin 4) : LociDsk :=
  match loci.image d with
  | some b => { loci with buffers := loci.buffers.free b, image := update loci.image d none }
  | none => loci

/-- Frees the image of a drive, and there is no more of it. -/
def lociDskDiscard (loci : LociDsk) (d : Fin 4) : LociDsk :=
  match loci.image d with
  | some _ => { lociDskFree loci d with imageSize := update loci.imageSize d 0 }
  | none => loci

/-- `loci_apply_dsk_selection`. -/
def lociApplyDskSelection (loci : LociDsk) : LociDsk :=
  let drv := loci.selected
  let fdc := fdcSetDisk loci.fdc (loci.image drv) (loci.imageSize drv)
  let fdc := { fdc with tracks := loci.tracks drv, sectorsPerTrack := loci.sectors drv }
  { loci with fdc := fdcSetBadMap fdc (some (loci.badMap drv)) }

/-- Fresh media in the slot. -/
def lociDskMounted (loci : LociDsk) (d : Fin 4) : LociDsk :=
  let loci := { loci with badMap := update loci.badMap d (loci.badCli d) }
  if loci.selected = d then lociApplyDskSelection loci else loci

/-- -1 on a bad drive or a full map. -/
def lociAddBadSector (loci : LociDsk) (drive side track sector : Byte) : Int × LociDsk :=
  match lociDrive drive with
  | none => (-1, loci)
  | some d =>
    match fdcBadMapAdd (loci.badCli d) side track sector with
    | none => (-1, loci)
    | some cli =>
      let mounted := (fdcBadMapAdd (loci.badMap d) side track sector).getD (loci.badMap d)
      let loci := { loci with
        badCli := update loci.badCli d cli, badMap := update loci.badMap d mounted }
      (0, if loci.selected = d then { loci with fdc := fdcSetBadMap loci.fdc (some mounted) }
        else loci)

/-! ## Mounting a file -/

/-- What the host answers to `loci_dsk_open`. -/
structure DskHost where
  /-- The bytes `sedoric_load` reads; `none` when it fails. -/
  sedoric : Option (List Byte)
  /-- The length of the plain file; `none` when it does not open. -/
  ftell : Option Int
  malloc : Bool
  /-- The bytes `fread` gets. -/
  fread : List Byte

/-- The plain file is read whole, up to one MiB. -/
def DskHost.plain (host : DskHost) : Option (List Byte) :=
  match host.ftell with
  | none => none
  | some sz =>
    if sz ≤ 0 || sz > 1024 * 1024 then none
    else if !host.malloc then none
    else if host.fread.length ≠ sz.toNat then none
    else some host.fread

/-- The old image goes before the new file is looked at. -/
def lociDskOpen (loci : LociDsk) (drive : Byte) (host : DskHost) : Bool × LociDsk :=
  match lociDrive drive with
  | none => (false, loci)
  | some d =>
    let loci := lociDskDiscard loci d
    let loci := { loci with web := update loci.web d false }
    match host.sedoric with
    | some raw =>
      let sd := sedoricLoad raw
      let loci := loci.allocate d sd.data sd.size
      (true, lociDskMounted
        { loci with
          tracks := update loci.tracks d sd.tracks, sectors := update loci.sectors d sd.sectors } d)
    | none =>
      match host.plain with
      | none => (false, loci)
      -- the geometry is the last image's
      | some raw => (true, lociDskMounted (loci.allocate d raw raw.length) d)

/-! ## Mounting a web disk -/

/-- What the host answers to `loci_dsk_open_web`. -/
structure DskWebHost where
  /-- The bytes of the header the server gave. -/
  header : List Byte
  calloc : Bool

/-- `hn >= 16`, and the signature. -/
def DskWebHost.isDisk (host : DskWebHost) : Bool :=
  16 ≤ host.header.length && slice host.header 0 8 == mfmDiskMagic

def DskWebHost.sides (host : DskWebHost) : Nat := min (max (sedoricU32 host.header 8) 1) 2

def DskWebHost.tracks (host : DskWebHost) : Nat := min (sedoricU32 host.header 12) 82

/-- The header is looked at first, and then the old image goes. -/
def lociDskOpenWeb (loci : LociDsk) (drive : Byte) (host : DskWebHost) : Bool × LociDsk :=
  match lociDrive drive with
  | none => (false, loci)
  | some d =>
    if !host.isDisk then (false, loci)
    else
      let loci := lociDskFree loci d
      if !host.calloc then (false, loci)
      else
        let flat := host.sides * host.tracks * 17 * 256
        let loci := loci.allocate d (List.replicate flat 0#8) flat
        (true, lociDskMounted
          { loci with
            tracks := update loci.tracks d (BitVec.ofNat 8 host.tracks)
            sectors := update loci.sectors d 17#8
            web := update loci.web d true } d)

/-- A track fetched from the server of the selected drive goes into its image. -/
def lociDskServe (loci : LociDsk) (contents : Nat → Byte) : LociDsk :=
  if loci.web loci.selected then
    match loci.fdc.diskData with
    | some b => { loci with fdc := { loci.fdc with heap := fillBuffer loci.fdc.heap b contents } }
    | none => loci
  else loci

/-! ## Unmounting -/

def lociDskClose (loci : LociDsk) (drive : Byte) : LociDsk :=
  match lociDrive drive with
  | none => loci
  | some d =>
    let loci := lociDskDiscard loci d
    let loci := { loci with
      web := update loci.web d false, badMap := update loci.badMap d .empty }
    if loci.selected = d then
      { loci with fdc := fdcSetBadMap (fdcSetDisk loci.fdc none 0) none }
    else loci

/-! ## Register accesses -/

/-- The status shows an empty drive as not ready. -/
def lociDskRead (loci : LociDsk) (address : Word) : Byte × LociDsk :=
  if !loci.enabled then (0xFF#8, loci)
  else if address = 0x0310#16 then
    let (s, fdc) := fdcRead loci.fdc 0
    let loci := loci.withFdc fdc
    (if (loci.image loci.selected).isNone then s ||| 0x80#8 else s, loci)
  else if address = 0x0311#16 ∨ address = 0x0312#16 ∨ address = 0x0313#16 then
    let (value, fdc) := fdcRead loci.fdc (Word.lo (address &&& 3#16))
    (value, loci.withFdc fdc)
  else if address = 0x0314#16 then (loci.intrq, loci)
  else if address = 0x0318#16 then (loci.drq, loci)
  else if address = 0x0319#16 then (0x4C#8, loci)
  else if address = 0x031A#16 then (loci.spare 0, loci)
  else if address = 0x031B#16 then (loci.spare 1, loci)
  else (0xFF#8, loci)

/-- Bits 6:5 of the control register. -/
def lociCtrlDrive (value : Byte) : Fin 4 :=
  ⟨((value &&& 0x60#8) >>> 5).toNat % 4, Nat.mod_lt _ (by decide)⟩

/-- `LOCI_DSK_IO_CTRL`. -/
def lociDskControl (loci : LociDsk) (value : Byte) : LociDsk :=
  let loci := { loci with
    ctrl := value
    intena := value &&& 0x01#8 != 0#8
    fdc := { loci.fdc with side := if value &&& 0x10#8 != 0#8 then 1#8 else 0#8 } }
  let loci :=
    if lociCtrlDrive value ≠ loci.selected then
      lociApplyDskSelection { loci with selected := lociCtrlDrive value }
    else loci
  let loci := loci.busCall (.syncOverlay (value &&& 0x02#8 == 0#8) (value &&& 0x80#8 == 0#8))
  loci.busCall (if loci.intena && loci.intrq == 0x00#8 then .cpuIrqSet else .cpuIrqClr)

def lociDskWrite (loci : LociDsk) (address : Word) (value : Byte) : LociDsk :=
  if !loci.enabled then loci
  else if address ≥ 0x0310#16 && address ≤ 0x0313#16 then
    loci.withFdc (fdcWrite loci.fdc (Word.lo (address &&& 3#16)) value)
  else if address = 0x0314#16 then lociDskControl loci value
  else if address = 0x0318#16 then { loci with drq := value }
  else if address = 0x031A#16 then { loci with spare := update loci.spare 0 value }
  else if address = 0x031B#16 then { loci with spare := update loci.spare 1 value }
  else loci

/-! ## Operations -/

inductive LociDskOp
  | write (address : Word) (value : Byte)
  | read (address : Word)
  | ticktock (cycles : BitVec 32)
  | mount (drive : Byte) (host : DskHost)
  | mountWeb (drive : Byte) (host : DskWebHost)
  | serve (contents : Nat → Byte)
  | umount (drive : Byte)
  | addBadSector (drive side track sector : Byte)

def lociDskStep (loci : LociDsk) : LociDskOp → LociDsk
  | .write address value => lociDskWrite loci address value
  | .read address => (lociDskRead loci address).2
  | .ticktock cycles => loci.withFdc (fdcTicktock loci.fdc cycles)
  | .mount drive host => (lociDskOpen loci drive host).2
  | .mountWeb drive host => (lociDskOpenWeb loci drive host).2
  | .serve contents => lociDskServe loci contents
  | .umount drive => lociDskClose loci drive
  | .addBadSector drive side track sector => (lociAddBadSector loci drive side track sector).2

end Phosphoric
