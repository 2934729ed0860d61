import Phosphoric.Acia.Chip
import Phosphoric.Audio.Timed
import Phosphoric.Emu.Savestate
import Phosphoric.Jasmin.Controller
import Phosphoric.Keyboard.Matrix
import Phosphoric.Lib.Section
import Phosphoric.Memory.Banking
import Phosphoric.Microdisc.Controller
import Phosphoric.Video.Preview

/-!
# The sections of a savestate

What `savestate_load` makes of each section, over the whole machine: the reader of each, those of
the cards' hooks (`save_tag`) included. A hook is called whether its card is in or not.

The ULA-NG, the Mageco and the DTL 2000 save the bytes of their record in the host's memory. The
log is not modelled.
-/

namespace Phosphoric

open Binary
open Function (update)

/-! ## The machine -/

/-- `sedoric_disk_t`, the fields a savestate sets. `data` is a buffer. -/
structure OstDisk where
  data : Option Nat
  size : Nat
  tracks : Byte
  sectors : Byte
  sides : Byte

/-- `sp0256_lpc12_t`. -/
structure Sp0256Lpc12 where
  rpt : Int
  cnt : Int
  per : Int
  rng : Int
  amp : Int
  interp : Int
  fCoef : List Int
  bCoef : List Int
  zData : List Int
  r : Vector Byte 16

/-- `sp0256_t`, the fields saved. -/
structure Sp0256 where
  halted : Int
  lrq : Int
  sby : Int
  ald : Int
  pc : Int
  stack : Int
  mode : Int
  page : Int
  silent : Int
  filt : Sp0256Lpc12
  scratch : List Int
  scHead : BitVec 32
  scTail : BitVec 32
  cycleAcc : Int
  resampleAcc : BitVec 32
  lastSample : Int

/-- `mea8000_state_t`. -/
inductive Mea8000State
  | stopped | waitFirst | started | slowing

/-- `mea8000_filter_t`. -/
structure Mea8000Filter where
  fm : Word
  lastFm : Word
  bw : Word
  lastBw : Word
  output : Int
  lastOutput : Int

/-- `mea8000_t`, the fields saved. -/
structure Mea8000 where
  state : Mea8000State
  buf : Vector Byte 4
  bufpos : Byte
  cont : Byte
  roe : Byte
  framelength : Word
  framepos : Word
  framelog : Word
  lastsample : Int
  sample : Int
  output : Int
  phi : BitVec 32
  f : List Mea8000Filter
  lastAmpl : Word
  ampl : Word
  lastPitch : Word
  pitch : Word
  noise : Byte
  ring : List Int
  rhead : BitVec 32
  rtail : BitVec 32
  cycleAcc : Int
  resampleAcc : BitVec 32
  lastOut : Int

/-- A record of the build, by its bytes. -/
structure HostRecord where
  sizeof : Nat
  bytes : Fin sizeof → Byte

/-- `mageco_t` and `dtl2000_t`: the host's pointers are in some of the bytes. -/
structure HostCard extends HostRecord where
  isPointer : Fin sizeof → Bool

/-- `ula_ng_t`, and what `ula_ng_reset` makes of it. -/
structure HostUlaNg extends HostRecord where
  reset : Fin sizeof → Byte

/-- `emulator_t`, and the cards behind the hooks, as far as a savestate reaches. -/
structure OstEmulator (σ : Type) where
  cpu : Cpu6502
  memory : Memory
  charsetBank : Byte
  via : ViaSys σ
  psg : Ay3891x
  /-- `psg.selected_reg`, which a file can set to no register. -/
  selectedReg : Byte
  video : Video
  /-- Where in RAM `video.screen_ram` points. -/
  screenRam : Nat
  keyboard : OricKeyboard
  microdisc : Microdisc
  /-- `microdisc.drive`, once a file has set it to no drive. -/
  strayDrive : Option Byte
  disks : Fin 4 → Option OstDisk
  jasmin : Jasmin
  cardMicrodisc : Bool
  cardJasmin : Bool
  tapeLoaded : Bool
  tapelen : Int
  tapeoffs : Int
  tapeSyncstack : Int
  acia : Acia6551
  rasterCycle : Int
  rasterRendered : Int
  rasterNgLine : Int
  clockResumePending : Bool
  ulaNg : HostUlaNg
  sp0256 : Sp0256
  mea8000 : Mea8000
  mageco : HostCard
  dtl2000 : HostCard
  /-- `calloc` finds memory. -/
  calloc : Bool
  /-- The buffer `realloc` gives, of the old one and a size. -/
  realloc : Option Nat → Nat → Option Nat

variable {σ : Type}

/-! ## Values -/

def readI32le : Reader Int := do return (← readU32le).toInt
def binRI16 : Reader Int := do return (← binRU16).toInt

instance : Takes readU8 1 := inferInstanceAs (Takes (readLe 1 8) 1)
instance : Takes readU16le 2 := inferInstanceAs (Takes (readLe 2 16) 2)
instance : Takes readU32le 4 := inferInstanceAs (Takes (readLe 4 32) 4)
instance : Takes readU64le 8 := inferInstanceAs (Takes (readLe 8 64) 8)

instance : Takes readBool 1 := by
  unfold readBool
  infer_instance

instance : Takes readI32le 4 := by
  unfold readI32le
  infer_instance

instance : Takes binRU8 1 := inferInstanceAs (Takes (readLeAll 1 8) 1)
instance : Takes binRU16 2 := inferInstanceAs (Takes (readLeAll 2 16) 2)
instance : Takes binRU32 4 := inferInstanceAs (Takes (readLeAll 4 32) 4)

instance : Takes binRI32 4 := by
  unfold binRI32
  infer_instance

instance : Takes binRI16 2 := by
  unfold binRI16
  infer_instance

instance : Takes binRBool 1 := by
  unfold binRBool
  infer_instance

/-- An array of three. -/
def arrayOf {α : Type} (a b c : α) : Fin 3 → α
  | 0 => a
  | 1 => b
  | 2 => c

/-! ## The core's sections -/

namespace OstEmulator

def loadCpu (emu : OstEmulator σ) (secSize : Nat) : Reader (OstEmulator σ) := do
  let cpu ← savestateLoadCpu emu.cpu secSize
  return { emu with cpu }

def loadVia (emu : OstEmulator σ) (secSize : Nat) : Reader (OstEmulator σ) := do
  let via ← savestateLoadVia emu.via secSize
  return { emu with via }

def loadMem (emu : OstEmulator σ) : Reader (OstEmulator σ) := do
  let ram ← readOver 0xC000 emu.memory.ram
  let upperRam ← readOver 0x4000 emu.memory.upperRam
  let charsetBank ← readU8
  let romEnabled ← readBool
  let overlayActive ← readBool
  let basicRomDisabled ← readBool
  return { emu with
    charsetBank
    memory := { emu.memory with ram, upperRam, romEnabled, overlayActive, basicRomDisabled } }

/-- What every version has of the PSG. -/
def loadPsgFields (emu : OstEmulator σ) : Reader (OstEmulator σ) := do
  let regs ← readOver 16 emu.psg.regs
  let selectedReg ← readU8
  let period0 ← readU16le
  let period1 ← readU16le
  let period2 ← readU16le
  let counter0 ← readU32le
  let counter1 ← readU32le
  let counter2 ← readU32le
  let output0 ← readU8
  let output1 ← readU8
  let output2 ← readU8
  let noisePeriod ← readU16le
  let noiseCounter ← readU32le
  let noiseShift ← readU32le
  let noiseOutput ← readU8
  let envPeriod ← readU16le
  let envCounter ← readU32le
  let envShape ← readU8
  let envStep ← readU8
  let envVolume ← readU8
  let envHolding ← readBool
  let clockRate ← readU32le
  return { emu with
    selectedReg
    psg := { emu.psg with
      regs, noisePeriod, noiseCounter, noiseShift, noiseOutput, envPeriod, envCounter, envShape,
      envStep, envVolume, envHolding, clockRate
      tonePeriod := arrayOf period0 period1 period2
      toneCounter := arrayOf counter0 counter1 counter2
      toneOutput := arrayOf output0 output1 output2 } }

def loadPsg (emu : OstEmulator σ) (secSize : Nat) : Reader (OstEmulator σ) := do
  let emu ← emu.loadPsgFields
  let stepAcc ← if secSize ≥ 71 then readU32le else pure 0
  let dcAcc ← if secSize ≥ 71 then readI32le else pure 0
  let psg := aySoundResync emu.psg
  return { emu with psg := { psg with play := { psg.play with stepAcc }, dcAcc } }

def ramByte (emu : OstEmulator σ) (address : Nat) : Byte :=
  if h : address < 0xC000 then emu.memory.ram ⟨address, h⟩ else 0

/-- The third byte is the profile of old versions. -/
def loadVid (emu : OstEmulator σ) (secSize : Nat) : Reader (OstEmulator σ) := do
  let hires ← readBool
  let vidMode ← readU8
  let _ ← if secSize ≥ 3 then readU8 else pure 0
  return { emu with
    screenRam := if hires then 0xA000 else 0xBB80
    video := savestateLoadVid emu.ramByte (vidMode, hires) emu.video }

def loadKbd (emu : OstEmulator σ) : Reader (OstEmulator σ) := do
  let matrix ← readOver 8 emu.keyboard.matrix
  return { emu with keyboard := { emu.keyboard with matrix } }

def loadFdc (emu : OstEmulator σ) (secSize : Nat) : Reader (OstEmulator σ) := do
  let fdc ← fdcStateLoad emu.microdisc.fdc secSize
  return { emu with microdisc := { emu.microdisc with fdc } }

/-- The WD1793 is pointed at the drive's media, if there is such a drive. -/
def loadMdc (emu : OstEmulator σ) : Reader (OstEmulator σ) := do
  let status ← readU8
  let intrq ← readU8
  let drq ← readU8
  let diskrom ← readBool
  let romdis ← readBool
  let intena ← readBool
  let drive ← readU8
  let side ← readU8
  let fdc := { emu.microdisc.fdc with side, curSectorData := none }
  let md := { emu.microdisc with status, intrq, drq, diskrom, romdis, intena, side, fdc }
  return match microdiscDrive drive with
  | none => { emu with microdisc := md, strayDrive := some drive }
  | some d =>
    let fdc := { fdc with
      diskData := md.diskData d, diskSize := md.diskSize d, tracks := md.diskTracks d
      sectorsPerTrack := md.diskSectors d }
    { emu with microdisc := { md with drive := d, fdc }, strayDrive := none }

def loadTap (emu : OstEmulator σ) : Reader (OstEmulator σ) := do
  let tapeLoaded ← readBool
  let tapelen ← readI32le
  let tapeoffs ← readI32le
  let tapeSyncstack ← readI32le
  return { emu with tapeLoaded, tapelen, tapeoffs, tapeSyncstack }

def loadSer (emu : OstEmulator σ) : Reader (OstEmulator σ) := do
  let tdr ← readU8
  let rdr ← readU8
  let status ← readU8
  let command ← readU8
  let control ← readU8
  let txPending ← readBool
  let rxFull ← readBool
  let irqLine ← readBool
  let txCycles ← readI32le
  let rxCycles ← readI32le
  let v23Mode ← readBool
  let dcd ← readBool
  let dsr ← readBool
  let cts ← readBool
  return { emu with acia := { emu.acia with
    tdr, rdr, status, command, control, txPending, rxFull, irqLine, txCycles, rxCycles, v23Mode,
    dcd, dsr, cts } }

def loadClk (emu : OstEmulator σ) : Reader (OstEmulator σ) := do
  let rasterCycle ← readI32le
  let rasterRendered ← readI32le
  let rasterNgLine ← readI32le
  return { emu with rasterCycle, rasterRendered, rasterNgLine, clockResumePending := true }

/-- The metadata is only logged, out of a buffer of 1024 bytes. -/
def loadMeta (emu : OstEmulator σ) (secSize : Nat) : Reader (OstEmulator σ) := do
  let _ ← readUpTo (min secSize 1023)
  return emu

/-! ## Disk images -/

/-- A disk for the drive, if it has none. -/
def ensureDisk (emu : OstEmulator σ) (d : Fin 4) : OstEmulator σ :=
  if (emu.disks d).isNone && emu.calloc then
    { emu with disks := update emu.disks d (some ⟨none, 0, 0, 0, 0⟩) }
  else emu

/-- The disk's buffer, of the image's size. -/
def sizedBuffer (emu : OstEmulator σ) (d : Fin 4) (dsize : Nat) : Option Nat :=
  match emu.disks d with
  | none => none
  | some disk =>
    if disk.data.isSome ∧ disk.size = dsize then disk.data else emu.realloc disk.data dsize

/-- Bytes read into a buffer. -/
def fillBuffer (buf : Nat) (bytes : List Byte) (heap : Heap Ptr Byte) : Heap Ptr Byte :=
  bytes.zipIdx.foldl (fun heap b => heap.store ⟨buf, b.2⟩ b.1) heap

/-- `microdisc_set_disk`: no drive is the selected one if `microdisc.drive` is none. -/
def setMicrodisc (emu : OstEmulator σ) (d : Fin 4) (buf dsize : Nat) (tracks sectors : Byte) :
    Microdisc :=
  let md := microdiscSetDisk emu.microdisc (.ofNat 8 d.val) (some buf) dsize tracks sectors
  if emu.strayDrive.isNone then md else { md with fdc := emu.microdisc.fdc }

/-- The image read, and the controllers pointed at it. -/
def setImage (emu : OstEmulator σ) (d : Fin 4) (buf dsize : Nat) (tracks sectors sides : Byte)
    (bytes : List Byte) : OstEmulator σ :=
  let md := emu.microdisc
  let j := emu.jasmin
  let emu := { emu with
    disks := update emu.disks d (some ⟨some buf, dsize, tracks, sectors, sides⟩)
    microdisc := { md with fdc := { md.fdc with heap := fillBuffer buf bytes md.fdc.heap } }
    jasmin := { j with fdc := { j.fdc with heap := fillBuffer buf bytes j.fdc.heap } } }
  { emu with
    microdisc := emu.setMicrodisc d buf dsize tracks sectors
    jasmin :=
      if emu.cardJasmin then
        jasminSetDisk emu.jasmin (.ofNat 8 d.val) (some buf) dsize tracks sectors
      else emu.jasmin }

/-- The images of no drive, of no bytes and of impossible sizes are skipped. -/
def imageDrive (drive : Byte) (dsize : BitVec 32) : Option (Fin 4) :=
  if dsize = 0#32 ∨ dsize.toNat > 2 * 256 * 256 * 256 then none else microdiscDrive drive

/-- The image, or what is passed over. -/
def loadImageData (emu : OstEmulator σ) (target : Option (Fin 4)) (dsize : Nat)
    (dtracks dsectors dsides : Byte) : Reader (OstEmulator σ) :=
  match target with
  | none => do
    skip dsize
    return emu
  | some d =>
    let emu := emu.ensureDisk d
    match emu.sizedBuffer d dsize with
    | none => do
      skip dsize
      return emu
    | some buf => do
      let bytes ← readUpTo dsize
      return emu.setImage d buf dsize dtracks dsectors dsides bytes

def loadImage (emu : OstEmulator σ) : Reader (OstEmulator σ) := do
  let drive ← readU8
  let dsize ← readU32le
  let dtracks ← readU8
  let dsectors ← readU8
  let dsides ← readU8
  emu.loadImageData (imageDrive drive dsize) dsize.toNat dtracks dsectors dsides

def loadImages (emu : OstEmulator σ) : Nat → Reader (OstEmulator σ)
  | 0 => return emu
  | n + 1 => do
    let emu ← emu.loadImage
    emu.loadImages n

def loadDsk (emu : OstEmulator σ) : Reader (OstEmulator σ) := do
  let ndrives ← readU8
  emu.loadImages ndrives.toNat

/-! ## Bad sectors -/

def readBadSectors (map : FdcBadMap) : Nat → Reader FdcBadMap
  | 0 => return map
  | n + 1 => do
    let side ← readU8
    let track ← readU8
    let sector ← readU8
    readBadSectors ((fdcBadMapAdd map side track sector).getD map) n

/-- A count over `FDC_MAX_BAD_SECTORS` is cut. -/
def readBadMap : Reader FdcBadMap := do
  let n ← readU8
  readBadSectors .empty (min n.toNat 16)

def loadBad (emu : OstEmulator σ) : Reader (OstEmulator σ) := do
  let map0 ← readBadMap
  let map1 ← readBadMap
  let map2 ← readBadMap
  let map3 ← readBadMap
  let md := { emu.microdisc with badMap := jasminMaps map0 map1 map2 map3 }
  return { emu with
    microdisc := if emu.strayDrive.isNone then microdiscSyncBadMap md md.drive else md }

end OstEmulator

/-! ## The cards' sections -/

/-- `SP0256_SAVE_SIZE`. -/
def sp0256SaveSize : Nat :=
  1 + 9 * 4 + (6 * 4 + 12 * 2 + 12 * 2 + 16) + (4096 * 2 + 8) + 4 + 4 + 2

def sp0256LoadFilter : Reader Sp0256Lpc12 := do
  let rpt ← binRI32
  let cnt ← binRI32
  let per ← binRI32
  let rng ← binRI32
  let amp ← binRI32
  let interp ← binRI32
  let fCoef ← readMany 6 binRI16
  let bCoef ← readMany 6 binRI16
  let zData ← readMany 12 binRI16
  let r ← Binary.readBytes 16
  return { rpt, cnt, per, rng, amp, interp, fCoef, bCoef, zData, r }

def sp0256LoadFields : Reader Sp0256 := do
  let halted ← binRI32
  let lrq ← binRI32
  let sby ← binRI32
  let ald ← binRI32
  let pc ← binRI32
  let stack ← binRI32
  let mode ← binRI32
  let page ← binRI32
  let silent ← binRI32
  let filt ← sp0256LoadFilter
  let scratch ← readMany 4096 binRI16
  let scHead ← binRU32
  let scTail ← binRU32
  let cycleAcc ← binRI32
  let resampleAcc ← binRU32
  let lastSample ← binRI16
  return {
    halted, lrq, sby, ald, pc, stack, mode, page, silent, filt, scratch, scHead, scTail, cycleAcc,
    resampleAcc, lastSample }

/-- `sp0256_load`. A section of another size or version is ignored. -/
def sp0256Load (sp : Sp0256) (size : Nat) : Reader Sp0256 :=
  if size ≠ sp0256SaveSize then return sp
  else do
    let version ← binRU8
    if version ≠ 1#8 then return sp else sp0256LoadFields

/-- `MEA8000_SAVE_SIZE`. -/
def mea8000SaveSize : Nat :=
  1 + 1 + 4 + 3 + 6 + 4 + 4 + 4 + 4 * (8 + 8) + 8 + 1 + 8192 * 2 + 8 + 4 + 4 + 2

/-- A state of no value is `MEA8000_STOPPED`. -/
def Mea8000State.ofCode (code : Byte) : Mea8000State :=
  match code.toNat with
  | 1 => .waitFirst
  | 2 => .started
  | 3 => .slowing
  | _ => .stopped

def mea8000LoadFilter : Reader Mea8000Filter := do
  let fm ← binRU16
  let lastFm ← binRU16
  let bw ← binRU16
  let lastBw ← binRU16
  let output ← binRI32
  let lastOutput ← binRI32
  return { fm, lastFm, bw, lastBw, output, lastOutput }

def mea8000LoadFields : Reader Mea8000 := do
  let state ← binRU8
  let buf ← Binary.readBytes 4
  let bufpos ← binRU8
  let cont ← binRU8
  let roe ← binRU8
  let framelength ← binRU16
  let framepos ← binRU16
  let framelog ← binRU16
  let lastsample ← binRI16
  let sample ← binRI16
  let output ← binRI32
  let phi ← binRU32
  let f ← readMany 4 mea8000LoadFilter
  let lastAmpl ← binRU16
  let ampl ← binRU16
  let lastPitch ← binRU16
  let pitch ← binRU16
  let noise ← binRU8
  let ring ← readMany 8192 binRI16
  let rhead ← binRU32
  let rtail ← binRU32
  let cycleAcc ← binRI32
  let resampleAcc ← binRU32
  let lastOut ← binRI16
  return {
    buf, cont, roe, framelength, framepos, framelog, lastsample, sample, output, phi, f, lastAmpl,
    ampl, lastPitch, pitch, noise, ring, rhead, rtail, cycleAcc, resampleAcc, lastOut
    state := .ofCode state
    bufpos := if bufpos > 4#8 then 4#8 else bufpos }

/-- `mea8000_load`. A section of another size or version is ignored. -/
def mea8000Load (m : Mea8000) (size : Nat) : Reader Mea8000 :=
  if size ≠ mea8000SaveSize then return m
  else do
    let version ← binRU8
    if version ≠ 1#8 then return m else mea8000LoadFields

/-- The record's bytes, or `short` if the file ends inside them. -/
def hostRead {n : Nat} (short : Fin n → Byte) : Reader (Fin n → Byte) := fun bs =>
  if n ≤ bs.length then readOver n short bs else (short, bs.drop n)

/-- `mageco_load` and `dtl2000_load`: the live pointers are kept. -/
def hostCardLoad (dev : HostCard) (size : Nat) : Reader HostCard :=
  if size ≠ dev.sizeof then return dev
  else do
    let bytes ← hostRead dev.bytes
    return { dev with bytes := fun i => if dev.isPointer i then dev.bytes i else bytes i }

def magecoLoad : HostCard → Nat → Reader HostCard := hostCardLoad
def dtl2000Load : HostCard → Nat → Reader HostCard := hostCardLoad

/-- `ula_ng_load`. -/
def ulaNgLoadRecord (u : HostUlaNg) (size : Nat) : Reader HostUlaNg :=
  if size ≠ u.sizeof then return u
  else do
    let bytes ← hostRead u.reset
    return { u with bytes }

/-- `jasmin_dev_load`: the banking follows the latches. -/
def OstEmulator.loadJas (emu : OstEmulator σ) (size : Nat) : Reader (OstEmulator σ) := do
  let jasmin ← jasminLoad emu.jasmin size
  return { emu with
    jasmin
    memory := { emu.memory with jasminOlay := jasmin.olay, jasminRomdis := jasmin.romdis } }

/-! ## Any section -/

inductive OstKind
  | cpu | mem | via | psg | vid | kbd | fdc | mdc | dsk | bad | tap | ser | clk | info
  | jas | spo | mag | ung | mea | dtl | unknown
  deriving DecidableEq, Repr

/-- The tags of `savestate.c`, and the `save_tag`s of the cards. -/
def ostTags : List (OstTag × OstKind) :=
  [ (ostTagCpu, .cpu),
    (ostTagMem, .mem),
    (ostTagVia, .via),
    (ostTagPsg, .psg),
    (ostTagVid, .vid),
    (ostTagKbd, .kbd),
    (ostTagFdc, .fdc),
    (ostTagMdc, .mdc),
    (ostTagDsk, .dsk),
    (ostTagBad, .bad),
    (ostTagTap, .tap),
    (#v[0x53, 0x45, 0x52, 0x00], .ser),
    (ostTagClk, .clk),
    (ostTagInfo, .info),
    (#v[0x4A, 0x41, 0x53, 0x00], .jas),
    (#v[0x53, 0x50, 0x4F, 0x00], .spo),
    (#v[0x4D, 0x41, 0x47, 0x00], .mag),
    (#v[0x55, 0x4E, 0x47, 0x00], .ung),
    (#v[0x4D, 0x45, 0x41, 0x00], .mea),
    (#v[0x44, 0x54, 0x4C, 0x00], .dtl) ]

def ostKind (tag : OstTag) : OstKind := (ostTags.lookup tag).getD .unknown

/-- What the loop of `savestate_load` does with the data of a section of `secSize` bytes. -/
def OstEmulator.loadKind (emu : OstEmulator σ) (secSize : Nat) : OstKind → Reader (OstEmulator σ)
  | .cpu => emu.loadCpu secSize
  | .mem => emu.loadMem
  | .via => emu.loadVia secSize
  | .psg => emu.loadPsg secSize
  | .vid => emu.loadVid secSize
  | .kbd => emu.loadKbd
  | .fdc => emu.loadFdc secSize
  | .mdc => emu.loadMdc
  | .dsk => emu.loadDsk
  | .bad => emu.loadBad
  | .tap => emu.loadTap
  | .ser => emu.loadSer
  | .clk => emu.loadClk
  | .info => emu.loadMeta secSize
  | .jas => emu.loadJas secSize
  | .spo => do return { emu with sp0256 := ← sp0256Load emu.sp0256 secSize }
  | .mag => do return { emu with mageco := ← magecoLoad emu.mageco secSize }
  | .ung => do return { emu with ulaNg := ← ulaNgLoadRecord emu.ulaNg secSize }
  | .mea => do return { emu with mea8000 := ← mea8000Load emu.mea8000 secSize }
  | .dtl => do return { emu with dtl2000 := ← dtl2000Load emu.dtl2000 secSize }
  | .unknown => return emu

def OstEmulator.loadSection (emu : OstEmulator σ) (tag : OstTag) (secSize : Nat) :
    Reader (OstEmulator σ) :=
  emu.loadKind secSize (ostKind tag)

/-- After the last section: the sector in progress is looked up again. -/
def OstEmulator.loaded (emu : OstEmulator σ) : OstEmulator σ :=
  if emu.cardMicrodisc then
    { emu with microdisc := { emu.microdisc with fdc := fdcStateResume emu.microdisc.fdc } }
  else emu

end Phosphoric
