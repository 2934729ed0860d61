import Phosphoric.Loci.Drives
import Phosphoric.Loci.Tape

/-!
# The LOCI's registers, stack and windows

The state of `src/io/loci_core.c` behind $03A0-$03BF: the register file, the xstack the 6502 passes
arguments through, the 64 KiB of xram and the two windows on it, the file and directory slots, the
mounted media and the graphics assist (`loci_t`, and the statics of `loci_gfx.c`).

An access of the xstack outside its 512 bytes sets `xstackFault`. Its pointer is a `Nat`: it stays
far from the end of `uint16_t`.

The host and the SD image answer calls. What they answer during an operation is an argument of it
(`LociHost`). Strings are lists of bytes without the final zero.
-/

open Function (update)

namespace Phosphoric

/-- The bytes of a string. -/
def ascii (text : String) : List Byte := text.toList.map fun c => BitVec.ofNat 8 c.toNat

/-! ## Constants -/

abbrev lociXstackSize : Nat := 512
abbrev lociXramSize : Nat := 0x10000
abbrev lociFdMax : Nat := 16
abbrev lociFdOffset : Nat := 3
abbrev lociDirMax : Nat := 8
abbrev lociDirOffset : Nat := 64
abbrev lociDirNameLen : Nat := 64
abbrev lociDirentSize : Nat := 72
abbrev lociMntMax : Nat := 6
abbrev lociMntTap : Nat := 4
abbrev lociMntRom : Nat := 5
abbrev lociUsbDevMax : Nat := 4
abbrev lociTapHeaderSize : Nat := 16
abbrev lociWebDirFd : Nat := 200

abbrev lociRegConsFlags : Nat := 0x00
abbrev lociRegConsTx : Nat := 0x01
abbrev lociRegConsChar : Nat := 0x02
abbrev lociRegUlaSnoop : Nat := 0x03
abbrev lociRegRw0 : Nat := 0x04
abbrev lociRegStep0 : Nat := 0x05
abbrev lociRegAddr0Lo : Nat := 0x06
abbrev lociRegAddr0Hi : Nat := 0x07
abbrev lociRegRw1 : Nat := 0x08
abbrev lociRegStep1 : Nat := 0x09
abbrev lociRegAddr1Lo : Nat := 0x0A
abbrev lociRegAddr1Hi : Nat := 0x0B
abbrev lociRegApiStack : Nat := 0x0C
abbrev lociRegApiErrnoLo : Nat := 0x0D
abbrev lociRegApiErrnoHi : Nat := 0x0E
abbrev lociRegApiOp : Nat := 0x0F
abbrev lociRegInject0 : Nat := 0x10
abbrev lociRegBusy : Nat := 0x12
abbrev lociRegApiA : Nat := 0x14
abbrev lociRegApiX : Nat := 0x16
abbrev lociRegApiSreg : Nat := 0x18
abbrev lociRegApiSregHi : Nat := 0x19

abbrev lociEnoent : Word := 1
abbrev lociEacces : Word := 3
abbrev lociEnodev : Word := 4
abbrev lociEmfile : Word := 5
abbrev lociEinval : Word := 7
abbrev lociEexist : Word := 9
abbrev lociEio : Word := 11
abbrev lociEnosys : Word := 13
abbrev lociEbadf : Word := 16
abbrev lociEunknown : Word := 18

/-- `LOCI_EFATFS`. -/
def lociEfatfs (fresult : Word) : Word := 32 + fresult

abbrev lociFrDiskErr : Word := 1
abbrev lociFrNoFile : Word := 4
abbrev lociFrNoPath : Word := 5
abbrev lociFrInvalidName : Word := 6
abbrev lociFrDenied : Word := 7
abbrev lociFrExist : Word := 8
abbrev lociFrWriteProtected : Word := 10
abbrev lociFrLocked : Word := 16
abbrev lociFrNotEnoughCore : Word := 17
abbrev lociFrTooManyOpenFiles : Word := 18

/-! ## State -/

/-- The statics of the graphics assist. -/
structure LociGfx where
  dirty : Nat → Bool
  bank : Nat
  wb : Nat
  rows : Nat
  bytes : Nat
  ready : Bool

/-- `loci_t`, but for its counters and its timing model. -/
structure Loci where
  enabled : Bool
  regs : Nat → Byte
  xstack : Nat → Byte
  /-- The top of the xstack; its size when empty. -/
  xstackPtr : Nat
  /-- Something outside the xstack was accessed. -/
  xstackFault : Bool
  clockStartUs : Nat
  /-- The file slots in use. -/
  fds : Nat → Bool
  flashRoot : List Byte
  xram : Nat → Byte
  mntMounted : Nat → Bool
  mntPaths : Nat → List Byte
  /-- The directory slots in use. -/
  dirs : Nat → Bool
  kbdXram : Word
  mouXram : Word
  padXram : Word
  bootSettings : Byte
  tap : LociTape
  consTxLine : List Byte
  consRx : List Byte
  dsk : LociDsk
  webBase : List Byte
  webDisks : List (List Byte)
  webDirPos : Nat
  webDirOpen : Bool
  /-- A host callback is set. -/
  romSwapSet : Bool
  resumeSet : Bool
  ulaSnoopSet : Bool
  romPokeSet : Bool
  resumePending : Bool
  ulaPattern : Byte
  /-- 0 idle, 1 lead-in, 2 sweeping. -/
  adjState : Nat
  adjTior : Nat
  adjAcc : Nat
  /-- `none` is closed. -/
  dirDev : Option Nat
  actionActive : Bool
  usbDev : List (List Byte)
  usbRoot : List (List Byte)
  /-- An SD image is attached. -/
  sdimg : Bool
  miaTmap : Byte
  miaTior : Byte
  miaTiow : Byte
  miaTiod : Byte
  miaTadr : Byte
  gfx : LociGfx

/-! ## The host -/

/-- The `errno` values the code tells apart. -/
inductive HostErrno
  | enoent | enotdir | eacces | eperm | eexist | erofs | enomem | ebadf | einval | enospc | ebusy
  | eio | enosys | emfile | enotempty | eisdir | other
  deriving DecidableEq, Repr

/-- The modes `fopen_mode_for` gives. -/
inductive FopenMode
  | rb | ab | aPlusB | wb | wPlusB | rPlusB
  deriving DecidableEq, Repr

/-- What a directory entry shows. -/
structure HostEntry where
  name : List Byte
  isDir : Bool
  size : BitVec 32

/-- What the host and the SD image answer to the calls of one operation. `none` is success where
an error is the only answer. -/
structure LociHost where
  nowUs : Nat
  time : BitVec 32
  rand : BitVec 32 × BitVec 32
  access : List Byte → Bool
  fopen : List Byte → FopenMode → Option HostErrno
  fread : Nat → Nat → List Byte
  fwrite : Nat → List Byte → Nat
  fseek : Nat → BitVec 32 → Nat → Except HostErrno (BitVec 32)
  statIsDir : List Byte → Bool
  rmdir : List Byte → Option HostErrno
  unlink : List Byte → Option HostErrno
  rename : List Byte → List Byte → Option HostErrno
  mkdir : List Byte → Option HostErrno
  opendir : List Byte → Option HostErrno
  readdir : Nat → Option HostEntry
  sdFopen : List Byte → Nat → Except HostErrno Nat
  sdFclose : Nat → Option HostErrno
  /-- The bytes stored, and the error that may have come after them. -/
  sdFread : Nat → Nat → List Byte × Option HostErrno
  sdFwrite : Nat → List Byte → Except HostErrno Nat
  sdLseek : Nat → BitVec 32 → Nat → Except HostErrno (BitVec 32)
  sdOpendir : List Byte → Except HostErrno Nat
  sdClosedir : Nat → Option HostErrno
  sdReaddir : Nat → Except HostErrno (Option HostEntry)
  sdUnlink : List Byte → Option HostErrno
  sdRename : List Byte → List Byte → Option HostErrno
  sdMkdir : List Byte → Option HostErrno
  /-- `sdimg_extract_to_temp`: the path of the copy. -/
  sdExtract : List Byte → Option (List Byte)
  /-- The names in the server's list of disks. -/
  webDisks : List (List Byte)
  /-- A tape file; `none` when it does not open. -/
  tape : List Byte → Option TapeFile
  /-- The tape can be positioned. -/
  tapeSeek : Nat → Bool
  dsk : DskHost
  dskWeb : DskWebHost
  romSwap : List Byte → Word → Bool
  resume : Bool
  ulaSnoop : Byte → Byte

/-- `map_errno`. -/
def mapErrno : HostErrno → Word
  | .enoent => lociEfatfs lociFrNoFile
  | .enotdir => lociEfatfs lociFrNoPath
  | .eacces => lociEfatfs lociFrDenied
  | .eperm => lociEfatfs lociFrDenied
  | .eexist => lociEfatfs lociFrExist
  | .erofs => lociEfatfs lociFrWriteProtected
  | .enomem => lociEfatfs lociFrNotEnoughCore
  | .ebadf => lociEbadf
  | .einval => lociEfatfs lociFrInvalidName
  | .enospc => lociEfatfs lociFrDenied
  | .ebusy => lociEfatfs lociFrLocked
  | .eio => lociEfatfs lociFrDiskErr
  | .enosys => lociEnosys
  | .emfile => lociEfatfs lociFrTooManyOpenFiles
  | .enotempty => lociEfatfs lociFrDenied
  | .eisdir => lociEunknown
  | .other => lociEunknown

/-- `sdimg_errno_to_loci`. -/
def sdimgErrnoToLoci : HostErrno → Word
  | .enoent => lociEfatfs lociFrNoFile
  | .eacces => lociEfatfs lociFrDenied
  | .eisdir => lociEfatfs lociFrDenied
  | .enotdir => lociEfatfs lociFrNoPath
  | .ebadf => lociEbadf
  | .einval => lociEfatfs lociFrInvalidName
  | .emfile => lociEfatfs lociFrTooManyOpenFiles
  | .eio => lociEfatfs lociFrDiskErr
  | _ => lociEunknown

/-! ## The xstack -/

def Loci.setReg (loci : Loci) (r : Nat) (value : Byte) : Loci :=
  { loci with regs := update loci.regs r value }

/-- `n` bytes of the xstack are accessed from `off` on. -/
def Loci.checked (loci : Loci) (off n : Nat) : Loci :=
  if off + n ≤ lociXstackSize then loci else { loci with xstackFault := true }

/-- The bytes of the xstack from `off` on. -/
def Loci.stackBytes (loci : Loci) (off n : Nat) : List Byte :=
  (List.range n).map fun i => loci.xstack (off + i)

/-- `memcpy` to the xstack. -/
def Loci.storeStack (loci : Loci) (off : Nat) (data : List Byte) : Loci :=
  let loci := loci.checked off data.length
  { loci with
    xstack := fun i =>
      if off ≤ i ∧ i < off + data.length then data.getD (i - off) 0#8 else loci.xstack i }

def setErrno (loci : Loci) (e : Word) : Loci :=
  (loci.setReg lociRegApiErrnoLo (Word.lo e)).setReg lociRegApiErrnoHi (Word.hi e)

def xstackSync (loci : Loci) : Loci :=
  if loci.xstackPtr ≥ lociXstackSize then loci.setReg lociRegApiStack 0#8
  else (loci.checked loci.xstackPtr 1).setReg lociRegApiStack (loci.xstack loci.xstackPtr)

def xstackZero (loci : Loci) : Loci := xstackSync { loci with xstackPtr := lociXstackSize }

def xstackPushN (loci : Loci) (data : List Byte) : Bool × Loci :=
  if data.length > loci.xstackPtr then (false, loci)
  else
    let loci := { loci with xstackPtr := loci.xstackPtr - data.length }
    (true, xstackSync (loci.storeStack loci.xstackPtr data))

def le16 (w : Word) : List Byte := [Word.lo w, Word.hi w]

def le32 (v : BitVec 32) : List Byte := Binary.bytesLe 4 v

def xstackPushU32 (loci : Loci) (v : BitVec 32) : Bool × Loci := xstackPushN loci (le32 v)

/-- The pointer is set, the bytes are copied there and the register is synchronized. -/
def xstackPut (loci : Loci) (data : List Byte) : Loci :=
  let loci := { loci with xstackPtr := lociXstackSize - data.length }
  xstackSync (loci.storeStack loci.xstackPtr data)

/-- Bytes popped without a sync. -/
def Loci.popBytes (loci : Loci) (n : Nat) : List Byte × Loci :=
  let data := loci.stackBytes loci.xstackPtr n
  let loci := loci.checked loci.xstackPtr n
  (data, { loci with xstackPtr := loci.xstackPtr + n })

/-- A little-endian word of the bytes. -/
def wordAt (data : List Byte) (i : Nat) : Word := Word.mk (data.getD (i + 1) 0#8) (data.getD i 0#8)

/-! ## Returns -/

def apiInstallBlockedStub (loci : Loci) : Loci :=
  (((loci.setReg lociRegInject0 0xB8#8).setReg (lociRegInject0 + 1) 0x50#8).setReg
    (lociRegInject0 + 2) 0xFE#8).setReg (lociRegInject0 + 3) 0xA9#8

def apiInstallReleasedStub (loci : Loci) : Loci :=
  (((loci.setReg lociRegInject0 0xB8#8).setReg (lociRegInject0 + 1) 0x50#8).setReg
    (lociRegInject0 + 2) 0x00#8).setReg (lociRegInject0 + 3) 0xA9#8

def apiSetAx (loci : Loci) (val : Word) : Loci :=
  (((loci.setReg lociRegApiA (Word.lo val)).setReg (lociRegInject0 + 5) 0xA2#8).setReg
    lociRegApiX (Word.hi val)).setReg (lociRegInject0 + 7) 0x60#8

def apiSetAxsreg (loci : Loci) (val : BitVec 32) : Loci :=
  ((apiSetAx loci (val.setWidth 16)).setReg lociRegApiSreg ((val >>> 16).setWidth 8)).setReg
    lociRegApiSregHi ((val >>> 24).setWidth 8)

def setBusy (loci : Loci) (busy : Bool) : Loci :=
  loci.setReg lociRegBusy
    (if busy then loci.regs lociRegBusy ||| 0x80#8 else loci.regs lociRegBusy &&& ~~~0x80#8)

def apiReturnAx (loci : Loci) (val : Word) : Loci :=
  setBusy (apiInstallReleasedStub (apiSetAx loci val)) false

def apiReturnAxsreg (loci : Loci) (val : BitVec 32) : Loci :=
  setBusy (apiInstallReleasedStub (apiSetAxsreg loci val)) false

def apiReturnErrno (loci : Loci) (e : Word) : Loci :=
  apiReturnAxsreg (setErrno (xstackZero loci) e) 0xFFFFFFFF#32

/-- Success, or the error of the only call that can fail. -/
def apiReturnOr (loci : Loci) (err : Option Word) : Loci :=
  match err with
  | some e => apiReturnErrno loci e
  | none => apiReturnAx loci 0

/-! ## The windows -/

/-- A window on the xram: its data, step and address registers. -/
structure LociWindow where
  rw : Nat
  step : Nat
  addrLo : Nat
  addrHi : Nat
  deriving DecidableEq, Repr

def lociWindow0 : LociWindow := ⟨lociRegRw0, lociRegStep0, lociRegAddr0Lo, lociRegAddr0Hi⟩
def lociWindow1 : LociWindow := ⟨lociRegRw1, lociRegStep1, lociRegAddr1Lo, lociRegAddr1Hi⟩

/-- `get_addr0` and `get_addr1`. -/
def getAddr (loci : Loci) (w : LociWindow) : Word :=
  Word.mk (loci.regs w.addrHi) (loci.regs w.addrLo)

/-- `set_addr0` and `set_addr1`. -/
def setAddr (loci : Loci) (w : LociWindow) (a : Word) : Loci :=
  (loci.setReg w.addrLo (Word.lo a)).setReg w.addrHi (Word.hi a)

/-- `refresh_rw0` and `refresh_rw1`. -/
def refreshRw (loci : Loci) (w : LociWindow) : Loci :=
  loci.setReg w.rw (loci.xram (getAddr loci w).toNat)

/-- The window moves on by its step, which is signed. -/
def windowAdvance (loci : Loci) (w : LociWindow) : Loci :=
  refreshRw (setAddr loci w (getAddr loci w + (loci.regs w.step).signExtend 16)) w

/-- Bytes stored in the xram. -/
def storeXram (xram : Nat → Byte) (off : Nat) (data : List Byte) : Nat → Byte := fun i =>
  if off ≤ i ∧ i < off + data.length then data.getD (i - off) 0#8 else xram i

end Phosphoric
