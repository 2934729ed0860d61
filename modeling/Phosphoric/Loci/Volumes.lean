import Phosphoric.Loci.Api

/-!
# Directories, mounts, the tape and the boot

The operations of `src/io/loci_fs.c` on directories and mounts, those of `src/io/loci_bus.c` on the
tape, and `op_mia_boot` with the end of a resume (`src/io/loci_boot.c`).

An empty path lists the devices, and "W:" the disks of the web server.
-/

open Function (update)

namespace Phosphoric

/-! ## Directories -/

/-- A `dirent` of 72 bytes. -/
def dirent (fd : Byte) (name : List Byte) (attrib : Byte) (size : BitVec 32) : List Byte :=
  let name := name.take (lociDirNameLen - 1)
  [fd, 0#8] ++ name ++ List.replicate (lociDirNameLen - name.length) 0#8 ++ [attrib, 0#8] ++ le32 size

def direntReturn (loci : Loci) (entry : List Byte) : Loci :=
  apiReturnAx (xstackPut (xstackZero loci) entry) 0

def allocDir (loci : Loci) : Option Nat :=
  (List.range lociDirMax).find? fun i => !loci.dirs i

/-- The slot of a directory in use. -/
def dirSlot (loci : Loci) (fd : Byte) : Option Nat :=
  if lociDirOffset ≤ fd.toNat ∧ fd.toNat < lociDirOffset + lociDirMax ∧
    loci.dirs (fd.toNat - lociDirOffset) then some (fd.toNat - lociDirOffset) else none

def dirReturn (loci : Loci) (slot : Nat) : Loci :=
  apiReturnAx { loci with dirs := update loci.dirs slot true } (BitVec.ofNat 16 (slot + lociDirOffset))

/-- The path is on the web device. -/
def isWebPath (loci : Loci) (path : List Byte) : Bool :=
  loci.webBase != [] && (path.getD 0 0#8 == 0x57#8 || path.getD 0 0#8 == 0x77#8) &&
    path.getD 1 0#8 == 0x3A#8

/-- `web_fetch_disklist` and an iterator at its start. -/
def openWebDir (loci : Loci) (host : LociHost) : Loci :=
  { loci with
    webDisks := (host.webDisks.take 32).map (List.take 39), webDirPos := 0, webDirOpen := true }

def opOpendirSdimg (loci : Loci) (host : LociHost) (path : List Byte) : Loci :=
  match host.sdOpendir (stripVolume path) with
  | .error e => apiReturnErrno loci (sdimgErrnoToLoci e)
  | .ok slot => dirReturn loci slot

/-- A missing directory is a missing path. -/
def opendirErrno (e : HostErrno) : Word :=
  if e = .enoent then lociEfatfs lociFrNoPath else mapErrno e

def opOpendir (loci : Loci) (host : LociHost) : Loci :=
  let popped := popZstring loci 260
  match popped.1 with
  | none =>
    if popped.2.dirDev.isSome then apiReturnErrno popped.2 lociEmfile
    else apiReturnAx { popped.2 with dirDev := some 0 } 0
  | some path =>
    if isWebPath popped.2 path then
      apiReturnAx (openWebDir popped.2 host) (BitVec.ofNat 16 lociWebDirFd)
    else if loci.sdimg then opOpendirSdimg popped.2 host path
    else
      match resolvePath popped.2 path with
      | none => apiReturnErrno popped.2 lociEacces
      | some hostPath =>
        match host.opendir hostPath with
        | some e => apiReturnErrno popped.2 (opendirErrno e)
        | none =>
          match allocDir popped.2 with
          | none => apiReturnErrno popped.2 lociEmfile
          | some slot => dirReturn popped.2 slot

def opClosedir (loci : Loci) (host : LociHost) : Loci :=
  let fd := loci.regs lociRegApiA
  if fd.toNat = lociWebDirFd then apiReturnAx { loci with webDirOpen := false } 0
  else if fd = 0#8 ∧ loci.dirDev.isSome then apiReturnAx { loci with dirDev := none } 0
  else
    match dirSlot loci fd with
    | none => apiReturnErrno loci lociEbadf
    | some slot =>
      let closed := { loci with dirs := update loci.dirs slot false }
      apiReturnOr closed
        (if loci.sdimg then (host.sdClosedir slot).map sdimgErrnoToLoci else none)

def opReaddirWeb (loci : Loci) : Loci :=
  let fd := BitVec.ofNat 8 lociWebDirFd
  match loci.webDisks[loci.webDirPos]? with
  | some name =>
    direntReturn { loci with webDirPos := loci.webDirPos + 1 } (dirent fd name 0 0)
  | none => direntReturn loci (dirent fd [] 0 0)

/-- The devices' names: the internal storage, the USB devices and the web. -/
def deviceName (loci : Loci) (n : Nat) : List Byte :=
  if n = 0 then ascii "0: Internal storage [15MB]"
  else
    match loci.usbDev[n - 1]? with
    | some name => name
    | none => if loci.webBase ≠ [] ∧ n - 1 = loci.usbDev.length then ascii "W: Web disks" else []

def opReaddirDev (loci : Loci) (n : Nat) : Loci :=
  direntReturn { loci with dirDev := some (n + 1) } (dirent 0 (deviceName loci n) lociAmSys 0)

/-- The next entry of a directory, or the error of the SD image. -/
def nextEntry (loci : Loci) (host : LociHost) (slot : Nat) : Except Word (Option HostEntry) :=
  if loci.sdimg then (host.sdReaddir slot).mapError sdimgErrnoToLoci
  else .ok (host.readdir slot)

/-- The end of a directory is an empty name. -/
def entryDirent (fd : Byte) : Option HostEntry → List Byte
  | some entry => dirent fd entry.name (if entry.isDir then lociAmDir else 0) entry.size
  | none => dirent fd [] 0 0

def opReaddirSlot (loci : Loci) (host : LociHost) (fd : Byte) : Loci :=
  match dirSlot loci fd with
  | none => apiReturnErrno loci lociEbadf
  | some slot =>
    match nextEntry loci host slot with
    | .error e => apiReturnErrno loci e
    | .ok entry => direntReturn loci (entryDirent fd entry)

def opReaddir (loci : Loci) (host : LociHost) : Loci :=
  let fd := loci.regs lociRegApiA
  if fd.toNat = lociWebDirFd ∧ loci.webDirOpen then opReaddirWeb loci
  else if fd ≠ 0#8 then opReaddirSlot loci host fd
  else
    match loci.dirDev with
    | some n => opReaddirDev loci n
    | none => opReaddirSlot loci host fd

/-! ## Mounts -/

/-- The drive `op_getcwd` is asked for; 255 asks for the ROM, the first disk or the tape. -/
def getcwdDrive (loci : Loci) : Option Nat :=
  let drive := (loci.regs lociRegApiA).toNat
  if drive ≠ 255 then some drive
  else if loci.mntMounted lociMntRom then some lociMntRom
  else if loci.mntMounted 0 then some 0
  else if loci.mntMounted lociMntTap then some lociMntTap
  else none

/-- The path up to its last slash. -/
def directoryOf (path : List Byte) : List Byte :=
  let front := (path.reverse.dropWhile (· != 0x2F#8)).reverse
  if front ≠ [] then front else path

/-- Bytes pushed one by one, until one does not fit. -/
def xstackPushEach (loci : Loci) : List Byte → Bool × Loci
  | [] => (true, loci)
  | c :: rest =>
    let pushed := xstackPushN loci [c]
    if pushed.1 then xstackPushEach pushed.2 rest else (false, pushed.2)

def opGetcwd (loci : Loci) : Loci :=
  match getcwdDrive loci with
  | none => apiReturnErrno loci lociEnoent
  | some drive =>
    if drive ≥ lociMntMax ∨ !loci.mntMounted drive then apiReturnErrno loci lociEnoent
    else
      let path := (directoryOf (loci.mntPaths drive)).take 255
      let pushed := xstackPushEach (xstackZero loci) (0#8 :: path.reverse)
      if !pushed.1 then apiReturnErrno pushed.2 lociEinval
      else apiReturnAx pushed.2 (BitVec.ofNat 16 path.length)

/-- The drive is mounted from the path. -/
def mountReturn (loci : Loci) (drive : Nat) (path : List Byte) : Loci :=
  apiReturnAx
    { loci with
      mntMounted := update loci.mntMounted drive true
      mntPaths := update loci.mntPaths drive (path.take 255) } 0

def mountWeb (loci : Loci) (host : LociHost) (drive : Byte) (url : List Byte) : Loci :=
  let opened := lociDskOpenWeb loci.dsk drive host.dskWeb
  let loci := { loci with dsk := opened.2 }
  if opened.1 then mountReturn loci drive.toNat url else apiReturnErrno loci lociEio

/-- The address of a disk of the web device. -/
def webDiskUrl (loci : Loci) (path : List Byte) : List Byte :=
  (loci.webBase ++ ascii "/disk/" ++ (path.drop 2).dropWhile (· == 0x2F#8)).take 511

def isUrl (path : List Byte) : Bool :=
  (ascii "http://").isPrefixOf path || (ascii "https://").isPrefixOf path

/-- The file a mount uses: the copy of one in the SD image, or one of the host. -/
def mountFile (loci : Loci) (host : LociHost) (path : List Byte) : Except Word (List Byte) :=
  if loci.sdimg then
    match sdimgExtractToTemp host path with
    | none => .error (lociEfatfs lociFrNoFile)
    | some hostPath => .ok hostPath
  else
    match resolvePath loci path with
    | none => .error lociEacces
    | some hostPath =>
      if host.access hostPath then .ok hostPath else .error (lociEfatfs lociFrNoFile)

def mountHost (loci : Loci) (host : LociHost) (drive : Byte) (path : List Byte) : Loci :=
  match mountFile loci host path with
  | .error e => apiReturnErrno loci e
  | .ok hostPath =>
    if drive.toNat = lociMntTap then
      let opened := lociTapOpen loci.tap (host.tape hostPath)
      let loci := { loci with tap := opened.2 }
      if opened.1 then mountReturn loci drive.toNat path else apiReturnErrno loci lociEio
    else if drive.toNat < 4 then
      let opened := lociDskOpen loci.dsk drive host.dsk
      let loci := { loci with dsk := opened.2 }
      if opened.1 then mountReturn loci drive.toNat path else apiReturnErrno loci lociEio
    else mountReturn loci drive.toNat path

def opMount (loci : Loci) (host : LociHost) : Loci :=
  let drive := loci.regs lociRegApiA
  let popped := popZstring loci 256
  match popped.1 with
  | none => apiReturnErrno popped.2 lociEinval
  | some path =>
    if drive.toNat ≥ lociMntMax then apiReturnErrno popped.2 lociEinval
    else if isWebPath popped.2 path then
      if drive.toNat ≥ 4 then apiReturnErrno popped.2 lociEio
      else mountWeb popped.2 host drive (webDiskUrl popped.2 path)
    else if isUrl path then
      if drive.toNat ≥ 4 then apiReturnErrno popped.2 lociEinval
      else mountWeb popped.2 host drive path
    else mountHost popped.2 host drive path

def opUmount (loci : Loci) : Loci :=
  let drive := loci.regs lociRegApiA
  if drive.toNat < lociMntMax then
    let loci :=
      if drive.toNat = lociMntTap then { loci with tap := lociTapClose loci.tap } else loci
    let loci := if drive.toNat < 4 then { loci with dsk := lociDskClose loci.dsk drive } else loci
    apiReturnAx
      { loci with
        mntMounted := update loci.mntMounted drive.toNat false
        mntPaths := update loci.mntPaths drive.toNat [] } 0
  else apiReturnAx loci 0

/-- The strings with their final zeros, each pushed whole. -/
def unameFields : List (List Byte) :=
  ["Phosphoric Emulator     ", "0.1     ", "2.31.15 ", "oric    ", "Phosphoric LOCI "].map
    fun field => ascii field ++ [0#8]

def xstackPushFields (loci : Loci) : List (List Byte) → Bool × Loci
  | [] => (true, loci)
  | field :: rest =>
    let pushed := xstackPushN loci field
    if pushed.1 then xstackPushFields pushed.2 rest else (false, pushed.2)

def opUname (loci : Loci) : Loci :=
  let pushed := xstackPushFields (xstackZero loci) unameFields
  if !pushed.1 then apiReturnErrno pushed.2 lociEinval
  else apiReturnAx pushed.2 (BitVec.ofNat 16 pushed.2.xstackPtr)

/-! ## The tape -/

/-- The position asked for, in four registers. -/
def tapSeekArg (loci : Loci) : Nat :=
  Binary.natLe [loci.regs lociRegApiA, loci.regs lociRegApiX, loci.regs lociRegApiSreg,
    loci.regs lociRegApiSregHi]

/-- The position, on the tape. -/
def tapSeekPos (loci : Loci) : Nat :=
  if 0 < loci.tap.size ∧ tapSeekArg loci ≥ loci.tap.size then loci.tap.size - 1
  else tapSeekArg loci

def opTapSeek (loci : Loci) (host : LociHost) : Loci :=
  if loci.tap.file.isNone then apiReturnErrno loci lociEnodev
  else
    let pos := tapSeekPos loci
    if !host.tapeSeek pos then apiReturnErrno loci lociEio
    else
      let tap := { loci.tap with
        counter := pos, leadIn := if pos = 0 then 0 else loci.tap.leadIn }
      apiReturnAxsreg { loci with tap := tap } (BitVec.ofNat 32 pos)

def opTapTell (loci : Loci) : Loci := apiReturnAxsreg loci (BitVec.ofNat 32 loci.tap.counter)

/-- The end of the next synchronization mark, and what follows. The last four bytes are looked at
once four were there before. -/
def tapFindSync (w : Byte × Byte × Byte × Byte) (filled pos : Nat) :
    List Byte → Option (Nat × List Byte)
  | [] => none
  | c :: rest =>
    let w := (w.2.1, w.2.2.1, w.2.2.2, c)
    if filled < 4 then tapFindSync w (filled + 1) (pos + 1) rest
    else if w = (0x16#8, 0x16#8, 0x16#8, 0x24#8) then some (pos + 1, rest)
    else tapFindSync w filled (pos + 1) rest

/-- The name's characters that do not print are question marks. -/
def tapPrintable (ch : Byte) : Byte :=
  if ch ≠ 0#8 ∧ (ch.toNat < 32 ∨ ch.toNat ≥ 128) then 0x3F#8 else ch

/-- The header that follows a synchronization mark, and the end of the mark. -/
def tapHeaderAt (tap : LociTape) (file : List Byte) : Option (Nat × List Byte) :=
  match tapFindSync (0, 0, 0, 0) 0 tap.counter (file.drop tap.counter) with
  | none => none
  | some (syncEnd, rest) =>
    let header := rest.take lociTapHeaderSize
    if header.length ≠ lociTapHeaderSize then none
    else some (syncEnd, header.take 9 ++ (header.drop 9).map tapPrintable)

def opTapReadHeader (loci : Loci) : Loci :=
  match loci.tap.file with
  | none => apiReturnErrno loci lociEnodev
  | some file =>
    if loci.tap.size < lociTapHeaderSize + 4 then apiReturnErrno loci lociEnoent
    else
      match tapHeaderAt loci.tap file with
      | none => apiReturnErrno loci lociEnoent
      | some (syncEnd, header) =>
        let tap := { loci.tap with counter := (syncEnd + lociTapHeaderSize) % 2 ^ 32 }
        apiReturnAxsreg (xstackPut (xstackZero { loci with tap := tap }) header)
          (BitVec.ofNat 32 (syncEnd - 4))

/-! ## The boot -/

def deriveBasicRomPath (loci : Loci) (settings : Byte) : List Byte :=
  if loci.mntMounted lociMntRom then loci.mntPaths lociMntRom
  else if hasFlag settings lociBootB11 then ascii "basic11b.rom"
  else ascii "basic10.rom"

/-- The host file of a ROM, or the error of `op_mia_boot`. -/
def romFile (loci : Loci) (host : LociHost) (path : List Byte) : Except Word (List Byte) :=
  if loci.sdimg then
    match sdimgExtractToTemp host path with
    | none => .error lociEnoent
    | some hostPath => .ok hostPath
  else
    match resolvePath loci path with
    | none => .error lociEacces
    | some hostPath => .ok hostPath

/-- The device ROM that `LOCI_BOOT_FDC` asks for as well is the host's. -/
def opMiaBoot (loci : Loci) (host : LociHost) : Loci :=
  let settings := loci.regs lociRegApiA
  let loci := { loci with bootSettings := settings }
  if hasFlag settings lociBootResume then
    setBusy (apiInstallBlockedStub { loci with resumePending := true }) true
  else if !loci.romSwapSet then apiReturnAx loci 0
  else
    match romFile loci host (deriveBasicRomPath loci settings) with
    | .error e => apiReturnErrno loci e
    | .ok hostRom =>
      if !host.romSwap hostRom 0xC000 then apiReturnErrno loci lociEio else apiReturnAx loci 0

/-- A released stub that jumps through $FFFE. -/
def resumeStub : List Byte := [0xB8#8, 0x50#8, 0x00#8, 0x6C#8, 0xFE#8, 0xFF#8, 0x00#8, 0x60#8]

def storeRegs (loci : Loci) (off : Nat) (data : List Byte) : Loci :=
  { loci with
    regs := fun i =>
      if off ≤ i ∧ i < off + data.length then data.getD (i - off) 0#8 else loci.regs i }

def lociResumeAtSpin (loci : Loci) (host : LociHost) : Loci :=
  let loci := { loci with resumePending := false }
  if loci.resumeSet ∧ !host.resume then apiReturnErrno loci lociEnoent
  else setBusy (storeRegs loci lociRegInject0 resumeStub) false

end Phosphoric
