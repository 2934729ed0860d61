import Phosphoric.Loci.Mia

/-!
# The LOCI's API operations

The operations of `src/io/loci_core.c`, `src/io/loci_fs.c`, `src/io/loci_bus.c` and
`src/io/loci_boot.c`: the clock, files and directories of the host or of the SD image, mounts, the
tape, the tuning of the bus and the boot of another ROM.

An operation takes its arguments from the registers and the xstack. Every one ends in a return,
which leaves the result in the spin stub, but a resume: that one waits for the 6502 to spin.
-/

open Function (update)

namespace Phosphoric

/-! ## Constants -/

abbrev lociORdwr : Byte := 0x03
abbrev lociOCreat : Byte := 0x10
abbrev lociOTrunc : Byte := 0x20
abbrev lociOAppend : Byte := 0x40
abbrev lociOExcl : Byte := 0x80

abbrev lociAmDir : Byte := 0x10
abbrev lociAmSys : Byte := 0x04

abbrev lociBootB11 : Byte := 0x04
abbrev lociBootResume : Byte := 0x40

/-- A flag of a byte is set. -/
def hasFlag (flags flag : Byte) : Bool := flags &&& flag != 0#8

/-! ## System -/

def opPixXreg (loci : Loci) : Loci :=
  if lociXstackSize - loci.xstackPtr < 5 then apiReturnErrno loci lociEinval
  else
    let device := loci.xstack (lociXstackSize - 1)
    let channel := loci.xstack (lociXstackSize - 2)
    let addr := loci.xstack (lociXstackSize - 3)
    if device ≠ 0#8 then apiReturnErrno (xstackZero loci) lociEinval
    else
      let word := Word.mk (loci.xstack (lociXstackSize - 4)) (loci.xstack (lociXstackSize - 5))
      let route := channel.toNat * 256 + addr.toNat
      let loci :=
        if route = 0 then { loci with kbdXram := word }
        else if route = 1 then { loci with mouXram := word }
        else if route = 2 then { loci with padXram := word }
        else loci
      apiReturnAx (xstackZero loci) 0

def opCpuPhi2 (loci : Loci) : Loci := apiReturnAx loci 1000

def opOemCodepage (loci : Loci) : Loci := apiReturnAx loci 0

def opStdinOpt (loci : Loci) : Loci := apiReturnAx loci 0

def opRngLrand (loci : Loci) (host : LociHost) : Loci :=
  apiReturnAxsreg loci ((host.rand.1 ^^^ (host.rand.2 <<< 16)) &&& 0x7FFFFFFF#32)

def opClock (loci : Loci) (host : LociHost) : Loci :=
  apiReturnAxsreg loci (BitVec.ofNat 32 ((host.nowUs - loci.clockStartUs) / 10000))

/-- A time of `sec` seconds is returned on the xstack. -/
def clkReturn (loci : Loci) (sec : BitVec 32) : Loci :=
  if loci.regs lociRegApiA ≠ 0#8 then apiReturnErrno loci lociEinval
  else
    let nsec := xstackPushU32 loci 0
    if !nsec.1 then apiReturnErrno nsec.2 lociEinval
    else
      let pushed := xstackPushU32 nsec.2 sec
      if !pushed.1 then apiReturnErrno pushed.2 lociEinval else apiReturnAx pushed.2 0

def opClkGetres (loci : Loci) : Loci := clkReturn loci 1

def opClkGettime (loci : Loci) (host : LociHost) : Loci := clkReturn loci host.time

def opClkSettime (loci : Loci) : Loci :=
  if loci.regs lociRegApiA ≠ 0#8 then apiReturnErrno loci lociEinval
  else if loci.xstackPtr + 8 > lociXstackSize then apiReturnErrno loci lociEinval
  else apiReturnAx (xstackSync { loci with xstackPtr := loci.xstackPtr + 8 }) 0

/-- `op_map_tune_store`: values over 31 only query. -/
def opMapTuneStore (loci : Loci) (field : Loci → Byte) (store : Loci → Byte → Loci) : Loci :=
  let a := loci.regs lociRegApiA
  let loci := xstackZero (if a ≤ 31#8 then store loci a else loci)
  apiReturnAx loci ((field loci).setWidth 16)

def opMapTuneTmap (loci : Loci) : Loci :=
  opMapTuneStore loci Loci.miaTmap fun loci a => { loci with miaTmap := a }

def opMapTuneTior (loci : Loci) : Loci :=
  opMapTuneStore loci Loci.miaTior fun loci a => { loci with miaTior := a }

def opMapTuneTiow (loci : Loci) : Loci :=
  opMapTuneStore loci Loci.miaTiow fun loci a => { loci with miaTiow := a }

def opMapTuneTiod (loci : Loci) : Loci :=
  opMapTuneStore loci Loci.miaTiod fun loci a => { loci with miaTiod := a }

def opMapTuneTadr (loci : Loci) : Loci :=
  opMapTuneStore loci Loci.miaTadr fun loci a => { loci with miaTadr := a }

/-- The TIMINGS byte of the menu ROM. -/
abbrev adjAddress : Nat := 0xFFF0

def Loci.storeAdj (loci : Loci) (value : Byte) : Loci :=
  { loci with xram := update loci.xram adjAddress value }

/-- The byte `op_adj_scan` stores. -/
def adjScanByte (loci : Loci) : Byte := if loci.romPokeSet then 0x80#8 else loci.miaTior &&& 0x1F#8

def opAdjScan (loci : Loci) : Loci :=
  let value := adjScanByte loci
  let loci :=
    if loci.romPokeSet then { loci with adjState := 1, adjTior := 0, adjAcc := 0 } else loci
  apiReturnAx (xstackZero (loci.storeAdj value)) 0

/-! ## Paths -/

/-- The characters of the zero-terminated string on the xstack, at most `outsize - 1`. The
terminator goes too, when it is there. -/
def popZstringKeep (loci : Loci) (outsize : Nat) : Option (List Byte) × Loci :=
  if loci.xstackPtr ≥ lociXstackSize then (none, loci)
  else
    let scanned := loci.stackBytes loci.xstackPtr
      (min (lociXstackSize - loci.xstackPtr) (outsize - 1))
    let text := scanned.takeWhile (· != 0#8)
    (if scanned ≠ [] then some text else none,
      (loci.popBytes (min (text.length + 1) scanned.length)).2)

def popZstring (loci : Loci) (outsize : Nat) : Option (List Byte) × Loci :=
  let popped := popZstringKeep loci outsize
  (popped.1.filter (· ≠ []), xstackZero popped.2)

def isSlash (c : Byte) : Bool := c == 0x2F#8 || c == 0x5C#8

/-- The path without its volume and its leading slashes. -/
def stripVolume (path : List Byte) : List Byte :=
  (if path.getD 1 0#8 = 0x3A#8 then path.drop 2 else path).dropWhile isSlash

/-- The host directory of the path's volume. -/
def volumeRoot (loci : Loci) (path : List Byte) : List Byte :=
  let flash := if loci.flashRoot ≠ [] then loci.flashRoot else ascii "."
  let device := (path.getD 0 0#8).toNat
  if path.getD 1 0#8 = 0x3A#8 ∧ 0x31 ≤ device ∧ device ≤ 0x30 + lociUsbDevMax then
    let usb := loci.usbRoot.getD (device - 0x31) []
    if usb ≠ [] then usb else flash
  else flash

/-- `none` leaves the volume or is too long. -/
def resolvePath (loci : Loci) (path : List Byte) : Option (List Byte) :=
  let p := stripVolume path
  if (p.splitOnP isSlash).any (· == ascii "..") then none
  else
    let out := volumeRoot loci path ++ ascii "/" ++ p
    if out.length < 512 then some out else none

/-- `sdimg_extract_to_temp`. -/
def sdimgExtractToTemp (host : LociHost) (path : List Byte) : Option (List Byte) :=
  host.sdExtract (stripVolume path)

/-! ## Files -/

def fopenModeFor (flags : Byte) : FopenMode :=
  let rw := flags &&& lociORdwr
  if rw = 0#8 then .rb
  else if hasFlag flags lociOAppend then if rw = 1#8 then .ab else .aPlusB
  else if hasFlag flags lociOTrunc then if rw = 1#8 then .wb else .wPlusB
  else if hasFlag flags lociOCreat then if rw = 1#8 then .wb else .wPlusB
  else .rPlusB

/-- The mode `op_open_sdimg` gives: 0 opens a file that exists, 1 and 2 create it. -/
def sdimgModeFor (flags : Byte) : Nat :=
  let rw := flags &&& lociORdwr
  if hasFlag flags (lociOCreat ||| lociOTrunc ||| lociOAppend) ∨ rw = 1#8 ∨ rw = 3#8 then
    if rw = 3#8 then 2 else 1
  else 0

def allocFd (loci : Loci) : Option Nat :=
  (List.range lociFdMax).find? fun i => !loci.fds i

/-- The slot of a descriptor in use. -/
def fdSlot (loci : Loci) (fd : Byte) : Option Nat :=
  if lociFdOffset ≤ fd.toNat ∧ fd.toNat < lociFdOffset + lociFdMax ∧
    loci.fds (fd.toNat - lociFdOffset) then some (fd.toNat - lociFdOffset) else none

/-- The descriptor of a slot is returned. -/
def fdReturn (loci : Loci) (slot : Nat) : Loci :=
  apiReturnAx { loci with fds := update loci.fds slot true } (BitVec.ofNat 16 (slot + lociFdOffset))

def opOpenSdimg (loci : Loci) (host : LociHost) : Loci :=
  let flags := loci.regs lociRegApiA
  let popped := popZstring loci 260
  match popped.1 with
  | none => apiReturnErrno popped.2 lociEnoent
  | some path =>
    match host.sdFopen (stripVolume path) (sdimgModeFor flags) with
    | .error e => apiReturnErrno popped.2 (sdimgErrnoToLoci e)
    | .ok slot => fdReturn popped.2 slot

def opOpen (loci : Loci) (host : LociHost) : Loci :=
  if loci.sdimg then opOpenSdimg loci host
  else
    let flags := loci.regs lociRegApiA
    let popped := popZstring loci 260
    match popped.1 with
    | none => apiReturnErrno popped.2 lociEinval
    | some path =>
      match resolvePath popped.2 path with
      | none => apiReturnErrno popped.2 lociEacces
      | some hostPath =>
        if hasFlag flags lociOCreat ∧ hasFlag flags lociOExcl ∧ host.access hostPath then
          apiReturnErrno popped.2 lociEexist
        else
          match host.fopen hostPath (fopenModeFor flags) with
          | some e => apiReturnErrno popped.2 (mapErrno e)
          | none =>
            match allocFd popped.2 with
            | none => apiReturnErrno popped.2 lociEmfile
            | some slot => fdReturn popped.2 slot

def opClose (loci : Loci) (host : LociHost) : Loci :=
  match fdSlot loci (loci.regs lociRegApiA) with
  | none => apiReturnErrno loci lociEbadf
  | some slot =>
    let closed := { loci with fds := update loci.fds slot false }
    apiReturnOr closed (if loci.sdimg then (host.sdFclose slot).map sdimgErrnoToLoci else none)

/-- What `fread` gives of `count` bytes, or the error of the SD image after what it stored. -/
def fileRead (loci : Loci) (host : LociHost) (slot count : Nat) : List Byte × Option HostErrno :=
  if loci.sdimg then ((host.sdFread slot count).1.take count, (host.sdFread slot count).2)
  else ((host.fread slot count).take count, none)

/-- The number of bytes written, or the error of the SD image. -/
def fileWrite (loci : Loci) (host : LociHost) (slot : Nat) (data : List Byte) :
    Except HostErrno Nat :=
  if loci.sdimg then host.sdFwrite slot data else .ok (host.fwrite slot data)

def opReadXstack (loci : Loci) (host : LociHost) : Loci :=
  if loci.xstackPtr + 2 > lociXstackSize then apiReturnErrno loci lociEinval
  else
    let popped := loci.popBytes 2
    let count := (wordAt popped.1 0).toNat
    if count = 0 ∨ count > lociXstackSize then apiReturnErrno popped.2 lociEinval
    else
      match fdSlot popped.2 (loci.regs lociRegApiA) with
      | none => apiReturnErrno popped.2 lociEbadf
      | some slot =>
        match fileRead popped.2 host slot count with
        | (_, some e) => apiReturnErrno popped.2 (sdimgErrnoToLoci e)
        | (data, none) =>
          let loci := xstackZero popped.2
          apiReturnAx (if data ≠ [] then xstackPut loci data else loci)
            (BitVec.ofNat 16 data.length)

/-- All that is on the xstack is written. -/
def opWriteXstack (loci : Loci) (host : LociHost) : Loci :=
  let count := lociXstackSize - loci.xstackPtr
  if count = 0 then apiReturnAx (xstackZero loci) 0
  else
    match fdSlot loci (loci.regs lociRegApiA) with
    | none => apiReturnErrno loci lociEbadf
    | some slot =>
      let written := fileWrite loci host slot (loci.stackBytes loci.xstackPtr count)
      let loci := xstackZero (loci.checked loci.xstackPtr count)
      match written with
      | .error e => apiReturnErrno loci (sdimgErrnoToLoci e)
      | .ok n => apiReturnAx loci (BitVec.ofNat 16 n)

/-- `pop_lseek_args`: the whence on top of up to four bytes of a signed offset. -/
def popLseekArgs (loci : Loci) : Option (BitVec 32 × Byte) × Loci :=
  if loci.xstackPtr ≥ lociXstackSize then (none, loci)
  else
    let whence := loci.popBytes 1
    let avail := lociXstackSize - whence.2.xstackPtr
    if avail > 4 then (none, whence.2)
    else
      let offset := whence.2.popBytes avail
      let v := BitVec.ofNat 32 (Binary.natLe (List.replicate (4 - avail) 0#8 ++ offset.1))
      (some (v.sshiftRight (8 * (4 - avail)), whence.1.getD 0 0#8), xstackZero offset.2)

/-- A whence of the API as one of `fseek` and of the SD image: 0 is the start. -/
def lseekWhence (whence : Byte) : Option Nat :=
  if whence = 0#8 then some 1
  else if whence = 1#8 then some 2
  else if whence = 2#8 then some 0
  else none

def fileSeek (loci : Loci) (host : LociHost) (slot : Nat) (offset : BitVec 32) (whence : Nat) :
    Except Word (BitVec 32) :=
  if loci.sdimg then (host.sdLseek slot offset whence).mapError sdimgErrnoToLoci
  else (host.fseek slot offset whence).mapError mapErrno

def opLseek (loci : Loci) (host : LociHost) : Loci :=
  let popped := popLseekArgs loci
  match popped.1 with
  | none => apiReturnErrno popped.2 lociEinval
  | some (offset, whence) =>
    match fdSlot popped.2 (loci.regs lociRegApiA) with
    | none => apiReturnErrno popped.2 lociEbadf
    | some slot =>
      match lseekWhence whence with
      | none => apiReturnErrno popped.2 lociEinval
      | some w =>
        match fileSeek popped.2 host slot offset w with
        | .error e => apiReturnErrno popped.2 e
        | .ok pos => apiReturnAxsreg popped.2 pos

/-- Both windows see what was stored. -/
def refreshBoth (loci : Loci) : Loci := refreshRw (refreshRw loci lociWindow0) lociWindow1

/-- The count and the xram address are popped and checked, and the descriptor looked up. -/
def withXramArgs (loci : Loci) (k : Loci → Nat → Nat → Nat → Loci) : Loci :=
  if loci.xstackPtr + 4 > lociXstackSize then apiReturnErrno loci lociEinval
  else
    let args := loci.stackBytes loci.xstackPtr 4
    let count := (wordAt args 0).toNat
    let addr := (wordAt args 2).toNat
    let loci := xstackZero (loci.popBytes 4).2
    if addr + count > lociXramSize then apiReturnErrno loci lociEinval
    else
      match fdSlot loci (loci.regs lociRegApiA) with
      | none => apiReturnErrno loci lociEbadf
      | some slot => k loci slot addr count

/-- The file's bytes go to the xram, those before an error too. -/
def opReadXram (loci : Loci) (host : LociHost) : Loci :=
  withXramArgs loci fun loci slot addr count =>
    match fileRead loci host slot count with
    | (data, some e) =>
      apiReturnErrno { loci with xram := storeXram loci.xram addr data } (sdimgErrnoToLoci e)
    | (data, none) =>
      apiReturnAxsreg (refreshBoth { loci with xram := storeXram loci.xram addr data })
        (BitVec.ofNat 32 data.length)

def opWriteXram (loci : Loci) (host : LociHost) : Loci :=
  withXramArgs loci fun loci slot addr count =>
    match fileWrite loci host slot ((List.range count).map fun i => loci.xram (addr + i)) with
    | .error e => apiReturnErrno loci (sdimgErrnoToLoci e)
    | .ok n => apiReturnAxsreg loci (BitVec.ofNat 32 n)

/-- An operation on one path, of the SD image or of the host. -/
def pathOp (loci : Loci) (sd hostOp : List Byte → Option HostErrno) : Loci :=
  let popped := popZstring loci 260
  match popped.1 with
  | none => apiReturnErrno popped.2 lociEinval
  | some path =>
    if loci.sdimg then apiReturnOr popped.2 ((sd (stripVolume path)).map sdimgErrnoToLoci)
    else
      match resolvePath popped.2 path with
      | none => apiReturnErrno popped.2 lociEacces
      | some hostPath => apiReturnOr popped.2 ((hostOp hostPath).map mapErrno)

/-- Directories go too. -/
def opUnlink (loci : Loci) (host : LociHost) : Loci :=
  pathOp loci host.sdUnlink fun hostPath =>
    if host.statIsDir hostPath then host.rmdir hostPath else host.unlink hostPath

def opMkdir (loci : Loci) (host : LociHost) : Loci := pathOp loci host.sdMkdir host.mkdir

/-- The new path is on top of the old one. -/
def opRename (loci : Loci) (host : LociHost) : Loci :=
  let poppedNew := popZstringKeep loci 260
  let poppedOld := popZstringKeep poppedNew.2 260
  let loci := xstackZero poppedOld.2
  match poppedNew.1.filter (· ≠ []), poppedOld.1.filter (· ≠ []) with
  | some newPath, some oldPath =>
    if loci.sdimg then
      apiReturnOr loci
        ((host.sdRename (stripVolume oldPath) (stripVolume newPath)).map sdimgErrnoToLoci)
    else
      match resolvePath loci newPath, resolvePath loci oldPath with
      | some hostNew, some hostOld =>
        apiReturnOr loci ((host.rename hostOld hostNew).map mapErrno)
      | _, _ => apiReturnErrno loci lociEacces
  | _, _ => apiReturnErrno loci lociEinval

end Phosphoric
