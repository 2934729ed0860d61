import Phosphoric.Loci.Gfx
import Phosphoric.Loci.Volumes

/-!
# The LOCI on the bus

`loci_init`, `loci_read` and `loci_write` of `src/io/loci_core.c` with the dispatch of the API
operations, the console, the keyboard and mouse reports, and the sweep of `src/io/loci_boot.c`.

`LociInput` is all that reaches the state: the accesses of the 6502 at $03A0-$03BF and at the disk
and tape ports, the reports, the time that passes, and the settings the emulator makes. The
co-simulated firmware is off.
-/

open Function (update)

namespace Phosphoric

/-! ## Lifecycle -/

/-- `seed_initial_stub`. -/
def seedInitialStub (loci : Loci) : Loci :=
  storeRegs loci lociRegInject0
    [0xB8#8, 0x50#8, 0x00#8, 0xA9#8, 0x00#8, 0xA2#8, 0x00#8, 0x60#8, 0x00#8, 0x00#8]

def lociInit (heap : Heap Ptr Byte) (nowUs : Nat) : Loci :=
  seedInitialStub
    { enabled := false
      regs := fun _ => 0#8
      xstack := fun _ => 0#8
      xstackPtr := lociXstackSize
      xstackFault := false
      clockStartUs := nowUs
      fds := fun _ => false
      flashRoot := []
      xram := fun _ => 0#8
      mntMounted := fun _ => false
      mntPaths := fun _ => []
      dirs := fun _ => false
      kbdXram := 0xFFFF#16
      mouXram := 0xFFFF#16
      padXram := 0xFFFF#16
      bootSettings := 0#8
      tap := .initial
      consTxLine := []
      consRx := []
      dsk := lociDskInit heap false false
      webBase := []
      webDisks := []
      webDirPos := 0
      webDirOpen := false
      romSwapSet := false
      resumeSet := false
      ulaSnoopSet := false
      romPokeSet := false
      resumePending := false
      ulaPattern := 0x86#8
      adjState := 0
      adjTior := 0
      adjAcc := 0
      dirDev := none
      actionActive := false
      usbDev := []
      usbRoot := []
      sdimg := false
      miaTmap := 10#8
      miaTior := 0#8
      miaTiow := 0#8
      miaTiod := 0#8
      miaTadr := 0#8
      gfx := .initial }

/-- The xram and the mounts stay. -/
def lociReset (loci : Loci) (nowUs : Nat) : Loci :=
  if !loci.enabled then loci
  else
    seedInitialStub
      { loci with
        regs := fun _ => 0#8, xstack := fun _ => 0#8, xstackPtr := lociXstackSize
        resumePending := false, clockStartUs := nowUs, ulaPattern := 0x86#8 }

/-- What the emulator sets from its options and at an attach. -/
structure LociSettings where
  enabled : Bool
  wired : Bool
  sdimg : Bool
  flashRoot : List Byte
  webBase : List Byte
  usbDev : List (List Byte)
  usbRoot : List (List Byte)
  romSwapSet : Bool
  resumeSet : Bool
  ulaSnoopSet : Bool
  romPokeSet : Bool

def lociSettle (loci : Loci) (settings : LociSettings) : Loci :=
  { loci with
    enabled := settings.enabled
    dsk := { loci.dsk with enabled := settings.enabled, wired := settings.wired }
    sdimg := settings.sdimg
    flashRoot := settings.flashRoot
    webBase := settings.webBase
    usbDev := settings.usbDev
    usbRoot := settings.usbRoot
    romSwapSet := settings.romSwapSet
    resumeSet := settings.resumeSet
    ulaSnoopSet := settings.ulaSnoopSet
    romPokeSet := settings.romPokeSet }

/-! ## Dispatch -/

/-- `dispatch_op`. -/
def dispatchOp (loci : Loci) (op : Byte) (host : LociHost) : Loci :=
  match op.toNat with
  | 0x01 => opPixXreg loci
  | 0x02 => opCpuPhi2 loci
  | 0x03 => opOemCodepage loci
  | 0x05 => opStdinOpt loci
  | 0x04 => opRngLrand loci host
  | 0x0F => opClock loci host
  | 0x10 => opClkGetres loci
  | 0x11 => opClkGettime loci host
  | 0x12 => opClkSettime loci
  | 0x14 => opOpen loci host
  | 0x15 => opClose loci host
  | 0x16 => opReadXstack loci host
  | 0x18 => opWriteXstack loci host
  | 0x1A => opLseek loci host
  | 0x1B => opUnlink loci host
  | 0x1C => opRename loci host
  | 0x17 => opReadXram loci host
  | 0x19 => opWriteXram loci host
  | 0x90 => opMount loci host
  | 0x91 => opUmount loci
  | 0x88 => opGetcwd loci
  | 0x80 => opOpendir loci host
  | 0x81 => opClosedir loci host
  | 0x82 => opReaddir loci host
  | 0x83 => opMkdir loci host
  | 0x98 => opUname loci
  | 0xA0 => opMiaBoot loci host
  | 0x92 => opTapSeek loci host
  | 0x93 => opTapTell loci
  | 0x94 => opTapReadHeader loci
  | 0xA1 => opMapTuneTmap loci
  | 0xA2 => opMapTuneTior loci
  | 0xA3 => opMapTuneTiow loci
  | 0xA4 => opMapTuneTiod loci
  | 0xA5 => opMapTuneTadr loci
  | 0xA6 => opAdjScan loci
  | 0xAE => opGfx loci
  | _ => apiReturnErrno loci lociEnosys

/-- A write of the operation register. 0 clears the xstack and 0xFF exits. -/
def apiRequest (loci : Loci) (op : Byte) (host : LociHost) : Loci :=
  if op = 0x00#8 then apiReturnAx (xstackZero loci) 0
  else if op = 0xFF#8 then apiInstallBlockedStub loci
  else dispatchOp (apiInstallBlockedStub loci) op host

/-! ## Console -/

/-- The bytes on their way to the 6502; a full ring drops. -/
def lociConsInject (loci : Loci) (ch : Byte) : Loci :=
  if loci.consRx.length ≥ 63 then loci else { loci with consRx := loci.consRx ++ [ch] }

/-- The line so far. -/
def consTxByte (loci : Loci) (ch : Byte) : Loci :=
  let line := if ch = 0x0A#8 ∨ loci.consTxLine.length ≥ 127 then [] else loci.consTxLine
  { loci with consTxLine := if ch = 0x0A#8 ∨ ch = 0x0D#8 then line else line ++ [ch] }

/-- The next byte is loaded, or none is. -/
def consLoad (loci : Loci) (none' : Loci → Loci) : Loci :=
  match loci.consRx with
  | c :: rest =>
    let loci := { loci with consRx := rest }.setReg lociRegConsChar c
    loci.setReg lociRegConsFlags (loci.regs lociRegConsFlags ||| 0x40#8)
  | [] => none' loci

/-- The flags are served as they were, and updated. -/
def consReadFlags (loci : Loci) : Loci :=
  let loci := if !hasFlag (loci.regs lociRegConsFlags) 0x40#8 then consLoad loci id else loci
  loci.setReg lociRegConsFlags (loci.regs lociRegConsFlags ||| 0x80#8)

def consReadChar (loci : Loci) : Loci :=
  consLoad loci fun loci =>
    (loci.setReg lociRegConsFlags (loci.regs lociRegConsFlags &&& ~~~0x40#8)).setReg
      lociRegConsChar 0#8

/-! ## Register accesses -/

/-- The register of an address at $03A0-$03BF. -/
def miaReg (address : Word) : Option Nat :=
  if 0x03A0 ≤ address.toNat ∧ address.toNat ≤ 0x03BF then some (address.toNat - 0x03A0) else none

def readUlaSnoop (loci : Loci) (host : LociHost) : Loci :=
  let v := host.ulaSnoop loci.ulaPattern
  if v ≠ 0#8 then loci.setReg lociRegUlaSnoop v else loci

/-- A pop of the 6502. -/
def readXstack (loci : Loci) : Byte × Loci :=
  if loci.xstackPtr ≥ lociXstackSize then (0#8, xstackSync loci)
  else
    let popped := loci.popBytes 1
    (popped.1.getD 0 0#8, xstackSync popped.2)

def readRw (loci : Loci) (w : LociWindow) : Byte × Loci := (loci.regs w.rw, windowAdvance loci w)

def lociReadReg (loci : Loci) (off : Nat) (host : LociHost) : Byte × Loci :=
  if off = lociRegUlaSnoop ∧ loci.ulaSnoopSet then
    let loci := readUlaSnoop loci host
    (loci.regs lociRegUlaSnoop, loci)
  else
    let loci :=
      if off = lociRegInject0 ∧ loci.resumePending then lociResumeAtSpin loci host else loci
    if off = lociRegConsFlags then (loci.regs lociRegConsFlags, consReadFlags loci)
    else if off = lociRegConsChar then (loci.regs lociRegConsChar, consReadChar loci)
    else if off = lociRegRw0 then readRw loci lociWindow0
    else if off = lociRegRw1 then readRw loci lociWindow1
    else if off = lociRegApiStack then readXstack loci
    else (loci.regs off, loci)

def lociRead (loci : Loci) (address : Word) (host : LociHost) : Byte × Loci :=
  if !loci.enabled then (0xFF#8, loci)
  else
    match miaReg address with
    | none => (0xFF#8, loci)
    | some off => lociReadReg loci off host

/-- A push of the 6502. -/
def writeXstack (loci : Loci) (value : Byte) : Loci :=
  if 0 < loci.xstackPtr then
    let loci := { loci with xstackPtr := loci.xstackPtr - 1 }
    xstackSync (loci.storeStack loci.xstackPtr [value])
  else xstackSync loci

def writeRw (loci : Loci) (w : LociWindow) (value : Byte) : Loci :=
  windowAdvance { loci with xram := update loci.xram (getAddr loci w).toNat value } w

def lociWriteReg (loci : Loci) (off : Nat) (value : Byte) (host : LociHost) : Loci :=
  if off = lociRegConsTx then
    let loci := (consTxByte loci value).setReg lociRegConsTx value
    loci.setReg lociRegConsFlags (loci.regs lociRegConsFlags ||| 0x80#8)
  else if off = lociRegUlaSnoop then { loci with ulaPattern := value }.setReg lociRegUlaSnoop 0#8
  else if off = lociRegRw0 then writeRw loci lociWindow0 value
  else if off = lociRegRw1 then writeRw loci lociWindow1 value
  else if off = lociRegAddr0Lo ∨ off = lociRegAddr0Hi then
    refreshRw (loci.setReg off value) lociWindow0
  else if off = lociRegAddr1Lo ∨ off = lociRegAddr1Hi then
    refreshRw (loci.setReg off value) lociWindow1
  else if off = lociRegApiStack then writeXstack loci value
  else if off = lociRegApiOp then apiRequest (loci.setReg off value) value host
  else loci.setReg off value

def lociWrite (loci : Loci) (address : Word) (value : Byte) (host : LociHost) : Loci :=
  if !loci.enabled then loci
  else
    match miaReg address with
    | none => loci
    | some off => lociWriteReg loci off value host

/-! ## Keyboard and mouse -/

abbrev lociHidKeyA : Nat := 0x04
abbrev lociHidKeyControlLeft : Nat := 0xE0

/-- The bit of every pressed key; bit 0 tells that there is none. -/
def kbdBit (keycodes : Fin 6 → Byte) (modifier : Byte) (i bit : Nat) : Bool :=
  (List.finRange 6).any (fun k =>
    lociHidKeyA ≤ (keycodes k).toNat && (keycodes k).toNat == 8 * i + bit) ||
  (i == 0 && bit == 0 && modifier == 0#8 &&
    !(List.finRange 6).any fun k => decide (lociHidKeyA ≤ (keycodes k).toNat))

/-- The 32 bytes of a keyboard report; the modifiers replace the byte of the control keys. -/
def kbdKeys (modifier : Byte) (keycodes : Fin 6 → Byte) : List Byte :=
  (List.range 32).map fun i =>
    if i = lociHidKeyControlLeft / 8 then modifier
    else BitVec.ofNat 8
      ((List.range 8).foldl
        (fun v bit => v + if kbdBit keycodes modifier i bit then 2 ^ bit else 0) 0)

/-- The report has a place in the xram. -/
def reportPlace (loci : Loci) (place : Word) (len : Nat) : Bool :=
  loci.enabled && place != 0xFFFF#16 && place.toNat + len ≤ lociXramSize

def lociKbdSetReport (loci : Loci) (modifier : Byte) (keycodes : Fin 6 → Byte) : Loci :=
  if reportPlace loci loci.kbdXram 32 then
    { loci with xram := storeXram loci.xram loci.kbdXram.toNat (kbdKeys modifier keycodes) }
  else loci

/-- The buttons, and movements that add up. -/
def mouBytes (loci : Loci) (buttons dx dy wheel pan : Byte) : List Byte :=
  let m := fun i => loci.xram (loci.mouXram.toNat + i)
  [buttons, m 1 + dx, m 2 + dy, m 3 + wheel, m 4 + pan]

def lociMouReport (loci : Loci) (buttons dx dy wheel pan : Byte) : Loci :=
  if reportPlace loci loci.mouXram 5 then
    { loci with
      xram := storeXram loci.xram loci.mouXram.toNat (mouBytes loci buttons dx dy wheel pan) }
  else loci

/-! ## Time and buttons -/

/-- The steps of a sweep that `acc` cycles make, and the cycles left; `none` when it is over. -/
def adjSweep (acc tior : Nat) : Option Nat × Nat :=
  if acc < 5000 then (some tior, acc)
  else if tior + 1 > 31 then (none, acc - 5000)
  else adjSweep (acc - 5000) (tior + 1)
termination_by acc
decreasing_by omega

def lociAdjTick (loci : Loci) (cycles : Nat) : Loci :=
  if loci.adjState = 0 then loci
  else
    let acc := loci.adjAcc + cycles
    if loci.adjState = 1 then
      if acc < 100000 then { loci with adjAcc := acc }
      else { loci with adjAcc := 0, adjState := 2, adjTior := 0 }
    else
      match adjSweep acc loci.adjTior with
      | (some tior, acc) =>
        { loci with adjAcc := acc, adjTior := tior }.storeAdj (0x80#8 ||| BitVec.ofNat 8 tior)
      | (none, acc) =>
        { loci with adjAcc := acc, adjTior := 32, adjState := 0 }.storeAdj (loci.miaTior &&& 0x1F#8)

def lociActionTrap : List Byte := [0xB8#8, 0x50#8, 0xFE#8, 0x6C#8, 0xFA#8, 0xFF#8]

def lociActionButtonShort (loci : Loci) : Loci :=
  if !loci.enabled || loci.actionActive then loci
  else { storeRegs loci 0x1A lociActionTrap with actionActive := true }

def lociActionButtonRelease (loci : Loci) : Loci :=
  if loci.enabled then { loci with actionActive := false } else loci

/-! ## Steps -/

/-- What reaches the LOCI. -/
inductive LociInput
  | read (address : Word) (host : LociHost)
  | write (address : Word) (value : Byte) (host : LociHost)
  | kbdReport (modifier : Byte) (keycodes : Fin 6 → Byte)
  | mouReport (buttons dx dy wheel pan : Byte)
  | adjTick (cycles : Nat)
  | consInject (ch : Byte)
  | actionShort
  | actionRelease
  | disk (op : LociDskOp)
  | tapeWrite (address : Word) (value : Byte) (stored : Bool)
  | tapeMotor (on stored : Bool)
  | settle (settings : LociSettings)
  | reset (nowUs : Nat)

def lociStep (loci : Loci) : LociInput → Loci
  | .read address host => (lociRead loci address host).2
  | .write address value host => lociWrite loci address value host
  | .kbdReport modifier keycodes => lociKbdSetReport loci modifier keycodes
  | .mouReport buttons dx dy wheel pan => lociMouReport loci buttons dx dy wheel pan
  | .adjTick cycles => lociAdjTick loci cycles
  | .consInject ch => lociConsInject loci ch
  | .actionShort => lociActionButtonShort loci
  | .actionRelease => lociActionButtonRelease loci
  | .disk op => { loci with dsk := lociDskStep loci.dsk op }
  | .tapeWrite address value stored =>
    if loci.enabled then { loci with tap := lociTapWrite loci.tap address value stored } else loci
  | .tapeMotor on stored =>
    if loci.enabled then { loci with tap := lociTapMotor loci.tap on stored } else loci
  | .settle settings => lociSettle loci settings
  | .reset nowUs => lociReset loci nowUs

end Phosphoric
