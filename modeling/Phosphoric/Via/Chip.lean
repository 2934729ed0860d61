import Phosphoric.Lib.Word

/-!
# The 6522 VIA

The chip of `src/io/via6522.c`: timers, shift register, handshake lines, interrupt flags, and the
two ways of advancing it by one cycle, `viaTick` (which may defer the cycle) and
`viaTickNoLazy` (the `VIA_NO_LAZY` build, which never does).

The port and interrupt callbacks are parameters. A callback may read the chip, as the
emulator's do through `userdata`, and may change what `userdata` points to; that is the `σ` of
`ViaSys σ`.
-/

namespace Phosphoric

/-! ## State -/

/-- `via6522_t`, without the callback pointers. -/
structure Via6522 where
  ora : Byte
  orb : Byte
  ira : Byte
  irb : Byte
  ddra : Byte
  ddrb : Byte
  t1Counter : Word
  t1Latch : Word
  t2Counter : Word
  t2Latch : Byte
  t1Running : Bool
  t2Running : Bool
  t1Active : Bool
  t2Active : Bool
  t2Phi2 : Bool
  /-- Upcoming cycles without any event. -/
  quiet : Word
  /-- Skipped cycles, still to apply. -/
  pending : Word
  srT2Pending : Byte
  srDelay : Byte
  t2Reload : Bool
  t2Hold : Bool
  t1Reload : Bool
  sr : Byte
  srCount : Byte
  acr : Byte
  pcr : Byte
  ifr : Byte
  ier : Byte
  cb1Pin : Bool
  cb2Pin : Bool
  cb2In : Bool
  ca2Pin : Bool
  ca2In : Bool
  ca1Pin : Bool
  srActive : Bool
  srClkAcc : BitVec 32
  pb6Pin : Bool
  pb7Pin : Bool
  ca2Pulse : Int
  cb2Pulse : Int
  paLatch : Byte
  pbLatch : Byte
  paLatched : Bool
  pbLatched : Bool
  irqLine : Bool
  deriving DecidableEq, Repr

/-- The callback pointers of `via6522_t`; `none` is a null pointer. -/
structure ViaCallbacks (σ : Type) where
  portaRead : Option (Via6522 → σ → Byte × σ)
  portaWrite : Option (Byte → Via6522 → σ → σ)
  portbRead : Option (Via6522 → σ → Byte × σ)
  portbWrite : Option (Byte → Via6522 → σ → σ)
  irqCallback : Option (Bool → Via6522 → σ → σ)

/-- The chip, what its callbacks' `userdata` points to, and the calls of `irq_callback` made so
far. -/
structure ViaSys (σ : Type) extends Via6522 where
  user : σ
  irqCalls : List Bool

/-! Interrupt flags. -/

abbrev viaIntCa2 : Byte := 0x01#8
abbrev viaIntCa1 : Byte := 0x02#8
abbrev viaIntSr : Byte := 0x04#8
abbrev viaIntCb2 : Byte := 0x08#8
abbrev viaIntCb1 : Byte := 0x10#8
abbrev viaIntT2 : Byte := 0x20#8
abbrev viaIntT1 : Byte := 0x40#8
abbrev viaIntAny : Byte := 0x80#8
abbrev viaIerMask : Byte := 0x7F#8

/-- The register offsets. -/
inductive ViaReg
  | orb | ora | ddrb | ddra | t1cl | t1ch | t1ll | t1lh
  | t2cl | t2ch | sr | acr | pcr | ifr | ier | oraNh
  deriving DecidableEq, Repr

/-- `reg &= 0x0F`, by name. -/
def viaReg (reg : Byte) : ViaReg :=
  match (reg &&& 0x0F#8).toNat with
  | 0x0 => .orb
  | 0x1 => .ora
  | 0x2 => .ddrb
  | 0x3 => .ddra
  | 0x4 => .t1cl
  | 0x5 => .t1ch
  | 0x6 => .t1ll
  | 0x7 => .t1lh
  | 0x8 => .t2cl
  | 0x9 => .t2ch
  | 0xA => .sr
  | 0xB => .acr
  | 0xC => .pcr
  | 0xD => .ifr
  | 0xE => .ier
  | _ => .oraNh

variable {σ : Type} (cb : ViaCallbacks σ)

/-! ## Interrupt line -/

/-- The CPU is told of transitions of the line only. -/
def viaCheckIrq (via : ViaSys σ) : ViaSys σ :=
  let irq := (via.ifr &&& via.ier &&& viaIerMask) != 0#8
  let via := { via with
    ifr := if irq then via.ifr ||| viaIntAny else via.ifr &&& ~~~viaIntAny }
  if irq != via.irqLine then
    let via := { via with irqLine := irq }
    match cb.irqCallback with
    | some call =>
      { via with user := call irq via.toVia6522 via.user, irqCalls := via.irqCalls ++ [irq] }
    | none => via
  else via

/-! ## Shift register -/

/-- One shift of the externally clocked register. -/
def viaDoShift (via : ViaSys σ) : ViaSys σ :=
  let mode := via.acr &&& 0x1C#8
  let via : ViaSys σ :=
    if mode &&& 0x10#8 != 0#8 then
      let msb := via.sr &&& 0x80#8 != 0#8
      { via with cb2Pin := msb, sr := (via.sr <<< 1) ||| (if msb then 1#8 else 0#8) }
    else
      { via with sr := (via.sr <<< 1) ||| (if via.cb2In then 1#8 else 0#8) }
  let via := { via with srCount := via.srCount + 1#8 }
  if via.srCount ≥ 8#8 then
    let via := { via with srCount := 0#8 }
    if mode != 0x10#8 then
      viaCheckIrq cb { via with srActive := false, ifr := via.ifr ||| viaIntSr }
    else via
  else via

/-- One CB1 half-period of the internally clocked register. -/
def viaSrEvent (via : ViaSys σ) : ViaSys σ :=
  let mode := via.acr &&& 0x1C#8
  if mode == 0#8 || !via.srActive then via
  else
    let out := mode &&& 0x10#8 != 0#8
    let via : ViaSys σ :=
      if via.srCount &&& 1#8 == 0#8 then
        if out then
          let msb := via.sr &&& 0x80#8 != 0#8
          { via with cb2Pin := msb, sr := (via.sr <<< 1) ||| (if msb then 1#8 else 0#8) }
        else via
      else if !out then
        { via with sr := (via.sr <<< 1) ||| (if via.cb2In then 1#8 else 0#8) }
      else via
    let via := { via with srCount := via.srCount + 1#8 }
    if via.srCount ≥ 16#8 then
      let via := { via with srCount := 0#8 }
      if mode != 0x10#8 then
        viaCheckIrq cb { via with srActive := false, ifr := via.ifr ||| viaIntSr }
      else via
    else via

/-- A register access starts a sequence if none is in progress. -/
def viaSrAccess (via : ViaSys σ) : ViaSys σ :=
  let mode := via.acr &&& 0x1C#8
  if mode == 0#8 then via
  else if mode == 0x10#8 then
    { via with srActive := true, srCount := via.srCount &&& 0x0F#8 }
  else if !via.srActive then
    let via := { via with srActive := true, srCount := 0#8 }
    if mode == 0x08#8 || mode == 0x18#8 then { via with srDelay := 1#8 } else via
  else via

/-! ## Handshake lines -/

def viaCa2PortAccess (via : ViaSys σ) : ViaSys σ :=
  let mode := via.pcr &&& 0x0E#8
  if mode == 0x08#8 then { via with ca2Pin := false }
  else if mode == 0x0A#8 then { via with ca2Pin := false, ca2Pulse := 1 }
  else via

def viaCb2PortAccess (via : ViaSys σ) : ViaSys σ :=
  let mode := via.pcr &&& 0xE0#8
  if mode == 0x80#8 then { via with cb2Pin := false }
  else if mode == 0xA0#8 then { via with cb2Pin := false, cb2Pulse := 1 }
  else via

/-- A read callback's answer, `0xFF` when there is none. -/
def viaCallRead (read : Option (Via6522 → σ → Byte × σ)) (via : ViaSys σ) : Byte × ViaSys σ :=
  match read with
  | some call =>
    let (pins, user) := call via.toVia6522 via.user
    (pins, { via with user := user })
  | none => (0xFF#8, via)

/-- A write callback, if there is one. -/
def viaCallWrite (write : Option (Byte → Via6522 → σ → σ)) (value : Byte) (via : ViaSys σ) :
    ViaSys σ :=
  match write with
  | some call => { via with user := call value via.toVia6522 via.user }
  | none => via

/-- Port A input pins: wired-AND of IRA and the external drivers. -/
def viaPaPins (via : ViaSys σ) : Byte × ViaSys σ :=
  let (pins, via) := viaCallRead cb.portaRead via
  (via.ira &&& pins, via)

/-! ## Deferred cycles -/

/-- T2 counts on 8 bits when it clocks the shift register. -/
def viaT2EightBit (via : Via6522) : Bool :=
  let m := via.acr &&& 0x1C#8
  m == 0x04#8 || m == 0x10#8 || m == 0x14#8

/-- A bound on the cycles during which `viaUpdate` would only count down. -/
def viaQuiet (via : Via6522) : Word :=
  let srm := via.acr &&& 0x1C#8
  if via.ca2Pulse > 0 || via.cb2Pulse > 0 then 0#16
  else if via.srT2Pending != 0#8 || via.srDelay != 0#8 then 0#16
  else if (srm == 0x08#8 || srm == 0x18#8) && via.srActive then 0#16
  else if via.t1Active && via.t1Reload then 0#16
  else
    let q : Word := 0xFFFF#16
    let q := if via.t1Active && via.t1Counter < q then via.t1Counter else q
    if via.t2Hold || via.t2Phi2 != (via.acr &&& 0x20#8 == 0#8) then 0#16
    else if via.t2Active && via.t2Phi2 then
      if viaT2EightBit via then
        if via.t2Reload then 0#16
        else
          let low : Word := (Word.lo via.t2Counter).setWidth 16
          if low < q then low else q
      else if via.t2Counter < q then via.t2Counter
      else q
    else q

/-- Apply the deferred cycles. -/
def viaSync (via : ViaSys σ) : ViaSys σ :=
  let n := via.pending
  let via := { via with quiet := 0#16 }
  if n == 0#16 then via
  else
    let via := { via with pending := 0#16 }
    let via := if via.t1Active then { via with t1Counter := via.t1Counter - n } else via
    if via.t2Active && via.t2Phi2 then
      if viaT2EightBit via.toVia6522 then
        { via with t2Counter := Word.setLo via.t2Counter (Word.lo (via.t2Counter - n)) }
      else { via with t2Counter := via.t2Counter - n }
    else via

/-! ## Init and reset -/

/-- `memset` to zero, then the idle pins. -/
def viaInit : Via6522 where
  ora := 0#8
  orb := 0#8
  ira := 0#8
  irb := 0#8
  ddra := 0#8
  ddrb := 0#8
  t1Counter := 0#16
  t1Latch := 0#16
  t2Counter := 0#16
  t2Latch := 0#8
  t1Running := false
  t2Running := false
  t1Active := false
  t2Active := false
  t2Phi2 := false
  quiet := 0#16
  pending := 0#16
  srT2Pending := 0#8
  srDelay := 0#8
  t2Reload := false
  t2Hold := false
  t1Reload := false
  sr := 0#8
  srCount := 0#8
  acr := 0#8
  pcr := 0#8
  ifr := 0#8
  ier := 0#8
  cb1Pin := true
  cb2Pin := false
  cb2In := false
  ca2Pin := false
  ca2In := false
  ca1Pin := true
  srActive := false
  srClkAcc := 0#32
  pb6Pin := false
  pb7Pin := false
  ca2Pulse := 0
  cb2Pulse := 0
  paLatch := 0#8
  pbLatch := 0#8
  paLatched := false
  pbLatched := false
  irqLine := false

def viaReset (via : ViaSys σ) : ViaSys σ :=
  { viaSync via with
    ora := 0#8
    orb := 0#8
    ira := 0xFF#8
    irb := 0xFF#8
    ddra := 0#8
    ddrb := 0#8
    t1Counter := 0xFFFF#16
    t1Latch := 0xFFFF#16
    t2Counter := 0xFFFF#16
    t2Latch := 0xFF#8
    t1Running := false
    t2Running := false
    t1Active := false
    t2Active := false
    sr := 0#8
    srCount := 0#8
    acr := 0#8
    t2Phi2 := true
    t2Hold := false
    pcr := 0#8
    ifr := 0#8
    ier := 0#8
    cb1Pin := true
    ca1Pin := true
    irqLine := false
    cb2Pin := false
    cb2In := false
    ca2Pin := false
    ca2In := false
    ca2Pulse := 0
    cb2Pulse := 0
    paLatched := false
    pbLatched := false
    srActive := false
    srClkAcc := 0#32
    srDelay := 0#8
    srT2Pending := 0#8
    pb6Pin := true
    pb7Pin := true }

/-! ## Register access -/

/-- The input byte of Port A: the latched one while latching is enabled, else the pins. -/
def viaPortAInput (via : ViaSys σ) : Byte × ViaSys σ :=
  if via.acr &&& 0x01#8 != 0#8 && via.paLatched then (via.paLatch, via) else viaPaPins cb via

/-- Clear the CA1 flag, and the CA2 flag unless CA2 is an independent interrupt input. -/
def viaClearCa (via : ViaSys σ) : ViaSys σ :=
  let via := { via with ifr := via.ifr &&& ~~~viaIntCa1 }
  let mode := via.pcr &&& 0x0E#8
  if mode != 0x02#8 && mode != 0x06#8 then { via with ifr := via.ifr &&& ~~~viaIntCa2 } else via

/-- Clear the CB1 flag, and the CB2 flag unless CB2 is an independent interrupt input. -/
def viaClearCb (via : ViaSys σ) : ViaSys σ :=
  let via := { via with ifr := via.ifr &&& ~~~viaIntCb1 }
  let mode := via.pcr &&& 0xE0#8
  if mode != 0x20#8 && mode != 0x60#8 then { via with ifr := via.ifr &&& ~~~viaIntCb2 } else via

/-- Clear one interrupt flag and tell the CPU. -/
def viaAck (flag : Byte) (via : ViaSys σ) : ViaSys σ :=
  viaCheckIrq cb { via with ifr := via.ifr &&& ~~~flag }

/-- Raise one interrupt flag and tell the CPU. -/
def viaRaise (flag : Byte) (via : ViaSys σ) : ViaSys σ :=
  viaCheckIrq cb { via with ifr := via.ifr ||| flag }

/-- `via_read` once the deferred cycles are applied. -/
def viaReadReg (reg : ViaReg) (via : ViaSys σ) : Byte × ViaSys σ :=
  match reg with
  | .orb =>
    let (input, via) :=
      if via.acr &&& 0x02#8 != 0#8 && via.pbLatched then (via.pbLatch, via)
      else viaCallRead cb.portbRead via
    let via := viaCheckIrq cb (viaClearCb via)
    let rb := (via.orb &&& via.ddrb) ||| (input &&& ~~~via.ddrb)
    -- PB7 is the T1 output as soon as ACR bit 7 is set, whatever DDRB
    let rb :=
      if via.acr &&& 0x80#8 != 0#8 then (if via.pb7Pin then rb ||| 0x80#8 else rb &&& 0x7F#8)
      else rb
    (rb, via)
  | .ora =>
    let (input, via) := viaPortAInput cb via
    let via := viaCa2PortAccess (viaCheckIrq cb (viaClearCa via))
    ((via.ora &&& via.ddra) ||| (input &&& ~~~via.ddra), via)
  | .ddrb => (via.ddrb, via)
  | .ddra => (via.ddra, via)
  | .t1cl => let via := viaAck cb viaIntT1 via; (Word.lo via.t1Counter, via)
  | .t1ch => (Word.hi via.t1Counter, via)
  | .t1ll => (Word.lo via.t1Latch, via)
  | .t1lh => (Word.hi via.t1Latch, via)
  | .t2cl => let via := viaAck cb viaIntT2 via; (Word.lo via.t2Counter, via)
  | .t2ch => (Word.hi via.t2Counter, via)
  | .sr => let via := viaSrAccess (viaAck cb viaIntSr via); (via.sr, via)
  | .acr => (via.acr, via)
  | .pcr => (via.pcr, via)
  | .ifr => (via.ifr, via)
  | .ier => (via.ier ||| viaIntAny, via)
  | .oraNh =>
    let (input, via) := viaPortAInput cb via
    ((via.ora &&& via.ddra) ||| (input &&& ~~~via.ddra), via)

def viaRead (reg : Byte) (via : ViaSys σ) : Byte × ViaSys σ :=
  viaReadReg cb (viaReg reg) (viaSync via)

/-- A write to the ACR. -/
def viaWriteAcr (value : Byte) (via : ViaSys σ) : ViaSys σ :=
  -- bit 7 going to 1 sets the PB7 flip-flop
  let via :=
    if via.acr &&& 0x80#8 == 0#8 && value &&& 0x80#8 != 0#8 then { via with pb7Pin := true }
    else via
  let old := via.acr &&& 0x1C#8
  let mode := value &&& 0x1C#8
  let via := { via with acr := value }
  let via :=
    if mode == 0x10#8 then { via with srActive := true }
    else if mode == 0x00#8 then viaAck cb viaIntSr via
    else via
  if (mode == 0x08#8 || mode == 0x18#8) && old != 0x08#8 && old != 0x18#8 then
    { via with srDelay := 3#8 }
  else via

/-- `via_write` once the deferred cycles are applied. -/
def viaWriteReg (reg : ViaReg) (value : Byte) (via : ViaSys σ) : ViaSys σ :=
  match reg with
  | .orb =>
    let via := viaCheckIrq cb (viaClearCb { via with orb := value })
    viaCallWrite cb.portbWrite value (viaCb2PortAccess via)
  | .ora =>
    let via := viaCheckIrq cb (viaClearCa { via with ora := value })
    viaCallWrite cb.portaWrite value (viaCa2PortAccess via)
  | .ddrb => { via with ddrb := value }
  | .ddra => { via with ddra := value }
  | .t1cl | .t1ll => { via with t1Latch := Word.setLo via.t1Latch value }
  | .t1ch =>
    let latch := Word.mk value (Word.lo via.t1Latch)
    -- the counter starts on the cycle after the write, hence the reload cycle
    let via := { via with
      t1Latch := latch, t1Counter := latch, t1Running := true, t1Active := true,
      t1Reload := true, ifr := via.ifr &&& ~~~viaIntT1, pb7Pin := false }
    viaCheckIrq cb via
  | .t1lh => viaAck cb viaIntT1 { via with t1Latch := Word.mk value (Word.lo via.t1Latch) }
  | .t2cl => { via with t2Latch := value }
  | .t2ch =>
    viaAck cb viaIntT2 { via with
      t2Counter := Word.mk value via.t2Latch, t2Running := true, t2Active := true,
      t2Hold := true, t2Reload := false }
  | .sr => viaSrAccess (viaAck cb viaIntSr { via with sr := value })
  | .acr => viaWriteAcr cb value via
  | .pcr => { via with pcr := value }
  | .ifr => viaAck cb (value &&& viaIerMask) via
  | .ier =>
    viaCheckIrq cb { via with
      ier := if value &&& viaIntAny != 0#8 then via.ier ||| (value &&& viaIerMask)
        else via.ier &&& ~~~(value &&& viaIerMask) }
  | .oraNh => viaCallWrite cb.portaWrite value { via with ora := value }

def viaWrite (reg value : Byte) (via : ViaSys σ) : ViaSys σ :=
  viaWriteReg cb (viaReg reg) value (viaSync via)

/-! ## Cycles -/

/-- A pulse output goes back high when its cycle is over. -/
def viaPulses (cycles : Nat) (via : ViaSys σ) : ViaSys σ :=
  let via :=
    if via.ca2Pulse > 0 then
      let via := { via with ca2Pulse := via.ca2Pulse - cycles }
      if via.ca2Pulse ≤ 0 then { via with ca2Pulse := 0, ca2Pin := true } else via
    else via
  if via.cb2Pulse > 0 then
    let via := { via with cb2Pulse := via.cb2Pulse - cycles }
    if via.cb2Pulse ≤ 0 then { via with cb2Pulse := 0, cb2Pin := true } else via
  else via

/-- One cycle of Timer 1: `N` countdowns, the underflow, then the reload. -/
def viaT1Cycle (via : ViaSys σ) : ViaSys σ :=
  if via.t1Reload then { via with t1Counter := via.t1Latch, t1Reload := false }
  else
    let underflow := via.t1Counter == 0x0000#16
    let via := { via with t1Counter := via.t1Counter - 1#16 }
    if !underflow then via
    else
      let via := { via with t1Reload := true }
      if !via.t1Running then via
      else
        let via := viaRaise cb viaIntT1 via
        let via := { via with pb7Pin := !via.pb7Pin }
        if via.acr &&& 0x40#8 == 0#8 then { via with t1Running := false } else via

/-- One cycle of Timer 2 while it clocks the shift register: the low byte reloads from the
latch, each of its underflows decrements the high byte. -/
def viaT2EightBitCycle (via : ViaSys σ) : ViaSys σ :=
  if via.t2Reload then
    { via with t2Counter := Word.setLo via.t2Counter via.t2Latch, t2Reload := false }
  else
    let lo := Word.lo via.t2Counter
    let hi := Word.hi via.t2Counter
    if lo == 0#8 then
      let via :=
        if hi == 0#8 && via.t2Running then { viaRaise cb viaIntT2 via with t2Running := false }
        else via
      { via with t2Reload := true, srT2Pending := 2#8, t2Counter := Word.mk (hi - 1#8) (lo - 1#8) }
    else { via with t2Counter := Word.mk hi (lo - 1#8) }

/-- Timer 1 runs only once loaded. -/
def viaT1Cycles (cycles : Nat) (via : ViaSys σ) : ViaSys σ :=
  if via.t1Active then (viaT1Cycle cb)^[cycles] via else via

/-- One countdown of Timer 2. -/
def viaT2Count (via : ViaSys σ) : ViaSys σ :=
  if viaT2EightBit via.toVia6522 then viaT2EightBitCycle cb via
  else
    let underflow := via.t2Counter == 0x0000#16
    let via := { via with t2Counter := via.t2Counter - 1#16 }
    if !underflow then via
    else if !via.t2Running then via
    else { viaRaise cb viaIntT2 via with t2Running := false }

/-- The shift register event an 8-bit underflow of Timer 2 left for a cycle later. -/
def viaSrT2Event (via : ViaSys σ) : ViaSys σ :=
  if via.srT2Pending != 0#8 then
    let via := { via with srT2Pending := via.srT2Pending - 1#8 }
    if via.srT2Pending == 0#8 then viaSrEvent cb via else via
  else via

/-- One φ2 cycle of Timer 2, with the shift register event it clocks. -/
def viaT2Cycle (via : ViaSys σ) : ViaSys σ :=
  let via := viaSrT2Event cb via
  let phi2 := via.t2Phi2
  let hold := via.t2Hold
  -- the mode the ACR selects takes effect on the next cycle
  let via := { via with t2Phi2 := via.acr &&& 0x20#8 == 0#8, t2Hold := false }
  if !via.t2Active || !phi2 || hold then via else viaT2Count cb via

/-- One cycle of the shift register under φ2. -/
def viaSrCycle (via : ViaSys σ) : ViaSys σ :=
  if via.srDelay != 0#8 then { via with srDelay := via.srDelay - 1#8 } else viaSrEvent cb via

/-- The shift register runs here only in the φ2 modes. -/
def viaSrCycles (cycles : Nat) (via : ViaSys σ) : ViaSys σ :=
  let srmode := via.acr &&& 0x1C#8
  if srmode == 0x08#8 || srmode == 0x18#8 then (viaSrCycle cb)^[cycles] via else via

/-- `via_update` once the deferred cycles are applied, up to the bound it ends by computing. -/
def viaRunCycles (cycles : Nat) (via : ViaSys σ) : ViaSys σ :=
  viaSrCycles cb cycles ((viaT2Cycle cb)^[cycles] (viaT1Cycles cb cycles (viaPulses cycles via)))

def viaUpdate (cycles : Nat) (via : ViaSys σ) : ViaSys σ :=
  let via := viaRunCycles cb cycles (viaSync via)
  { via with quiet := viaQuiet via.toVia6522 }

/-- One cycle: only counted as long as no event can happen. -/
def viaTick (via : ViaSys σ) : ViaSys σ :=
  if via.quiet != 0#16 then
    { via with quiet := via.quiet - 1#16, pending := via.pending + 1#16 }
  else viaUpdate cb 1 via

/-- One cycle under `VIA_NO_LAZY`. -/
def viaTickNoLazy (via : ViaSys σ) : ViaSys σ := viaUpdate cb 1 via

/-! ## Pins -/

def viaTriggerCa1 (via : ViaSys σ) : ViaSys σ := viaRaise cb viaIntCa1 (viaSync via)

def viaTriggerCa2 (via : ViaSys σ) : ViaSys σ := viaRaise cb viaIntCa2 (viaSync via)

def viaTriggerCb2 (via : ViaSys σ) : ViaSys σ := viaRaise cb viaIntCb2 (viaSync via)

/-- A transition on the edge the PCR bit selects: 0 falling, 1 rising. -/
def viaActiveEdge (rising old new : Bool) : Bool :=
  (rising && !old && new) || (!rising && old && !new)

/-- The active CA1 edge latches the pins of Port A when the ACR asks for it. -/
def viaLatchPa (via : ViaSys σ) : ViaSys σ :=
  if via.acr &&& 0x01#8 != 0#8 then
    let (pins, via) := viaPaPins cb via
    { via with paLatch := pins, paLatched := true }
  else via

/-- The active CB1 edge latches Port B likewise. -/
def viaLatchPb (via : ViaSys σ) : ViaSys σ :=
  if via.acr &&& 0x02#8 != 0#8 then
    let (pins, via) := viaCallRead cb.portbRead via
    { via with pbLatch := pins, pbLatched := true }
  else via

def viaSetCa1 (state : Bool) (via : ViaSys σ) : ViaSys σ :=
  let via := viaSync via
  let old := via.ca1Pin
  let via := { via with ca1Pin := state }
  if old == state || !viaActiveEdge (via.pcr &&& 0x01#8 != 0#8) old state then via
  else
    let via := viaLatchPa cb { via with ifr := via.ifr ||| viaIntCa1 }
    let via := if via.pcr &&& 0x0E#8 == 0x08#8 then { via with ca2Pin := true } else via
    viaCheckIrq cb via

def viaSetCa2Input (level : Bool) (via : ViaSys σ) : ViaSys σ :=
  let via := viaSync via
  let old := via.ca2In
  let via := { via with ca2In := level }
  if via.pcr &&& 0x08#8 != 0#8 || old == level then via
  else if viaActiveEdge (via.pcr &&& 0x04#8 != 0#8) old level then viaRaise cb viaIntCa2 via
  else via

def viaSetCb1 (state : Bool) (via : ViaSys σ) : ViaSys σ :=
  let via := viaSync via
  let old := via.cb1Pin
  let via := { via with cb1Pin := state }
  if old == state || !viaActiveEdge (via.pcr &&& 0x10#8 != 0#8) old state then via
  else
    let via := viaLatchPb cb { via with ifr := via.ifr ||| viaIntCb1 }
    let via := if via.pcr &&& 0xE0#8 == 0x80#8 then { via with cb2Pin := true } else via
    viaCheckIrq cb via

def viaTriggerCb1 (via : ViaSys σ) : ViaSys σ :=
  viaSetCb1 cb true (viaSetCb1 cb false (viaSync via))

def viaSetCb2Input (level : Bool) (via : ViaSys σ) : ViaSys σ :=
  let via := viaSync via
  let old := via.cb2In
  let via := { via with cb2In := level }
  if via.pcr &&& 0x80#8 != 0#8 || old == level then via
  else if viaActiveEdge (via.pcr &&& 0x40#8 != 0#8) old level then viaRaise cb viaIntCb2 via
  else via

def viaShiftClock (via : ViaSys σ) : ViaSys σ :=
  let via := viaSync via
  let mode := via.acr &&& 0x1C#8
  if mode != 0x0C#8 && mode != 0x1C#8 then via
  else if !via.srActive then via
  else viaDoShift cb via

/-- One negative edge on PB6. -/
def viaPb6Pulse (via : ViaSys σ) : ViaSys σ :=
  let via := viaSync via
  if !via.t2Active || via.acr &&& 0x20#8 == 0#8 then via
  else if via.t2Counter == 0#16 then
    let via := { via with t2Counter := 0xFFFF#16 }
    if via.t2Running then { viaRaise cb viaIntT2 via with t2Running := false } else via
  else { via with t2Counter := via.t2Counter - 1#16 }

def viaGetCa2 (via : Via6522) : Bool :=
  let ca2 := via.pcr &&& 0x0E#8
  if ca2 &&& 0x08#8 == 0#8 then via.ca2In
  else if ca2 == 0x0C#8 then false
  else if ca2 == 0x0E#8 then true
  else via.ca2Pin

def viaGetCb2 (via : Via6522) : Bool :=
  if via.acr &&& 0x10#8 != 0#8 then via.cb2Pin
  else
    let cb2 := via.pcr &&& 0xE0#8
    if cb2 &&& 0x80#8 == 0#8 then via.cb2In
    else if cb2 == 0xC0#8 then false
    else if cb2 == 0xE0#8 then true
    else via.cb2Pin

def viaGetPb7 (via : Via6522) : Bool :=
  if via.acr &&& 0x80#8 != 0#8 then via.pb7Pin
  else if via.ddrb &&& 0x80#8 != 0#8 then via.orb &&& 0x80#8 != 0#8
  else true

end Phosphoric
