import Phosphoric.Lib.RingBuffer
import Phosphoric.Lib.Word

/-!
# The 6551 ACIA

The serial chip of `src/io/acia6551.c` and the backend behind it. The backend is a parameter, a
machine of its own (`SerialBackend`): polled, asked for a byte or given one, it may also move the
modem lines of the chip, as the modem backends do.

Of what passes, the bytes the backend gave and the bytes the program read are kept
(`AciaSys.taken`, `AciaSys.got`). The trace file is left out.
-/

namespace Phosphoric

/-! ## State -/

abbrev aciaStatusPe : Byte := 0x01#8
abbrev aciaStatusFe : Byte := 0x02#8
abbrev aciaStatusOvrn : Byte := 0x04#8
abbrev aciaStatusRdrf : Byte := 0x08#8
abbrev aciaStatusTdre : Byte := 0x10#8
abbrev aciaStatusDcd : Byte := 0x20#8
abbrev aciaStatusDsr : Byte := 0x40#8
abbrev aciaStatusIrq : Byte := 0x80#8

abbrev aciaCmdDtr : Byte := 0x01#8
abbrev aciaCmdIrd : Byte := 0x02#8
abbrev aciaCmdTicMask : Byte := 0x0C#8
abbrev aciaCmdEcho : Byte := 0x10#8
abbrev aciaCmdPme : Byte := 0x20#8

abbrev aciaCtlBaudMask : Byte := 0x0F#8
abbrev aciaCtlWlMask : Byte := 0x60#8
abbrev aciaCtlSbn : Byte := 0x80#8

abbrev aciaV23RxBaud : Int := 1200
abbrev aciaV23TxBaud : Int := 75
abbrev aciaFifoMaxSize : Nat := 4096
abbrev aciaRxPollFloor : Int := 32

/-- `acia6551_t`. -/
structure Acia6551 where
  tdr : Byte
  rdr : Byte
  status : Byte
  command : Byte
  control : Byte
  /-- Start, data, parity and stop bits. -/
  framebits : Byte
  baudRate : Int
  /-- The data bits of the word length. -/
  bitmask : Byte
  txPending : Bool
  rxFull : Bool
  irqLine : Bool
  txCycles : Int
  rxCycles : Int
  txReload : Int
  rxReload : Int
  v23Mode : Bool
  dcd : Bool
  dsr : Bool
  cts : Bool
  /-- `none` is the one-byte receiver. -/
  rxFifo : Option (RingBuffer Byte)
  irqOnRdrf : Bool
  irqLatencyCycles : Int
  irqInTransit : Bool
  irqTransitCycles : Int
  rxBackpressure : Bool
  extClockBaud : Int
  /-- The calls made of `irq_set` (`true`) and `irq_clr`. -/
  irqCalls : List Bool

/-- A modem line, moved. -/
inductive AciaLine
  | dcd (active : Bool)
  | dsr (active : Bool)
  | cts (active : Bool)
  deriving DecidableEq, Repr

/-- `serial_backend_t` over a state `β`; `none` is a null pointer. -/
structure SerialBackend (β : Type) where
  poll : Option (β → Bool × List AciaLine × β)
  recv : β → Option Byte × List AciaLine × β
  send : Option (Byte → β → List AciaLine × β)

/-- The chip and its backend. `peer` is `none` when there is no backend. -/
structure AciaSys (β : Type) extends Acia6551 where
  peer : Option β
  /-- The bytes the backend gave, each with the word length's mask of the time. -/
  taken : List (Byte × Byte)
  /-- The bytes the program read with the receiver full. -/
  got : List Byte

/-! ## Timing -/

def baudRateTable : List Int :=
  [0, 50, 75, 110, 135, 150, 300, 600, 1200, 1800, 2400, 3600, 4800, 7200, 9600, 19200]

def aciaCalcFramebits (acia : Acia6551) : Acia6551 :=
  let wordlen : Byte := 8#8 - ((acia.control &&& aciaCtlWlMask) >>> 5)
  let stopbits : Byte := if acia.control &&& aciaCtlSbn != 0#8 then 2#8 else 1#8
  let parity : Byte := if acia.command &&& aciaCmdPme != 0#8 then 1#8 else 0#8
  { acia with
    framebits := 1#8 + wordlen + parity + stopbits
    bitmask := BitVec.ofNat 8 (2 ^ wordlen.toNat - 1) }

def cyclesPerByte (baud : Int) (framebits : Byte) : Int :=
  if baud ≤ 0 then 1 else (1000000 * framebits.toNat) / baud

def aciaUpdateTiming (acia : Acia6551) : Acia6551 :=
  let acia := aciaCalcFramebits acia
  let acia :=
    if acia.v23Mode then
      { acia with
        baudRate := aciaV23RxBaud
        rxReload := cyclesPerByte aciaV23RxBaud acia.framebits
        txReload := cyclesPerByte aciaV23TxBaud acia.framebits }
    else
      let baud := baudRateTable.getD (acia.control &&& aciaCtlBaudMask).toNat 0
      let baud := if baud = 0 ∧ acia.extClockBaud > 0 then acia.extClockBaud else baud
      { acia with
        baudRate := baud
        rxReload := cyclesPerByte baud acia.framebits
        txReload := cyclesPerByte baud acia.framebits }
  { acia with
    txCycles := if acia.txCycles ≤ 0 ∨ acia.txCycles > acia.txReload then acia.txReload
      else acia.txCycles
    rxCycles := if acia.rxCycles ≤ 0 ∨ acia.rxCycles > acia.rxReload then acia.rxReload
      else acia.rxCycles }

/-! ## Interrupt line -/

/-- The assertion may have to travel first (`irqLatencyCycles`). -/
def aciaAssertIrq (acia : Acia6551) : Acia6551 :=
  if acia.irqLine || acia.irqInTransit then acia
  else if acia.irqLatencyCycles > 0 then
    { acia with irqInTransit := true, irqTransitCycles := acia.irqLatencyCycles }
  else { acia with irqLine := true, irqCalls := acia.irqCalls ++ [true] }

def aciaDeassertIrq (acia : Acia6551) : Acia6551 :=
  let acia := { acia with irqInTransit := false }
  if acia.irqLine then { acia with irqLine := false, irqCalls := acia.irqCalls ++ [false] }
  else acia

def aciaUpdateIrq (acia : Acia6551) : Acia6551 :=
  let rx := acia.status &&& aciaStatusRdrf != 0#8 && acia.command &&& aciaCmdIrd == 0#8
  let tx := acia.status &&& aciaStatusTdre != 0#8 &&
    (acia.command &&& aciaCmdTicMask) >>> 2 == 0x01#8
  if rx || tx then aciaAssertIrq { acia with status := acia.status ||| aciaStatusIrq }
  else aciaDeassertIrq { acia with status := acia.status &&& ~~~aciaStatusIrq }

/-! ## Init, reset and lines -/

/-- `acia_init`. -/
def aciaInit : Acia6551 :=
  aciaUpdateTiming
    { tdr := 0#8, rdr := 0#8, status := aciaStatusTdre, command := 0#8, control := 0#8
      framebits := 0#8, baudRate := 0, bitmask := 0#8
      txPending := false, rxFull := false, irqLine := false
      txCycles := 0, rxCycles := 0, txReload := 0, rxReload := 0
      v23Mode := false, dcd := true, dsr := true, cts := true
      rxFifo := none
      irqOnRdrf := false, irqLatencyCycles := 0, irqInTransit := false, irqTransitCycles := 0
      rxBackpressure := false, extClockBaud := 0, irqCalls := [] }

def aciaReset (acia : Acia6551) : Acia6551 :=
  aciaDeassertIrq
    { acia with
      status := aciaStatusTdre, command := acia.command &&& 0xE0#8
      txPending := false, rxFull := false, rxFifo := acia.rxFifo.map RingBuffer.clear }

/-- `acia_set_dcd`, `acia_set_dsr` and `acia_set_cts`. -/
def aciaSetLine (acia : Acia6551) : AciaLine → Acia6551
  | .dcd active =>
    let acia' := { acia with
      dcd := active
      status := if active then acia.status &&& ~~~aciaStatusDcd else acia.status ||| aciaStatusDcd }
    if acia.dcd != active then aciaUpdateIrq acia' else acia'
  | .dsr active =>
    { acia with
      dsr := active
      status := if active then acia.status &&& ~~~aciaStatusDsr else acia.status ||| aciaStatusDsr }
  | .cts active => { acia with cts := active }

/-- `acia_set_rx_fifo`, the allocation succeeding, over what the array holds. -/
def aciaSetRxFifo (acia : Acia6551) (buf : Nat → Byte) (size : Nat) : Acia6551 :=
  { acia with
    rxFifo := if h : 0 < min size aciaFifoMaxSize then some (.empty buf _ h) else none }

/-- What the serial card sets after `acia_init`. -/
structure AciaConfig where
  v23Mode : Bool
  /-- `none` leaves the one-byte receiver. -/
  rxFifoSize : Option Nat
  /-- What the FIFO's array holds when it is allocated. -/
  fresh : Nat → Byte
  extClockBaud : Int
  irqOnRdrf : Bool
  irqLatencyCycles : Int
  rxBackpressure : Bool

/-- `acia_init` and the card's settings, in the order of `card_acia.c`. -/
def aciaSetUp (config : AciaConfig) : Acia6551 :=
  let acia := aciaUpdateTiming { aciaInit with v23Mode := config.v23Mode }
  let acia := config.rxFifoSize.elim acia (aciaSetRxFifo acia config.fresh)
  let acia := aciaUpdateTiming { acia with extClockBaud := config.extClockBaud }
  { acia with
    irqOnRdrf := config.irqOnRdrf, irqLatencyCycles := config.irqLatencyCycles
    irqInTransit := false, irqTransitCycles := 0, rxBackpressure := config.rxBackpressure }

/-! ## Registers -/

/-- `addr & ACIA_ADDR_MASK`. -/
inductive AciaReg
  | data | status | command | control
  deriving DecidableEq, Repr

/-- The oldest byte of the FIFO goes to the data register. -/
def aciaLoadNext (acia : Acia6551) : Acia6551 :=
  match acia.rxFifo.bind RingBuffer.pop with
  | some (next, fifo) =>
    { acia with
      rxFifo := some fifo, rdr := next, rxFull := true, status := acia.status ||| aciaStatusRdrf }
  | none => acia

def aciaRead (acia : Acia6551) : AciaReg → Byte × Acia6551
  | .data =>
    let cleared := { acia with
      rxFull := false
      status := acia.status &&&
        ~~~(aciaStatusRdrf ||| aciaStatusOvrn ||| aciaStatusPe ||| aciaStatusFe) }
    (acia.rdr, aciaUpdateIrq (aciaLoadNext cleared))
  | .status =>
    let acia' := aciaDeassertIrq { acia with status := acia.status &&& ~~~aciaStatusIrq }
    (acia.status, if acia.irqOnRdrf then aciaUpdateIrq acia' else acia')
  | .command => (acia.command, acia)
  | .control => (acia.control, acia)

/-- The observers' read. -/
def aciaPeek (acia : Acia6551) : AciaReg → Byte
  | .data => acia.rdr
  | .status => acia.status
  | .command => acia.command
  | .control => acia.control

/-- A write to the status register is a programmed reset. -/
def aciaWrite (acia : Acia6551) (reg : AciaReg) (value : Byte) : Acia6551 :=
  match reg with
  | .data =>
    aciaUpdateIrq
      { acia with
        tdr := value &&& acia.bitmask, txPending := true, txCycles := acia.txReload
        status := acia.status &&& ~~~aciaStatusTdre }
  | .status => aciaReset acia
  | .command => aciaUpdateIrq (aciaUpdateTiming { acia with command := value })
  | .control => aciaUpdateTiming { acia with control := value }

/-! ## Tick -/

/-- The receiver can take one more byte. -/
def aciaRxHasSpace (acia : Acia6551) : Bool :=
  match acia.rxFifo with
  | some fifo => !acia.rxFull || fifo.count < fifo.size
  | none => !acia.rxFull

/-- A queued assertion arrives. -/
def aciaIrqTransit (acia : Acia6551) (cycles : Int) : Acia6551 :=
  if acia.irqInTransit then
    let acia := { acia with irqTransitCycles := acia.irqTransitCycles - cycles }
    if acia.irqTransitCycles ≤ 0 then
      let acia := { acia with irqInTransit := false }
      if !acia.irqLine then { acia with irqLine := true, irqCalls := acia.irqCalls ++ [true] }
      else acia
    else acia
  else acia

/-- A received byte goes to the data register, to the FIFO, or is lost. -/
def aciaReceive (acia : Acia6551) (byte : Byte) : Acia6551 :=
  match acia.rxFifo with
  | some fifo =>
    if !acia.rxFull then
      { acia with rdr := byte, rxFull := true, status := acia.status ||| aciaStatusRdrf }
    else
      match fifo.push byte with
      | some fifo => { acia with rxFifo := some fifo }
      | none => { acia with status := acia.status ||| aciaStatusOvrn }
  | none =>
    { acia with
      rdr := byte, rxFull := true
      status := (if acia.rxFull then acia.status ||| aciaStatusOvrn else acia.status) |||
        aciaStatusRdrf }

/-- Echo mode sends a received byte through the transmitter, if it is free. -/
def aciaEcho (acia : Acia6551) (byte : Byte) : Acia6551 :=
  if acia.command &&& aciaCmdEcho != 0#8 && !acia.txPending then
    { acia with
      tdr := byte, txPending := true, txCycles := acia.txReload
      status := acia.status &&& ~~~aciaStatusTdre }
  else acia

variable {β : Type} (backend : SerialBackend β)

/-- The chip changes, the backend and what has passed stay. -/
def AciaSys.withAcia (sys : AciaSys β) (acia : Acia6551) : AciaSys β :=
  { sys with toAcia6551 := acia }

/-- The backend moves lines while it is called. -/
def AciaSys.called (sys : AciaSys β) (lines : List AciaLine) (peer : β) : AciaSys β :=
  { sys with toAcia6551 := lines.foldl aciaSetLine sys.toAcia6551, peer := some peer }

/-- The byte in the transmitter leaves, if the line and the backend take it. -/
def aciaSend (sys : AciaSys β) : AciaSys β :=
  match sys.cts, backend.send, sys.peer with
  | true, some send, some peer =>
    let (lines, peer) := send sys.tdr peer
    sys.called lines peer
  | _, _, _ => sys

/-- The transmitter's part of a tick. -/
def aciaTickTx (sys : AciaSys β) (cycles : Int) : AciaSys β :=
  if sys.txPending then
    let sys := sys.withAcia { sys.toAcia6551 with txCycles := sys.txCycles - cycles }
    if sys.txCycles ≤ 0 then
      let sys := aciaSend backend sys
      sys.withAcia (aciaUpdateIrq
        { sys.toAcia6551 with
          txPending := false, status := sys.status ||| aciaStatusTdre, txCycles := sys.txReload })
    else sys
  else sys

/-- The backend is asked for a byte. -/
def aciaTake (sys : AciaSys β) : AciaSys β :=
  match sys.peer with
  | some peer =>
    let (byte, lines, peer) := backend.recv peer
    let sys := sys.called lines peer
    match byte with
    | some raw =>
      let byte := raw &&& sys.bitmask
      let acia := aciaEcho (aciaReceive sys.toAcia6551 byte) byte
      { sys.withAcia (aciaUpdateIrq acia) with taken := sys.taken ++ [(raw, sys.bitmask)] }
    | none => sys
  | none => sys

/-- `backend->poll && backend->poll(backend)`. -/
def aciaPoll (sys : AciaSys β) : Bool × AciaSys β :=
  match backend.poll, sys.peer with
  | some poll, some peer =>
    let (ready, lines, peer) := poll peer
    (ready, sys.called lines peer)
  | _, _ => (false, sys)

/-- The backend is polled, and its byte taken if the carrier and the receiver allow it. -/
def aciaRxDue (sys : AciaSys β) : AciaSys β :=
  let (ready, sys) := aciaPoll backend sys
  -- flow control leaves the byte with the backend
  let ready := ready && !(sys.rxBackpressure && !aciaRxHasSpace sys.toAcia6551)
  if sys.dcd && ready then aciaTake backend sys else sys

def aciaRxInterval (acia : Acia6551) : Int :=
  if acia.rxReload > aciaRxPollFloor then acia.rxReload else aciaRxPollFloor

/-- The receiver's part of a tick. -/
def aciaTickRx (sys : AciaSys β) (cycles : Int) : AciaSys β :=
  let sys := sys.withAcia { sys.toAcia6551 with rxCycles := sys.rxCycles - cycles }
  if sys.rxCycles ≤ 0 then
    aciaRxDue backend
      (sys.withAcia { sys.toAcia6551 with rxCycles := aciaRxInterval sys.toAcia6551 })
  else sys

def aciaTick (sys : AciaSys β) (cycles : Int) : AciaSys β :=
  let sys := sys.withAcia (aciaIrqTransit sys.toAcia6551 cycles)
  if sys.peer.isNone then sys
  else if sys.command &&& aciaCmdDtr == 0#8 then sys
  else aciaTickRx backend (aciaTickTx backend sys cycles) cycles

/-! ## Runs -/

/-- What happens to the chip: time, the program's accesses, the modem lines. -/
inductive AciaOp
  | tick (cycles : Int)
  | read (reg : AciaReg)
  | write (reg : AciaReg) (value : Byte)
  | line (line : AciaLine)
  deriving DecidableEq

/-- The program has read a register; a byte read with the receiver full is one it got. -/
def aciaReadOp (sys : AciaSys β) (reg : AciaReg) : AciaSys β :=
  let (value, acia) := aciaRead sys.toAcia6551 reg
  { sys.withAcia acia with
    got := if reg = .data ∧ sys.status &&& aciaStatusRdrf != 0#8 then sys.got ++ [value]
      else sys.got }

/-- An operation that does not reset the chip. -/
def AciaOp.NoReset : AciaOp → Prop
  | .write .status _ => False
  | _ => True

def aciaStep (sys : AciaSys β) : AciaOp → AciaSys β
  | .tick cycles => aciaTick backend sys cycles
  | .read reg => aciaReadOp sys reg
  | .write reg value => sys.withAcia (aciaWrite sys.toAcia6551 reg value)
  | .line line => sys.withAcia (aciaSetLine sys.toAcia6551 line)

/-- The chip set up, with a backend or without. -/
def aciaStart (config : AciaConfig) (peer : Option β) : AciaSys β :=
  { aciaSetUp config with peer := peer, taken := [], got := [] }

def aciaRun (sys : AciaSys β) (ops : List AciaOp) : AciaSys β := ops.foldl (aciaStep backend) sys

end Phosphoric
