import Phosphoric.Lib.Machine
import Phosphoric.Serial.Pia6821

/-!
# The interrupt lines of the DTL 2000 and the Mageco

The DTL 2000 is an ACIA 6850 (`src/io/acia6850.c`) beside a PIA 6821, the Mageco an ACIA alone.
Every operation of the ACIA that changes a cause of its interrupt ends with `acia6850_update_irq`,
but for the reset.

**Theorem (`irqLines_iff`).** In a run of either card the status bit is the condition of the two
enables, and the last value given to each interrupt line is its condition, after every operation if
and only if no hardware reset is made while a line is asserted.
-/

namespace Phosphoric

/-! ## The ACIA -/

/-- `acia6850_t`; `irqOut` is the last value given to `irq_out`, `false` before any. -/
structure Acia6850 where
  control : Byte
  status : Byte
  rdr : Byte
  tdr : Byte
  framebits : Byte
  bitmask : Byte
  rtsLow : Bool
  irqOut : Bool
  deriving DecidableEq

/-- `ACIA6850_SR_RDRF`. -/
def acia6850Rdrf : Byte := 0x01
def acia6850Tdre : Byte := 0x02
def acia6850Dcd : Byte := 0x04
def acia6850Cts : Byte := 0x08
def acia6850Irq : Byte := 0x80

/-- The transmit-control field of the control register. -/
def acia6850Tc (control : Byte) : Byte := (control &&& 0x60#8) >>> 5

/-- The length and the data mask of a frame, from the word-select field. -/
def acia6850FrameFromWs (ws : Byte) : Byte × Byte :=
  let data : Byte := if ws < 4#8 then 7 else 8
  let parity : Byte := if ws = 4#8 ∨ ws = 5#8 then 0 else 1
  let stop : Byte := if ws = 0#8 ∨ ws = 1#8 ∨ ws = 4#8 then 2 else 1
  (1 + data + parity + stop, if data = 7#8 then 0x7F else 0xFF)

namespace Acia6850

/-- The receive interrupt with a byte, or the transmit interrupt without one. -/
def requests (a : Acia6850) : Bool :=
  a.control &&& 0x80#8 != 0#8 && a.status &&& acia6850Rdrf != 0#8 ||
    acia6850Tc a.control == 1#8 && a.status &&& acia6850Tdre != 0#8

/-- `acia6850_update_irq`. -/
def updateIrq (a : Acia6850) : Acia6850 :=
  let irq := a.requests
  { a with
    status := if irq then a.status ||| acia6850Irq else a.status &&& ~~~acia6850Irq
    irqOut := irq }

/-- `acia6850_init` and `acia6850_reset`: the callback is kept, and not called. -/
def reset (a : Acia6850) : Acia6850 where
  control := 0
  status := acia6850Tdre ||| acia6850Dcd ||| acia6850Cts
  rdr := 0
  tdr := 0
  framebits := 10
  bitmask := 0x7F
  rtsLow := false
  irqOut := a.irqOut

/-- `acia6850_control_write`, with whether it is a master reset. -/
def controlWrite (value : Byte) (a : Acia6850) : Bool × Acia6850 :=
  if value &&& 0x03#8 = 0x03#8 then
    (true, updateIrq { a with
      control := value
      status := (a.status &&& (acia6850Dcd ||| acia6850Cts)) ||| acia6850Tdre
      rdr := 0 })
  else
    let frame := acia6850FrameFromWs ((value &&& 0x1C#8) >>> 2)
    (false, updateIrq { a with
      control := value
      framebits := frame.1
      bitmask := frame.2
      rtsLow := acia6850Tc value != 2#8 })

/-- `acia6850_read_data`. -/
def readData (a : Acia6850) : Byte × Acia6850 :=
  (a.rdr, updateIrq { a with status := a.status &&& ~~~acia6850Rdrf })

/-- `acia6850_write_data`. -/
def writeData (value : Byte) (a : Acia6850) : Acia6850 :=
  updateIrq { a with tdr := value &&& a.bitmask, status := a.status &&& ~~~acia6850Tdre }

/-- `acia6850_rx_byte`. -/
def rxByte (b : Byte) (a : Acia6850) : Acia6850 :=
  updateIrq { a with rdr := b &&& a.bitmask, status := a.status ||| acia6850Rdrf }

/-- `acia6850_tx_complete`. -/
def txComplete (a : Acia6850) : Acia6850 :=
  updateIrq { a with status := a.status ||| acia6850Tdre }

/-- `acia6850_set_dcd` and `acia6850_set_cts`, on the bit of the pin. -/
def setPin (bit : Byte) (active : Bool) (a : Acia6850) : Acia6850 :=
  { a with status := if active then a.status &&& ~~~bit else a.status ||| bit }

/-- What holds of the status and the line: bit 7 is the condition, and so is the last value
given. -/
structure Shown (a : Acia6850) : Prop where
  status : (a.status &&& acia6850Irq != 0#8) = a.requests
  line : a.irqOut = (a.status &&& acia6850Irq != 0#8)

theorem irq_bits (s : Byte) :
    (s ||| acia6850Irq) &&& acia6850Rdrf = s &&& acia6850Rdrf ∧
      (s ||| acia6850Irq) &&& acia6850Tdre = s &&& acia6850Tdre ∧
      (s ||| acia6850Irq) &&& acia6850Irq = acia6850Irq ∧
      (s &&& ~~~acia6850Irq) &&& acia6850Rdrf = s &&& acia6850Rdrf ∧
      (s &&& ~~~acia6850Irq) &&& acia6850Tdre = s &&& acia6850Tdre ∧
      (s &&& ~~~acia6850Irq) &&& acia6850Irq = 0#8 := by
  revert s
  decide

/-- The condition depends on the control register and two bits of the status. -/
theorem requests_congr {a b : Acia6850} (hcontrol : a.control = b.control)
    (hrdrf : a.status &&& acia6850Rdrf = b.status &&& acia6850Rdrf)
    (htdre : a.status &&& acia6850Tdre = b.status &&& acia6850Tdre) :
    a.requests = b.requests := by
  unfold requests
  rw [hcontrol, hrdrf, htdre]

theorem updateIrq_shown (a : Acia6850) : a.updateIrq.Shown := by
  obtain ⟨hset, hset', hbit, hclear, hclear', hnone⟩ := irq_bits a.status
  have hsame : a.updateIrq.requests = a.requests := by
    refine requests_congr rfl ?_ ?_ <;> unfold updateIrq <;> dsimp only <;> split_ifs
    · exact hset
    · exact hclear
    · exact hset'
    · exact hclear'
  have hirq : (a.updateIrq.status &&& acia6850Irq != 0#8) = a.requests := by
    unfold updateIrq
    dsimp only
    cases a.requests with
    | true =>
      rw [if_pos rfl, hbit]
      rfl
    | false =>
      rw [if_neg Bool.false_ne_true, hnone]
      rfl
  exact ⟨hirq.trans hsame.symm, hirq.symm⟩

theorem Shown.setPin {a : Acia6850} (h : a.Shown) {bit : Byte}
    (hbit : bit ∈ [acia6850Dcd, acia6850Cts]) (active : Bool) : (a.setPin bit active).Shown := by
  have hapart : ∀ bit ∈ [acia6850Dcd, acia6850Cts],
      ∀ mask ∈ [acia6850Rdrf, acia6850Tdre, acia6850Irq],
        ~~~bit &&& mask = mask ∧ bit &&& mask = 0#8 := by
    decide
  have hstatus : ∀ mask ∈ [acia6850Rdrf, acia6850Tdre, acia6850Irq],
      (a.setPin bit active).status &&& mask = a.status &&& mask := by
    intro mask hmask
    unfold Acia6850.setPin
    dsimp only
    obtain ⟨hcleared, hset⟩ := hapart bit hbit mask hmask
    split_ifs
    · rw [BitVec.and_assoc, hcleared]
    · rw [BitVec.and_or_distrib_right, hset, BitVec.or_zero]
  have hrequests : (a.setPin bit active).requests = a.requests :=
    requests_congr rfl (hstatus _ (by decide)) (hstatus _ (by decide))
  refine ⟨?_, ?_⟩
  · rw [hstatus _ (by decide), hrequests]
    exact h.status
  · rw [hstatus _ (by decide)]
    exact h.line

theorem controlWrite_shown (a : Acia6850) (value : Byte) : (a.controlWrite value).2.Shown := by
  unfold controlWrite
  dsimp only
  split_ifs
  · exact updateIrq_shown _
  · exact updateIrq_shown _

/-- A reset leaves no request, and the line as it was. -/
theorem reset_shown (a : Acia6850) : a.reset.Shown ↔ a.irqOut = false := by
  have hbit : (a.reset.status &&& acia6850Irq != 0#8) = false := by
    show ((acia6850Tdre ||| acia6850Dcd ||| acia6850Cts) &&& acia6850Irq != 0#8) = false
    decide
  have hnone : a.reset.requests = false := by
    simp [reset, requests, acia6850Tc]
  constructor
  · intro h
    exact h.line.trans hbit
  · intro h
    exact ⟨hbit.trans hnone.symm, (show a.reset.irqOut = false from h).trans hbit.symm⟩

/-- The pins do not touch the control register. -/
theorem setPin_irqOut (a : Acia6850) (bit : Byte) (active : Bool) :
    (a.setPin bit active).irqOut = a.irqOut := rfl

end Acia6850

/-! ## The DTL 2000 -/

/-- The pins of the PIA that peripherals drive. -/
inductive PiaPin
  | portA (v : Byte)
  | portB (v : Byte)
  | ca1 (level : Bool)
  | ca2 (level : Bool)
  | cb1 (level : Bool)
  | cb2 (level : Bool)

/-- `pia6821_set_port_a` to `pia6821_set_cb2`. -/
def Pia6821.drive : PiaPin → Pia6821 → Pia6821
  | .portA v, pia => { pia with a := { pia.a with input := v } }
  | .portB v, pia => { pia with b := { pia.b with input := v } }
  | .ca1 level, pia => { pia with a := pia.a.setC1 level }
  | .ca2 level, pia => { pia with a := pia.a.setC2 level }
  | .cb1 level, pia => { pia with b := pia.b.setC1 level }
  | .cb2 level, pia => { pia with b := pia.b.setC2 level }

/-- The PIA says what its two sides ask. -/
structure Pia6821.Shown (pia : Pia6821) : Prop where
  resolvedA : pia.a.Resolved
  toldA : pia.a.Told
  resolvedB : pia.b.Resolved
  toldB : pia.b.Told

/-- The cycles of a byte: a frame at the rate of the line. -/
def acia6850Reload (framebits : Byte) (baud : Nat) : Int :=
  let fb := if framebits = 0 then 10 else framebits.toNat
  max 1 (1000000 * fb / baud : Nat)

/-- `dtl2000_t`, with the bytes given to the `send` of the backend; of the backend it keeps whether
there is one. -/
structure Dtl2000 where
  baseAddr : BitVec 16
  pia : Pia6821
  acia : Acia6850
  lineConnected : Bool
  symmetric : Bool
  rxBaud : Nat
  txBaud : Nat
  rxCycles : Int
  rxReload : Int
  txCycles : Int
  txReload : Int
  txBusy : Bool
  txCount : BitVec 32
  rxCount : BitVec 32
  backend : Bool
  sent : List Byte

namespace Dtl2000

/-- `dtl_recalc_timing`. -/
def recalcTiming (d : Dtl2000) : Dtl2000 :=
  let tx := if d.symmetric then 1200 else 75
  { d with
    rxBaud := 1200
    txBaud := tx
    rxReload := acia6850Reload d.acia.framebits 1200
    txReload := acia6850Reload d.acia.framebits tx }

/-- `dtl_refresh_signals`; `connected` is the answer of the backend. -/
def refreshSignals (connected : Bool) (d : Dtl2000) : Dtl2000 :=
  let carrier := d.lineConnected && d.backend && connected
  { d with acia := (d.acia.setPin acia6850Dcd carrier).setPin acia6850Cts carrier }

/-- `dtl_pia_update_outputs`. -/
def piaUpdateOutputs (connected : Bool) (d : Dtl2000) : Dtl2000 :=
  let newConnected := d.pia.a.output &&& 0x04#8 == 0#8
  let newSymmetric := d.pia.a.output &&& 0x10#8 == 0#8
  let d :=
    if newSymmetric != d.symmetric then recalcTiming { d with symmetric := newSymmetric } else d
  refreshSignals connected { d with lineConnected := newConnected }

/-- `dtl_acia_control_write`. -/
def aciaControlWrite (connected : Bool) (value : Byte) (d : Dtl2000) : Dtl2000 :=
  let written := d.acia.controlWrite value
  let d := { d with acia := written.2 }
  if written.1 then
    refreshSignals connected { d with txBusy := false, txCycles := 0, rxCycles := 0 }
  else refreshSignals connected d.recalcTiming

/-- `dtl_acia_data_write`. -/
def aciaDataWrite (value : Byte) (d : Dtl2000) : Dtl2000 :=
  let d := { d with acia := d.acia.writeData value }
  let d :=
    if d.lineConnected && d.acia.rtsLow && d.backend then
      { d with sent := d.sent ++ [d.acia.tdr], txCount := d.txCount + 1 }
    else d
  { d with txBusy := true, txCycles := d.txReload }

/-- `dtl2000_reset`. -/
def reset (d : Dtl2000) : Dtl2000 :=
  recalcTiming { d with
    pia := d.pia.reset
    acia := d.acia.reset
    lineConnected := false
    symmetric := false
    txBusy := false
    txCycles := 0
    rxCycles := 0
    txCount := 0
    rxCount := 0 }

/-- `dtl2000_init`. -/
def init (baseAddr : BitVec 16) : Dtl2000 :=
  let side : PiaSide :=
    { ddr := 0, output := 0, input := 0, cr := 0, c1 := false, c2 := false, irq := false
      irqOut := false }
  reset
    { baseAddr := if baseAddr = 0 then 0x03F8 else baseAddr
      pia := { a := side, b := side }
      acia :=
        { control := 0, status := 0, rdr := 0, tdr := 0, framebits := 0, bitmask := 0
          rtsLow := false, irqOut := false }
      lineConnected := false, symmetric := false, rxBaud := 0, txBaud := 0, rxCycles := 0
      rxReload := 0, txCycles := 0, txReload := 0, txBusy := false, txCount := 0, rxCount := 0
      backend := false, sent := [] }

/-- `dtl2000_read`. -/
def read (addr : BitVec 16) (connected : Bool) (d : Dtl2000) : Byte × Dtl2000 :=
  let off := addr - d.baseAddr
  if off < 4 then
    let answer := d.pia.read (off.setWidth 2)
    (answer.1, { d with pia := answer.2 })
  else if off = 4 then
    let d := d.refreshSignals connected
    (d.acia.status, d)
  else if off = 5 then
    let answer := d.acia.readData
    (answer.1, refreshSignals connected { d with acia := answer.2 })
  else (0xFF, d)

/-- `dtl2000_write`. -/
def write (addr : BitVec 16) (value : Byte) (connected : Bool) (d : Dtl2000) : Dtl2000 :=
  let off := addr - d.baseAddr
  if off < 4 then
    let d := { d with pia := d.pia.write (off.setWidth 2) value }
    -- a write of ORA may move the line and the mode
    if off = 0 ∧ d.pia.a.cr &&& piaCrDdrSelect ≠ 0#8 then d.piaUpdateOutputs connected else d
  else if off = 4 then d.aciaControlWrite connected value
  else if off = 5 then d.aciaDataWrite value
  else d

/-- A byte is received on a closed line, once the last one is read. -/
def tickRx (received : Option Byte) (d : Dtl2000) : Dtl2000 :=
  match received with
  | none => d
  | some b =>
    if d.lineConnected && d.acia.status &&& acia6850Rdrf == 0#8 then
      { d with acia := d.acia.rxByte b, rxCount := d.rxCount + 1 }
    else d

/-- The transmitter is released once the byte has shifted out. -/
def tickTx (cycles : Int) (d : Dtl2000) : Dtl2000 :=
  if d.txBusy then
    let d := { d with txCycles := d.txCycles - cycles }
    if d.txCycles ≤ 0 then { d with txBusy := false, acia := d.acia.txComplete } else d
  else d

/-- `dtl2000_tick`; `received` is the byte that `poll` and `recv` would give. -/
def tick (cycles : Int) (received : Option Byte) (d : Dtl2000) : Dtl2000 :=
  if d.backend then
    let left := d.rxCycles - cycles
    let again := left + d.rxReload
    if left ≤ 0 then
      let d := { d with rxCycles := if again ≤ 0 then d.rxReload else again }
      (d.tickRx received).tickTx cycles
    else tickTx cycles { d with rxCycles := left }
  else d

/-- `dtl2000_set_backend`. -/
def setBackend (backend connected : Bool) (d : Dtl2000) : Dtl2000 :=
  refreshSignals connected { d with backend := backend }

/-- What is done to a card; the answers of the backend come with the operation. -/
inductive Op
  | read (addr : BitVec 16) (connected : Bool)
  | write (addr : BitVec 16) (value : Byte) (connected : Bool)
  | tick (cycles : Int) (received : Option Byte)
  | setBackend (backend connected : Bool)
  | pin (p : PiaPin)
  | dcd (active : Bool)
  | cts (active : Bool)
  | reset

def step (d : Dtl2000) : Op → Dtl2000
  | .read addr connected => (d.read addr connected).2
  | .write addr value connected => d.write addr value connected
  | .tick cycles received => d.tick cycles received
  | .setBackend backend connected => d.setBackend backend connected
  | .pin p => { d with pia := d.pia.drive p }
  | .dcd active => { d with acia := d.acia.setPin acia6850Dcd active }
  | .cts active => { d with acia := d.acia.setPin acia6850Cts active }
  | .reset => d.reset

/-- The status and the three lines are what the registers say. -/
def Lines (d : Dtl2000) : Prop :=
  d.acia.Shown ∧ d.pia.a.Told ∧ d.pia.b.Told

/-- No device of the card asks for an interrupt. -/
def Silent (d : Dtl2000) : Prop :=
  d.acia.requests = false ∧ piaIrqFromCr d.pia.a.cr = false ∧ piaIrqFromCr d.pia.b.cr = false

end Dtl2000

/-! ## The Mageco -/

/-- `mageco_t`; the ORICON is the variant with two more registers. -/
structure Mageco where
  baseAddr : BitVec 16
  oricon : Bool
  clkgen : Byte × Byte
  acia : Acia6850
  rxCycles : Int
  rxReload : Int
  txCycles : Int
  txReload : Int
  txBusy : Bool
  txCount : BitVec 32
  rxCount : BitVec 32
  backend : Bool
  sent : List Byte

namespace Mageco

/-- `mageco_recalc_timing`. -/
def recalcTiming (m : Mageco) : Mageco :=
  let reload := acia6850Reload m.acia.framebits 31250
  { m with rxReload := reload, txReload := reload }

/-- `mageco_acia_data_write`. -/
def aciaDataWrite (value : Byte) (m : Mageco) : Mageco :=
  let m := { m with acia := m.acia.writeData value }
  let m :=
    if m.backend then { m with sent := m.sent ++ [m.acia.tdr], txCount := m.txCount + 1 } else m
  { m with txBusy := true, txCycles := m.txReload }

/-- `mageco_reset`: the pins of the modem are held active. -/
def reset (m : Mageco) : Mageco :=
  recalcTiming { m with
    acia := (m.acia.reset.setPin acia6850Dcd true).setPin acia6850Cts true
    txBusy := false
    txCycles := 0
    rxCycles := 0
    txCount := 0
    rxCount := 0
    clkgen := (0, 0) }

/-- `mageco_init` and `mageco_init_oricon`. -/
def init (oricon : Bool) (baseAddr : BitVec 16) : Mageco :=
  reset
    { baseAddr := if baseAddr = 0 then (if oricon then 0x031C else 0x03FE) else baseAddr
      oricon := oricon
      clkgen := (0, 0)
      acia :=
        { control := 0, status := 0, rdr := 0, tdr := 0, framebits := 0, bitmask := 0
          rtsLow := false, irqOut := false }
      rxCycles := 0, rxReload := 0, txCycles := 0, txReload := 0, txBusy := false
      txCount := 0, rxCount := 0, backend := false, sent := [] }

/-- `mageco_read`. -/
def read (addr : BitVec 16) (m : Mageco) : Byte × Mageco :=
  let off := addr - m.baseAddr
  if off = 0 then (m.acia.status, m)
  else if off = 1 then (m.acia.readData.1, { m with acia := m.acia.readData.2 })
  else if off = 2 then (if m.oricon then m.clkgen.1 else 0xFF, m)
  else if off = 3 then (if m.oricon then m.clkgen.2 else 0xFF, m)
  else (0xFF, m)

/-- `mageco_write`. -/
def write (addr : BitVec 16) (value : Byte) (m : Mageco) : Mageco :=
  let off := addr - m.baseAddr
  if off = 0 then
    let written := m.acia.controlWrite value
    let m := { m with acia := written.2 }
    recalcTiming
      (if written.1 then { m with txBusy := false, txCycles := 0, rxCycles := 0 } else m)
  else if off = 1 then m.aciaDataWrite value
  else if off = 2 then if m.oricon then { m with clkgen := (value, m.clkgen.2) } else m
  else if off = 3 then if m.oricon then { m with clkgen := (m.clkgen.1, value) } else m
  else m

def tickRx (received : Option Byte) (m : Mageco) : Mageco :=
  match received with
  | none => m
  | some b =>
    if m.acia.status &&& acia6850Rdrf == 0#8 then
      { m with acia := m.acia.rxByte b, rxCount := m.rxCount + 1 }
    else m

def tickTx (cycles : Int) (m : Mageco) : Mageco :=
  if m.txBusy then
    let m := { m with txCycles := m.txCycles - cycles }
    if m.txCycles ≤ 0 then { m with txBusy := false, acia := m.acia.txComplete } else m
  else m

/-- `mageco_tick`. -/
def tick (cycles : Int) (received : Option Byte) (m : Mageco) : Mageco :=
  if m.backend then
    let left := m.rxCycles - cycles
    let again := left + m.rxReload
    if left ≤ 0 then
      let m := { m with rxCycles := if again ≤ 0 then m.rxReload else again }
      (m.tickRx received).tickTx cycles
    else tickTx cycles { m with rxCycles := left }
  else m

inductive Op
  | read (addr : BitVec 16)
  | write (addr : BitVec 16) (value : Byte)
  | tick (cycles : Int) (received : Option Byte)
  | setBackend (backend : Bool)
  | dcd (active : Bool)
  | cts (active : Bool)
  | reset

def step (m : Mageco) : Op → Mageco
  | .read addr => (m.read addr).2
  | .write addr value => m.write addr value
  | .tick cycles received => m.tick cycles received
  | .setBackend backend => { m with backend := backend }
  | .dcd active => { m with acia := m.acia.setPin acia6850Dcd active }
  | .cts active => { m with acia := m.acia.setPin acia6850Cts active }
  | .reset => m.reset

end Mageco

/-! ## The lines -/

namespace Pia6821

theorem Shown.read {pia : Pia6821} (h : pia.Shown) (rs : BitVec 2) : (pia.read rs).2.Shown := by
  have ha := PiaSide.readData_line h.resolvedA h.toldA true
  have hb := PiaSide.readData_line h.resolvedB h.toldB false
  unfold Pia6821.read
  split
  · exact ⟨ha.1, ha.2, h.resolvedB, h.toldB⟩
  · exact h
  · exact ⟨h.resolvedA, h.toldA, hb.1, hb.2⟩
  · exact h

theorem Shown.write {pia : Pia6821} (h : pia.Shown) (rs : BitVec 2) (value : Byte) :
    (pia.write rs value).Shown := by
  have ha := PiaSide.writeData_line h.resolvedA h.toldA false value
  have hac := PiaSide.writeControl_line h.resolvedA h.toldA value
  have hb := PiaSide.writeData_line h.resolvedB h.toldB true value
  have hbc := PiaSide.writeControl_line h.resolvedB h.toldB value
  unfold Pia6821.write
  split
  · exact ⟨ha.1, ha.2, h.resolvedB, h.toldB⟩
  · exact ⟨hac.1, hac.2, h.resolvedB, h.toldB⟩
  · exact ⟨h.resolvedA, h.toldA, hb.1, hb.2⟩
  · exact ⟨h.resolvedA, h.toldA, hbc.1, hbc.2⟩

theorem Shown.drive {pia : Pia6821} (h : pia.Shown) (p : PiaPin) : (pia.drive p).Shown := by
  cases p with
  | portA v => exact ⟨h.resolvedA, h.toldA, h.resolvedB, h.toldB⟩
  | portB v => exact ⟨h.resolvedA, h.toldA, h.resolvedB, h.toldB⟩
  | ca1 level =>
    have hside := PiaSide.setC1_line h.resolvedA h.toldA level
    exact ⟨hside.1, hside.2, h.resolvedB, h.toldB⟩
  | ca2 level =>
    have hside := PiaSide.setC2_line h.resolvedA h.toldA level
    exact ⟨hside.1, hside.2, h.resolvedB, h.toldB⟩
  | cb1 level =>
    have hside := PiaSide.setC1_line h.resolvedB h.toldB level
    exact ⟨h.resolvedA, h.toldA, hside.1, hside.2⟩
  | cb2 level =>
    have hside := PiaSide.setC2_line h.resolvedB h.toldB level
    exact ⟨h.resolvedA, h.toldA, hside.1, hside.2⟩

end Pia6821

namespace Acia6850

variable {a : Acia6850}

/-- Where the line is told, its value is the request. -/
theorem Shown.irqOut_eq (h : a.Shown) : a.irqOut = a.requests := h.line.trans h.status

theorem Shown.signals (h : a.Shown) (carrier : Bool) :
    ((a.setPin acia6850Dcd carrier).setPin acia6850Cts carrier).Shown :=
  (h.setPin (by decide) carrier).setPin (by decide) carrier

/-- The pins given after a reset change nothing to what it leaves. -/
theorem reset_signals_shown (a : Acia6850) (carrier : Bool) :
    ((a.reset.setPin acia6850Dcd carrier).setPin acia6850Cts carrier).Shown ↔
      a.irqOut = false := by
  constructor
  · intro h
    have hline := h.line
    rw [setPin_irqOut, setPin_irqOut] at hline
    refine hline.trans ?_
    show (((a.reset.setPin acia6850Dcd carrier).setPin acia6850Cts carrier).status &&&
      acia6850Irq != 0#8) = false
    cases carrier <;> simp [reset, setPin] <;> decide
  · intro h
    exact ((reset_shown a).mpr h).signals carrier

end Acia6850

namespace Dtl2000

variable {d : Dtl2000}

/-- The two devices of the card. -/
def Kept (d : Dtl2000) : Prop := d.acia.Shown ∧ d.pia.Shown

/-- The two interrupts of the PIA are what its control registers say. -/
def Resolved (d : Dtl2000) : Prop := d.pia.a.Resolved ∧ d.pia.b.Resolved

theorem refreshSignals_kept (h : d.Kept) (connected : Bool) : (d.refreshSignals connected).Kept :=
  ⟨h.1.signals _, h.2⟩

theorem piaUpdateOutputs_kept (h : d.Kept) (connected : Bool) :
    (d.piaUpdateOutputs connected).Kept := by
  unfold piaUpdateOutputs
  dsimp only
  split_ifs
  · exact refreshSignals_kept (by exact h) connected
  · exact refreshSignals_kept (by exact h) connected

theorem aciaControlWrite_kept (h : d.Kept) (connected : Bool) (value : Byte) :
    (d.aciaControlWrite connected value).Kept := by
  have hwritten := Acia6850.controlWrite_shown d.acia value
  unfold aciaControlWrite
  dsimp only
  split_ifs
  · exact refreshSignals_kept (by exact ⟨hwritten, h.2⟩) connected
  · exact refreshSignals_kept (by exact ⟨hwritten, h.2⟩) connected

theorem aciaDataWrite_kept (h : d.Kept) (value : Byte) : (d.aciaDataWrite value).Kept := by
  unfold aciaDataWrite
  dsimp only
  split_ifs
  · exact ⟨Acia6850.updateIrq_shown _, h.2⟩
  · exact ⟨Acia6850.updateIrq_shown _, h.2⟩

theorem read_kept (h : d.Kept) (addr : BitVec 16) (connected : Bool) :
    (d.read addr connected).2.Kept := by
  unfold read
  dsimp only
  split_ifs
  · exact ⟨h.1, h.2.read _⟩
  · exact refreshSignals_kept h connected
  · exact refreshSignals_kept (by exact ⟨Acia6850.updateIrq_shown _, h.2⟩) connected
  · exact h

theorem write_kept (h : d.Kept) (addr : BitVec 16) (value : Byte) (connected : Bool) :
    (d.write addr value connected).Kept := by
  unfold write
  dsimp only
  split_ifs
  · exact piaUpdateOutputs_kept (by exact ⟨h.1, h.2.write _ value⟩) connected
  · exact ⟨h.1, h.2.write _ value⟩
  · exact aciaControlWrite_kept h connected value
  · exact aciaDataWrite_kept h value
  · exact h

theorem tickTx_kept (h : d.Kept) (cycles : Int) : (d.tickTx cycles).Kept := by
  unfold tickTx
  dsimp only
  split_ifs
  · exact ⟨Acia6850.updateIrq_shown _, h.2⟩
  · exact h
  · exact h

theorem tickRx_kept (h : d.Kept) (received : Option Byte) : (d.tickRx received).Kept := by
  cases received with
  | none => exact h
  | some b =>
    unfold tickRx
    dsimp only
    split_ifs
    · exact ⟨Acia6850.updateIrq_shown _, h.2⟩
    · exact h

theorem tick_kept (h : d.Kept) (cycles : Int) (received : Option Byte) :
    (d.tick cycles received).Kept := by
  unfold tick
  dsimp only
  split_ifs
  · exact tickTx_kept (tickRx_kept (by exact h) received) cycles
  · exact tickTx_kept (tickRx_kept (by exact h) received) cycles
  · exact tickTx_kept (by exact h) cycles
  · exact h

/-- A reset is seen on the lines exactly where one was asserted. -/
theorem reset_lines (h : d.Kept) : d.reset.Lines ↔ d.Silent := by
  have ha := (PiaSide.reset_line d.pia.a).2
  have hb := (PiaSide.reset_line d.pia.b).2
  have hacia := Acia6850.reset_shown d.acia
  rw [h.2.toldA] at ha
  rw [h.2.toldB] at hb
  rw [h.1.irqOut_eq] at hacia
  exact and_congr hacia (and_congr ha hb)

theorem reset_kept (h : d.reset.Lines) : d.reset.Kept :=
  ⟨h.1, (PiaSide.reset_line d.pia.a).1, h.2.1, (PiaSide.reset_line d.pia.b).1, h.2.2⟩

theorem Kept.lines (h : d.Kept) : d.Lines := ⟨h.1, h.2.toldA, h.2.toldB⟩

/-- Every operation keeps the lines but a reset, which may leave one asserted. -/
theorem step_kept_or (h : d.Kept) (op : Op) : (d.step op).Kept ∨ op = .reset := by
  cases op with
  | read addr connected => exact Or.inl (read_kept h addr connected)
  | write addr value connected => exact Or.inl (write_kept h addr value connected)
  | tick cycles received => exact Or.inl (tick_kept h cycles received)
  | setBackend backend connected => exact Or.inl (refreshSignals_kept (by exact h) connected)
  | pin p => exact Or.inl ⟨h.1, h.2.drive p⟩
  | dcd active => exact Or.inl ⟨h.1.setPin (by decide) active, h.2⟩
  | cts active => exact Or.inl ⟨h.1.setPin (by decide) active, h.2⟩
  | reset => exact Or.inr rfl

theorem step_lines (h : d.Kept) (op : Op) : (d.step op).Lines ↔ (op = .reset → d.Silent) := by
  obtain hkept | rfl := step_kept_or h op
  · refine iff_of_true hkept.lines ?_
    rintro rfl
    exact (reset_lines h).mp hkept.lines
  · exact (reset_lines h).trans ⟨fun hsilent _ => hsilent, fun hsilent => hsilent rfl⟩

theorem step_resolved (h : d.Kept) (op : Op) : (d.step op).Resolved := by
  obtain hkept | rfl := step_kept_or h op
  · exact ⟨hkept.2.resolvedA, hkept.2.resolvedB⟩
  · exact ⟨(PiaSide.reset_line d.pia.a).1, (PiaSide.reset_line d.pia.b).1⟩

theorem init_kept (baseAddr : BitVec 16) : (init baseAddr).Kept :=
  reset_kept ⟨(Acia6850.reset_shown _).mpr rfl, (PiaSide.reset_line _).2.mpr rfl,
    (PiaSide.reset_line _).2.mpr rfl⟩

end Dtl2000

namespace Mageco

variable {m : Mageco}

theorem tickTx_shown (h : m.acia.Shown) (cycles : Int) : (m.tickTx cycles).acia.Shown := by
  unfold tickTx
  dsimp only
  split_ifs
  · exact Acia6850.updateIrq_shown _
  · exact h
  · exact h

theorem tickRx_shown (h : m.acia.Shown) (received : Option Byte) :
    (m.tickRx received).acia.Shown := by
  cases received with
  | none => exact h
  | some b =>
    unfold tickRx
    dsimp only
    split_ifs
    · exact Acia6850.updateIrq_shown _
    · exact h

theorem tick_shown (h : m.acia.Shown) (cycles : Int) (received : Option Byte) :
    (m.tick cycles received).acia.Shown := by
  unfold tick
  dsimp only
  split_ifs
  · exact tickTx_shown (tickRx_shown (by exact h) received) cycles
  · exact tickTx_shown (tickRx_shown (by exact h) received) cycles
  · exact tickTx_shown (by exact h) cycles
  · exact h

theorem read_shown (h : m.acia.Shown) (addr : BitVec 16) : (m.read addr).2.acia.Shown := by
  unfold read
  dsimp only
  split_ifs
  · exact h
  · exact Acia6850.updateIrq_shown _
  · exact h
  · exact h
  · exact h
  · exact h
  · exact h

theorem write_shown (h : m.acia.Shown) (addr : BitVec 16) (value : Byte) :
    (m.write addr value).acia.Shown := by
  unfold write
  dsimp only
  split_ifs
  · exact Acia6850.controlWrite_shown _ _
  · exact Acia6850.controlWrite_shown _ _
  · unfold aciaDataWrite
    dsimp only
    split_ifs
    · exact Acia6850.updateIrq_shown _
    · exact Acia6850.updateIrq_shown _
  · exact h
  · exact h
  · exact h
  · exact h
  · exact h

theorem step_shown (h : m.acia.Shown) (op : Op) :
    (m.step op).acia.Shown ↔ (op = .reset → m.acia.requests = false) := by
  have hkept : (m.step op).acia.Shown ∨ op = .reset := by
    cases op with
    | read addr => exact Or.inl (read_shown h addr)
    | write addr value => exact Or.inl (write_shown h addr value)
    | tick cycles received => exact Or.inl (tick_shown h cycles received)
    | setBackend backend => exact Or.inl h
    | dcd active => exact Or.inl (h.setPin (by decide) active)
    | cts active => exact Or.inl (h.setPin (by decide) active)
    | reset => exact Or.inr rfl
  have hreset : m.reset.acia.Shown ↔ m.acia.requests = false := by
    rw [← h.irqOut_eq]
    exact Acia6850.reset_signals_shown m.acia true
  obtain hkept | rfl := hkept
  · refine iff_of_true hkept ?_
    rintro rfl
    exact hreset.mp hkept
  · exact hreset.trans ⟨fun hsilent _ => hsilent, fun hsilent => hsilent rfl⟩

theorem init_shown (oricon : Bool) (baseAddr : BitVec 16) : (init oricon baseAddr).acia.Shown :=
  (Acia6850.reset_signals_shown _ true).mpr rfl

end Mageco

/-- The registers and the lines agree after every operation of a run exactly when each hardware
reset finds no interrupt asked for. -/
theorem irqLines_iff (baseAddr : BitVec 16) (ops : List Dtl2000.Op) (oricon : Bool)
    (magecoOps : List Mageco.Op) :
    (Machine.Throughout Dtl2000.step (fun d op => (d.step op).Lines) ops (Dtl2000.init baseAddr) ↔
      Machine.Throughout Dtl2000.step (fun d op => op = .reset → d.Silent) ops
        (Dtl2000.init baseAddr)) ∧
    (Machine.Throughout Mageco.step (fun m op => (m.step op).acia.Shown) magecoOps
        (Mageco.init oricon baseAddr) ↔
      Machine.Throughout Mageco.step (fun m op => op = .reset → m.acia.requests = false) magecoOps
        (Mageco.init oricon baseAddr)) := by
  constructor
  · have hkept : ∀ d : Dtl2000, d.Resolved → d.Lines → d.Kept :=
      fun d hr hl => ⟨hl.1, hr.1, hl.2.1, hr.2, hl.2.2⟩
    have hinit := Dtl2000.init_kept baseAddr
    exact Machine.Throughout.next_iff
      (fun d op hr hl => Dtl2000.step_resolved (hkept d hr hl) op)
      (fun d op hr hl => Dtl2000.step_lines (hkept d hr hl) op) ops
      ⟨hinit.2.resolvedA, hinit.2.resolvedB⟩ hinit.lines
  · have hinv : ∀ (m : Mageco) (op : Mageco.Op), True → m.acia.Shown → True :=
      fun _ _ _ _ => trivial
    exact Machine.Throughout.next_iff hinv (fun m op _ h => Mageco.step_shown h op) magecoOps
      trivial (Mageco.init_shown oricon baseAddr)

/-- The transmit interrupt is enabled with the transmitter empty, then the card is reset. -/
theorem irqLines_stuck :
    ¬ ∀ (baseAddr : BitVec 16) (ops : List Mageco.Op), Machine.Throughout Mageco.step
      (fun m op => (m.step op).acia.Shown) ops (Mageco.init false baseAddr) := by
  intro h
  have hreset := (h 0x03FE [.write 0x03FE 0x20, .reset]).2.1.line
  exact absurd hreset (by decide)

end Phosphoric
