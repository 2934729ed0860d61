import Phosphoric.Lib.Word

/-!
# The 6502: state, bus accesses, shared semantics

What both engines of `src/cpu/` are built on: the registers and flags, the bus accessors of
`addressing.c`, and the operations of `opcodes.c` that compute without touching the bus
(`cpuOpAdc`, `cpuOpSbc`, `cpuOpCmp`, `cpuRmwApply`, `cpuShUnstable`, …).

Memory is a flat 64 KB RAM. The callbacks `on_bus` and `on_cycle` are a log of their calls.
-/

namespace Phosphoric

/-! ## State -/

/-- The registers the shared operations work on. -/
@[ext] structure CpuRegs where
  a : Byte
  x : Byte
  y : Byte
  sp : Byte
  p : Byte
  deriving DecidableEq, Repr

/-- `cpu_rmw_t`. -/
inductive CpuRmw
  | asl | lsr | rol | ror | inc | dec | slo | rla | sre | rra | dcp | isc
  deriving DecidableEq, Repr

/-- The micro-operations, one per cycle. -/
inductive MicroOp
  | fetchLo | fetchHi | dummyPc | zpIndex | ptrLo | ptrHi | dummyUnfixed | readFixup | readData
  | writeData | rmwOrig | rmwNew | implied | imm | branchTaken | branchPage | jmpHi | jmpIndLo
  | jmpIndHi | stackDummy | pushPch | pushPcl | pushP | pushPBrk | pushA | pullPcl | pullPch
  | pullP | pullA | rtsFixup | jsrHi | brkSign | vecLo | vecHi | jam
  deriving DecidableEq, Repr

/-- `ms_idx`. -/
inductive MsIdx
  | none | x | y
  deriving DecidableEq, Repr

/-- The micro-sequencer: the `ms_` fields, and the static `ms_vector`. -/
structure MsState where
  active : Bool
  opcode : Byte
  pc : Nat
  plan : List MicroOp
  rmw : CpuRmw
  idx : MsIdx
  ptr : Byte
  adl : Byte
  data : Byte
  addr : Word
  base : Word
  crossed : Bool
  nmiSampled : Bool
  irqSampled : Bool
  vector : Word

/-- A call of `on_bus` or of `on_cycle`. -/
inductive CpuEvent
  | read (addr : Word) (value : Byte)
  | write (addr : Word) (value : Byte)
  | tick (cycles : Nat)
  deriving DecidableEq, Repr

/-- `cpu6502_t` over a flat memory. -/
structure Cpu6502 extends CpuRegs where
  pc : Word
  cycles : Nat
  halted : Bool
  nmiPending : Bool
  irq : Byte
  irqPulse : Byte
  memory : Word → Byte
  irqTraceFp : Bool
  irqTraceCount : Nat
  events : List CpuEvent
  ms : MsState

/-- `cpu_init` over a memory. -/
def cpuInit (memory : Word → Byte) : Cpu6502 where
  a := 0#8
  x := 0#8
  y := 0#8
  sp := 0#8
  p := 0x24#8
  pc := 0#16
  cycles := 0
  halted := false
  nmiPending := false
  irq := 0#8
  irqPulse := 0#8
  memory := memory
  irqTraceFp := false
  irqTraceCount := 0
  events := []
  ms := {
    active := false
    opcode := 0#8
    pc := 0
    plan := []
    rmw := .asl
    idx := .none
    ptr := 0#8
    adl := 0#8
    data := 0#8
    addr := 0#16
    base := 0#16
    crossed := false
    nmiSampled := false
    irqSampled := false
    vector := 0#16 }

/-! Status flags. -/

abbrev flagCarry : Byte := 0x01#8
abbrev flagZero : Byte := 0x02#8
abbrev flagInterrupt : Byte := 0x04#8
abbrev flagDecimal : Byte := 0x08#8
abbrev flagBreak : Byte := 0x10#8
abbrev flagUnused : Byte := 0x20#8
abbrev flagOverflow : Byte := 0x40#8
abbrev flagNegative : Byte := 0x80#8

def cpuSetFlag (cpu : CpuRegs) (flag : Byte) (value : Bool) : CpuRegs :=
  { cpu with p := if value then cpu.p ||| flag else cpu.p &&& ~~~flag }

def cpuGetFlag (cpu : CpuRegs) (flag : Byte) : Bool := cpu.p &&& flag != 0#8

/-! ## Bus accesses -/

def cpuTick (cycles : Nat) (cpu : Cpu6502) : Cpu6502 :=
  { cpu with cycles := cpu.cycles + cycles, events := cpu.events ++ [.tick cycles] }

def cpuMemRead (addr : Word) (cpu : Cpu6502) : Byte × Cpu6502 :=
  let v := cpu.memory addr
  (v, cpuTick 1 { cpu with events := cpu.events ++ [.read addr v] })

def cpuMemWrite (addr : Word) (val : Byte) (cpu : Cpu6502) : Cpu6502 :=
  cpuTick 1 { cpu with
    memory := Function.update cpu.memory addr val, events := cpu.events ++ [.write addr val] }

def cpuFetchByte (cpu : Cpu6502) : Byte × Cpu6502 :=
  cpuMemRead cpu.pc { cpu with pc := cpu.pc + 1#16 }

/-- The address of a stack slot: `0x0100 + SP`. -/
def stackAddr (sp : Byte) : Word := 0x0100#16 + sp.setWidth 16

def cpuPush (val : Byte) (cpu : Cpu6502) : Cpu6502 :=
  let cpu := cpuMemWrite (stackAddr cpu.sp) val cpu
  { cpu with sp := cpu.sp - 1#8 }

def cpuPull (cpu : Cpu6502) : Byte × Cpu6502 :=
  let cpu := { cpu with sp := cpu.sp + 1#8 }
  cpuMemRead (stackAddr cpu.sp) cpu

def cpuPushWord (val : Word) (cpu : Cpu6502) : Cpu6502 :=
  cpuPush (Word.lo val) (cpuPush (Word.hi val) cpu)

def cpuPullWord (cpu : Cpu6502) : Word × Cpu6502 :=
  let (lo, cpu) := cpuPull cpu
  let (hi, cpu) := cpuPull cpu
  (Word.mk hi lo, cpu)

/-- The trace line of an interrupt entry; only the count of them is kept. -/
def cpuIrqTraceEntry (cpu : Cpu6502) : Cpu6502 :=
  if cpu.irqTraceFp then { cpu with irqTraceCount := cpu.irqTraceCount + 1 } else cpu

/-! ## Operations without bus access -/

def cpuUpdateNz (val : Byte) (cpu : CpuRegs) : CpuRegs :=
  let cpu := cpuSetFlag cpu flagZero (val == 0#8)
  cpuSetFlag cpu flagNegative (val &&& 0x80#8 != 0#8)

/-- ADC in decimal mode: Z comes from the binary sum, N and V from the sum with the low nibble
corrected, C from the correction of the high one. -/
def cpuAdcDecimal (val : Byte) (cpu : CpuRegs) : CpuRegs :=
  let carryIn : Word := if cpuGetFlag cpu flagCarry then 1#16 else 0#16
  let lo : Word := (cpu.a &&& 0x0F#8).setWidth 16 + (val &&& 0x0F#8).setWidth 16 + carryIn
  let hi : Word := (cpu.a &&& 0xF0#8).setWidth 16 + (val &&& 0xF0#8).setWidth 16
  let (lo, hi) := if lo > 0x09#16 then (lo + 0x06#16, hi + 0x10#16) else (lo, hi)
  let bin : Word := cpu.a.setWidth 16 + val.setWidth 16 + carryIn
  let a : Word := cpu.a.setWidth 16
  let cpu := cpuSetFlag cpu flagZero (Word.lo bin == 0#8)
  let cpu := cpuSetFlag cpu flagNegative (hi &&& 0x80#16 != 0#16)
  let cpu := cpuSetFlag cpu flagOverflow
    (~~~(a ^^^ val.setWidth 16) &&& (a ^^^ hi) &&& 0x80#16 != 0#16)
  let hi := if hi > 0x90#16 then hi + 0x60#16 else hi
  let cpu := cpuSetFlag cpu flagCarry (hi &&& 0xFF00#16 != 0#16)
  { cpu with a := Word.lo ((hi &&& 0xF0#16) ||| (lo &&& 0x0F#16)) }

def cpuOpAdc (val : Byte) (cpu : CpuRegs) : CpuRegs :=
  if cpuGetFlag cpu flagDecimal then cpuAdcDecimal val cpu
  else
    let sum : Word := cpu.a.setWidth 16 + val.setWidth 16 +
      (if cpuGetFlag cpu flagCarry then 1#16 else 0#16)
    let a := cpu.a
    let cpu := cpuSetFlag cpu flagCarry (sum > 0xFF#16)
    let cpu := cpuSetFlag cpu flagOverflow
      (~~~(a ^^^ val) &&& (a ^^^ Word.lo sum) &&& 0x80#8 != 0#8)
    cpuUpdateNz (Word.lo sum) { cpu with a := Word.lo sum }

/-- SBC in decimal mode: only the value is adjusted, the flags are those of the binary
subtraction. The `int16_t` intermediate results stay within ±512. -/
def cpuSbcDecimal (val : Byte) (cpu : CpuRegs) : CpuRegs :=
  let borrow : Nat := if cpuGetFlag cpu flagCarry then 0 else 1
  let bin : Word := cpu.a.setWidth 16 - val.setWidth 16 - BitVec.ofNat 16 borrow
  let lo : Int := (cpu.a &&& 0x0F#8).toNat - (val &&& 0x0F#8).toNat - borrow
  let hi : Int := (cpu.a &&& 0xF0#8).toNat - (val &&& 0xF0#8).toNat
  let (lo, hi) := if lo < 0 then (lo - 0x06, hi - 0x10) else (lo, hi)
  let sum : Int := hi + lo % 16
  let sum := if sum < 0 then sum - 0x60 else sum
  let a := cpu.a
  let cpu := cpuSetFlag cpu flagCarry (bin < 0x100#16)
  let cpu := cpuSetFlag cpu flagOverflow ((a ^^^ val) &&& (a ^^^ Word.lo bin) &&& 0x80#8 != 0#8)
  let cpu := { cpu with a := BitVec.ofInt 8 sum }
  let cpu := cpuSetFlag cpu flagNegative (bin &&& 0x80#16 != 0#16)
  cpuSetFlag cpu flagZero (Word.lo bin == 0#8)

def cpuOpSbc (val : Byte) (cpu : CpuRegs) : CpuRegs :=
  if cpuGetFlag cpu flagDecimal then cpuSbcDecimal val cpu
  else
    let diff : Word := cpu.a.setWidth 16 - val.setWidth 16 -
      (if cpuGetFlag cpu flagCarry then 0#16 else 1#16)
    let a := cpu.a
    let cpu := cpuSetFlag cpu flagCarry (diff < 0x100#16)
    let cpu := cpuSetFlag cpu flagOverflow
      ((a ^^^ val) &&& (a ^^^ Word.lo diff) &&& 0x80#8 != 0#8)
    cpuUpdateNz (Word.lo diff) { cpu with a := Word.lo diff }

def cpuOpCmp (reg val : Byte) (cpu : CpuRegs) : CpuRegs :=
  let diff : Word := reg.setWidth 16 - val.setWidth 16
  cpuUpdateNz (Word.lo diff) (cpuSetFlag cpu flagCarry (reg ≥ val))

def cpuOpLax (v : Byte) (cpu : CpuRegs) : CpuRegs :=
  cpuUpdateNz v { cpu with a := v, x := v }

/-- The byte an unstable store writes, and where. -/
def cpuShUnstable (base addr : Word) (reg : Byte) : Byte × Word :=
  let value := reg &&& (Word.hi base + 1#8)
  let crossed := base &&& 0xFF00#16 != addr &&& 0xFF00#16
  (value, if crossed then Word.mk value (Word.lo addr) else addr)

/-- A read-modify-write operation on the byte read: the byte to write back. -/
def cpuRmwApply (op : CpuRmw) (v : Byte) (cpu : CpuRegs) : Byte × CpuRegs :=
  let cIn : Byte := if cpuGetFlag cpu flagCarry then 1#8 else 0#8
  match op with
  | .asl =>
    let cpu := cpuSetFlag cpu flagCarry (v &&& 0x80#8 != 0#8)
    let v := v <<< 1
    (v, cpuUpdateNz v cpu)
  | .lsr =>
    let cpu := cpuSetFlag cpu flagCarry (v &&& 0x01#8 != 0#8)
    let v := v >>> 1
    (v, cpuUpdateNz v cpu)
  | .rol =>
    let cpu := cpuSetFlag cpu flagCarry (v &&& 0x80#8 != 0#8)
    let v := (v <<< 1) ||| cIn
    (v, cpuUpdateNz v cpu)
  | .ror =>
    let cpu := cpuSetFlag cpu flagCarry (v &&& 0x01#8 != 0#8)
    let v := (v >>> 1) ||| (if cIn != 0#8 then 0x80#8 else 0#8)
    (v, cpuUpdateNz v cpu)
  | .inc =>
    let v := v + 1#8
    (v, cpuUpdateNz v cpu)
  | .dec =>
    let v := v - 1#8
    (v, cpuUpdateNz v cpu)
  | .slo =>
    let cpu := cpuSetFlag cpu flagCarry (v &&& 0x80#8 != 0#8)
    let v := v <<< 1
    (v, cpuUpdateNz (cpu.a ||| v) { cpu with a := cpu.a ||| v })
  | .rla =>
    let cpu := cpuSetFlag cpu flagCarry (v &&& 0x80#8 != 0#8)
    let v := (v <<< 1) ||| cIn
    (v, cpuUpdateNz (cpu.a &&& v) { cpu with a := cpu.a &&& v })
  | .sre =>
    let cpu := cpuSetFlag cpu flagCarry (v &&& 0x01#8 != 0#8)
    let v := v >>> 1
    (v, cpuUpdateNz (cpu.a ^^^ v) { cpu with a := cpu.a ^^^ v })
  | .rra =>
    let cpu := cpuSetFlag cpu flagCarry (v &&& 0x01#8 != 0#8)
    let v := (v >>> 1) ||| (if cIn != 0#8 then 0x80#8 else 0#8)
    (v, cpuOpAdc v cpu)
  | .dcp =>
    let v := v - 1#8
    (v, cpuOpCmp cpu.a v cpu)
  | .isc =>
    let v := v + 1#8
    (v, cpuOpSbc v cpu)

end Phosphoric
