import Phosphoric.Cpu.Legacy

/-!
# The micro-sequenced engine

`cpu_cycle` executes one cycle. The first cycle of an instruction fetches the opcode and builds
the plan, a list of micro-operations; each further cycle runs one of them.

The addressing mode of an opcode comes from `opcodeTable`, its class from the lists below.
-/

namespace Phosphoric

/-! ## Classes -/

inductive MsClass
  | implied | read | write | writeUnstable | rmw | branch | jmp | jmpInd | jsr | rts | rti
  | pushA | pushP | pullA | pullP | brk | jam
  deriving DecidableEq, Repr

/-- `ms_info_t`. -/
structure MsInfo where
  cls : MsClass
  rmw : CpuRmw
  deriving DecidableEq, Repr

def msReads : List Nat :=
  [0x09, 0x05, 0x15, 0x0D, 0x1D, 0x19, 0x01, 0x11, 0x29, 0x25, 0x35, 0x2D, 0x3D, 0x39, 0x21,
   0x31, 0x49, 0x45, 0x55, 0x4D, 0x5D, 0x59, 0x41, 0x51, 0x69, 0x65, 0x75, 0x6D, 0x7D, 0x79,
   0x61, 0x71, 0xE9, 0xEB, 0xE5, 0xF5, 0xED, 0xFD, 0xF9, 0xE1, 0xF1, 0xC9, 0xC5, 0xD5, 0xCD,
   0xDD, 0xD9, 0xC1, 0xD1, 0xE0, 0xE4, 0xEC, 0xC0, 0xC4, 0xCC, 0xA9, 0xA5, 0xB5, 0xAD, 0xBD,
   0xB9, 0xA1, 0xB1, 0xA2, 0xA6, 0xB6, 0xAE, 0xBE, 0xA0, 0xA4, 0xB4, 0xAC, 0xBC, 0x24, 0x2C,
   0xA7, 0xB7, 0xAF, 0xBF, 0xA3, 0xB3, 0x0B, 0x2B, 0x4B, 0x6B, 0x8B, 0xAB, 0xCB, 0xBB, 0x80,
   0x82, 0x89, 0xC2, 0xE2, 0x04, 0x44, 0x64, 0x14, 0x34, 0x54, 0x74, 0xD4, 0xF4, 0x0C, 0x1C,
   0x3C, 0x5C, 0x7C, 0xDC, 0xFC]

def msWrites : List Nat :=
  [0x85, 0x95, 0x8D, 0x9D, 0x99, 0x81, 0x91, 0x86, 0x96, 0x8E, 0x84, 0x94, 0x8C, 0x87, 0x97,
   0x8F, 0x83]

/-- On a page crossing the destination depends on the value. -/
def msUnstable : List Nat :=
  [0x93, 0x9B, 0x9C, 0x9E, 0x9F]

def msRmws : List (Nat × CpuRmw) :=
  [(0x06, .asl), (0x16, .asl), (0x0E, .asl), (0x1E, .asl), (0x46, .lsr), (0x56, .lsr),
   (0x4E, .lsr), (0x5E, .lsr), (0x26, .rol), (0x36, .rol), (0x2E, .rol), (0x3E, .rol),
   (0x66, .ror), (0x76, .ror), (0x6E, .ror), (0x7E, .ror), (0xE6, .inc), (0xF6, .inc),
   (0xEE, .inc), (0xFE, .inc), (0xC6, .dec), (0xD6, .dec), (0xCE, .dec), (0xDE, .dec),
   (0x07, .slo), (0x17, .slo), (0x0F, .slo), (0x1F, .slo), (0x1B, .slo), (0x03, .slo),
   (0x13, .slo), (0x27, .rla), (0x37, .rla), (0x2F, .rla), (0x3F, .rla), (0x3B, .rla),
   (0x23, .rla), (0x33, .rla), (0x47, .sre), (0x57, .sre), (0x4F, .sre), (0x5F, .sre),
   (0x5B, .sre), (0x43, .sre), (0x53, .sre), (0x67, .rra), (0x77, .rra), (0x6F, .rra),
   (0x7F, .rra), (0x7B, .rra), (0x63, .rra), (0x73, .rra), (0xC7, .dcp), (0xD7, .dcp),
   (0xCF, .dcp), (0xDF, .dcp), (0xDB, .dcp), (0xC3, .dcp), (0xD3, .dcp), (0xE7, .isc),
   (0xF7, .isc), (0xEF, .isc), (0xFF, .isc), (0xFB, .isc), (0xE3, .isc), (0xF3, .isc)]

def msBranches : List Nat :=
  [0x10, 0x30, 0x50, 0x70, 0x90, 0xB0, 0xD0, 0xF0]

def msJams : List Nat :=
  [0x02, 0x12, 0x22, 0x32, 0x42, 0x52, 0x62, 0x72, 0x92, 0xB2, 0xD2, 0xF2]

/-- The control and stack opcodes, set one by one. -/
def msControls : List (Nat × MsClass) :=
  [(0x4C, .jmp), (0x6C, .jmpInd), (0x20, .jsr), (0x60, .rts), (0x40, .rti), (0x00, .brk),
   (0x48, .pushA), (0x08, .pushP), (0x68, .pullA), (0x28, .pullP)]

/-- `ms_table`, as `ms_build_table` fills it: implied by default, each list overriding the ones
before it. -/
def msTable (op : Byte) : MsInfo :=
  let n := op.toNat
  let info : MsInfo := ⟨.implied, .asl⟩
  let info := bif msReads.any n.beq then ⟨.read, .asl⟩ else info
  let info := bif msWrites.any n.beq then ⟨.write, .asl⟩ else info
  let info := bif msUnstable.any n.beq then ⟨.writeUnstable, .asl⟩ else info
  let info := msRmws.foldl (fun info e => bif n.beq e.1 then ⟨.rmw, e.2⟩ else info) info
  let info := bif msBranches.any n.beq then ⟨.branch, .asl⟩ else info
  let info := msControls.foldl (fun info e => bif n.beq e.1 then ⟨e.2, .asl⟩ else info) info
  bif msJams.any n.beq then ⟨.jam, .asl⟩ else info

/-! ## Plans -/

/-- `plan_add`: the plan has room for ten micro-operations. -/
def planAdd (plan : List MicroOp) (mop : MicroOp) : List MicroOp :=
  if plan.length < 10 then plan ++ [mop] else plan

/-- The addressing phase. Writes always pay the dummy cycle of an indexing, reads only across a
page. -/
def planAddressing (mode : AddressingMode) (dummyAlways : Bool) : List MicroOp :=
  let fixup : MicroOp := if dummyAlways then .dummyUnfixed else .readFixup
  match mode with
  | .zeroPage => [.fetchLo]
  | .zeroPageX | .zeroPageY => [.fetchLo, .zpIndex]
  | .absolute => [.fetchLo, .fetchHi]
  | .absoluteX | .absoluteY => [.fetchLo, .fetchHi, fixup]
  | .indexedIndirect => [.fetchLo, .zpIndex, .ptrLo, .ptrHi]
  | .indirectIndexed => [.fetchLo, .ptrLo, .ptrHi, fixup]
  | _ => []

/-- The micro-operations of an instruction. -/
def msPlan (cls : MsClass) (mode : AddressingMode) : List MicroOp :=
  match cls with
  | .read =>
    if mode = .immediate then [.imm] else planAddressing mode false ++ [.readData]
  | .write | .writeUnstable => planAddressing mode true ++ [.writeData]
  | .rmw =>
    if mode = .accumulator then [.implied]
    else planAddressing mode true ++ [.readData, .rmwOrig, .rmwNew]
  | .branch => [.fetchLo, .branchTaken, .branchPage]
  | .jmp => [.fetchLo, .jmpHi]
  | .jmpInd => [.fetchLo, .fetchHi, .jmpIndLo, .jmpIndHi]
  | .jsr => [.fetchLo, .stackDummy, .pushPch, .pushPcl, .jsrHi]
  | .rts => [.dummyPc, .stackDummy, .pullPcl, .pullPch, .rtsFixup]
  | .rti => [.dummyPc, .stackDummy, .pullP, .pullPcl, .pullPch]
  | .pushA => [.dummyPc, .pushA]
  | .pushP => [.dummyPc, .pushPBrk]
  | .pullA => [.dummyPc, .stackDummy, .pullA]
  | .pullP => [.dummyPc, .stackDummy, .pullP]
  | .brk => [.brkSign, .pushPch, .pushPcl, .pushPBrk, .vecLo, .vecHi]
  | .jam => [.jam]
  | .implied => [.implied]

def msIndex (mode : AddressingMode) : MsIdx :=
  match mode with
  | .absoluteX | .zeroPageX | .indexedIndirect => .x
  | .absoluteY | .zeroPageY | .indirectIndexed => .y
  | _ => .none

def msBuildPlan (opcode : Byte) (ms : MsState) : MsState :=
  let info := msTable opcode
  let mode := (opcodeTable opcode).mode
  { ms with
    plan := (msPlan info.cls mode).foldl planAdd []
    pc := 0
    opcode := opcode
    rmw := info.rmw
    crossed := false
    idx := msIndex mode
    vector := if info.cls = .brk then 0xFFFE#16 else ms.vector }

/-- The hardware interrupt sequence; its first cycle is made by `cpuCycle`. -/
def msBuildInterrupt (vector : Word) (cpu : Cpu6502) : MsState :=
  { cpu.ms with
    plan := [.dummyPc, .pushPch, .pushPcl, .pushP, .vecLo, .vecHi].foldl planAdd []
    pc := 0
    opcode := 0x00#8
    crossed := false
    vector := vector
    base := cpu.pc }

/-! ## Routing to the shared operations -/

def msAluRead (op v : Byte) (cpu : CpuRegs) : CpuRegs :=
  match op.toNat with
  | 0x09 | 0x05 | 0x15 | 0x0D | 0x1D | 0x19 | 0x01 | 0x11 =>
    let cpu := { cpu with a := cpu.a ||| v }
    cpuUpdateNz cpu.a cpu
  | 0x29 | 0x25 | 0x35 | 0x2D | 0x3D | 0x39 | 0x21 | 0x31 =>
    let cpu := { cpu with a := cpu.a &&& v }
    cpuUpdateNz cpu.a cpu
  | 0x49 | 0x45 | 0x55 | 0x4D | 0x5D | 0x59 | 0x41 | 0x51 =>
    let cpu := { cpu with a := cpu.a ^^^ v }
    cpuUpdateNz cpu.a cpu
  | 0x69 | 0x65 | 0x75 | 0x6D | 0x7D | 0x79 | 0x61 | 0x71 => cpuOpAdc v cpu
  | 0xE9 | 0xEB | 0xE5 | 0xF5 | 0xED | 0xFD | 0xF9 | 0xE1 | 0xF1 => cpuOpSbc v cpu
  | 0xC9 | 0xC5 | 0xD5 | 0xCD | 0xDD | 0xD9 | 0xC1 | 0xD1 => cpuOpCmp cpu.a v cpu
  | 0xE0 | 0xE4 | 0xEC => cpuOpCmp cpu.x v cpu
  | 0xC0 | 0xC4 | 0xCC => cpuOpCmp cpu.y v cpu
  | 0xA9 | 0xA5 | 0xB5 | 0xAD | 0xBD | 0xB9 | 0xA1 | 0xB1 => cpuUpdateNz v { cpu with a := v }
  | 0xA2 | 0xA6 | 0xB6 | 0xAE | 0xBE => cpuUpdateNz v { cpu with x := v }
  | 0xA0 | 0xA4 | 0xB4 | 0xAC | 0xBC => cpuUpdateNz v { cpu with y := v }
  | 0x24 | 0x2C =>
    let cpu := cpuSetFlag cpu flagZero (cpu.a &&& v == 0#8)
    let cpu := cpuSetFlag cpu flagOverflow (v &&& 0x40#8 != 0#8)
    cpuSetFlag cpu flagNegative (v &&& 0x80#8 != 0#8)
  | 0xA7 | 0xB7 | 0xAF | 0xBF | 0xA3 | 0xB3 => cpuOpLax v cpu
  | 0x0B | 0x2B =>
    let cpu := { cpu with a := cpu.a &&& v }
    let cpu := cpuUpdateNz cpu.a cpu
    cpuSetFlag cpu flagCarry (cpu.a &&& 0x80#8 != 0#8)
  | 0x4B =>
    let cpu := { cpu with a := cpu.a &&& v }
    let cpu := cpuSetFlag cpu flagCarry (cpu.a &&& 0x01#8 != 0#8)
    let cpu := { cpu with a := cpu.a >>> 1 }
    cpuUpdateNz cpu.a cpu
  | 0x6B =>
    let t := cpu.a &&& v
    let c := if cpuGetFlag cpu flagCarry then 0x80#8 else 0#8
    let r := (t >>> 1) ||| c
    let cpu := cpuUpdateNz r cpu
    let cpu := cpuSetFlag cpu flagOverflow ((r ^^^ t) &&& 0x40#8 != 0#8)
    if cpuGetFlag cpu flagDecimal then
      let r := if (t &&& 0x0F#8).toNat + (t &&& 0x01#8).toNat > 0x05 then
          (r &&& 0xF0#8) ||| ((r + 0x06#8) &&& 0x0F#8)
        else r
      if (t &&& 0xF0#8).toNat + (t &&& 0x10#8).toNat > 0x50 then
        { cpuSetFlag cpu flagCarry true with a := r + 0x60#8 }
      else { cpuSetFlag cpu flagCarry false with a := r }
    else { cpuSetFlag cpu flagCarry (t &&& 0x80#8 != 0#8) with a := r }
  | 0x8B =>
    let cpu := { cpu with a := (cpu.a ||| 0xEE#8) &&& cpu.x &&& v }
    cpuUpdateNz cpu.a cpu
  | 0xAB =>
    let cpu := { cpu with a := (cpu.a ||| 0xEE#8) &&& v }
    let cpu := { cpu with x := cpu.a }
    cpuUpdateNz cpu.a cpu
  | 0xCB =>
    let tmp := cpu.a &&& cpu.x
    let cpu := cpuSetFlag cpu flagCarry (tmp ≥ v)
    let cpu := { cpu with x := tmp - v }
    cpuUpdateNz cpu.x cpu
  | 0xBB =>
    let r := v &&& cpu.sp
    cpuUpdateNz r { cpu with a := r, x := r, sp := r }
  | _ => cpu

def msStoreValue (op : Byte) (cpu : CpuRegs) : Byte :=
  match op.toNat with
  | 0x85 | 0x95 | 0x8D | 0x9D | 0x99 | 0x81 | 0x91 => cpu.a
  | 0x86 | 0x96 | 0x8E => cpu.x
  | 0x84 | 0x94 | 0x8C => cpu.y
  | 0x87 | 0x97 | 0x8F | 0x83 => cpu.a &&& cpu.x
  | _ => cpu.a

/-- The accumulator forms of the read-modify-write operations. -/
def msRmwA (op : CpuRmw) (cpu : CpuRegs) : CpuRegs :=
  let (a, cpu) := cpuRmwApply op cpu.a cpu
  { cpu with a := a }

def msImplied (op : Byte) (cpu : CpuRegs) : CpuRegs :=
  match op.toNat with
  | 0x18 => cpuSetFlag cpu flagCarry false
  | 0x38 => cpuSetFlag cpu flagCarry true
  | 0x58 => cpuSetFlag cpu flagInterrupt false
  | 0x78 => cpuSetFlag cpu flagInterrupt true
  | 0xB8 => cpuSetFlag cpu flagOverflow false
  | 0xD8 => cpuSetFlag cpu flagDecimal false
  | 0xF8 => cpuSetFlag cpu flagDecimal true
  | 0xAA => cpuUpdateNz cpu.a { cpu with x := cpu.a }
  | 0x8A => cpuUpdateNz cpu.x { cpu with a := cpu.x }
  | 0xA8 => cpuUpdateNz cpu.a { cpu with y := cpu.a }
  | 0x98 => cpuUpdateNz cpu.y { cpu with a := cpu.y }
  | 0xBA => cpuUpdateNz cpu.sp { cpu with x := cpu.sp }
  | 0x9A => { cpu with sp := cpu.x }
  | 0xE8 => cpuUpdateNz (cpu.x + 1#8) { cpu with x := cpu.x + 1#8 }
  | 0xCA => cpuUpdateNz (cpu.x - 1#8) { cpu with x := cpu.x - 1#8 }
  | 0xC8 => cpuUpdateNz (cpu.y + 1#8) { cpu with y := cpu.y + 1#8 }
  | 0x88 => cpuUpdateNz (cpu.y - 1#8) { cpu with y := cpu.y - 1#8 }
  | 0x0A => msRmwA .asl cpu
  | 0x4A => msRmwA .lsr cpu
  | 0x2A => msRmwA .rol cpu
  | 0x6A => msRmwA .ror cpu
  | _ => cpu

def msBranchTaken (op : Byte) (cpu : CpuRegs) : Bool :=
  match op.toNat with
  | 0x10 => !cpuGetFlag cpu flagNegative
  | 0x30 => cpuGetFlag cpu flagNegative
  | 0x50 => !cpuGetFlag cpu flagOverflow
  | 0x70 => cpuGetFlag cpu flagOverflow
  | 0x90 => !cpuGetFlag cpu flagCarry
  | 0xB0 => cpuGetFlag cpu flagCarry
  | 0xD0 => !cpuGetFlag cpu flagZero
  | 0xF0 => cpuGetFlag cpu flagZero
  | _ => false

/-! ## One cycle -/

def msApplyIndex (cpu : Cpu6502) : Cpu6502 :=
  let idx := match cpu.ms.idx with
    | .x => cpu.x
    | .y => cpu.y
    | .none => 0#8
  let addr := cpu.ms.addr + idx.setWidth 16
  { cpu with ms := { cpu.ms with
      base := cpu.ms.addr, addr := addr, crossed := pageCrossed cpu.ms.addr addr } }

/-- The indexed address before its high byte is corrected. -/
def msUnfixed (ms : MsState) : Word := (ms.base &&& 0xFF00#16) ||| (ms.addr &&& 0x00FF#16)

/-- An NMI falling before P is pushed takes over the sequence in progress. -/
def msNmiHijack (cpu : Cpu6502) : Cpu6502 :=
  if cpu.nmiPending && cpu.ms.vector != 0xFFFA#16 then
    { cpu with
      nmiPending := false
      ms := { cpu.ms with vector := 0xFFFA#16, nmiSampled := false } }
  else cpu

/-- The lines are sampled at the end of every cycle but the last of an instruction. -/
def msSampleInterrupts (lastCycle : Bool) (cpu : Cpu6502) : Cpu6502 :=
  if lastCycle then cpu
  else { cpu with ms := { cpu.ms with
      nmiSampled := cpu.nmiPending
      irqSampled := (cpu.irq != 0#8 || cpu.irqPulse != 0#8) &&
        !cpuGetFlag cpu.toCpuRegs flagInterrupt } }

/-- How a case of the switch of `cpu_cycle` ends: by `break`, by returning `true`, or by going on
with the next micro-operation in the same cycle. -/
inductive MsFlow
  | next | done | chain
  deriving DecidableEq

/-- Set P from a pulled byte. -/
def msPullP (cpu : Cpu6502) : Cpu6502 :=
  let (p, cpu) := cpuPull cpu
  { cpu with p := (p &&& ~~~flagBreak) ||| flagUnused }

/-- Load PC with the second byte of the vector. -/
def msVecHi (cpu : Cpu6502) : Cpu6502 :=
  let (b, cpu) := cpuMemRead (cpu.ms.vector + 1#16) cpu
  { cpu with pc := Word.mk b cpu.ms.adl }

/-- The register an unstable store starts from; SHS also moves it to SP. -/
def msUnstableReg (op : Byte) (cpu : CpuRegs) : Byte × CpuRegs :=
  if op == 0x9C#8 then (cpu.y, cpu)
  else if op == 0x9E#8 then (cpu.x, cpu)
  else if op == 0x9B#8 then (cpu.a &&& cpu.x, { cpu with sp := cpu.a &&& cpu.x })
  else (cpu.a &&& cpu.x, cpu)

/-- The switch of `cpu_cycle`. -/
def msMicroOp (mop : MicroOp) (cpu : Cpu6502) : MsFlow × Cpu6502 :=
  let op := cpu.ms.opcode
  match mop with
  | .fetchLo =>
    let (b, cpu) := cpuFetchByte cpu
    let cpu := { cpu with ms := { cpu.ms with
      ptr := b, adl := b, addr := b.setWidth 16, base := b.setWidth 16 } }
    -- a branch not taken ends here
    if (msTable op).cls = .branch && !msBranchTaken op cpu.toCpuRegs then (.done, cpu)
    else (.next, cpu)
  | .fetchHi =>
    let (b, cpu) := cpuFetchByte cpu
    (.next, msApplyIndex { cpu with ms := { cpu.ms with addr := Word.mk b cpu.ms.adl } })
  | .zpIndex =>
    let (_, cpu) := cpuMemRead (cpu.ms.ptr.setWidth 16) cpu
    let ptr := cpu.ms.ptr + (if cpu.ms.idx = .x then cpu.x else cpu.y)
    (.next, { cpu with ms := { cpu.ms with
      ptr := ptr, addr := ptr.setWidth 16, base := ptr.setWidth 16, crossed := false } })
  | .ptrLo =>
    let (b, cpu) := cpuMemRead (cpu.ms.ptr.setWidth 16) cpu
    (.next, { cpu with ms := { cpu.ms with adl := b } })
  | .ptrHi =>
    let (b, cpu) := cpuMemRead ((cpu.ms.ptr + 1#8).setWidth 16) cpu
    let addr := Word.mk b cpu.ms.adl
    let cpu := { cpu with ms := { cpu.ms with addr := addr } }
    if cpu.ms.idx = .y then (.next, msApplyIndex cpu)
    else (.next, { cpu with ms := { cpu.ms with base := addr, crossed := false } })
  | .dummyUnfixed => (.next, (cpuMemRead (msUnfixed cpu.ms) cpu).2)
  | .readFixup =>
    -- the cycle exists only if the page was crossed
    if cpu.ms.crossed then (.next, (cpuMemRead (msUnfixed cpu.ms) cpu).2) else (.chain, cpu)
  | .readData =>
    let (b, cpu) := cpuMemRead cpu.ms.addr cpu
    let cpu := { cpu with ms := { cpu.ms with data := b } }
    if (msTable op).cls = .read then
      (.next, { cpu with toCpuRegs := msAluRead op b cpu.toCpuRegs })
    else (.next, cpu)
  | .writeData =>
    if (msTable op).cls = .writeUnstable then
      let (reg, regs) := msUnstableReg op cpu.toCpuRegs
      let (value, target) := cpuShUnstable cpu.ms.base cpu.ms.addr reg
      (.next, cpuMemWrite target value { cpu with toCpuRegs := regs })
    else (.next, cpuMemWrite cpu.ms.addr (msStoreValue op cpu.toCpuRegs) cpu)
  | .rmwOrig => (.next, cpuMemWrite cpu.ms.addr cpu.ms.data cpu)
  | .rmwNew =>
    let (v, regs) := cpuRmwApply cpu.ms.rmw cpu.ms.data cpu.toCpuRegs
    let cpu := { cpu with toCpuRegs := regs, ms := { cpu.ms with data := v } }
    (.next, cpuMemWrite cpu.ms.addr v cpu)
  | .imm =>
    let (b, cpu) := cpuFetchByte cpu
    (.next, { cpu with
      toCpuRegs := msAluRead op b cpu.toCpuRegs, ms := { cpu.ms with data := b } })
  | .implied =>
    let (_, cpu) := cpuMemRead cpu.pc cpu
    (.next, { cpu with toCpuRegs := msImplied op cpu.toCpuRegs })
  | .branchTaken =>
    let (_, cpu) := cpuMemRead cpu.pc cpu
    let target := cpu.pc + cpu.ms.ptr.signExtend 16
    let crossed := pageCrossed cpu.pc target
    let cpu := { cpu with
      pc := (cpu.pc &&& 0xFF00#16) ||| (target &&& 0x00FF#16)
      ms := { cpu.ms with crossed := crossed, base := cpu.pc, addr := target } }
    (if crossed then .next else .done, cpu)
  | .branchPage =>
    let (_, cpu) := cpuMemRead cpu.pc cpu
    (.next, { cpu with pc := cpu.ms.addr })
  | .jmpHi | .jsrHi =>
    let (b, cpu) := cpuFetchByte cpu
    (.next, { cpu with pc := Word.mk b cpu.ms.adl })
  | .jmpIndLo =>
    let (b, cpu) := cpuMemRead cpu.ms.addr cpu
    (.next, { cpu with ms := { cpu.ms with data := b } })
  | .jmpIndHi =>
    let hiAddr := (cpu.ms.addr &&& 0xFF00#16) ||| ((cpu.ms.addr + 1#16) &&& 0x00FF#16)
    let (b, cpu) := cpuMemRead hiAddr cpu
    (.next, { cpu with pc := Word.mk b cpu.ms.data })
  | .dummyPc => (.next, (cpuMemRead cpu.pc cpu).2)
  | .brkSign => (.next, (cpuFetchByte cpu).2)
  | .stackDummy => (.next, (cpuMemRead (stackAddr cpu.sp) cpu).2)
  | .pushPch => (.next, cpuPush (Word.hi cpu.pc) cpu)
  | .pushPcl => (.next, cpuPush (Word.lo cpu.pc) cpu)
  | .pushP =>
    let cpu := cpuPush ((cpu.p &&& ~~~flagBreak) ||| flagUnused) cpu
    (.next, msNmiHijack
      { cpu with toCpuRegs := cpuSetFlag cpu.toCpuRegs flagInterrupt true })
  | .pushPBrk =>
    let cpu := cpuPush (cpu.p ||| flagBreak ||| flagUnused) cpu
    -- BRK, not PHP
    if op == 0x00#8 then
      (.next, msNmiHijack
        { cpu with toCpuRegs := cpuSetFlag cpu.toCpuRegs flagInterrupt true })
    else (.next, cpu)
  | .pushA => (.next, cpuPush cpu.a cpu)
  | .pullA =>
    let (v, cpu) := cpuPull cpu
    (.next, { cpu with toCpuRegs := cpuUpdateNz v { cpu.toCpuRegs with a := v } })
  | .pullP => (.next, msPullP cpu)
  | .pullPcl =>
    let (b, cpu) := cpuPull cpu
    (.next, { cpu with ms := { cpu.ms with adl := b } })
  | .pullPch =>
    let (b, cpu) := cpuPull cpu
    (.next, { cpu with pc := Word.mk b cpu.ms.adl })
  | .rtsFixup =>
    let (_, cpu) := cpuMemRead cpu.pc cpu
    (.next, { cpu with pc := cpu.pc + 1#16 })
  | .vecLo =>
    let (b, cpu) := cpuMemRead cpu.ms.vector cpu
    (.next, { cpu with ms := { cpu.ms with adl := b } })
  | .vecHi =>
    let cpu := msVecHi cpu
    (.next, if op != 0x00#8 then cpuIrqTraceEntry cpu else cpu)
  | .jam => (.done, { cpu with halted := true })

/-- The end of a cycle whose case ends by `break`. -/
def msEndCycle (cpu : Cpu6502) : Bool × Cpu6502 :=
  let pc := cpu.ms.pc + 1
  let last := decide (cpu.ms.plan.length ≤ pc)
  (last, msSampleInterrupts last { cpu with ms := { cpu.ms with
    pc := pc, active := if last then false else cpu.ms.active } })

/-- A cycle inside a sequence, `rest` being what is left of the plan. A chained micro-operation
calls `cpu_cycle` again, which finds the sequence still active. -/
def msRunCycle : List MicroOp → Cpu6502 → Bool × Cpu6502
  | [], cpu => msEndCycle cpu
  | mop :: rest, cpu =>
    match msMicroOp mop cpu with
    | (.next, cpu) => msEndCycle cpu
    | (.done, cpu) =>
      (true, msSampleInterrupts true { cpu with ms := { cpu.ms with active := false } })
    | (.chain, cpu) => msRunCycle rest { cpu with ms := { cpu.ms with pc := cpu.ms.pc + 1 } }

/-- The first cycle of a hardware interrupt sequence. -/
def msStartInterrupt (vector : Word) (cpu : Cpu6502) : Bool × Cpu6502 :=
  let cpu := { cpu with ms := msBuildInterrupt vector cpu }
  let (_, cpu) := cpuMemRead cpu.pc cpu
  (false, msSampleInterrupts false { cpu with ms := { cpu.ms with active := true } })

/-- The first cycle of an instruction. -/
def msStartInstruction (cpu : Cpu6502) : Bool × Cpu6502 :=
  let (opcode, cpu) := cpuFetchByte cpu
  let cpu := { cpu with ms := { msBuildPlan opcode cpu.ms with active := true } }
  (false, msSampleInterrupts false cpu)

/-- One cycle; `true` if it was the last one of the instruction. -/
def cpuCycle (cpu : Cpu6502) : Bool × Cpu6502 :=
  if cpu.halted then (true, cpu)
  else if !cpu.ms.active then
    if cpu.ms.nmiSampled && cpu.nmiPending then
      msStartInterrupt 0xFFFA#16
        { cpu with nmiPending := false, ms := { cpu.ms with nmiSampled := false } }
    else if cpu.ms.irqSampled then
      msStartInterrupt 0xFFFE#16
        { cpu with
          irqPulse := if cpu.irqPulse != 0#8 then cpu.irqPulse - 1#8 else cpu.irqPulse
          ms := { cpu.ms with irqSampled := false } }
    else msStartInstruction cpu
  else msRunCycle (cpu.ms.plan.drop cpu.ms.pc) cpu

/-- Repeat `cpu_cycle` until it returns `true`, for at most `fuel` cycles. -/
def cpuCycleUntilDone : Nat → Cpu6502 → Option Cpu6502
  | 0, _ => none
  | fuel + 1, cpu =>
    match cpuCycle cpu with
    | (true, cpu) => some cpu
    | (false, cpu) => cpuCycleUntilDone fuel cpu

end Phosphoric
