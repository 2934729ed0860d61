import Phosphoric.Cpu.Core

/-!
# The legacy engine

`cpu_execute_opcode` runs an instruction in one block: it makes the instruction's own bus
accesses and returns the official cycle count, up to which `cpu_step` then pads the clock.

The cases of its switch are instances of a few forms (read an operand and fold it, store,
read-modify-write, implied), each written once here.
-/

namespace Phosphoric

/-! ## Addressing -/

inductive AddressingMode
  | implicit | accumulator | immediate | zeroPage | zeroPageX | zeroPageY | relative
  | absolute | absoluteX | absoluteY | indirect | indexedIndirect | indirectIndexed
  deriving DecidableEq, Repr

def cpuFetchWordPc (cpu : Cpu6502) : Word × Cpu6502 :=
  let (lo, cpu) := cpuFetchByte cpu
  let (hi, cpu) := cpuFetchByte cpu
  (Word.mk hi lo, cpu)

/-- The address of the operand itself; the caller makes the access. -/
def addrImmediate (cpu : Cpu6502) : Word × Cpu6502 :=
  (cpu.pc, { cpu with pc := cpu.pc + 1#16 })

def addrZeroPage (cpu : Cpu6502) : Word × Cpu6502 :=
  let (b, cpu) := cpuFetchByte cpu
  (b.setWidth 16, cpu)

def addrZeroPageX (cpu : Cpu6502) : Word × Cpu6502 :=
  let (b, cpu) := cpuFetchByte cpu
  ((b + cpu.x).setWidth 16, cpu)

def addrZeroPageY (cpu : Cpu6502) : Word × Cpu6502 :=
  let (b, cpu) := cpuFetchByte cpu
  ((b + cpu.y).setWidth 16, cpu)

def addrAbsolute (cpu : Cpu6502) : Word × Cpu6502 := cpuFetchWordPc cpu

/-- Whether two addresses are on different pages. -/
def pageCrossed (base addr : Word) : Bool := base &&& 0xFF00#16 != addr &&& 0xFF00#16

/-- The indexed address, and whether the indexing crossed a page. -/
def addrAbsoluteX (cpu : Cpu6502) : (Word × Bool) × Cpu6502 :=
  let (base, cpu) := cpuFetchWordPc cpu
  let addr := base + cpu.x.setWidth 16
  ((addr, pageCrossed base addr), cpu)

def addrAbsoluteY (cpu : Cpu6502) : (Word × Bool) × Cpu6502 :=
  let (base, cpu) := cpuFetchWordPc cpu
  let addr := base + cpu.y.setWidth 16
  ((addr, pageCrossed base addr), cpu)

/-- The high byte of the target is read from the page of the low one. -/
def addrIndirect (cpu : Cpu6502) : Word × Cpu6502 :=
  let (ptr, cpu) := cpuFetchWordPc cpu
  let (lo, cpu) := cpuMemRead ptr cpu
  let ptrHi := (ptr &&& 0xFF00#16) ||| ((ptr + 1#16) &&& 0x00FF#16)
  let (hi, cpu) := cpuMemRead ptrHi cpu
  (Word.mk hi lo, cpu)

def addrIndexedIndirect (cpu : Cpu6502) : Word × Cpu6502 :=
  let (b, cpu) := cpuFetchByte cpu
  let zpg := b + cpu.x
  let (lo, cpu) := cpuMemRead (zpg.setWidth 16) cpu
  let (hi, cpu) := cpuMemRead ((zpg + 1#8).setWidth 16) cpu
  (Word.mk hi lo, cpu)

def addrIndirectIndexed (cpu : Cpu6502) : (Word × Bool) × Cpu6502 :=
  let (zpg, cpu) := cpuFetchByte cpu
  let (lo, cpu) := cpuMemRead (zpg.setWidth 16) cpu
  let (hi, cpu) := cpuMemRead ((zpg + 1#8).setWidth 16) cpu
  let base := Word.mk hi lo
  let addr := base + cpu.y.setWidth 16
  ((addr, pageCrossed base addr), cpu)

def addrRelative (cpu : Cpu6502) : Word × Cpu6502 :=
  let (offset, cpu) := cpuFetchByte cpu
  (cpu.pc + offset.signExtend 16, cpu)

/-- An indexed mode called with a null `page_crossed`. -/
def addrNoCross (am : Cpu6502 → (Word × Bool) × Cpu6502) (cpu : Cpu6502) : Word × Cpu6502 :=
  let ((addr, _), cpu) := am cpu
  (addr, cpu)

/-! ## Opcode table -/

structure OpcodeInfo where
  name : String
  cycles : Nat
  size : Nat
  mode : AddressingMode

/-- `opcode_table`. -/
def opcodeTableEntries : List OpcodeInfo :=
  [⟨"BRK", 7, 1, .implicit⟩, ⟨"ORA", 6, 2, .indexedIndirect⟩, ⟨"JAM", 2, 1, .implicit⟩,
   ⟨"SLO", 8, 2, .indexedIndirect⟩, ⟨"NOP", 3, 2, .zeroPage⟩, ⟨"ORA", 3, 2, .zeroPage⟩,
   ⟨"ASL", 5, 2, .zeroPage⟩, ⟨"SLO", 5, 2, .zeroPage⟩, ⟨"PHP", 3, 1, .implicit⟩,
   ⟨"ORA", 2, 2, .immediate⟩, ⟨"ASL", 2, 1, .accumulator⟩, ⟨"ANC", 2, 2, .immediate⟩,
   ⟨"NOP", 4, 3, .absolute⟩, ⟨"ORA", 4, 3, .absolute⟩, ⟨"ASL", 6, 3, .absolute⟩,
   ⟨"SLO", 6, 3, .absolute⟩,
   ⟨"BPL", 2, 2, .relative⟩, ⟨"ORA", 5, 2, .indirectIndexed⟩, ⟨"JAM", 2, 1, .implicit⟩,
   ⟨"SLO", 8, 2, .indirectIndexed⟩, ⟨"NOP", 4, 2, .zeroPageX⟩, ⟨"ORA", 4, 2, .zeroPageX⟩,
   ⟨"ASL", 6, 2, .zeroPageX⟩, ⟨"SLO", 6, 2, .zeroPageX⟩, ⟨"CLC", 2, 1, .implicit⟩,
   ⟨"ORA", 4, 3, .absoluteY⟩, ⟨"NOP", 2, 1, .implicit⟩, ⟨"SLO", 7, 3, .absoluteY⟩,
   ⟨"NOP", 4, 3, .absoluteX⟩, ⟨"ORA", 4, 3, .absoluteX⟩, ⟨"ASL", 7, 3, .absoluteX⟩,
   ⟨"SLO", 7, 3, .absoluteX⟩,
   ⟨"JSR", 6, 3, .absolute⟩, ⟨"AND", 6, 2, .indexedIndirect⟩, ⟨"JAM", 2, 1, .implicit⟩,
   ⟨"RLA", 8, 2, .indexedIndirect⟩, ⟨"BIT", 3, 2, .zeroPage⟩, ⟨"AND", 3, 2, .zeroPage⟩,
   ⟨"ROL", 5, 2, .zeroPage⟩, ⟨"RLA", 5, 2, .zeroPage⟩, ⟨"PLP", 4, 1, .implicit⟩,
   ⟨"AND", 2, 2, .immediate⟩, ⟨"ROL", 2, 1, .accumulator⟩, ⟨"ANC", 2, 2, .immediate⟩,
   ⟨"BIT", 4, 3, .absolute⟩, ⟨"AND", 4, 3, .absolute⟩, ⟨"ROL", 6, 3, .absolute⟩,
   ⟨"RLA", 6, 3, .absolute⟩,
   ⟨"BMI", 2, 2, .relative⟩, ⟨"AND", 5, 2, .indirectIndexed⟩, ⟨"JAM", 2, 1, .implicit⟩,
   ⟨"RLA", 8, 2, .indirectIndexed⟩, ⟨"NOP", 4, 2, .zeroPageX⟩, ⟨"AND", 4, 2, .zeroPageX⟩,
   ⟨"ROL", 6, 2, .zeroPageX⟩, ⟨"RLA", 6, 2, .zeroPageX⟩, ⟨"SEC", 2, 1, .implicit⟩,
   ⟨"AND", 4, 3, .absoluteY⟩, ⟨"NOP", 2, 1, .implicit⟩, ⟨"RLA", 7, 3, .absoluteY⟩,
   ⟨"NOP", 4, 3, .absoluteX⟩, ⟨"AND", 4, 3, .absoluteX⟩, ⟨"ROL", 7, 3, .absoluteX⟩,
   ⟨"RLA", 7, 3, .absoluteX⟩,
   ⟨"RTI", 6, 1, .implicit⟩, ⟨"EOR", 6, 2, .indexedIndirect⟩, ⟨"JAM", 2, 1, .implicit⟩,
   ⟨"SRE", 8, 2, .indexedIndirect⟩, ⟨"NOP", 3, 2, .zeroPage⟩, ⟨"EOR", 3, 2, .zeroPage⟩,
   ⟨"LSR", 5, 2, .zeroPage⟩, ⟨"SRE", 5, 2, .zeroPage⟩, ⟨"PHA", 3, 1, .implicit⟩,
   ⟨"EOR", 2, 2, .immediate⟩, ⟨"LSR", 2, 1, .accumulator⟩, ⟨"ALR", 2, 2, .immediate⟩,
   ⟨"JMP", 3, 3, .absolute⟩, ⟨"EOR", 4, 3, .absolute⟩, ⟨"LSR", 6, 3, .absolute⟩,
   ⟨"SRE", 6, 3, .absolute⟩,
   ⟨"BVC", 2, 2, .relative⟩, ⟨"EOR", 5, 2, .indirectIndexed⟩, ⟨"JAM", 2, 1, .implicit⟩,
   ⟨"SRE", 8, 2, .indirectIndexed⟩, ⟨"NOP", 4, 2, .zeroPageX⟩, ⟨"EOR", 4, 2, .zeroPageX⟩,
   ⟨"LSR", 6, 2, .zeroPageX⟩, ⟨"SRE", 6, 2, .zeroPageX⟩, ⟨"CLI", 2, 1, .implicit⟩,
   ⟨"EOR", 4, 3, .absoluteY⟩, ⟨"NOP", 2, 1, .implicit⟩, ⟨"SRE", 7, 3, .absoluteY⟩,
   ⟨"NOP", 4, 3, .absoluteX⟩, ⟨"EOR", 4, 3, .absoluteX⟩, ⟨"LSR", 7, 3, .absoluteX⟩,
   ⟨"SRE", 7, 3, .absoluteX⟩,
   ⟨"RTS", 6, 1, .implicit⟩, ⟨"ADC", 6, 2, .indexedIndirect⟩, ⟨"JAM", 2, 1, .implicit⟩,
   ⟨"RRA", 8, 2, .indexedIndirect⟩, ⟨"NOP", 3, 2, .zeroPage⟩, ⟨"ADC", 3, 2, .zeroPage⟩,
   ⟨"ROR", 5, 2, .zeroPage⟩, ⟨"RRA", 5, 2, .zeroPage⟩, ⟨"PLA", 4, 1, .implicit⟩,
   ⟨"ADC", 2, 2, .immediate⟩, ⟨"ROR", 2, 1, .accumulator⟩, ⟨"ARR", 2, 2, .immediate⟩,
   ⟨"JMP", 5, 3, .indirect⟩, ⟨"ADC", 4, 3, .absolute⟩, ⟨"ROR", 6, 3, .absolute⟩,
   ⟨"RRA", 6, 3, .absolute⟩,
   ⟨"BVS", 2, 2, .relative⟩, ⟨"ADC", 5, 2, .indirectIndexed⟩, ⟨"JAM", 2, 1, .implicit⟩,
   ⟨"RRA", 8, 2, .indirectIndexed⟩, ⟨"NOP", 4, 2, .zeroPageX⟩, ⟨"ADC", 4, 2, .zeroPageX⟩,
   ⟨"ROR", 6, 2, .zeroPageX⟩, ⟨"RRA", 6, 2, .zeroPageX⟩, ⟨"SEI", 2, 1, .implicit⟩,
   ⟨"ADC", 4, 3, .absoluteY⟩, ⟨"NOP", 2, 1, .implicit⟩, ⟨"RRA", 7, 3, .absoluteY⟩,
   ⟨"NOP", 4, 3, .absoluteX⟩, ⟨"ADC", 4, 3, .absoluteX⟩, ⟨"ROR", 7, 3, .absoluteX⟩,
   ⟨"RRA", 7, 3, .absoluteX⟩,
   ⟨"NOP", 2, 2, .immediate⟩, ⟨"STA", 6, 2, .indexedIndirect⟩, ⟨"NOP", 2, 2, .immediate⟩,
   ⟨"SAX", 6, 2, .indexedIndirect⟩, ⟨"STY", 3, 2, .zeroPage⟩, ⟨"STA", 3, 2, .zeroPage⟩,
   ⟨"STX", 3, 2, .zeroPage⟩, ⟨"SAX", 3, 2, .zeroPage⟩, ⟨"DEY", 2, 1, .implicit⟩,
   ⟨"NOP", 2, 2, .immediate⟩, ⟨"TXA", 2, 1, .implicit⟩, ⟨"ANE", 2, 2, .immediate⟩,
   ⟨"STY", 4, 3, .absolute⟩, ⟨"STA", 4, 3, .absolute⟩, ⟨"STX", 4, 3, .absolute⟩,
   ⟨"SAX", 4, 3, .absolute⟩,
   ⟨"BCC", 2, 2, .relative⟩, ⟨"STA", 6, 2, .indirectIndexed⟩, ⟨"JAM", 2, 1, .implicit⟩,
   ⟨"SHA", 6, 2, .indirectIndexed⟩, ⟨"STY", 4, 2, .zeroPageX⟩, ⟨"STA", 4, 2, .zeroPageX⟩,
   ⟨"STX", 4, 2, .zeroPageY⟩, ⟨"SAX", 4, 2, .zeroPageY⟩, ⟨"TYA", 2, 1, .implicit⟩,
   ⟨"STA", 5, 3, .absoluteY⟩, ⟨"TXS", 2, 1, .implicit⟩, ⟨"TAS", 5, 3, .absoluteY⟩,
   ⟨"SHY", 5, 3, .absoluteX⟩, ⟨"STA", 5, 3, .absoluteX⟩, ⟨"SHX", 5, 3, .absoluteY⟩,
   ⟨"SHA", 5, 3, .absoluteY⟩,
   ⟨"LDY", 2, 2, .immediate⟩, ⟨"LDA", 6, 2, .indexedIndirect⟩, ⟨"LDX", 2, 2, .immediate⟩,
   ⟨"LAX", 6, 2, .indexedIndirect⟩, ⟨"LDY", 3, 2, .zeroPage⟩, ⟨"LDA", 3, 2, .zeroPage⟩,
   ⟨"LDX", 3, 2, .zeroPage⟩, ⟨"LAX", 3, 2, .zeroPage⟩, ⟨"TAY", 2, 1, .implicit⟩,
   ⟨"LDA", 2, 2, .immediate⟩, ⟨"TAX", 2, 1, .implicit⟩, ⟨"LXA", 2, 2, .immediate⟩,
   ⟨"LDY", 4, 3, .absolute⟩, ⟨"LDA", 4, 3, .absolute⟩, ⟨"LDX", 4, 3, .absolute⟩,
   ⟨"LAX", 4, 3, .absolute⟩,
   ⟨"BCS", 2, 2, .relative⟩, ⟨"LDA", 5, 2, .indirectIndexed⟩, ⟨"JAM", 2, 1, .implicit⟩,
   ⟨"LAX", 5, 2, .indirectIndexed⟩, ⟨"LDY", 4, 2, .zeroPageX⟩, ⟨"LDA", 4, 2, .zeroPageX⟩,
   ⟨"LDX", 4, 2, .zeroPageY⟩, ⟨"LAX", 4, 2, .zeroPageY⟩, ⟨"CLV", 2, 1, .implicit⟩,
   ⟨"LDA", 4, 3, .absoluteY⟩, ⟨"TSX", 2, 1, .implicit⟩, ⟨"LAS", 4, 3, .absoluteY⟩,
   ⟨"LDY", 4, 3, .absoluteX⟩, ⟨"LDA", 4, 3, .absoluteX⟩, ⟨"LDX", 4, 3, .absoluteY⟩,
   ⟨"LAX", 4, 3, .absoluteY⟩,
   ⟨"CPY", 2, 2, .immediate⟩, ⟨"CMP", 6, 2, .indexedIndirect⟩, ⟨"NOP", 2, 2, .immediate⟩,
   ⟨"DCP", 8, 2, .indexedIndirect⟩, ⟨"CPY", 3, 2, .zeroPage⟩, ⟨"CMP", 3, 2, .zeroPage⟩,
   ⟨"DEC", 5, 2, .zeroPage⟩, ⟨"DCP", 5, 2, .zeroPage⟩, ⟨"INY", 2, 1, .implicit⟩,
   ⟨"CMP", 2, 2, .immediate⟩, ⟨"DEX", 2, 1, .implicit⟩, ⟨"SBX", 2, 2, .immediate⟩,
   ⟨"CPY", 4, 3, .absolute⟩, ⟨"CMP", 4, 3, .absolute⟩, ⟨"DEC", 6, 3, .absolute⟩,
   ⟨"DCP", 6, 3, .absolute⟩,
   ⟨"BNE", 2, 2, .relative⟩, ⟨"CMP", 5, 2, .indirectIndexed⟩, ⟨"JAM", 2, 1, .implicit⟩,
   ⟨"DCP", 8, 2, .indirectIndexed⟩, ⟨"NOP", 4, 2, .zeroPageX⟩, ⟨"CMP", 4, 2, .zeroPageX⟩,
   ⟨"DEC", 6, 2, .zeroPageX⟩, ⟨"DCP", 6, 2, .zeroPageX⟩, ⟨"CLD", 2, 1, .implicit⟩,
   ⟨"CMP", 4, 3, .absoluteY⟩, ⟨"NOP", 2, 1, .implicit⟩, ⟨"DCP", 7, 3, .absoluteY⟩,
   ⟨"NOP", 4, 3, .absoluteX⟩, ⟨"CMP", 4, 3, .absoluteX⟩, ⟨"DEC", 7, 3, .absoluteX⟩,
   ⟨"DCP", 7, 3, .absoluteX⟩,
   ⟨"CPX", 2, 2, .immediate⟩, ⟨"SBC", 6, 2, .indexedIndirect⟩, ⟨"NOP", 2, 2, .immediate⟩,
   ⟨"ISC", 8, 2, .indexedIndirect⟩, ⟨"CPX", 3, 2, .zeroPage⟩, ⟨"SBC", 3, 2, .zeroPage⟩,
   ⟨"INC", 5, 2, .zeroPage⟩, ⟨"ISC", 5, 2, .zeroPage⟩, ⟨"INX", 2, 1, .implicit⟩,
   ⟨"SBC", 2, 2, .immediate⟩, ⟨"NOP", 2, 1, .implicit⟩, ⟨"SBC", 2, 2, .immediate⟩,
   ⟨"CPX", 4, 3, .absolute⟩, ⟨"SBC", 4, 3, .absolute⟩, ⟨"INC", 6, 3, .absolute⟩,
   ⟨"ISC", 6, 3, .absolute⟩,
   ⟨"BEQ", 2, 2, .relative⟩, ⟨"SBC", 5, 2, .indirectIndexed⟩, ⟨"JAM", 2, 1, .implicit⟩,
   ⟨"ISC", 8, 2, .indirectIndexed⟩, ⟨"NOP", 4, 2, .zeroPageX⟩, ⟨"SBC", 4, 2, .zeroPageX⟩,
   ⟨"INC", 6, 2, .zeroPageX⟩, ⟨"ISC", 6, 2, .zeroPageX⟩, ⟨"SED", 2, 1, .implicit⟩,
   ⟨"SBC", 4, 3, .absoluteY⟩, ⟨"NOP", 2, 1, .implicit⟩, ⟨"ISC", 7, 3, .absoluteY⟩,
   ⟨"NOP", 4, 3, .absoluteX⟩, ⟨"SBC", 4, 3, .absoluteX⟩, ⟨"INC", 7, 3, .absoluteX⟩,
   ⟨"ISC", 7, 3, .absoluteX⟩]

def opcodeTable (opcode : Byte) : OpcodeInfo :=
  opcodeTableEntries.getD opcode.toNat ⟨"", 0, 0, .implicit⟩

/-! ## The forms of a case

Each returns the extra cycles and the CPU. -/

/-- Fold an operand into the registers. -/
def opRead (am : Cpu6502 → Word × Cpu6502) (f : Byte → CpuRegs → CpuRegs) (cpu : Cpu6502) :
    Nat × Cpu6502 :=
  let (addr, cpu) := am cpu
  let (val, cpu) := cpuMemRead addr cpu
  (0, { cpu with toCpuRegs := f val cpu.toCpuRegs })

/-- The same with an indexed mode, which costs a cycle more across a page. -/
def opReadCross (am : Cpu6502 → (Word × Bool) × Cpu6502) (f : Byte → CpuRegs → CpuRegs)
    (cpu : Cpu6502) : Nat × Cpu6502 :=
  let ((addr, crossed), cpu) := am cpu
  let (val, cpu) := cpuMemRead addr cpu
  (if crossed then 1 else 0, { cpu with toCpuRegs := f val cpu.toCpuRegs })

/-- Store a register value. -/
def opWrite (am : Cpu6502 → Word × Cpu6502) (value : CpuRegs → Byte) (cpu : Cpu6502) :
    Nat × Cpu6502 :=
  let (addr, cpu) := am cpu
  (0, cpuMemWrite addr (value cpu.toCpuRegs) cpu)

/-- Read, write back the original byte, then the modified one. -/
def opRmwMem (op : CpuRmw) (am : Cpu6502 → Word × Cpu6502) (cpu : Cpu6502) : Nat × Cpu6502 :=
  let (addr, cpu) := am cpu
  let (v, cpu) := cpuMemRead addr cpu
  let cpu := cpuMemWrite addr v cpu
  let (v, regs) := cpuRmwApply op v cpu.toCpuRegs
  (0, cpuMemWrite addr v { cpu with toCpuRegs := regs })

/-- Work on the registers only. -/
def opImplied (f : CpuRegs → CpuRegs) (cpu : Cpu6502) : Nat × Cpu6502 :=
  (0, { cpu with toCpuRegs := f cpu.toCpuRegs })

/-- An unstable store; the base address is recovered from the indexed one. -/
def opShStore (addr : Word) (idx reg : Byte) (cpu : Cpu6502) : Nat × Cpu6502 :=
  let (value, target) := cpuShUnstable (addr - idx.setWidth 16) addr reg
  (0, cpuMemWrite target value cpu)

def doBranch (condition : CpuRegs → Bool) (cpu : Cpu6502) : Nat × Cpu6502 :=
  let condition := condition cpu.toCpuRegs
  let (target, cpu) := addrRelative cpu
  if condition then
    (if pageCrossed cpu.pc target then 2 else 1, { cpu with pc := target })
  else (0, cpu)

/-! ## Folding an operand, as the cases inline it -/

def opLda (v : Byte) (r : CpuRegs) : CpuRegs := cpuUpdateNz v { r with a := v }
def opLdx (v : Byte) (r : CpuRegs) : CpuRegs := cpuUpdateNz v { r with x := v }
def opLdy (v : Byte) (r : CpuRegs) : CpuRegs := cpuUpdateNz v { r with y := v }
def opAnd (v : Byte) (r : CpuRegs) : CpuRegs := cpuUpdateNz (r.a &&& v) { r with a := r.a &&& v }
def opOra (v : Byte) (r : CpuRegs) : CpuRegs := cpuUpdateNz (r.a ||| v) { r with a := r.a ||| v }
def opEor (v : Byte) (r : CpuRegs) : CpuRegs := cpuUpdateNz (r.a ^^^ v) { r with a := r.a ^^^ v }
def opCmpA (v : Byte) (r : CpuRegs) : CpuRegs := cpuOpCmp r.a v r
def opCmpX (v : Byte) (r : CpuRegs) : CpuRegs := cpuOpCmp r.x v r
def opCmpY (v : Byte) (r : CpuRegs) : CpuRegs := cpuOpCmp r.y v r

def opBit (v : Byte) (r : CpuRegs) : CpuRegs :=
  let r := cpuSetFlag r flagZero (r.a &&& v == 0#8)
  let r := cpuSetFlag r flagOverflow (v &&& 0x40#8 != 0#8)
  cpuSetFlag r flagNegative (v &&& 0x80#8 != 0#8)

/-- AND, then C is bit 7 of the result. -/
def opAnc (v : Byte) (r : CpuRegs) : CpuRegs :=
  let r := cpuUpdateNz (r.a &&& v) { r with a := r.a &&& v }
  cpuSetFlag r flagCarry (r.a &&& 0x80#8 != 0#8)

/-- AND, then LSR of the accumulator. -/
def opAlr (v : Byte) (r : CpuRegs) : CpuRegs :=
  let r := { r with a := r.a &&& v }
  let r := cpuSetFlag r flagCarry (r.a &&& 0x01#8 != 0#8)
  cpuUpdateNz (r.a >>> 1) { r with a := r.a >>> 1 }

/-- AND, then ROR through the BCD adder. -/
def opArr (v : Byte) (regs : CpuRegs) : CpuRegs :=
  let t := regs.a &&& v
  let c := if cpuGetFlag regs flagCarry then 0x80#8 else 0#8
  let r := (t >>> 1) ||| c
  let regs := cpuUpdateNz r regs
  let regs := cpuSetFlag regs flagOverflow ((r ^^^ t) &&& 0x40#8 != 0#8)
  if cpuGetFlag regs flagDecimal then
    let r := if (t &&& 0x0F#8).toNat + (t &&& 0x01#8).toNat > 0x05 then
        (r &&& 0xF0#8) ||| ((r + 0x06#8) &&& 0x0F#8)
      else r
    if (t &&& 0xF0#8).toNat + (t &&& 0x10#8).toNat > 0x50 then
      { cpuSetFlag regs flagCarry true with a := r + 0x60#8 }
    else { cpuSetFlag regs flagCarry false with a := r }
  else { cpuSetFlag regs flagCarry (t &&& 0x80#8 != 0#8) with a := r }

def opSbx (v : Byte) (r : CpuRegs) : CpuRegs :=
  let tmp := r.a &&& r.x
  cpuUpdateNz (tmp - v) { cpuSetFlag r flagCarry (tmp ≥ v) with x := tmp - v }

def opAne (v : Byte) (r : CpuRegs) : CpuRegs :=
  let a := (r.a ||| 0xEE#8) &&& r.x &&& v
  cpuUpdateNz a { r with a := a }

def opLxa (v : Byte) (r : CpuRegs) : CpuRegs :=
  let a := (r.a ||| 0xEE#8) &&& v
  cpuUpdateNz a { r with a := a, x := a }

def opLas (v : Byte) (r : CpuRegs) : CpuRegs :=
  let v := v &&& r.sp
  cpuUpdateNz v { r with a := v, x := v, sp := v }

/-- NOP with an operand: the read is all there is. -/
def opNop (_v : Byte) (r : CpuRegs) : CpuRegs := r

def opAslA (r : CpuRegs) : CpuRegs :=
  let r := cpuSetFlag r flagCarry (r.a &&& 0x80#8 != 0#8)
  cpuUpdateNz (r.a <<< 1) { r with a := r.a <<< 1 }

def opLsrA (r : CpuRegs) : CpuRegs :=
  let r := cpuSetFlag r flagCarry (r.a &&& 0x01#8 != 0#8)
  cpuUpdateNz (r.a >>> 1) { r with a := r.a >>> 1 }

def opRolA (r : CpuRegs) : CpuRegs :=
  let c := if cpuGetFlag r flagCarry then 1#8 else 0#8
  let r := cpuSetFlag r flagCarry (r.a &&& 0x80#8 != 0#8)
  let a := (r.a <<< 1) ||| c
  cpuUpdateNz a { r with a := a }

def opRorA (r : CpuRegs) : CpuRegs :=
  let c := if cpuGetFlag r flagCarry then 0x80#8 else 0#8
  let r := cpuSetFlag r flagCarry (r.a &&& 0x01#8 != 0#8)
  let a := (r.a >>> 1) ||| c
  cpuUpdateNz a { r with a := a }

/-! ## Control and stack -/

/-- The high byte of the target is fetched after the pushes. -/
def opJsr (cpu : Cpu6502) : Nat × Cpu6502 :=
  let (adl, cpu) := cpuFetchByte cpu
  let cpu := cpuPushWord cpu.pc cpu
  let (adh, cpu) := cpuFetchByte cpu
  (0, { cpu with pc := Word.mk adh adl })

def opRts (cpu : Cpu6502) : Nat × Cpu6502 :=
  let (pc, cpu) := cpuPullWord cpu
  (0, { cpu with pc := pc + 1#16 })

/-- PLP, and the first pull of RTI. -/
def opPlp (cpu : Cpu6502) : Nat × Cpu6502 :=
  let (p, cpu) := cpuPull cpu
  (0, { cpu with p := (p &&& ~~~flagBreak) ||| flagUnused })

def opRti (cpu : Cpu6502) : Nat × Cpu6502 :=
  let (_, cpu) := opPlp cpu
  let (pc, cpu) := cpuPullWord cpu
  (0, { cpu with pc := pc })

def opBrk (cpu : Cpu6502) : Nat × Cpu6502 :=
  let cpu := { cpu with pc := cpu.pc + 1#16 }
  let cpu := cpuPushWord cpu.pc cpu
  let cpu := cpuPush (cpu.p ||| flagBreak ||| flagUnused) cpu
  let cpu := { cpu with toCpuRegs := cpuSetFlag cpu.toCpuRegs flagInterrupt true }
  let (lo, cpu) := cpuMemRead 0xFFFE#16 cpu
  let (hi, cpu) := cpuMemRead 0xFFFF#16 cpu
  (0, { cpu with pc := Word.mk hi lo })

def opPla (cpu : Cpu6502) : Nat × Cpu6502 :=
  let (v, cpu) := cpuPull cpu
  (0, { cpu with toCpuRegs := cpuUpdateNz v { cpu.toCpuRegs with a := v } })

def opJmp (am : Cpu6502 → Word × Cpu6502) (cpu : Cpu6502) : Nat × Cpu6502 :=
  let (addr, cpu) := am cpu
  (0, { cpu with pc := addr })

/-! ## The switch -/

/-- The switch of `cpu_execute_opcode`. -/
def cpuExecuteSwitch (opcode : Byte) (cpu : Cpu6502) : Nat × Cpu6502 :=
  match opcode.toNat with
  -- LDA
  | 0xA9 => opRead addrImmediate opLda cpu
  | 0xA5 => opRead addrZeroPage opLda cpu
  | 0xB5 => opRead addrZeroPageX opLda cpu
  | 0xAD => opRead addrAbsolute opLda cpu
  | 0xBD => opReadCross addrAbsoluteX opLda cpu
  | 0xB9 => opReadCross addrAbsoluteY opLda cpu
  | 0xA1 => opRead addrIndexedIndirect opLda cpu
  | 0xB1 => opReadCross addrIndirectIndexed opLda cpu
  -- LDX
  | 0xA2 => opRead addrImmediate opLdx cpu
  | 0xA6 => opRead addrZeroPage opLdx cpu
  | 0xB6 => opRead addrZeroPageY opLdx cpu
  | 0xAE => opRead addrAbsolute opLdx cpu
  | 0xBE => opReadCross addrAbsoluteY opLdx cpu
  -- LDY
  | 0xA0 => opRead addrImmediate opLdy cpu
  | 0xA4 => opRead addrZeroPage opLdy cpu
  | 0xB4 => opRead addrZeroPageX opLdy cpu
  | 0xAC => opRead addrAbsolute opLdy cpu
  | 0xBC => opReadCross addrAbsoluteX opLdy cpu
  -- STA, STX, STY
  | 0x85 => opWrite addrZeroPage (·.a) cpu
  | 0x95 => opWrite addrZeroPageX (·.a) cpu
  | 0x8D => opWrite addrAbsolute (·.a) cpu
  | 0x9D => opWrite (addrNoCross addrAbsoluteX) (·.a) cpu
  | 0x99 => opWrite (addrNoCross addrAbsoluteY) (·.a) cpu
  | 0x81 => opWrite addrIndexedIndirect (·.a) cpu
  | 0x91 => opWrite (addrNoCross addrIndirectIndexed) (·.a) cpu
  | 0x86 => opWrite addrZeroPage (·.x) cpu
  | 0x96 => opWrite addrZeroPageY (·.x) cpu
  | 0x8E => opWrite addrAbsolute (·.x) cpu
  | 0x84 => opWrite addrZeroPage (·.y) cpu
  | 0x94 => opWrite addrZeroPageX (·.y) cpu
  | 0x8C => opWrite addrAbsolute (·.y) cpu
  -- ADC
  | 0x69 => opRead addrImmediate cpuOpAdc cpu
  | 0x65 => opRead addrZeroPage cpuOpAdc cpu
  | 0x75 => opRead addrZeroPageX cpuOpAdc cpu
  | 0x6D => opRead addrAbsolute cpuOpAdc cpu
  | 0x7D => opReadCross addrAbsoluteX cpuOpAdc cpu
  | 0x79 => opReadCross addrAbsoluteY cpuOpAdc cpu
  | 0x61 => opRead addrIndexedIndirect cpuOpAdc cpu
  | 0x71 => opReadCross addrIndirectIndexed cpuOpAdc cpu
  -- SBC
  | 0xE9 => opRead addrImmediate cpuOpSbc cpu
  | 0xEB => opRead addrImmediate cpuOpSbc cpu
  | 0xE5 => opRead addrZeroPage cpuOpSbc cpu
  | 0xF5 => opRead addrZeroPageX cpuOpSbc cpu
  | 0xED => opRead addrAbsolute cpuOpSbc cpu
  | 0xFD => opReadCross addrAbsoluteX cpuOpSbc cpu
  | 0xF9 => opReadCross addrAbsoluteY cpuOpSbc cpu
  | 0xE1 => opRead addrIndexedIndirect cpuOpSbc cpu
  | 0xF1 => opReadCross addrIndirectIndexed cpuOpSbc cpu
  -- AND
  | 0x29 => opRead addrImmediate opAnd cpu
  | 0x25 => opRead addrZeroPage opAnd cpu
  | 0x35 => opRead addrZeroPageX opAnd cpu
  | 0x2D => opRead addrAbsolute opAnd cpu
  | 0x3D => opReadCross addrAbsoluteX opAnd cpu
  | 0x39 => opReadCross addrAbsoluteY opAnd cpu
  | 0x21 => opRead addrIndexedIndirect opAnd cpu
  | 0x31 => opReadCross addrIndirectIndexed opAnd cpu
  -- ORA
  | 0x09 => opRead addrImmediate opOra cpu
  | 0x05 => opRead addrZeroPage opOra cpu
  | 0x15 => opRead addrZeroPageX opOra cpu
  | 0x0D => opRead addrAbsolute opOra cpu
  | 0x1D => opReadCross addrAbsoluteX opOra cpu
  | 0x19 => opReadCross addrAbsoluteY opOra cpu
  | 0x01 => opRead addrIndexedIndirect opOra cpu
  | 0x11 => opReadCross addrIndirectIndexed opOra cpu
  -- EOR
  | 0x49 => opRead addrImmediate opEor cpu
  | 0x45 => opRead addrZeroPage opEor cpu
  | 0x55 => opRead addrZeroPageX opEor cpu
  | 0x4D => opRead addrAbsolute opEor cpu
  | 0x5D => opReadCross addrAbsoluteX opEor cpu
  | 0x59 => opReadCross addrAbsoluteY opEor cpu
  | 0x41 => opRead addrIndexedIndirect opEor cpu
  | 0x51 => opReadCross addrIndirectIndexed opEor cpu
  -- CMP
  | 0xC9 => opRead addrImmediate opCmpA cpu
  | 0xC5 => opRead addrZeroPage opCmpA cpu
  | 0xD5 => opRead addrZeroPageX opCmpA cpu
  | 0xCD => opRead addrAbsolute opCmpA cpu
  | 0xDD => opReadCross addrAbsoluteX opCmpA cpu
  | 0xD9 => opReadCross addrAbsoluteY opCmpA cpu
  | 0xC1 => opRead addrIndexedIndirect opCmpA cpu
  | 0xD1 => opReadCross addrIndirectIndexed opCmpA cpu
  -- CPX, CPY, BIT
  | 0xE0 => opRead addrImmediate opCmpX cpu
  | 0xE4 => opRead addrZeroPage opCmpX cpu
  | 0xEC => opRead addrAbsolute opCmpX cpu
  | 0xC0 => opRead addrImmediate opCmpY cpu
  | 0xC4 => opRead addrZeroPage opCmpY cpu
  | 0xCC => opRead addrAbsolute opCmpY cpu
  | 0x24 => opRead addrZeroPage opBit cpu
  | 0x2C => opRead addrAbsolute opBit cpu
  -- ASL, LSR, ROL, ROR, INC, DEC
  | 0x0A => opImplied opAslA cpu
  | 0x06 => opRmwMem .asl addrZeroPage cpu
  | 0x16 => opRmwMem .asl addrZeroPageX cpu
  | 0x0E => opRmwMem .asl addrAbsolute cpu
  | 0x1E => opRmwMem .asl (addrNoCross addrAbsoluteX) cpu
  | 0x4A => opImplied opLsrA cpu
  | 0x46 => opRmwMem .lsr addrZeroPage cpu
  | 0x56 => opRmwMem .lsr addrZeroPageX cpu
  | 0x4E => opRmwMem .lsr addrAbsolute cpu
  | 0x5E => opRmwMem .lsr (addrNoCross addrAbsoluteX) cpu
  | 0x2A => opImplied opRolA cpu
  | 0x26 => opRmwMem .rol addrZeroPage cpu
  | 0x36 => opRmwMem .rol addrZeroPageX cpu
  | 0x2E => opRmwMem .rol addrAbsolute cpu
  | 0x3E => opRmwMem .rol (addrNoCross addrAbsoluteX) cpu
  | 0x6A => opImplied opRorA cpu
  | 0x66 => opRmwMem .ror addrZeroPage cpu
  | 0x76 => opRmwMem .ror addrZeroPageX cpu
  | 0x6E => opRmwMem .ror addrAbsolute cpu
  | 0x7E => opRmwMem .ror (addrNoCross addrAbsoluteX) cpu
  | 0xE6 => opRmwMem .inc addrZeroPage cpu
  | 0xF6 => opRmwMem .inc addrZeroPageX cpu
  | 0xEE => opRmwMem .inc addrAbsolute cpu
  | 0xFE => opRmwMem .inc (addrNoCross addrAbsoluteX) cpu
  | 0xC6 => opRmwMem .dec addrZeroPage cpu
  | 0xD6 => opRmwMem .dec addrZeroPageX cpu
  | 0xCE => opRmwMem .dec addrAbsolute cpu
  | 0xDE => opRmwMem .dec (addrNoCross addrAbsoluteX) cpu
  -- INX, INY, DEX, DEY
  | 0xE8 => opImplied (fun r => cpuUpdateNz (r.x + 1#8) { r with x := r.x + 1#8 }) cpu
  | 0xC8 => opImplied (fun r => cpuUpdateNz (r.y + 1#8) { r with y := r.y + 1#8 }) cpu
  | 0xCA => opImplied (fun r => cpuUpdateNz (r.x - 1#8) { r with x := r.x - 1#8 }) cpu
  | 0x88 => opImplied (fun r => cpuUpdateNz (r.y - 1#8) { r with y := r.y - 1#8 }) cpu
  -- Transfers
  | 0xAA => opImplied (fun r => cpuUpdateNz r.a { r with x := r.a }) cpu
  | 0x8A => opImplied (fun r => cpuUpdateNz r.x { r with a := r.x }) cpu
  | 0xA8 => opImplied (fun r => cpuUpdateNz r.a { r with y := r.a }) cpu
  | 0x98 => opImplied (fun r => cpuUpdateNz r.y { r with a := r.y }) cpu
  | 0xBA => opImplied (fun r => cpuUpdateNz r.sp { r with x := r.sp }) cpu
  | 0x9A => opImplied (fun r => { r with sp := r.x }) cpu
  -- Stack
  | 0x48 => (0, cpuPush cpu.a cpu)
  | 0x68 => opPla cpu
  | 0x08 => (0, cpuPush (cpu.p ||| flagBreak ||| flagUnused) cpu)
  | 0x28 => opPlp cpu
  -- Branches
  | 0x10 => doBranch (!cpuGetFlag · flagNegative) cpu
  | 0x30 => doBranch (cpuGetFlag · flagNegative) cpu
  | 0x50 => doBranch (!cpuGetFlag · flagOverflow) cpu
  | 0x70 => doBranch (cpuGetFlag · flagOverflow) cpu
  | 0x90 => doBranch (!cpuGetFlag · flagCarry) cpu
  | 0xB0 => doBranch (cpuGetFlag · flagCarry) cpu
  | 0xD0 => doBranch (!cpuGetFlag · flagZero) cpu
  | 0xF0 => doBranch (cpuGetFlag · flagZero) cpu
  -- JMP, JSR, RTS, RTI, BRK
  | 0x4C => opJmp addrAbsolute cpu
  | 0x6C => opJmp addrIndirect cpu
  | 0x20 => opJsr cpu
  | 0x60 => opRts cpu
  | 0x40 => opRti cpu
  | 0x00 => opBrk cpu
  -- Flags, NOP
  | 0x18 => opImplied (cpuSetFlag · flagCarry false) cpu
  | 0x38 => opImplied (cpuSetFlag · flagCarry true) cpu
  | 0x58 => opImplied (cpuSetFlag · flagInterrupt false) cpu
  | 0x78 => opImplied (cpuSetFlag · flagInterrupt true) cpu
  | 0xD8 => opImplied (cpuSetFlag · flagDecimal false) cpu
  | 0xF8 => opImplied (cpuSetFlag · flagDecimal true) cpu
  | 0xB8 => opImplied (cpuSetFlag · flagOverflow false) cpu
  | 0xEA => (0, cpu)
  -- SLO, RLA, SRE, RRA, DCP, ISC
  | 0x07 => opRmwMem .slo addrZeroPage cpu
  | 0x17 => opRmwMem .slo addrZeroPageX cpu
  | 0x0F => opRmwMem .slo addrAbsolute cpu
  | 0x1F => opRmwMem .slo (addrNoCross addrAbsoluteX) cpu
  | 0x1B => opRmwMem .slo (addrNoCross addrAbsoluteY) cpu
  | 0x03 => opRmwMem .slo addrIndexedIndirect cpu
  | 0x13 => opRmwMem .slo (addrNoCross addrIndirectIndexed) cpu
  | 0x27 => opRmwMem .rla addrZeroPage cpu
  | 0x37 => opRmwMem .rla addrZeroPageX cpu
  | 0x2F => opRmwMem .rla addrAbsolute cpu
  | 0x3F => opRmwMem .rla (addrNoCross addrAbsoluteX) cpu
  | 0x3B => opRmwMem .rla (addrNoCross addrAbsoluteY) cpu
  | 0x23 => opRmwMem .rla addrIndexedIndirect cpu
  | 0x33 => opRmwMem .rla (addrNoCross addrIndirectIndexed) cpu
  | 0x47 => opRmwMem .sre addrZeroPage cpu
  | 0x57 => opRmwMem .sre addrZeroPageX cpu
  | 0x4F => opRmwMem .sre addrAbsolute cpu
  | 0x5F => opRmwMem .sre (addrNoCross addrAbsoluteX) cpu
  | 0x5B => opRmwMem .sre (addrNoCross addrAbsoluteY) cpu
  | 0x43 => opRmwMem .sre addrIndexedIndirect cpu
  | 0x53 => opRmwMem .sre (addrNoCross addrIndirectIndexed) cpu
  | 0x67 => opRmwMem .rra addrZeroPage cpu
  | 0x77 => opRmwMem .rra addrZeroPageX cpu
  | 0x6F => opRmwMem .rra addrAbsolute cpu
  | 0x7F => opRmwMem .rra (addrNoCross addrAbsoluteX) cpu
  | 0x7B => opRmwMem .rra (addrNoCross addrAbsoluteY) cpu
  | 0x63 => opRmwMem .rra addrIndexedIndirect cpu
  | 0x73 => opRmwMem .rra (addrNoCross addrIndirectIndexed) cpu
  | 0xC7 => opRmwMem .dcp addrZeroPage cpu
  | 0xD7 => opRmwMem .dcp addrZeroPageX cpu
  | 0xCF => opRmwMem .dcp addrAbsolute cpu
  | 0xDF => opRmwMem .dcp (addrNoCross addrAbsoluteX) cpu
  | 0xDB => opRmwMem .dcp (addrNoCross addrAbsoluteY) cpu
  | 0xC3 => opRmwMem .dcp addrIndexedIndirect cpu
  | 0xD3 => opRmwMem .dcp (addrNoCross addrIndirectIndexed) cpu
  | 0xE7 => opRmwMem .isc addrZeroPage cpu
  | 0xF7 => opRmwMem .isc addrZeroPageX cpu
  | 0xEF => opRmwMem .isc addrAbsolute cpu
  | 0xFF => opRmwMem .isc (addrNoCross addrAbsoluteX) cpu
  | 0xFB => opRmwMem .isc (addrNoCross addrAbsoluteY) cpu
  | 0xE3 => opRmwMem .isc addrIndexedIndirect cpu
  | 0xF3 => opRmwMem .isc (addrNoCross addrIndirectIndexed) cpu
  -- LAX, SAX
  | 0xA7 => opRead addrZeroPage cpuOpLax cpu
  | 0xB7 => opRead addrZeroPageY cpuOpLax cpu
  | 0xAF => opRead addrAbsolute cpuOpLax cpu
  | 0xBF => opReadCross addrAbsoluteY cpuOpLax cpu
  | 0xA3 => opRead addrIndexedIndirect cpuOpLax cpu
  | 0xB3 => opReadCross addrIndirectIndexed cpuOpLax cpu
  | 0x87 => opWrite addrZeroPage (fun r => r.a &&& r.x) cpu
  | 0x97 => opWrite addrZeroPageY (fun r => r.a &&& r.x) cpu
  | 0x8F => opWrite addrAbsolute (fun r => r.a &&& r.x) cpu
  | 0x83 => opWrite addrIndexedIndirect (fun r => r.a &&& r.x) cpu
  -- ANC, ALR, ARR, SBX, ANE, LXA, LAS
  | 0x0B | 0x2B => opRead addrImmediate opAnc cpu
  | 0x4B => opRead addrImmediate opAlr cpu
  | 0x6B => opRead addrImmediate opArr cpu
  | 0xCB => opRead addrImmediate opSbx cpu
  | 0x8B => opRead addrImmediate opAne cpu
  | 0xAB => opRead addrImmediate opLxa cpu
  | 0xBB => opReadCross addrAbsoluteY opLas cpu
  -- SHA, SHX, SHY, SHS
  | 0x9F =>
    let (addr, cpu) := addrNoCross addrAbsoluteY cpu
    opShStore addr cpu.y (cpu.a &&& cpu.x) cpu
  | 0x93 =>
    let (addr, cpu) := addrNoCross addrIndirectIndexed cpu
    opShStore addr cpu.y (cpu.a &&& cpu.x) cpu
  | 0x9E => let (addr, cpu) := addrNoCross addrAbsoluteY cpu; opShStore addr cpu.y (cpu.x) cpu
  | 0x9C => let (addr, cpu) := addrNoCross addrAbsoluteX cpu; opShStore addr cpu.x (cpu.y) cpu
  | 0x9B =>
    let (addr, cpu) := addrNoCross addrAbsoluteY cpu
    let cpu := { cpu with sp := cpu.a &&& cpu.x }
    opShStore addr cpu.y cpu.sp cpu
  -- NOP with an operand, NOP, JAM
  | 0x80 | 0x82 | 0x89 | 0xC2 | 0xE2 => opRead addrImmediate opNop cpu
  | 0x04 | 0x44 | 0x64 => opRead addrZeroPage opNop cpu
  | 0x14 | 0x34 | 0x54 | 0x74 | 0xD4 | 0xF4 => opRead addrZeroPageX opNop cpu
  | 0x0C => opRead addrAbsolute opNop cpu
  | 0x1C | 0x3C | 0x5C | 0x7C | 0xDC | 0xFC => opReadCross addrAbsoluteX opNop cpu
  | 0x1A | 0x3A | 0x5A | 0x7A | 0xDA | 0xFA => (0, cpu)
  | 0x02 | 0x12 | 0x22 | 0x32 | 0x42 | 0x52 | 0x62 | 0x72 | 0x92 | 0xB2 | 0xD2 | 0xF2 =>
    (0, { cpu with halted := true })
  | _ => (0, (fun cpu => (cpuFetchByte cpu).2)^[(opcodeTable opcode).size - 1] cpu)

/-- The cycles the instruction takes, and the CPU after it. -/
def cpuExecuteOpcode (opcode : Byte) (cpu : Cpu6502) : Nat × Cpu6502 :=
  let (extra, cpu) := cpuExecuteSwitch opcode cpu
  ((opcodeTable opcode).cycles + extra, cpu)

/-! ## Step -/

/-- The pushes and the vector of a hardware interrupt. -/
def handleInterrupt (vector : Word) (cpu : Cpu6502) : Cpu6502 :=
  let cpu := cpuPushWord cpu.pc cpu
  let cpu := cpuPush ((cpu.p &&& ~~~flagBreak) ||| flagUnused) cpu
  let cpu := { cpu with toCpuRegs := cpuSetFlag cpu.toCpuRegs flagInterrupt true }
  let (lo, cpu) := cpuMemRead vector cpu
  let (hi, cpu) := cpuMemRead (vector + 1#16) cpu
  { cpu with pc := Word.mk hi lo }

def handleNmi (cpu : Cpu6502) : Cpu6502 :=
  { handleInterrupt 0xFFFA#16 cpu with nmiPending := false }

def handleIrq (cpu : Cpu6502) : Cpu6502 := cpuIrqTraceEntry (handleInterrupt 0xFFFE#16 cpu)

/-- Advance the clock to `cycles` cycles after `before`. -/
def cpuPad (before cycles : Nat) (cpu : Cpu6502) : Cpu6502 :=
  if cpu.cycles - before < cycles then cpuTick (cycles - (cpu.cycles - before)) cpu else cpu

/-- `cpu_step` with the micro-sequencer off. -/
def cpuStepLegacy (cpu : Cpu6502) : Nat × Cpu6502 :=
  if cpu.halted then (0, cpu)
  else if cpu.nmiPending then (7, cpuPad cpu.cycles 7 (handleNmi cpu))
  else if (cpu.irq != 0#8 || cpu.irqPulse != 0#8) && !cpuGetFlag cpu.toCpuRegs flagInterrupt then
    let before := cpu.cycles
    let cpu := if cpu.irqPulse != 0#8 then { cpu with irqPulse := cpu.irqPulse - 1#8 } else cpu
    (7, cpuPad before 7 (handleIrq cpu))
  else
    let before := cpu.cycles
    let (opcode, cpu) := cpuFetchByte cpu
    let (cyc, cpu) := cpuExecuteOpcode opcode cpu
    (cyc, cpuPad before cyc cpu)

end Phosphoric
