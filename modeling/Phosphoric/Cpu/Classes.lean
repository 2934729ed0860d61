import Phosphoric.Cpu.Microseq

/-!
# The legacy switch by instruction class

The micro-sequencer sorts the opcodes into classes by its lists and takes the addressing mode
from the opcode table; the legacy engine has a case for each opcode.

**Theorem (`cpuExecuteSwitch_eq`).** Each case of the legacy switch is the form of the opcode's
class, at the opcode's mode, folding with the micro-sequencer's routing.

The table facts a class brings along (`opcodeShape`) are checked over the 256 opcodes.
-/

namespace Phosphoric

/-! ## The legacy switch, by class -/

/-- The legacy address computation of a mode with an address. -/
def addrOf (mode : AddressingMode) (cpu : Cpu6502) : (Word × Bool) × Cpu6502 :=
  match mode with
  | .absoluteX => addrAbsoluteX cpu
  | .absoluteY => addrAbsoluteY cpu
  | .indirectIndexed => addrIndirectIndexed cpu
  | .zeroPage => let (addr, cpu) := addrZeroPage cpu; ((addr, false), cpu)
  | .zeroPageX => let (addr, cpu) := addrZeroPageX cpu; ((addr, false), cpu)
  | .zeroPageY => let (addr, cpu) := addrZeroPageY cpu; ((addr, false), cpu)
  | .absolute => let (addr, cpu) := addrAbsolute cpu; ((addr, false), cpu)
  | .indexedIndirect => let (addr, cpu) := addrIndexedIndirect cpu; ((addr, false), cpu)
  | _ => let (addr, cpu) := addrImmediate cpu; ((addr, false), cpu)

/-- The index register of a mode. -/
def indexOf (mode : AddressingMode) (r : CpuRegs) : Byte :=
  match msIndex mode with
  | .x => r.x
  | .y => r.y
  | .none => 0#8

/-- The modes whose operand is in memory. -/
def memoryModes : List AddressingMode :=
  [.zeroPage, .zeroPageX, .zeroPageY, .absolute, .absoluteX, .absoluteY, .indexedIndirect,
   .indirectIndexed]

/-- The modes that index a 16-bit address. -/
def crossingModes : List AddressingMode := [.absoluteX, .absoluteY, .indirectIndexed]

/-- The cycles of the addressing phase, `dummy` telling whether an indexing pays its dummy. -/
def addrCost (mode : AddressingMode) (dummy : Bool) : Nat :=
  match mode with
  | .zeroPage => 1
  | .zeroPageX | .zeroPageY | .absolute => 2
  | .absoluteX | .absoluteY => if dummy then 3 else 2
  | .indexedIndirect => 4
  | .indirectIndexed => if dummy then 4 else 3
  | _ => 0

/-- The opcodes no list names. -/
def impliedOps : List Nat :=
  [0x18, 0x38, 0x58, 0x78, 0xD8, 0xF8, 0xB8, 0xEA, 0xAA, 0x8A, 0xA8, 0x98, 0xBA, 0x9A, 0xE8, 0xC8,
   0xCA, 0x88, 0x0A, 0x4A, 0x2A, 0x6A, 0x1A, 0x3A, 0x5A, 0x7A, 0xDA, 0xFA]

/-- What the tables say of an opcode of a class: its place in the lists, its modes, its
cycles. -/
def opcodeShape (op : Byte) : Bool :=
  let n := op.toNat
  let info := msTable op
  let mode := (opcodeTable op).mode
  let cycles := (opcodeTable op).cycles
  match info.cls with
  | .read => n ∈ msReads &&
      (if mode = .immediate then cycles = 2
       else mode ∈ memoryModes && cycles = 2 + addrCost mode false)
  | .write => n ∈ msWrites && mode ∈ memoryModes && cycles = 2 + addrCost mode true
  | .writeUnstable => n ∈ msUnstable && mode ∈ crossingModes && cycles = 2 + addrCost mode true
  | .rmw => (n, info.rmw) ∈ msRmws && mode ∈ memoryModes && cycles = 4 + addrCost mode true
  | .branch => n ∈ msBranches && cycles = 2
  | .jmp => n = 0x4C && cycles = 3
  | .jmpInd => n = 0x6C && cycles = 5
  | .jsr => n = 0x20 && cycles = 6
  | .rts => n = 0x60 && cycles = 6
  | .rti => n = 0x40 && cycles = 6
  | .brk => n = 0x00 && cycles = 7
  | .pushA => n = 0x48 && cycles = 3
  | .pushP => n = 0x08 && cycles = 3
  | .pullA => n = 0x68 && cycles = 4
  | .pullP => n = 0x28 && cycles = 4
  | .jam => n ∈ msJams
  | .implied => n ∈ impliedOps && cycles = 2

theorem byte_cases {P : Byte → Prop} (h : ∀ n < 256, P (BitVec.ofNat 8 n)) (b : Byte) : P b := by
  have := h b.toNat b.isLt
  rwa [BitVec.ofNat_toNat, BitVec.setWidth_eq] at this

theorem opcodeShape_eq_true (op : Byte) : opcodeShape op = true := by
  revert op
  refine byte_cases ?_
  decide +kernel

/-- The legacy code of an unstable store. -/
def legacyUnstable (op : Byte) (cpu : Cpu6502) : Nat × Cpu6502 :=
  let mode := (opcodeTable op).mode
  let (addr, cpu) := addrNoCross (addrOf mode) cpu
  let idx := indexOf mode cpu.toCpuRegs
  let (reg, regs) := msUnstableReg op cpu.toCpuRegs
  opShStore addr idx reg { cpu with toCpuRegs := regs }

theorem switch_read (cpu : Cpu6502) : ∀ n ∈ msReads,
    cpuExecuteSwitch (BitVec.ofNat 8 n) cpu =
      opReadCross (addrOf (opcodeTable (BitVec.ofNat 8 n)).mode)
        (msAluRead (BitVec.ofNat 8 n)) cpu := by
  simp only [msReads, List.forall_mem_cons, List.not_mem_nil, false_imp_iff,
    implies_true, and_true]
  and_intros
  all_goals rfl

theorem switch_write (cpu : Cpu6502) : ∀ n ∈ msWrites,
    cpuExecuteSwitch (BitVec.ofNat 8 n) cpu =
      opWrite (addrNoCross (addrOf (opcodeTable (BitVec.ofNat 8 n)).mode))
        (msStoreValue (BitVec.ofNat 8 n)) cpu := by
  simp only [msWrites, List.forall_mem_cons, List.not_mem_nil, false_imp_iff,
    implies_true, and_true]
  and_intros
  all_goals rfl

theorem switch_unstable (cpu : Cpu6502) : ∀ n ∈ msUnstable,
    cpuExecuteSwitch (BitVec.ofNat 8 n) cpu = legacyUnstable (BitVec.ofNat 8 n) cpu := by
  simp only [msUnstable, List.forall_mem_cons, List.not_mem_nil, false_imp_iff,
    implies_true, and_true]
  and_intros
  all_goals rfl

theorem switch_rmw (cpu : Cpu6502) : ∀ e ∈ msRmws,
    cpuExecuteSwitch (BitVec.ofNat 8 e.1) cpu =
      opRmwMem e.2 (addrNoCross (addrOf (opcodeTable (BitVec.ofNat 8 e.1)).mode)) cpu := by
  simp only [msRmws, List.forall_mem_cons, List.not_mem_nil, false_imp_iff,
    implies_true, and_true]
  and_intros
  all_goals rfl

theorem switch_branch (cpu : Cpu6502) : ∀ n ∈ msBranches,
    cpuExecuteSwitch (BitVec.ofNat 8 n) cpu = doBranch (msBranchTaken (BitVec.ofNat 8 n)) cpu := by
  simp only [msBranches, List.forall_mem_cons, List.not_mem_nil, false_imp_iff,
    implies_true, and_true]
  and_intros
  all_goals rfl

theorem switch_jam (cpu : Cpu6502) : ∀ n ∈ msJams,
    cpuExecuteSwitch (BitVec.ofNat 8 n) cpu = (0, { cpu with halted := true }) := by
  simp only [msJams, List.forall_mem_cons, List.not_mem_nil, false_imp_iff,
    implies_true, and_true]
  and_intros
  all_goals rfl

theorem opRorA_eq (r : CpuRegs) : opRorA r = msRmwA .ror r := by
  by_cases h : cpuGetFlag r flagCarry = true
  · simp only [opRorA, msRmwA, cpuRmwApply, h, if_true]; rfl
  · simp only [opRorA, msRmwA, cpuRmwApply, h]; rfl

theorem switch_implied (cpu : Cpu6502) : ∀ n ∈ impliedOps,
    cpuExecuteSwitch (BitVec.ofNat 8 n) cpu = opImplied (msImplied (BitVec.ofNat 8 n)) cpu := by
  simp only [impliedOps, List.forall_mem_cons, List.not_mem_nil, false_imp_iff,
    implies_true, and_true]
  and_intros
  -- ROR A tests the carry once, `cpuRmwApply` twice
  all_goals first
    | rfl
    | exact congrArg (fun r => (0, { cpu with toCpuRegs := r })) (opRorA_eq cpu.toCpuRegs)

/-- What the legacy switch does, told by the micro-sequencer's classes and routing. -/
def legacyByClass (op : Byte) (cpu : Cpu6502) : Nat × Cpu6502 :=
  let mode := (opcodeTable op).mode
  match (msTable op).cls with
  | .read => opReadCross (addrOf mode) (msAluRead op) cpu
  | .write => opWrite (addrNoCross (addrOf mode)) (msStoreValue op) cpu
  | .writeUnstable => legacyUnstable op cpu
  | .rmw => opRmwMem (msTable op).rmw (addrNoCross (addrOf mode)) cpu
  | .branch => doBranch (msBranchTaken op) cpu
  | .jmp => opJmp addrAbsolute cpu
  | .jmpInd => opJmp addrIndirect cpu
  | .jsr => opJsr cpu
  | .rts => opRts cpu
  | .rti => opRti cpu
  | .pushA => (0, cpuPush cpu.a cpu)
  | .pushP => (0, cpuPush (cpu.p ||| flagBreak ||| flagUnused) cpu)
  | .pullA => opPla cpu
  | .pullP => opPlp cpu
  | .brk => opBrk cpu
  | .jam => (0, { cpu with halted := true })
  | .implied => opImplied (msImplied op) cpu

theorem eq_of_toNat_eq {op : Byte} {n : Nat} (h : op.toNat = n) : op = BitVec.ofNat 8 n := by
  rw [← h, BitVec.ofNat_toNat, BitVec.setWidth_eq]

theorem cpuExecuteSwitch_eq (op : Byte) (cpu : Cpu6502) :
    cpuExecuteSwitch op cpu = legacyByClass op cpu := by
  have hop : BitVec.ofNat 8 op.toNat = op := (eq_of_toNat_eq rfl).symm
  have h := opcodeShape_eq_true op
  unfold opcodeShape at h
  unfold legacyByClass
  cases hc : (msTable op).cls <;>
    simp only [hc, Bool.and_eq_true, decide_eq_true_eq] at h ⊢
  case implied => simpa only [hop] using switch_implied cpu _ h.1
  case read => simpa only [hop] using switch_read cpu _ h.1
  case write => simpa only [hop] using switch_write cpu _ h.1.1
  case writeUnstable => simpa only [hop] using switch_unstable cpu _ h.1.1
  case rmw => simpa only [hop] using switch_rmw cpu _ h.1.1
  case branch => simpa only [hop] using switch_branch cpu _ h.1
  case jam => simpa only [hop] using switch_jam cpu _ h
  all_goals
    rw [eq_of_toNat_eq h.1]
    rfl

end Phosphoric
