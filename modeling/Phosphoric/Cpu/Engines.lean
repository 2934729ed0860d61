import Phosphoric.Cpu.Classes

/-!
# The two engines agree

**Theorem (`microseq_agrees_legacy`).** From any state between two instructions with no
interrupt due, running `cpuCycle` to the end of the instruction leaves the registers, the halted
flag and the memory that `cpuStepLegacy` leaves, and its clock unless the opcode is a JAM.

The bookkeeping of the cycles is peeled off first (`cpuCycleUntilDone_of_running`): what is left
is the plan, run one micro-operation after the other. The addressing phase is proved once for all
the classes that have one (`planAddressing_done`), each class then runs the rest of its plan.
-/

namespace Phosphoric

/-! ## Running a plan -/

/-- The fields the bookkeeping of a cycle writes and no micro-operation reads. -/
structure MsControl where
  pc : Nat
  active : Bool
  nmiSampled : Bool
  irqSampled : Bool

def MsControl.install (k : MsControl) (cpu : Cpu6502) : Cpu6502 :=
  { cpu with ms := { cpu.ms with
      pc := k.pc, active := k.active, nmiSampled := k.nmiSampled, irqSampled := k.irqSampled } }

/-- The micro-operations left, run one after the other. -/
def msRunPlan : List MicroOp → Cpu6502 → Cpu6502
  | [], cpu => cpu
  | mop :: rest, cpu =>
    if (msMicroOp mop cpu).1 = .done then (msMicroOp mop cpu).2
    else msRunPlan rest (msMicroOp mop cpu).2

theorem msNmiHijack_of_not_pending {cpu : Cpu6502} (h : cpu.nmiPending = false) :
    msNmiHijack cpu = cpu := by
  simp [msNmiHijack, h]

/-- Without an NMI, a micro-operation neither reads nor writes the bookkeeping. -/
theorem msMicroOp_install (mop : MicroOp) (k : MsControl) {cpu : Cpu6502}
    (h : cpu.nmiPending = false) :
    msMicroOp mop (k.install cpu) = ((msMicroOp mop cpu).1, k.install (msMicroOp mop cpu).2) := by
  have hsame : ∀ {c : Prop} [Decidable c] {a b a' b' : MsFlow × Cpu6502},
      a' = (a.1, k.install a.2) → b' = (b.1, k.install b.2) →
      (if c then a' else b') = ((if c then a else b).1, k.install (if c then a else b).2) := by
    intro c _ a b a' b' ha hb
    split
    · exact ha
    · exact hb
  cases mop
  case fetchLo | ptrHi | readFixup | readData | writeData => exact hsame rfl rfl
  case pushP =>
    unfold msMicroOp
    dsimp only
    rw [msNmiHijack_of_not_pending (by exact h), msNmiHijack_of_not_pending (by exact h)]
    rfl
  case pushPBrk =>
    unfold msMicroOp
    dsimp only
    rw [msNmiHijack_of_not_pending (by exact h), msNmiHijack_of_not_pending (by exact h)]
    exact hsame rfl rfl
  case vecHi =>
    have hload : msVecHi (k.install cpu) = k.install (msVecHi cpu) := rfl
    have htrace : cpuIrqTraceEntry (k.install (msVecHi cpu)) =
        k.install (cpuIrqTraceEntry (msVecHi cpu)) := by
      unfold cpuIrqTraceEntry
      split <;> rename_i hfp
      · rw [if_pos (by exact hfp)]; rfl
      · rw [if_neg (by exact hfp)]
    unfold msMicroOp
    dsimp only
    rw [hload, htrace]
    exact congrArg (Prod.mk MsFlow.next) (apply_ite k.install _ _ _).symm
  all_goals rfl

/-- What a micro-operation leaves alone without an NMI. -/
theorem msMicroOp_frame (mop : MicroOp) {cpu : Cpu6502} (h : cpu.nmiPending = false) :
    (msMicroOp mop cpu).2.nmiPending = false ∧
      (msMicroOp mop cpu).2.ms.plan = cpu.ms.plan ∧
      (msMicroOp mop cpu).2.ms.pc = cpu.ms.pc ∧
      (msMicroOp mop cpu).2.ms.active = cpu.ms.active ∧
      (msMicroOp mop cpu).2.ms.opcode = cpu.ms.opcode ∧
      (msMicroOp mop cpu).2.ms.rmw = cpu.ms.rmw ∧
      (msMicroOp mop cpu).2.ms.idx = cpu.ms.idx ∧
      ((msMicroOp mop cpu).1 ≠ .done → (msMicroOp mop cpu).2.halted = cpu.halted) := by
  cases mop
  case fetchLo | ptrHi | readFixup | readData | writeData =>
    unfold msMicroOp
    dsimp only
    split <;> exact ⟨h, rfl, rfl, rfl, rfl, rfl, rfl, fun _ => rfl⟩
  case jam => exact ⟨h, rfl, rfl, rfl, rfl, rfl, rfl, fun hd => absurd rfl hd⟩
  case pushP =>
    unfold msMicroOp
    dsimp only
    rw [msNmiHijack_of_not_pending (by exact h)]
    exact ⟨h, rfl, rfl, rfl, rfl, rfl, rfl, fun _ => rfl⟩
  case pushPBrk =>
    unfold msMicroOp
    dsimp only
    rw [msNmiHijack_of_not_pending (by exact h)]
    split <;> exact ⟨h, rfl, rfl, rfl, rfl, rfl, rfl, fun _ => rfl⟩
  case vecHi =>
    unfold msMicroOp cpuIrqTraceEntry
    dsimp only
    split
    · split <;> exact ⟨h, rfl, rfl, rfl, rfl, rfl, rfl, fun _ => rfl⟩
    · exact ⟨h, rfl, rfl, rfl, rfl, rfl, rfl, fun _ => rfl⟩
  all_goals exact ⟨h, rfl, rfl, rfl, rfl, rfl, rfl, fun _ => rfl⟩

theorem msRunPlan_install (rest : List MicroOp) (k : MsControl) {cpu : Cpu6502}
    (h : cpu.nmiPending = false) :
    msRunPlan rest (k.install cpu) = k.install (msRunPlan rest cpu) := by
  induction rest generalizing cpu with
  | nil => rfl
  | cons mop rest ih =>
    simp only [msRunPlan, msMicroOp_install mop k h]
    split
    · rfl
    · exact ih (msMicroOp_frame mop h).1

/-- A sequence in progress, with `rest` left of its plan. -/
structure MsRunning (rest : List MicroOp) (cpu : Cpu6502) : Prop where
  nmi : cpu.nmiPending = false
  halted : cpu.halted = false
  active : cpu.ms.active = true
  rest : cpu.ms.plan.drop cpu.ms.pc = rest

theorem cpuCycle_of_running {rest : List MicroOp} {cpu : Cpu6502} (h : MsRunning rest cpu) :
    cpuCycle cpu = msRunCycle rest cpu := by
  simp [cpuCycle, h.halted, h.active, h.rest]

/-- What is left after one micro-operation. -/
theorem MsRunning.tail {mop : MicroOp} {rest : List MicroOp} {cpu : Cpu6502}
    (h : MsRunning (mop :: rest) cpu) :
    cpu.ms.plan.drop (cpu.ms.pc + 1) = rest := by
  rw [← List.drop_drop, h.rest, List.drop_one, List.tail_cons]

/-- Repeating `cpu_cycle` runs the rest of the plan, whatever the fuel beyond it. -/
theorem cpuCycleUntilDone_of_running (rest : List MicroOp) {cpu : Cpu6502}
    (h : MsRunning rest cpu) : ∃ k : MsControl, ∀ fuel, rest.length < fuel →
      cpuCycleUntilDone fuel cpu = some (k.install (msRunPlan rest cpu)) := by
  induction rest generalizing cpu with
  | nil =>
    have hlast : cpu.ms.plan.length ≤ cpu.ms.pc + 1 := by
      have := List.drop_eq_nil_iff.1 h.rest
      omega
    refine ⟨⟨cpu.ms.pc + 1, false, cpu.ms.nmiSampled, cpu.ms.irqSampled⟩, ?_⟩
    rintro (_ | fuel) hfuel
    · simp at hfuel
    · simp [cpuCycleUntilDone, cpuCycle_of_running h, msRunCycle, msEndCycle, hlast,
        msSampleInterrupts, msRunPlan, MsControl.install]
  | cons mop rest ih =>
    obtain ⟨hnmi, hplan, hpc, hact, -, -, -, hhalt⟩ := msMicroOp_frame mop h.nmi
    have hrun := cpuCycle_of_running h
    rw [msRunCycle] at hrun
    unfold msRunPlan
    rcases hop : msMicroOp mop cpu with ⟨flow, cpu'⟩
    rw [hop] at hnmi hplan hpc hact hhalt hrun
    dsimp only at hnmi hplan hpc hact hhalt hrun ⊢
    cases flow with
    | done =>
      refine ⟨⟨cpu'.ms.pc, false, cpu'.ms.nmiSampled, cpu'.ms.irqSampled⟩, ?_⟩
      rintro (_ | fuel) hfuel
      · simp at hfuel
      · rw [cpuCycleUntilDone, hrun, if_pos rfl]
        rfl
    | next =>
      rw [if_neg (by decide)]
      have hend : cpuCycle cpu = msEndCycle cpu' := hrun
      simp only [msEndCycle, hpc, hplan] at hend
      by_cases hlast : cpu.ms.plan.length ≤ cpu.ms.pc + 1
      · -- the plan is over
        have hnil : rest = [] := by rw [← h.tail, List.drop_eq_nil_iff]; exact hlast
        refine ⟨⟨cpu.ms.pc + 1, false, cpu'.ms.nmiSampled, cpu'.ms.irqSampled⟩, ?_⟩
        rintro (_ | fuel) hfuel
        · simp at hfuel
        · rw [cpuCycleUntilDone, hend, hnil]
          simp [hlast, hplan, msSampleInterrupts, msRunPlan, MsControl.install]
      · let k : MsControl := ⟨cpu.ms.pc + 1, true, cpu'.nmiPending,
          (cpu'.irq != 0#8 || cpu'.irqPulse != 0#8) && !cpuGetFlag cpu'.toCpuRegs flagInterrupt⟩
        have hnext : cpuCycle cpu = (false, k.install cpu') := by
          rw [hend]
          simp [hlast, hplan, msSampleInterrupts, MsControl.install, k, hact, h.active]
        have hrunning : MsRunning rest (k.install cpu') :=
          ⟨hnmi, (hhalt (by decide)).trans h.halted, rfl, by
            show cpu'.ms.plan.drop (cpu.ms.pc + 1) = rest
            rw [hplan, h.tail]⟩
        obtain ⟨k', hk'⟩ := ih hrunning
        refine ⟨k', ?_⟩
        rintro (_ | fuel) hfuel
        · simp at hfuel
        · rw [cpuCycleUntilDone, hnext]
          dsimp only
          rw [hk' fuel (by simpa using hfuel), msRunPlan_install rest k hnmi]
          rfl
    | chain =>
      -- the same cycle goes on with the next micro-operation
      rw [if_neg (by decide)]
      let k : MsControl :=
        ⟨cpu'.ms.pc + 1, cpu'.ms.active, cpu'.ms.nmiSampled, cpu'.ms.irqSampled⟩
      have hnext : cpuCycle cpu = msRunCycle rest (k.install cpu') := hrun
      have hrunning : MsRunning rest (k.install cpu') :=
        ⟨hnmi, (hhalt (by decide)).trans h.halted, hact.trans h.active, by
          show cpu'.ms.plan.drop (cpu'.ms.pc + 1) = rest
          rw [hplan, hpc, h.tail]⟩
      obtain ⟨k', hk'⟩ := ih hrunning
      refine ⟨k', ?_⟩
      intro fuel hfuel
      have hsame : cpuCycleUntilDone fuel cpu = cpuCycleUntilDone fuel (k.install cpu') := by
        cases fuel with
        | zero => rfl
        | succ fuel =>
          rw [cpuCycleUntilDone, cpuCycleUntilDone, hnext, cpuCycle_of_running hrunning]
      rw [hsame, hk' fuel (by simp at hfuel; omega), msRunPlan_install rest k hnmi]
      rfl

/-! ## Straight plans -/

/-- The micro-operations an instruction of class `cls` can end with before its plan is over. -/
def mopEnds (cls : MsClass) (mop : MicroOp) : Bool :=
  mop = .jam || mop = .branchTaken || (mop = .fetchLo && cls = .branch)

theorem msMicroOp_not_done {mop : MicroOp} {cpu : Cpu6502}
    (h : mopEnds (msTable cpu.ms.opcode).cls mop = false) : (msMicroOp mop cpu).1 ≠ .done := by
  cases mop
  case jam | branchTaken => simp [mopEnds] at h
  case fetchLo =>
    have hcls : (msTable cpu.ms.opcode).cls ≠ .branch := by simpa [mopEnds] using h
    simp [msMicroOp, hcls]
  case ptrHi | readFixup | readData | writeData | pushPBrk =>
    unfold msMicroOp
    dsimp only
    split <;> exact fun hd => nomatch hd
  all_goals exact fun hd => nomatch hd

/-- The data effect of a micro-operation. -/
def msDataStep (cpu : Cpu6502) (mop : MicroOp) : Cpu6502 := (msMicroOp mop cpu).2

/-- A plan that cannot end early runs to its end. -/
theorem msRunPlan_straight (mops rest : List MicroOp) {cpu : Cpu6502}
    (hnmi : cpu.nmiPending = false)
    (h : mops.all (fun mop => !mopEnds (msTable cpu.ms.opcode).cls mop) = true) :
    msRunPlan (mops ++ rest) cpu = msRunPlan rest (mops.foldl msDataStep cpu) := by
  induction mops generalizing cpu with
  | nil => rfl
  | cons mop mops ih =>
    simp only [List.all_cons, Bool.and_eq_true, Bool.not_eq_true'] at h
    obtain ⟨hnmi', -, -, -, hop, -⟩ := msMicroOp_frame mop hnmi
    rw [List.cons_append, msRunPlan, if_neg (msMicroOp_not_done h.1),
      ih hnmi' (by rw [hop]; simpa using h.2)]
    rfl

/-! ## Agreement -/

/-- The two engines' processors agree on all but the clock and the bookkeeping. -/
structure Agree (m l : Cpu6502) : Prop where
  regs : m.toCpuRegs = l.toCpuRegs
  pc : m.pc = l.pc
  halted : m.halted = l.halted
  memory : m.memory = l.memory

/-- The bus accesses of the legacy addressing functions. -/
def addrAccesses (mode : AddressingMode) : Nat :=
  match mode with
  | .zeroPage | .zeroPageX | .zeroPageY => 1
  | .absolute | .absoluteX | .absoluteY => 2
  | .indexedIndirect | .indirectIndexed => 3
  | _ => 0

theorem addrAccesses_le (mode : AddressingMode) (dummy : Bool) :
    addrAccesses mode ≤ addrCost mode dummy := by
  cases mode <;> cases dummy <;> decide

theorem addrOf_cycles (mode : AddressingMode) (cpu : Cpu6502) :
    (addrOf mode cpu).2.cycles = cpu.cycles + addrAccesses mode := by
  cases mode <;> rfl

theorem addrOf_regs (mode : AddressingMode) (cpu : Cpu6502) :
    (addrOf mode cpu).2.toCpuRegs = cpu.toCpuRegs := by
  cases mode <;> rfl

/-- Only a crossed page costs more. -/
theorem addrCost_crossed (mode : AddressingMode) (cpu : Cpu6502) :
    addrCost mode (addrOf mode cpu).1.2 =
      addrCost mode false + (if (addrOf mode cpu).1.2 then 1 else 0) := by
  cases mode
  case absoluteX | absoluteY | indirectIndexed =>
    generalize (addrOf _ cpu).1.2 = crossed
    cases crossed <;> rfl
  all_goals rfl

/-- The legacy processor, in terms of the micro-sequencer's. -/
theorem Agree.exists {m l : Cpu6502} (h : Agree m l) :
    ∃ cyc nmi irq pulse fp count ev ms,
      l = ⟨m.toCpuRegs, m.pc, cyc, m.halted, nmi, irq, pulse, m.memory, fp, count, ev, ms⟩ := by
  obtain ⟨hregs, hpc, hhalt, hmem⟩ := h
  rcases l with ⟨lregs, lpc, cyc, lhalted, nmi, irq, pulse, lmem, fp, count, ev, ms⟩
  cases hregs
  cases hpc
  cases hhalt
  cases hmem
  exact ⟨cyc, nmi, irq, pulse, fp, count, ev, ms, rfl⟩

/-- What the addressing phase leaves, against what the legacy function returns. -/
structure AddrDone (mode : AddressingMode) (dummy : Bool) (m l m' : Cpu6502) : Prop where
  agree : Agree m' (addrOf mode l).2
  addr : m'.ms.addr = (addrOf mode l).1.1
  base : mode ∈ crossingModes →
    m'.ms.base = (addrOf mode l).1.1 - (indexOf mode l.toCpuRegs).setWidth 16
  cycles : m'.cycles = m.cycles + addrCost mode (dummy || (addrOf mode l).1.2)

theorem msDataStep_fetchLo (cpu : Cpu6502) :
    msDataStep cpu .fetchLo =
      { (cpuFetchByte cpu).2 with ms := { cpu.ms with
          ptr := (cpuFetchByte cpu).1
          adl := (cpuFetchByte cpu).1
          addr := (cpuFetchByte cpu).1.setWidth 16
          base := (cpuFetchByte cpu).1.setWidth 16 } } := by
  unfold msDataStep msMicroOp
  dsimp only
  split <;> rfl

/-- The dummy cycle of an indexing reads the bus and nothing else. -/
theorem addrDone_fixup {mode : AddressingMode} {dummy : Bool} {m l m' : Cpu6502}
    (hagree : Agree m' (addrOf mode l).2) (haddr : m'.ms.addr = (addrOf mode l).1.1)
    (hbase : m'.ms.base = (addrOf mode l).1.1 - (indexOf mode l.toCpuRegs).setWidth 16)
    (hcrossed : m'.ms.crossed = (addrOf mode l).1.2)
    (hcycles : ∀ d, m'.cycles + (if d then 1 else 0) = m.cycles + addrCost mode d) :
    AddrDone mode dummy m l (msDataStep m' (if dummy then .dummyUnfixed else .readFixup)) := by
  have hread : ∀ a, AddrDone mode true m l (cpuMemRead a m').2 := fun a =>
    ⟨⟨hagree.regs, hagree.pc, hagree.halted, hagree.memory⟩, haddr, fun _ => hbase, hcycles true⟩
  cases dummy with
  | true => exact hread _
  | false =>
    unfold msDataStep msMicroOp
    rw [if_neg (by decide)]
    dsimp only
    rw [hcrossed]
    cases hc : (addrOf mode l).1.2 with
    | true =>
      have h := hread (msUnfixed m'.ms)
      exact ⟨h.agree, h.addr, h.base, by rw [hc]; exact h.cycles⟩
    | false => exact ⟨hagree, haddr, fun _ => hbase, by rw [hc]; exact hcycles false⟩

theorem planAddressing_done {mode : AddressingMode} (hmode : mode ∈ memoryModes) (dummy : Bool)
    {m l : Cpu6502} (h : Agree m l) (hidx : m.ms.idx = msIndex mode) :
    AddrDone mode dummy m l ((planAddressing mode dummy).foldl msDataStep m) := by
  obtain ⟨⟨a, x, y, sp, p⟩, pc, mcyc, halted, mnmi, mirq, mpulse, mem, mfp, mcount, mev,
    ⟨act, op, mpc, plan, rmw, idx, ptr, adl, data, addr, base, crossed, ns, is, vec⟩⟩ := m
  obtain ⟨⟨a', x', y', sp', p'⟩, pc', cyc, halted', nmi, irq, pulse, mem', fp, count, ev, ms'⟩ := l
  obtain ⟨hregs, hpc, hhalt, hmem⟩ := h
  cases hregs
  cases hpc
  cases hhalt
  cases hmem
  obtain rfl : idx = msIndex mode := hidx
  simp only [memoryModes, List.mem_cons, List.not_mem_nil, or_false] at hmode
  rcases hmode with rfl | rfl | rfl | rfl | rfl | rfl | rfl | rfl
  case inl | inr.inl | inr.inr.inl | inr.inr.inr.inr.inr.inr.inl =>
    simp only [planAddressing, List.foldl, msDataStep_fetchLo]
    exact ⟨⟨rfl, rfl, rfl, rfl⟩, rfl, fun hc => absurd hc (by decide), rfl⟩
  case inr.inr.inr.inl =>
    simp only [planAddressing, List.foldl, msDataStep_fetchLo]
    exact ⟨⟨rfl, rfl, rfl, rfl⟩, BitVec.add_zero _, fun hc => absurd hc (by decide), rfl⟩
  all_goals
    simp only [planAddressing, List.foldl, msDataStep_fetchLo]
    refine addrDone_fixup ⟨rfl, rfl, rfl, rfl⟩ rfl (BitVec.add_sub_cancel _ _).symm rfl ?_
    intro d
    cases d <;> rfl

/-! ## Instructions -/

/-- The micro-sequencer has fetched `op` and built its plan, the legacy engine has fetched it. -/
structure MsStarted (op : Byte) (m l : Cpu6502) : Prop where
  agree : Agree m l
  cycles : m.cycles = l.cycles
  nmi : m.nmiPending = false
  opcode : m.ms.opcode = op
  idx : m.ms.idx = msIndex (opcodeTable op).mode
  rmw : m.ms.rmw = (msTable op).rmw
  vector : (msTable op).cls = .brk → m.ms.vector = 0xFFFE#16

/-- The micro-sequencer is done with an instruction that leaves the legacy engine at `r`, the
fetch being counted in neither `m'` nor `r` yet. -/
structure MsFinished (op : Byte) (l : Cpu6502) (r : Nat × Cpu6502) (m' : Cpu6502) : Prop where
  agree : Agree m' r.2
  cycles : m'.cycles + 1 = l.cycles + (opcodeTable op).cycles + r.1
  le_cycles : l.cycles ≤ r.2.cycles
  cycles_le : r.2.cycles + 1 ≤ l.cycles + (opcodeTable op).cycles + r.1

/-- A stretch of the plan leaves the instruction in progress as it is. -/
theorem foldl_frame (mops : List MicroOp) {cpu : Cpu6502} (h : cpu.nmiPending = false) :
    (mops.foldl msDataStep cpu).nmiPending = false ∧
      (mops.foldl msDataStep cpu).ms.opcode = cpu.ms.opcode ∧
      (mops.foldl msDataStep cpu).ms.rmw = cpu.ms.rmw := by
  induction mops generalizing cpu with
  | nil => exact ⟨h, rfl, rfl⟩
  | cons mop mops ih =>
    obtain ⟨hnmi, -, -, -, hop, hrmw, -, -⟩ := msMicroOp_frame mop h
    obtain ⟨h1, h2, h3⟩ := ih hnmi
    exact ⟨h1, h2.trans hop, h3.trans hrmw⟩

/-- Both engines have the address of the operand, and the micro-sequencer has `rest` to run. -/
structure Addressed (op : Byte) (mode : AddressingMode) (dummy : Bool) (l m' l' : Cpu6502)
    (addr : Word) (crossed : Bool) : Prop where
  agree : Agree m' l'
  nmi : m'.nmiPending = false
  opcode : m'.ms.opcode = op
  rmw : m'.ms.rmw = (msTable op).rmw
  msAddr : m'.ms.addr = addr
  msBase : mode ∈ crossingModes → m'.ms.base = addr - (indexOf mode l.toCpuRegs).setWidth 16
  regs : l'.toCpuRegs = l.toCpuRegs
  cycles : m'.cycles = l.cycles + addrCost mode (dummy || crossed)
  cost : addrCost mode crossed = addrCost mode false + (if crossed then 1 else 0)
  le_cycles : l.cycles ≤ l'.cycles
  cycles_le : l'.cycles ≤ l.cycles + addrCost mode false

/-- The addressing phase of an instruction, then the rest of its plan. -/
theorem msRunPlan_addressing {op : Byte} {mode : AddressingMode} {m l : Cpu6502}
    (h : MsStarted op m l) (hmode : (opcodeTable op).mode = mode) (hmem : mode ∈ memoryModes)
    (hcls : (msTable op).cls ≠ .branch) (dummy : Bool) (rest : List MicroOp) :
    ∃ m' l' addr crossed, addrOf mode l = ((addr, crossed), l') ∧
      msRunPlan (planAddressing mode dummy ++ rest) m = msRunPlan rest m' ∧
      Addressed op mode dummy l m' l' addr crossed := by
  obtain ⟨hnmi, hop, hrmw⟩ := foldl_frame (planAddressing mode dummy) h.nmi
  have hdone := planAddressing_done hmem dummy h.agree (by rw [h.idx, hmode])
  have hcycles := addrOf_cycles mode l
  have hle := addrAccesses_le mode false
  refine ⟨_, (addrOf mode l).2, (addrOf mode l).1.1, (addrOf mode l).1.2, rfl,
    msRunPlan_straight _ rest h.nmi ?_, hdone.agree, hnmi,
    hop.trans h.opcode, hrmw.trans h.rmw, hdone.addr, hdone.base, addrOf_regs mode l,
    by rw [hdone.cycles, h.cycles], addrCost_crossed mode l, by omega, by omega⟩
  rw [h.opcode]
  cases mode <;> cases dummy <;> simp [planAddressing, mopEnds, hcls]

theorem finished_read {op : Byte} {m l : Cpu6502} (h : MsStarted op m l)
    (hcls : (msTable op).cls = .read) :
    MsFinished op l (opReadCross (addrOf (opcodeTable op).mode) (msAluRead op) l)
      (msRunPlan (msPlan .read (opcodeTable op).mode) m) := by
  have hshape := opcodeShape_eq_true op
  simp only [opcodeShape, hcls, Bool.and_eq_true, decide_eq_true_eq] at hshape
  generalize hmode : (opcodeTable op).mode = mode at hshape
  by_cases himm : mode = .immediate
  · rw [if_pos himm, decide_eq_true_eq] at hshape
    subst himm
    obtain ⟨hregs, hpc, hhalt, hmem⟩ := h.agree
    have hcycles := h.cycles
    refine ⟨⟨?_, ?_, hhalt, hmem⟩, ?_, ?_, ?_⟩
    · show msAluRead m.ms.opcode (m.memory m.pc) m.toCpuRegs =
        msAluRead op (l.memory l.pc) l.toCpuRegs
      rw [h.opcode, hregs, hpc, hmem]
    · show m.pc + 1#16 = l.pc + 1#16
      rw [hpc]
    · show m.cycles + 1 + 1 = l.cycles + (opcodeTable op).cycles + 0
      omega
    · exact Nat.le_add_right _ 1
    · show l.cycles + 1 + 1 ≤ l.cycles + (opcodeTable op).cycles + 0
      omega
  · rw [if_neg himm, Bool.and_eq_true, decide_eq_true_eq, decide_eq_true_eq] at hshape
    obtain ⟨-, hmem, hcyc⟩ := hshape
    obtain ⟨m', l', addr, crossed, haddr, hrun, d⟩ :=
      msRunPlan_addressing h hmode hmem (by simp [hcls]) false [.readData]
    have hplan : msPlan .read mode = planAddressing mode false ++ [.readData] := by
      simp [msPlan, himm]
    have hdata : msRunPlan [.readData] m' =
        { (cpuMemRead m'.ms.addr m').2 with
          toCpuRegs := msAluRead op (m'.memory m'.ms.addr) m'.toCpuRegs
          ms := { m'.ms with data := m'.memory m'.ms.addr } } := by
      simp [msRunPlan, msMicroOp, d.opcode, hcls, cpuMemRead, cpuTick]
    have hcost := d.cost
    have hcycles := d.cycles
    have hle := d.le_cycles
    have hle' := d.cycles_le
    rw [hplan, hrun, hdata]
    unfold opReadCross
    rw [haddr]
    rw [Bool.false_or] at hcycles
    refine ⟨⟨?_, d.agree.pc, d.agree.halted, d.agree.memory⟩, ?_, ?_, ?_⟩
    · show msAluRead op (m'.memory m'.ms.addr) m'.toCpuRegs =
        msAluRead op (l'.memory addr) l'.toCpuRegs
      rw [d.msAddr, d.agree.regs, d.agree.memory]
    · show m'.cycles + 1 + 1 = l.cycles + (opcodeTable op).cycles + (if crossed then 1 else 0)
      omega
    · show l.cycles ≤ l'.cycles + 1
      omega
    · show l'.cycles + 1 + 1 ≤ l.cycles + (opcodeTable op).cycles + (if crossed then 1 else 0)
      omega

/-- An instruction without addressing phase, whose plan takes `n` cycles after the fetch. -/
theorem finished_control {op : Byte} {m l : Cpu6502} (h : MsStarted op m l) {plan : List MicroOp}
    {r : Nat × Cpu6502} (n b : Nat)
    (hends : plan.all (fun mop => !mopEnds (msTable op).cls mop) = true)
    (hagree : Agree (plan.foldl msDataStep m) r.2)
    (hcycles : (plan.foldl msDataStep m).cycles = m.cycles + n)
    (hlegacy : r.2.cycles = l.cycles + b) (hb : b ≤ n)
    (htable : (opcodeTable op).cycles + r.1 = n + 1) : MsFinished op l r (msRunPlan plan m) := by
  have hrun : msRunPlan plan m = plan.foldl msDataStep m := by
    have h' := msRunPlan_straight plan [] h.nmi (by rw [h.opcode]; exact hends)
    rwa [List.append_nil] at h'
  have hstart := h.cycles
  rw [hrun]
  exact ⟨hagree, by omega, by omega, by omega⟩

theorem finished_jmp {op : Byte} {m l : Cpu6502} (h : MsStarted op m l)
    (hcls : (msTable op).cls = .jmp) :
    MsFinished op l (opJmp addrAbsolute l) (msRunPlan (msPlan .jmp (opcodeTable op).mode) m) := by
  have hshape := opcodeShape_eq_true op
  simp only [opcodeShape, hcls, Bool.and_eq_true, decide_eq_true_eq] at hshape
  obtain ⟨cyc, nmi, irq, pulse, fp, count, ev, ms, rfl⟩ := h.agree.exists
  refine finished_control h 2 2 (by simp [msPlan, mopEnds, hcls]) ?_ ?_ rfl (by omega) hshape.2
  all_goals simp only [msPlan, List.foldl, msDataStep_fetchLo]
  · exact ⟨rfl, rfl, rfl, rfl⟩
  · rfl

theorem msDataStep_fetchHi_unindexed {cpu : Cpu6502} (h : cpu.ms.idx = .none) :
    msDataStep cpu .fetchHi =
      { (cpuFetchByte cpu).2 with ms := { cpu.ms with
          addr := Word.mk (cpuFetchByte cpu).1 cpu.ms.adl
          base := Word.mk (cpuFetchByte cpu).1 cpu.ms.adl
          crossed := false } } := by
  simp [msDataStep, msMicroOp, msApplyIndex, cpuFetchByte, cpuMemRead, cpuTick, h, pageCrossed]

theorem finished_jmpInd {op : Byte} {m l : Cpu6502} (h : MsStarted op m l)
    (hcls : (msTable op).cls = .jmpInd) :
    MsFinished op l (opJmp addrIndirect l)
      (msRunPlan (msPlan .jmpInd (opcodeTable op).mode) m) := by
  have hshape := opcodeShape_eq_true op
  simp only [opcodeShape, hcls, Bool.and_eq_true, decide_eq_true_eq] at hshape
  obtain ⟨cyc, nmi, irq, pulse, fp, count, ev, ms, rfl⟩ := h.agree.exists
  have hidx : m.ms.idx = .none := by rw [h.idx, eq_of_toNat_eq hshape.1]; rfl
  refine finished_control h 4 4 (by simp [msPlan, mopEnds, hcls]) ?_ ?_ rfl (by omega) hshape.2
  all_goals
    simp only [msPlan, List.foldl, msDataStep_fetchLo]
    rw [msDataStep_fetchHi_unindexed (by exact hidx)]
  · exact ⟨rfl, rfl, rfl, rfl⟩
  · rfl

theorem finished_jsr {op : Byte} {m l : Cpu6502} (h : MsStarted op m l)
    (hcls : (msTable op).cls = .jsr) :
    MsFinished op l (opJsr l) (msRunPlan (msPlan .jsr (opcodeTable op).mode) m) := by
  have hshape := opcodeShape_eq_true op
  simp only [opcodeShape, hcls, Bool.and_eq_true, decide_eq_true_eq] at hshape
  obtain ⟨cyc, nmi, irq, pulse, fp, count, ev, ms, rfl⟩ := h.agree.exists
  refine finished_control h 5 4 (by simp [msPlan, mopEnds, hcls]) ?_ ?_ rfl (by omega) hshape.2
  all_goals simp only [msPlan, List.foldl, msDataStep_fetchLo]
  · exact ⟨rfl, rfl, rfl, rfl⟩
  · rfl

theorem finished_rts {op : Byte} {m l : Cpu6502} (h : MsStarted op m l)
    (hcls : (msTable op).cls = .rts) :
    MsFinished op l (opRts l) (msRunPlan (msPlan .rts (opcodeTable op).mode) m) := by
  have hshape := opcodeShape_eq_true op
  simp only [opcodeShape, hcls, Bool.and_eq_true, decide_eq_true_eq] at hshape
  obtain ⟨cyc, nmi, irq, pulse, fp, count, ev, ms, rfl⟩ := h.agree.exists
  exact finished_control h 5 2 (by simp [msPlan, mopEnds]) ⟨rfl, rfl, rfl, rfl⟩ rfl rfl (by omega)
    hshape.2

theorem finished_rti {op : Byte} {m l : Cpu6502} (h : MsStarted op m l)
    (hcls : (msTable op).cls = .rti) :
    MsFinished op l (opRti l) (msRunPlan (msPlan .rti (opcodeTable op).mode) m) := by
  have hshape := opcodeShape_eq_true op
  simp only [opcodeShape, hcls, Bool.and_eq_true, decide_eq_true_eq] at hshape
  obtain ⟨cyc, nmi, irq, pulse, fp, count, ev, ms, rfl⟩ := h.agree.exists
  exact finished_control h 5 3 (by simp [msPlan, mopEnds]) ⟨rfl, rfl, rfl, rfl⟩ rfl rfl (by omega)
    hshape.2

theorem finished_pushA {op : Byte} {m l : Cpu6502} (h : MsStarted op m l)
    (hcls : (msTable op).cls = .pushA) :
    MsFinished op l (0, cpuPush l.a l) (msRunPlan (msPlan .pushA (opcodeTable op).mode) m) := by
  have hshape := opcodeShape_eq_true op
  simp only [opcodeShape, hcls, Bool.and_eq_true, decide_eq_true_eq] at hshape
  obtain ⟨cyc, nmi, irq, pulse, fp, count, ev, ms, rfl⟩ := h.agree.exists
  exact finished_control h 2 1 (by simp [msPlan, mopEnds]) ⟨rfl, rfl, rfl, rfl⟩ rfl rfl (by omega)
    hshape.2

theorem finished_pullA {op : Byte} {m l : Cpu6502} (h : MsStarted op m l)
    (hcls : (msTable op).cls = .pullA) :
    MsFinished op l (opPla l) (msRunPlan (msPlan .pullA (opcodeTable op).mode) m) := by
  have hshape := opcodeShape_eq_true op
  simp only [opcodeShape, hcls, Bool.and_eq_true, decide_eq_true_eq] at hshape
  obtain ⟨cyc, nmi, irq, pulse, fp, count, ev, ms, rfl⟩ := h.agree.exists
  exact finished_control h 3 1 (by simp [msPlan, mopEnds]) ⟨rfl, rfl, rfl, rfl⟩ rfl rfl (by omega)
    hshape.2

theorem finished_pullP {op : Byte} {m l : Cpu6502} (h : MsStarted op m l)
    (hcls : (msTable op).cls = .pullP) :
    MsFinished op l (opPlp l) (msRunPlan (msPlan .pullP (opcodeTable op).mode) m) := by
  have hshape := opcodeShape_eq_true op
  simp only [opcodeShape, hcls, Bool.and_eq_true, decide_eq_true_eq] at hshape
  obtain ⟨cyc, nmi, irq, pulse, fp, count, ev, ms, rfl⟩ := h.agree.exists
  exact finished_control h 3 1 (by simp [msPlan, mopEnds]) ⟨rfl, rfl, rfl, rfl⟩ rfl rfl (by omega)
    hshape.2

/-- PHP and BRK push P with B set; BRK alone masks the interrupts. -/
theorem msDataStep_pushPBrk {cpu : Cpu6502} (h : cpu.nmiPending = false) :
    msDataStep cpu .pushPBrk =
      (let cpu := cpuPush (cpu.p ||| flagBreak ||| flagUnused) cpu
      if cpu.ms.opcode == 0x00#8 then
        { cpu with toCpuRegs := cpuSetFlag cpu.toCpuRegs flagInterrupt true }
      else cpu) := by
  unfold msDataStep msMicroOp
  dsimp only
  rw [msNmiHijack_of_not_pending (by exact h)]
  exact apply_ite Prod.snd _ _ _

theorem finished_pushP {op : Byte} {m l : Cpu6502} (h : MsStarted op m l)
    (hcls : (msTable op).cls = .pushP) :
    MsFinished op l (0, cpuPush (l.p ||| flagBreak ||| flagUnused) l)
      (msRunPlan (msPlan .pushP (opcodeTable op).mode) m) := by
  have hshape := opcodeShape_eq_true op
  simp only [opcodeShape, hcls, Bool.and_eq_true, decide_eq_true_eq] at hshape
  have hop : (m.ms.opcode == 0x00#8) = false := by
    rw [h.opcode, eq_of_toNat_eq hshape.1]; rfl
  obtain ⟨cyc, nmi, irq, pulse, fp, count, ev, ms, rfl⟩ := h.agree.exists
  refine finished_control h 2 1 (by simp [msPlan, mopEnds]) ?_ ?_ rfl (by omega) hshape.2
  all_goals
    simp only [msPlan, List.foldl]
    rw [msDataStep_pushPBrk (by exact h.nmi)]
    dsimp only
    rw [if_neg (by exact ne_true_of_eq_false hop)]
  · exact ⟨rfl, rfl, rfl, rfl⟩
  · rfl

/-- The two vector reads of BRK. -/
theorem msDataStep_vector {cpu : Cpu6502} (hop : (cpu.ms.opcode == 0x00#8) = true) :
    msDataStep (msDataStep cpu .vecLo) .vecHi =
      msVecHi (msDataStep cpu .vecLo) := by
  unfold msDataStep msMicroOp
  dsimp only
  have hne : (cpu.ms.opcode != 0x00#8) = false := by rw [bne, hop]; rfl
  exact if_neg (ne_true_of_eq_false hne)

theorem msVecHi_pc {cpu : Cpu6502} (h : cpu.ms.vector = 0xFFFE#16) :
    (msVecHi (msDataStep cpu .vecLo)).pc =
      Word.mk (cpu.memory 0xFFFF#16) (cpu.memory 0xFFFE#16) := by
  show Word.mk (cpu.memory (cpu.ms.vector + 1#16)) (cpu.memory cpu.ms.vector) = _
  rw [h]
  rfl

theorem finished_brk {op : Byte} {m l : Cpu6502} (h : MsStarted op m l)
    (hcls : (msTable op).cls = .brk) :
    MsFinished op l (opBrk l) (msRunPlan (msPlan .brk (opcodeTable op).mode) m) := by
  have hshape := opcodeShape_eq_true op
  simp only [opcodeShape, hcls, Bool.and_eq_true, decide_eq_true_eq] at hshape
  have hop : (m.ms.opcode == 0x00#8) = true := by
    rw [h.opcode, eq_of_toNat_eq hshape.1]; rfl
  have hvec := h.vector hcls
  obtain ⟨cyc, nmi, irq, pulse, fp, count, ev, ms, rfl⟩ := h.agree.exists
  refine finished_control h 6 5 (by simp [msPlan, mopEnds]) ?_ ?_ rfl (by omega) hshape.2
  all_goals
    simp only [msPlan, List.foldl]
    rw [msDataStep_pushPBrk (by exact h.nmi)]
    dsimp only
    rw [if_pos (by exact hop), msDataStep_vector (by exact hop)]
  · exact ⟨rfl, msVecHi_pc (by exact hvec), rfl, rfl⟩
  · rfl

theorem finished_implied {op : Byte} {m l : Cpu6502} (h : MsStarted op m l)
    (hcls : (msTable op).cls = .implied) :
    MsFinished op l (opImplied (msImplied op) l)
      (msRunPlan (msPlan .implied (opcodeTable op).mode) m) := by
  have hshape := opcodeShape_eq_true op
  simp only [opcodeShape, hcls, Bool.and_eq_true, decide_eq_true_eq] at hshape
  have hop := h.opcode
  obtain ⟨cyc, nmi, irq, pulse, fp, count, ev, ms, rfl⟩ := h.agree.exists
  refine finished_control h 1 0 (by simp [msPlan, mopEnds]) ⟨?_, rfl, rfl, rfl⟩ rfl rfl (by omega)
    hshape.2
  show msImplied m.ms.opcode m.toCpuRegs = msImplied op m.toCpuRegs
  rw [hop]

theorem finished_write {op : Byte} {m l : Cpu6502} (h : MsStarted op m l)
    (hcls : (msTable op).cls = .write) :
    MsFinished op l (opWrite (addrNoCross (addrOf (opcodeTable op).mode)) (msStoreValue op) l)
      (msRunPlan (msPlan .write (opcodeTable op).mode) m) := by
  have hshape := opcodeShape_eq_true op
  simp only [opcodeShape, hcls, Bool.and_eq_true, decide_eq_true_eq] at hshape
  obtain ⟨⟨-, hmem⟩, hcyc⟩ := hshape
  generalize hmode : (opcodeTable op).mode = mode at hmem hcyc ⊢
  obtain ⟨m', l', addr, crossed, haddr, hrun, d⟩ :=
    msRunPlan_addressing h hmode hmem (by simp [hcls]) true [.writeData]
  have hcls' : (msTable m'.ms.opcode).cls ≠ .writeUnstable := by simp [d.opcode, hcls]
  have hdata : msRunPlan [.writeData] m' =
      cpuMemWrite m'.ms.addr (msStoreValue m'.ms.opcode m'.toCpuRegs) m' := by
    simp [msRunPlan, msMicroOp, hcls']
  have hcycles := d.cycles
  have hle := d.le_cycles
  have hle' := d.cycles_le
  have hdummy : addrCost mode false ≤ addrCost mode true := by cases mode <;> decide
  rw [Bool.true_or] at hcycles
  rw [msPlan, hrun, hdata]
  unfold opWrite addrNoCross
  rw [haddr]
  refine ⟨⟨d.agree.regs, d.agree.pc, d.agree.halted, ?_⟩, ?_, ?_, ?_⟩
  · show Function.update m'.memory m'.ms.addr (msStoreValue m'.ms.opcode m'.toCpuRegs) =
      Function.update l'.memory addr (msStoreValue op l'.toCpuRegs)
    rw [d.msAddr, d.opcode, d.agree.regs, d.agree.memory]
  · show m'.cycles + 1 + 1 = l.cycles + (opcodeTable op).cycles + 0
    omega
  · show l.cycles ≤ l'.cycles + 1
    omega
  · show l'.cycles + 1 + 1 ≤ l.cycles + (opcodeTable op).cycles + 0
    omega

theorem finished_writeUnstable {op : Byte} {m l : Cpu6502} (h : MsStarted op m l)
    (hcls : (msTable op).cls = .writeUnstable) :
    MsFinished op l (legacyUnstable op l)
      (msRunPlan (msPlan .writeUnstable (opcodeTable op).mode) m) := by
  have hshape := opcodeShape_eq_true op
  simp only [opcodeShape, hcls, Bool.and_eq_true, decide_eq_true_eq] at hshape
  obtain ⟨⟨-, hcross⟩, hcyc⟩ := hshape
  unfold legacyUnstable
  generalize hmode : (opcodeTable op).mode = mode at hcross hcyc ⊢
  have hmem : mode ∈ memoryModes := by
    revert hcross
    cases mode <;> decide
  obtain ⟨m', l', addr, crossed, haddr, hrun, d⟩ :=
    msRunPlan_addressing h hmode hmem (by simp [hcls]) true [.writeData]
  have hdata : msRunPlan [.writeData] m' =
      cpuMemWrite (cpuShUnstable m'.ms.base m'.ms.addr (msUnstableReg op m'.toCpuRegs).1).2
        (cpuShUnstable m'.ms.base m'.ms.addr (msUnstableReg op m'.toCpuRegs).1).1
        { m' with toCpuRegs := (msUnstableReg op m'.toCpuRegs).2 } := by
    simp [msRunPlan, msMicroOp, d.opcode, hcls]
  have hcycles := d.cycles
  have hle := d.le_cycles
  have hle' := d.cycles_le
  have hdummy : addrCost mode false ≤ addrCost mode true := by cases mode <;> decide
  have hbase := d.msBase hcross
  rw [Bool.true_or] at hcycles
  rw [msPlan, hrun, hdata]
  unfold addrNoCross
  dsimp only
  rw [haddr, hbase, d.msAddr, d.agree.regs, ← d.regs]
  refine ⟨⟨rfl, d.agree.pc, d.agree.halted, ?_⟩, ?_, ?_, ?_⟩
  · show Function.update m'.memory _ _ = Function.update l'.memory _ _
    rw [d.agree.memory]
    rfl
  · show m'.cycles + 1 + 1 = l.cycles + (opcodeTable op).cycles + 0
    omega
  · show l.cycles ≤ l'.cycles + 1
    omega
  · show l'.cycles + 1 + 1 ≤ l.cycles + (opcodeTable op).cycles + 0
    omega

theorem finished_rmw {op : Byte} {m l : Cpu6502} (h : MsStarted op m l)
    (hcls : (msTable op).cls = .rmw) :
    MsFinished op l (opRmwMem (msTable op).rmw (addrNoCross (addrOf (opcodeTable op).mode)) l)
      (msRunPlan (msPlan .rmw (opcodeTable op).mode) m) := by
  have hshape := opcodeShape_eq_true op
  simp only [opcodeShape, hcls, Bool.and_eq_true, decide_eq_true_eq] at hshape
  obtain ⟨⟨-, hmem⟩, hcyc⟩ := hshape
  generalize hmode : (opcodeTable op).mode = mode at hmem hcyc ⊢
  obtain ⟨m', l', addr, crossed, haddr, hrun, d⟩ :=
    msRunPlan_addressing h hmode hmem (by simp [hcls]) true [.readData, .rmwOrig, .rmwNew]
  have hread : (msTable m'.ms.opcode).cls ≠ .read := by simp [d.opcode, hcls]
  have hplan : msPlan .rmw mode =
      planAddressing mode true ++ [.readData, .rmwOrig, .rmwNew] := by
    have hacc : mode ≠ .accumulator := by
      rintro rfl
      exact absurd hmem (by decide)
    simp [msPlan, hacc]
  have hdata : msRunPlan [.readData, .rmwOrig, .rmwNew] m' =
      (let v := m'.memory m'.ms.addr
      let r := cpuRmwApply (msTable op).rmw v m'.toCpuRegs
      let c := cpuMemWrite m'.ms.addr v
        { (cpuMemRead m'.ms.addr m').2 with ms := { m'.ms with data := v } }
      cpuMemWrite m'.ms.addr r.1
        { c with toCpuRegs := r.2, ms := { c.ms with data := r.1 } }) := by
    rw [← d.rmw]
    simp [msRunPlan, msMicroOp, hread, cpuMemRead, cpuMemWrite, cpuTick]
  have hcycles := d.cycles
  have hle := d.le_cycles
  have hle' := d.cycles_le
  have hdummy : addrCost mode false ≤ addrCost mode true := by cases mode <;> decide
  rw [Bool.true_or] at hcycles
  rw [hplan, hrun, hdata]
  unfold opRmwMem addrNoCross
  rw [haddr]
  refine ⟨⟨?_, d.agree.pc, d.agree.halted, ?_⟩, ?_, ?_, ?_⟩
  · show (cpuRmwApply _ (m'.memory m'.ms.addr) m'.toCpuRegs).2 =
      (cpuRmwApply _ (l'.memory addr) l'.toCpuRegs).2
    rw [d.msAddr, d.agree.regs, d.agree.memory]
  · show Function.update (Function.update m'.memory _ _) _
        (cpuRmwApply _ (m'.memory m'.ms.addr) m'.toCpuRegs).1 =
      Function.update (Function.update l'.memory addr (l'.memory addr)) addr
        (cpuRmwApply _ (l'.memory addr) l'.toCpuRegs).1
    rw [d.msAddr, d.agree.regs, d.agree.memory]
  · show m'.cycles + 1 + 1 + 1 + 1 = l.cycles + (opcodeTable op).cycles + 0
    omega
  · show l.cycles ≤ l'.cycles + 1 + 1 + 1
    omega
  · show l'.cycles + 1 + 1 + 1 + 1 ≤ l.cycles + (opcodeTable op).cycles + 0
    omega

/-- The dummy reads of a branch and its page fix-up end where the legacy engine jumps to. -/
theorem branch_target (pc target : Word) (h : pageCrossed pc target = false) :
    (pc &&& 0xFF00#16) ||| (target &&& 0x00FF#16) = target := by
  have h' : pc &&& 0xFF00#16 = target &&& 0xFF00#16 := by simpa [pageCrossed] using h
  rw [h']
  ext i hi
  simp only [BitVec.getElem_or, BitVec.getElem_and]
  interval_cases i <;> simp

theorem msMicroOp_fetchLo_branch {cpu : Cpu6502} (h : (msTable cpu.ms.opcode).cls = .branch) :
    msMicroOp .fetchLo cpu =
      (if msBranchTaken cpu.ms.opcode cpu.toCpuRegs then .next else .done,
        msDataStep cpu .fetchLo) := by
  have hregs : ∀ c : Cpu6502, (cpuFetchByte c).2.toCpuRegs = c.toCpuRegs := fun _ => rfl
  unfold msDataStep msMicroOp
  dsimp only
  rw [hregs]
  cases msBranchTaken cpu.ms.opcode cpu.toCpuRegs <;> simp [h]

theorem finished_branch {op : Byte} {m l : Cpu6502} (h : MsStarted op m l)
    (hcls : (msTable op).cls = .branch) :
    MsFinished op l (doBranch (msBranchTaken op) l)
      (msRunPlan (msPlan .branch (opcodeTable op).mode) m) := by
  have hshape := opcodeShape_eq_true op
  simp only [opcodeShape, hcls, Bool.and_eq_true, decide_eq_true_eq] at hshape
  have hop := h.opcode
  have hstart := h.cycles
  have hbranch : (msTable m.ms.opcode).cls = .branch := by rw [hop, hcls]
  have hfetch := msMicroOp_fetchLo_branch hbranch
  rw [hop] at hfetch
  obtain ⟨cyc, nmi, irq, pulse, fp, count, ev, ms, rfl⟩ := h.agree.exists
  obtain ⟨-, hcyc⟩ := hshape
  dsimp only at hstart
  subst hstart
  simp only [msPlan, msRunPlan, hfetch]
  by_cases htaken : msBranchTaken op m.toCpuRegs = true
  · let pc := m.pc + 1#16
    let target := pc + (m.memory m.pc).signExtend 16
    have hflow : (msMicroOp .branchTaken (msDataStep m .fetchLo)).1 =
        if pageCrossed pc target then .next else .done := by
      rw [msDataStep_fetchLo]
      rfl
    have hlegacy : doBranch (msBranchTaken op)
          ⟨m.toCpuRegs, m.pc, m.cycles, m.halted, nmi, irq, pulse, m.memory, fp, count, ev, ms⟩ =
        (if pageCrossed pc target then 2 else 1,
          { (cpuFetchByte ⟨m.toCpuRegs, m.pc, m.cycles, m.halted, nmi, irq, pulse, m.memory, fp,
              count, ev, ms⟩).2 with pc := target }) := if_pos htaken
    have hpage : ∀ c, (msMicroOp .branchPage c).1 = .next := fun _ => rfl
    rw [if_pos htaken, hflow, hlegacy, hpage]
    by_cases hc : pageCrossed pc target = true
    · -- one more cycle fixes the high byte of PC
      simp only [if_pos hc, reduceCtorEq, if_false]
      rw [msDataStep_fetchLo]
      refine ⟨⟨rfl, rfl, rfl, rfl⟩, ?_, Nat.le_add_right _ 1, ?_⟩
      · show m.cycles + 1 + 1 + 1 + 1 = m.cycles + (opcodeTable op).cycles + 2
        omega
      · show m.cycles + 1 + 1 ≤ m.cycles + (opcodeTable op).cycles + 2
        omega
    · simp only [if_neg hc, reduceCtorEq, if_false, if_true]
      rw [msDataStep_fetchLo]
      refine ⟨⟨rfl, branch_target pc target (Bool.eq_false_iff.2 hc), rfl, rfl⟩, ?_,
        Nat.le_add_right _ 1, ?_⟩
      · show m.cycles + 1 + 1 + 1 = m.cycles + (opcodeTable op).cycles + 1
        omega
      · show m.cycles + 1 + 1 ≤ m.cycles + (opcodeTable op).cycles + 1
        omega
  · -- the fetch of the offset is the last cycle
    rw [if_neg htaken, if_pos rfl, msDataStep_fetchLo]
    unfold doBranch
    dsimp only
    rw [if_neg htaken]
    refine ⟨⟨rfl, rfl, rfl, rfl⟩, ?_, Nat.le_add_right _ 1, ?_⟩
    · show m.cycles + 1 + 1 = m.cycles + (opcodeTable op).cycles + 0
      omega
    · show m.cycles + 1 + 1 ≤ m.cycles + (opcodeTable op).cycles + 0
      omega

/-- Every class but JAM: the plan ends where the legacy switch does, after as many cycles. -/
theorem finished_of_started {op : Byte} {m l : Cpu6502} (h : MsStarted op m l)
    (hjam : (msTable op).cls ≠ .jam) :
    MsFinished op l (cpuExecuteSwitch op l)
      (msRunPlan (msPlan (msTable op).cls (opcodeTable op).mode) m) := by
  rw [cpuExecuteSwitch_eq]
  unfold legacyByClass
  cases hcls : (msTable op).cls with
  | jam => exact absurd hcls hjam
  | implied => exact finished_implied h hcls
  | read => exact finished_read h hcls
  | write => exact finished_write h hcls
  | writeUnstable => exact finished_writeUnstable h hcls
  | rmw => exact finished_rmw h hcls
  | branch => exact finished_branch h hcls
  | jmp => exact finished_jmp h hcls
  | jmpInd => exact finished_jmpInd h hcls
  | jsr => exact finished_jsr h hcls
  | rts => exact finished_rts h hcls
  | rti => exact finished_rti h hcls
  | pushA => exact finished_pushA h hcls
  | pushP => exact finished_pushP h hcls
  | pullA => exact finished_pullA h hcls
  | pullP => exact finished_pullP h hcls
  | brk => exact finished_brk h hcls

/-- No plan overflows the ten entries there is room for. -/
theorem msPlan_fits (cls : MsClass) (mode : AddressingMode) :
    (msPlan cls mode).foldl planAdd [] = msPlan cls mode ∧ (msPlan cls mode).length ≤ 7 := by
  cases cls <;> cases mode <;> decide

/-! ## Whole instructions -/

/-- No interrupt is due: no NMI, no sampled IRQ, and the lines are quiet or masked. -/
structure NoInterrupt (cpu : Cpu6502) : Prop where
  nmi : cpu.nmiPending = false
  sampled : cpu.ms.irqSampled = false
  lines : cpu.irq ≠ 0#8 ∨ cpu.irqPulse ≠ 0#8 → cpuGetFlag cpu.toCpuRegs flagInterrupt = true

theorem cpuCycle_start {cpu : Cpu6502} (hhalted : cpu.halted = false)
    (hidle : cpu.ms.active = false) (hno : NoInterrupt cpu) :
    cpuCycle cpu = msStartInstruction cpu := by
  simp [cpuCycle, hhalted, hidle, hno.nmi, hno.sampled]

theorem cpuStepLegacy_eq {cpu : Cpu6502} (hhalted : cpu.halted = false) (hno : NoInterrupt cpu) :
    cpuStepLegacy cpu =
      (let op := cpu.memory cpu.pc
      let r := cpuExecuteSwitch op (cpuFetchByte cpu).2
      let cyc := (opcodeTable op).cycles + r.1
      (cyc, cpuPad cpu.cycles cyc r.2)) := by
  have hirq : ((cpu.irq != 0#8 || cpu.irqPulse != 0#8) &&
      !cpuGetFlag cpu.toCpuRegs flagInterrupt) = false := by
    have h := hno.lines
    by_cases hf : cpuGetFlag cpu.toCpuRegs flagInterrupt = true
    · rw [hf, Bool.not_true, Bool.and_false]
    · simp only [ne_eq, imp_iff_not hf, not_or, not_not] at h
      simp [h.1, h.2]
  have hop : (cpuFetchByte cpu).1 = cpu.memory cpu.pc := rfl
  simp only [cpuStepLegacy, hhalted, hno.nmi, hirq, if_false, Bool.false_eq_true, cpuExecuteOpcode,
    hop]

/-- The first cycle fetches the opcode and builds the plan. -/
theorem msStartInstruction_started {cpu l : Cpu6502} {op : Byte}
    (hfetch : cpuFetchByte cpu = (op, l))
    (hhalted : l.halted = false) (hnmi : l.nmiPending = false) :
    ∃ m, msStartInstruction cpu = (false, m) ∧ MsStarted op m l ∧
      MsRunning (msPlan (msTable op).cls (opcodeTable op).mode) m := by
  have hstart : msStartInstruction cpu = (false, msSampleInterrupts false
      { l with ms := { msBuildPlan op l.ms with active := true } }) := by
    rw [msStartInstruction, hfetch]
  have hplan : (msBuildPlan op l.ms).plan.drop 0 =
      msPlan (msTable op).cls (opcodeTable op).mode :=
    (msPlan_fits (msTable op).cls (opcodeTable op).mode).1
  refine ⟨_, hstart, ?_, ⟨?_, ?_, ?_, ?_⟩⟩
  · exact {
      agree := ⟨rfl, rfl, rfl, rfl⟩
      cycles := rfl
      nmi := hnmi
      opcode := rfl
      idx := rfl
      rmw := rfl
      vector := fun h => if_pos h }
  · exact hnmi
  · exact hhalted
  · rfl
  · exact hplan

theorem cpuPad_agree {m l : Cpu6502} (before n : Nat) (h : Agree m l) :
    Agree m (cpuPad before n l) := by
  unfold cpuPad
  split
  · exact ⟨h.regs, h.pc, h.halted, h.memory⟩
  · exact h

theorem cpuPad_cycles {before n : Nat} {cpu : Cpu6502} (h : before ≤ cpu.cycles)
    (hle : cpu.cycles ≤ before + n) : (cpuPad before n cpu).cycles = before + n := by
  unfold cpuPad
  split
  · show cpu.cycles + (n - (cpu.cycles - before)) = before + n
    omega
  · omega

/-- **The engines agree.** From any state between two instructions with no interrupt due, the
cycles of the micro-sequencer end after at most nine of them, with the registers, the halted flag
and the memory the legacy engine leaves; and with its clock, unless the opcode is a JAM. -/
theorem microseq_agrees_legacy {cpu : Cpu6502} (hhalted : cpu.halted = false)
    (hidle : cpu.ms.active = false) (hno : NoInterrupt cpu) :
    ∃ cpu', (∀ fuel, 9 ≤ fuel → cpuCycleUntilDone fuel cpu = some cpu') ∧
      Agree cpu' (cpuStepLegacy cpu).2 ∧
      ((cpu.memory cpu.pc).toNat ∉ msJams → cpu'.cycles = (cpuStepLegacy cpu).2.cycles) := by
  have hfirst : cpuFetchByte cpu = (cpu.memory cpu.pc, (cpuFetchByte cpu).2) := rfl
  obtain ⟨m, hstart, hstarted, hrunning⟩ := msStartInstruction_started hfirst hhalted hno.nmi
  rw [cpuStepLegacy_eq hhalted hno]
  generalize hl : (cpuFetchByte cpu).2 = l at *
  have hfetch : l.cycles = cpu.cycles + 1 := by rw [← hl]; rfl
  generalize cpu.memory cpu.pc = op at *
  obtain ⟨k, hk⟩ := cpuCycleUntilDone_of_running _ hrunning
  have hlength := (msPlan_fits (msTable op).cls (opcodeTable op).mode).2
  refine ⟨k.install (msRunPlan (msPlan (msTable op).cls (opcodeTable op).mode) m), ?_, ?_⟩
  · rintro (_ | fuel) hfuel
    · omega
    · rw [cpuCycleUntilDone, cpuCycle_start hhalted hidle hno, hstart]
      exact hk fuel (by omega)
  dsimp only
  by_cases hjam : (msTable op).cls = .jam
  · have hmem : op.toNat ∈ msJams := by
      have hshape := opcodeShape_eq_true op
      simpa only [opcodeShape, hjam, decide_eq_true_eq] using hshape
    have hswitch : cpuExecuteSwitch op l = (0, { l with halted := true }) := by
      rw [cpuExecuteSwitch_eq]
      unfold legacyByClass
      rw [hjam]
    rw [hswitch, hjam]
    exact ⟨cpuPad_agree _ _ ⟨hstarted.agree.regs, hstarted.agree.pc, rfl, hstarted.agree.memory⟩,
      fun h => absurd hmem h⟩
  · have hfin := finished_of_started hstarted hjam
    refine ⟨cpuPad_agree _ _ ⟨hfin.agree.regs, hfin.agree.pc, hfin.agree.halted,
      hfin.agree.memory⟩, fun _ => ?_⟩
    have hc := hfin.cycles
    have hle := hfin.le_cycles
    have hle' := hfin.cycles_le
    rw [cpuPad_cycles (by omega) (by omega)]
    show (msRunPlan _ m).cycles = _
    omega

/-- A decimal `ADC $20FF,X` across a page. -/
def adcSample : Cpu6502 :=
  { cpuInit (fun addr =>
      if addr = 0x0400#16 then 0x7D#8 else if addr = 0x0401#16 then 0xFF#8
      else if addr = 0x0402#16 then 0x20#8 else 0x58#8) with
    a := 0x46#8, x := 0x01#8, p := flagUnused ||| flagDecimal, pc := 0x0400#16 }

theorem microseq_agrees_legacy_adcSample :
    ∃ cpu', (∀ fuel, 9 ≤ fuel → cpuCycleUntilDone fuel adcSample = some cpu') ∧
      Agree cpu' (cpuStepLegacy adcSample).2 ∧
      ((adcSample.memory adcSample.pc).toNat ∉ msJams →
        cpu'.cycles = (cpuStepLegacy adcSample).2.cycles) :=
  microseq_agrees_legacy rfl rfl ⟨rfl, rfl, fun h => absurd h (by decide)⟩

end Phosphoric
