import Phosphoric.Cpu.Nmi

/-!
# Return from interrupt

An interrupt pushes PC and P, high byte first, and RTI pulls them back. What is on the stack in
between is one relation (`Pushed`), which a push and a pull move up and down by a byte, wherever the
stack pointer wraps.

**Theorem (`interrupt_rti`).** In either engine an interrupt taken, by NMI or IRQ, and an RTI
executed at the address its vector gives restore the registers and PC: for any changes of the lines
and of the memory that leave the bytes pushed alone, and for any NMI that takes an IRQ over in
between. `Entering` and `Returning` say what the two sequences have done after each cycle.
-/

namespace Phosphoric

/-! ## The stack -/

theorem stackAddr_inj {s t : Byte} : stackAddr s = stackAddr t ↔ s = t := by
  refine ⟨fun h => ?_, congrArg stackAddr⟩
  have hs := s.isLt
  have ht := t.isLt
  have hnat := congrArg BitVec.toNat h
  simp only [stackAddr, BitVec.toNat_add, BitVec.toNat_setWidth, BitVec.toNat_ofNat] at hnat
  exact BitVec.eq_of_toNat_eq (by omega)

/-- The slot of the byte pushed `i`-th. -/
def stackSlot (cpu₀ : Cpu6502) (i : Nat) : Word := stackAddr (cpu₀.sp - BitVec.ofNat 8 i)

/-- What an interrupt pushes. -/
def interruptByte (cpu₀ : Cpu6502) : Nat → Byte
  | 0 => Word.hi cpu₀.pc
  | 1 => Word.lo cpu₀.pc
  | _ => (cpu₀.p &&& ~~~flagBreak) ||| flagUnused

/-- The first `n` bytes are on the stack, and A, X and Y are as they were. -/
structure Pushed (cpu₀ : Cpu6502) (n : Nat) (cpu : Cpu6502) : Prop where
  a : cpu.a = cpu₀.a
  x : cpu.x = cpu₀.x
  y : cpu.y = cpu₀.y
  sp : cpu.sp = cpu₀.sp - BitVec.ofNat 8 n
  slots : ∀ i < n, cpu.memory (stackSlot cpu₀ i) = interruptByte cpu₀ i

variable {cpu₀ cpu : Cpu6502} {n : Nat}

theorem pushed_zero (cpu₀ : Cpu6502) : Pushed cpu₀ 0 cpu₀ where
  a := rfl
  x := rfl
  y := rfl
  sp := (BitVec.sub_zero _).symm
  slots := nofun

/-- Only the registers, the stack and the stack pointer are looked at. -/
theorem Pushed.congr {cpu' : Cpu6502} (h : Pushed cpu₀ n cpu) (ha : cpu'.a = cpu.a)
    (hx : cpu'.x = cpu.x) (hy : cpu'.y = cpu.y) (hsp : cpu'.sp = cpu.sp)
    (hmemory : cpu'.memory = cpu.memory) : Pushed cpu₀ n cpu' where
  a := ha.trans h.a
  x := hx.trans h.x
  y := hy.trans h.y
  sp := hsp.trans h.sp
  slots i hi := by
    rw [hmemory]
    exact h.slots i hi

theorem Pushed.push (h : Pushed cpu₀ n cpu) (hn : n < 3) :
    Pushed cpu₀ (n + 1) (cpuPush (interruptByte cpu₀ n) cpu) where
  a := h.a
  x := h.x
  y := h.y
  sp := by
    change cpu.sp - 1#8 = _
    rw [h.sp, BitVec.ofNat_add, BitVec.sub_sub]
  slots i hi := by
    change Function.update cpu.memory (stackAddr cpu.sp) (interruptByte cpu₀ n) _ = _
    have hslot : stackAddr cpu.sp = stackSlot cpu₀ n := congrArg stackAddr h.sp
    rw [hslot]
    by_cases hlast : i = n
    · rw [hlast, Function.update_self]
    · have hne : stackSlot cpu₀ i ≠ stackSlot cpu₀ n := by
        rw [stackSlot, stackSlot, ne_eq, stackAddr_inj]
        bv_omega
      rw [Function.update_of_ne hne]
      exact h.slots i (by omega)

theorem Pushed.pull (h : Pushed cpu₀ (n + 1) cpu) :
    (cpuPull cpu).1 = interruptByte cpu₀ n ∧ Pushed cpu₀ n (cpuPull cpu).2 := by
  have hsp : cpu.sp + 1#8 = cpu₀.sp - BitVec.ofNat 8 n := by
    rw [h.sp, BitVec.ofNat_add, ← BitVec.sub_sub, BitVec.sub_add_cancel]
  constructor
  · change cpu.memory (stackAddr (cpu.sp + 1#8)) = _
    rw [hsp]
    exact h.slots n (Nat.lt_succ_self n)
  · exact ⟨h.a, h.x, h.y, hsp, fun i hi => h.slots i (Nat.lt_succ_of_lt hi)⟩

/-- An operation that leaves the bytes on the stack alone. -/
def KeepsPushed (cpu₀ cpu : Cpu6502) : CpuOp → Prop
  | .setMemory memory =>
    ∀ i < (cpu₀.sp - cpu.sp).toNat, memory (stackSlot cpu₀ i) = cpu.memory (stackSlot cpu₀ i)
  | op => op.isLine

theorem KeepsPushed.isLine {op : CpuOp} (h : KeepsPushed cpu₀ cpu op) : op.isLine := by
  cases op with
  | setMemory memory => trivial
  | _ => exact h

/-- What the operations other than a cycle leave alone. -/
structure CpuStill (cpu cpu' : Cpu6502) : Prop where
  regs : cpu'.toCpuRegs = cpu.toCpuRegs
  pc : cpu'.pc = cpu.pc
  halted : cpu'.halted = cpu.halted
  ms : cpu'.ms = cpu.ms

theorem cpuOp_still (cpu : Cpu6502) {op : CpuOp} (hop : op.isLine) (hcycle : op ≠ .cycle) :
    CpuStill cpu (cpuOp cpu op) := by
  cases op with
  | cycle => exact absurd rfl hcycle
  | reset => exact hop.elim
  | setMicroseq => exact hop.elim
  | _ => exact ⟨rfl, rfl, rfl, rfl⟩

theorem Pushed.op (h : Pushed cpu₀ n cpu) (hn : n ≤ 3) {op : CpuOp}
    (hkeeps : KeepsPushed cpu₀ cpu op) (hcycle : op ≠ .cycle) : Pushed cpu₀ n (cpuOp cpu op) := by
  have hstill := cpuOp_still cpu hkeeps.isLine hcycle
  refine ⟨?_, ?_, ?_, ?_, fun i hi => ?_⟩
  · rw [hstill.regs]
    exact h.a
  · rw [hstill.regs]
    exact h.x
  · rw [hstill.regs]
    exact h.y
  · rw [hstill.regs]
    exact h.sp
  · cases op with
    | cycle => exact absurd rfl hcycle
    | reset => exact hkeeps.elim
    | setMicroseq => exact hkeeps.elim
    | setMemory memory =>
      have hcount : (cpu₀.sp - cpu.sp).toNat = n := by
        rw [h.sp]
        bv_omega
      rw [← h.slots i hi]
      exact hkeeps i (by omega)
    | _ => exact h.slots i hi

/-- What RTI makes of the P that was pushed. -/
theorem interruptByte_p (hp : cpu₀.p &&& flagUnused = flagUnused ∧ cpu₀.p &&& flagBreak = 0#8) :
    (interruptByte cpu₀ 2 &&& ~~~flagBreak) ||| flagUnused = cpu₀.p := by
  have hall : ∀ p : Byte, p &&& flagUnused = flagUnused ∧ p &&& flagBreak = 0#8 →
      ((((p &&& ~~~flagBreak) ||| flagUnused) &&& ~~~flagBreak) ||| flagUnused) = p := by
    decide
  exact hall _ hp

/-- The registers once everything is pulled. -/
theorem Pushed.regs (h : Pushed cpu₀ 0 cpu) (hp : cpu.p = cpu₀.p) :
    cpu.toCpuRegs = cpu₀.toCpuRegs := by
  have hsp : cpu.sp = cpu₀.sp := h.sp.trans (BitVec.sub_zero _)
  obtain ⟨⟨a, x, y, sp, p⟩⟩ := cpu
  obtain ⟨⟨a', x', y', sp', p'⟩⟩ := cpu₀
  simp only [CpuRegs.mk.injEq]
  exact ⟨h.a, h.x, h.y, hsp, hp⟩

/-! ## The legacy engine -/

/-- An interrupt is taken by the next `cpu_step`. -/
def LegacyDue (cpu : Cpu6502) : Prop :=
  cpu.nmiPending = true ∨
    (cpu.irq ≠ 0#8 ∨ cpu.irqPulse ≠ 0#8) ∧ cpuGetFlag cpu.toCpuRegs flagInterrupt = false

/-- Padding leaves everything but the clock alone. -/
theorem cpuPad_still (before cycles : Nat) (cpu : Cpu6502) :
    CpuStill cpu (cpuPad before cycles cpu) ∧
      (cpuPad before cycles cpu).memory = cpu.memory ∧
      (cpuPad before cycles cpu).nmiPending = cpu.nmiPending := by
  unfold cpuPad
  split_ifs <;> exact ⟨⟨rfl, rfl, rfl, rfl⟩, rfl, rfl⟩

theorem Pushed.still {cpu' : Cpu6502} (h : Pushed cpu₀ n cpu) (hstill : CpuStill cpu cpu')
    (hmemory : cpu'.memory = cpu.memory) : Pushed cpu₀ n cpu' :=
  h.congr (by rw [hstill.regs]) (by rw [hstill.regs]) (by rw [hstill.regs]) (by rw [hstill.regs])
    hmemory

theorem cpuGetFlag_interrupt {p : Byte} (hp : cpu.p = p ||| flagInterrupt) :
    cpuGetFlag cpu.toCpuRegs flagInterrupt = true := by
  have hset : ∀ p : Byte, ((p ||| flagInterrupt) &&& flagInterrupt != 0#8) = true := by
    decide
  rw [cpuGetFlag, hp]
  exact hset p

/-- The three bytes are pushed, and I is set. -/
theorem handleInterrupt_pushed (vector : Word) (cpu : Cpu6502) :
    Pushed cpu 3 (handleInterrupt vector cpu) ∧
      (handleInterrupt vector cpu).p = cpu.p ||| flagInterrupt ∧
      (handleInterrupt vector cpu).halted = cpu.halted := by
  have hpushed := (((pushed_zero cpu).push (by decide)).push (by decide)).push (by decide)
  exact ⟨hpushed.congr rfl rfl rfl rfl rfl, rfl, rfl⟩

/-- An interrupt taken. -/
theorem cpuStepLegacy_entry (hrun : cpu.halted = false) (hdue : LegacyDue cpu) :
    Pushed cpu 3 (cpuStepLegacy cpu).2 ∧
      (cpuStepLegacy cpu).2.p = cpu.p ||| flagInterrupt ∧
      (cpuStepLegacy cpu).2.halted = false := by
  have hpad : ∀ (before : Nat) (c : Cpu6502), Pushed cpu 3 c → c.p = cpu.p ||| flagInterrupt →
      c.halted = false → Pushed cpu 3 (cpuPad before 7 c) ∧
        (cpuPad before 7 c).p = cpu.p ||| flagInterrupt ∧ (cpuPad before 7 c).halted = false := by
    intro before c hpushed hp hhalt
    obtain ⟨hstill, hmemory, -⟩ := cpuPad_still before 7 c
    refine ⟨hpushed.still hstill hmemory, ?_, hstill.halted.trans hhalt⟩
    rw [hstill.regs]
    exact hp
  unfold cpuStepLegacy
  rw [if_neg (by simp [hrun])]
  by_cases hnmi : cpu.nmiPending = true
  · rw [if_pos hnmi]
    obtain ⟨hpushed, hp, hhalt⟩ := handleInterrupt_pushed 0xFFFA#16 cpu
    exact hpad _ _ (hpushed.congr rfl rfl rfl rfl rfl) hp (hhalt.trans hrun)
  · rw [if_neg hnmi]
    obtain ⟨hlines, hflag⟩ := hdue.resolve_left hnmi
    have hirq : ((cpu.irq != 0#8 || cpu.irqPulse != 0#8) &&
        !cpuGetFlag cpu.toCpuRegs flagInterrupt) = true := by
      simpa [hflag] using hlines
    rw [if_pos hirq]
    dsimp only
    have hentry : ∀ c : Cpu6502, c.toCpuRegs = cpu.toCpuRegs → c.pc = cpu.pc →
        c.memory = cpu.memory → c.halted = false →
        Pushed cpu 3 (handleIrq c) ∧ (handleIrq c).p = cpu.p ||| flagInterrupt ∧
          (handleIrq c).halted = false := by
      intro c hregs hpc hmemory hhalt
      obtain ⟨n, htrace⟩ := cpuIrqTraceEntry_frame (handleInterrupt 0xFFFE#16 c)
      obtain ⟨hpushed, hp, hhalt'⟩ := handleInterrupt_pushed 0xFFFE#16 c
      rw [handleIrq, htrace]
      refine ⟨⟨?_, ?_, ?_, ?_, fun i hi => ?_⟩, ?_, hhalt'.trans hhalt⟩
      · exact hpushed.a.trans (by rw [hregs])
      · exact hpushed.x.trans (by rw [hregs])
      · exact hpushed.y.trans (by rw [hregs])
      · exact hpushed.sp.trans (by rw [hregs])
      · have hslot := hpushed.slots i hi
        have hbyte : interruptByte c i = interruptByte cpu i := by
          unfold interruptByte
          rw [hregs, hpc]
        rw [hbyte, stackSlot, hregs] at hslot
        exact hslot
      · exact hp.trans (by rw [hregs])
    split_ifs
    · obtain ⟨hpushed, hp, hhalt⟩ :=
        hentry { cpu with irqPulse := cpu.irqPulse - 1#8 } rfl rfl rfl hrun
      exact hpad _ _ hpushed hp hhalt
    · obtain ⟨hpushed, hp, hhalt⟩ := hentry cpu rfl rfl rfl hrun
      exact hpad _ _ hpushed hp hhalt

/-- RTI pulls the three bytes. -/
theorem opRti_pulls (h : Pushed cpu₀ 3 cpu)
    (hp : cpu₀.p &&& flagUnused = flagUnused ∧ cpu₀.p &&& flagBreak = 0#8) :
    (opRti cpu).2.toCpuRegs = cpu₀.toCpuRegs ∧ (opRti cpu).2.pc = cpu₀.pc := by
  obtain ⟨hbyte, hpulled⟩ := h.pull
  have hp' : (opPlp cpu).2.p = cpu₀.p := by
    change ((cpuPull cpu).1 &&& ~~~flagBreak) ||| flagUnused = _
    rw [hbyte]
    exact interruptByte_p hp
  have hplp : Pushed cpu₀ 2 (opPlp cpu).2 := hpulled.congr rfl rfl rfl rfl rfl
  obtain ⟨hlo, hpulled⟩ := hplp.pull
  obtain ⟨hhi, hpulled⟩ := hpulled.pull
  constructor
  · exact (hpulled.congr rfl rfl rfl rfl rfl).regs hp'
  · change Word.mk (cpuPull (cpuPull (opPlp cpu).2).2).1 (cpuPull (opPlp cpu).2).1 = _
    rw [hlo, hhi]
    exact Word.mk_hi_lo cpu₀.pc

/-- An RTI executed. -/
theorem cpuStepLegacy_rti (h : Pushed cpu₀ 3 cpu)
    (hp : cpu₀.p &&& flagUnused = flagUnused ∧ cpu₀.p &&& flagBreak = 0#8)
    (hrun : cpu.halted = false) (hnmi : cpu.nmiPending = false)
    (hflag : cpuGetFlag cpu.toCpuRegs flagInterrupt = true) (hop : cpu.memory cpu.pc = 0x40#8) :
    (cpuStepLegacy cpu).2.toCpuRegs = cpu₀.toCpuRegs ∧ (cpuStepLegacy cpu).2.pc = cpu₀.pc := by
  have hswitch : ∀ c, cpuExecuteSwitch 0x40#8 c = opRti c := fun _ => rfl
  obtain ⟨cycles, hexec⟩ : ∃ cycles,
      cpuStepLegacy cpu = (cycles, cpuPad cpu.cycles cycles (opRti (cpuFetchByte cpu).2).2) := by
    have hfetch : (cpuFetchByte cpu).1 = 0x40#8 := hop
    unfold cpuStepLegacy
    rw [if_neg (by simp [hrun]), if_neg (by simp [hnmi]), if_neg (by simp [hflag])]
    dsimp only
    rw [hfetch, cpuExecuteOpcode, hswitch]
    exact ⟨_, rfl⟩
  have hpushed : Pushed cpu₀ 3 (cpuFetchByte cpu).2 := h.congr rfl rfl rfl rfl rfl
  obtain ⟨hregs, hpc⟩ := opRti_pulls hpushed hp
  obtain ⟨hstill, -, -⟩ := cpuPad_still cpu.cycles cycles (opRti (cpuFetchByte cpu).2).2
  rw [hexec]
  exact ⟨hstill.regs.trans hregs, hstill.pc.trans hpc⟩

/-- The run lemma: what a cycle takes one step on and every other operation keeps. -/
theorem run_cycles {P : Nat → Cpu6502 → Prop} {last : Nat}
    (hcycle : ∀ {k cpu}, P k cpu → k < last → P (k + 1) (cpuCycle cpu).2)
    (hop : ∀ {k cpu op}, P k cpu → KeepsPushed cpu₀ cpu op → op ≠ .cycle → P k (cpuOp cpu op))
    {k : Nat} (h : P k cpu) (ops : List CpuOp)
    (hkeeps : Machine.Throughout cpuOp (KeepsPushed cpu₀) ops cpu) (hk : k + cpuCycles ops ≤ last) :
    P (k + cpuCycles ops) (cpuRun cpu ops) := by
  induction ops generalizing k cpu with
  | nil => exact h
  | cons op ops ih =>
    by_cases hc : op = .cycle
    · subst hc
      have hcount : cpuCycles (.cycle :: ops) = cpuCycles ops + 1 := List.countP_cons_of_pos rfl
      have hnext := ih (hcycle h (by omega)) hkeeps.2 (by omega)
      rw [hcount, Nat.add_comm (cpuCycles ops) 1, ← Nat.add_assoc]
      exact hnext
    · have hcount : cpuCycles (op :: ops) = cpuCycles ops := by
        cases op <;> first | rfl | exact absurd rfl hc
      rw [hcount] at hk ⊢
      exact ih (hop h hkeeps.1 hc) hkeeps.2 hk

/-- Operations other than cycles. -/
theorem Pushed.run (h : Pushed cpu₀ n cpu) (hn : n ≤ 3) (ops : List CpuOp)
    (hkeeps : Machine.Throughout cpuOp (KeepsPushed cpu₀) ops cpu) (hcycles : cpuCycles ops = 0) :
    Pushed cpu₀ n (cpuRun cpu ops) ∧ CpuStill cpu (cpuRun cpu ops) := by
  have hstart : Pushed cpu₀ n cpu ∧ CpuStill cpu cpu := ⟨h, rfl, rfl, rfl, rfl⟩
  refine @run_cycles cpu₀ cpu (fun _ c => Pushed cpu₀ n c ∧ CpuStill cpu c) 0
    (fun _ hlt => absurd hlt (Nat.not_lt_zero _)) ?_ 0 hstart ops hkeeps (by omega)
  rintro k c op ⟨hpushed, hstill⟩ hkeep hcycle
  have hnext := cpuOp_still c hkeep.isLine hcycle
  exact ⟨hpushed.op hn hkeep hcycle, hnext.regs.trans hstill.regs, hnext.pc.trans hstill.pc,
    hnext.halted.trans hstill.halted, hnext.ms.trans hstill.ms⟩

/-! ## The micro-sequenced engine -/

/-- What the end of a cycle changes: the sequencer only. -/
theorem msEndCycle_kept (cpu : Cpu6502) : ∃ ms, (msEndCycle cpu).2 = { cpu with ms := ms } ∧
    ms.rest = cpu.ms.plan.drop (cpu.ms.pc + 1) ∧ ms.opcode = cpu.ms.opcode ∧
    ms.adl = cpu.ms.adl ∧ (ms.rest ≠ [] → ms.active = cpu.ms.active) ∧
    (ms.rest = [] → ms.active = false) ∧
    (cpuGetFlag cpu.toCpuRegs flagInterrupt = true →
      ms.irqSampled = false ∨ ms.irqSampled = cpu.ms.irqSampled) ∧
    (cpuGetFlag cpu.toCpuRegs flagInterrupt = true → ms.rest ≠ [] → ms.irqSampled = false) := by
  unfold msEndCycle msSampleInterrupts
  dsimp only
  by_cases hlast : cpu.ms.plan.length ≤ cpu.ms.pc + 1
  · have hdrop := List.drop_eq_nil_of_le hlast
    rw [decide_eq_true hlast, if_pos rfl, if_pos rfl]
    refine ⟨_, rfl, rfl, rfl, rfl, fun hne => absurd hdrop hne, fun _ => rfl, fun _ => .inr rfl,
      fun _ hne => absurd hdrop hne⟩
  · have hdrop : cpu.ms.plan.drop (cpu.ms.pc + 1) ≠ [] := mt List.drop_eq_nil_iff.mp hlast
    rw [decide_eq_false hlast, if_neg Bool.false_ne_true, if_neg Bool.false_ne_true]
    refine ⟨_, rfl, rfl, rfl, rfl, fun _ => rfl, fun hnil => absurd hnil hdrop,
      fun hflag => .inl ?_, fun hflag _ => ?_⟩ <;> dsimp only <;> rw [hflag] <;> simp

/-- A cycle of a sequence in progress. -/
theorem cpuCycle_micro {c : Cpu6502} {mop : MicroOp} {rest : List MicroOp}
    (hrun : cpu.halted = false) (hactive : cpu.ms.active = true)
    (hrest : cpu.ms.rest = mop :: rest) (hmop : msMicroOp mop cpu = (.next, c))
    (hsame : MsSame cpu c) : (cpuCycle cpu).2 = (msEndCycle c).2 ∧
      c.ms.plan.drop (c.ms.pc + 1) = rest ∧ c.ms.active = true := by
  have hplan : cpu.ms.plan.drop cpu.ms.pc = mop :: rest := hrest
  refine ⟨?_, ?_, hsame.active.trans hactive⟩
  · simp [cpuCycle, hrun, hactive, hplan, msRunCycle, hmop]
  · rw [hsame.plan, hsame.pc, ← List.drop_drop, hplan]
    rfl

/-- The interrupt sequence of `cpu₀`, `k` cycles after its first. -/
structure Entering (cpu₀ : Cpu6502) (k : Nat) (cpu : Cpu6502) : Prop where
  running : cpu.halted = false
  pushed : Pushed cpu₀ (min (k - 1) 3) cpu
  rest : k < 6 → cpu.ms.active = true ∧ cpu.ms.opcode = 0#8 ∧ cpu.pc = cpu₀.pc ∧
    cpu.ms.rest = msInterruptPlan.drop k
  done : k = 6 → cpu.ms.active = false
  p : cpu.p = if k ≤ 3 then cpu₀.p else cpu₀.p ||| flagInterrupt
  masked : 4 ≤ k → cpu.ms.irqSampled = false

/-- The RTI that ends it, `k` cycles after its first. -/
structure Returning (cpu₀ : Cpu6502) (k : Nat) (cpu : Cpu6502) : Prop where
  running : cpu.halted = false
  pushed : Pushed cpu₀ (min 3 (5 - k)) cpu
  rest : k < 5 → cpu.ms.active = true ∧
    cpu.ms.rest = [MicroOp.dummyPc, .stackDummy, .pullP, .pullPcl, .pullPch].drop k
  p : 3 ≤ k → cpu.p = cpu₀.p
  adl : k = 4 → cpu.ms.adl = Word.lo cpu₀.pc
  pc : k = 5 → cpu.pc = cpu₀.pc

/-- The step lemma of the entry. -/
theorem Entering.cycle {k : Nat} (h : Entering cpu₀ k cpu) (hk : k < 6) :
    Entering cpu₀ (k + 1) (cpuCycle cpu).2 := by
  obtain ⟨hactive, hop, hpc, hrest⟩ := h.rest hk
  have hp := h.p
  have hpushed := h.pushed
  -- what is left once the micro-operation is done is left to the end of the cycle
  have hfinish : ∀ {mop c}, cpu.ms.rest = mop :: msInterruptPlan.drop (k + 1) →
      msMicroOp mop cpu = (.next, c) → MsSame cpu c → c.halted = false →
      c.ms.opcode = 0#8 → Pushed cpu₀ (min k 3) c →
      c.p = (if k + 1 ≤ 3 then cpu₀.p else cpu₀.p ||| flagInterrupt) →
      (k + 1 < 6 → c.pc = cpu₀.pc) → (4 ≤ k → c.ms.irqSampled = false) →
      Entering cpu₀ (k + 1) (cpuCycle cpu).2 := by
    intro mop c hrest hmop hsame hhalt hop' hpushed' hp' hpc' hmasked
    obtain ⟨hcycle, htail, hactive'⟩ := cpuCycle_micro h.running hactive hrest hmop hsame
    obtain ⟨ms, hms, hrest', hopc, -, hgoes, hends, hkept, hsampled⟩ := msEndCycle_kept c
    rw [hcycle, hms]
    have htail' : ms.rest = msInterruptPlan.drop (k + 1) := hrest'.trans htail
    refine ⟨hhalt, hpushed'.congr rfl rfl rfl rfl rfl, fun hlt => ?_, fun hend => ?_, hp',
      fun hmask => ?_⟩
    · have hne : ms.rest ≠ [] := by
        rw [htail', ne_eq, List.drop_eq_nil_iff]
        exact not_le.mpr hlt
      exact ⟨(hgoes hne).trans hactive', hopc.trans hop', hpc' hlt, htail'⟩
    · refine hends ?_
      rw [htail', List.drop_eq_nil_iff]
      exact Nat.le_of_eq hend.symm
    · have hflag : cpuGetFlag c.toCpuRegs flagInterrupt = true := by
        rw [if_neg (by omega)] at hp'
        exact cpuGetFlag_interrupt hp'
      by_cases hearly : k = 3
      · refine hsampled hflag ?_
        rw [htail', hearly]
        decide
      · rcases hkept hflag with hclear | hsame
        · exact hclear
        · exact hsame.trans (hmasked (by omega))
  have hmasked := h.masked
  have hrunning := h.running
  obtain rfl | rfl | rfl | rfl | rfl | rfl :
      k = 0 ∨ k = 1 ∨ k = 2 ∨ k = 3 ∨ k = 4 ∨ k = 5 := by omega
  · exact hfinish hrest rfl ⟨rfl, rfl, rfl⟩ hrunning hop (hpushed.congr rfl rfl rfl rfl rfl) hp
      (fun _ => hpc) (by omega)
  · refine hfinish hrest rfl ⟨rfl, rfl, rfl⟩ hrunning hop ?_ hp (fun _ => hpc) (by omega)
    rw [hpc]
    exact hpushed.push (by decide)
  · refine hfinish hrest rfl ⟨rfl, rfl, rfl⟩ hrunning hop ?_ hp (fun _ => hpc) (by omega)
    rw [hpc]
    exact hpushed.push (by decide)
  · -- P is pushed, I set and the NMI looked at
    have hbyte : interruptByte cpu₀ 2 = (cpu.p &&& ~~~flagBreak) ||| flagUnused := by
      rw [show cpu.p = cpu₀.p from hp]
      rfl
    let pushed : Cpu6502 := cpuPush (interruptByte cpu₀ 2) cpu
    let masked : Cpu6502 :=
      { pushed with toCpuRegs := cpuSetFlag pushed.toCpuRegs flagInterrupt true }
    have hmop : msMicroOp .pushP cpu = (.next, msNmiHijack masked) := by
      dsimp only [masked, pushed]
      rw [hbyte]
      rfl
    have hhijack : (msNmiHijack masked).toCpuRegs = masked.toCpuRegs ∧
        (msNmiHijack masked).memory = masked.memory ∧ (msNmiHijack masked).pc = masked.pc ∧
        (msNmiHijack masked).ms.opcode = masked.ms.opcode := by
      unfold msNmiHijack
      split_ifs <;> exact ⟨rfl, rfl, rfl, rfl⟩
    obtain ⟨hregs, hmemory, hpc', hop'⟩ := hhijack
    obtain ⟨hsame, -, -, hhalt⟩ := msNmiHijack_same masked
    have hthree : Pushed cpu₀ 3 pushed := hpushed.push (by decide)
    have hp' : masked.p = cpu₀.p ||| flagInterrupt := congrArg (· ||| flagInterrupt) hp
    refine hfinish hrest hmop ⟨hsame.plan, hsame.pc, hsame.active⟩ (hhalt.trans hrunning)
      (hop'.trans hop) ?_ ?_ (fun _ => hpc'.trans hpc) (by omega)
    · refine hthree.congr ?_ ?_ ?_ ?_ hmemory <;> rw [hregs] <;> rfl
    · rw [hregs, hp']
      rfl
  · exact hfinish hrest rfl ⟨rfl, rfl, rfl⟩ hrunning hop (hpushed.congr rfl rfl rfl rfl rfl) hp
      (fun _ => hpc) (fun _ => hmasked (by decide))
  · have hmop : msMicroOp .vecHi cpu = (.next, msVecHi cpu) := by
      dsimp only [msMicroOp]
      rw [if_neg (by simp [hop])]
    exact hfinish hrest hmop ⟨rfl, rfl, rfl⟩ hrunning hop (hpushed.congr rfl rfl rfl rfl rfl) hp
      (by omega) (fun _ => hmasked (by decide))

theorem Entering.op {k : Nat} (h : Entering cpu₀ k cpu) {op : CpuOp}
    (hkeeps : KeepsPushed cpu₀ cpu op) (hcycle : op ≠ .cycle) :
    Entering cpu₀ k (cpuOp cpu op) := by
  have hstill := cpuOp_still cpu hkeeps.isLine hcycle
  refine ⟨hstill.halted.trans h.running, h.pushed.op (Nat.min_le_right _ _) hkeeps hcycle,
    fun hk => ?_, fun hk => ?_, ?_, fun hk => ?_⟩
  · rw [hstill.ms, hstill.pc]
    exact h.rest hk
  · rw [hstill.ms]
    exact h.done hk
  · rw [hstill.regs]
    exact h.p
  · rw [hstill.ms]
    exact h.masked hk

/-- The run lemma of the entry. -/
theorem Entering.run {k : Nat} (h : Entering cpu₀ k cpu) (ops : List CpuOp)
    (hkeeps : Machine.Throughout cpuOp (KeepsPushed cpu₀) ops cpu) (hk : k + cpuCycles ops ≤ 6) :
    Entering cpu₀ (k + cpuCycles ops) (cpuRun cpu ops) :=
  run_cycles (fun hstep hlt => hstep.cycle hlt) (fun hstep hkeep hne => hstep.op hkeep hne) h ops
    hkeeps hk

/-- The step lemma of the RTI. -/
theorem Returning.cycle {k : Nat} (h : Returning cpu₀ k cpu) (hk : k < 5)
    (hp : cpu₀.p &&& flagUnused = flagUnused ∧ cpu₀.p &&& flagBreak = 0#8) :
    Returning cpu₀ (k + 1) (cpuCycle cpu).2 := by
  obtain ⟨hactive, hrest⟩ := h.rest hk
  have hpushed := h.pushed
  have hfinish : ∀ {mop c}, cpu.ms.rest =
        mop :: [MicroOp.dummyPc, .stackDummy, .pullP, .pullPcl, .pullPch].drop (k + 1) →
      msMicroOp mop cpu = (.next, c) → MsSame cpu c → c.halted = false →
      Pushed cpu₀ (min 3 (5 - (k + 1))) c → (3 ≤ k + 1 → c.p = cpu₀.p) →
      (k = 3 → c.ms.adl = Word.lo cpu₀.pc) → (k = 4 → c.pc = cpu₀.pc) →
      Returning cpu₀ (k + 1) (cpuCycle cpu).2 := by
    intro mop c hrest hmop hsame hhalt hpushed' hp' hadl hpc
    obtain ⟨hcycle, htail, hactive'⟩ := cpuCycle_micro h.running hactive hrest hmop hsame
    obtain ⟨ms, hms, hrest', -, hadl', hgoes, -⟩ := msEndCycle_kept c
    have htail' := hrest'.trans htail
    rw [hcycle, hms]
    refine ⟨hhalt, hpushed'.congr rfl rfl rfl rfl rfl, fun hlt => ?_, hp', fun hlast => ?_,
      fun hend => hpc (by omega)⟩
    · have hne : ms.rest ≠ [] := by
        rw [htail', ne_eq, List.drop_eq_nil_iff]
        exact not_le.mpr hlt
      exact ⟨(hgoes hne).trans hactive', htail'⟩
    · exact hadl'.trans (hadl (by omega))
  have hpulled := h.p
  have hadl := h.adl
  have hrunning := h.running
  obtain rfl | rfl | rfl | rfl | rfl : k = 0 ∨ k = 1 ∨ k = 2 ∨ k = 3 ∨ k = 4 := by omega
  · exact hfinish hrest rfl ⟨rfl, rfl, rfl⟩ hrunning (hpushed.congr rfl rfl rfl rfl rfl) (by omega)
      (by omega) (by omega)
  · exact hfinish hrest rfl ⟨rfl, rfl, rfl⟩ hrunning (hpushed.congr rfl rfl rfl rfl rfl) (by omega)
      (by omega) (by omega)
  · obtain ⟨hbyte, hpull⟩ := Pushed.pull hpushed
    refine hfinish hrest rfl ⟨rfl, rfl, rfl⟩ hrunning (hpull.congr rfl rfl rfl rfl rfl) (fun _ => ?_)
      (by omega) (by omega)
    change ((cpuPull cpu).1 &&& ~~~flagBreak) ||| flagUnused = _
    rw [hbyte]
    exact interruptByte_p hp
  · obtain ⟨hbyte, hpull⟩ := Pushed.pull hpushed
    exact hfinish hrest rfl ⟨rfl, rfl, rfl⟩ hrunning (hpull.congr rfl rfl rfl rfl rfl)
      (fun _ => hpulled (by decide)) (fun _ => hbyte) (by omega)
  · obtain ⟨hbyte, hpull⟩ := Pushed.pull hpushed
    refine hfinish hrest rfl ⟨rfl, rfl, rfl⟩ hrunning (hpull.congr rfl rfl rfl rfl rfl)
      (fun _ => hpulled (by decide)) (by omega) (fun _ => ?_)
    change Word.mk (cpuPull cpu).1 (cpuPull cpu).2.ms.adl = _
    rw [hbyte, show (cpuPull cpu).2.ms.adl = cpu.ms.adl from rfl, hadl rfl]
    exact Word.mk_hi_lo cpu₀.pc

theorem Returning.op {k : Nat} (h : Returning cpu₀ k cpu) {op : CpuOp}
    (hkeeps : KeepsPushed cpu₀ cpu op) (hcycle : op ≠ .cycle) :
    Returning cpu₀ k (cpuOp cpu op) := by
  have hstill := cpuOp_still cpu hkeeps.isLine hcycle
  refine ⟨hstill.halted.trans h.running, h.pushed.op (Nat.min_le_left _ _) hkeeps hcycle,
    fun hk => ?_, fun hk => ?_, fun hk => ?_, fun hk => ?_⟩
  · rw [hstill.ms]
    exact h.rest hk
  · rw [hstill.regs]
    exact h.p hk
  · rw [hstill.ms]
    exact h.adl hk
  · rw [hstill.pc]
    exact h.pc hk

/-- The run lemma of the RTI. -/
theorem Returning.run {k : Nat} (h : Returning cpu₀ k cpu)
    (hp : cpu₀.p &&& flagUnused = flagUnused ∧ cpu₀.p &&& flagBreak = 0#8) (ops : List CpuOp)
    (hkeeps : Machine.Throughout cpuOp (KeepsPushed cpu₀) ops cpu) (hk : k + cpuCycles ops ≤ 5) :
    Returning cpu₀ (k + cpuCycles ops) (cpuRun cpu ops) :=
  run_cycles (fun hstep hlt => hstep.cycle hlt hp) (fun hstep hkeep hne => hstep.op hkeep hne) h ops
    hkeeps hk

/-- An interrupt is taken by the next cycle. -/
def MsDue (cpu : Cpu6502) : Prop :=
  (cpu.ms.nmiSampled && cpu.nmiPending) = true ∨ cpu.ms.irqSampled = true

/-- The first cycle of the entry. -/
theorem entering_start (hrun : cpu.halted = false) (hidle : cpu.ms.active = false)
    (hdue : MsDue cpu) : Entering cpu 0 (cpuCycle cpu).2 := by
  have hplan : msInterruptPlan.foldl planAdd [] = msInterruptPlan := by decide
  have hstart : ∀ (vector : Word) (c : Cpu6502), c.toCpuRegs = cpu.toCpuRegs → c.pc = cpu.pc →
      c.memory = cpu.memory → c.halted = false →
      Entering cpu 0 (msStartInterrupt vector c).2 := by
    intro vector c hregs hpc hmemory hhalt
    refine ⟨hhalt, (pushed_zero cpu).congr ?_ ?_ ?_ ?_ hmemory, fun _ => ⟨rfl, rfl, hpc, hplan⟩,
      by omega, congrArg CpuRegs.p hregs, by omega⟩
    · exact congrArg CpuRegs.a hregs
    · exact congrArg CpuRegs.x hregs
    · exact congrArg CpuRegs.y hregs
    · exact congrArg CpuRegs.sp hregs
  unfold cpuCycle
  rw [if_neg (by simp [hrun]), if_pos (by simp [hidle])]
  by_cases hnmi : (cpu.ms.nmiSampled && cpu.nmiPending) = true
  · rw [if_pos hnmi]
    exact hstart _ _ rfl rfl rfl hrun
  · rw [if_neg hnmi, if_pos (hdue.resolve_left hnmi)]
    exact hstart _ _ rfl rfl rfl hrun

/-- The first cycle of the RTI: no interrupt is taken. -/
theorem returning_start (h : Entering cpu₀ 6 cpu)
    (hnmi : (cpu.ms.nmiSampled && cpu.nmiPending) = false) (hop : cpu.memory cpu.pc = 0x40#8) :
    Returning cpu₀ 0 (cpuCycle cpu).2 := by
  have hplan : (msPlan (msTable 0x40#8).cls (opcodeTable 0x40#8).mode).foldl planAdd [] =
      [.dummyPc, .stackDummy, .pullP, .pullPcl, .pullPch] := by decide
  have hcycle : cpuCycle cpu = msStartInstruction cpu := by
    unfold cpuCycle
    rw [if_neg (by simp [h.running]), if_pos (by simp [h.done rfl]), if_neg (by simp [hnmi]),
      if_neg (by simp [h.masked (by decide)])]
  have hrest : (msStartInstruction cpu).2.ms.rest =
      [.dummyPc, .stackDummy, .pullP, .pullPcl, .pullPch] := by
    have hfetch : (msStartInstruction cpu).2.ms.rest =
        (msPlan (msTable (cpu.memory cpu.pc)).cls (opcodeTable (cpu.memory cpu.pc)).mode).foldl
          planAdd [] := rfl
    rw [hfetch, hop, hplan]
  rw [hcycle]
  exact ⟨h.running, h.pushed.congr rfl rfl rfl rfl rfl, fun _ => ⟨rfl, hrest⟩, by omega, by omega,
    by omega⟩

/-! ## Both engines -/

/-- An interrupt taken, and an RTI at the address of its handler, with the bytes pushed left alone,
restore the registers and PC. In the micro-sequenced engine the lines and the memory change at any
cycle (`entry` and `rti` hold six and five more of them), in the legacy one between the two steps
(`between`). -/
theorem interrupt_rti (cpu : Cpu6502) (hrun : cpu.halted = false)
    (hp : cpu.p &&& flagUnused = flagUnused ∧ cpu.p &&& flagBreak = 0#8) :
    (LegacyDue cpu → ∀ between : List CpuOp, cpuCycles between = 0 →
      let taken := (cpuStepLegacy cpu).2
      let handler := cpuRun taken between
      Machine.Throughout cpuOp (KeepsPushed cpu) between taken →
      handler.nmiPending = false → handler.memory handler.pc = 0x40#8 →
      (cpuStepLegacy handler).2.toCpuRegs = cpu.toCpuRegs ∧
        (cpuStepLegacy handler).2.pc = cpu.pc) ∧
    (cpu.ms.active = false → MsDue cpu → ∀ entry rti : List CpuOp,
      cpuCycles entry = 6 → cpuCycles rti = 5 →
      let handler := cpuRun cpu (.cycle :: entry)
      let back := cpuRun handler (.cycle :: rti)
      Machine.Throughout cpuOp (KeepsPushed cpu) (.cycle :: entry) cpu →
      Machine.Throughout cpuOp (KeepsPushed cpu) (.cycle :: rti) handler →
      (handler.ms.nmiSampled && handler.nmiPending) = false →
      handler.memory handler.pc = 0x40#8 →
      back.toCpuRegs = cpu.toCpuRegs ∧ back.pc = cpu.pc) := by
  constructor
  · intro hdue between hcycles taken handler hkeeps hnmi hop
    obtain ⟨hpushed, hflag, hhalt⟩ := cpuStepLegacy_entry hrun hdue
    obtain ⟨hpushed', hstill⟩ := hpushed.run le_rfl between hkeeps hcycles
    have hmasked : cpuGetFlag handler.toCpuRegs flagInterrupt = true := by
      rw [hstill.regs]
      exact cpuGetFlag_interrupt hflag
    exact cpuStepLegacy_rti hpushed' hp (hstill.halted.trans hhalt) hnmi hmasked hop
  · intro hidle hdue entry rti hentry hrti handler back hkeeps hkeeps' hnmi hop
    have hentered := (entering_start hrun hidle hdue).run entry hkeeps.2 (by omega)
    rw [hentry] at hentered
    have hreturned := (returning_start hentered hnmi hop).run hp rti hkeeps'.2 (by omega)
    rw [hrti] at hreturned
    exact ⟨hreturned.pushed.regs (hreturned.p (by decide)), hreturned.pc rfl⟩

/-- A CPU with an IRQ due, over a memory of RTIs, whose stack pointer is about to wrap. -/
def returnCpu : Cpu6502 :=
  { cpuInit fun _ => 0x40#8 with
    a := 1#8
    x := 2#8
    y := 3#8
    sp := 1#8
    p := 0xA1#8
    pc := 0x1234#16
    irq := 1#8
    ms := { (cpuInit fun _ => 0x40#8).ms with irqSampled := true } }

/-- In the micro-sequenced engine an NMI takes the sequence over. -/
theorem interrupt_rti_wraps :
    (cpuStepLegacy (cpuStepLegacy returnCpu).2).2.toCpuRegs = returnCpu.toCpuRegs ∧
    (cpuStepLegacy (cpuStepLegacy returnCpu).2).2.pc = 0x1234#16 ∧
    (cpuRun (cpuRun returnCpu [.cycle, .cycle, .nmi, .cycle, .cycle, .cycle, .cycle, .cycle])
      [.cycle, .cycle, .cycle, .cycle, .cycle, .cycle]).toCpuRegs = returnCpu.toCpuRegs ∧
    (cpuRun (cpuRun returnCpu [.cycle, .cycle, .nmi, .cycle, .cycle, .cycle, .cycle, .cycle])
      [.cycle, .cycle, .cycle, .cycle, .cycle, .cycle]).pc = 0x1234#16 := by
  obtain ⟨hlegacy, hmicro⟩ := interrupt_rti returnCpu rfl (by decide)
  have hback := hlegacy (.inr ⟨.inl (by decide), by decide⟩) [] rfl trivial rfl
    (by decide)
  exact ⟨hback.1, hback.2, hmicro rfl (.inr rfl)
    [.cycle, .nmi, .cycle, .cycle, .cycle, .cycle, .cycle]
    [.cycle, .cycle, .cycle, .cycle, .cycle] rfl rfl
    ⟨trivial, trivial, trivial, trivial, trivial, trivial, trivial, trivial, trivial⟩
    ⟨trivial, trivial, trivial, trivial, trivial, trivial, trivial⟩ (by decide)
    (by decide)⟩

end Phosphoric
