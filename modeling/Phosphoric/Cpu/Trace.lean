import Phosphoric.Cpu.Engines
import Phosphoric.Cpu.Latches

/-!
# The IRQ trace

With `--trace-irq` an IRQ entry is a line of the trace, and `irq_trace_count` counts them. The
historical engine writes the line in `handle_irq`. The micro-sequencer writes it with the second
byte of a vector, unless the opcode is that of a BRK; but the plan of an interrupt has that opcode
too (`msBuildInterrupt`), so it never does (`cpuCycle_trace`).

**Theorem (`irqTraceCount_iff`).** In a run of either engine from power-on, the count is the number
of IRQ sequences started exactly when the micro-sequencer starts none.
-/

namespace Phosphoric

/-! ## Runs -/

/-- A whole `cpu_step` of the historical engine, or what else happens to the CPU. -/
inductive TraceOp
  | step
  | op (op : CpuOp)

def traceOp (cpu : Cpu6502) : TraceOp → Cpu6502
  | .step => (cpuStepLegacy cpu).2
  | .op op => cpuOp cpu op

/-- The historical engine starts an IRQ sequence. -/
def LegacyIrq (cpu : Cpu6502) : TraceOp → Prop
  | .step => cpu.halted = false ∧ cpu.nmiPending = false ∧
      (cpu.irq ≠ 0#8 ∨ cpu.irqPulse ≠ 0#8) ∧ cpuGetFlag cpu.toCpuRegs flagInterrupt = false
  | .op _ => False

/-- The micro-sequencer starts an IRQ sequence. -/
def MicroIrq (cpu : Cpu6502) : TraceOp → Prop
  | .op .cycle => cpu.halted = false ∧ cpu.ms.active = false ∧
      ¬ (cpu.ms.nmiSampled = true ∧ cpu.nmiPending = true) ∧ cpu.ms.irqSampled = true
  | _ => False

instance (cpu : Cpu6502) : DecidablePred (LegacyIrq cpu)
  | .step => inferInstanceAs (Decidable (_ ∧ _ ∧ (_ ∨ _) ∧ _))
  | .op _ => isFalse id

instance (cpu : Cpu6502) : DecidablePred (MicroIrq cpu)
  | .op .cycle => inferInstanceAs (Decidable (_ ∧ _ ∧ ¬ (_ ∧ _) ∧ _))
  | .step => isFalse id
  | .op .nmi | .op (.irqSet _) | .op (.irqClear _) | .op .irqPulse | .op .reset
  | .op .setMicroseq | .op (.setMemory _) => isFalse id

/-- The engine of an IRQ sequence. -/
inductive IrqEngine
  | legacy
  | micro
  deriving DecidableEq

/-- The IRQ sequence an operation starts. -/
def irqLog (cpu : Cpu6502) (op : TraceOp) : List IrqEngine :=
  if LegacyIrq cpu op then [.legacy] else if MicroIrq cpu op then [.micro] else []

/-- The IRQ sequences of a run. -/
abbrev irqSequences : List TraceOp → Cpu6502 → List IrqEngine := Machine.trace traceOp irqLog

/-! ## The trace of a step -/

/-- Nothing is traced. -/
structure SameTrace (cpu cpu' : Cpu6502) : Prop where
  fp : cpu'.irqTraceFp = cpu.irqTraceFp
  count : cpu'.irqTraceCount = cpu.irqTraceCount

theorem SameTrace.trans {a b c : Cpu6502} (h : SameTrace a b) (h' : SameTrace b c) :
    SameTrace a c :=
  ⟨h'.fp.trans h.fp, h'.count.trans h.count⟩

/-- Nothing is traced, and the micro-sequencer is left alone. -/
structure LegacySame (cpu cpu' : Cpu6502) : Prop extends SameTrace cpu cpu' where
  ms : cpu'.ms = cpu.ms

theorem LegacySame.trans {a b c : Cpu6502} (h : LegacySame a b) (h' : LegacySame b c) :
    LegacySame a c :=
  ⟨h.toSameTrace.trans h'.toSameTrace, h'.ms.trans h.ms⟩

theorem cpuPad_trace (before cycles : Nat) (cpu : Cpu6502) :
    LegacySame cpu (cpuPad before cycles cpu) := by
  unfold cpuPad
  split <;> exact ⟨⟨rfl, rfl⟩, rfl⟩

theorem addrOf_trace (mode : AddressingMode) (cpu : Cpu6502) :
    LegacySame cpu (addrOf mode cpu).2 := by
  cases mode <;> exact ⟨⟨rfl, rfl⟩, rfl⟩

/-- No instruction of the historical engine writes to the trace, BRK included. -/
theorem cpuExecuteOpcode_trace (op : Byte) (cpu : Cpu6502) :
    LegacySame cpu (cpuExecuteOpcode op cpu).2 := by
  have hswitch : LegacySame cpu (legacyByClass op cpu).2 := by
    have haddr := addrOf_trace (opcodeTable op).mode cpu
    unfold legacyByClass
    cases (msTable op).cls with
    | read | write | rmw => exact ⟨⟨haddr.fp, haddr.count⟩, haddr.ms⟩
    | writeUnstable => exact ⟨⟨haddr.fp, haddr.count⟩, haddr.ms⟩
    | branch =>
      dsimp only [doBranch]
      split <;> exact ⟨⟨rfl, rfl⟩, rfl⟩
    | _ => exact ⟨⟨rfl, rfl⟩, rfl⟩
  rw [← cpuExecuteSwitch_eq] at hswitch
  unfold cpuExecuteOpcode
  generalize cpuExecuteSwitch op cpu = r at hswitch
  exact hswitch

/-- A step of the historical engine writes a line when it starts an IRQ sequence, and else none. -/
theorem cpuStepLegacy_trace {cpu : Cpu6502} (hfp : cpu.irqTraceFp = true) :
    (cpuStepLegacy cpu).2.irqTraceFp = true ∧
      (cpuStepLegacy cpu).2.irqTraceCount =
        cpu.irqTraceCount + (if LegacyIrq cpu .step then 1 else 0) ∧
      (cpuStepLegacy cpu).2.ms = cpu.ms := by
  have hnone : ∀ {cpu' : Cpu6502}, LegacySame cpu cpu' → ¬ LegacyIrq cpu .step →
      cpu'.irqTraceFp = true ∧ cpu'.irqTraceCount =
        cpu.irqTraceCount + (if LegacyIrq cpu .step then 1 else 0) ∧ cpu'.ms = cpu.ms := by
    intro cpu' hsame hno
    rw [if_neg hno]
    exact ⟨hsame.fp.trans hfp, hsame.count, hsame.ms⟩
  unfold cpuStepLegacy
  by_cases hhalted : cpu.halted = true
  · rw [if_pos hhalted]
    exact hnone ⟨⟨rfl, rfl⟩, rfl⟩ fun h => absurd h.1 (by simp [hhalted])
  rw [if_neg hhalted]
  by_cases hnmi : cpu.nmiPending = true
  · rw [if_pos hnmi]
    have hentry : LegacySame cpu (handleNmi cpu) := ⟨⟨rfl, rfl⟩, rfl⟩
    exact hnone (hentry.trans (cpuPad_trace _ _ _)) fun h =>
      absurd h.2.1 (by simp [hnmi])
  rw [if_neg hnmi]
  by_cases hirq : ((cpu.irq != 0#8 || cpu.irqPulse != 0#8) &&
      !cpuGetFlag cpu.toCpuRegs flagInterrupt) = true
  · have hstart : LegacyIrq cpu .step := by
      refine ⟨by simpa using hhalted, by simpa using hnmi, ?_⟩
      simpa using hirq
    rw [if_pos hirq, if_pos hstart]
    dsimp only
    generalize hcpu : (if cpu.irqPulse != 0#8 then { cpu with irqPulse := cpu.irqPulse - 1#8 }
      else cpu) = pulsed
    have hpulsed : LegacySame cpu pulsed := by
      rw [← hcpu]
      split <;> exact ⟨⟨rfl, rfl⟩, rfl⟩
    have hentry : LegacySame pulsed (handleInterrupt 0xFFFE#16 pulsed) := ⟨⟨rfl, rfl⟩, rfl⟩
    have hpad := cpuPad_trace cpu.cycles 7 (handleIrq pulsed)
    have hline : handleIrq pulsed = { handleInterrupt 0xFFFE#16 pulsed with
        irqTraceCount := (handleInterrupt 0xFFFE#16 pulsed).irqTraceCount + 1 } :=
      if_pos ((hpulsed.trans hentry).fp.trans hfp)
    rw [hline] at hpad ⊢
    exact ⟨hpad.fp.trans ((hpulsed.trans hentry).fp.trans hfp),
      hpad.count.trans (congrArg (· + 1) (hpulsed.trans hentry).count),
      hpad.ms.trans (hpulsed.trans hentry).ms⟩
  · rw [if_neg hirq]
    have hfetch : LegacySame cpu (cpuFetchByte cpu).2 := ⟨⟨rfl, rfl⟩, rfl⟩
    refine hnone ((hfetch.trans (cpuExecuteOpcode_trace _ _)).trans (cpuPad_trace _ _ _)) ?_
    rintro ⟨-, -, hline, hflag⟩
    exact hirq (by simp [hline, hflag])

/-! ## The trace of a cycle -/

/-- A vector is read on with the opcode of a BRK. -/
def VectorAsBrk (cpu : Cpu6502) : Prop := .vecHi ∈ cpu.ms.rest → cpu.ms.opcode = 0#8

/-- Of the instructions, only a BRK reads a vector. -/
theorem msPlan_vector {cls : MsClass} {mode : AddressingMode} :
    .vecHi ∈ msPlan cls mode → cls = .brk := by
  cases cls <;> cases mode <;> decide

theorem msBuildPlan_vector (opcode : Byte) (ms : MsState)
    (hvector : .vecHi ∈ (msBuildPlan opcode ms).rest) :
    (msBuildPlan opcode ms).opcode = 0#8 := by
  have hplan : (msBuildPlan opcode ms).rest =
      msPlan (msTable opcode).cls (opcodeTable opcode).mode := (msPlan_fits _ _).1
  have hcls := msPlan_vector (hplan ▸ hvector)
  have hshape := opcodeShape_eq_true opcode
  simp only [opcodeShape, hcls, Bool.and_eq_true, decide_eq_true_eq] at hshape
  exact eq_of_toNat_eq hshape.1

theorem msMicroOp_trace {mop : MicroOp} {cpu : Cpu6502}
    (hvector : mop = .vecHi → cpu.ms.opcode = 0#8) : SameTrace cpu (msMicroOp mop cpu).2 := by
  have hhijack : ∀ c : Cpu6502, SameTrace c (msNmiHijack c) := by
    intro c
    unfold msNmiHijack
    split <;> exact ⟨rfl, rfl⟩
  cases mop with
  | fetchLo | ptrHi | readFixup | readData | writeData =>
    dsimp only [msMicroOp]
    split <;> exact ⟨rfl, rfl⟩
  | pushP =>
    have h := hhijack { cpuPush ((cpu.p &&& ~~~flagBreak) ||| flagUnused) cpu with
      toCpuRegs := cpuSetFlag (cpuPush ((cpu.p &&& ~~~flagBreak) ||| flagUnused) cpu).toCpuRegs
        flagInterrupt true }
    exact ⟨h.fp, h.count⟩
  | pushPBrk =>
    dsimp only [msMicroOp]
    split
    · have h := hhijack { cpuPush (cpu.p ||| flagBreak ||| flagUnused) cpu with
        toCpuRegs := cpuSetFlag (cpuPush (cpu.p ||| flagBreak ||| flagUnused) cpu).toCpuRegs
          flagInterrupt true }
      exact ⟨h.fp, h.count⟩
    · exact ⟨rfl, rfl⟩
  | vecHi =>
    dsimp only [msMicroOp]
    rw [hvector rfl]
    exact ⟨rfl, rfl⟩
  | _ => exact ⟨rfl, rfl⟩

theorem msEndCycle_trace (cpu : Cpu6502) :
    SameTrace cpu (msEndCycle cpu).2 ∧
      (msEndCycle cpu).2.ms.opcode = cpu.ms.opcode ∧
      (msEndCycle cpu).2.ms.rest = cpu.ms.rest.tail := by
  have htail : cpu.ms.plan.drop (cpu.ms.pc + 1) = cpu.ms.rest.tail := by
    rw [MsState.rest, List.tail_drop]
  unfold msEndCycle msSampleInterrupts
  dsimp only
  split <;> exact ⟨⟨rfl, rfl⟩, rfl, htail⟩

/-- A cycle inside a sequence traces nothing. -/
theorem msRunCycle_trace (rest : List MicroOp) {cpu : Cpu6502} (hrest : cpu.ms.rest = rest)
    (h : VectorAsBrk cpu) :
    SameTrace cpu (msRunCycle rest cpu).2 ∧ VectorAsBrk (msRunCycle rest cpu).2 := by
  have hend : ∀ c : Cpu6502, VectorAsBrk c →
      SameTrace c (msEndCycle c).2 ∧ VectorAsBrk (msEndCycle c).2 := by
    intro c hc
    obtain ⟨htrace, hopcode, htail⟩ := msEndCycle_trace c
    refine ⟨htrace, fun hmem => ?_⟩
    rw [hopcode]
    rw [htail] at hmem
    exact hc (List.mem_of_mem_tail hmem)
  induction rest generalizing cpu with
  | nil => exact hend cpu h
  | cons mop rest ih =>
    have hmop : SameTrace cpu (msMicroOp mop cpu).2 := msMicroOp_trace fun hvec =>
      h (by rw [hrest, hvec]; exact List.mem_cons_self)
    obtain ⟨hopcode, hplan⟩ := msMicroOp_plan mop cpu
    unfold msRunCycle
    generalize msMicroOp mop cpu = r at hmop hopcode hplan
    obtain ⟨flow, c⟩ := r
    dsimp only at hmop hopcode hplan
    have hc : VectorAsBrk c := fun hmem => hopcode.trans (h (hplan ▸ hmem))
    cases flow with
    | next => exact ⟨hmop.trans (hend c hc).1, (hend c hc).2⟩
    | done => exact ⟨⟨hmop.fp, hmop.count⟩, hc⟩
    | chain =>
      have htail : { c with ms := { c.ms with pc := c.ms.pc + 1 } }.ms.rest = rest := by
        have hdrop : c.ms.plan.drop (c.ms.pc + 1) = c.ms.rest.tail := by
          rw [MsState.rest, List.tail_drop]
        exact hdrop.trans (by rw [hplan, hrest]; rfl)
      have hnext : VectorAsBrk { c with ms := { c.ms with pc := c.ms.pc + 1 } } := by
        intro hmem
        rw [htail] at hmem
        exact hc (by rw [hplan, hrest]; exact List.mem_cons_of_mem mop hmem)
      obtain ⟨htrace, hkeep⟩ := ih htail hnext
      exact ⟨⟨htrace.fp.trans hmop.fp, htrace.count.trans hmop.count⟩, hkeep⟩

/-- No cycle of the micro-sequencer writes to the trace. -/
theorem cpuCycle_trace {cpu : Cpu6502} (h : VectorAsBrk cpu) :
    SameTrace cpu (cpuCycle cpu).2 ∧ VectorAsBrk (cpuCycle cpu).2 := by
  unfold cpuCycle
  split
  · exact ⟨⟨rfl, rfl⟩, h⟩
  split
  · split
    · exact ⟨⟨rfl, rfl⟩, fun _ => rfl⟩
    split
    · exact ⟨⟨rfl, rfl⟩, fun _ => rfl⟩
    · exact ⟨⟨rfl, rfl⟩, msBuildPlan_vector (cpuFetchByte cpu).1 (cpuFetchByte cpu).2.ms⟩
  · exact msRunCycle_trace _ rfl h

/-! ## The trace of a run -/

/-- The trace is on, and vectors are read with the opcode of a BRK. -/
structure Traced (cpu : Cpu6502) : Prop where
  fp : cpu.irqTraceFp = true
  vector : VectorAsBrk cpu

/-- Each IRQ sequence of the historical engine is counted, and nothing else. -/
theorem traceOp_count {cpu : Cpu6502} (h : Traced cpu) (op : TraceOp) :
    Traced (traceOp cpu op) ∧
      (traceOp cpu op).irqTraceCount = cpu.irqTraceCount + (irqLog cpu op).count .legacy := by
  cases op with
  | step =>
    obtain ⟨hfp, hcount, hms⟩ := cpuStepLegacy_trace h.fp
    have hlog : (irqLog cpu .step).count .legacy = if LegacyIrq cpu .step then 1 else 0 := by
      unfold irqLog
      split
      · rfl
      · rw [if_neg (show ¬ MicroIrq cpu .step from id)]
        rfl
    rw [hlog]
    refine ⟨⟨hfp, ?_⟩, hcount⟩
    change VectorAsBrk (cpuStepLegacy cpu).2
    rw [VectorAsBrk, hms]
    exact h.vector
  | op op =>
    have hquiet : (irqLog cpu (.op op)).count .legacy = 0 := by
      unfold irqLog
      rw [if_neg (show ¬ LegacyIrq cpu (.op op) from id)]
      split <;> rfl
    rw [hquiet]
    cases op with
    | cycle =>
      obtain ⟨htrace, hvector⟩ := cpuCycle_trace h.vector
      exact ⟨⟨htrace.fp.trans h.fp, hvector⟩, htrace.count⟩
    | _ => exact ⟨⟨h.fp, h.vector⟩, rfl⟩

theorem traceRun_count (ops : List TraceOp) {cpu : Cpu6502} (h : Traced cpu) :
    (ops.foldl traceOp cpu).irqTraceCount =
      cpu.irqTraceCount + (irqSequences ops cpu).count .legacy := by
  induction ops generalizing cpu with
  | nil => rfl
  | cons op ops ih =>
    obtain ⟨hnext, hcount⟩ := traceOp_count h op
    rw [List.foldl_cons, ih hnext, hcount, irqSequences, Machine.trace, List.count_append,
      Nat.add_assoc]

/-- The sequences of a run are all of the historical engine when no step is one of the other. -/
theorem irqSequences_legacy (ops : List TraceOp) (cpu : Cpu6502) :
    (irqSequences ops cpu).count .legacy = (irqSequences ops cpu).length ↔
      Machine.Throughout traceOp (fun cpu op => ¬ MicroIrq cpu op) ops cpu := by
  induction ops generalizing cpu with
  | nil => exact ⟨fun _ => trivial, fun _ => rfl⟩
  | cons op ops ih =>
    have hlog : (irqLog cpu op).count .legacy = (irqLog cpu op).length ↔ ¬ MicroIrq cpu op := by
      have hboth : LegacyIrq cpu op → ¬ MicroIrq cpu op := by
        intro hlegacy
        cases op with
        | step => exact id
        | op op => exact hlegacy.elim
      unfold irqLog
      split
      next hlegacy => exact ⟨fun _ => hboth hlegacy, fun _ => rfl⟩
      split
      next hmicro => exact ⟨fun h => absurd h (by decide), fun h => absurd hmicro h⟩
      next hmicro => exact ⟨fun _ => hmicro, fun _ => rfl⟩
    have hle := @List.count_le_length _ _ IrqEngine.legacy (irqLog cpu op)
    have hle' := @List.count_le_length _ _ IrqEngine.legacy (irqSequences ops (traceOp cpu op))
    have hcons : irqSequences (op :: ops) cpu =
        irqLog cpu op ++ irqSequences ops (traceOp cpu op) := rfl
    rw [hcons, List.count_append, List.length_append, Machine.Throughout, ← hlog, ← ih]
    omega

/-- A machine just initialized, with the trace on. -/
def tracedInit (memory : Word → Byte) : Cpu6502 := { cpuInit memory with irqTraceFp := true }

/-- At the end of a run from power-on, as many lines are counted as IRQ sequences were started
exactly when the micro-sequencer started none. -/
theorem irqTraceCount_iff (memory : Word → Byte) (ops : List TraceOp) :
    (ops.foldl traceOp (tracedInit memory)).irqTraceCount =
        (irqSequences ops (tracedInit memory)).length ↔
      Machine.Throughout traceOp (fun cpu op => ¬ MicroIrq cpu op) ops (tracedInit memory) := by
  have hinit : Traced (tracedInit memory) := ⟨rfl, fun h => absurd h List.not_mem_nil⟩
  have hzero : (tracedInit memory).irqTraceCount = 0 := rfl
  rw [traceRun_count ops hinit, hzero, Nat.zero_add]
  exact irqSequences_legacy ops _

/-- An IRQ line, and cycles for two CLIs and a sequence. -/
def irqOps : List TraceOp := .op (.irqSet 1#8) :: List.replicate 11 (.op .cycle)

set_option maxRecDepth 4096 in
/-- The micro-sequencer starts an IRQ sequence and ends it without a line. -/
theorem irqTraceCount_micro :
    irqSequences irqOps (tracedInit fun _ => 0x58#8) = [.micro] ∧
      (irqOps.foldl traceOp (tracedInit fun _ => 0x58#8)).irqTraceCount = 0 ∧
      (irqOps.foldl traceOp (tracedInit fun _ => 0x58#8)).pc = 0x5858#16 := by
  decide

end Phosphoric
