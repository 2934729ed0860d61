import Phosphoric.Cpu.Microseq
import Phosphoric.Lib.Machine
import Mathlib.Data.List.Basic

/-!
# One bus access a cycle

**Theorem (`cpuCycle_cycled`).** A call of `cpu_cycle` on a running CPU whose sequence in progress
has a sound plan (`CpuPlanned`, which every reachable state has) makes exactly one bus access, with
one tick for it; unless its micro-operation is that of a JAM opcode, which halts the CPU without an
access (`cpuCycle_jams`).

A micro-operation that is skipped (`readFixup` within a page) hands its cycle on to the next one,
so a plan must never end in it, nor skip twice (`planSound`).
-/

namespace Phosphoric

/-! ## Operations -/

def cpuReset (cpu : Cpu6502) : Cpu6502 :=
  { cpu with
    pc := Word.mk (cpu.memory 0xFFFD#16) (cpu.memory 0xFFFC#16)
    sp := 0xFD#8
    p := flagUnused ||| flagInterrupt
    cycles := 0
    halted := false
    nmiPending := false
    irq := 0#8
    irqPulse := 0#8
    ms := { cpu.ms with active := false, nmiSampled := false, irqSampled := false } }

/-- What happens to the CPU: a cycle, its lines, a reset, a change of engine, and whatever the
devices and the host do to the memory. -/
inductive CpuOp
  | cycle
  | nmi
  | irqSet (source : Byte)
  | irqClear (source : Byte)
  | irqPulse
  | reset
  | setMicroseq
  | setMemory (memory : Word → Byte)

def cpuOp (cpu : Cpu6502) : CpuOp → Cpu6502
  | .cycle => (cpuCycle cpu).2
  | .nmi => { cpu with nmiPending := true }
  | .irqSet source => { cpu with irq := cpu.irq ||| source }
  | .irqClear source => { cpu with irq := cpu.irq &&& ~~~source }
  | .irqPulse =>
    { cpu with irqPulse := if cpu.irqPulse < 255#8 then cpu.irqPulse + 1#8 else cpu.irqPulse }
  | .reset => cpuReset cpu
  | .setMicroseq => { cpu with ms := { cpu.ms with active := false } }
  | .setMemory memory => { cpu with memory := memory }

/-- The states reached from `cpuInit`. -/
abbrev CpuReachable : Cpu6502 → Prop :=
  Machine.Reach cpuOp (fun _ _ => True) fun cpu => ∃ memory, cpu = cpuInit memory

/-! ## One access -/

/-- A bus access, read or write. -/
def CpuEvent.isAccess : CpuEvent → Bool
  | .read _ _ | .write _ _ => true
  | .tick _ => false

/-- Exactly one bus access, and one cycle of the clock and of the callback for it. -/
structure OneAccess (cpu cpu' : Cpu6502) : Prop where
  cycles : cpu'.cycles = cpu.cycles + 1
  events : ∃ access : CpuEvent, access.isAccess = true ∧
    cpu'.events = cpu.events ++ [access, .tick 1]

theorem cpuMemRead_one (addr : Word) (cpu : Cpu6502) : OneAccess cpu (cpuMemRead addr cpu).2 :=
  ⟨rfl, .read addr (cpu.memory addr), rfl, List.append_assoc _ [_] [_]⟩

theorem cpuMemWrite_one (addr : Word) (val : Byte) (cpu : Cpu6502) :
    OneAccess cpu (cpuMemWrite addr val cpu) :=
  ⟨rfl, .write addr val, rfl, List.append_assoc _ [_] [_]⟩

theorem cpuFetchByte_one (cpu : Cpu6502) : OneAccess cpu (cpuFetchByte cpu).2 := by
  have h := cpuMemRead_one cpu.pc { cpu with pc := cpu.pc + 1#16 }
  exact { h with }

theorem cpuPull_one (cpu : Cpu6502) : OneAccess cpu (cpuPull cpu).2 := by
  have h := cpuMemRead_one (stackAddr (cpu.sp + 1#8)) { cpu with sp := cpu.sp + 1#8 }
  exact { h with }

/-! ## Micro-operations -/

/-- The sequence in progress stays where it is. -/
structure MsSame (cpu cpu' : Cpu6502) : Prop where
  plan : cpu'.ms.plan = cpu.ms.plan
  pc : cpu'.ms.pc = cpu.ms.pc
  active : cpu'.ms.active = cpu.ms.active

/-- What a micro-operation that takes its cycle does. -/
structure MsTakes (cpu : Cpu6502) (r : MsFlow × Cpu6502) : Prop
    extends OneAccess cpu r.2, MsSame cpu r.2 where
  flow : r.1 ≠ .chain
  halted : r.2.halted = cpu.halted

theorem msNmiHijack_same (cpu : Cpu6502) : MsSame cpu (msNmiHijack cpu) ∧
    (msNmiHijack cpu).cycles = cpu.cycles ∧ (msNmiHijack cpu).events = cpu.events ∧
    (msNmiHijack cpu).halted = cpu.halted := by
  unfold msNmiHijack
  split_ifs <;> exact ⟨⟨rfl, rfl, rfl⟩, rfl, rfl, rfl⟩

theorem cpuIrqTraceEntry_frame (cpu : Cpu6502) :
    ∃ n, cpuIrqTraceEntry cpu = { cpu with irqTraceCount := n } := by
  unfold cpuIrqTraceEntry
  split_ifs
  · exact ⟨_, rfl⟩
  · exact ⟨cpu.irqTraceCount, rfl⟩

/-- A read, then changes to registers and latches. -/
theorem MsTakes.read {addr : Word} {cpu cpu' : Cpu6502} (flow : MsFlow) (hflow : flow ≠ .chain)
    (hcycles : cpu'.cycles = (cpuMemRead addr cpu).2.cycles)
    (hevents : cpu'.events = (cpuMemRead addr cpu).2.events) (hs : MsSame cpu cpu')
    (hh : cpu'.halted = cpu.halted) : MsTakes cpu (flow, cpu') :=
  { hs with
    cycles := hcycles.trans (cpuMemRead_one addr cpu).cycles
    events := hevents ▸ (cpuMemRead_one addr cpu).events
    flow := hflow
    halted := hh }

theorem MsTakes.write {addr : Word} {val : Byte} {cpu cpu' : Cpu6502}
    (hcycles : cpu'.cycles = (cpuMemWrite addr val cpu).cycles)
    (hevents : cpu'.events = (cpuMemWrite addr val cpu).events) (hs : MsSame cpu cpu')
    (hh : cpu'.halted = cpu.halted) : MsTakes cpu (.next, cpu') :=
  { hs with
    cycles := hcycles.trans (cpuMemWrite_one addr val cpu).cycles
    events := hevents ▸ (cpuMemWrite_one addr val cpu).events
    flow := nofun
    halted := hh }

/-- The push of P, and the take-over that may follow. -/
theorem MsTakes.hijack {addr : Word} {val : Byte} {cpu cpu' : Cpu6502}
    (hcycles : cpu'.cycles = (cpuMemWrite addr val cpu).cycles)
    (hevents : cpu'.events = (cpuMemWrite addr val cpu).events) (hs : MsSame cpu cpu')
    (hh : cpu'.halted = cpu.halted) : MsTakes cpu (.next, msNmiHijack cpu') := by
  obtain ⟨hsame, hcycles', hevents', hhalted⟩ := msNmiHijack_same cpu'
  exact .write (hcycles'.trans hcycles) (hevents'.trans hevents)
    ⟨hsame.plan.trans hs.plan, hsame.pc.trans hs.pc, hsame.active.trans hs.active⟩
    (hhalted.trans hh)

/-- Every micro-operation takes its cycle, but the fix-up within a page and the JAM. -/
theorem msMicroOp_takes (mop : MicroOp) (cpu : Cpu6502) (hjam : mop ≠ .jam)
    (hskip : mop = .readFixup → cpu.ms.crossed = true) : MsTakes cpu (msMicroOp mop cpu) := by
  cases mop with
  | jam => exact absurd rfl hjam
  | readFixup =>
    dsimp only [msMicroOp]
    rw [if_pos (hskip rfl)]
    exact .read .next nofun rfl rfl ⟨rfl, rfl, rfl⟩ rfl
  | fetchLo =>
    dsimp only [msMicroOp]
    split
    · exact .read .done nofun rfl rfl ⟨rfl, rfl, rfl⟩ rfl
    · exact .read .next nofun rfl rfl ⟨rfl, rfl, rfl⟩ rfl
  | ptrHi =>
    dsimp only [msMicroOp]
    split <;> exact .read .next nofun rfl rfl ⟨rfl, rfl, rfl⟩ rfl
  | readData =>
    dsimp only [msMicroOp]
    split <;> exact .read .next nofun rfl rfl ⟨rfl, rfl, rfl⟩ rfl
  | branchTaken =>
    dsimp only [msMicroOp]
    split
    · exact .read .next nofun rfl rfl ⟨rfl, rfl, rfl⟩ rfl
    · exact .read .done nofun rfl rfl ⟨rfl, rfl, rfl⟩ rfl
  | vecHi =>
    dsimp only [msMicroOp]
    split
    · obtain ⟨n, heq⟩ := cpuIrqTraceEntry_frame (msVecHi cpu)
      rw [heq]
      exact .read .next nofun rfl rfl ⟨rfl, rfl, rfl⟩ rfl
    · exact .read .next nofun rfl rfl ⟨rfl, rfl, rfl⟩ rfl
  | pullA | pullP | pullPcl | pullPch =>
    have hpull := cpuPull_one cpu
    exact { hpull with plan := rfl, pc := rfl, active := rfl, flow := nofun, halted := rfl }
  | writeData =>
    dsimp only [msMicroOp]
    split <;> exact .write rfl rfl ⟨rfl, rfl, rfl⟩ rfl
  | pushP => exact .hijack rfl rfl ⟨rfl, rfl, rfl⟩ rfl
  | pushPBrk =>
    dsimp only [msMicroOp]
    split
    · exact .hijack rfl rfl ⟨rfl, rfl, rfl⟩ rfl
    · exact .write rfl rfl ⟨rfl, rfl, rfl⟩ rfl
  | rmwOrig | rmwNew | pushPch | pushPcl | pushA => exact .write rfl rfl ⟨rfl, rfl, rfl⟩ rfl
  | _ => exact .read .next nofun rfl rfl ⟨rfl, rfl, rfl⟩ rfl

/-! ## Plans -/

/-- A fix-up, which may be skipped, is followed by the read it prepares. -/
def planSound : List MicroOp → Bool
  | [] => true
  | .readFixup :: .readData :: rest => planSound rest
  | .readFixup :: _ => false
  | _ :: rest => planSound rest

theorem planSound_tail {mop : MicroOp} {rest : List MicroOp} (h : planSound (mop :: rest) = true) :
    planSound rest = true := by
  cases mop with
  | readFixup =>
    cases rest with
    | nil => rfl
    | cons next rest => cases next <;> first | exact h | cases h
  | _ => exact h

/-- What is left of the plan. -/
def MsState.rest (ms : MsState) : List MicroOp := ms.plan.drop ms.pc

/-- While a sequence is in progress, its plan has micro-operations left. -/
def CpuPlanned (cpu : Cpu6502) : Prop :=
  cpu.ms.active = true → cpu.ms.rest ≠ [] ∧ planSound cpu.ms.rest = true

theorem msBuildPlan_sound (opcode : Byte) (ms : MsState) :
    (msBuildPlan opcode ms).rest ≠ [] ∧ planSound (msBuildPlan opcode ms).rest = true := by
  have hall : ∀ op : Byte,
      (msPlan (msTable op).cls (opcodeTable op).mode).foldl planAdd [] ≠ [] ∧
        planSound ((msPlan (msTable op).cls (opcodeTable op).mode).foldl planAdd []) = true := by
    decide
  exact hall opcode

/-- The end of a cycle keeps the plan, and ends the sequence with it. -/
theorem msEndCycle_planned {cpu : Cpu6502} {mop : MicroOp} {rest : List MicroOp}
    (hrest : cpu.ms.rest = mop :: rest) (hsound : planSound rest = true) :
    CpuPlanned (msEndCycle cpu).2 := by
  have htail : cpu.ms.plan.drop (cpu.ms.pc + 1) = rest := by
    rw [← List.drop_drop, show cpu.ms.plan.drop cpu.ms.pc = mop :: rest from hrest]
    rfl
  unfold msEndCycle
  dsimp only
  by_cases hlast : cpu.ms.plan.length ≤ cpu.ms.pc + 1
  · intro hactive
    simp [msSampleInterrupts, hlast] at hactive
  · intro hactive
    simp only [msSampleInterrupts, hlast, decide_false, MsState.rest, htail, Bool.false_eq_true,
      if_false]
    refine ⟨?_, hsound⟩
    rw [← htail]
    simpa using hlast

theorem msEndCycle_frame (cpu : Cpu6502) : (msEndCycle cpu).2.cycles = cpu.cycles ∧
    (msEndCycle cpu).2.events = cpu.events ∧ (msEndCycle cpu).2.halted = cpu.halted := by
  unfold msEndCycle msSampleInterrupts
  dsimp only
  split_ifs <;> exact ⟨rfl, rfl, rfl⟩

/-- What a cycle of a running CPU does. -/
structure CpuCycled (cpu cpu' : Cpu6502) : Prop extends OneAccess cpu cpu' where
  planned : CpuPlanned cpu'
  halted : cpu'.halted = cpu.halted

/-- A cycle whose first micro-operation is not skipped. -/
theorem msRunCycle_cycled {cpu : Cpu6502} {mop : MicroOp} {rest : List MicroOp}
    (hrest : cpu.ms.rest = mop :: rest) (hsound : planSound rest = true) (hjam : mop ≠ .jam)
    (hskip : mop = .readFixup → cpu.ms.crossed = true) :
    CpuCycled cpu (msRunCycle (mop :: rest) cpu).2 := by
  have htakes := msMicroOp_takes mop cpu hjam hskip
  unfold msRunCycle
  generalize msMicroOp mop cpu = r at htakes
  obtain ⟨flow, cpu'⟩ := r
  have hrest' : cpu'.ms.rest = mop :: rest := by
    rw [← hrest, MsState.rest, htakes.plan, htakes.pc]
    rfl
  cases flow with
  | next =>
    obtain ⟨hcycles, hevents, hhalted⟩ := msEndCycle_frame cpu'
    exact ⟨⟨hcycles.trans htakes.cycles, hevents ▸ htakes.events⟩,
      msEndCycle_planned hrest' hsound, hhalted.trans htakes.halted⟩
  | done => exact ⟨⟨htakes.cycles, htakes.events⟩, nofun, htakes.halted⟩
  | chain => exact absurd rfl htakes.flow

/-- The micro-operation of a JAM opcode is next. -/
def CpuJamming (cpu : Cpu6502) : Prop := cpu.ms.active = true ∧ cpu.ms.rest.head? = some .jam

/-- A cycle inside a sequence. A skipped fix-up hands its cycle on to the read. -/
theorem msRunCycle_rest_cycled {cpu : Cpu6502} (hne : cpu.ms.rest ≠ [])
    (hsound : planSound cpu.ms.rest = true) (hjam : cpu.ms.rest.head? ≠ some .jam) :
    CpuCycled cpu (msRunCycle cpu.ms.rest cpu).2 := by
  obtain ⟨mop, rest, hrest⟩ := List.exists_cons_of_ne_nil hne
  rw [hrest] at hsound hjam ⊢
  have hjam' : mop ≠ .jam := by simpa using hjam
  by_cases hskip : mop = .readFixup ∧ cpu.ms.crossed = false
  · obtain ⟨rfl, hcrossed⟩ := hskip
    obtain ⟨rest', rfl⟩ : ∃ rest', rest = .readData :: rest' := by
      cases rest with
      | nil => cases hsound
      | cons next rest' => cases next <;> first | exact ⟨rest', rfl⟩ | cases hsound
    have hchain : msMicroOp .readFixup cpu = (.chain, cpu) := by
      simp [msMicroOp, hcrossed]
    rw [msRunCycle, hchain]
    have hrest' : ({ cpu with ms := { cpu.ms with pc := cpu.ms.pc + 1 } } : Cpu6502).ms.rest =
        .readData :: rest' := by
      have hdrop : cpu.ms.plan.drop cpu.ms.pc = .readFixup :: .readData :: rest' := hrest
      change cpu.ms.plan.drop (cpu.ms.pc + 1) = _
      rw [← List.drop_drop, hdrop]
      rfl
    have hcycled := msRunCycle_cycled hrest' hsound nofun nofun
    exact { hcycled with }
  · refine msRunCycle_cycled hrest (planSound_tail hsound) hjam' fun heq => ?_
    by_contra hcrossed
    exact hskip ⟨heq, by simpa using hcrossed⟩

theorem msStartInterrupt_cycled (vector : Word) (cpu : Cpu6502) :
    CpuCycled cpu (msStartInterrupt vector cpu).2 := by
  have hread := cpuMemRead_one cpu.pc { cpu with ms := msBuildInterrupt vector cpu }
  have hplan : [MicroOp.dummyPc, .pushPch, .pushPcl, .pushP, .vecLo, .vecHi].foldl planAdd [] =
      [.dummyPc, .pushPch, .pushPcl, .pushP, .vecLo, .vecHi] := by decide
  refine ⟨⟨hread.cycles, hread.events⟩, fun _ => ?_, rfl⟩
  change _ ≠ [] ∧ planSound ([MicroOp.dummyPc, .pushPch, .pushPcl, .pushP, .vecLo, .vecHi].foldl
    planAdd []) = true
  exact ⟨by simp [MsState.rest, msBuildInterrupt, msStartInterrupt, msSampleInterrupts,
    cpuMemRead, cpuTick, hplan], by decide⟩

theorem msStartInstruction_cycled (cpu : Cpu6502) :
    CpuCycled cpu (msStartInstruction cpu).2 := by
  have hfetch := cpuFetchByte_one cpu
  exact ⟨⟨hfetch.cycles, hfetch.events⟩,
    fun _ => msBuildPlan_sound (cpu.memory cpu.pc) cpu.ms, rfl⟩

theorem cpuCycle_cycled {cpu : Cpu6502} (h : CpuPlanned cpu) (hrun : cpu.halted = false)
    (hjam : ¬CpuJamming cpu) : CpuCycled cpu (cpuCycle cpu).2 := by
  unfold cpuCycle
  rw [if_neg (by simp [hrun])]
  split
  · split
    · have hstart := msStartInterrupt_cycled 0xFFFA#16
        { cpu with nmiPending := false, ms := { cpu.ms with nmiSampled := false } }
      exact { hstart with }
    split
    · have hstart := msStartInterrupt_cycled 0xFFFE#16 { cpu with
        irqPulse := if cpu.irqPulse != 0#8 then cpu.irqPulse - 1#8 else cpu.irqPulse
        ms := { cpu.ms with irqSampled := false } }
      exact { hstart with }
    · exact msStartInstruction_cycled cpu
  · rename_i hactive
    have hactive' : cpu.ms.active = true := by simpa using hactive
    obtain ⟨hne, hsound⟩ := h hactive'
    exact msRunCycle_rest_cycled hne hsound fun heq => hjam ⟨hactive', heq⟩

/-- A JAM's second cycle halts the CPU, without a bus access. -/
theorem cpuCycle_jams {cpu : Cpu6502} (hrun : cpu.halted = false) (hjam : CpuJamming cpu) :
    (cpuCycle cpu).2.halted = true ∧ (cpuCycle cpu).2.cycles = cpu.cycles ∧
      (cpuCycle cpu).2.events = cpu.events ∧ (cpuCycle cpu).2.ms.active = false := by
  obtain ⟨hactive, hhead⟩ := hjam
  obtain ⟨rest, hrest⟩ : ∃ rest, cpu.ms.rest = .jam :: rest := by
    cases hr : cpu.ms.rest with
    | nil => rw [hr] at hhead; cases hhead
    | cons mop rest => rw [hr] at hhead; cases hhead; exact ⟨rest, rfl⟩
  have hcycle : cpuCycle cpu = msRunCycle (.jam :: rest) cpu := by
    rw [← hrest]
    simp [cpuCycle, hrun, hactive, MsState.rest]
  rw [hcycle]
  exact ⟨rfl, rfl, rfl, rfl⟩

/-! ## Reachable states -/

theorem cpuCycle_planned {cpu : Cpu6502} (h : CpuPlanned cpu) : CpuPlanned (cpuCycle cpu).2 := by
  by_cases hrun : cpu.halted = true
  · have hstay : cpuCycle cpu = (true, cpu) := by simp [cpuCycle, hrun]
    rw [hstay]
    exact h
  · have hrun' : cpu.halted = false := by simpa using hrun
    by_cases hjam : CpuJamming cpu
    · intro hactive
      rw [(cpuCycle_jams hrun' hjam).2.2.2] at hactive
      cases hactive
    · exact (cpuCycle_cycled h hrun' hjam).planned

theorem cpuOp_planned {cpu : Cpu6502} (h : CpuPlanned cpu) (op : CpuOp) :
    CpuPlanned (cpuOp cpu op) := by
  cases op with
  | cycle => exact cpuCycle_planned h
  | reset => exact nofun
  | setMicroseq => exact nofun
  | _ => exact h

theorem cpuReachable_planned {cpu : Cpu6502} (h : CpuReachable cpu) : CpuPlanned cpu := by
  have hinit : ∀ cpu, (∃ memory, cpu = cpuInit memory) → CpuPlanned cpu := by
    rintro _ ⟨memory, rfl⟩
    exact nofun
  exact h.invariant hinit fun _ op hcpu _ => cpuOp_planned hcpu op

end Phosphoric
