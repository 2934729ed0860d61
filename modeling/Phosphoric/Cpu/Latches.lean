import Phosphoric.Cpu.Bus
import Mathlib.Data.Nat.ModEq

/-!
# Between instructions the latches are dead

A sequence fills its latches (`MsLatch`) before it uses them. So two CPUs that are between
instructions and differ only in the micro-sequencer go on alike.

**Theorem (`cpuObserve_alike`).** CPUs equal but for latches that what is left of their plan writes
before it reads them (`CpuAlike`) stay so under every operation, with the same bus accesses.

`msLive` is the usual analysis of live variables, over the micro-operations left of a plan.
-/

namespace Phosphoric

/-! ## Live latches -/

/-- The fields of the micro-sequencer that carry a value from one cycle to another. -/
inductive MsLatch
  | rmw | idx | ptr | adl | data | addr | base | vector
  deriving DecidableEq

/-- The latches a micro-operation reads. BRK's push of P may be taken over by an NMI. -/
def MicroOp.reads (op : Byte) : MicroOp → List MsLatch
  | .fetchHi => [.idx, .adl]
  | .zpIndex => [.idx, .ptr]
  | .ptrLo | .branchTaken => [.ptr]
  | .ptrHi => [.idx, .ptr, .adl]
  | .dummyUnfixed | .readFixup | .writeData => [.addr, .base]
  | .readData | .branchPage | .jmpIndLo => [.addr]
  | .rmwOrig | .jmpIndHi => [.data, .addr]
  | .rmwNew => [.rmw, .data, .addr]
  | .jmpHi | .jsrHi | .pullPch => [.adl]
  | .pushP | .vecLo => [.vector]
  | .pushPBrk => if op = 0x00#8 then [.vector] else []
  | .vecHi => [.adl, .vector]
  | _ => []

/-- The latches a micro-operation gives a value that does not depend on theirs. -/
def MicroOp.writes : MicroOp → List MsLatch
  | .fetchLo => [.ptr, .adl, .addr, .base]
  | .fetchHi | .ptrHi | .branchTaken => [.addr, .base]
  | .zpIndex => [.ptr, .addr, .base]
  | .ptrLo | .pullPcl | .vecLo => [.adl]
  | .readData | .rmwNew | .imm | .jmpIndLo => [.data]
  | _ => []

/-- The latches a sequence of micro-operations reads before it writes them. -/
def msLive (op : Byte) : List MicroOp → List MsLatch
  | [] => []
  | mop :: rest => mop.reads op ++ (msLive op rest).filter fun l => !mop.writes.contains l

/-- The live latches of a CPU: none between instructions. -/
def Cpu6502.live (cpu : Cpu6502) : List MsLatch :=
  if cpu.ms.active then msLive cpu.ms.opcode cpu.ms.rest else []

/-! ## Alike CPUs -/

/-- The latch has the same value. -/
def MsLatch.Same (s t : MsState) : MsLatch → Prop
  | .rmw => t.rmw = s.rmw
  | .idx => t.idx = s.idx
  | .ptr => t.ptr = s.ptr
  | .adl => t.adl = s.adl
  | .data => t.data = s.data
  | .addr => t.addr = s.addr
  | .base => t.base = s.base
  | .vector => t.vector = s.vector

/-- `b` is `a` but for its IRQ trace, the latches and whole turns of the 64-bit cycle counter. -/
def CpuOff (a b : Cpu6502) : Prop :=
  ∃ fp count cycles rmw idx ptr adl data addr base vector, b = { a with
    irqTraceFp := fp, irqTraceCount := count, cycles := cycles
    ms := { a.ms with rmw, idx, ptr, adl, data, addr, base, vector } } ∧
    cycles ≡ a.cycles [MOD 2 ^ 64]

/-- And the latches in `live` are the same. -/
structure CpuAlikeOn (live : List MsLatch) (a b : Cpu6502) : Prop where
  off : CpuOff a b
  same : ∀ l ∈ live, l.Same a.ms b.ms

/-- Between instructions with the same interrupt samples, and the same outside the
micro-sequencer. -/
structure CpuIdle (a b : Cpu6502) : Prop where
  off : ∃ fp count cycles ms, b = { a with
    irqTraceFp := fp, irqTraceCount := count, cycles := cycles, ms := ms } ∧
    cycles ≡ a.cycles [MOD 2 ^ 64]
  active : a.ms.active = false ∧ b.ms.active = false
  nmiSampled : b.ms.nmiSampled = a.ms.nmiSampled
  irqSampled : b.ms.irqSampled = a.ms.irqSampled

inductive CpuAlike (a b : Cpu6502) : Prop
  | inside (h : CpuAlikeOn a.live a b)
  | between (h : CpuIdle a b)

variable {a b : Cpu6502} {live : List MsLatch}

theorem CpuAlikeOn.mono {live' : List MsLatch} (h : CpuAlikeOn live a b)
    (hsub : ∀ l ∈ live', l ∈ live) : CpuAlikeOn live' a b :=
  ⟨h.off, fun l hl => h.same l (hsub l hl)⟩

/-! ## Micro-operations -/

/-- What a micro-operation starts from: the latches it reads, and those it hands on. -/
structure CpuAlikeFor (op : Byte) (mop : MicroOp) (rest : List MsLatch) (a b : Cpu6502) :
    Prop where
  off : CpuOff a b
  reads : ∀ l ∈ mop.reads op, l.Same a.ms b.ms
  kept : ∀ l ∈ rest, l ∉ mop.writes → l.Same a.ms b.ms

theorem CpuAlikeOn.for_mop {op : Byte} {mop : MicroOp} {rest : List MicroOp}
    (h : CpuAlikeOn (msLive op (mop :: rest)) a b) :
    CpuAlikeFor op mop (msLive op rest) a b := by
  refine ⟨h.off, fun l hl => h.same l (List.mem_append_left _ hl), fun l hl hw => h.same l ?_⟩
  exact List.mem_append_right _ (List.mem_filter.mpr ⟨hl, by simpa using hw⟩)

/-- Like flows, and alike on what is handed on. -/
def FlowAlike (live : List MsLatch) (r r' : MsFlow × Cpu6502) : Prop :=
  r.1 = r'.1 ∧ CpuAlikeOn live r.2 r'.2

theorem FlowAlike.ite {live : List MsLatch} {p q : Prop} [Decidable p] [Decidable q]
    {r r' s s' : MsFlow × Cpu6502} (hpq : p ↔ q) (hr : FlowAlike live r r')
    (hs : FlowAlike live s s') :
    FlowAlike live (if p then r else s) (if q then r' else s') := by
  by_cases hp : p
  · rw [if_pos hp, if_pos (hpq.mp hp)]
    exact hr
  · rw [if_neg hp, if_neg (mt hpq.mpr hp)]
    exact hs

theorem msNmiHijack_alike {rest : List MsLatch} (hoff : CpuOff a b)
    (hvector : b.ms.vector = a.ms.vector) (hkept : ∀ l ∈ rest, l.Same a.ms b.ms) :
    CpuAlikeOn rest (msNmiHijack a) (msNmiHijack b) := by
  obtain ⟨fp, count, cycles, rmw, idx, ptr, adl, data, addr, base, vector, rfl, hcycles⟩ := hoff
  obtain rfl : vector = a.ms.vector := hvector
  unfold msNmiHijack
  dsimp only
  split_ifs
  · refine ⟨⟨_, _, _, _, _, _, _, _, _, _, _, rfl, hcycles⟩, fun l hl => ?_⟩
    cases l <;> first | rfl | exact hkept _ hl
  · exact ⟨⟨_, _, _, _, _, _, _, _, _, _, _, rfl, hcycles⟩, hkept⟩

/-- A micro-operation uses the values of the latches it reads only. -/
theorem msMicroOp_alike {mop : MicroOp} {rest : List MsLatch}
    (h : CpuAlikeFor a.ms.opcode mop rest a b) :
    FlowAlike rest (msMicroOp mop a) (msMicroOp mop b) := by
  obtain ⟨⟨fp, count, cycles, rmw, idx, ptr, adl, data, addr, base, vector, rfl, hcycles⟩,
    hreads, hkept⟩ := h
  have hnext := hcycles.add_right 1
  cases mop with
  | fetchLo =>
    refine .ite .rfl ?_ ?_ <;>
      refine ⟨rfl, ⟨_, _, _, _, _, _, _, _, _, _, _, rfl, hnext⟩, fun l hl => ?_⟩ <;>
      cases l <;> first | rfl | exact hkept _ hl (by decide)
  | fetchHi =>
    obtain rfl : idx = a.ms.idx := hreads .idx (by simp [MicroOp.reads])
    obtain rfl : adl = a.ms.adl := hreads .adl (by simp [MicroOp.reads])
    refine ⟨rfl, ⟨_, _, _, _, _, _, _, _, _, _, _, rfl, hnext⟩, fun l hl => ?_⟩
    cases l <;> first | rfl | exact hkept _ hl (by decide)
  | zpIndex =>
    obtain rfl : idx = a.ms.idx := hreads .idx (by simp [MicroOp.reads])
    obtain rfl : ptr = a.ms.ptr := hreads .ptr (by simp [MicroOp.reads])
    refine ⟨rfl, ⟨_, _, _, _, _, _, _, _, _, _, _, rfl, hnext⟩, fun l hl => ?_⟩
    cases l <;> first | rfl | exact hkept _ hl (by decide)
  | ptrLo =>
    obtain rfl : ptr = a.ms.ptr := hreads .ptr (by simp [MicroOp.reads])
    refine ⟨rfl, ⟨_, _, _, _, _, _, _, _, _, _, _, rfl, hnext⟩, fun l hl => ?_⟩
    cases l <;> first | rfl | exact hkept _ hl (by decide)
  | ptrHi =>
    obtain rfl : idx = a.ms.idx := hreads .idx (by simp [MicroOp.reads])
    obtain rfl : ptr = a.ms.ptr := hreads .ptr (by simp [MicroOp.reads])
    obtain rfl : adl = a.ms.adl := hreads .adl (by simp [MicroOp.reads])
    refine .ite .rfl ?_ ?_ <;>
      refine ⟨rfl, ⟨_, _, _, _, _, _, _, _, _, _, _, rfl, hnext⟩, fun l hl => ?_⟩ <;>
      cases l <;> first | rfl | exact hkept _ hl (by decide)
  | dummyUnfixed =>
    obtain rfl : addr = a.ms.addr := hreads .addr (by simp [MicroOp.reads])
    obtain rfl : base = a.ms.base := hreads .base (by simp [MicroOp.reads])
    exact ⟨rfl, ⟨_, _, _, _, _, _, _, _, _, _, _, rfl, hnext⟩, fun l hl => hkept l hl nofun⟩
  | readFixup =>
    obtain rfl : addr = a.ms.addr := hreads .addr (by simp [MicroOp.reads])
    obtain rfl : base = a.ms.base := hreads .base (by simp [MicroOp.reads])
    dsimp only [msMicroOp]
    split_ifs
    · exact ⟨rfl, ⟨_, _, _, _, _, _, _, _, _, _, _, rfl, hnext⟩, fun l hl => hkept l hl nofun⟩
    · exact ⟨rfl, ⟨_, _, _, _, _, _, _, _, _, _, _, rfl, hcycles⟩, fun l hl => hkept l hl nofun⟩
  | readData =>
    obtain rfl : addr = a.ms.addr := hreads .addr (by simp [MicroOp.reads])
    refine .ite .rfl ?_ ?_ <;>
      refine ⟨rfl, ⟨_, _, _, _, _, _, _, _, _, _, _, rfl, hnext⟩, fun l hl => ?_⟩ <;>
      cases l <;> first | rfl | exact hkept _ hl (by decide)
  | writeData =>
    obtain rfl : addr = a.ms.addr := hreads .addr (by simp [MicroOp.reads])
    obtain rfl : base = a.ms.base := hreads .base (by simp [MicroOp.reads])
    dsimp only [msMicroOp, cpuMemWrite, cpuTick]
    split_ifs <;> exact ⟨rfl, ⟨_, _, _, _, _, _, _, _, _, _, _, rfl, hnext⟩,
      fun l hl => hkept l hl nofun⟩
  | rmwOrig =>
    obtain rfl : data = a.ms.data := hreads .data (by simp [MicroOp.reads])
    obtain rfl : addr = a.ms.addr := hreads .addr (by simp [MicroOp.reads])
    exact ⟨rfl, ⟨_, _, _, _, _, _, _, _, _, _, _, rfl, hnext⟩, fun l hl => hkept l hl nofun⟩
  | rmwNew =>
    obtain rfl : rmw = a.ms.rmw := hreads .rmw (by simp [MicroOp.reads])
    obtain rfl : data = a.ms.data := hreads .data (by simp [MicroOp.reads])
    obtain rfl : addr = a.ms.addr := hreads .addr (by simp [MicroOp.reads])
    refine ⟨rfl, ⟨_, _, _, _, _, _, _, _, _, _, _, rfl, hnext⟩, fun l hl => ?_⟩
    cases l <;> first | rfl | exact hkept _ hl (by decide)
  | imm =>
    refine ⟨rfl, ⟨_, _, _, _, _, _, _, _, _, _, _, rfl, hnext⟩, fun l hl => ?_⟩
    cases l <;> first | rfl | exact hkept _ hl (by decide)
  | branchTaken =>
    obtain rfl : ptr = a.ms.ptr := hreads .ptr (by simp [MicroOp.reads])
    refine ⟨rfl, ⟨_, _, _, _, _, _, _, _, _, _, _, rfl, hnext⟩, fun l hl => ?_⟩
    cases l <;> first | rfl | exact hkept _ hl (by decide)
  | branchPage =>
    obtain rfl : addr = a.ms.addr := hreads .addr (by simp [MicroOp.reads])
    exact ⟨rfl, ⟨_, _, _, _, _, _, _, _, _, _, _, rfl, hnext⟩, fun l hl => hkept l hl nofun⟩
  | jmpIndLo =>
    obtain rfl : addr = a.ms.addr := hreads .addr (by simp [MicroOp.reads])
    refine ⟨rfl, ⟨_, _, _, _, _, _, _, _, _, _, _, rfl, hnext⟩, fun l hl => ?_⟩
    cases l <;> first | rfl | exact hkept _ hl (by decide)
  | jmpIndHi =>
    obtain rfl : data = a.ms.data := hreads .data (by simp [MicroOp.reads])
    obtain rfl : addr = a.ms.addr := hreads .addr (by simp [MicroOp.reads])
    exact ⟨rfl, ⟨_, _, _, _, _, _, _, _, _, _, _, rfl, hnext⟩, fun l hl => hkept l hl nofun⟩
  | jmpHi | jsrHi | pullPch =>
    obtain rfl : adl = a.ms.adl := hreads .adl (by simp [MicroOp.reads])
    exact ⟨rfl, ⟨_, _, _, _, _, _, _, _, _, _, _, rfl, hnext⟩, fun l hl => hkept l hl nofun⟩
  | pushP =>
    refine ⟨rfl, msNmiHijack_alike ⟨_, _, _, _, _, _, _, _, _, _, _, rfl, hnext⟩ ?_
      fun l hl => hkept l hl nofun⟩
    exact hreads .vector (by simp [MicroOp.reads])
  | pushPBrk =>
    dsimp only [msMicroOp]
    split_ifs with hop
    · refine ⟨rfl, msNmiHijack_alike ⟨_, _, _, _, _, _, _, _, _, _, _, rfl, hnext⟩ ?_
        fun l hl => hkept l hl nofun⟩
      exact hreads .vector (by simp [MicroOp.reads, eq_of_beq hop])
    · exact ⟨rfl, ⟨_, _, _, _, _, _, _, _, _, _, _, rfl, hnext⟩, fun l hl => hkept l hl nofun⟩
  | pullPcl =>
    refine ⟨rfl, ⟨_, _, _, _, _, _, _, _, _, _, _, rfl, hnext⟩, fun l hl => ?_⟩
    cases l <;> first | rfl | exact hkept _ hl (by decide)
  | vecLo =>
    obtain rfl : vector = a.ms.vector := hreads .vector (by simp [MicroOp.reads])
    refine ⟨rfl, ⟨_, _, _, _, _, _, _, _, _, _, _, rfl, hnext⟩, fun l hl => ?_⟩
    cases l <;> first | rfl | exact hkept _ hl (by decide)
  | vecHi =>
    obtain rfl : adl = a.ms.adl := hreads .adl (by simp [MicroOp.reads])
    obtain rfl : vector = a.ms.vector := hreads .vector (by simp [MicroOp.reads])
    dsimp only [msMicroOp]
    split
    · obtain ⟨n, hn⟩ := cpuIrqTraceEntry_frame (msVecHi a)
      obtain ⟨m, hm⟩ := cpuIrqTraceEntry_frame (msVecHi { a with
        irqTraceFp := fp, irqTraceCount := count, cycles := cycles
        ms := { a.ms with rmw, idx, ptr, data, addr, base } })
      rw [hn, hm]
      exact ⟨rfl, ⟨_, _, _, _, _, _, _, _, _, _, _, rfl, hnext⟩, fun l hl => hkept l hl nofun⟩
    · exact ⟨rfl, ⟨_, _, _, _, _, _, _, _, _, _, _, rfl, hnext⟩, fun l hl => hkept l hl nofun⟩
  | jam =>
    exact ⟨rfl, ⟨_, _, _, _, _, _, _, _, _, _, _, rfl, hcycles⟩, fun l hl => hkept l hl nofun⟩
  | _ => exact ⟨rfl, ⟨_, _, _, _, _, _, _, _, _, _, _, rfl, hnext⟩, fun l hl => hkept l hl nofun⟩

/-- No micro-operation moves the plan. -/
theorem msMicroOp_plan (mop : MicroOp) (cpu : Cpu6502) :
    (msMicroOp mop cpu).2.ms.opcode = cpu.ms.opcode ∧
      (msMicroOp mop cpu).2.ms.rest = cpu.ms.rest := by
  have hhijack : ∀ cpu, (msNmiHijack cpu).ms.opcode = cpu.ms.opcode ∧
      (msNmiHijack cpu).ms.rest = cpu.ms.rest := by
    intro cpu
    unfold msNmiHijack
    split <;> exact ⟨rfl, rfl⟩
  cases mop with
  | fetchLo | ptrHi | readFixup | readData | writeData =>
    dsimp only [msMicroOp]
    split <;> exact ⟨rfl, rfl⟩
  | pushP => exact hhijack _
  | pushPBrk =>
    dsimp only [msMicroOp]
    split
    · exact hhijack _
    · exact ⟨rfl, rfl⟩
  | vecHi =>
    dsimp only [msMicroOp]
    split
    · obtain ⟨n, hn⟩ := cpuIrqTraceEntry_frame (msVecHi cpu)
      rw [hn]
      exact ⟨rfl, rfl⟩
    · exact ⟨rfl, rfl⟩
  | _ => exact ⟨rfl, rfl⟩

/-! ## Cycles -/

/-- Like results of a cycle. -/
def CycleAlike (r r' : Bool × Cpu6502) : Prop := r.1 = r'.1 ∧ CpuAlike r.2 r'.2

/-- The end of a cycle hands on what the rest of the plan needs. -/
theorem msEndCycle_alike (h : CpuAlikeOn (msLive a.ms.opcode a.ms.rest.tail) a b) :
    CycleAlike (msEndCycle a) (msEndCycle b) := by
  have htail : a.ms.rest.tail = a.ms.plan.drop (a.ms.pc + 1) := List.tail_drop
  obtain ⟨⟨fp, count, cycles, rmw, idx, ptr, adl, data, addr, base, vector, rfl, hcycles⟩,
    hsame⟩ := h
  refine ⟨rfl, .inside ?_⟩
  unfold msEndCycle
  by_cases hlast : a.ms.plan.length ≤ a.ms.pc + 1
  · simp only [hlast, decide_true, if_true, msSampleInterrupts]
    exact ⟨⟨_, _, _, _, _, _, _, _, _, _, _, rfl, hcycles⟩, fun l hl => absurd hl List.not_mem_nil⟩
  · simp only [hlast, decide_false, Bool.false_eq_true, if_false, msSampleInterrupts]
    refine ⟨⟨_, _, _, _, _, _, _, _, _, _, _, rfl, hcycles⟩, fun l hl => ?_⟩
    have hmem : l ∈ msLive a.ms.opcode a.ms.rest.tail := by
      unfold Cpu6502.live at hl
      split at hl
      · rw [htail]
        exact hl
      · cases hl
    cases l <;> exact hsame _ hmem

/-- A cycle inside a sequence, by induction on what is left of the plan: a chained micro-operation
goes on to the next one. -/
theorem msRunCycle_alike (rest : List MicroOp) (hrest : a.ms.rest = rest)
    (h : CpuAlikeOn (msLive a.ms.opcode rest) a b) :
    CycleAlike (msRunCycle rest a) (msRunCycle rest b) := by
  induction rest generalizing a b with
  | nil => exact msEndCycle_alike (h.mono (by rw [hrest]; exact fun l hl => hl))
  | cons mop rest ih =>
    have hmop := msMicroOp_alike h.for_mop
    obtain ⟨hopcode, hplan⟩ := msMicroOp_plan mop a
    unfold msRunCycle
    generalize msMicroOp mop a = r at hmop hopcode hplan
    generalize msMicroOp mop b = r' at hmop
    obtain ⟨flow, a'⟩ := r
    obtain ⟨flow', b'⟩ := r'
    obtain ⟨rfl, halike⟩ : flow = flow' ∧ CpuAlikeOn (msLive a.ms.opcode rest) a' b' := hmop
    have htail : a'.ms.rest.tail = rest := by
      rw [show a'.ms.rest = a.ms.rest from hplan, hrest]
      rfl
    rw [← show a'.ms.opcode = a.ms.opcode from hopcode, ← htail] at halike
    cases flow with
    | next => exact msEndCycle_alike halike
    | done =>
      obtain ⟨⟨_, _, _, _, _, _, _, _, _, _, _, rfl, hcycles⟩, -⟩ := halike
      exact ⟨rfl, .inside ⟨⟨_, _, _, _, _, _, _, _, _, _, _, rfl, hcycles⟩,
        fun l hl => absurd hl List.not_mem_nil⟩⟩
    | chain =>
      have hnext : ({ a' with ms := { a'.ms with pc := a'.ms.pc + 1 } } : Cpu6502).ms.rest = rest :=
        List.tail_drop.symm.trans htail
      refine ih hnext ?_
      rw [htail] at halike
      obtain ⟨⟨_, _, _, _, _, _, _, _, _, _, _, rfl, hcycles⟩, hsame⟩ := halike
      refine ⟨⟨_, _, _, _, _, _, _, _, _, _, _, rfl, hcycles⟩, fun l hl => ?_⟩
      cases l <;> exact hsame _ hl

/-- A new plan reads no latch left by the one before. -/
theorem msBuildPlan_live (opcode : Byte) (s t : MsState) :
    ∀ l ∈ msLive opcode (msBuildPlan opcode s).rest,
      l.Same (msBuildPlan opcode s) (msBuildPlan opcode t) := by
  have hall : ∀ op : Byte, ∀ l ∈ msLive op
      ((msPlan (msTable op).cls (opcodeTable op).mode).foldl planAdd []),
      l = .rmw ∨ l = .idx ∨ (l = .vector ∧ (msTable op).cls = .brk) := by
    decide
  intro l hl
  rcases hall opcode l hl with rfl | rfl | ⟨rfl, hbrk⟩
  · rfl
  · rfl
  · simp [MsLatch.Same, msBuildPlan, hbrk]

theorem msStartInstruction_alike (h : CpuIdle a b) :
    CycleAlike (msStartInstruction a) (msStartInstruction b) := by
  obtain ⟨⟨fp, count, cycles, ms, rfl, hcycles⟩, -, -, -⟩ := h
  refine ⟨rfl, .inside ⟨⟨_, _, _, _, _, _, _, _, _, _, _, rfl, hcycles.add_right 1⟩,
    fun l hl => ?_⟩⟩
  have hlive := msBuildPlan_live (a.memory a.pc) a.ms ms l hl
  cases l <;> exact hlive

theorem msStartInterrupt_alike (vector : Word) (h : CpuIdle a b) :
    CycleAlike (msStartInterrupt vector a) (msStartInterrupt vector b) := by
  obtain ⟨⟨fp, count, cycles, ms, rfl, hcycles⟩, -, -, -⟩ := h
  refine ⟨rfl, .inside ⟨⟨_, _, _, _, _, _, _, _, _, _, _, rfl, hcycles.add_right 1⟩,
    fun l hl => ?_⟩⟩
  have hvector : l ∈ msLive 0x00#8 ([.dummyPc, .pushPch, .pushPcl, .pushP, .vecLo, .vecHi].foldl
      planAdd []) := hl
  obtain rfl : l = .vector := by
    revert hvector
    cases l <;> decide
  rfl

/-- The first cycle of a sequence. -/
theorem cpuCycle_idle (h : CpuIdle a b) : CycleAlike (cpuCycle a) (cpuCycle b) := by
  have hsame := h
  obtain ⟨⟨fp, count, cycles, ms, rfl, hcycles⟩, ⟨hidle, hidle'⟩, hnmi, hirq⟩ := h
  dsimp only at hidle' hnmi hirq
  unfold cpuCycle
  dsimp only
  rw [hidle, hidle', hnmi, hirq]
  by_cases hhalted : a.halted = true
  · rw [if_pos hhalted, if_pos hhalted]
    exact ⟨rfl, .between hsame⟩
  rw [if_neg hhalted, if_neg hhalted, Bool.not_false, if_pos rfl, if_pos rfl]
  by_cases htake : (a.ms.nmiSampled && a.nmiPending) = true
  · rw [if_pos htake, if_pos htake]
    exact msStartInterrupt_alike _
      ⟨⟨_, _, _, _, rfl, hcycles⟩, ⟨rfl, rfl⟩, rfl, rfl⟩
  rw [if_neg htake, if_neg htake]
  by_cases hsampled : a.ms.irqSampled = true
  · rw [if_pos hsampled, if_pos hsampled]
    exact msStartInterrupt_alike _
      ⟨⟨_, _, _, _, rfl, hcycles⟩, ⟨rfl, rfl⟩, rfl, rfl⟩
  rw [if_neg hsampled, if_neg hsampled]
  exact msStartInstruction_alike hsame

/-- Alike between instructions is alike whatever the latches are. -/
theorem CpuAlikeOn.idle (h : CpuAlikeOn live a b) (hidle : a.ms.active = false) : CpuIdle a b := by
  obtain ⟨⟨_, _, _, _, _, _, _, _, _, _, _, rfl, hcycles⟩, -⟩ := h
  exact ⟨⟨_, _, _, _, rfl, hcycles⟩, ⟨hidle, hidle⟩, rfl, rfl⟩

theorem cpuCycle_alike (h : CpuAlike a b) : CycleAlike (cpuCycle a) (cpuCycle b) := by
  rcases h with h | h
  · by_cases hactive : a.ms.active = true
    · have hlive : a.live = msLive a.ms.opcode a.ms.rest := by simp [Cpu6502.live, hactive]
      have hbusy : ¬(!a.ms.active) = true := by simp [hactive]
      have hrun := msRunCycle_alike a.ms.rest rfl (hlive ▸ h)
      obtain ⟨⟨_, _, _, _, _, _, _, _, _, _, _, rfl, hcycles⟩, hsame⟩ := h
      unfold cpuCycle
      dsimp only
      by_cases hhalted : a.halted = true
      · rw [if_pos hhalted, if_pos hhalted]
        exact ⟨rfl, .inside ⟨⟨_, _, _, _, _, _, _, _, _, _, _, rfl, hcycles⟩, hsame⟩⟩
      rw [if_neg hhalted, if_neg hhalted, if_neg hbusy, if_neg hbusy]
      exact hrun
    · exact cpuCycle_idle (h.idle (by simpa using hactive))
  · exact cpuCycle_idle h

/-! ## Operations -/

theorem cpuOp_alike (h : CpuAlike a b) (op : CpuOp) : CpuAlike (cpuOp a op) (cpuOp b op) := by
  have hcycle := (cpuCycle_alike h).2
  rcases h with ⟨⟨_, _, _, _, _, _, _, _, _, _, _, rfl, hcycles⟩, hsame⟩ |
    ⟨⟨_, _, _, _, rfl, hcycles⟩, hidle, hnmi, hirq⟩
  · cases op with
    | cycle => exact hcycle
    | reset => exact .between ⟨⟨_, _, _, _, rfl, .rfl⟩, ⟨rfl, rfl⟩, rfl, rfl⟩
    | setMicroseq => exact .between ⟨⟨_, _, _, _, rfl, hcycles⟩, ⟨rfl, rfl⟩, rfl, rfl⟩
    | _ => exact .inside ⟨⟨_, _, _, _, _, _, _, _, _, _, _, rfl, hcycles⟩, hsame⟩
  · cases op with
    | cycle => exact hcycle
    | reset => exact .between ⟨⟨_, _, _, _, rfl, .rfl⟩, ⟨rfl, rfl⟩, rfl, rfl⟩
    | setMicroseq => exact .between ⟨⟨_, _, _, _, rfl, hcycles⟩, ⟨rfl, rfl⟩, hnmi, hirq⟩
    | _ => exact .between ⟨⟨_, _, _, _, rfl, hcycles⟩, hidle, hnmi, hirq⟩

/-- What an operation shows: the bus accesses and ticks it makes and, if it is a cycle, whether
that ends the instruction. -/
structure CpuAnswer where
  last : Option Bool
  events : List CpuEvent
  deriving DecidableEq

/-- What `cpu_cycle` returns. -/
def cpuLast (cpu : Cpu6502) : CpuOp → Option Bool
  | .cycle => some (cpuCycle cpu).1
  | _ => none

/-- An operation, from a CPU whose accesses have been seen. -/
def cpuObserve (cpu : Cpu6502) (op : CpuOp) : CpuAnswer × Cpu6502 :=
  let cpu := { cpu with events := [] }
  (⟨cpuLast cpu op, (cpuOp cpu op).events⟩, cpuOp cpu op)

theorem CpuAlike.seen (h : CpuAlike a b) :
    CpuAlike { a with events := [] } { b with events := [] } := by
  rcases h with ⟨⟨_, _, _, _, _, _, _, _, _, _, _, rfl, hcycles⟩, hsame⟩ |
    ⟨⟨_, _, _, _, rfl, hcycles⟩, hidle, hnmi, hirq⟩
  · exact .inside ⟨⟨_, _, _, _, _, _, _, _, _, _, _, rfl, hcycles⟩, hsame⟩
  · exact .between ⟨⟨_, _, _, _, rfl, hcycles⟩, hidle, hnmi, hirq⟩

theorem CpuAlike.events_eq (h : CpuAlike a b) : a.events = b.events := by
  rcases h with ⟨⟨_, _, _, _, _, _, _, _, _, _, _, rfl, -⟩, -⟩ | ⟨⟨_, _, _, _, rfl, -⟩, -, -, -⟩ <;>
    rfl

theorem cpuLast_alike (h : CpuAlike a b) (op : CpuOp) : cpuLast a op = cpuLast b op := by
  cases op with
  | cycle => exact congrArg some (cpuCycle_alike h).1
  | _ => rfl

/-- The step lemma: like CPUs answer an operation alike, and stay so. -/
theorem cpuObserve_alike (h : CpuAlike a b) (op : CpuOp) :
    (cpuObserve a op).1 = (cpuObserve b op).1 ∧
      CpuAlike (cpuObserve a op).2 (cpuObserve b op).2 := by
  have hnext := cpuOp_alike h.seen op
  exact ⟨congrArg₂ CpuAnswer.mk (cpuLast_alike h.seen op) hnext.events_eq, hnext⟩

end Phosphoric
