import Phosphoric.Cpu.Nmi

/-!
# One-shot IRQs

An IRQ pulse is *consumed* by the first cycle of the sequence it starts, and *delivered* when the
sequence loads PC from $FFFE. In between, an NMI pending when P is pushed takes the sequence over:
the vector read is the one at $FFFA, and the pulse is gone.

**Theorem (`pulse_delivered`).** In every run in which no NMI is pending at the push of P of a
sequence that consumed a pulse, each pulse consumed is delivered before anything else starts, within
six cycles: as many are delivered as are consumed, but for the one whose sequence is in progress.
As in the theorem about the NMI, a monitor (`pulsePhase`) keeps in step with what is left of the
sequence (`PulseInv`).
-/

namespace Phosphoric

/-! ## Events -/

/-- What a run tells of the pulses. -/
inductive PulseEvent
  /-- A sequence starts, without a pulse. -/
  | start
  /-- `irq_pulse` is decremented. -/
  | consumed
  /-- The first byte of a vector is read. -/
  | fetch (addr : Word) (lo : Byte)
  /-- The second byte of a vector is read, and PC becomes `pc`. -/
  | load (addr : Word) (hi : Byte) (pc : Word)
  deriving DecidableEq

/-- The vector read by a cycle. -/
def pulseVectorLog (cpu cpu' : Cpu6502) : List PulseEvent :=
  match cpu.ms.rest.head?, busRead cpu cpu' with
  | some .vecLo, some (addr, value) => [.fetch addr value]
  | some .vecHi, some (addr, value) => [.load addr value cpu'.pc]
  | _, _ => []

/-- The operation is a cycle that decrements `irq_pulse`. -/
def pulseTaken (cpu : Cpu6502) (op : CpuOp) : Bool :=
  op.isCycle && (cpuOp cpu op).irqPulse != cpu.irqPulse

/-- The events of an operation. -/
def pulseLog (cpu : Cpu6502) (op : CpuOp) : List PulseEvent :=
  if op.isCycle && !cpu.halted then
    (if pulseTaken cpu op then [.consumed] else if cpu.ms.active then [] else [.start]) ++
      if cpu.ms.active then pulseVectorLog cpu (cpuOp cpu op) else []
  else []

abbrev pulseTrace : List CpuOp → Cpu6502 → List PulseEvent := Machine.trace cpuOp pulseLog

/-- What the monitor waits for: nothing, the vector of a pulse consumed, its second byte. -/
inductive PulsePhase
  | idle
  | owed
  | fetched (lo : Byte)
  deriving DecidableEq

/-- The vector read after a pulse is consumed is the one at $FFFE, and PC is loaded from it before
anything else starts. Vectors of other sequences are not looked at. -/
def pulsePhase : PulsePhase → PulseEvent → Option PulsePhase
  | .idle, .consumed => some .owed
  | .idle, _ => some .idle
  | .owed, .fetch addr lo => if addr = 0xFFFE#16 then some (.fetched lo) else none
  | .fetched lo, .load addr hi pc =>
    if addr = 0xFFFF#16 ∧ pc = Word.mk hi lo then some .idle else none
  | _, _ => none

/-- The pulses delivered, by the same monitor. -/
def pulseDeliveries : PulsePhase → List PulseEvent → Nat
  | _, [] => 0
  | ph, event :: events =>
    match pulsePhase ph event with
    | none => 0
    | some ph' => (if ph ≠ .idle ∧ ph' = .idle then 1 else 0) + pulseDeliveries ph' events

/-- A pulse that is not delivered as yet. -/
def PulsePhase.owing (ph : PulsePhase) : Nat := if ph = .idle then 0 else 1

/-- The monitor balances what is consumed and what is delivered. -/
theorem pulseDeliveries_eq (events : List PulseEvent) {ph ph' : PulsePhase}
    (h : events.foldlM pulsePhase ph = some ph') :
    ph.owing + events.count .consumed = pulseDeliveries ph events + ph'.owing := by
  induction events generalizing ph with
  | nil =>
    obtain rfl := Option.some.inj h
    rw [List.count_nil, pulseDeliveries, Nat.add_zero, Nat.zero_add]
  | cons event events ih =>
    rw [List.foldlM_cons] at h
    obtain ⟨next, hnext, hrest⟩ := Option.bind_eq_some_iff.mp h
    have hbalance := ih hrest
    have hone : ph.owing + (if event = .consumed then 1 else 0) =
        (if ph ≠ .idle ∧ next = .idle then 1 else 0) + next.owing := by
      cases ph with
      | idle =>
        cases event <;> cases hnext <;> rfl
      | owed =>
        cases event with
        | fetch addr lo =>
          rw [pulsePhase] at hnext
          split_ifs at hnext
          cases hnext
          rfl
        | _ => cases hnext
      | fetched lo =>
        cases event with
        | load addr hi pc =>
          rw [pulsePhase] at hnext
          split_ifs at hnext
          cases hnext
          rfl
        | _ => cases hnext
    rw [pulseDeliveries, hnext, List.count_cons]
    dsimp only
    simp only [beq_iff_eq]
    omega

/-! ## What is left of a sequence -/

/-- The machine, and whether the sequence in progress consumed a pulse. -/
abbrev PulseRun := Bool × Cpu6502

def pulseStep (s : PulseRun) (op : CpuOp) : PulseRun :=
  (pulseTaken s.2 op || s.1 && (cpuOp s.2 op).ms.active, cpuOp s.2 op)

/-- P is not pushed with an NMI pending in a sequence that consumed a pulse. -/
def PulseSafe (s : PulseRun) (op : CpuOp) : Prop :=
  op.isLine ∧
    (op.isCycle = true → s.1 = true → s.2.ms.rest.head? = some .pushP → s.2.nmiPending = false)

instance : DecidablePred CpuOp.isLine
  | .reset | .setMicroseq => isFalse id
  | .cycle | .nmi | .irqSet _ | .irqClear _ | .irqPulse | .setMemory _ => isTrue trivial

instance (s : PulseRun) (op : CpuOp) : Decidable (PulseSafe s op) :=
  inferInstanceAs (Decidable (_ ∧ (_ → _ → _ → _)))

/-- The state fits what the monitor waits for. -/
def PulseInv (ph : PulsePhase) (s : PulseRun) : Prop :=
  match ph with
  | .idle => s.1 = false
  | .owed => s.1 = true ∧ s.2.halted = false ∧ s.2.ms.active = true ∧ s.2.ms.opcode = 0#8 ∧
      s.2.ms.vector = 0xFFFE#16 ∧ ∃ k ≤ 4, s.2.ms.rest = msInterruptPlan.drop k
  | .fetched lo => s.1 = true ∧ s.2.halted = false ∧ s.2.ms.active = true ∧
      s.2.ms.opcode = 0#8 ∧ s.2.ms.vector = 0xFFFE#16 ∧ s.2.ms.rest = [.vecHi] ∧
      s.2.ms.adl = lo

/-! ## Cycles -/

/-- A micro-operation leaves the pulses alone. -/
theorem msMicroOp_irqPulse (mop : MicroOp) (cpu : Cpu6502) :
    (msMicroOp mop cpu).2.irqPulse = cpu.irqPulse := by
  have hhijack : ∀ c : Cpu6502, (msNmiHijack c).irqPulse = c.irqPulse := by
    intro c
    unfold msNmiHijack
    split_ifs <;> rfl
  cases mop with
  | pushP => exact hhijack _
  | pushPBrk =>
    dsimp only [msMicroOp]
    split
    · exact hhijack _
    · rfl
  | fetchLo => dsimp only [msMicroOp]; split <;> rfl
  | ptrHi => dsimp only [msMicroOp]; split <;> rfl
  | readFixup => dsimp only [msMicroOp]; split <;> rfl
  | readData => dsimp only [msMicroOp]; split <;> rfl
  | writeData => dsimp only [msMicroOp]; split <;> rfl
  | vecHi =>
    dsimp only [msMicroOp]
    split
    · obtain ⟨n, heq⟩ := cpuIrqTraceEntry_frame (msVecHi cpu)
      rw [heq]
      rfl
    · rfl
  | _ => rfl

theorem msEndCycle_irqPulse (cpu : Cpu6502) : (msEndCycle cpu).2.irqPulse = cpu.irqPulse := by
  unfold msEndCycle msSampleInterrupts
  dsimp only
  split_ifs <;> rfl

theorem msRunCycle_irqPulse (rest : List MicroOp) (cpu : Cpu6502) :
    (msRunCycle rest cpu).2.irqPulse = cpu.irqPulse := by
  induction rest generalizing cpu with
  | nil => exact msEndCycle_irqPulse cpu
  | cons mop rest ih =>
    have hmop := msMicroOp_irqPulse mop cpu
    unfold msRunCycle
    generalize msMicroOp mop cpu = r at hmop
    obtain ⟨flow, c⟩ := r
    cases flow with
    | next => exact (msEndCycle_irqPulse c).trans hmop
    | done => exact hmop
    | chain => exact (ih _).trans hmop

/-- Only the first cycle of a sequence consumes a pulse. -/
theorem pulseTaken_active {cpu : Cpu6502} (hrun : cpu.halted = false)
    (hactive : cpu.ms.active = true) : pulseTaken cpu .cycle = false := by
  have hcycle : cpuCycle cpu = msRunCycle cpu.ms.rest cpu := by
    simp [cpuCycle, hrun, hactive, MsState.rest]
  have hpulse : (cpuOp cpu .cycle).irqPulse = cpu.irqPulse := by
    change (cpuCycle cpu).2.irqPulse = _
    rw [hcycle]
    exact msRunCycle_irqPulse _ cpu
  rw [pulseTaken, hpulse, bne_self_eq_false, Bool.and_false]

theorem pulseLog_active {cpu : Cpu6502} (hrun : cpu.halted = false)
    (hactive : cpu.ms.active = true) :
    pulseLog cpu .cycle = pulseVectorLog cpu (cpuCycle cpu).2 := by
  have htaken := pulseTaken_active hrun hactive
  simp [pulseLog, CpuOp.isCycle, hrun, hactive, htaken, cpuOp]

/-- A cycle of a vectored sequence that runs to its end goes on running. -/
theorem cpuCycle_halted {cpu c : Cpu6502} {mop : MicroOp} {rest : List MicroOp}
    (hrun : cpu.halted = false) (hactive : cpu.ms.active = true)
    (hrest : cpu.ms.rest = mop :: rest) (hmop : msMicroOp mop cpu = (.next, c))
    (hc : c.halted = cpu.halted) : (cpuCycle cpu).2.halted = false := by
  have hcycle : cpuCycle cpu = msEndCycle c := by
    have hplan : cpu.ms.plan.drop cpu.ms.pc = mop :: rest := hrest
    simp [cpuCycle, hrun, hactive, hplan, msRunCycle, hmop]
  rw [hcycle, (msEndCycle_frame c).2.2, hc, hrun]

theorem pulseVectorLog_quiet {cpu cpu' : Cpu6502} {mop : MicroOp} {rest : List MicroOp}
    (hrest : cpu.ms.rest = mop :: rest) (hlo : mop ≠ .vecLo) (hhi : mop ≠ .vecHi) :
    pulseVectorLog cpu cpu' = [] := by
  unfold pulseVectorLog
  rw [hrest, List.head?_cons]
  split
  · rename_i heq _
    exact absurd (Option.some.inj heq) hlo
  · rename_i heq _
    exact absurd (Option.some.inj heq) hhi
  · rfl

/-! ## The monitor keeps in step -/

/-- What an operation leads to. -/
def PulseFollows (ph : PulsePhase) (s : PulseRun) (op : CpuOp) : Prop :=
  ∃ ph', (pulseLog s.2 op).foldlM pulsePhase ph = some ph' ∧ PulseInv ph' (pulseStep s op)

/-- A cycle of a sequence that consumed a pulse: its vector is closer by one. -/
theorem pulseOwed_cycle {cpu : Cpu6502} (h : PulseInv .owed (true, cpu))
    (hsafe : cpu.ms.rest.head? = some .pushP → cpu.nmiPending = false) :
    ∃ ph', ph' ≠ .idle ∧ (pulseLog cpu .cycle).foldlM pulsePhase .owed = some ph' ∧
      PulseInv ph' (pulseStep (true, cpu) .cycle) ∧
      (cpuCycle cpu).2.ms.rest.length + 1 = cpu.ms.rest.length := by
  obtain ⟨-, hrun, hactive, hop, hvector, k, hk, hrest⟩ := h
  dsimp only at hrun hactive hop hvector hrest
  have hstep : (cpuCycle cpu).2.ms.active = true →
      pulseStep (true, cpu) .cycle = (true, (cpuCycle cpu).2) := by
    intro hactive'
    simp [pulseStep, cpuOp, hactive']
  have hlog := pulseLog_active hrun hactive
  -- the cycles before the push of P
  have hquiet : ∀ {mop}, cpu.ms.rest = mop :: msInterruptPlan.drop (k + 1) → k ≤ 2 →
      (mop = .dummyPc ∨ mop = .pushPch ∨ mop = .pushPcl) →
      ∃ ph', ph' ≠ .idle ∧ (pulseLog cpu .cycle).foldlM pulsePhase .owed = some ph' ∧
        PulseInv ph' (pulseStep (true, cpu) .cycle) ∧
        (cpuCycle cpu).2.ms.rest.length + 1 = cpu.ms.rest.length := by
    intro mop hrest hk hmop
    obtain ⟨-, hsame, hrest', hactive'⟩ := msVectored_quiet (by tauto) hrun hactive hrest
    have hne : msInterruptPlan.drop (k + 1) ≠ [] := by
      rw [ne_eq, List.drop_eq_nil_iff]
      exact not_le.mpr (Nat.lt_of_le_of_lt (Nat.succ_le_succ hk) (by decide))
    have hhalt : (cpuCycle cpu).2.halted = false := by
      rcases hmop with rfl | rfl | rfl <;> exact cpuCycle_halted hrun hactive hrest rfl rfl
    have hvec : pulseVectorLog cpu (cpuCycle cpu).2 = [] := by
      refine pulseVectorLog_quiet hrest ?_ ?_ <;> rcases hmop with rfl | rfl | rfl <;> decide
    rw [hlog, hvec, hstep (hactive'.mpr hne)]
    refine ⟨.owed, by rintro ⟨⟩, rfl, ⟨rfl, hhalt, hactive'.mpr hne, hsame.opcode.trans hop,
      hsame.vector.trans hvector, k + 1, by omega, hrest'⟩, ?_⟩
    rw [hrest', hrest]
    rfl
  obtain rfl | rfl | rfl | rfl | rfl : k = 0 ∨ k = 1 ∨ k = 2 ∨ k = 3 ∨ k = 4 := by omega
  · exact hquiet hrest (by decide) (.inl rfl)
  · exact hquiet hrest (by decide) (.inr (.inl rfl))
  · exact hquiet hrest (by decide) (.inr (.inr rfl))
  · -- no NMI is pending at the push of P
    have hpending : cpu.nmiPending = false := hsafe (by rw [hrest]; rfl)
    obtain ⟨hrest', hactive', hop', ⟨htaken, -⟩ | ⟨-, hvector'⟩⟩ :=
      msVectored_push (.inl rfl : MicroOp.pushP = .pushP ∨ _) hrun hactive hop hrest
    · rw [hpending] at htaken
      cases htaken
    · have hhalt : (cpuCycle cpu).2.halted = false :=
        cpuCycle_halted hrun hactive hrest rfl (msNmiHijack_same _).2.2.2
      have hvec : pulseVectorLog cpu (cpuCycle cpu).2 = [] :=
        pulseVectorLog_quiet hrest (show MicroOp.pushP ≠ .vecLo by decide) (by decide)
      have hgoes := hactive'.mpr (by decide)
      rw [hlog, hvec, hstep hgoes]
      refine ⟨.owed, by rintro ⟨⟩, rfl, ⟨rfl, hhalt, hgoes, hop', hvector'.trans hvector, 4, le_rfl,
        hrest'⟩, ?_⟩
      rw [hrest', hrest]
      rfl
  · obtain ⟨hrest', hactive', hsame, hadl, -⟩ := msVectored_lo hrun hactive hrest
    have hhalt : (cpuCycle cpu).2.halted = false := cpuCycle_halted hrun hactive hrest rfl rfl
    have hevents := (cpuCycle_stepped hrun hactive
      (show cpu.ms.rest = .vecLo :: [.vecHi] from hrest) rfl ⟨rfl, rfl, rfl⟩).events
    have hread : busRead cpu (cpuCycle cpu).2 = some (cpu.ms.vector, cpu.memory cpu.ms.vector) :=
      busRead_eq (hevents.trans (List.append_assoc _ [_] [_]))
    have hvec : pulseVectorLog cpu (cpuCycle cpu).2 =
        [.fetch 0xFFFE#16 (cpu.memory cpu.ms.vector)] := by
      unfold pulseVectorLog
      rw [hrest, hread, hvector]
      rfl
    rw [hlog, hvec, hstep hactive']
    refine ⟨.fetched (cpu.memory cpu.ms.vector), by rintro ⟨⟩, rfl, ⟨rfl, hhalt, hactive',
      hsame.opcode.trans hop, hsame.vector.trans hvector, hrest', hadl⟩, ?_⟩
    rw [hrest', hrest]
    rfl

/-- PC is loaded. -/
theorem pulseFetched_cycle {cpu : Cpu6502} {lo : Byte} (h : PulseInv (.fetched lo) (true, cpu)) :
    (∃ hi pc, pulseLog cpu .cycle = [.load 0xFFFF#16 hi pc] ∧ pc = Word.mk hi lo) ∧
      PulseInv .idle (pulseStep (true, cpu) .cycle) := by
  obtain ⟨-, hrun, hactive, hop, hvector, hrest, hadl⟩ := h
  dsimp only at hrun hactive hop hvector hrest hadl
  have heq : msMicroOp .vecHi cpu = (.next, msVecHi cpu) := by
    dsimp only [msMicroOp]
    rw [if_neg (by simp [hop])]
  have hstep := cpuCycle_stepped hrun hactive hrest heq ⟨rfl, rfl, rfl⟩
  have hread : busRead cpu (cpuCycle cpu).2 =
      some (cpu.ms.vector + 1#16, cpu.memory (cpu.ms.vector + 1#16)) :=
    busRead_eq (hstep.events.trans (List.append_assoc _ [_] [_]))
  have hpc : (cpuCycle cpu).2.pc = Word.mk (cpu.memory (cpu.ms.vector + 1#16)) cpu.ms.adl :=
    hstep.pc
  have hinactive : (cpuCycle cpu).2.ms.active = false := by
    have hactive' := hstep.active
    simpa using hactive'
  constructor
  · refine ⟨cpu.memory (cpu.ms.vector + 1#16), (cpuCycle cpu).2.pc, ?_, by rw [hpc, hadl]⟩
    rw [pulseLog_active hrun hactive]
    unfold pulseVectorLog
    rw [hrest, hread, hvector]
    rfl
  · change (pulseTaken cpu .cycle || true && (cpuCycle cpu).2.ms.active) = false
    rw [hinactive, pulseTaken_active hrun hactive]
    rfl

/-- Any cycle of another sequence, or the first of one. -/
theorem pulseIdle_cycle {cpu : Cpu6502} : PulseFollows .idle (false, cpu) .cycle := by
  have hplan : msInterruptPlan.foldl planAdd [] = msInterruptPlan := by decide
  by_cases hrun : cpu.halted = true
  · have hstay : cpuOp cpu .cycle = cpu := by simp [cpuOp, cpuCycle, hrun]
    refine ⟨.idle, by simp [pulseLog, hrun], ?_⟩
    change (pulseTaken cpu .cycle || false && _) = false
    simp [pulseTaken, hstay]
  have hrun' : cpu.halted = false := by simpa using hrun
  by_cases hactive : cpu.ms.active = true
  · refine ⟨.idle, ?_, ?_⟩
    · rw [pulseLog_active hrun' hactive]
      unfold pulseVectorLog
      split <;> rfl
    · change (pulseTaken cpu .cycle || false && _) = false
      rw [pulseTaken_active hrun' hactive]
      rfl
  have hinactive : cpu.ms.active = false := by simpa using hactive
  have hlog : pulseLog cpu .cycle = if pulseTaken cpu .cycle then [.consumed] else [.start] := by
    simp [pulseLog, CpuOp.isCycle, hrun', hinactive]
  have hcycle : cpuCycle cpu =
      if cpu.ms.nmiSampled && cpu.nmiPending then
        msStartInterrupt 0xFFFA#16
          { cpu with nmiPending := false, ms := { cpu.ms with nmiSampled := false } }
      else if cpu.ms.irqSampled then
        msStartInterrupt 0xFFFE#16
          { cpu with
            irqPulse := if cpu.irqPulse != 0#8 then cpu.irqPulse - 1#8 else cpu.irqPulse
            ms := { cpu.ms with irqSampled := false } }
      else msStartInstruction cpu := by
    simp [cpuCycle, hrun', hinactive]
  cases htaken : pulseTaken cpu .cycle with
  | false =>
    refine ⟨.idle, by rw [hlog, htaken]; rfl, ?_⟩
    change (pulseTaken cpu .cycle || false && _) = false
    rw [htaken]
    rfl
  | true =>
    have hpulse : ((cpuCycle cpu).2.irqPulse != cpu.irqPulse) = true := htaken
    -- a pulse is consumed by an IRQ sequence only
    have hirq : cpuCycle cpu = msStartInterrupt 0xFFFE#16
        { cpu with
          irqPulse := if cpu.irqPulse != 0#8 then cpu.irqPulse - 1#8 else cpu.irqPulse
          ms := { cpu.ms with irqSampled := false } } := by
      by_cases hnmi : (cpu.ms.nmiSampled && cpu.nmiPending) = true
      · rw [hcycle, if_pos hnmi] at hpulse
        exact absurd rfl (bne_iff_ne.mp hpulse)
      · rw [if_neg hnmi] at hcycle
        by_cases hsampled : cpu.ms.irqSampled = true
        · rw [hcycle, if_pos hsampled]
        · rw [hcycle, if_neg hsampled] at hpulse
          exact absurd rfl (bne_iff_ne.mp hpulse)
    refine ⟨.owed, by rw [hlog, htaken]; rfl, ?_⟩
    have hstep : pulseStep (false, cpu) .cycle = (true, (cpuCycle cpu).2) := by
      change (pulseTaken cpu .cycle || _, (cpuCycle cpu).2) = _
      rw [htaken, Bool.true_or]
    rw [hstep, hirq]
    exact ⟨rfl, hrun', rfl, rfl, rfl, 0, Nat.zero_le _, hplan⟩

/-- The other operations consume no pulse, and leave the sequence alone. -/
theorem pulseStep_other (s : PulseRun) {op : CpuOp} (hop : op.isLine) (hcycle : op ≠ .cycle) :
    pulseLog s.2 op = [] ∧ pulseStep s op = (s.1 && s.2.ms.active, cpuOp s.2 op) ∧
      (cpuOp s.2 op).halted = s.2.halted := by
  cases op with
  | cycle => exact absurd rfl hcycle
  | reset => exact hop.elim
  | setMicroseq => exact hop.elim
  | _ => exact ⟨rfl, rfl, rfl⟩

/-- They keep what the monitor waits for. -/
theorem pulseInv_other {ph : PulsePhase} {s : PulseRun} (h : PulseInv ph s) {op : CpuOp}
    (hop : op.isLine) (hcycle : op ≠ .cycle) : PulseInv ph (pulseStep s op) := by
  obtain ⟨-, hstep, hhalt⟩ := pulseStep_other s hop hcycle
  have hms := cpuOp_ms s.2 hop hcycle
  rw [hstep]
  cases ph with
  | idle =>
    have hidle : s.1 = false := h
    change (s.1 && s.2.ms.active) = false
    rw [hidle, Bool.false_and]
  | owed =>
    obtain ⟨hpulsed, hrun, hactive, hrest⟩ := h
    refine ⟨?_, hhalt.trans hrun, ?_⟩
    · rw [hpulsed, hactive]
      rfl
    · dsimp only
      rw [hms]
      exact ⟨hactive, hrest⟩
  | fetched lo =>
    obtain ⟨hpulsed, hrun, hactive, hrest⟩ := h
    refine ⟨?_, hhalt.trans hrun, ?_⟩
    · rw [hpulsed, hactive]
      rfl
    · dsimp only
      rw [hms]
      exact ⟨hactive, hrest⟩

/-- The step lemma. -/
theorem pulseFollows_op {ph : PulsePhase} {s : PulseRun} (h : PulseInv ph s) {op : CpuOp}
    (hsafe : PulseSafe s op) : PulseFollows ph s op := by
  obtain ⟨hop, hpending⟩ := hsafe
  by_cases hcycle : op = .cycle
  · subst hcycle
    obtain ⟨pulsed, cpu⟩ := s
    cases ph with
    | idle =>
      obtain rfl : pulsed = false := h
      exact pulseIdle_cycle
    | owed =>
      obtain rfl : pulsed = true := h.1
      obtain ⟨ph', -, hlog, hinv, -⟩ := pulseOwed_cycle h (hpending rfl rfl)
      exact ⟨ph', hlog, hinv⟩
    | fetched lo =>
      obtain rfl : pulsed = true := h.1
      obtain ⟨⟨hi, pc, hlog, hpc⟩, hinv⟩ := pulseFetched_cycle h
      refine ⟨.idle, ?_, hinv⟩
      change (pulseLog cpu .cycle).foldlM _ _ = _
      rw [hlog, hpc]
      simp [pulsePhase]
  · refine ⟨ph, ?_, pulseInv_other h hop hcycle⟩
    rw [(pulseStep_other s hop hcycle).1]
    rfl

/-! ## Runs -/

theorem pulseRun_cpu (ops : List CpuOp) (s : PulseRun) :
    (ops.foldl pulseStep s).2 = cpuRun s.2 ops := by
  induction ops generalizing s with
  | nil => rfl
  | cons op ops ih => exact ih (pulseStep s op)

/-- The run lemma. -/
theorem pulseFollows_run (ops : List CpuOp) {ph : PulsePhase} {s : PulseRun}
    (h : PulseInv ph s) (hsafe : Machine.Throughout pulseStep PulseSafe ops s) :
    ∃ ph', (pulseTrace ops s.2).foldlM pulsePhase ph = some ph' ∧
      PulseInv ph' (ops.foldl pulseStep s) := by
  induction ops generalizing ph s with
  | nil => exact ⟨ph, rfl, h⟩
  | cons op ops ih =>
    obtain ⟨next, hlog, hnext⟩ := pulseFollows_op h hsafe.1
    obtain ⟨ph', htrace, hinv⟩ := ih hnext hsafe.2
    refine ⟨ph', ?_, hinv⟩
    rw [pulseTrace, Machine.trace, List.foldlM_append, hlog]
    exact htrace

/-- The cycles left until PC is loaded. -/
theorem pulse_loads {ph : PulsePhase} {s : PulseRun} (h : PulseInv ph s) (hph : ph ≠ .idle)
    (more : List CpuOp) (hsafe : Machine.Throughout pulseStep PulseSafe more s)
    (hlen : s.2.ms.rest.length ≤ cpuCycles more) :
    ∃ hi pc, .load 0xFFFF#16 hi pc ∈ pulseTrace more s.2 := by
  induction more generalizing ph s with
  | nil =>
    have hrest : s.2.ms.rest = [] := by simpa [cpuCycles] using hlen
    cases ph with
    | idle => exact absurd rfl hph
    | owed =>
      obtain ⟨-, -, -, -, -, k, hk, heq⟩ := h
      have hdrop := List.drop_eq_nil_iff.mp (heq.symm.trans hrest)
      exact absurd (hdrop.trans hk) (by decide)
    | fetched lo =>
      obtain ⟨-, -, -, -, -, heq, -⟩ := h
      exact absurd (heq.symm.trans hrest) (by simp)
  | cons op more ih =>
    obtain ⟨⟨hop, hpending⟩, hsafe'⟩ := hsafe
    by_cases hcycle : op = .cycle
    · subst hcycle
      have hcount : cpuCycles (.cycle :: more) = cpuCycles more + 1 := List.countP_cons_of_pos rfl
      obtain ⟨pulsed, cpu⟩ := s
      cases ph with
      | idle => exact absurd rfl hph
      | owed =>
        obtain rfl : pulsed = true := h.1
        obtain ⟨ph', hph', -, hinv, hless⟩ := pulseOwed_cycle h (hpending rfl rfl)
        dsimp only at hlen
        obtain ⟨hi, pc, hmem⟩ := ih hinv hph' hsafe' (by
          change (cpuCycle cpu).2.ms.rest.length ≤ _
          omega)
        exact ⟨hi, pc, List.mem_append_right _ hmem⟩
      | fetched lo =>
        obtain rfl : pulsed = true := h.1
        obtain ⟨⟨hi, pc, hlog, -⟩, -⟩ := pulseFetched_cycle h
        exact ⟨hi, pc, List.mem_append_left _ (hlog ▸ List.mem_singleton_self _)⟩
    · have hms := cpuOp_ms s.2 hop hcycle
      have hcount : cpuCycles (op :: more) = cpuCycles more := by
        cases op <;> first | rfl | exact absurd rfl hcycle
      obtain ⟨hi, pc, hmem⟩ := ih (pulseInv_other h hop hcycle) hph hsafe' (by
        change (cpuOp s.2 op).ms.rest.length ≤ _
        rw [hms, ← hcount]
        exact hlen)
      exact ⟨hi, pc, List.mem_append_right _ hmem⟩

/-- In a run, at any point `ops` of it and over what `more` follows: each pulse consumed is
delivered. -/
theorem pulse_delivered {cpu : Cpu6502} (ops more : List CpuOp)
    (hsafe : Machine.Throughout pulseStep PulseSafe ops (false, cpu))
    (hmore : Machine.Throughout pulseStep PulseSafe more (ops.foldl pulseStep (false, cpu))) :
    ∃ ph, (pulseTrace ops cpu).foldlM pulsePhase .idle = some ph ∧
      ((cpuRun cpu ops).ms.active = false → ph = .idle) ∧
      (pulseTrace ops cpu).count .consumed =
        pulseDeliveries .idle (pulseTrace ops cpu) + ph.owing ∧
      (ph ≠ .idle → 6 ≤ cpuCycles more →
        ∃ hi pc, .load 0xFFFF#16 hi pc ∈ pulseTrace more (cpuRun cpu ops)) := by
  have hidle : PulseInv .idle (false, cpu) := rfl
  obtain ⟨ph, htrace, hinv⟩ := pulseFollows_run ops hidle hsafe
  have hcpu : (ops.foldl pulseStep (false, cpu)).2 = cpuRun cpu ops := pulseRun_cpu ops (false, cpu)
  have hbalance := pulseDeliveries_eq _ htrace
  refine ⟨ph, htrace, fun hinactive => ?_, (Nat.zero_add _).symm.trans hbalance, fun hph hcycles => ?_⟩
  · rw [← hcpu] at hinactive
    cases ph with
    | idle => rfl
    | owed => exact absurd (hinactive.symm.trans hinv.2.2.1) (by decide)
    | fetched lo => exact absurd (hinactive.symm.trans hinv.2.2.1) (by decide)
  · have hlen : (ops.foldl pulseStep (false, cpu)).2.ms.rest.length ≤ 6 := by
      cases ph with
      | idle => exact absurd rfl hph
      | owed =>
        obtain ⟨-, -, -, -, -, k, -, hrest⟩ := hinv
        rw [hrest, List.length_drop]
        exact Nat.sub_le _ _
      | fetched lo =>
        obtain ⟨-, -, -, -, -, hrest, -⟩ := hinv
        rw [hrest]
        decide
    rw [← hcpu]
    exact pulse_loads hinv hph more hmore (hlen.trans hcycles)

/-- A CPU over a memory of NOPs, with IRQs let through. -/
def pulseCpu : Cpu6502 := { cpuInit fun _ => 0xEA#8 with p := flagUnused }

/-- A pulse in front of a NOP. -/
theorem pulse_delivered_nop :
    ∃ ph, (pulseTrace [.irqPulse, .cycle, .cycle, .cycle] pulseCpu).foldlM pulsePhase .idle =
        some ph ∧
      ((cpuRun pulseCpu [.irqPulse, .cycle, .cycle, .cycle]).ms.active = false → ph = .idle) ∧
      (pulseTrace [.irqPulse, .cycle, .cycle, .cycle] pulseCpu).count .consumed =
        pulseDeliveries .idle (pulseTrace [.irqPulse, .cycle, .cycle, .cycle] pulseCpu) +
          ph.owing ∧
      (ph ≠ .idle → 6 ≤ cpuCycles (List.replicate 6 .cycle) →
        ∃ hi pc, .load 0xFFFF#16 hi pc ∈ pulseTrace (List.replicate 6 .cycle)
          (cpuRun pulseCpu [.irqPulse, .cycle, .cycle, .cycle])) :=
  pulse_delivered _ _ (by decide) (by decide)

/-- An NMI in the sequence of a pulse: the pulse is consumed, and the vector is the NMI's. -/
theorem pulse_lost :
    pulseTrace ([.irqPulse, .cycle, .cycle, .cycle, .nmi] ++ List.replicate 6 .cycle) pulseCpu =
        [.start, .consumed, .fetch 0xFFFA#16 0xEA#8, .load 0xFFFB#16 0xEA#8 0xEAEA#16] ∧
      (pulseTrace ([.irqPulse, .cycle, .cycle, .cycle, .nmi] ++ List.replicate 6 .cycle)
        pulseCpu).foldlM pulsePhase .idle = none ∧
      (cpuRun pulseCpu ([.irqPulse, .cycle, .cycle, .cycle, .nmi] ++
        List.replicate 6 .cycle)).irqPulse = 0#8 := by
  decide

end Phosphoric
