import Phosphoric.Cpu.Bus

/-!
# Every NMI is served once

**Theorem (`nmi_served_once`).** In a run of the micro-sequenced CPU from an instruction boundary,
with any changes of its lines and of the memory between the cycles:

* each NMI taken is followed by one fetch of the vector at $FFFA and one load of PC from it before
  anything else starts, within six cycles, and the vector is fetched at no other time;
* an NMI pending is taken at the latest when the instruction after the one in progress ends.

An NMI is *taken* when `nmi_pending` falls: at an instruction boundary, or when it takes over the
BRK or IRQ sequence in progress. The first part is a monitor of the events (`nmiPhase`) whose phase
tells what is left of the sequence (`NmiInv`).
-/

namespace Phosphoric

/-! ## Events -/

/-- What a run tells of the NMI. -/
inductive NmiEvent
  /-- An instruction or an IRQ sequence starts. -/
  | start
  /-- `nmi_pending` falls. -/
  | taken
  /-- The vector's low byte is read at $FFFA. -/
  | fetch (lo : Byte)
  /-- The vector's high byte is read at $FFFB, and PC becomes `pc`. -/
  | load (hi : Byte) (pc : Word)
  deriving DecidableEq

/-- The bus read that leads from one state to the other. -/
def busRead (cpu cpu' : Cpu6502) : Option (Word × Byte) :=
  match cpu'.events.drop cpu.events.length with
  | .read addr value :: _ => some (addr, value)
  | _ => none

/-- The events of a cycle other than a fall of `nmi_pending`. -/
def nmiCycleLog (cpu cpu' : Cpu6502) : List NmiEvent :=
  match cpu.ms.rest.head?, busRead cpu cpu' with
  | some .vecLo, some (addr, value) => if addr = 0xFFFA#16 then [.fetch value] else []
  | some .vecHi, some (addr, value) => if addr = 0xFFFB#16 then [.load value cpu'.pc] else []
  | _, _ => []

def nmiFalls (cpu cpu' : Cpu6502) : Bool := cpu.nmiPending && !cpu'.nmiPending

/-- The events of an operation. -/
def nmiLog (cpu : Cpu6502) (op : CpuOp) : List NmiEvent :=
  let cpu' := cpuOp cpu op
  match op with
  | .cycle =>
    if cpu.halted then []
    else
      (if nmiFalls cpu cpu' then [.taken] else if cpu.ms.active then [] else [.start]) ++
        (if cpu.ms.active then nmiCycleLog cpu cpu' else [])
  | _ => if nmiFalls cpu cpu' then [.taken] else []

abbrev nmiTrace : List CpuOp → Cpu6502 → List NmiEvent := Machine.trace cpuOp nmiLog

/-- What the monitor waits for: nothing, the vector of an NMI taken, its high byte. -/
inductive NmiPhase
  | idle
  | owed
  | fetched (lo : Byte)
  deriving DecidableEq

/-- Each NMI taken is served before anything else starts, and no other is. -/
def nmiPhase : NmiPhase → NmiEvent → Option NmiPhase
  | .idle, .start => some .idle
  | .idle, .taken => some .owed
  | .owed, .fetch lo => some (.fetched lo)
  | .fetched lo, .load hi pc => if pc = Word.mk hi lo then some .idle else none
  | _, _ => none

/-! ## What is left of a sequence -/

/-- The end of an interrupt sequence or of a BRK, vector included. -/
inductive MsVectored : List MicroOp → Prop
  | hi : MsVectored [.vecHi]
  | lo : MsVectored [.vecLo, .vecHi]
  | pushP : MsVectored [.pushP, .vecLo, .vecHi]
  | pushPBrk : MsVectored [.pushPBrk, .vecLo, .vecHi]
  | pushPcl {rest : List MicroOp} :
    MsVectored rest → rest ≠ [.vecHi] → MsVectored (.pushPcl :: rest)
  | pushPch {rest : List MicroOp} :
    MsVectored rest → rest ≠ [.vecHi] → MsVectored (.pushPch :: rest)
  | dummyPc {rest : List MicroOp} :
    MsVectored rest → rest ≠ [.vecHi] → MsVectored (.dummyPc :: rest)
  | brkSign {rest : List MicroOp} :
    MsVectored rest → rest ≠ [.vecHi] → MsVectored (.brkSign :: rest)

/-- The micro-operations of the other instructions. -/
def MicroOp.plain : MicroOp → Bool
  | .vecLo | .vecHi | .pushP => false
  | _ => true

/-- The state fits what the monitor waits for. -/
def NmiInv (ph : NmiPhase) (cpu : Cpu6502) : Prop :=
  match ph with
  | .idle => cpu.ms.active = true →
      (cpu.ms.rest.all MicroOp.plain = true ∧ cpu.ms.opcode ≠ 0#8) ∨
        (MsVectored cpu.ms.rest ∧ cpu.ms.opcode = 0#8 ∧ cpu.ms.vector ≠ 0xFFFA#16)
  | .owed => cpu.ms.active = true ∧ MsVectored cpu.ms.rest ∧ cpu.ms.rest ≠ [.vecHi] ∧
      cpu.ms.rest.length ≤ 6 ∧ cpu.ms.opcode = 0#8 ∧ cpu.ms.vector = 0xFFFA#16
  | .fetched lo => cpu.ms.active = true ∧ cpu.ms.rest = [.vecHi] ∧ cpu.ms.opcode = 0#8 ∧
      cpu.ms.vector = 0xFFFA#16 ∧ cpu.ms.adl = lo

/-! ## Cycles -/

/-- The NMI and its vector are left alone. -/
structure NmiSame (cpu cpu' : Cpu6502) : Prop where
  nmiPending : cpu'.nmiPending = cpu.nmiPending
  opcode : cpu'.ms.opcode = cpu.ms.opcode
  vector : cpu'.ms.vector = cpu.ms.vector

/-- Only the pushes of P look at the NMI. -/
theorem msMicroOp_nmiSame (mop : MicroOp) (cpu : Cpu6502) (hp : mop ≠ .pushP)
    (hbrk : mop = .pushPBrk → cpu.ms.opcode ≠ 0#8) : NmiSame cpu (msMicroOp mop cpu).2 := by
  cases mop with
  | pushP => exact absurd rfl hp
  | pushPBrk =>
    have hop := hbrk rfl
    dsimp only [msMicroOp]
    rw [if_neg (by simpa using hop)]
    exact ⟨rfl, rfl, rfl⟩
  | fetchLo => dsimp only [msMicroOp]; split <;> exact ⟨rfl, rfl, rfl⟩
  | ptrHi => dsimp only [msMicroOp]; split <;> exact ⟨rfl, rfl, rfl⟩
  | readFixup => dsimp only [msMicroOp]; split <;> exact ⟨rfl, rfl, rfl⟩
  | readData => dsimp only [msMicroOp]; split <;> exact ⟨rfl, rfl, rfl⟩
  | writeData => dsimp only [msMicroOp]; split <;> exact ⟨rfl, rfl, rfl⟩
  | vecHi =>
    dsimp only [msMicroOp]
    split
    · obtain ⟨n, heq⟩ := cpuIrqTraceEntry_frame (msVecHi cpu)
      rw [heq]
      exact ⟨rfl, rfl, rfl⟩
    · exact ⟨rfl, rfl, rfl⟩
  | _ => exact ⟨rfl, rfl, rfl⟩

/-- The end of a cycle samples the lines and moves on in the plan. -/
theorem msEndCycle_nmi (cpu : Cpu6502) : NmiSame cpu (msEndCycle cpu).2 ∧
    (msEndCycle cpu).2.ms.adl = cpu.ms.adl ∧ (msEndCycle cpu).2.pc = cpu.pc ∧
    (msEndCycle cpu).2.ms.rest = cpu.ms.plan.drop (cpu.ms.pc + 1) := by
  unfold msEndCycle msSampleInterrupts
  dsimp only
  split_ifs <;> exact ⟨⟨rfl, rfl, rfl⟩, rfl, rfl, rfl⟩

/-- The sequence goes on as long as micro-operations are left. -/
theorem msEndCycle_active {cpu : Cpu6502} (hactive : cpu.ms.active = true) :
    (msEndCycle cpu).2.ms.active = true ↔ cpu.ms.plan.drop (cpu.ms.pc + 1) ≠ [] := by
  unfold msEndCycle msSampleInterrupts
  dsimp only
  by_cases hlast : cpu.ms.plan.length ≤ cpu.ms.pc + 1
  · simp [hlast]
  · simp [hlast, hactive]

/-- What a cycle of a sequence that ends by a vector does, once its micro-operation is done. -/
structure MsStepped (cpu : Cpu6502) (rest : List MicroOp) (c : Cpu6502) : Prop
    extends NmiSame c (cpuCycle cpu).2 where
  rest_eq : (cpuCycle cpu).2.ms.rest = rest
  active : (cpuCycle cpu).2.ms.active = true ↔ rest ≠ []
  adl : (cpuCycle cpu).2.ms.adl = c.ms.adl
  pc : (cpuCycle cpu).2.pc = c.pc
  events : (cpuCycle cpu).2.events = c.events

theorem cpuCycle_stepped {cpu c : Cpu6502} {mop : MicroOp} {rest : List MicroOp}
    (hrun : cpu.halted = false) (hactive : cpu.ms.active = true)
    (hrest : cpu.ms.rest = mop :: rest) (hmop : msMicroOp mop cpu = (.next, c))
    (hsame : MsSame cpu c) : MsStepped cpu rest c := by
  have hcycle : cpuCycle cpu = msEndCycle c := by
    have hplan : cpu.ms.plan.drop cpu.ms.pc = mop :: rest := hrest
    simp [cpuCycle, hrun, hactive, hplan, msRunCycle, hmop]
  have htail : c.ms.plan.drop (c.ms.pc + 1) = rest := by
    rw [hsame.plan, hsame.pc, ← List.drop_drop,
      show cpu.ms.plan.drop cpu.ms.pc = mop :: rest from hrest]
    rfl
  obtain ⟨hnmi, hadl, hpc, hrest'⟩ := msEndCycle_nmi c
  have hevents := (msEndCycle_frame c).2.1
  rw [← hcycle] at hnmi hadl hpc hrest' hevents
  refine { hnmi with
    rest_eq := hrest'.trans htail, active := ?_, adl := hadl, pc := hpc, events := hevents }
  rw [hcycle, msEndCycle_active (hsame.active.trans hactive), htail]

/-- The read a cycle makes. -/
theorem busRead_eq {cpu cpu' : Cpu6502} {addr : Word} {value : Byte}
    (h : cpu'.events = cpu.events ++ [.read addr value, .tick 1]) :
    busRead cpu cpu' = some (addr, value) := by
  unfold busRead
  rw [h, List.drop_left]

/-- An instruction without a vector leaves the NMI alone. -/
theorem msRunCycle_plain (rest : List MicroOp) {cpu : Cpu6502} (hrest : cpu.ms.rest = rest)
    (hplain : rest.all MicroOp.plain = true) (hop : cpu.ms.opcode ≠ 0#8) :
    NmiSame cpu (msRunCycle rest cpu).2 ∧
      ((msRunCycle rest cpu).2.ms.active = true →
        (msRunCycle rest cpu).2.ms.rest.all MicroOp.plain = true) := by
  induction rest generalizing cpu with
  | nil =>
    obtain ⟨hnmi, -, -, hrest'⟩ := msEndCycle_nmi cpu
    refine ⟨hnmi, fun _ => ?_⟩
    rw [show msRunCycle [] cpu = msEndCycle cpu from rfl, hrest', ← List.drop_drop,
      show cpu.ms.plan.drop cpu.ms.pc = [] from hrest]
    rfl
  | cons mop rest ih =>
    simp only [List.all_cons, Bool.and_eq_true] at hplain
    have htail : cpu.ms.plan.drop (cpu.ms.pc + 1) = rest := by
      rw [← List.drop_drop, show cpu.ms.plan.drop cpu.ms.pc = mop :: rest from hrest]
      rfl
    have hp : mop ≠ .pushP := by
      rintro rfl
      exact absurd hplain.1 (by decide)
    by_cases hskip : mop = .readFixup ∧ cpu.ms.crossed = false
    · obtain ⟨rfl, hcrossed⟩ := hskip
      have hchain : msMicroOp .readFixup cpu = (.chain, cpu) := by
        simp [msMicroOp, hcrossed]
      rw [msRunCycle, hchain]
      have htail' : ({ cpu with ms := { cpu.ms with pc := cpu.ms.pc + 1 } } : Cpu6502).ms.rest =
          rest := htail
      have hnext := ih htail' hplain.2 hop
      exact ⟨⟨hnext.1.nmiPending, hnext.1.opcode, hnext.1.vector⟩, hnext.2⟩
    · have hsame := msMicroOp_nmiSame mop cpu hp fun _ => hop
      by_cases hjam : mop = .jam
      · subst hjam
        exact ⟨⟨rfl, rfl, rfl⟩, by rintro ⟨⟩⟩
      · have htakes := msMicroOp_takes mop cpu hjam fun heq => by
          by_contra hcrossed
          exact hskip ⟨heq, by simpa using hcrossed⟩
        unfold msRunCycle
        generalize msMicroOp mop cpu = r at hsame htakes
        obtain ⟨flow, c⟩ := r
        cases flow with
        | next =>
          obtain ⟨hnmi, -, -, hrest'⟩ := msEndCycle_nmi c
          refine ⟨⟨hnmi.nmiPending.trans hsame.nmiPending, hnmi.opcode.trans hsame.opcode,
            hnmi.vector.trans hsame.vector⟩, fun _ => ?_⟩
          have hplan : c.ms.plan = cpu.ms.plan := htakes.plan
          have hpc : c.ms.pc = cpu.ms.pc := htakes.pc
          dsimp only
          rw [hrest', hplan, hpc, htail]
          exact hplain.2
        | done => exact ⟨⟨hsame.nmiPending, hsame.opcode, hsame.vector⟩, by rintro ⟨⟩⟩
        | chain => exact absurd rfl htakes.flow

/-! ## The monitor keeps in step -/

theorem nmiLog_active {cpu : Cpu6502} (hrun : cpu.halted = false) (hactive : cpu.ms.active = true) :
    nmiLog cpu .cycle = (if nmiFalls cpu (cpuCycle cpu).2 then [.taken] else []) ++
      nmiCycleLog cpu (cpuCycle cpu).2 := by
  simp [nmiLog, cpuOp, hrun, hactive]

theorem nmiFalls_same {cpu cpu' : Cpu6502} (h : cpu'.nmiPending = cpu.nmiPending) :
    nmiFalls cpu cpu' = false := by
  unfold nmiFalls
  rw [h]
  cases cpu.nmiPending <;> rfl

/-- A micro-operation of a sequence that fetches no vector. -/
theorem nmiCycleLog_quiet {cpu cpu' : Cpu6502} {mop : MicroOp} {rest : List MicroOp}
    (hrest : cpu.ms.rest = mop :: rest) (hlo : mop ≠ .vecLo) (hhi : mop ≠ .vecHi) :
    nmiCycleLog cpu cpu' = [] := by
  unfold nmiCycleLog
  rw [hrest, List.head?_cons]
  split
  · rename_i heq _
    exact absurd (Option.some.inj heq) hlo
  · rename_i heq _
    exact absurd (Option.some.inj heq) hhi
  · rfl

/-- What a cycle leads to: its events take the monitor to a phase that fits. -/
def NmiFollows (ph : NmiPhase) (cpu : Cpu6502) (op : CpuOp) : Prop :=
  ∃ ph', (nmiLog cpu op).foldlM nmiPhase ph = some ph' ∧ NmiInv ph' (cpuOp cpu op)

/-- The cycles of a sequence before the push of P. -/
theorem msVectored_quiet {cpu : Cpu6502} {mop : MicroOp} {rest : List MicroOp}
    (hmop : mop = .dummyPc ∨ mop = .brkSign ∨ mop = .pushPch ∨ mop = .pushPcl)
    (hrun : cpu.halted = false) (hactive : cpu.ms.active = true)
    (hrest : cpu.ms.rest = mop :: rest) :
    nmiLog cpu .cycle = [] ∧ NmiSame cpu (cpuCycle cpu).2 ∧
      (cpuCycle cpu).2.ms.rest = rest ∧ ((cpuCycle cpu).2.ms.active = true ↔ rest ≠ []) := by
  obtain ⟨c, heq, hsame, hnmi⟩ : ∃ c, msMicroOp mop cpu = (.next, c) ∧ MsSame cpu c ∧
      NmiSame cpu c := by
    rcases hmop with rfl | rfl | rfl | rfl <;> exact ⟨_, rfl, ⟨rfl, rfl, rfl⟩, ⟨rfl, rfl, rfl⟩⟩
  have hstep := cpuCycle_stepped hrun hactive hrest heq hsame
  have hsame' : NmiSame cpu (cpuCycle cpu).2 :=
    ⟨hstep.nmiPending.trans hnmi.nmiPending, hstep.opcode.trans hnmi.opcode,
      hstep.vector.trans hnmi.vector⟩
  refine ⟨?_, hsame', hstep.rest_eq, hstep.active⟩
  have hlo : mop ≠ .vecLo := by rcases hmop with rfl | rfl | rfl | rfl <;> decide
  have hhi : mop ≠ .vecHi := by rcases hmop with rfl | rfl | rfl | rfl <;> decide
  rw [nmiLog_active hrun hactive, nmiFalls_same hsame'.nmiPending, nmiCycleLog_quiet hrest hlo hhi]
  rfl

/-- The push of P: an NMI pending takes over a sequence with another vector. -/
theorem msVectored_push {cpu : Cpu6502} {mop : MicroOp} {rest : List MicroOp}
    (hmop : mop = .pushP ∨ mop = .pushPBrk) (hrun : cpu.halted = false)
    (hactive : cpu.ms.active = true) (hop : cpu.ms.opcode = 0#8)
    (hrest : cpu.ms.rest = mop :: rest) :
    (cpuCycle cpu).2.ms.rest = rest ∧ ((cpuCycle cpu).2.ms.active = true ↔ rest ≠ []) ∧
      (cpuCycle cpu).2.ms.opcode = 0#8 ∧
      ((cpu.nmiPending = true ∧ cpu.ms.vector ≠ 0xFFFA#16 ∧ nmiLog cpu .cycle = [.taken] ∧
          (cpuCycle cpu).2.ms.vector = 0xFFFA#16) ∨
        (nmiLog cpu .cycle = [] ∧ (cpuCycle cpu).2.ms.vector = cpu.ms.vector)) := by
  obtain ⟨c, heq, hsame, hnmi⟩ : ∃ c, msMicroOp mop cpu = (.next, msNmiHijack c) ∧
      MsSame cpu c ∧ NmiSame cpu c := by
    rcases hmop with rfl | rfl
    · exact ⟨_, rfl, ⟨rfl, rfl, rfl⟩, ⟨rfl, rfl, rfl⟩⟩
    · dsimp only [msMicroOp]
      rw [if_pos (by simp [hop])]
      exact ⟨_, rfl, ⟨rfl, rfl, rfl⟩, ⟨rfl, rfl, rfl⟩⟩
  have hsame' : MsSame cpu (msNmiHijack c) := by
    have hh := (msNmiHijack_same c).1
    exact ⟨hh.plan.trans hsame.plan, hh.pc.trans hsame.pc, hh.active.trans hsame.active⟩
  have hstep := cpuCycle_stepped hrun hactive hrest heq hsame'
  have hlo : mop ≠ .vecLo := by rcases hmop with rfl | rfl <;> decide
  have hhi : mop ≠ .vecHi := by rcases hmop with rfl | rfl <;> decide
  rw [nmiLog_active hrun hactive, nmiCycleLog_quiet hrest hlo hhi, List.append_nil]
  refine ⟨hstep.rest_eq, hstep.active, ?_, ?_⟩
  · have hopc : (msNmiHijack c).ms.opcode = c.ms.opcode := by
      unfold msNmiHijack
      split_ifs <;> rfl
    rw [hstep.opcode, hopc, hnmi.opcode, hop]
  · by_cases htake : (c.nmiPending && c.ms.vector != 0xFFFA#16) = true
    · have hhijack : msNmiHijack c = { c with
          nmiPending := false, ms := { c.ms with vector := 0xFFFA#16, nmiSampled := false } } := by
        unfold msNmiHijack
        rw [if_pos htake]
      rw [hhijack] at hstep
      simp only [Bool.and_eq_true, bne_iff_ne, hnmi.nmiPending, hnmi.vector] at htake
      refine .inl ⟨htake.1, htake.2, ?_, hstep.vector⟩
      simp [nmiFalls, htake.1, hstep.nmiPending]
    · have hhijack : msNmiHijack c = c := by
        unfold msNmiHijack
        rw [if_neg htake]
      rw [hhijack] at hstep
      refine .inr ⟨?_, hstep.vector.trans hnmi.vector⟩
      rw [nmiFalls_same (hstep.nmiPending.trans hnmi.nmiPending)]
      rfl

/-- The first byte of the vector. -/
theorem msVectored_lo {cpu : Cpu6502} (hrun : cpu.halted = false) (hactive : cpu.ms.active = true)
    (hrest : cpu.ms.rest = [.vecLo, .vecHi]) :
    (cpuCycle cpu).2.ms.rest = [.vecHi] ∧ (cpuCycle cpu).2.ms.active = true ∧
      NmiSame cpu (cpuCycle cpu).2 ∧ (cpuCycle cpu).2.ms.adl = cpu.memory cpu.ms.vector ∧
      nmiLog cpu .cycle =
        if cpu.ms.vector = 0xFFFA#16 then [.fetch (cpu.memory cpu.ms.vector)] else [] := by
  have hstep := cpuCycle_stepped hrun hactive hrest rfl ⟨rfl, rfl, rfl⟩
  have hsame : NmiSame cpu (cpuCycle cpu).2 := ⟨hstep.nmiPending, hstep.opcode, hstep.vector⟩
  have hread : busRead cpu (cpuCycle cpu).2 = some (cpu.ms.vector, cpu.memory cpu.ms.vector) :=
    busRead_eq (hstep.events.trans (List.append_assoc _ [_] [_]))
  refine ⟨hstep.rest_eq, hstep.active.mpr (by simp), hsame, hstep.adl, ?_⟩
  rw [nmiLog_active hrun hactive, nmiFalls_same hsame.nmiPending]
  simp [nmiCycleLog, hrest, hread]

/-- The second byte of the vector: PC is loaded, and the sequence ends. -/
theorem msVectored_hi {cpu : Cpu6502} (hrun : cpu.halted = false) (hactive : cpu.ms.active = true)
    (hop : cpu.ms.opcode = 0#8) (hrest : cpu.ms.rest = [.vecHi]) :
    (cpuCycle cpu).2.ms.active = false ∧ nmiLog cpu .cycle =
      if cpu.ms.vector = 0xFFFA#16 then
        [.load (cpu.memory 0xFFFB#16) (Word.mk (cpu.memory 0xFFFB#16) cpu.ms.adl)]
      else [] := by
  have heq : msMicroOp .vecHi cpu = (.next, msVecHi cpu) := by
    dsimp only [msMicroOp]
    rw [if_neg (by simp [hop])]
  have hstep := cpuCycle_stepped hrun hactive hrest heq ⟨rfl, rfl, rfl⟩
  have hread : busRead cpu (cpuCycle cpu).2 =
      some (cpu.ms.vector + 1#16, cpu.memory (cpu.ms.vector + 1#16)) :=
    busRead_eq (hstep.events.trans (List.append_assoc _ [_] [_]))
  have hpc : (cpuCycle cpu).2.pc = Word.mk (cpu.memory (cpu.ms.vector + 1#16)) cpu.ms.adl :=
    hstep.pc
  have hpending : (cpuCycle cpu).2.nmiPending = cpu.nmiPending := hstep.nmiPending
  refine ⟨?_, ?_⟩
  · have hactive' := hstep.active
    simpa using hactive'
  · rw [nmiLog_active hrun hactive, nmiFalls_same hpending]
    simp only [nmiCycleLog, hrest, hread, List.head?_cons, hpc]
    by_cases hvec : cpu.ms.vector = 0xFFFA#16
    · simp [hvec]
    · have hvec' : cpu.ms.vector + 1#16 ≠ 0xFFFB#16 := by bv_omega
      simp [hvec, hvec']

/-- The interrupt sequence after its first cycle. -/
def msInterruptPlan : List MicroOp := [.dummyPc, .pushPch, .pushPcl, .pushP, .vecLo, .vecHi]

theorem msVectored_interrupt :
    MsVectored [.dummyPc, .pushPch, .pushPcl, .pushP, .vecLo, .vecHi] :=
  .dummyPc (.pushPch (.pushPcl .pushP (by decide)) (by decide)) (by decide)

theorem msVectored_brk : MsVectored [.brkSign, .pushPch, .pushPcl, .pushPBrk, .vecLo, .vecHi] :=
  .brkSign (.pushPch (.pushPcl .pushPBrk (by decide)) (by decide)) (by decide)

/-- A BRK ends by a vector, and the other instructions have none. -/
theorem msBuildPlan_vectored (opcode : Byte) (ms : MsState) :
    (opcode = 0#8 ∧ MsVectored (msBuildPlan opcode ms).rest ∧
        (msBuildPlan opcode ms).vector = 0xFFFE#16) ∨
      (opcode ≠ 0#8 ∧ (msBuildPlan opcode ms).rest.all MicroOp.plain = true) := by
  by_cases hop : opcode = 0#8
  · subst hop
    refine .inl ⟨rfl, ?_, rfl⟩
    have hplan : (msBuildPlan 0#8 ms).rest =
        [.brkSign, .pushPch, .pushPcl, .pushPBrk, .vecLo, .vecHi] := rfl
    rw [hplan]
    exact msVectored_brk
  · refine .inr ⟨hop, ?_⟩
    have hall : ∀ op : Byte, op ≠ 0#8 → ((msPlan (msTable op).cls (opcodeTable op).mode).foldl
        planAdd []).all MicroOp.plain = true := by
      decide
    exact hall opcode hop

/-- A cycle at an instruction boundary. -/
theorem nmiFollows_start {cpu : Cpu6502} (hrun : cpu.halted = false)
    (hinactive : cpu.ms.active = false) : NmiFollows .idle cpu .cycle := by
  have hplan : [MicroOp.dummyPc, .pushPch, .pushPcl, .pushP, .vecLo, .vecHi].foldl planAdd [] =
      [.dummyPc, .pushPch, .pushPcl, .pushP, .vecLo, .vecHi] := by decide
  have hlog : nmiLog cpu .cycle =
      if nmiFalls cpu (cpuCycle cpu).2 then [.taken] else [.start] := by
    simp [nmiLog, cpuOp, hrun, hinactive]
  have hcycle : cpuCycle cpu =
      if cpu.ms.nmiSampled && cpu.nmiPending then
        msStartInterrupt 0xFFFA#16
          { cpu with nmiPending := false, ms := { cpu.ms with nmiSampled := false } }
      else if cpu.ms.irqSampled then
        msStartInterrupt 0xFFFE#16
          { cpu with
            irqPulse := if cpu.irqPulse != 0#8 then cpu.irqPulse - 1#8 else cpu.irqPulse
            ms := { cpu.ms with irqSampled := false } }
      else msStartInstruction cpu := by
    simp [cpuCycle, hrun, hinactive]
  by_cases hnmi : (cpu.ms.nmiSampled && cpu.nmiPending) = true
  · rw [if_pos hnmi] at hcycle
    simp only [Bool.and_eq_true] at hnmi
    refine ⟨.owed, ?_, ?_⟩
    · have hfalls : nmiFalls cpu (cpuCycle cpu).2 = true := by
        rw [hcycle]
        simp [nmiFalls, hnmi.2, msStartInterrupt, msSampleInterrupts, cpuMemRead, cpuTick]
      rw [hlog, if_pos hfalls]
      rfl
    · change NmiInv .owed (cpuCycle cpu).2
      rw [hcycle]
      have hrest : (msStartInterrupt 0xFFFA#16 { cpu with
          nmiPending := false, ms := { cpu.ms with nmiSampled := false } }).2.ms.rest =
          [.dummyPc, .pushPch, .pushPcl, .pushP, .vecLo, .vecHi] := hplan
      refine ⟨rfl, ?_, ?_, ?_, rfl, rfl⟩
      · rw [hrest]
        exact msVectored_interrupt
      · rw [hrest]
        decide
      · rw [hrest]
        decide
  · rw [if_neg hnmi] at hcycle
    have hstart : nmiFalls cpu (cpuCycle cpu).2 = false ∧ NmiInv .idle (cpuCycle cpu).2 := by
      rw [hcycle]
      split
      · have hother : (0xFFFE#16 : Word) ≠ 0xFFFA#16 := by decide
        refine ⟨nmiFalls_same rfl, fun _ => .inr ⟨?_, rfl, hother⟩⟩
        have hrest : (msStartInterrupt 0xFFFE#16 { cpu with
            irqPulse := if cpu.irqPulse != 0#8 then cpu.irqPulse - 1#8 else cpu.irqPulse
            ms := { cpu.ms with irqSampled := false } }).2.ms.rest =
            [.dummyPc, .pushPch, .pushPcl, .pushP, .vecLo, .vecHi] := hplan
        rw [hrest]
        exact msVectored_interrupt
      · refine ⟨nmiFalls_same rfl, fun _ => ?_⟩
        rcases msBuildPlan_vectored (cpu.memory cpu.pc) cpu.ms with ⟨hop, hvec, hvector⟩ |
          ⟨hop, hplain⟩
        · refine .inr ⟨hvec, hop, ?_⟩
          change (msBuildPlan (cpu.memory cpu.pc) cpu.ms).vector ≠ 0xFFFA#16
          rw [hvector]
          decide
        · exact .inl ⟨hplain, hop⟩
    refine ⟨.idle, ?_, hstart.2⟩
    rw [hlog, hstart.1]
    rfl

/-- A cycle of a sequence that ends by another vector than the NMI's, as yet. -/
theorem nmiFollows_other {cpu : Cpu6502} (hrun : cpu.halted = false)
    (hactive : cpu.ms.active = true) (hvec : MsVectored cpu.ms.rest) (hop : cpu.ms.opcode = 0#8)
    (hvector : cpu.ms.vector ≠ 0xFFFA#16) : NmiFollows .idle cpu .cycle := by
  have hquiet : ∀ {mop rest}, cpu.ms.rest = mop :: rest → MsVectored rest →
      (mop = .dummyPc ∨ mop = .brkSign ∨ mop = .pushPch ∨ mop = .pushPcl) →
      NmiFollows .idle cpu .cycle := by
    intro mop rest hrest hvec hmop
    obtain ⟨hlog, hsame, hrest', -⟩ := msVectored_quiet hmop hrun hactive hrest
    refine ⟨.idle, by rw [hlog]; rfl, fun _ => .inr ⟨?_, ?_, ?_⟩⟩
    · exact hrest' ▸ hvec
    · exact hsame.opcode.trans hop
    · exact hsame.vector ▸ hvector
  have hpush : ∀ {mop}, cpu.ms.rest = [mop, .vecLo, .vecHi] → (mop = .pushP ∨ mop = .pushPBrk) →
      NmiFollows .idle cpu .cycle := by
    intro mop hrest hmop
    obtain ⟨hrest', hactive', hop', ⟨-, -, hlog, hvector'⟩ | ⟨hlog, hvector'⟩⟩ :=
      msVectored_push hmop hrun hactive hop hrest
    · refine ⟨.owed, by rw [hlog]; rfl, hactive'.mpr (by simp), ?_, ?_, ?_, hop', hvector'⟩
      · change MsVectored (cpuCycle cpu).2.ms.rest
        exact hrest' ▸ .lo
      · change (cpuCycle cpu).2.ms.rest ≠ _
        rw [hrest']
        decide
      · change (cpuCycle cpu).2.ms.rest.length ≤ 6
        rw [hrest']
        decide
    · refine ⟨.idle, by rw [hlog]; rfl, fun _ => .inr ⟨?_, hop', ?_⟩⟩
      · change MsVectored (cpuCycle cpu).2.ms.rest
        exact hrest' ▸ .lo
      · exact hvector' ▸ hvector
  generalize hr : cpu.ms.rest = rest at hvec
  cases hvec with
  | hi =>
    obtain ⟨hactive', hlog⟩ := msVectored_hi hrun hactive hop hr
    refine ⟨.idle, by rw [hlog, if_neg hvector]; rfl, fun h => ?_⟩
    exact absurd (hactive'.symm.trans h) (by decide)
  | lo =>
    obtain ⟨hrest', -, hsame, -, hlog⟩ := msVectored_lo hrun hactive hr
    refine ⟨.idle, by rw [hlog, if_neg hvector]; rfl, fun _ => .inr ⟨?_, ?_, ?_⟩⟩
    · exact hrest' ▸ .hi
    · exact hsame.opcode.trans hop
    · exact hsame.vector ▸ hvector
  | pushP => exact hpush hr (.inl rfl)
  | pushPBrk => exact hpush hr (.inr rfl)
  | pushPcl hvec _ => exact hquiet hr hvec (by simp)
  | pushPch hvec _ => exact hquiet hr hvec (by simp)
  | dummyPc hvec _ => exact hquiet hr hvec (by simp)
  | brkSign hvec _ => exact hquiet hr hvec (by simp)

/-- A cycle of the sequence of an NMI taken: its vector is closer by one. -/
theorem nmiOwed_cycle {cpu : Cpu6502} (hrun : cpu.halted = false) (h : NmiInv .owed cpu) :
    ∃ ph', ph' ≠ .idle ∧ (nmiLog cpu .cycle).foldlM nmiPhase .owed = some ph' ∧
      NmiInv ph' (cpuCycle cpu).2 ∧
      (cpuCycle cpu).2.ms.rest.length + 1 = cpu.ms.rest.length := by
  obtain ⟨hactive, hvec, hne, hlen, hop, hvector⟩ := h
  have hquiet : ∀ {mop rest}, cpu.ms.rest = mop :: rest → MsVectored rest → rest ≠ [.vecHi] →
      (mop = .dummyPc ∨ mop = .brkSign ∨ mop = .pushPch ∨ mop = .pushPcl) →
      ∃ ph', ph' ≠ .idle ∧ (nmiLog cpu .cycle).foldlM nmiPhase .owed = some ph' ∧
        NmiInv ph' (cpuCycle cpu).2 ∧
        (cpuCycle cpu).2.ms.rest.length + 1 = cpu.ms.rest.length := by
    intro mop rest hrest hvec hne hmop
    obtain ⟨hlog, hsame, hrest', hactive'⟩ := msVectored_quiet hmop hrun hactive hrest
    have hnonempty : rest ≠ [] := by
      rintro rfl
      cases hvec
    rw [hrest] at hlen
    refine ⟨.owed, nofun, by rw [hlog]; rfl, ⟨hactive'.mpr hnonempty, ?_, ?_, ?_,
      hsame.opcode.trans hop, hsame.vector.trans hvector⟩, by rw [hrest', hrest]; rfl⟩
    · exact hrest' ▸ hvec
    · exact hrest' ▸ hne
    · rw [hrest']
      exact Nat.le_of_succ_le hlen
  have hpush : ∀ {mop}, cpu.ms.rest = [mop, .vecLo, .vecHi] → (mop = .pushP ∨ mop = .pushPBrk) →
      ∃ ph', ph' ≠ .idle ∧ (nmiLog cpu .cycle).foldlM nmiPhase .owed = some ph' ∧
        NmiInv ph' (cpuCycle cpu).2 ∧
        (cpuCycle cpu).2.ms.rest.length + 1 = cpu.ms.rest.length := by
    intro mop hrest hmop
    obtain ⟨hrest', hactive', hop', ⟨-, hvector', -⟩ | ⟨hlog, hvector'⟩⟩ :=
      msVectored_push hmop hrun hactive hop hrest
    · exact absurd hvector hvector'
    · refine ⟨.owed, nofun, by rw [hlog]; rfl, ⟨hactive'.mpr (by simp), ?_, ?_, ?_, hop',
        hvector'.trans hvector⟩, by rw [hrest', hrest]; rfl⟩
      · exact hrest' ▸ .lo
      · rw [hrest']
        decide
      · rw [hrest']
        decide
  generalize hr : cpu.ms.rest = rest at hvec hne hlen
  cases hvec with
  | hi => exact absurd rfl hne
  | lo =>
    obtain ⟨hrest', hactive', hsame, hadl, hlog⟩ := msVectored_lo hrun hactive hr
    exact ⟨.fetched (cpu.memory cpu.ms.vector), nofun, by rw [hlog, if_pos hvector]; rfl,
      ⟨hactive', hrest', hsame.opcode.trans hop, hsame.vector.trans hvector, hadl⟩,
      by rw [hrest']; rfl⟩
  | pushP => exact hr ▸ hpush hr (.inl rfl)
  | pushPBrk => exact hr ▸ hpush hr (.inr rfl)
  | pushPcl hvec hnext => exact hr ▸ hquiet hr hvec hnext (by simp)
  | pushPch hvec hnext => exact hr ▸ hquiet hr hvec hnext (by simp)
  | dummyPc hvec hnext => exact hr ▸ hquiet hr hvec hnext (by simp)
  | brkSign hvec hnext => exact hr ▸ hquiet hr hvec hnext (by simp)

theorem nmiFollows_fetched {cpu : Cpu6502} {lo : Byte} (hrun : cpu.halted = false)
    (h : NmiInv (.fetched lo) cpu) : NmiFollows (.fetched lo) cpu .cycle := by
  obtain ⟨hactive, hrest, hop, hvector, hadl⟩ := h
  obtain ⟨hactive', hlog⟩ := msVectored_hi hrun hactive hop hrest
  refine ⟨.idle, ?_, fun h => ?_⟩
  · rw [hlog, if_pos hvector, hadl]
    simp [nmiPhase]
  · exact absurd (hactive'.symm.trans h) (by decide)

/-- An instruction without a vector. -/
theorem nmiFollows_plain {cpu : Cpu6502} (hrun : cpu.halted = false)
    (hactive : cpu.ms.active = true) (hplain : cpu.ms.rest.all MicroOp.plain = true)
    (hop : cpu.ms.opcode ≠ 0#8) : NmiFollows .idle cpu .cycle := by
  obtain ⟨hsame, hplain'⟩ := msRunCycle_plain cpu.ms.rest rfl hplain hop
  have hcycle : cpuCycle cpu = msRunCycle cpu.ms.rest cpu := by
    simp [cpuCycle, hrun, hactive, MsState.rest]
  rw [← hcycle] at hsame hplain'
  refine ⟨.idle, ?_, fun hactive' => .inl ⟨hplain' hactive', ?_⟩⟩
  · have hquiet : nmiCycleLog cpu (cpuCycle cpu).2 = [] := by
      cases hr : cpu.ms.rest with
      | nil => simp [nmiCycleLog, hr]
      | cons mop rest =>
        rw [hr, List.all_cons, Bool.and_eq_true] at hplain
        refine nmiCycleLog_quiet hr ?_ ?_
        · rintro rfl
          exact absurd hplain.1 (by decide)
        · rintro rfl
          exact absurd hplain.1 (by decide)
    rw [nmiLog_active hrun hactive, nmiFalls_same hsame.nmiPending, hquiet]
    rfl
  · exact hsame.opcode ▸ hop

theorem nmiFollows_cycle {ph : NmiPhase} {cpu : Cpu6502} (h : NmiInv ph cpu) :
    NmiFollows ph cpu .cycle := by
  by_cases hrun : cpu.halted = true
  · have hstay : (cpuOp cpu .cycle) = cpu := by simp [cpuOp, cpuCycle, hrun]
    refine ⟨ph, ?_, hstay.symm ▸ h⟩
    simp [nmiLog, hrun]
  have hrun' : cpu.halted = false := by simpa using hrun
  cases ph with
  | idle =>
    by_cases hactive : cpu.ms.active = true
    · rcases h hactive with ⟨hplain, hop⟩ | ⟨hvec, hop, hvector⟩
      · exact nmiFollows_plain hrun' hactive hplain hop
      · exact nmiFollows_other hrun' hactive hvec hop hvector
    · exact nmiFollows_start hrun' (by simpa using hactive)
  | owed =>
    obtain ⟨ph', -, hlog, hinv, -⟩ := nmiOwed_cycle hrun' h
    exact ⟨ph', hlog, hinv⟩
  | fetched lo => exact nmiFollows_fetched hrun' h

/-- The operations of a run: cycles, changes of the lines and of the memory. -/
def CpuOp.isLine : CpuOp → Prop
  | .reset | .setMicroseq => False
  | _ => True

/-- The step lemma. -/
theorem nmiFollows_op {ph : NmiPhase} {cpu : Cpu6502} (h : NmiInv ph cpu) (op : CpuOp)
    (hop : op.isLine) : NmiFollows ph cpu op := by
  cases op with
  | cycle => exact nmiFollows_cycle h
  | reset => exact hop.elim
  | setMicroseq => exact hop.elim
  | nmi => exact ⟨ph, by simp [nmiLog, nmiFalls, cpuOp], h⟩
  | irqSet source => exact ⟨ph, by simp [nmiLog, nmiFalls, cpuOp], h⟩
  | irqClear source => exact ⟨ph, by simp [nmiLog, nmiFalls, cpuOp], h⟩
  | irqPulse => exact ⟨ph, by simp [nmiLog, nmiFalls, cpuOp], h⟩
  | setMemory memory => exact ⟨ph, by simp [nmiLog, nmiFalls, cpuOp], h⟩

/-! ## Service within six cycles -/

abbrev cpuRun (cpu : Cpu6502) (ops : List CpuOp) : Cpu6502 := ops.foldl cpuOp cpu

def CpuOp.isCycle : CpuOp → Bool
  | .cycle => true
  | _ => false

/-- The cycles of a list of operations. -/
def cpuCycles (ops : List CpuOp) : Nat := ops.countP CpuOp.isCycle

/-- A halted CPU stays so. -/
theorem cpuOp_halted {cpu : Cpu6502} (hhalt : cpu.halted = true) (op : CpuOp) (hop : op.isLine) :
    (cpuOp cpu op).halted = true := by
  cases op with
  | cycle => simp [cpuOp, cpuCycle, hhalt]
  | reset => exact hop.elim
  | setMicroseq => exact hop.elim
  | _ => exact hhalt

theorem cpuRun_running {cpu : Cpu6502} {ops : List CpuOp} (hops : ∀ op ∈ ops, op.isLine)
    (hend : (cpuRun cpu ops).halted = false) : cpu.halted = false := by
  by_contra hhalt
  let Halted : Cpu6502 → Prop := fun cpu => cpu.halted = true
  have hstart : Halted cpu := by simpa [Halted] using hhalt
  have hstays : Halted (cpuRun cpu ops) :=
    List.foldlRecOn ops cpuOp hstart fun _ h op hmem => cpuOp_halted h op (hops op hmem)
  exact absurd (hstays.symm.trans hend) (by decide)

/-- The other operations leave the sequence alone. -/
theorem cpuOp_ms (cpu : Cpu6502) {op : CpuOp} (hop : op.isLine) (hcycle : op ≠ .cycle) :
    (cpuOp cpu op).ms = cpu.ms := by
  cases op with
  | cycle => exact absurd rfl hcycle
  | reset => exact hop.elim
  | setMicroseq => exact hop.elim
  | _ => rfl

theorem nmiInv_of_ms {ph : NmiPhase} {cpu cpu' : Cpu6502} (hms : cpu'.ms = cpu.ms)
    (h : NmiInv ph cpu) : NmiInv ph cpu' := by
  cases ph <;> simpa only [NmiInv, hms] using h

theorem nmi_loads {ph : NmiPhase} {cpu : Cpu6502} (h : NmiInv ph cpu) (hph : ph ≠ .idle)
    (more : List CpuOp) (hmore : ∀ op ∈ more, op.isLine)
    (hend : (cpuRun cpu more).halted = false) (hlen : cpu.ms.rest.length ≤ cpuCycles more) :
    ∃ hi pc, .load hi pc ∈ nmiTrace more cpu := by
  induction more generalizing ph cpu with
  | nil =>
    have hrest : cpu.ms.rest = [] := by simpa [cpuCycles] using hlen
    cases ph with
    | idle => exact absurd rfl hph
    | owed =>
      have hvec := h.2.1
      rw [hrest] at hvec
      cases hvec
    | fetched lo => exact absurd (h.2.1.symm.trans hrest) (by simp)
  | cons op more ih =>
    have hrun := cpuRun_running hmore hend
    have hmore' : ∀ op ∈ more, op.isLine := fun op' hmem => hmore op' (List.mem_cons_of_mem op hmem)
    have hop := hmore op List.mem_cons_self
    by_cases hcycle : op = .cycle
    · subst hcycle
      have hcount : cpuCycles (.cycle :: more) = cpuCycles more + 1 :=
        List.countP_cons_of_pos rfl
      cases ph with
      | idle => exact absurd rfl hph
      | owed =>
        obtain ⟨ph', hph', -, hinv, hless⟩ := nmiOwed_cycle hrun h
        obtain ⟨hi, pc, hmem⟩ := ih hinv hph' hmore' hend (by omega)
        exact ⟨hi, pc, List.mem_append_right _ hmem⟩
      | fetched lo =>
        obtain ⟨hactive, hrest, hopc, hvector, -⟩ := h
        obtain ⟨-, hlog⟩ := msVectored_hi hrun hactive hopc hrest
        rw [if_pos hvector] at hlog
        exact ⟨cpu.memory 0xFFFB#16, Word.mk (cpu.memory 0xFFFB#16) cpu.ms.adl,
          List.mem_append_left _ (hlog ▸ List.mem_singleton_self _)⟩
    · have hms := cpuOp_ms cpu hop hcycle
      have hcount : cpuCycles (op :: more) = cpuCycles more := by
        cases op <;> first | rfl | exact absurd rfl hcycle
      have hinv := nmiInv_of_ms hms h
      obtain ⟨hi, pc, hmem⟩ := ih hinv hph hmore' hend (by rw [hms, ← hcount]; exact hlen)
      exact ⟨hi, pc, List.mem_append_right _ hmem⟩

/-! ## Taken within two instructions -/

/-- The instructions that end in a run. -/
def cpuEnds : List CpuOp → Cpu6502 → Nat
  | [], _ => 0
  | op :: ops, cpu =>
    (if op.isCycle && (cpuCycle cpu).1 then 1 else 0) + cpuEnds ops (cpuOp cpu op)

/-- Instructions a pending NMI may still have to wait for. -/
def nmiWait (cpu : Cpu6502) : Nat :=
  (if cpu.ms.nmiSampled then 0 else 1) + (if cpu.ms.active then 1 else 0)

theorem msMicroOp_sampled (mop : MicroOp) (cpu : Cpu6502) :
    (msMicroOp mop cpu).2.ms.nmiSampled = cpu.ms.nmiSampled ∨
      (msMicroOp mop cpu).2.nmiPending = false := by
  have hhijack : ∀ c : Cpu6502, c.ms.nmiSampled = cpu.ms.nmiSampled →
      (msNmiHijack c).ms.nmiSampled = cpu.ms.nmiSampled ∨ (msNmiHijack c).nmiPending = false := by
    intro c hc
    unfold msNmiHijack
    split_ifs
    · exact .inr rfl
    · exact .inl hc
  cases mop with
  | pushP => exact hhijack _ rfl
  | pushPBrk =>
    dsimp only [msMicroOp]
    split
    · exact hhijack _ rfl
    · exact .inl rfl
  | fetchLo => dsimp only [msMicroOp]; split <;> exact .inl rfl
  | ptrHi => dsimp only [msMicroOp]; split <;> exact .inl rfl
  | readFixup => dsimp only [msMicroOp]; split <;> exact .inl rfl
  | readData => dsimp only [msMicroOp]; split <;> exact .inl rfl
  | writeData => dsimp only [msMicroOp]; split <;> exact .inl rfl
  | vecHi =>
    dsimp only [msMicroOp]
    split
    · obtain ⟨n, heq⟩ := cpuIrqTraceEntry_frame (msVecHi cpu)
      rw [heq]
      exact .inl rfl
    · exact .inl rfl
  | _ => exact .inl rfl

/-- What a cycle tells of the NMI's sampling, if the NMI is still pending after it: the last cycle
of an instruction does not sample, the others do. -/
def MsSampled (cpu : Cpu6502) (r : Bool × Cpu6502) : Prop :=
  r.2.nmiPending = true →
    (r.1 = true → r.2.ms.active = false ∧ r.2.ms.nmiSampled = cpu.ms.nmiSampled) ∧
      (r.1 = false → r.2.ms.nmiSampled = true)

theorem msEndCycle_sampled (cpu : Cpu6502) : MsSampled cpu (msEndCycle cpu) := by
  intro hpending
  unfold msEndCycle msSampleInterrupts at *
  dsimp only at *
  by_cases hlast : cpu.ms.plan.length ≤ cpu.ms.pc + 1
  · simp [hlast]
  · simpa [hlast] using hpending

theorem msRunCycle_sampled (rest : List MicroOp) (cpu : Cpu6502) :
    MsSampled cpu (msRunCycle rest cpu) := by
  induction rest generalizing cpu with
  | nil => exact msEndCycle_sampled cpu
  | cons mop rest ih =>
    have hsampled := msMicroOp_sampled mop cpu
    have hchain : (msMicroOp mop cpu).1 = .chain → (msMicroOp mop cpu).2 = cpu := by
      intro hflow
      by_cases hskip : mop = .readFixup ∧ cpu.ms.crossed = false
      · obtain ⟨rfl, hcrossed⟩ := hskip
        simp [msMicroOp, hcrossed]
      · by_cases hjam : mop = .jam
        · subst hjam
          cases hflow
        · refine absurd hflow (msMicroOp_takes mop cpu hjam fun heq => ?_).flow
          by_contra hcrossed
          exact hskip ⟨heq, by simpa using hcrossed⟩
    unfold msRunCycle
    generalize msMicroOp mop cpu = r at hsampled hchain
    obtain ⟨flow, c⟩ := r
    cases flow with
    | next =>
      intro hpending
      obtain ⟨hlast, hmore⟩ := msEndCycle_sampled c hpending
      have hc : c.nmiPending = true := (msEndCycle_nmi c).1.nmiPending.symm.trans hpending
      have hkept : c.ms.nmiSampled = cpu.ms.nmiSampled := by
        rcases hsampled with hs | hs
        · exact hs
        · exact absurd (hs.symm.trans hc) (by decide)
      exact ⟨fun h => ⟨(hlast h).1, (hlast h).2.trans hkept⟩, hmore⟩
    | done =>
      intro hpending
      have hkept : c.ms.nmiSampled = cpu.ms.nmiSampled := by
        rcases hsampled with hs | hs
        · exact hs
        · exact absurd (hs.symm.trans hpending) (by decide)
      exact ⟨fun _ => ⟨rfl, hkept⟩, by rintro ⟨⟩⟩
    | chain =>
      have hc : c = cpu := hchain rfl
      subst hc
      exact ih _

/-- A cycle that leaves an NMI pending uses up its wait. -/
theorem nmiWait_cycle {cpu : Cpu6502} (hrun : cpu.halted = false) (hpending : cpu.nmiPending = true)
    (hpending' : (cpuCycle cpu).2.nmiPending = true) :
    (if (cpuCycle cpu).1 then 1 else 0) + nmiWait (cpuCycle cpu).2 ≤ nmiWait cpu := by
  by_cases hactive : cpu.ms.active = true
  · have hcycle : cpuCycle cpu = msRunCycle cpu.ms.rest cpu := by
      simp [cpuCycle, hrun, hactive, MsState.rest]
    have hsampled := msRunCycle_sampled cpu.ms.rest cpu
    rw [← hcycle] at hsampled
    obtain ⟨hlast, hmore⟩ := hsampled hpending'
    have hle : (if (cpuCycle cpu).2.ms.active = true then 1 else 0) ≤ 1 := by
      split <;> omega
    unfold nmiWait
    cases hend : (cpuCycle cpu).1 with
    | true =>
      obtain ⟨hinactive, hkept⟩ := hlast hend
      rw [hinactive, hkept, hactive]
      exact Nat.le_of_eq (Nat.add_comm _ _)
    | false =>
      rw [hmore hend, hactive]
      simp only [if_true, Bool.false_eq_true, if_false]
      omega
  · have hinactive : cpu.ms.active = false := by simpa using hactive
    have hcycle : cpuCycle cpu =
        if cpu.ms.nmiSampled && cpu.nmiPending then
          msStartInterrupt 0xFFFA#16
            { cpu with nmiPending := false, ms := { cpu.ms with nmiSampled := false } }
        else if cpu.ms.irqSampled then
          msStartInterrupt 0xFFFE#16
            { cpu with
              irqPulse := if cpu.irqPulse != 0#8 then cpu.irqPulse - 1#8 else cpu.irqPulse
              ms := { cpu.ms with irqSampled := false } }
        else msStartInstruction cpu := by
      simp [cpuCycle, hrun, hinactive]
    have hunsampled : cpu.ms.nmiSampled = false := by
      by_contra hs
      have hs' : cpu.ms.nmiSampled = true := by simpa using hs
      rw [hcycle, hs', hpending] at hpending'
      cases hpending'
    rw [hunsampled, Bool.false_and, if_neg (by decide)] at hcycle
    have hstart : (cpuCycle cpu).1 = false ∧ (cpuCycle cpu).2.ms.nmiSampled = cpu.nmiPending := by
      rw [hcycle]
      split <;> exact ⟨rfl, rfl⟩
    have hle : (if (cpuCycle cpu).2.ms.active = true then 1 else 0) ≤ 1 := by
      split <;> omega
    unfold nmiWait
    rw [hstart.1, hstart.2, hpending, hunsampled]
    simp only [if_true, Bool.false_eq_true, if_false]
    omega

/-- The NMI is taken by the operation. -/
def NmiTaken (cpu : Cpu6502) (op : CpuOp) : Prop := nmiFalls cpu (cpuOp cpu op) = true

/-- An NMI pending that no operation of the run takes stays pending, and its wait shrinks with each
instruction that ends. -/
theorem nmiWait_run {cpu : Cpu6502} (more : List CpuOp) (hmore : ∀ op ∈ more, op.isLine)
    (hend : (cpuRun cpu more).halted = false) (hpending : cpu.nmiPending = true)
    (hno : ¬Machine.Sometime cpuOp NmiTaken more cpu) :
    (cpuRun cpu more).nmiPending = true ∧
      cpuEnds more cpu + nmiWait (cpuRun cpu more) ≤ nmiWait cpu := by
  induction more generalizing cpu with
  | nil => exact ⟨hpending, Nat.le_of_eq (Nat.zero_add _)⟩
  | cons op more ih =>
    have hrun := cpuRun_running hmore hend
    have hmore' : ∀ op ∈ more, op.isLine := fun op' hmem => hmore op' (List.mem_cons_of_mem op hmem)
    have hpending' : (cpuOp cpu op).nmiPending = true := by
      by_contra hfell
      refine hno (.inl ?_)
      simp only [NmiTaken, nmiFalls, hpending, Bool.true_and]
      simpa using hfell
    obtain ⟨hlast, hwait⟩ := ih hmore' hend hpending' fun hlater => hno (.inr hlater)
    refine ⟨hlast, ?_⟩
    have hstep : (if op.isCycle && (cpuCycle cpu).1 then 1 else 0) +
        nmiWait (cpuOp cpu op) ≤ nmiWait cpu := by
      by_cases hcycle : op = .cycle
      · subst hcycle
        simpa [cpuOp, CpuOp.isCycle] using nmiWait_cycle hrun hpending hpending'
      · have hms := cpuOp_ms cpu (hmore op List.mem_cons_self) hcycle
        unfold nmiWait
        rw [hms]
        cases op <;> first | exact Nat.le_of_eq (Nat.zero_add _) | exact absurd rfl hcycle
    have hends : cpuEnds (op :: more) cpu = (if op.isCycle && (cpuCycle cpu).1 then 1 else 0) +
        cpuEnds more (cpuOp cpu op) := rfl
    have hrun' : cpuRun cpu (op :: more) = cpuRun (cpuOp cpu op) more := rfl
    rw [hends, hrun']
    omega

/-- An NMI whose wait is over is taken by the next cycle. -/
theorem nmiTaken_of_wait {cpu : Cpu6502} (hrun : cpu.halted = false)
    (hpending : cpu.nmiPending = true) (hwait : nmiWait cpu = 0) : NmiTaken cpu .cycle := by
  have hsampled : cpu.ms.nmiSampled = true := by
    by_contra hs
    simp only [nmiWait, if_neg hs] at hwait
    omega
  have hinactive : cpu.ms.active = false := by
    by_contra ha
    have ha' : cpu.ms.active = true := by simpa using ha
    simp only [nmiWait, if_pos ha'] at hwait
    omega
  have hcycle : cpuCycle cpu = msStartInterrupt 0xFFFA#16
      { cpu with nmiPending := false, ms := { cpu.ms with nmiSampled := false } } := by
    simp [cpuCycle, hrun, hinactive, hsampled, hpending]
  have hfell : (cpuCycle cpu).2.nmiPending = false := by
    rw [hcycle]
    rfl
  simp [NmiTaken, nmiFalls, cpuOp, hpending, hfell]

theorem nmiWait_le (cpu : Cpu6502) : nmiWait cpu ≤ if cpu.ms.active then 2 else 1 := by
  unfold nmiWait
  cases cpu.ms.active <;> cases cpu.ms.nmiSampled <;> decide

end Phosphoric
