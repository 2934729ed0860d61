import Phosphoric.Cpu.Latches
import Phosphoric.Emu.Savestate

/-!
# A restored machine goes on like the saved one

The CPU and the VIA of the machine, the VIA's interrupt line wired to the CPU, and everything else
as what happens to them: changes of the memory and of what the VIA's callbacks look at.

**Theorem (`savestate_resumes`).** Save a reachable machine whose CPU is at an instruction boundary,
and load the file into a machine that agrees with it on the fields neither section has
(`OstUnsaved`). Once the other sections have brought back the memory and the devices, the machine
answers every sequence of operations, cycle by cycle, as the saved one does.

Of the CPU, the micro-sequencer is not saved: between instructions nothing in it but the interrupt
samples is used again (`cpuObserve_alike`). Of the VIA, the skipped cycles are not: the copy saved
has them applied, which changes nothing (`lazySim_viaApply`).
-/

namespace Phosphoric

variable {σ : Type}

/-! ## The machine -/

/-- `emulator_t`, as far as these two sections go. -/
structure OstMachine (σ : Type) where
  cpu : Cpu6502
  via : ViaSys σ

abbrev irqfVia : Byte := 0x01#8

/-- `irq_callback`: the VIA's line is one of the CPU's interrupt sources. -/
def irqCallback (cpu : Cpu6502) (state : Bool) : Cpu6502 :=
  cpuOp cpu (if state then .irqSet irqfVia else .irqClear irqfVia)

/-- What happens to the machine. -/
inductive OstOp (σ : Type)
  | cpu (op : CpuOp)
  | via (op : ViaOp)
  | devices (user : σ)

/-- What an operation shows: bus accesses, the value returned, calls of `irq_callback`. -/
inductive OstAnswer
  | cpu (answer : CpuAnswer)
  | via (out : ViaOut) (irqCalls : List Bool)
  | devices
  deriving DecidableEq

variable (cb : ViaCallbacks σ)

def ostObserve (emu : OstMachine σ) : OstOp σ → OstAnswer × OstMachine σ
  | .cpu op =>
    let (answer, cpu) := cpuObserve emu.cpu op
    (.cpu answer, { emu with cpu := cpu })
  | .via op =>
    let ((out, calls), via) := viaObserve cb (viaTick cb) emu.via op
    (.via out calls, { cpu := calls.foldl irqCallback emu.cpu, via := via })
  | .devices user => (.devices, { emu with via := { emu.via with user := user } })

/-- What a sequence of operations shows. -/
def ostAnswers (ops : List (OstOp σ)) (emu : OstMachine σ) : List OstAnswer :=
  (Machine.runOut (ostObserve cb) ops emu).1

def OstStart (emu : OstMachine σ) : Prop :=
  ∃ memory user, emu = ⟨cpuInit memory, { viaInit with user := user, irqCalls := [] }⟩

/-- The states reached from a machine just initialised. -/
abbrev OstReachable : OstMachine σ → Prop :=
  Machine.Reach (fun emu op => (ostObserve cb emu op).2) (fun _ _ => True) OstStart

/-! ## Sections -/

/-- A section of the memory or of another device. -/
def OstDeviceSection := { s : OstSection // s.tag ≠ ostTagCpu ∧ s.tag ≠ ostTagVia }

def ostCpuSection (cpu : Cpu6502) : OstSection :=
  ⟨ostTagCpu, savestateSaveCpu cpu, by
    simp [savestateSaveCpu, writeU8, writeU16le, writeU64le, writeBool]⟩

def ostViaSection (via : ViaSys σ) : OstSection :=
  ⟨ostTagVia, savestateSaveVia via, by
    simp [savestateSaveVia, writeU8, writeU16le, writeU32le, writeBool]⟩

/-- The sections `savestate_save` writes, `mem` being the memory's. -/
def savestateSections (mem : OstDeviceSection) (others : List OstDeviceSection)
    (emu : OstMachine σ) : List OstSection :=
  ostCpuSection emu.cpu :: mem.val :: ostViaSection emu.via :: others.map Subtype.val

/-- The loader of a device section: it changes the memory and the devices. -/
abbrev OstLoadDevice (σ : Type) :=
  OstTag → Nat → List Byte → (Word → Byte) × σ → (Word → Byte) × σ

/-- The body of the loop of `savestate_load`. -/
def savestateLoadSection (loadDevice : OstLoadDevice σ) (tag : OstTag) (size : Nat)
    (bytes : List Byte) (emu : OstMachine σ) : OstMachine σ :=
  if tag = ostTagCpu then { emu with cpu := (savestateLoadCpu emu.cpu size bytes).1 }
  else if tag = ostTagVia then { emu with via := (savestateLoadVia emu.via size bytes).1 }
  else
    let (memory, user) := loadDevice tag size bytes (emu.cpu.memory, emu.via.user)
    { cpu := { emu.cpu with memory := memory }, via := { emu.via with user := user } }

/-- `target` after loading the sections of `saved`. -/
def savestateRestored (loadDevice : OstLoadDevice σ) (mem : OstDeviceSection)
    (others : List OstDeviceSection) (saved target : OstMachine σ) : OstMachine σ :=
  loadEach (savestateLoadSection loadDevice) (savestateSections mem others saved) target

/-- The same CPU and VIA, beside the memory and what the callbacks look at. -/
def OstSameCore (emu emu' : OstMachine σ) : Prop :=
  ∃ memory user, emu' =
    { cpu := { emu.cpu with memory := memory }, via := { emu.via with user := user } }

theorem savestateLoadSection_device (loadDevice : OstLoadDevice σ) (s : OstDeviceSection)
    (bytes : List Byte) (emu : OstMachine σ) :
    OstSameCore emu (savestateLoadSection loadDevice s.val.tag s.val.data.length bytes emu) := by
  unfold savestateLoadSection
  rw [if_neg s.property.1, if_neg s.property.2]
  exact ⟨_, _, rfl⟩

theorem OstSameCore.trans {e₁ e₂ e₃ : OstMachine σ} (h : OstSameCore e₁ e₂)
    (h' : OstSameCore e₂ e₃) : OstSameCore e₁ e₃ := by
  obtain ⟨_, _, rfl⟩ := h
  obtain ⟨_, _, rfl⟩ := h'
  exact ⟨_, _, rfl⟩

theorem loadEach_devices (loadDevice : OstLoadDevice σ) (others : List OstDeviceSection)
    (emu : OstMachine σ) : OstSameCore emu
      (loadEach (savestateLoadSection loadDevice) (others.map Subtype.val) emu) := by
  induction others generalizing emu with
  | nil => exact ⟨_, _, rfl⟩
  | cons s others ih => exact (savestateLoadSection_device loadDevice s _ emu).trans (ih _)

theorem savestateLoadSection_cpu (loadDevice : OstLoadDevice σ) (saved : Cpu6502)
    (rest : List Byte) (emu : OstMachine σ) :
    savestateLoadSection loadDevice ostTagCpu (ostCpuSection saved).data.length
      ((ostCpuSection saved).data ++ rest) emu = { emu with cpu := ostCpu saved emu.cpu } := by
  rw [savestateLoadSection, if_pos rfl]
  exact congrArg (fun cpu => { emu with cpu := cpu }) (savestateLoadCpu_save saved emu.cpu rest)

theorem savestateLoadSection_via (loadDevice : OstLoadDevice σ) (saved : ViaSys σ)
    (rest : List Byte) (emu : OstMachine σ) :
    savestateLoadSection loadDevice ostTagVia (ostViaSection saved).data.length
      ((ostViaSection saved).data ++ rest) emu = { emu with via := ostVia saved emu.via } := by
  have hne : ostTagVia ≠ ostTagCpu := by decide
  rw [savestateLoadSection, if_neg hne, if_pos rfl]
  exact congrArg (fun via => { emu with via := via }) (savestateLoadVia_save saved emu.via rest)

/-- The sections bring back what is saved of the CPU and the VIA. -/
theorem savestateRestored_core (loadDevice : OstLoadDevice σ) (mem : OstDeviceSection)
    (others : List OstDeviceSection) (saved target : OstMachine σ) :
    OstSameCore ⟨ostCpu saved.cpu target.cpu, ostVia saved.via target.via⟩
      (savestateRestored loadDevice mem others saved target) := by
  refine OstSameCore.trans ?_ (loadEach_devices loadDevice others _)
  rw [show (ostCpuSection saved.cpu).tag = ostTagCpu from rfl, savestateLoadSection_cpu]
  rw [show (ostViaSection saved.via).tag = ostTagVia from rfl, savestateLoadSection_via]
  obtain ⟨memory, user, hmem⟩ := savestateLoadSection_device loadDevice mem
    (mem.val.data ++ ((ostViaSection saved.via).bytes ++
      (others.map Subtype.val).flatMap OstSection.bytes))
    { target with cpu := ostCpu saved.cpu target.cpu }
  refine ⟨memory, user, ?_⟩
  rw [List.flatMap_cons, hmem]
  rfl

/-! ## Going on -/

/-- The fields neither section has. -/
structure OstUnsaved (saved target : OstMachine σ) : Prop where
  halted : target.cpu.halted = saved.cpu.halted
  nmiPending : target.cpu.nmiPending = saved.cpu.nmiPending
  irqPulse : target.cpu.irqPulse = saved.cpu.irqPulse
  cb2Pin : target.via.cb2Pin = saved.via.cb2Pin
  cb2In : target.via.cb2In = saved.via.cb2In
  ca2Pin : target.via.ca2Pin = saved.via.ca2Pin
  ca2Pulse : target.via.ca2Pulse = saved.via.ca2Pulse
  cb2Pulse : target.via.cb2Pulse = saved.via.cb2Pulse
  paLatch : target.via.paLatch = saved.via.paLatch
  pbLatch : target.via.pbLatch = saved.via.pbLatch
  paLatched : target.via.paLatched = saved.via.paLatched
  pbLatched : target.via.pbLatched = saved.via.pbLatched

/-- CPUs alike, and VIAs that the same stepwise VIA simulates, both about to log from scratch. -/
structure OstAlike (emu emu' : OstMachine σ) : Prop where
  cpu : CpuAlike { emu.cpu with events := [] } { emu'.cpu with events := [] }
  via : ∃ s, LazySim { emu.via with irqCalls := [] } s ∧ LazySim { emu'.via with irqCalls := [] } s

theorem irqCallback_alike {a b : Cpu6502}
    (h : CpuAlike { a with events := [] } { b with events := [] })
    (calls : List Bool) :
    CpuAlike { calls.foldl irqCallback a with events := [] }
      { calls.foldl irqCallback b with events := [] } := by
  induction calls generalizing a b with
  | nil => exact h
  | cons state calls ih =>
    have hstep := cpuOp_alike h (if state then .irqSet irqfVia else .irqClear irqfVia)
    refine ih ?_
    cases state <;> exact hstep

/-- VIAs that the same stepwise VIA simulates answer alike. -/
theorem viaObserve_alike {l l' s : ViaSys σ} (h : LazySim { l with irqCalls := [] } s)
    (h' : LazySim { l' with irqCalls := [] } s) (op : ViaOp) :
    (viaObserve cb (viaTick cb) l op).1 = (viaObserve cb (viaTick cb) l' op).1 ∧
      ∃ s, LazySim (viaObserve cb (viaTick cb) l op).2 s ∧
        LazySim (viaObserve cb (viaTick cb) l' op).2 s := by
  obtain ⟨hout, hcalls, hsim⟩ := lazySim_viaApply cb h op
  obtain ⟨hout', hcalls', hsim'⟩ := lazySim_viaApply cb h' op
  exact ⟨Prod.ext (hout.trans hout'.symm) (hcalls.trans hcalls'.symm), _, hsim, hsim'⟩

theorem LazySim.devices {l s : ViaSys σ} (h : LazySim l s) (user : σ) :
    LazySim { l with user := user } { s with user := user } := by
  refine ⟨h.inv, ?_⟩
  have hsync := h.sync
  rw [viaSync_eq, viaSync_eq] at hsync ⊢
  exact congrArg (fun via : ViaSys σ => { via with user := user }) hsync

/-- The step lemma. -/
theorem ostObserve_alike {emu emu' : OstMachine σ} (h : OstAlike emu emu') (op : OstOp σ) :
    (ostObserve cb emu op).1 = (ostObserve cb emu' op).1 ∧
      OstAlike (ostObserve cb emu op).2 (ostObserve cb emu' op).2 := by
  obtain ⟨hcpu, s, hl, hl'⟩ := h
  cases op with
  | cpu op =>
    obtain ⟨hanswer, hnext⟩ := cpuObserve_alike hcpu op
    exact ⟨congrArg OstAnswer.cpu hanswer, hnext.seen, s, hl, hl'⟩
  | via op =>
    obtain ⟨hanswer, s', hs, hs'⟩ := viaObserve_alike cb hl hl' op
    have hcalls := irqCallback_alike hcpu (viaObserve cb (viaTick cb) emu.via op).1.2
    have hvia := congrArg (fun r : ViaOut × List Bool => OstAnswer.via r.1 r.2) hanswer
    refine ⟨hvia, ?_, _, hs.clearCalls, hs'.clearCalls⟩
    show CpuAlike _ { (viaObserve cb (viaTick cb) emu'.via op).1.2.foldl irqCallback emu'.cpu with
      events := [] }
    rw [← hanswer]
    exact hcalls
  | devices user => exact ⟨rfl, hcpu, _, hl.devices user, hl'.devices user⟩

theorem lazyInv_of_ostReachable {emu : OstMachine σ} (h : OstReachable cb emu) :
    LazyInv emu.via := by
  have hinit : ∀ emu : OstMachine σ, OstStart emu → LazyInv emu.via := by
    rintro _ ⟨memory, user, rfl⟩
    exact lazyInv_of_settled rfl
  have hstep : ∀ (emu : OstMachine σ) (op : OstOp σ), LazyInv emu.via → True →
      LazyInv (ostObserve cb emu op).2.via := by
    intro emu op hinv _
    cases op with
    | cpu op => exact hinv
    | via op =>
      have hsim : LazySim { emu.via with irqCalls := [] } { emu.via with irqCalls := [] } :=
        ⟨hinv, rfl⟩
      exact (lazySim_viaApply cb hsim op).2.2.inv
    | devices user => exact hinv
  exact h.invariant hinit hstep

/-- The VIA restored is the one saved with its skipped cycles applied. -/
theorem ostVia_sim {saved target : OstMachine σ} (hinv : LazyInv saved.via)
    (hunsaved : OstUnsaved saved target) :
    ∃ s, LazySim { saved.via with irqCalls := [] } s ∧
      LazySim { ostVia saved.via target.via with user := saved.via.user, irqCalls := [] } s := by
  have hvia : { ostVia saved.via target.via with user := saved.via.user, irqCalls := [] } =
      { viaSync saved.via with irqCalls := [] } := by
    rw [ostVia, viaSync_eq, hunsaved.cb2Pin, hunsaved.cb2In, hunsaved.ca2Pin, hunsaved.ca2Pulse,
      hunsaved.cb2Pulse, hunsaved.paLatch, hunsaved.pbLatch, hunsaved.paLatched,
      hunsaved.pbLatched]
    rfl
  rw [hvia, ← viaSync_clearCalls]
  refine ⟨viaSync { saved.via with irqCalls := [] }, ⟨hinv, (viaSync_viaSync _).symm⟩, ?_, rfl⟩
  exact lazyInv_of_settled (deferred_viaSync _)

/-- The CPU restored differs from the one saved in the micro-sequencer only. -/
theorem ostCpu_idle {saved target : OstMachine σ} (hboundary : saved.cpu.ms.active = false)
    (hunsaved : OstUnsaved saved target) :
    CpuIdle { saved.cpu with events := [] }
      { ostCpu saved.cpu target.cpu with memory := saved.cpu.memory, events := [] } := by
  have hcpu : { ostCpu saved.cpu target.cpu with memory := saved.cpu.memory, events := [] } =
      { saved.cpu with
        irqTraceFp := target.cpu.irqTraceFp, irqTraceCount := target.cpu.irqTraceCount
        cycles := saved.cpu.cycles % 2 ^ 64, ms := (ostCpu saved.cpu target.cpu).ms
        events := [] } := by
    simp only [ostCpu, hunsaved.halted, hunsaved.nmiPending, hunsaved.irqPulse]
  exact ⟨⟨_, _, _, _, hcpu, Nat.mod_modEq _ _⟩, ⟨hboundary, rfl⟩, rfl, rfl⟩

theorem savestateRestored_alike {saved target restored : OstMachine σ} (hinv : LazyInv saved.via)
    (hboundary : saved.cpu.ms.active = false) (hunsaved : OstUnsaved saved target)
    (hcore : OstSameCore ⟨ostCpu saved.cpu target.cpu, ostVia saved.via target.via⟩ restored)
    (hmemory : restored.cpu.memory = saved.cpu.memory)
    (huser : restored.via.user = saved.via.user) : OstAlike saved restored := by
  have hcpu := ostCpu_idle hboundary hunsaved
  have hvia := ostVia_sim hinv hunsaved
  obtain ⟨memory, user, rfl⟩ := hcore
  obtain rfl : memory = saved.cpu.memory := hmemory
  obtain rfl : user = saved.via.user := huser
  exact ⟨.between hcpu, hvia⟩

/-- Saving and loading succeed, and the machine restored answers every sequence of operations as
the one saved. -/
theorem savestate_resumes {saved target : OstMachine σ} (hsaved : OstReachable cb saved)
    (hboundary : saved.cpu.ms.active = false) (hunsaved : OstUnsaved saved target)
    (emuVersion : Vector Byte 32) (loadDevice : OstLoadDevice σ) (mem : OstDeviceSection)
    (others : List OstDeviceSection)
    (hmemory : (savestateRestored loadDevice mem others saved target).cpu.memory =
      saved.cpu.memory)
    (huser : (savestateRestored loadDevice mem others saved target).via.user = saved.via.user)
    (ops : List (OstOp σ)) :
    savestateLoad (savestateLoadSection loadDevice)
        (savestateSave emuVersion (savestateSections mem others saved)) target =
      some (savestateRestored loadDevice mem others saved target) ∧
    ostAnswers cb ops (savestateRestored loadDevice mem others saved target) =
      ostAnswers cb ops saved := by
  have hcore := savestateRestored_core loadDevice mem others saved target
  have halike := savestateRestored_alike (lazyInv_of_ostReachable cb hsaved) hboundary hunsaved
    hcore hmemory huser
  have hrun := Machine.runOut_simulation (R := OstAlike)
    (fun a b op h => ostObserve_alike cb h op) ops _ _ halike
  exact ⟨savestateLoad_save _ _ _ _, hrun.1.symm⟩

/-- A memory of NOPs. -/
def ostSampleStart : OstMachine Unit :=
  ⟨cpuInit fun _ => 0xEA#8, { viaInit with user := (), irqCalls := [] }⟩

def ostSampleCallbacks : ViaCallbacks Unit := ⟨none, none, none, none, none⟩

/-- A memory section that brings nothing: the samples have the same memory. -/
def ostSampleMem : OstDeviceSection := ⟨⟨ostTagMem, [], ostEmpty_fits⟩, by decide⟩

/-- A machine after the operations. -/
def ostSampleRun (ops : List (OstOp Unit)) : OstMachine Unit :=
  ops.foldl (fun emu op => (ostObserve ostSampleCallbacks emu op).2) ostSampleStart

theorem ostSampleRun_reachable (ops : List (OstOp Unit)) :
    OstReachable ostSampleCallbacks (ostSampleRun ops) :=
  .run ops (.init ⟨_, _, rfl⟩) fun _ _ _ _ => trivial

/-- One instruction, and a timer started whose first cycles are skipped. -/
def ostSampleOps : List (OstOp Unit) :=
  [.via (.write 0x0E 0xC0), .via (.write 0x04 0x03), .via (.write 0x05 0x00), .via .tick,
    .via .tick, .cpu .cycle, .cpu .cycle]

theorem savestate_resumes_timer :
    savestateLoad (savestateLoadSection fun _ _ _ d => d) (savestateSave (.replicate 32 0)
        (savestateSections ostSampleMem [] (ostSampleRun ostSampleOps))) ostSampleStart =
      some (savestateRestored (fun _ _ _ d => d) ostSampleMem [] (ostSampleRun ostSampleOps)
        ostSampleStart) ∧
    ostAnswers ostSampleCallbacks [.via .tick, .via .tick, .via .tick, .cpu .cycle]
        (savestateRestored (fun _ _ _ d => d) ostSampleMem [] (ostSampleRun ostSampleOps)
          ostSampleStart) =
      ostAnswers ostSampleCallbacks [.via .tick, .via .tick, .via .tick, .cpu .cycle]
        (ostSampleRun ostSampleOps) :=
  savestate_resumes ostSampleCallbacks (ostSampleRun_reachable _) (by decide)
    ⟨by decide, by decide, by decide, by decide,
      by decide, by decide, by decide, by decide,
      by decide, by decide, by decide, by decide⟩ _ _ _ _ rfl rfl _

/-- What is done to the machine saved and to the one loaded into, and then to either. -/
structure OstSample where
  saved : List (OstOp Unit)
  target : List (OstOp Unit)
  ops : List (OstOp Unit)

/-- A machine saved inside an instruction; with an NMI pending; with an IRQ pulse pending (the
memory is of CLIs); halted (of JAMs); and with CA2 raised in a handshake. -/
def ostSampleLost : List OstSample :=
  [ ⟨[.cpu .cycle], [], [.cpu .cycle]⟩,
    ⟨[.cpu .nmi], [], .replicate 4 (.cpu .cycle)⟩,
    ⟨[.cpu (.setMemory fun _ => 0x58), .cpu .irqPulse], [.cpu (.setMemory fun _ => 0x58)],
      .replicate 8 (.cpu .cycle)⟩,
    ⟨[.cpu (.setMemory fun _ => 0x02), .cpu .cycle, .cpu .cycle],
      [.cpu (.setMemory fun _ => 0x02)], [.cpu .cycle]⟩,
    ⟨[.via (.write 0x0C 0x08), .via (.setCa1 false)], [], [.via .getCa2]⟩ ]

/-- None of these goes on like the machine saved. -/
theorem savestate_resumes_lost : ostSampleLost.Forall fun c =>
    OstReachable ostSampleCallbacks (ostSampleRun c.saved) ∧
    OstReachable ostSampleCallbacks (ostSampleRun c.target) ∧
    (savestateRestored (fun _ _ _ d => d) ostSampleMem [] (ostSampleRun c.saved)
      (ostSampleRun c.target)).cpu.memory = (ostSampleRun c.saved).cpu.memory ∧
    ostAnswers ostSampleCallbacks c.ops (savestateRestored (fun _ _ _ d => d) ostSampleMem []
      (ostSampleRun c.saved) (ostSampleRun c.target)) ≠
    ostAnswers ostSampleCallbacks c.ops (ostSampleRun c.saved) := by
  rw [List.forall_iff_forall_mem]
  intro c hc
  refine ⟨ostSampleRun_reachable _, ostSampleRun_reachable _, ?_, ?_⟩
  · simp only [ostSampleLost, List.mem_cons, List.not_mem_nil, or_false] at hc
    rcases hc with rfl | rfl | rfl | rfl | rfl <;> rfl
  · revert c
    decide +kernel

end Phosphoric
