import Phosphoric.Cpu.Legacy
import Phosphoric.Debugger.Breakpoints
import Phosphoric.Lib.Machine

/-!
# Looking at a machine

What reads memory on behalf of the user: the trace (`src/utils/trace.c`), the profiler
(`src/utils/profiler.c`), the disassembler (`src/cpu/cpu6502.c`), breakpoint conditions and the
dumps of the debugger, the control API and the GDB stub.

The dumps and the conditions peek. The trace, the profiler and the disassembler use the CPU's
`memory_read`: the byte stays on the bus, the watch hooks are told of it, and a device in the I/O
page is read.

**Theorem (`observed_run`).** A run with observations goes through the states of the run without
them, as long as each is quiet: what it reads with `memory_read` is the byte already on the bus and
no hook is told of it, and what it reads or peeks in the I/O page, or of an external LOCI, has no
effect.
-/

namespace Phosphoric

variable {ρ : Type} (bus : List (IoDevice (MemorySys (ViaSys ρ)))) (cb : ViaCallbacks ρ)
  (io : MemoryIo (ViaSys ρ)) (loci : LociEmu (ViaSys ρ))

/-! ## Observers -/

/-- A read of the emulator's memory by the CPU's own path. -/
def emuRead (address : Word) (emu : DebugTarget (ViaSys ρ)) : Byte × DebugTarget (ViaSys ρ) :=
  let (val, memory) := memoryRead (emulatorIo bus cb io) loci address emu.memory
  (val, { emu with memory := memory })

/-- A peek at the emulator's memory. -/
def emuPeek (address : Word) (emu : DebugTarget (ViaSys ρ)) : Byte × DebugTarget (ViaSys ρ) :=
  let (val, memory) := memoryPeek (emulatorIo bus cb io) loci address emu.memory
  (val, { emu with memory := memory })

/-- `gdb_peek` and `dbg_peek`: below `$C000` the RAM itself. -/
def gdbPeek (address : Word) (emu : DebugTarget (ViaSys ρ)) : Byte × DebugTarget (ViaSys ρ) :=
  if address < 0xC000#16 then (emu.memory.ram (ramIndex address), emu)
  else emuPeek bus cb io loci address emu

/-- A disassembled instruction, its operand bytes being those of the target for a branch. -/
structure Disassembly where
  info : OpcodeInfo
  lo : Byte
  hi : Byte

/-- `cpu_disassemble`. -/
def cpuDisassemble (address : Word) (emu : DebugTarget (ViaSys ρ)) :
    Disassembly × DebugTarget (ViaSys ρ) :=
  let (opcode, emu) := emuRead bus cb io loci address emu
  let info := opcodeTable opcode
  let (lo, emu) :=
    if 2 ≤ info.size then emuRead bus cb io loci (address + 1#16) emu else (0#8, emu)
  let (hi, emu) :=
    if 3 ≤ info.size then emuRead bus cb io loci (address + 2#16) emu else (0#8, emu)
  if info.mode = .relative then
    let target := address + 2#16 + lo.signExtend 16
    ({ info := info, lo := Word.lo target, hi := Word.hi target }, emu)
  else ({ info := info, lo := lo, hi := hi }, emu)

/-- The loop of `ctl_cmd_disasm` and `repl_disasm_file`. -/
def disassembleRange : Nat → Word → DebugTarget (ViaSys ρ) →
    List Disassembly × DebugTarget (ViaSys ρ)
  | 0, _, emu => ([], emu)
  | n + 1, address, emu =>
    let (d, emu) := cpuDisassemble bus cb io loci address emu
    let (ds, emu) := disassembleRange n (address + .ofNat 16 d.info.size) emu
    (d :: ds, emu)

/-- What a trace line is made of. -/
structure TraceLine where
  pc : Word
  bytes : Byte × Byte × Byte
  disasm : Disassembly
  cpu : CpuRegs

/-- `trace_format_line`. -/
def traceFormatLine (emu : DebugTarget (ViaSys ρ)) : TraceLine × DebugTarget (ViaSys ρ) :=
  let pc := emu.pc
  let (b0, emu) := emuRead bus cb io loci pc emu
  let (b1, emu) := emuRead bus cb io loci (pc + 1#16) emu
  let (b2, emu) := emuRead bus cb io loci (pc + 2#16) emu
  let (disasm, emu) := cpuDisassemble bus cb io loci pc emu
  ({ pc := pc, bytes := (b0, b1, b2), disasm := disasm, cpu := emu.cpu }, emu)

/-- `trace_log_instruction` while it records: with a stop on BRK, whether the trace stops. -/
def traceLogInstruction (stopBrk : Bool) (emu : DebugTarget (ViaSys ρ)) :
    (TraceLine × Bool) × DebugTarget (ViaSys ρ) :=
  let (line, emu) := traceFormatLine bus cb io loci emu
  if stopBrk then
    let (opcode, emu) := emuRead bus cb io loci emu.pc emu
    ((line, opcode == 0#8), emu)
  else ((line, false), emu)

/-- `profiler_record_instruction` while it is active: the address and opcode counted. -/
def profilerRecordInstruction (emu : DebugTarget (ViaSys ρ)) :
    (Word × Byte) × DebugTarget (ViaSys ρ) :=
  let (opcode, emu') := emuRead bus cb io loci emu.pc emu
  ((emu.pc, opcode), emu')

/-- A dump of `len` bytes, looked at one by one. -/
def dumpRange (look : Word → DebugTarget (ViaSys ρ) → Byte × DebugTarget (ViaSys ρ)) :
    Nat → Word → DebugTarget (ViaSys ρ) → List Byte × DebugTarget (ViaSys ρ)
  | 0, _, emu => ([], emu)
  | n + 1, address, emu =>
    let (b, emu) := look address emu
    let (bs, emu) := dumpRange look n (address + 1#16) emu
    (b :: bs, emu)

inductive Observation
  | trace (stopBrk : Bool)
  | profile
  | disassemble (address : Word) (n : Nat)
  | condition (cond : BpCondexpr)
  | dump (address : Word) (len : Nat)
  | gdb (address : Word) (len : Nat)

/-- The machine after an observation. -/
def observe (emu : DebugTarget (ViaSys ρ)) : Observation → DebugTarget (ViaSys ρ)
  | .trace stopBrk => (traceLogInstruction bus cb io loci stopBrk emu).2
  | .profile => (profilerRecordInstruction bus cb io loci emu).2
  | .disassemble address n => (disassembleRange bus cb io loci n address emu).2
  | .condition cond => (evalCondexpr (emulatorIo bus cb io) loci cond emu).2
  | .dump address len => (dumpRange (emuPeek bus cb io loci) len address emu).2
  | .gdb address len => (dumpRange (gdbPeek bus cb io loci) len address emu).2

/-! ## Quiet accesses -/

/-- The read of the device that answers in the I/O page has no effect, and gives the byte on the
bus. -/
def DeviceQuiet (address : Word) (sys : MemorySys (ViaSys ρ)) : Prop :=
  match ioBusFind bus address sys with
  | some dev => dev.read address sys = (sys.lastBusValue, sys)
  | none => ioViaRead cb address sys = (sys.lastBusValue, sys)

/-- The device that answers in the I/O page can be looked at without effect. -/
def DevicePeeks (address : Word) (sys : MemorySys (ViaSys ρ)) : Prop :=
  match ioBusFind bus address sys with
  | some dev => dev.peek.isSome ∨ (dev.read address sys).2 = sys
  | none => (ioViaRead cb address sys).2 = sys

/-- No external LOCI notices an access. -/
def LociQuiet (address : Word) (sys : MemorySys (ViaSys ρ)) : Prop :=
  address < 0xC000#16 ∨ loci.active sys.devices = false ∨
    (loci.romRead address sys.devices).2 = sys.devices

/-- No watch hook is told of an access. -/
def HooksSilent (sys : MemorySys (ViaSys ρ)) : Prop :=
  (sys.traceEnabled && io.traceCallback) = false ∧ io.traceCallback2 = false

/-- A peek without effect. -/
def PeekQuiet (address : Word) (sys : MemorySys (ViaSys ρ)) : Prop :=
  if ioPage address then DevicePeeks bus cb address sys else LociQuiet loci address sys

/-- A read without effect: no hook is told of it and the byte is on the bus already. -/
def ReadQuiet (address : Word) (sys : MemorySys (ViaSys ρ)) : Prop :=
  HooksSilent io sys ∧
    if ioPage address then DeviceQuiet bus cb address sys
    else LociQuiet loci address sys ∧ (memoryPeekMem loci address sys).1 = sys.lastBusValue

theorem memNotify_quiet {sys : MemorySys (ViaSys ρ)} (h : HooksSilent io sys) (address : Word) :
    memNotify io address sys.lastBusValue .read sys = sys := by
  simp only [memNotify, if_true, h.1, h.2, Bool.false_eq_true, if_false]

theorem memoryPeekMem_quiet {address : Word} {sys : MemorySys (ViaSys ρ)}
    (h : LociQuiet loci address sys) : (memoryPeekMem loci address sys).2 = sys := by
  have hloci : ¬address < 0xC000#16 → loci.active sys.devices = true →
      { sys with devices := (loci.romRead address sys.devices).2 } = sys := by
    intro hrom hactive
    rcases h with hram | hnone | hquiet
    · exact absurd hram hrom
    · rw [hactive] at hnone
      cases hnone
    · rw [hquiet]
  rw [memoryPeekMem]
  by_cases hram : address < 0xC000#16
  · rw [if_pos hram]
  · rw [if_neg hram]
    cases hactive : loci.active sys.devices with
    | true =>
      have hsame := hloci hram hactive
      simp only [if_true]
      split_ifs <;> first | exact hsame | (split <;> exact hsame)
    | false =>
      simp only [Bool.false_eq_true, if_false, Option.isSome_none]
      split_ifs <;> first | rfl | (split <;> rfl)

/-- A read past the I/O page is a peek that is told of. -/
theorem memoryReadMem_eq_serve (io : MemoryIo (ViaSys ρ)) (address : Word)
    (sys : MemorySys (ViaSys ρ)) :
    memoryReadMem io loci address sys =
      memServe io address (memoryPeekMem loci address sys).1
        (memoryPeekMem loci address sys).2 := by
  rw [memoryReadMem, memoryPeekMem]
  by_cases hram : address < 0xC000#16
  · rw [if_pos hram, if_pos hram]
  · rw [if_neg hram, if_neg hram]
    cases hactive : loci.active sys.devices with
    | true =>
      simp only [if_true]
      split_ifs <;> first | rfl | (split <;> rfl)
    | false =>
      simp only [Bool.false_eq_true, if_false, Option.isSome_none]
      split_ifs <;> first | rfl | (split <;> rfl)

theorem emuRead_quiet {address : Word} {emu : DebugTarget (ViaSys ρ)}
    (h : ReadQuiet bus cb io loci address emu.memory) :
    emuRead bus cb io loci address emu = (emu.memory.lastBusValue, emu) := by
  obtain ⟨hsilent, hquiet⟩ := h
  have hread : memoryRead (emulatorIo bus cb io) loci address emu.memory =
      (emu.memory.lastBusValue, emu.memory) := by
    by_cases hpage : ioPage address
    · rw [if_pos hpage] at hquiet
      have hdevice : ioReadCallback bus cb address emu.memory =
          (emu.memory.lastBusValue, emu.memory) := by
        rw [DeviceQuiet] at hquiet
        rw [ioReadCallback]
        split <;> simp_all
      have hpage' : decide (ioPage address) = true := decide_eq_true hpage
      simp only [memoryRead, emulatorIo, hpage', hdevice, memServe]
      exact congrArg _ (memNotify_quiet _ hsilent address)
    · rw [if_neg hpage] at hquiet
      rw [memoryRead_outside _ _ hpage, memoryReadMem_eq_serve,
        memoryPeekMem_quiet loci hquiet.1, hquiet.2, memServe]
      exact congrArg _ (memNotify_quiet _ hsilent address)
  rw [emuRead, hread]

theorem memoryPeek_quiet {address : Word} {sys : MemorySys (ViaSys ρ)}
    (h : PeekQuiet bus cb loci address sys) :
    (memoryPeek (emulatorIo bus cb io) loci address sys).2 = sys := by
  rw [PeekQuiet] at h
  by_cases hpage : ioPage address
  · rw [if_pos hpage] at h
    rw [memoryPeek_inside bus cb io loci hpage]
    rw [DevicePeeks] at h
    cases hfind : ioBusFind bus address sys with
    | none => simpa [hfind] using h
    | some dev =>
      simp only [hfind] at h
      rcases h with hpeek | hread
      · simp [hpeek]
      · simp only
        split_ifs
        · rfl
        · exact hread
  · rw [if_neg hpage] at h
    rw [memoryPeek, if_neg hpage]
    exact memoryPeekMem_quiet loci h

theorem emuPeek_quiet {address : Word} {emu : DebugTarget (ViaSys ρ)}
    (h : PeekQuiet bus cb loci address emu.memory) :
    (emuPeek bus cb io loci address emu).2 = emu := by
  simp only [emuPeek, memoryPeek_quiet bus cb io loci h]

/-! ## Quiet observations -/

/-- The instruction at the address is disassembled without effect: its opcode is the byte on the
bus. -/
def DisasmQuiet (address : Word) (emu : DebugTarget (ViaSys ρ)) : Prop :=
  let size := (opcodeTable emu.memory.lastBusValue).size
  ReadQuiet bus cb io loci address emu.memory ∧
    (2 ≤ size → ReadQuiet bus cb io loci (address + 1#16) emu.memory) ∧
    (3 ≤ size → ReadQuiet bus cb io loci (address + 2#16) emu.memory)

/-- So many instructions from an address on are disassembled without effect. -/
def DisasmRangeQuiet : Nat → Word → DebugTarget (ViaSys ρ) → Prop
  | 0, _, _ => True
  | n + 1, address, emu =>
    DisasmQuiet bus cb io loci address emu ∧
      DisasmRangeQuiet n (address + .ofNat 16 (opcodeTable emu.memory.lastBusValue).size) emu

/-- The observations without effect. -/
def Observation.Quiet (emu : DebugTarget (ViaSys ρ)) : Observation → Prop
  | .trace _ => ReadQuiet bus cb io loci emu.pc emu.memory ∧
      ReadQuiet bus cb io loci (emu.pc + 1#16) emu.memory ∧
      ReadQuiet bus cb io loci (emu.pc + 2#16) emu.memory
  | .profile => ReadQuiet bus cb io loci emu.pc emu.memory
  | .disassemble address n => DisasmRangeQuiet bus cb io loci n address emu
  | .condition cond => ∀ term ∈ cond.first :: cond.rest.map Prod.snd, term.operand = .mem →
      PeekQuiet bus cb loci term.memAddr emu.memory
  | .dump address len => ∀ i < len, PeekQuiet bus cb loci (address + .ofNat 16 i) emu.memory
  | .gdb address len => ∀ i < len, 0xC000#16 ≤ address + .ofNat 16 i →
      PeekQuiet bus cb loci (address + .ofNat 16 i) emu.memory

theorem cpuDisassemble_quiet {address : Word} {emu : DebugTarget (ViaSys ρ)}
    (h : DisasmQuiet bus cb io loci address emu) :
    (cpuDisassemble bus cb io loci address emu).1.info = opcodeTable emu.memory.lastBusValue ∧
      (cpuDisassemble bus cb io loci address emu).2 = emu := by
  obtain ⟨hopcode, hlo, hhi⟩ := h
  have hread := emuRead_quiet bus cb io loci hopcode
  have hlo' : (if 2 ≤ (opcodeTable emu.memory.lastBusValue).size then
      emuRead bus cb io loci (address + 1#16) emu else (0#8, emu)).2 = emu := by
    split_ifs with hsize
    · rw [emuRead_quiet bus cb io loci (hlo hsize)]
    · rfl
  have hhi' : (if 3 ≤ (opcodeTable emu.memory.lastBusValue).size then
      emuRead bus cb io loci (address + 2#16) emu else (0#8, emu)).2 = emu := by
    split_ifs with hsize
    · rw [emuRead_quiet bus cb io loci (hhi hsize)]
    · rfl
  simp only [cpuDisassemble, hread, hlo']
  by_cases hrel : (opcodeTable emu.memory.lastBusValue).mode = .relative
  · rw [if_pos hrel]
    exact ⟨rfl, hhi'⟩
  · rw [if_neg hrel]
    exact ⟨rfl, hhi'⟩

theorem disassembleRange_quiet (n : Nat) {address : Word} {emu : DebugTarget (ViaSys ρ)}
    (h : DisasmRangeQuiet bus cb io loci n address emu) :
    (disassembleRange bus cb io loci n address emu).2 = emu := by
  induction n generalizing address with
  | zero => rfl
  | succ n ih =>
    obtain ⟨hinfo, hemu⟩ := cpuDisassemble_quiet bus cb io loci h.1
    simp only [disassembleRange, hinfo, hemu]
    exact ih h.2

theorem traceLogInstruction_quiet {stopBrk : Bool} {emu : DebugTarget (ViaSys ρ)}
    (h : (Observation.trace stopBrk).Quiet bus cb io loci emu) :
    (traceLogInstruction bus cb io loci stopBrk emu).2 = emu := by
  obtain ⟨h0, h1, h2⟩ := h
  have hdisasm := (cpuDisassemble_quiet bus cb io loci ⟨h0, fun _ => h1, fun _ => h2⟩).2
  have hline : (traceFormatLine bus cb io loci emu).2 = emu := by
    simp only [traceFormatLine, emuRead_quiet bus cb io loci h0, emuRead_quiet bus cb io loci h1,
      emuRead_quiet bus cb io loci h2, hdisasm]
  simp only [traceLogInstruction, hline]
  split_ifs
  · rw [emuRead_quiet bus cb io loci h0]
  · rfl

theorem dumpRange_quiet {look : Word → DebugTarget (ViaSys ρ) → Byte × DebugTarget (ViaSys ρ)}
    (n : Nat) {address : Word} {emu : DebugTarget (ViaSys ρ)}
    (h : ∀ i < n, (look (address + .ofNat 16 i) emu).2 = emu) :
    (dumpRange look n address emu).2 = emu := by
  induction n generalizing address with
  | zero => rfl
  | succ n ih =>
    have hfirst : (look address emu).2 = emu := by simpa using h 0 (Nat.zero_lt_succ n)
    simp only [dumpRange, hfirst]
    apply ih
    intro i hi
    have hnext : address + 1#16 + .ofNat 16 i = address + .ofNat 16 (i + 1) := by
      rw [BitVec.add_assoc, Nat.add_comm i 1, BitVec.ofNat_add]
    rw [hnext]
    exact h (i + 1) (Nat.succ_lt_succ hi)

theorem evalCond_quiet {term : BpCondition} {emu : DebugTarget (ViaSys ρ)}
    (h : term.operand = .mem → PeekQuiet bus cb loci term.memAddr emu.memory) :
    (evalCond (emulatorIo bus cb io) loci term emu).2 = emu := by
  simp only [evalCond, evalOperand]
  cases hop : term.operand <;> try rfl
  simp only [memoryPeek_quiet bus cb io loci (h hop)]

theorem evalTerms_quiet (rest : List (BpConn × BpCondition)) {result : Bool}
    {emu : DebugTarget (ViaSys ρ)}
    (h : ∀ term ∈ rest.map Prod.snd, term.operand = .mem →
      PeekQuiet bus cb loci term.memAddr emu.memory) :
    (evalTerms (emulatorIo bus cb io) loci result rest emu).2 = emu := by
  induction rest generalizing result with
  | nil => rfl
  | cons head rest ih =>
    obtain ⟨conn, term⟩ := head
    have hterm := evalCond_quiet bus cb io loci (h term (by simp))
    simp only [evalTerms, hterm]
    exact ih fun term' hmem => h term' (.tail _ hmem)

/-- A quiet observation leaves the machine as it is. -/
theorem observe_quiet {emu : DebugTarget (ViaSys ρ)} {o : Observation}
    (h : o.Quiet bus cb io loci emu) : observe bus cb io loci emu o = emu := by
  cases o with
  | trace stopBrk => exact traceLogInstruction_quiet bus cb io loci h
  | profile => exact congrArg Prod.snd (emuRead_quiet bus cb io loci h)
  | disassemble address n => exact disassembleRange_quiet bus cb io loci n h
  | condition cond =>
    have hfirst := evalCond_quiet bus cb io loci (h cond.first (by simp))
    simp only [observe, evalCondexpr, hfirst]
    exact evalTerms_quiet bus cb io loci cond.rest fun term hmem => h term (.tail _ hmem)
  | dump address len =>
    exact dumpRange_quiet len fun i hi => emuPeek_quiet bus cb io loci (h i hi)
  | gdb address len =>
    apply dumpRange_quiet len
    intro i hi
    rw [gdbPeek]
    split_ifs with hram
    · rfl
    · exact emuPeek_quiet bus cb io loci (h i hi (BitVec.not_lt.mp hram))

/-! ## Runs -/

/-- A step of the machine, or an observation of it. -/
inductive Watched (Op : Type)
  | step (op : Op)
  | observe (o : Observation)

def Watched.isObservation {Op : Type} : Watched Op → Bool
  | .step _ => false
  | .observe _ => true

/-- Observations between the steps of a machine. -/
def watchedStep {Op : Type} (step : DebugTarget (ViaSys ρ) → Op → DebugTarget (ViaSys ρ))
    (emu : DebugTarget (ViaSys ρ)) : Watched Op → DebugTarget (ViaSys ρ)
  | .step op => step emu op
  | .observe o => observe bus cb io loci emu o

/-- The observations of a run are quiet. -/
def Watched.Quiet {Op : Type} (emu : DebugTarget (ViaSys ρ)) : Watched Op → Prop
  | .step _ => True
  | .observe o => o.Quiet bus cb io loci emu

/-- Whatever the machine's steps are, a run whose observations are quiet is in the states of the
run without them. -/
theorem observed_run {Op : Type} (step : DebugTarget (ViaSys ρ) → Op → DebugTarget (ViaSys ρ))
    (ops : List (Watched Op)) (emu : DebugTarget (ViaSys ρ))
    (hquiet : Machine.Throughout (watchedStep bus cb io loci step)
      (fun emu op => op.Quiet bus cb io loci emu) ops emu) :
    ops.foldl (watchedStep bus cb io loci step) emu =
      (ops.filter fun op => !op.isObservation).foldl (watchedStep bus cb io loci step) emu := by
  apply Machine.Throughout.erase ?_ ops hquiet
  intro emu op hop hok
  cases op with
  | step op => cases hop
  | observe o => exact observe_quiet bus cb io loci hok

/-- The machine whose timer 1 has run out, at an instruction in ROM. -/
def targetTimedOut : DebugTarget (ViaSys Unit) where
  cpu := { a := 0, x := 0, y := 0, sp := 0, p := 0 }
  pc := 0xE000
  memory := emulatorTimedOut

/-- A dump of RAM and a GDB dump of the I/O page, with nothing on the bus but the VIA. -/
theorem observed_run_dump :
    [Watched.observe (.dump 0x0400 2), .observe (.gdb 0x0300 2), .step ()].foldl
        (watchedStep [] emulatorViaCallbacks emulatorIoNone (lociEmuStub (ViaSys Unit))
          fun emu (_ : Unit) => { emu with pc := emu.pc + 1#16 })
        targetTimedOut =
      { targetTimedOut with pc := 0xE001 } := by
  have hquiet := observed_run [] emulatorViaCallbacks emulatorIoNone (lociEmuStub (ViaSys Unit))
    (fun emu (_ : Unit) => { emu with pc := emu.pc + 1#16 })
    [.observe (.dump 0x0400 2), .observe (.gdb 0x0300 2), .step ()] targetTimedOut
  refine (hquiet ⟨?_, ?_, trivial, trivial⟩).trans rfl
  · intro i hi
    have hpage : ¬ioPage (0x0400 + .ofNat 16 i) := by interval_cases i <;> decide
    rw [PeekQuiet, if_neg hpage]
    exact .inr (.inl rfl)
  · intro i hi hrom
    have hram : ¬(0xC000#16 ≤ 0x0300 + .ofNat 16 i) := by interval_cases i <;> decide
    exact absurd hrom hram

/-- A dump of `$0304` acknowledges the timer. -/
theorem observe_timedOut :
    ¬ ∀ o : Observation, observe [] emulatorViaCallbacks emulatorIoNone
      (lociEmuStub (ViaSys Unit)) targetTimedOut o = targetTimedOut := by
  intro hall
  have hsame := congrArg (fun emu => emu.memory.devices.ifr) (hall (.dump 0x0304 1))
  revert hsame
  decide

end Phosphoric
