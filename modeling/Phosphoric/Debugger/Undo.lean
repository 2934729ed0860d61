import Phosphoric.Cpu.Latches
import Phosphoric.Memory.Banking

/-!
# The undo ring of the debugger

`dbg_undo_push` copies the registers, the clock, the lines and the RAM into one of sixteen slots,
`dbg_undo_pop` copies the newest slot back. The micro-sequencer's samples of the lines and the
one-shot IRQs (`irq_pulse`) are in no slot: they stay as the last instruction left them.

**Theorem (`undo_returns`).** In every run with at most sixteen pushes open, a pop gives back
everything that was copied at the matching push. When what is not copied is the same again
(`Restorable`), all that can be seen of the machine from there on is the same as well.

The devices are left out: nothing answers in the I/O page and the LOCI is off.
-/

open Function (update)

namespace Phosphoric

/-! ## The machine -/

/-- `memory_bank_t`. -/
inductive MemoryBank
  | rom | ram
  deriving DecidableEq

/-- The CPU and the memory of `emulator_t`. The map the CPU works on is that of the memory. -/
structure UndoEmu where
  cpu : Cpu6502
  cyclesLeft : BitVec 32
  mem : Memory
  charsetBank : MemoryBank
  frameCycles : Int

/-- No callback is set. -/
def noDevices : MemoryIo Unit := ⟨none, none, none, false, false⟩

/-- The memory on its own. -/
def Memory.alone (mem : Memory) : MemorySys Unit :=
  { mem with devices := (), traced := [], traced2 := [] }

/-- What the CPU sees. -/
def memView (mem : Memory) : Word → Byte := fun address =>
  (memoryRead noDevices (lociEmuStub Unit) address mem.alone).1

/-- A bus access of the CPU. -/
def memAccess (mem : Memory) : CpuEvent → Memory
  | .read address _ => (memoryRead noDevices (lociEmuStub Unit) address mem.alone).2.toMemory
  | .write address value =>
    (memoryWrite noDevices (lociEmuStub Unit) address value mem.alone).toMemory
  | .tick _ => mem

/-- The CPU over its memory, before anything is seen of it. -/
def UndoEmu.mapped (emu : UndoEmu) : Cpu6502 :=
  { emu.cpu with memory := memView emu.mem, events := [] }

/-- A cycle, or a change of the lines. -/
def undoEmuOp (emu : UndoEmu) (op : CpuOp) : UndoEmu :=
  let cpu := cpuOp emu.mapped op
  { emu with cpu := cpu, mem := cpu.events.foldl memAccess emu.mem }

/-- What is seen of an operation: its accesses, and the machine it leaves. -/
structure UndoAnswer where
  answer : CpuAnswer
  regs : CpuRegs
  pc : Word
  cycles : BitVec 64
  halted : Bool
  view : Word → Byte

def undoObserve (emu : UndoEmu) (op : CpuOp) : UndoAnswer × UndoEmu :=
  let emu' := undoEmuOp emu op
  (⟨(cpuObserve emu.mapped op).1, emu'.cpu.toCpuRegs, emu'.cpu.pc,
    BitVec.ofNat 64 emu'.cpu.cycles, emu'.cpu.halted, memView emu'.mem⟩, emu')

/-! ## The ring -/

abbrev undoRingDepth : Nat := 16

/-- `undo_snapshot_t`. -/
structure UndoSnapshot where
  regs : CpuRegs
  pc : Word
  cycles : Nat
  cyclesLeft : BitVec 32
  halted : Bool
  nmiPending : Bool
  irq : Byte
  ram : Fin 0xC000 → Byte
  upperRam : Fin 0x4000 → Byte
  charsetBank : MemoryBank
  romEnabled : Bool
  overlayActive : Bool
  basicRomDisabled : Bool
  frameCycles : Int

/-- The ring, and the fields of `debugger_t` that go with it. -/
structure UndoRing where
  ring : Fin undoRingDepth → UndoSnapshot
  undoHead : Fin undoRingDepth
  undoCount : Nat
  lastRasterLine : Int

/-- What a slot takes of the machine. -/
def undoSnapshot (emu : UndoEmu) : UndoSnapshot where
  regs := emu.cpu.toCpuRegs
  pc := emu.cpu.pc
  cycles := emu.cpu.cycles
  cyclesLeft := emu.cyclesLeft
  halted := emu.cpu.halted
  nmiPending := emu.cpu.nmiPending
  irq := emu.cpu.irq
  ram := emu.mem.ram
  upperRam := emu.mem.upperRam
  charsetBank := emu.charsetBank
  romEnabled := emu.mem.romEnabled
  overlayActive := emu.mem.overlayActive
  basicRomDisabled := emu.mem.basicRomDisabled
  frameCycles := emu.frameCycles

def dbgUndoPush (dbg : UndoRing) (emu : UndoEmu) : UndoRing :=
  { dbg with
    ring := update dbg.ring dbg.undoHead (undoSnapshot emu)
    undoHead := dbg.undoHead + 1
    undoCount := if dbg.undoCount < undoRingDepth then dbg.undoCount + 1 else dbg.undoCount }

/-- A slot copied back. -/
def undoRestore (s : UndoSnapshot) (emu : UndoEmu) : UndoEmu where
  cpu := { emu.cpu with
    toCpuRegs := s.regs, pc := s.pc, cycles := s.cycles, halted := s.halted
    nmiPending := s.nmiPending, irq := s.irq }
  cyclesLeft := s.cyclesLeft
  mem := { emu.mem with
    ram := s.ram, upperRam := s.upperRam, romEnabled := s.romEnabled
    overlayActive := s.overlayActive, basicRomDisabled := s.basicRomDisabled }
  charsetBank := s.charsetBank
  frameCycles := s.frameCycles

def dbgUndoPop (dbg : UndoRing) (emu : UndoEmu) : Bool × UndoRing × UndoEmu :=
  if dbg.undoCount = 0 then (false, dbg, emu)
  else
    let head := dbg.undoHead + 15
    (true,
      { dbg with undoHead := head, undoCount := dbg.undoCount - 1, lastRasterLine := -1 },
      undoRestore (dbg.ring head) emu)

/-! ## Machines that look the same -/

/-- But for the last value on the data bus, which only the devices look at. -/
def Memory.settled (mem : Memory) : Memory := { mem with lastBusValue := 0#8 }

theorem memView_settled (mem : Memory) : memView mem.settled = memView mem := by
  funext address
  simp only [memView, memoryRead, noDevices, memoryReadMem, lociEmuStub, Memory.alone,
    Memory.settled, Bool.false_and, Bool.false_eq_true, if_false, Option.isSome_none]
  split_ifs <;> rfl

theorem memAccess_read (mem : Memory) (address : Word) (value : Byte) :
    (memAccess mem (.read address value)).settled = mem.settled := by
  simp only [memAccess, memoryRead, noDevices, memoryReadMem, lociEmuStub, Memory.alone,
    memServe, memNotify, Memory.settled, Bool.and_false, Bool.false_eq_true,
    if_false, if_true, Option.isSome_none]
  split_ifs <;> rfl

theorem memAccess_write (mem : Memory) (address : Word) (value : Byte) :
    memAccess mem.settled (.write address value) =
      (memAccess mem (.write address value)).settled := by
  simp only [memAccess, memoryWrite, noDevices, lociEmuStub, Memory.alone, memNotify,
    Memory.settled, MemorySys.setUpperRam, Bool.and_false, Bool.false_eq_true,
    if_false, reduceCtorEq]
  split_ifs <;> rfl

theorem memAccess_settled {mem mem' : Memory} (h : mem.settled = mem'.settled)
    (event : CpuEvent) : (memAccess mem event).settled = (memAccess mem' event).settled := by
  cases event with
  | tick _ => exact h
  | read address value => rw [memAccess_read, memAccess_read, h]
  | write address value => rw [← memAccess_write, ← memAccess_write, h]

theorem memAccesses_settled (events : List CpuEvent) {mem mem' : Memory}
    (h : mem.settled = mem'.settled) :
    (events.foldl memAccess mem).settled = (events.foldl memAccess mem').settled := by
  induction events generalizing mem mem' with
  | nil => exact h
  | cons event events ih => exact ih (memAccess_settled h event)

/-- Alike CPUs over memories that look the same. -/
structure UndoAlike (a b : UndoEmu) : Prop where
  cpu : CpuAlike a.mapped b.mapped
  mem : a.mem.settled = b.mem.settled

theorem CpuAlike.remapped {a b : Cpu6502} (h : CpuAlike a b) (memory : Word → Byte) :
    CpuAlike { a with memory := memory, events := [] }
      { b with memory := memory, events := [] } := by
  rcases h with ⟨⟨_, _, _, _, _, _, _, _, _, _, _, rfl, hcycles⟩, hsame⟩ |
    ⟨⟨_, _, _, _, rfl, hcycles⟩, hidle, hnmi, hirq⟩
  · exact .inside ⟨⟨_, _, _, _, _, _, _, _, _, _, _, rfl, hcycles⟩, hsame⟩
  · exact .between ⟨⟨_, _, _, _, rfl, hcycles⟩, hidle, hnmi, hirq⟩

theorem CpuAlike.shown {a b : Cpu6502} (h : CpuAlike a b) :
    a.toCpuRegs = b.toCpuRegs ∧ a.pc = b.pc ∧
      BitVec.ofNat 64 a.cycles = BitVec.ofNat 64 b.cycles ∧ a.halted = b.halted := by
  have hclock : ∀ {n m : Nat}, n ≡ m [MOD 2 ^ 64] → BitVec.ofNat 64 m = BitVec.ofNat 64 n := by
    intro n m hmod
    apply BitVec.eq_of_toNat_eq
    rw [BitVec.toNat_ofNat, BitVec.toNat_ofNat]
    exact hmod.symm
  rcases h with ⟨⟨_, _, _, _, _, _, _, _, _, _, _, rfl, hcycles⟩, -⟩ |
    ⟨⟨_, _, _, _, rfl, hcycles⟩, -, -, -⟩
  · exact ⟨rfl, rfl, hclock hcycles, rfl⟩
  · exact ⟨rfl, rfl, hclock hcycles, rfl⟩

/-- The step lemma: machines that are alike answer an operation alike, and stay so. -/
theorem undoObserve_alike {a b : UndoEmu} (h : UndoAlike a b) (op : CpuOp) :
    (undoObserve a op).1 = (undoObserve b op).1 ∧
      UndoAlike (undoObserve a op).2 (undoObserve b op).2 := by
  have hnext : CpuAlike (cpuOp a.mapped op) (cpuOp b.mapped op) := cpuOp_alike h.cpu op
  have hmem : ((cpuOp a.mapped op).events.foldl memAccess a.mem).settled =
      ((cpuOp b.mapped op).events.foldl memAccess b.mem).settled := by
    rw [hnext.events_eq]
    exact memAccesses_settled _ h.mem
  have hview : memView (undoEmuOp a op).mem = memView (undoEmuOp b op).mem := by
    rw [← memView_settled (undoEmuOp a op).mem, ← memView_settled (undoEmuOp b op).mem]
    exact congrArg memView hmem
  obtain ⟨hregs, hpc, hcycles, hhalted⟩ := hnext.shown
  refine ⟨?_, ?_, hmem⟩
  · exact UndoAnswer.mk.injEq .. ▸
      ⟨(cpuObserve_alike h.cpu op).1, hregs, hpc, hcycles, hhalted, hview⟩
  · have hb : (undoEmuOp b op).mapped = { cpuOp b.mapped op with
        memory := memView (undoEmuOp a op).mem, events := [] } := by
      rw [UndoEmu.mapped, ← hview]
      rfl
    exact hb ▸ hnext.remapped (memView (undoEmuOp a op).mem)

/-! ## Pops -/

/-- Between instructions, what no slot holds is as it was at the push of `p`. -/
structure Restorable (p emu : UndoEmu) : Prop where
  between : p.cpu.ms.active = false ∧ emu.cpu.ms.active = false
  irqPulse : emu.cpu.irqPulse = p.cpu.irqPulse
  nmiSampled : emu.cpu.ms.nmiSampled = p.cpu.ms.nmiSampled
  irqSampled : emu.cpu.ms.irqSampled = p.cpu.ms.irqSampled
  mem : { emu.mem with
    ram := p.mem.ram, upperRam := p.mem.upperRam, romEnabled := p.mem.romEnabled
    overlayActive := p.mem.overlayActive, basicRomDisabled := p.mem.basicRomDisabled
    lastBusValue := p.mem.lastBusValue } = p.mem

theorem Restorable.alike {p emu : UndoEmu} (h : Restorable p emu) :
    UndoAlike (undoRestore (undoSnapshot p) emu) p := by
  have hmem : (undoRestore (undoSnapshot p) emu).mem.settled = p.mem.settled := by
    have hsettled := congrArg Memory.settled h.mem
    exact hsettled
  have hview : memView (undoRestore (undoSnapshot p) emu).mem = memView p.mem := by
    rw [← memView_settled, hmem, memView_settled]
  refine ⟨.between ⟨⟨p.cpu.irqTraceFp, p.cpu.irqTraceCount, p.cpu.cycles, p.cpu.ms, ?_, .rfl⟩,
    ⟨h.between.2, h.between.1⟩, h.nmiSampled.symm, h.irqSampled.symm⟩, hmem⟩
  unfold UndoEmu.mapped
  rw [hview]
  dsimp only [undoRestore, undoSnapshot]
  rw [h.irqPulse]

/-- The machine after a pop. -/
def popped (dbg : UndoRing) (emu : UndoEmu) : UndoEmu := (dbgUndoPop dbg emu).2.2

/-- All that is seen from now on is what would have been seen of `p`. -/
def SameFuture (p emu : UndoEmu) : Prop :=
  ∀ ops : List CpuOp, (Machine.runOut undoObserve ops emu).1 = (Machine.runOut undoObserve ops p).1

theorem UndoAlike.sameFuture {p emu : UndoEmu} (h : UndoAlike emu p) : SameFuture p emu :=
  fun ops => (@Machine.runOut_simulation _ _ _ _ undoObserve undoObserve UndoAlike
    (fun _ _ op hab => undoObserve_alike hab op) ops _ _ h).1

/-! ## Runs -/

/-- The debugger, the machine, and the machines whose pushes are open, the newest first. -/
structure UndoRun where
  dbg : UndoRing
  emu : UndoEmu
  pushed : List UndoEmu

/-- A push, a pop, or whatever changes the machine: execution, edits of the memory. -/
inductive UndoOp
  | push
  | pop
  | change (f : UndoEmu → UndoEmu)

def undoStep (s : UndoRun) : UndoOp → UndoRun
  | .push => { s with dbg := dbgUndoPush s.dbg s.emu, pushed := s.emu :: s.pushed }
  | .pop =>
    let (_, dbg, emu) := dbgUndoPop s.dbg s.emu
    { dbg, emu, pushed := s.pushed.tail }
  | .change f => { s with emu := f s.emu }

/-- At most sixteen pushes are open, and a pop has a push to go back to. -/
def UndoOk (s : UndoRun) : UndoOp → Prop
  | .push => s.pushed.length < undoRingDepth
  | .pop => s.pushed ≠ []
  | .change _ => True

/-- A pop goes back to the last push still open. -/
def PopReturns (s : UndoRun) (op : UndoOp) : Prop :=
  ∀ p ∈ s.pushed.head?, op = .pop →
    (dbgUndoPop s.dbg s.emu).1 = true ∧ undoSnapshot (popped s.dbg s.emu) = undoSnapshot p ∧
      (Restorable p s.emu → SameFuture p (popped s.dbg s.emu))

/-- The slots behind the head hold the machines pushed. -/
structure UndoInv (s : UndoRun) : Prop where
  room : s.pushed.length ≤ undoRingDepth
  count : s.pushed.length ≤ s.dbg.undoCount
  slots : ∀ i p, s.pushed[i]? = some p →
    s.dbg.ring (s.dbg.undoHead - Fin.ofNat undoRingDepth (i + 1)) = undoSnapshot p

theorem undoRestore_snapshot (s : UndoSnapshot) (emu : UndoEmu) :
    undoSnapshot (undoRestore s emu) = s := rfl

/-- The slot of the push before. -/
theorem undoSlot_succ (i : Nat) :
    Fin.ofNat undoRingDepth (i + 1 + 1) = Fin.ofNat undoRingDepth (i + 1) + 1 := by
  simp [Fin.ofNat, Fin.add_def]

theorem undoSlot_ne (head : Fin undoRingDepth) {i : Nat} (hi : i + 1 < undoRingDepth) :
    head - Fin.ofNat undoRingDepth (i + 1) ≠ head := by
  rw [Ne, sub_eq_self, Fin.ext_iff, Fin.val_ofNat, Nat.mod_eq_of_lt hi]
  exact Nat.succ_ne_zero i

theorem undoHead_back (head : Fin undoRingDepth) :
    head + 15 = head - Fin.ofNat undoRingDepth (0 + 1) := by
  revert head
  decide

theorem UndoInv.step {s : UndoRun} (h : UndoInv s) {op : UndoOp} (hok : UndoOk s op) :
    UndoInv (undoStep s op) := by
  cases op with
  | push =>
    have hroom : s.pushed.length < undoRingDepth := hok
    have hcount := h.count
    refine ⟨hroom, ?_, fun i p hp => ?_⟩
    · simp only [undoStep, dbgUndoPush, List.length_cons]
      split <;> omega
    · simp only [undoStep, dbgUndoPush] at hp ⊢
      cases i with
      | zero =>
        obtain rfl := Option.some.inj hp
        rw [show s.dbg.undoHead + 1 - Fin.ofNat undoRingDepth (0 + 1) = s.dbg.undoHead from
          add_sub_cancel_right _ _, Function.update_self]
      | succ i =>
        rw [List.getElem?_cons_succ] at hp
        have hlt := (List.getElem?_eq_some_iff.mp hp).1
        rw [undoSlot_succ, add_sub_add_right_eq_sub,
          Function.update_of_ne (undoSlot_ne _ (by omega))]
        exact h.slots i p hp
  | pop =>
    have hne : s.pushed ≠ [] := hok
    have hlen := List.length_pos_iff.mpr hne
    have hcount := h.count
    have hroom := h.room
    simp only [undoStep, dbgUndoPop, if_neg (by omega : s.dbg.undoCount ≠ 0)]
    refine ⟨?_, ?_, fun i p hp => ?_⟩
    · rw [List.length_tail]
      omega
    · rw [List.length_tail]
      exact Nat.sub_le_sub_right hcount 1
    · rw [List.getElem?_tail] at hp
      have hslot := h.slots (i + 1) p hp
      dsimp only
      rw [undoSlot_succ] at hslot
      rw [undoHead_back, sub_sub, add_comm]
      exact hslot
  | change f => exact ⟨h.room, h.count, h.slots⟩

theorem UndoInv.pop {s : UndoRun} (h : UndoInv s) (op : UndoOp) : PopReturns s op := by
  rintro p hp -
  have hfirst : s.pushed[0]? = some p := by
    rw [← List.head?_eq_getElem?]
    exact hp
  have hlen := (List.getElem?_eq_some_iff.mp hfirst).1
  have hcount := h.count
  have hslot := h.slots 0 p hfirst
  rw [← undoHead_back] at hslot
  have hpopped : popped s.dbg s.emu = undoRestore (undoSnapshot p) s.emu := by
    simp only [popped, dbgUndoPop, if_neg (by omega : s.dbg.undoCount ≠ 0), hslot]
  rw [hpopped, undoRestore_snapshot]
  refine ⟨?_, rfl, fun hrest => hrest.alike.sameFuture⟩
  simp only [dbgUndoPop, if_neg (by omega : s.dbg.undoCount ≠ 0)]

/-- From any debugger and any machine. -/
theorem undo_returns (dbg : UndoRing) (emu : UndoEmu) (ops : List UndoOp)
    (hok : Machine.Throughout undoStep UndoOk ops ⟨dbg, emu, []⟩) :
    Machine.Throughout undoStep PopReturns ops ⟨dbg, emu, []⟩ := by
  have hinit : UndoInv ⟨dbg, emu, []⟩ := ⟨Nat.zero_le _, Nat.zero_le _, fun i p hp => by simp at hp⟩
  exact Machine.Throughout.of_invariant (fun _ _ hinv hok => hinv.step hok)
    (fun _ op hinv _ => hinv.pop op) ops hinit hok

/-! ## A stale sample -/

/-- A memory of NOPs, ROM included. -/
def nopMemory : Memory where
  ram := fun _ => 0xEA#8
  rom := fun _ => 0xEA#8
  upperRam := fun _ => 0#8
  romEnabled := true
  overlayRom := none
  overlayRomSize := 0
  overlayActive := false
  basicRomDisabled := false
  jasminActive := false
  jasminRom := none
  jasminOlay := false
  jasminRomdis := false
  stuck0 := 0#8
  stuck1 := 0#8
  lastBusValue := 0#8
  traceEnabled := false

/-- IRQs are let through. -/
def undoNops : UndoEmu where
  cpu := { cpuInit fun _ => 0#8 with p := flagUnused, pc := 0x0400#16 }
  cyclesLeft := 0
  mem := nopMemory
  charsetBank := .rom
  frameCycles := 0

def undoEmpty : UndoRing := ⟨fun _ => undoSnapshot undoNops, 0, 0, -1⟩

/-- A NOP is executed and undone. -/
def undoOneNop : List UndoOp :=
  [.push, .change fun emu => [.cycle, .cycle].foldl undoEmuOp emu, .pop]

theorem undo_returns_oneNop :
    Machine.Throughout undoStep PopReturns undoOneNop ⟨undoEmpty, undoNops, []⟩ :=
  undo_returns undoEmpty undoNops undoOneNop
    ⟨Nat.zero_lt_succ _, trivial, List.cons_ne_nil _ _, trivial⟩

/-- An IRQ is asserted, a NOP executed and undone. -/
def undoSampled : UndoRun :=
  [.push, .change fun emu => [.irqSet 1#8, .cycle, .cycle].foldl undoEmuOp emu].foldl undoStep
    ⟨undoEmpty, undoNops, []⟩

/-- No line is asserted any more, but the machine given back starts an IRQ sequence. -/
theorem undo_stale :
    undoSampled.pushed = [undoNops] ∧
      (popped undoSampled.dbg undoSampled.emu).cpu.irq = 0#8 ∧
      ¬ SameFuture undoNops (popped undoSampled.dbg undoSampled.emu) := by
  refine ⟨rfl, rfl, fun h => ?_⟩
  have hpcs := congrArg (List.map UndoAnswer.pc) (h [.cycle])
  exact absurd hpcs (by decide)

end Phosphoric
