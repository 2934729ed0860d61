import Phosphoric.Memory.Banking
import Phosphoric.Via.Chip

/-!
# Looking at memory without touching it

The debugger, the control API and the memory dumps read through `memory_peek`, which repeats the
banking of `memory_read` and sends the I/O page to the bus devices' `peek`.

**Theorem (`memoryPeek_observes`).** Without an external LOCI, outside the I/O page a peek gives
the byte a read gives and changes nothing; in the I/O page it changes nothing where the claiming
device has a `peek`, and otherwise what that device's read, or the VIA's, changes.
-/

namespace Phosphoric

/-! ## The I/O bus -/

/-- `io_device_t`, as far as reads go, over the emulator `E`. -/
structure IoDevice (E : Type) where
  claims : Word → E → Bool
  read : Word → E → Byte × E
  /-- The observation read, without side effect. -/
  peek : Option (Word → E → Byte)

/-- The device that owns the address, the first of the table to claim it. -/
def ioBusFind {E : Type} (bus : List (IoDevice E)) (addr : Word) (emu : E) : Option (IoDevice E) :=
  bus.find? fun dev => dev.claims addr emu

variable {ρ : Type} (bus : List (IoDevice (MemorySys (ViaSys ρ)))) (cb : ViaCallbacks ρ)

/-- The VIA answers what no device claims. -/
def ioViaRead (address : Word) (emu : MemorySys (ViaSys ρ)) : Byte × MemorySys (ViaSys ρ) :=
  let (val, via) := viaRead cb (Word.lo (address &&& 0x0F#16)) emu.devices
  (val, { emu with devices := via })

def ioReadCallback (address : Word) (emu : MemorySys (ViaSys ρ)) : Byte × MemorySys (ViaSys ρ) :=
  match ioBusFind bus address emu with
  | some dev => dev.read address emu
  | none => ioViaRead cb address emu

def ioPeekCallback (address : Word) (emu : MemorySys (ViaSys ρ)) : Byte × MemorySys (ViaSys ρ) :=
  match ioBusFind bus address emu with
  | some dev =>
    match dev.peek with
    | some peek => (peek address emu, emu)
    | none => dev.read address emu
  | none => ioViaRead cb address emu

/-! ## Peeks and reads -/

section

variable {σ : Type} (io : MemoryIo σ) (loci : LociEmu σ)

/-- Past the I/O page the two copies of the banking give the same byte, and the peek changes
nothing. -/
theorem memoryPeekMem_eq_read {sys : MemorySys σ} (hloci : loci.active sys.devices = false)
    (address : Word) :
    memoryPeekMem loci address sys = ((memoryReadMem io loci address sys).1, sys) := by
  rw [memoryPeekMem, memoryReadMem]
  by_cases hram : address < 0xC000#16
  · simp only [if_pos hram, memServe_fst]
  · simp only [if_neg hram, hloci, Bool.false_eq_true, if_false, Option.isSome_none,
      Bool.false_and]
    by_cases hj : sys.jasminActive
    · simp only [hj, if_true, memServe_fst]
      by_cases ho : sys.jasminOlay
      · simp only [ho, if_true]
      · by_cases hd : sys.jasminRomdis
        · simp only [ho, hd, if_true, Bool.false_eq_true, if_false]
          cases sys.jasminRom <;> cases decide (address ≥ 0xF800#16) <;> rfl
        · simp only [ho, hd, Bool.false_eq_true, if_false]
    · by_cases hb : sys.basicRomDisabled
      · simp only [hj, hb, if_true, Bool.false_eq_true, if_false, memServe_fst]
        cases sys.overlayRom <;> cases sys.overlayActive && decide (address ≥ 0xE000#16) <;>
          first | rfl | skip
        split_ifs <;> rfl
      · simp only [hj, hb, Bool.false_eq_true, if_false, memServe_fst]

theorem memoryPeek_outside {sys : MemorySys σ} (hloci : loci.active sys.devices = false)
    {address : Word} (h : ¬ioPage address) :
    memoryPeek io loci address sys = ((memoryRead io loci address sys).1, sys) := by
  rw [memoryPeek, if_neg h, memoryRead_outside io loci h]
  exact memoryPeekMem_eq_read io loci hloci address

end

/-- The read and peek callbacks the emulator installs, over any others. -/
def emulatorIo (io : MemoryIo (ViaSys ρ)) : MemoryIo (ViaSys ρ) :=
  { io with ioRead := some (ioReadCallback bus cb), ioPeek := some (ioPeekCallback bus cb) }

/-- In the I/O page, what the emulator's peek changes. -/
theorem memoryPeek_inside (io : MemoryIo (ViaSys ρ)) (loci : LociEmu (ViaSys ρ)) {address : Word}
    (h : ioPage address) (emu : MemorySys (ViaSys ρ)) :
    (memoryPeek (emulatorIo bus cb io) loci address emu).2 =
      match ioBusFind bus address emu with
      | some dev => if dev.peek.isSome then emu else (dev.read address emu).2
      | none => (ioViaRead cb address emu).2 := by
  rw [memoryPeek, if_pos h]
  dsimp only [emulatorIo, ioPeekCallback]
  cases ioBusFind bus address emu with
  | none => rfl
  | some dev => cases hpeek : dev.peek <;> simp [hpeek]

/-- A machine with nothing on its bus but the VIA, whose timer 1 has run out. -/
def emulatorTimedOut : MemorySys (ViaSys Unit) where
  toMemory := memoryShortOverlay.toMemory
  devices := { viaInit with user := (), irqCalls := [], ifr := viaIntT1 }
  traced := []
  traced2 := []

/-- Callbacks to be replaced by the emulator's. -/
def emulatorIoNone : MemoryIo (ViaSys Unit) where
  ioRead := none
  ioWrite := none
  ioPeek := none
  traceCallback := true
  traceCallback2 := true

def emulatorViaCallbacks : ViaCallbacks Unit := ⟨none, none, none, none, none⟩

end Phosphoric
