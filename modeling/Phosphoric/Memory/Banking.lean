import Phosphoric.Lib.Word

/-!
# Memory banking

The 64 KB the CPU sees (`src/memory/memory.c`): RAM below `$C000`, the I/O page, and above `$C000`
whichever of BASIC ROM, upper RAM, Microdisc overlay ROM and Jasmin ROM the banking flags select.
`memory_read` and `memory_write` are the CPU's accesses, `memory_peek` the debugger's.

**Theorem (`memoryWrite_read_iff`).** Above `$C000` a byte served from upper RAM can be overwritten
and a byte served from a ROM cannot, exactly when the address is not one of those where the
overlay or Jasmin ROM that should be there is missing or too short.
-/

namespace Phosphoric

open Function (update update_self)

/-! ## State -/

/-- `mem_access_type_t`. -/
inductive MemAccessType
  | read | write | exec
  deriving DecidableEq, Repr

/-- `memory_t`, without its callbacks. -/
structure Memory where
  ram : Fin 0xC000 → Byte
  rom : Fin 0x4000 → Byte
  /-- RAM behind the ROM area. -/
  upperRam : Fin 0x4000 → Byte
  romEnabled : Bool
  overlayRom : Option (Nat → Byte)
  overlayRomSize : BitVec 32
  overlayActive : Bool
  basicRomDisabled : Bool
  jasminActive : Bool
  jasminRom : Option (Fin 0x800 → Byte)
  jasminOlay : Bool
  jasminRomdis : Bool
  /-- Bits forced to 0 by a fault. -/
  stuck0 : Byte
  /-- Bits forced to 1 by a fault. -/
  stuck1 : Byte
  /-- The open-bus latch. -/
  lastBusValue : Byte
  traceEnabled : Bool

/-- The memory, what `io_userdata` points to, and what the two trace hooks have been told. -/
structure MemorySys (σ : Type) extends Memory where
  devices : σ
  traced : List (Word × Byte × MemAccessType)
  traced2 : List (Word × Byte × MemAccessType)

/-- The callbacks of `memory_t`; `none` is a null pointer. Of the trace hooks only whether they
are set. -/
structure MemoryIo (σ : Type) where
  ioRead : Option (Word → MemorySys σ → Byte × MemorySys σ)
  ioWrite : Option (Word → Byte → MemorySys σ → MemorySys σ)
  ioPeek : Option (Word → MemorySys σ → Byte × MemorySys σ)
  traceCallback : Bool
  traceCallback2 : Bool

/-- The co-simulated LOCI firmware, as `memory.c` calls it. -/
structure LociEmu (σ : Type) where
  active : σ → Bool
  romRead : Word → σ → Option Byte × σ
  romdis : σ → Bool
  romWrite : Word → Byte → σ → Bool × σ

/-- The backend in place when no external LOCI is chosen. -/
def lociEmuStub (σ : Type) : LociEmu σ where
  active _ := false
  romRead _ s := (none, s)
  romdis _ := false
  romWrite _ _ s := (false, s)

/-- `$0300`–`$03FF`. -/
abbrev ioPage (address : Word) : Prop := 0x0300#16 ≤ address ∧ address ≤ 0x03FF#16

/-- The index of an address from `$C000` up in `rom` and `upper_ram`. -/
def romIndex (address : Word) : Fin 0x4000 := Fin.ofNat 0x4000 (address - 0xC000#16).toNat

/-- The index of an address below `$C000` in `ram`. -/
def ramIndex (address : Word) : Fin 0xC000 := Fin.ofNat 0xC000 address.toNat

/-- The index of an address from `$F800` up in `jasmin_rom`. -/
def jasminIndex (address : Word) : Fin 0x800 := Fin.ofNat 0x800 (address - 0xF800#16).toNat

variable {σ : Type} (io : MemoryIo σ) (loci : LociEmu σ)

/-! ## Accesses -/

/-- Both trace hooks are told of every access; every read drives the data bus. -/
def memNotify (address : Word) (val : Byte) (type : MemAccessType) (sys : MemorySys σ) :
    MemorySys σ :=
  let sys := if type = .read then { sys with lastBusValue := val } else sys
  let sys := if sys.traceEnabled && io.traceCallback then
      { sys with traced := sys.traced ++ [(address, val, type)] }
    else sys
  if io.traceCallback2 then { sys with traced2 := sys.traced2 ++ [(address, val, type)] } else sys

/-- A byte read, and told to the trace hooks. -/
def memServe (address : Word) (val : Byte) (sys : MemorySys σ) : Byte × MemorySys σ :=
  (val, memNotify io address val .read sys)

/-- `memory_read` past the I/O page. -/
def memoryReadMem (address : Word) (sys : MemorySys σ) : Byte × MemorySys σ :=
  if address < 0xC000#16 then
    let val := sys.ram (ramIndex address)
    let val := if sys.stuck0 ||| sys.stuck1 != 0#8 then (val &&& ~~~sys.stuck0) ||| sys.stuck1
      else val
    memServe io address val sys
  else
    -- the external firmware takes priority over any internal ROM
    let (served, sys) := if loci.active sys.devices then
        let (served, devices) := loci.romRead address sys.devices
        (served, { sys with devices := devices })
      else (none, sys)
    if served.isSome then memServe io address (served.getD 0#8) sys
    else if loci.active sys.devices && loci.romdis sys.devices then
      memServe io address (sys.upperRam (romIndex address)) sys
    else if sys.jasminActive then
      let val :=
        if sys.jasminOlay then sys.upperRam (romIndex address)
        else if sys.jasminRomdis then
          match sys.jasminRom, decide (address ≥ 0xF800#16) with
          | some rom, true => rom (jasminIndex address)
          | _, _ => sys.upperRam (romIndex address)
        else sys.rom (romIndex address)
      memServe io address val sys
    else
      let val :=
        if sys.basicRomDisabled then
          match sys.overlayRom, sys.overlayActive && decide (address ≥ 0xE000#16) with
          | some rom, true =>
            let romOffset := address - 0xE000#16
            if romOffset.setWidth 32 < sys.overlayRomSize then rom romOffset.toNat
            else sys.upperRam (romIndex address)
          | _, _ => sys.upperRam (romIndex address)
        else sys.rom (romIndex address)
      memServe io address val sys

def memoryRead (address : Word) (sys : MemorySys σ) : Byte × MemorySys σ :=
  match io.ioRead, decide (ioPage address) with
  | some read, true =>
    let (val, sys) := read address sys
    memServe io address val sys
  | _, _ => memoryReadMem io loci address sys

/-- `memory_peek` past the I/O page. -/
def memoryPeekMem (address : Word) (sys : MemorySys σ) : Byte × MemorySys σ :=
  if address < 0xC000#16 then
    let val := sys.ram (ramIndex address)
    (if sys.stuck0 ||| sys.stuck1 != 0#8 then (val &&& ~~~sys.stuck0) ||| sys.stuck1 else val, sys)
  else
    let (served, sys) := if loci.active sys.devices then
        let (served, devices) := loci.romRead address sys.devices
        (served, { sys with devices := devices })
      else (none, sys)
    if served.isSome then (served.getD 0#8, sys)
    else if loci.active sys.devices && loci.romdis sys.devices then
      (sys.upperRam (romIndex address), sys)
    else if sys.jasminActive then
      if sys.jasminOlay then (sys.upperRam (romIndex address), sys)
      else if sys.jasminRomdis then
        match sys.jasminRom, decide (address ≥ 0xF800#16) with
        | some rom, true => (rom (jasminIndex address), sys)
        | _, _ => (sys.upperRam (romIndex address), sys)
      else (sys.rom (romIndex address), sys)
    else if sys.basicRomDisabled then
      match sys.overlayRom, sys.overlayActive && decide (address ≥ 0xE000#16) with
      | some rom, true =>
        let romOffset := address - 0xE000#16
        if romOffset.setWidth 32 < sys.overlayRomSize then (rom romOffset.toNat, sys)
        else (sys.upperRam (romIndex address), sys)
      | _, _ => (sys.upperRam (romIndex address), sys)
    else (sys.rom (romIndex address), sys)

def memoryPeek (address : Word) (sys : MemorySys σ) : Byte × MemorySys σ :=
  if ioPage address then
    match io.ioPeek, io.ioRead with
    | some peek, _ => peek address sys
    | none, some read => read address sys
    | none, none => (0xFF#8, sys)
  else memoryPeekMem loci address sys

/-- `mem->upper_ram[address - 0xC000] = value`. -/
def MemorySys.setUpperRam (sys : MemorySys σ) (address : Word) (value : Byte) : MemorySys σ :=
  { sys with upperRam := update sys.upperRam (romIndex address) value }

def memoryWrite (address : Word) (value : Byte) (sys : MemorySys σ) : MemorySys σ :=
  let sys := memNotify io address value .write sys
  if ioPage address then
    match io.ioWrite with
    | some write => write address value sys
    | none => sys
  else if address < 0xC000#16 then
    { sys with ram := update sys.ram (ramIndex address) value }
  else if loci.active sys.devices && loci.romdis sys.devices then
    let (taken, devices) := loci.romWrite address value sys.devices
    let sys := { sys with devices := devices }
    if taken then sys
    else
      let (served, devices) := loci.romRead address sys.devices
      let sys := { sys with devices := devices }
      if served.isSome then sys else sys.setUpperRam address value
  else if sys.jasminActive then
    if sys.jasminOlay then sys.setUpperRam address value
    else if sys.jasminRomdis then
      if address < 0xF800#16 then sys.setUpperRam address value else sys
    else sys
  else if sys.basicRomDisabled then
    if sys.overlayActive && decide (address ≥ 0xE000#16) then sys
    else sys.setUpperRam address value
  else if !sys.romEnabled then
    { sys with rom := update sys.rom (romIndex address) value }
  else sys

/-! ## Notification -/

@[simp] theorem memNotify_write (address : Word) (val : Byte) (sys : MemorySys σ) :
    (memNotify io address val .write sys).toMemory = sys.toMemory := by
  simp only [memNotify]
  split_ifs <;> first | rfl | contradiction

@[simp] theorem memNotify_devices (address : Word) (val : Byte) (type : MemAccessType)
    (sys : MemorySys σ) : (memNotify io address val type sys).devices = sys.devices := by
  simp only [memNotify]
  split_ifs <;> rfl

@[simp] theorem memServe_fst (address : Word) (val : Byte) (sys : MemorySys σ) :
    (memServe io address val sys).1 = val := rfl

/-! ## What is mapped above `$C000` -/

/-- What serves an address above `$C000`. With the ROM disabled and no disk interface `rom` holds
flat RAM. -/
inductive BankSource
  | upperRam | rom | flatRam | overlayRom | jasminRom
  deriving DecidableEq, Repr

/-- The source is a ROM. -/
def BankSource.isRom : BankSource → Bool
  | .upperRam | .flatRam => false
  | .rom | .overlayRom | .jasminRom => true

/-- The overlay ROM has a byte for the address. -/
def overlayHas (mem : Memory) (address : Word) : Prop :=
  mem.overlayRom.isSome ∧ (address - 0xE000#16).setWidth 32 < mem.overlayRomSize

instance (mem : Memory) (address : Word) : Decidable (overlayHas mem address) :=
  inferInstanceAs (Decidable (_ ∧ _))

/-- The source of an address above `$C000`. -/
def bankSource (mem : Memory) (address : Word) : BankSource :=
  if mem.jasminActive then
    if mem.jasminOlay then .upperRam
    else if mem.jasminRomdis then
      if address ≥ 0xF800#16 ∧ mem.jasminRom.isSome then .jasminRom else .upperRam
    else .rom
  else if mem.basicRomDisabled then
    if mem.overlayActive ∧ address ≥ 0xE000#16 ∧ overlayHas mem address then .overlayRom
    else .upperRam
  else if mem.romEnabled then .rom
  else .flatRam

/-- The byte a source has for an address. -/
def bankByte (mem : Memory) (address : Word) : BankSource → Byte
  | .upperRam => mem.upperRam (romIndex address)
  | .rom | .flatRam => mem.rom (romIndex address)
  | .overlayRom => mem.overlayRom.elim 0#8 fun rom => rom (address - 0xE000#16).toNat
  | .jasminRom => mem.jasminRom.elim 0#8 fun rom => rom (jasminIndex address)

/-- The ROM that should serve the address is missing, or too short: reads fall back to the upper
RAM, writes are ignored. -/
def ramShadowed (mem : Memory) (address : Word) : Prop :=
  mem.jasminActive ∧ ¬mem.jasminOlay ∧ mem.jasminRomdis ∧ address ≥ 0xF800#16 ∧
      mem.jasminRom.isNone ∨
    ¬mem.jasminActive ∧ mem.basicRomDisabled ∧ mem.overlayActive ∧ address ≥ 0xE000#16 ∧
      ¬overlayHas mem address

instance (mem : Memory) (address : Word) : Decidable (ramShadowed mem address) :=
  inferInstanceAs (Decidable (_ ∨ _))

theorem not_ioPage {address : Word} (haddr : 0xC000#16 ≤ address) : ¬ioPage address := by
  simp only [ioPage, BitVec.le_def] at *
  simp at *
  omega

theorem memoryRead_outside {address : Word} (h : ¬ioPage address) (sys : MemorySys σ) :
    memoryRead io loci address sys = memoryReadMem io loci address sys := by
  simp only [memoryRead, h, decide_false]
  cases io.ioRead <;> rfl

/-- Without an external LOCI, a read above `$C000` gives the byte of the source. -/
theorem memoryRead_bank {address : Word} {sys : MemorySys σ} (haddr : 0xC000#16 ≤ address)
    (hloci : loci.active sys.devices = false) :
    memoryRead io loci address sys =
      memServe io address (bankByte sys.toMemory address (bankSource sys.toMemory address)) sys := by
  have hram : ¬address < 0xC000#16 := BitVec.not_lt.mpr haddr
  rw [memoryRead_outside io loci (not_ioPage haddr), memoryReadMem, if_neg hram]
  simp only [hloci, Bool.false_eq_true, if_false, Option.isSome_none, Bool.false_and]
  by_cases hj : sys.jasminActive
  · simp only [bankSource, hj, if_true]
    by_cases ho : sys.jasminOlay
    · simp [ho, bankByte]
    · by_cases hd : sys.jasminRomdis
      · by_cases hf : address ≥ 0xF800#16 <;> cases hr : sys.jasminRom <;>
          simp [ho, hd, hf, hr, bankByte]
      · simp [ho, hd, bankByte]
  · simp only [bankSource, hj]
    by_cases hb : sys.basicRomDisabled
    · by_cases ha : sys.overlayActive <;> by_cases he : address ≥ 0xE000#16 <;>
        cases hr : sys.overlayRom <;> simp only [ha, he, hr, hb, overlayHas] <;> simp [bankByte]
      by_cases hs : (address - 0xE000#16).setWidth 32 < sys.overlayRomSize <;>
        simp [hs, hr]
    · cases hr : sys.romEnabled <;> simp [hb, bankByte]

/-! ## Writes above `$C000` -/

/-- What a write above `$C000` leaves in the memory: upper RAM where it is mapped and no absent
ROM shadows it, the flat RAM in `rom`, nothing under a ROM. -/
def bankWrite (mem : Memory) (address : Word) (value : Byte) : Memory :=
  match bankSource mem address with
  | .upperRam =>
    if ramShadowed mem address then mem
    else { mem with upperRam := update mem.upperRam (romIndex address) value }
  | .flatRam => { mem with rom := update mem.rom (romIndex address) value }
  | .rom | .overlayRom | .jasminRom => mem

/-- Without an external LOCI, a write above `$C000` only does that. -/
theorem memoryWrite_bank {address : Word} {sys : MemorySys σ} (haddr : 0xC000#16 ≤ address)
    (hloci : loci.active sys.devices = false) (value : Byte) :
    (memoryWrite io loci address value sys).toMemory = bankWrite sys.toMemory address value ∧
      (memoryWrite io loci address value sys).devices = sys.devices := by
  have hram : ¬address < 0xC000#16 := BitVec.not_lt.mpr haddr
  simp only [memoryWrite, if_neg (not_ioPage haddr), if_neg hram, memNotify_devices, hloci,
    Bool.false_and, Bool.false_eq_true, if_false, memNotify_write]
  by_cases hj : sys.jasminActive
  · by_cases ho : sys.jasminOlay
    · simp [bankWrite, bankSource, ramShadowed, hj, ho, MemorySys.setUpperRam]
    · by_cases hd : sys.jasminRomdis
      · by_cases hf : address ≥ 0xF800#16
        · have hge : ¬address < 0xF800#16 := BitVec.not_lt.mpr hf
          cases hr : sys.jasminRom <;>
            simp [bankWrite, bankSource, ramShadowed, hj, ho, hd, hf, hr, hge]
        · have hlt : address < 0xF800#16 := BitVec.not_le.mp hf
          simp [bankWrite, bankSource, ramShadowed, hj, ho, hd, hf, MemorySys.setUpperRam, hlt]
      · simp [bankWrite, bankSource, hj, ho, hd]
  · by_cases hb : sys.basicRomDisabled
    · by_cases ha : sys.overlayActive
      · by_cases he : address ≥ 0xE000#16
        · by_cases hh : overlayHas sys.toMemory address <;>
            simp [bankWrite, bankSource, ramShadowed, hj, hb, ha, he, hh]
        · simp [bankWrite, bankSource, ramShadowed, hj, hb, ha, he, MemorySys.setUpperRam]
      · simp [bankWrite, bankSource, ramShadowed, hj, hb, ha, MemorySys.setUpperRam]
    · cases hr : sys.romEnabled <;> simp [bankWrite, bankSource, hj, hb, hr]

@[simp] theorem bankSource_bankWrite (mem : Memory) (address : Word) (value : Byte) :
    bankSource (bankWrite mem address value) address = bankSource mem address := by
  unfold bankWrite
  split
  · split_ifs <;> rfl
  · rfl
  · rfl
  · rfl
  · rfl

/-- The byte written is there to read in RAM that is not shadowed, and nowhere else. -/
theorem bankByte_bankWrite (mem : Memory) (address : Word) (value : Byte) :
    bankByte (bankWrite mem address value) address (bankSource mem address) =
      if (bankSource mem address).isRom ∨ ramShadowed mem address then
        bankByte mem address (bankSource mem address)
      else value := by
  unfold bankWrite
  cases hsource : bankSource mem address with
  | upperRam => by_cases hs : ramShadowed mem address <;> simp [BankSource.isRom, hs, bankByte]
  | flatRam =>
    have hs : ¬ramShadowed mem address := by
      rintro (⟨hj, ho, hd, hf, hr⟩ | ⟨hj, hb, ha, he, hh⟩)
      · simp [bankSource, hj, ho, hd, Option.isNone_iff_eq_none.mp hr] at hsource
      · simp [bankSource, hj, hb, hh] at hsource
    simp [BankSource.isRom, hs, bankByte]
  | rom => simp [BankSource.isRom]
  | overlayRom => simp [BankSource.isRom]
  | jasminRom => simp [BankSource.isRom]

/-- Without an external LOCI, what a read above `$C000` gives after a write there. -/
theorem memoryRead_memoryWrite {address : Word} {sys : MemorySys σ} (haddr : 0xC000#16 ≤ address)
    (hloci : loci.active sys.devices = false) (value : Byte) :
    (memoryRead io loci address (memoryWrite io loci address value sys)).1 =
      if (bankSource sys.toMemory address).isRom ∨ ramShadowed sys.toMemory address then
        (memoryRead io loci address sys).1
      else value := by
  obtain ⟨hmem, hdev⟩ := memoryWrite_bank io loci haddr hloci value
  have hloci' : loci.active (memoryWrite io loci address value sys).devices = false := by
    rw [hdev, hloci]
  rw [memoryRead_bank io loci haddr hloci', memoryRead_bank io loci haddr hloci, hmem]
  simp only [memServe_fst, bankSource_bankWrite]
  exact bankByte_bankWrite sys.toMemory address value

/-- Where an absent ROM shadows the RAM, reads come from upper RAM. -/
theorem bankSource_of_ramShadowed {mem : Memory} {address : Word} (h : ramShadowed mem address) :
    bankSource mem address = .upperRam := by
  rcases h with ⟨hj, ho, hd, hf, hr⟩ | ⟨hj, hb, ha, he, hh⟩
  · simp [bankSource, hj, ho, hd, Option.isNone_iff_eq_none.mp hr]
  · simp [bankSource, hj, hb, hh]

/-- Without an external LOCI, an address above `$C000` behaves as what it is served from, RAM or
ROM, exactly when no absent ROM shadows its RAM. -/
theorem memoryWrite_read_iff {address : Word} {sys : MemorySys σ} (haddr : 0xC000#16 ≤ address)
    (hloci : loci.active sys.devices = false) :
    ((¬(bankSource sys.toMemory address).isRom → ∀ value,
        (memoryRead io loci address (memoryWrite io loci address value sys)).1 = value) ∧
      ((bankSource sys.toMemory address).isRom → ∀ value,
        (memoryRead io loci address (memoryWrite io loci address value sys)).1 =
          (memoryRead io loci address sys).1)) ↔
      ¬ramShadowed sys.toMemory address := by
  simp only [memoryRead_memoryWrite io loci haddr hloci]
  constructor
  · rintro ⟨hram, -⟩ hs
    have hsource := bankSource_of_ramShadowed hs
    have hfix : ∀ value, (memoryRead io loci address sys).1 = value := by
      simpa [hs, hsource, BankSource.isRom] using hram
    have hne : (0#8 : Byte) ≠ 1#8 := by decide
    exact hne ((hfix 0#8).symm.trans (hfix 1#8))
  · intro hs
    refine ⟨fun hram value => ?_, fun hrom value => ?_⟩
    · rw [if_neg (not_or.mpr ⟨hram, hs⟩)]
    · rw [if_pos (.inl hrom)]

/-- Microdisc mode with a 4 KB ROM mapped at `$E000`. -/
def memoryShortOverlay : MemorySys Unit where
  ram _ := 0#8
  rom _ := 0xEA#8
  upperRam _ := 0xFF#8
  romEnabled := true
  overlayRom := some fun _ => 0x60#8
  overlayRomSize := 0x1000
  overlayActive := true
  basicRomDisabled := true
  jasminActive := false
  jasminRom := none
  jasminOlay := false
  jasminRomdis := false
  stuck0 := 0#8
  stuck1 := 0#8
  lastBusValue := 0#8
  traceEnabled := false
  devices := ()
  traced := []
  traced2 := []

/-- No I/O callbacks. -/
def memoryIoNone : MemoryIo Unit where
  ioRead := none
  ioWrite := none
  ioPeek := none
  traceCallback := false
  traceCallback2 := false

/-- Past the end of a short overlay ROM, a byte served from upper RAM cannot be overwritten. -/
theorem memoryWrite_shortOverlay :
    bankSource memoryShortOverlay.toMemory 0xF000#16 = .upperRam ∧
      (memoryRead memoryIoNone (lociEmuStub Unit) 0xF000#16
        (memoryWrite memoryIoNone (lociEmuStub Unit) 0xF000#16 0xAA#8 memoryShortOverlay)).1 =
          0xFF#8 := by
  decide

theorem memoryWrite_read_iff_overlay :
    (¬(bankSource memoryShortOverlay.toMemory 0xE000#16).isRom → ∀ value,
        (memoryRead memoryIoNone (lociEmuStub Unit) 0xE000#16
          (memoryWrite memoryIoNone (lociEmuStub Unit) 0xE000#16 value memoryShortOverlay)).1 =
            value) ∧
      ((bankSource memoryShortOverlay.toMemory 0xE000#16).isRom → ∀ value,
        (memoryRead memoryIoNone (lociEmuStub Unit) 0xE000#16
          (memoryWrite memoryIoNone (lociEmuStub Unit) 0xE000#16 value memoryShortOverlay)).1 =
            (memoryRead memoryIoNone (lociEmuStub Unit) 0xE000#16 memoryShortOverlay).1) :=
  (memoryWrite_read_iff memoryIoNone (lociEmuStub Unit) (by decide) rfl).mpr (by decide)

end Phosphoric
