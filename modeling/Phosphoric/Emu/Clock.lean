import Phosphoric.Cpu.Bus

/-!
# The master clock

One call of `emu_cycle` (`src/emu_clock.c`) is one cycle of the whole machine: the CPU, the devices
its clock callback advances, the ULA and the beam. The calls made on the video output are a log,
and of the ULA-NG its raster interrupt and its copper list are modelled.

**Theorem (`emuCycle_advances_together`).** In every reachable state, a cycle of a running CPU makes
exactly one bus access, and the CPU's clock, the devices' and the beam advance by one; unless the
CPU is in the second cycle of a JAM opcode.
-/

namespace Phosphoric

/-! ## State -/

/-- An entry of the mini-copper: `line`, `index`, `r`, `g`, `b`. -/
structure UlaNgCopper where
  line : Byte
  index : Byte
  r : Byte
  g : Byte
  b : Byte

/-- `ula_ng_t`, as far as its scanlines go. -/
structure UlaNg where
  active : Bool
  rasterEnable : Bool
  rasterLine : Byte
  rasterPending : Bool
  /-- The entries in use. -/
  copper : List UlaNgCopper
  pal : Fin 16 → Byte × Byte × Byte

/-- The calls made on the video output. -/
inductive VideoCall
  | lineBegin (y : Int)
  | cell (y col : Int)
  | lineEnd (y : Int)
  | scanline (y : Int)
  deriving DecidableEq

/-- `emulator_t`, as far as its clock goes. -/
structure Emulator where
  cpu : Cpu6502
  /-- `cpu_microseq_enabled`. -/
  microseq : Bool
  ulaNg : UlaNg
  ulaPerCycle : Bool
  ulaFetchOffset : Int
  rasterCycle : Int
  rasterRendered : Int
  rasterNgLine : Int
  rasterNextLine : Int
  frameCycles : Int
  video : List VideoCall

abbrev palCyclesPerLine : Int := 64
abbrev ulaNgFrameLines : Int := 312
abbrev irqfUlang : Byte := 0x20#8

/-! ## The beam -/

/-- The copper's entries for the line go to the palette. -/
def ulaNgCopperLine (u : UlaNg) (line : Int) : UlaNg :=
  { u with
    pal := u.copper.foldl (fun pal e =>
      if e.line = BitVec.ofInt 8 line then
        Function.update pal (Fin.ofNat 16 (e.index &&& 0x0F#8).toNat) (e.r, e.g, e.b)
      else pal) u.pal }

def ulaNgScanline (u : UlaNg) (line : Int) : UlaNg :=
  if !u.active then u
  else
    let u := if u.rasterEnable && line == u.rasterLine.toNat then { u with rasterPending := true }
      else u
    ulaNgCopperLine u line

def ulaNgIrq (u : UlaNg) : Bool := u.rasterPending

/-- Per-cycle fetch requires a core able to stop between two cycles. -/
def ulaCycleInUse (emu : Emulator) : Bool := emu.ulaPerCycle && emu.microseq

def Emulator.call (emu : Emulator) (call : VideoCall) : Emulator :=
  { emu with video := emu.video ++ [call] }

/-- The video work of the current cycle. -/
def ulaCycle (emu : Emulator) (line dot : Int) : Emulator :=
  if line ≥ 224 then emu
  else
    let emu := if dot = 0 then emu.call (.lineBegin line) else emu
    let col := dot - emu.ulaFetchOffset
    let emu := if 0 ≤ col ∧ col ≤ 40 then emu.call (.cell line col) else emu
    if dot = palCyclesPerLine - 1 then
      { emu.call (.lineEnd line) with rasterRendered := line + 1 }
    else emu

/-- The scanline the beam has just finished. -/
def rasterScanline (emu : Emulator) : Emulator :=
  if !ulaCycleInUse emu && emu.rasterRendered < 224 then
    { emu.call (.scanline emu.rasterRendered) with rasterRendered := emu.rasterRendered + 1 }
  else emu

/-- The ULA-NG's tick for the line. -/
def rasterNgTick (emu : Emulator) : Emulator :=
  if emu.rasterNgLine < ulaNgFrameLines then
    let ulaNg := ulaNgScanline emu.ulaNg emu.rasterNgLine
    { emu with
      ulaNg := ulaNg
      cpu := if ulaNgIrq ulaNg then { emu.cpu with irq := emu.cpu.irq ||| irqfUlang } else emu.cpu
      rasterNgLine := emu.rasterNgLine + 1 }
  else emu

/-- The body of the loop of `clock_advance_raster`. -/
def rasterLine (emu : Emulator) : Emulator :=
  let emu := rasterNgTick (rasterScanline emu)
  { emu with rasterNextLine := emu.rasterNextLine + palCyclesPerLine }

/-- What the beam's work leaves alone. -/
structure RasterKeeps (emu emu' : Emulator) : Prop where
  cycles : emu'.cpu.cycles = emu.cpu.cycles
  events : emu'.cpu.events = emu.cpu.events
  rasterCycle : emu'.rasterCycle = emu.rasterCycle

theorem RasterKeeps.trans {emu emu' emu'' : Emulator} (h : RasterKeeps emu emu')
    (h' : RasterKeeps emu' emu'') : RasterKeeps emu emu'' :=
  ⟨h'.cycles.trans h.cycles, h'.events.trans h.events, h'.rasterCycle.trans h.rasterCycle⟩

theorem rasterLine_keeps (emu : Emulator) : RasterKeeps emu (rasterLine emu) := by
  unfold rasterLine rasterNgTick rasterScanline
  dsimp only
  split_ifs <;> exact ⟨rfl, rfl, rfl⟩

theorem rasterLine_next (emu : Emulator) :
    (rasterLine emu).rasterNextLine = emu.rasterNextLine + palCyclesPerLine := by
  unfold rasterLine rasterNgTick rasterScanline
  dsimp only
  split_ifs <;> rfl

/-- `do … while (raster_cycle >= raster_next_line)`. -/
def rasterLines (emu : Emulator) : Emulator :=
  if (rasterLine emu).rasterCycle ≥ (rasterLine emu).rasterNextLine then
    rasterLines (rasterLine emu)
  else rasterLine emu
termination_by (emu.rasterCycle - emu.rasterNextLine).toNat
decreasing_by
  have hcycle := (rasterLine_keeps emu).rasterCycle
  have hnext := rasterLine_next emu
  simp only [palCyclesPerLine] at hnext
  omega

def clockAdvanceRaster (emu : Emulator) (cycles : Int) : Emulator :=
  let emu := { emu with
    rasterCycle := emu.rasterCycle + cycles, frameCycles := emu.rasterCycle + cycles }
  if emu.rasterCycle < emu.rasterNextLine then emu else rasterLines emu

/-! ## One cycle -/

/-- The CPU, then the ULA, then the beam. The historical core is indivisible: one instruction, then
the beam. -/
def emuCycle (emu : Emulator) : Bool × Emulator :=
  if emu.microseq then
    let (last, cpu) := cpuCycle emu.cpu
    let emu := { emu with cpu := cpu }
    let emu :=
      if ulaCycleInUse emu then
        ulaCycle emu (emu.rasterCycle.tdiv palCyclesPerLine) (emu.rasterCycle.tmod palCyclesPerLine)
      else emu
    (last, clockAdvanceRaster emu 1)
  else
    let (n, cpu) := cpuStepLegacy emu.cpu
    (true, clockAdvanceRaster { emu with cpu := cpu } n)

theorem ulaCycle_keeps (emu : Emulator) (line dot : Int) :
    RasterKeeps emu (ulaCycle emu line dot) := by
  unfold ulaCycle
  dsimp only
  split_ifs <;> exact ⟨rfl, rfl, rfl⟩

theorem rasterLines_keeps (emu : Emulator) : RasterKeeps emu (rasterLines emu) := by
  fun_induction rasterLines emu with
  | case1 emu _ ih => exact (rasterLine_keeps emu).trans ih
  | case2 emu _ => exact rasterLine_keeps emu

theorem clockAdvanceRaster_advances (emu : Emulator) (cycles : Int) :
    (clockAdvanceRaster emu cycles).cpu.cycles = emu.cpu.cycles ∧
      (clockAdvanceRaster emu cycles).cpu.events = emu.cpu.events ∧
      (clockAdvanceRaster emu cycles).rasterCycle = emu.rasterCycle + cycles := by
  unfold clockAdvanceRaster
  dsimp only
  split
  · exact ⟨rfl, rfl, rfl⟩
  · have hkeeps := rasterLines_keeps { emu with
      rasterCycle := emu.rasterCycle + cycles, frameCycles := emu.rasterCycle + cycles }
    exact ⟨hkeeps.cycles, hkeeps.events, hkeeps.rasterCycle⟩

/-- The beam advances by one, and the CPU and its devices as `cpu_cycle` advances them. -/
theorem emuCycle_advances {emu : Emulator} (hms : emu.microseq = true) :
    (emuCycle emu).2.cpu.cycles = (cpuCycle emu.cpu).2.cycles ∧
      (emuCycle emu).2.cpu.events = (cpuCycle emu.cpu).2.events ∧
      (emuCycle emu).2.rasterCycle = emu.rasterCycle + 1 := by
  unfold emuCycle
  rw [if_pos hms]
  dsimp only
  split
  · have hula := ulaCycle_keeps { emu with cpu := (cpuCycle emu.cpu).2 }
      (emu.rasterCycle.tdiv palCyclesPerLine) (emu.rasterCycle.tmod palCyclesPerLine)
    obtain ⟨hcycles, hevents, hraster⟩ := clockAdvanceRaster_advances (ulaCycle
      { emu with cpu := (cpuCycle emu.cpu).2 } (emu.rasterCycle.tdiv palCyclesPerLine)
      (emu.rasterCycle.tmod palCyclesPerLine)) 1
    refine ⟨hcycles.trans hula.cycles, hevents.trans hula.events, hraster.trans ?_⟩
    rw [hula.rasterCycle]
  · exact clockAdvanceRaster_advances { emu with cpu := (cpuCycle emu.cpu).2 } 1

/-- One cycle of a running CPU outside a JAM: one bus access, by `cpu_cycle` and by `emu_cycle`
alike, one cycle of the CPU and of the devices for it, and one of the beam. -/
theorem emuCycle_advances_together {emu : Emulator} (h : CpuReachable emu.cpu)
    (hms : emu.microseq = true) (hrun : emu.cpu.halted = false) (hjam : ¬CpuJamming emu.cpu) :
    OneAccess emu.cpu (cpuCycle emu.cpu).2 ∧ OneAccess emu.cpu (emuCycle emu).2.cpu ∧
      (emuCycle emu).2.rasterCycle = emu.rasterCycle + 1 := by
  have hone := (cpuCycle_cycled (cpuReachable_planned h) hrun hjam).toOneAccess
  obtain ⟨hcycles, hevents, hraster⟩ := emuCycle_advances hms
  exact ⟨hone, ⟨hcycles.trans hone.cycles, hevents ▸ hone.events⟩, hraster⟩

/-- A machine at the start of a frame, over a memory of one opcode. -/
def emuSample (opcode : Byte) : Emulator where
  cpu := cpuInit fun _ => opcode
  microseq := true
  ulaNg := ⟨false, false, 0#8, false, [], fun _ => (0#8, 0#8, 0#8)⟩
  ulaPerCycle := true
  ulaFetchOffset := 0
  rasterCycle := 0
  rasterRendered := 0
  rasterNgLine := 0
  rasterNextLine := palCyclesPerLine
  frameCycles := 0
  video := []

theorem emuCycle_advances_together_nop :
    OneAccess (emuSample 0xEA#8).cpu (cpuCycle (emuSample 0xEA#8).cpu).2 ∧
      OneAccess (emuSample 0xEA#8).cpu (emuCycle (emuSample 0xEA#8)).2.cpu ∧
      (emuCycle (emuSample 0xEA#8)).2.rasterCycle = (emuSample 0xEA#8).rasterCycle + 1 :=
  emuCycle_advances_together (.init ⟨_, rfl⟩) rfl rfl nofun

/-- The second cycle of a JAM makes no access. -/
theorem cpuCycle_jam_no_access :
    ¬∀ cpu : Cpu6502, CpuReachable cpu → cpu.halted = false →
      OneAccess cpu (cpuCycle cpu).2 := by
  intro hall
  have hreach : CpuReachable (cpuOp (cpuInit fun _ => 0x02#8) .cycle) :=
    .step (.init ⟨_, rfl⟩) trivial
  have hcycles := (hall _ hreach (by decide)).cycles
  exact absurd hcycles (by decide)

end Phosphoric
