import Phosphoric.Emu.Clock

/-!
# The beam within a frame

A frame of `src/emu_clock.c`: `emu_clock_frame_begin` (or `emu_clock_resume`, after a state was
loaded), the steps of the clock, `emu_clock_frame_end`.

**Theorem (`clockRun_frame`).** However the steps cut the frame, after them the visible lines
rendered and the ULA-NG lines ticked are those the beam has finished, once each and in order,
`raster_next_line` is the end of the line being scanned, and the end of the frame renders the
visible lines that are left.

The invariant is `RasterAt`: every counter is a function of `raster_cycle`. A step keeps it since
the catch-up loop of `clock_advance_raster` advances all of them by one line at a time.
-/

namespace Phosphoric

open Machine (trace)

abbrev cyclesPerFrame : Int := 19968

/-! ## The frame -/

/-- The lines of the restored position that were scanned before the save. -/
def resumeLines (emu : Emulator) : Int :=
  if emu.rasterCycle.tdiv palCyclesPerLine < 224 then emu.rasterCycle.tdiv palCyclesPerLine
  else 224

/-- The first `n` lines, or columns. -/
def upTo (n : Int) : List Int := (List.range n.toNat).map Int.ofNat

/-- `emu_clock_resume`, a load being pending. -/
def emuClockResume (emu : Emulator) : Emulator :=
  if emu.rasterCycle ≥ cyclesPerFrame ∨ emu.rasterCycle < 0 then
    { emu with
      rasterCycle := 0, rasterRendered := 0, rasterNgLine := 0,
      rasterNextLine := palCyclesPerLine, frameCycles := 0 }
  else
    let line := emu.rasterCycle.tdiv palCyclesPerLine
    let dot := emu.rasterCycle.tmod palCyclesPerLine
    let emu := { emu with
      rasterNextLine := (line + 1) * palCyclesPerLine, frameCycles := emu.rasterCycle }
    let done := resumeLines emu
    let emu := (upTo done).foldl (fun emu y => emu.call (.scanline y)) emu
    let emu := { emu with rasterRendered := done }
    -- the cells of the current line already fetched are fetched again
    if ulaCycleInUse emu ∧ line < 224 then
      let emu := emu.call (.lineBegin line)
      let colEnd := dot - emu.ulaFetchOffset
      (upTo (min colEnd 41)).foldl (fun emu col => emu.call (.cell line col)) emu
    else emu

/-- `emu_clock_frame_begin`, `resumePending` telling whether a load is pending. -/
def emuClockFrameBegin (resumePending : Bool) (emu : Emulator) : Emulator :=
  if resumePending then emuClockResume emu
  else
    { emu with
      rasterCycle := 0, rasterRendered := 0, rasterNgLine := 0,
      rasterNextLine := palCyclesPerLine, frameCycles := 0 }

/-- The lines left are rendered in one block. -/
def emuClockFrameEnd (emu : Emulator) : Emulator :=
  if emu.rasterRendered < 224 then
    emuClockFrameEnd
      { emu.call (.scanline emu.rasterRendered) with rasterRendered := emu.rasterRendered + 1 }
  else emu
termination_by (224 - emu.rasterRendered).toNat
decreasing_by omega

/-- What the clock is fed: a single cycle, or the length of an instruction of the indivisible
core. -/
inductive ClockStep
  | cycle
  | instruction (cycles : Int)
  deriving DecidableEq

/-- The screen's part of a cycle. -/
def clockUla (emu : Emulator) : Emulator :=
  if ulaCycleInUse emu then
    ulaCycle emu (emu.rasterCycle.tdiv palCyclesPerLine) (emu.rasterCycle.tmod palCyclesPerLine)
  else emu

/-- What `emu_cycle` does of the screen and the beam, once the CPU has run. -/
def clockStep (emu : Emulator) : ClockStep → Emulator
  | .cycle => clockAdvanceRaster (clockUla emu) 1
  | .instruction cycles => clockAdvanceRaster emu cycles

/-! ## What is rendered and ticked -/

/-- The lines completed by a sequence of video calls. -/
def renderedLines (calls : List VideoCall) : List Int :=
  calls.filterMap fun
    | .scanline y | .lineEnd y => some y
    | .lineBegin _ | .cell _ _ => none

/-- The calls of `ula_ng_scanline` made by the loop of `clock_advance_raster`. -/
def rasterLinesTicks (emu : Emulator) : List Int :=
  let tick := if emu.rasterNgLine < ulaNgFrameLines then [emu.rasterNgLine] else []
  if (rasterLine emu).rasterCycle ≥ (rasterLine emu).rasterNextLine then
    tick ++ rasterLinesTicks (rasterLine emu)
  else tick
termination_by (emu.rasterCycle - emu.rasterNextLine).toNat
decreasing_by
  have hcycle := (rasterLine_keeps emu).rasterCycle
  have hnext := rasterLine_next emu
  simp only [palCyclesPerLine] at hnext
  omega

/-- The calls of `ula_ng_scanline` made by `clock_advance_raster`. -/
def clockAdvanceTicks (emu : Emulator) (cycles : Int) : List Int :=
  let emu := { emu with
    rasterCycle := emu.rasterCycle + cycles, frameCycles := emu.rasterCycle + cycles }
  if emu.rasterCycle < emu.rasterNextLine then [] else rasterLinesTicks emu

/-- The calls of `ula_ng_scanline` made by a step. -/
def clockTicks (emu : Emulator) : ClockStep → List Int
  | .cycle => clockAdvanceTicks (clockUla emu) 1
  | .instruction cycles => clockAdvanceTicks emu cycles

/-- The beam is at `raster_cycle`: all counters follow from it, and `base` and the lines it has
finished are the lines rendered. -/
structure RasterAt (base : List Int) (emu : Emulator) : Prop where
  nonneg : 0 ≤ emu.rasterCycle
  next : emu.rasterNextLine = (emu.rasterCycle / 64 + 1) * 64
  rendered : emu.rasterRendered = min 224 (emu.rasterCycle / 64)
  ng : emu.rasterNgLine = min 312 (emu.rasterCycle / 64)
  lines : renderedLines emu.video = base ++ upTo emu.rasterRendered

/-- The loop of `clock_advance_raster` has line `k` to do: the beam may be further. The lines of
the per-cycle ULA are complete already. -/
structure RasterLoop (base : List Int) (k : Int) (emu : Emulator) : Prop where
  nonneg : 0 ≤ k
  next : emu.rasterNextLine = (k + 1) * 64
  rendered : emu.rasterRendered = min 224 (if ulaCycleInUse emu then emu.rasterCycle / 64 else k)
  ng : emu.rasterNgLine = min 312 k
  lines : renderedLines emu.video = base ++ upTo emu.rasterRendered

theorem upTo_succ {n : Int} (h : 0 ≤ n) : upTo (n + 1) = upTo n ++ [n] := by
  have htoNat : (n + 1).toNat = n.toNat + 1 := by omega
  simp [upTo, htoNat, List.range_succ, h]

theorem renderedLines_append (calls calls' : List VideoCall) :
    renderedLines (calls ++ calls') = renderedLines calls ++ renderedLines calls' :=
  List.filterMap_append

/-! ## The loop -/

@[simp] theorem rasterLine_inUse (emu : Emulator) :
    ulaCycleInUse (rasterLine emu) = ulaCycleInUse emu := by
  unfold rasterLine rasterNgTick rasterScanline
  dsimp only
  split_ifs <;> rfl

theorem rasterLine_ng (emu : Emulator) :
    (rasterLine emu).rasterNgLine = emu.rasterNgLine + if emu.rasterNgLine < 312 then 1 else 0 := by
  unfold rasterLine rasterNgTick rasterScanline
  dsimp only
  split_ifs <;> simp_all [Emulator.call]

/-- The body of the loop renders a line only when the ULA did not. -/
theorem rasterLine_rendered (emu : Emulator) :
    (rasterLine emu).rasterRendered = (rasterScanline emu).rasterRendered ∧
      (rasterLine emu).video = (rasterScanline emu).video := by
  unfold rasterLine rasterNgTick
  dsimp only
  split_ifs <;> exact ⟨rfl, rfl⟩

/-- One turn of the loop does one line. -/
theorem rasterLine_loop {base : List Int} {k : Int} {emu : Emulator} (h : RasterLoop base k emu) :
    RasterLoop base (k + 1) (rasterLine emu) := by
  obtain ⟨hrendered, hvideo⟩ := rasterLine_rendered emu
  have hnonneg := h.nonneg
  have hold := h.rendered
  refine ⟨by omega, ?_, ?_, ?_, ?_⟩
  · rw [rasterLine_next, h.next, palCyclesPerLine]
    omega
  · rw [hrendered, rasterLine_inUse, (rasterLine_keeps emu).rasterCycle, rasterScanline]
    cases huse : ulaCycleInUse emu
    · simp only [huse, Bool.false_eq_true, if_false, Bool.not_false, Bool.true_and,
        decide_eq_true_eq] at hold ⊢
      split_ifs with hlt
      · show emu.rasterRendered + 1 = _
        omega
      · omega
    · simpa [huse] using hold
  · rw [rasterLine_ng, h.ng]
    split_ifs <;> omega
  · rw [hrendered, hvideo, rasterScanline]
    split_ifs
    · have hpos : 0 ≤ emu.rasterRendered := by
        rw [hold]
        split_ifs <;> simp_all
      simp only [Emulator.call, renderedLines_append, h.lines, upTo_succ hpos, List.append_assoc]
      rfl
    · exact h.lines

/-- The loop catches up with the beam. -/
theorem rasterLines_at {base : List Int} {k : Int} {emu : Emulator} (h : RasterLoop base k emu)
    (hcross : (k + 1) * 64 ≤ emu.rasterCycle) : RasterAt base (rasterLines emu) := by
  induction emu using rasterLines.induct generalizing k with
  | case1 emu hagain ih =>
    have hnext := rasterLine_loop h
    have hcycle := (rasterLine_keeps emu).rasterCycle
    rw [rasterLines, if_pos hagain]
    refine ih hnext ?_
    have := hnext.next
    omega
  | case2 emu hdone =>
    have hnext := rasterLine_loop h
    have hcycle := (rasterLine_keeps emu).rasterCycle
    have hk : emu.rasterCycle / 64 = k + 1 := by
      have := hnext.next
      have := h.nonneg
      omega
    have hrendered := hnext.rendered
    rw [rasterLines, if_neg hdone]
    rw [hcycle, hk] at hrendered
    refine ⟨?_, ?_, ?_, ?_, hnext.lines⟩
    · have := h.nonneg
      omega
    · rw [hcycle, hk, hnext.next]
    · rw [hcycle, hk, hrendered]
      split_ifs <;> rfl
    · rw [hcycle, hk, hnext.ng]

/-- One turn of the loop ticks the line it counts. -/
theorem rasterLine_tick {base : List Int} {k : Int} {emu : Emulator} (h : RasterLoop base k emu) :
    upTo emu.rasterNgLine ++ (if emu.rasterNgLine < ulaNgFrameLines then [emu.rasterNgLine] else [])
      = upTo (rasterLine emu).rasterNgLine := by
  have hpos : 0 ≤ emu.rasterNgLine := by
    have := h.ng
    have := h.nonneg
    omega
  rw [rasterLine_ng]
  by_cases hlt : emu.rasterNgLine < 312
  · rw [if_pos hlt, if_pos hlt, upTo_succ hpos]
  · rw [if_neg hlt, if_neg hlt, List.append_nil, add_zero]

/-- The ticks of the loop are the lines it does, in order. -/
theorem rasterLinesTicks_upTo {base : List Int} {k : Int} {emu : Emulator}
    (h : RasterLoop base k emu) (hcross : (k + 1) * 64 ≤ emu.rasterCycle) :
    upTo emu.rasterNgLine ++ rasterLinesTicks emu = upTo (rasterLines emu).rasterNgLine := by
  induction emu using rasterLinesTicks.induct generalizing k with
  | case1 emu hagain ih =>
    have hnext := rasterLine_loop h
    have hcycle := (rasterLine_keeps emu).rasterCycle
    have hrest := ih hnext (by have := hnext.next; omega)
    rw [rasterLinesTicks, if_pos hagain, rasterLines, if_pos hagain, ← hrest, ← rasterLine_tick h]
    exact (List.append_assoc _ _ _).symm
  | case2 emu hdone =>
    rw [rasterLinesTicks, if_neg hdone, rasterLines, if_neg hdone]
    exact rasterLine_tick h

theorem rasterLine_ulaNg (emu : Emulator) :
    (rasterLine emu).ulaNg =
      (if emu.rasterNgLine < ulaNgFrameLines then [emu.rasterNgLine] else []).foldl ulaNgScanline
        emu.ulaNg := by
  unfold rasterLine rasterNgTick rasterScanline
  dsimp only
  split_ifs <;> simp_all [Emulator.call]

/-- The loop does to the ULA-NG what its ticks do. -/
theorem rasterLines_ulaNg (emu : Emulator) :
    (rasterLines emu).ulaNg = (rasterLinesTicks emu).foldl ulaNgScanline emu.ulaNg := by
  induction emu using rasterLinesTicks.induct with
  | case1 emu hagain ih =>
    rw [rasterLines, if_pos hagain, rasterLinesTicks, if_pos hagain, ih, List.foldl_append,
      ← rasterLine_ulaNg]
  | case2 emu hdone =>
    rw [rasterLines, if_neg hdone, rasterLinesTicks, if_neg hdone]
    exact rasterLine_ulaNg emu

/-! ## One step -/

/-- What one step of the clock does to a beam in its place. -/
structure RasterStepped (base : List Int) (emu : Emulator) (ticks : List Int) (emu' : Emulator) :
    Prop where
  placed : RasterAt base emu'
  ticked : upTo emu.rasterNgLine ++ ticks = upTo emu'.rasterNgLine
  ulaNg : emu'.ulaNg = ticks.foldl ulaNgScanline emu.ulaNg
  inUse : ulaCycleInUse emu' = ulaCycleInUse emu

theorem rasterLines_inUse (emu : Emulator) :
    ulaCycleInUse (rasterLines emu) = ulaCycleInUse emu := by
  fun_induction rasterLines emu with
  | case1 emu _ ih => rw [ih, rasterLine_inUse]
  | case2 emu _ => exact rasterLine_inUse emu

/-- `clock_advance_raster` does the lines the step completes. -/
theorem clockAdvanceRaster_stepped {base : List Int} {emu : Emulator} {cycles : Int}
    (hpos : 0 < cycles) (hnonneg : 0 ≤ emu.rasterCycle)
    (h : RasterLoop base (emu.rasterCycle / 64)
      { emu with
        rasterCycle := emu.rasterCycle + cycles, frameCycles := emu.rasterCycle + cycles }) :
    RasterStepped base emu (clockAdvanceTicks emu cycles) (clockAdvanceRaster emu cycles) := by
  have hnext := h.next
  dsimp only at hnext
  unfold clockAdvanceRaster clockAdvanceTicks
  dsimp only
  by_cases hlt : emu.rasterCycle + cycles < emu.rasterNextLine
  · -- the line is the same
    have hline : (emu.rasterCycle + cycles) / 64 = emu.rasterCycle / 64 := by omega
    rw [if_pos hlt, if_pos hlt]
    refine ⟨⟨?_, ?_, ?_, ?_, h.lines⟩, ?_, ?_, rfl⟩
    · dsimp only
      omega
    · rw [← hline] at hnext
      exact hnext
    · have hrendered := h.rendered
      dsimp only at hrendered ⊢
      rw [hrendered, hline, ite_self]
    · have hng := h.ng
      dsimp only at hng ⊢
      rw [hng, hline]
    · exact List.append_nil _
    · rfl
  · have hcross : (emu.rasterCycle / 64 + 1) * 64 ≤ emu.rasterCycle + cycles := by omega
    rw [if_neg hlt, if_neg hlt]
    exact ⟨rasterLines_at h hcross, rasterLinesTicks_upTo h hcross, rasterLines_ulaNg _,
      rasterLines_inUse _⟩

/-- What the screen's part of a cycle leaves alone. -/
structure UlaKeeps (emu emu' : Emulator) : Prop where
  rasterCycle : emu'.rasterCycle = emu.rasterCycle
  rasterNextLine : emu'.rasterNextLine = emu.rasterNextLine
  rasterNgLine : emu'.rasterNgLine = emu.rasterNgLine
  ulaNg : emu'.ulaNg = emu.ulaNg
  inUse : ulaCycleInUse emu' = ulaCycleInUse emu

theorem clockUla_keeps (emu : Emulator) : UlaKeeps emu (clockUla emu) := by
  unfold clockUla ulaCycle
  dsimp only
  split_ifs <;> exact ⟨rfl, rfl, rfl, rfl, rfl⟩

/-- The per-cycle ULA completes a visible line in its last cycle. -/
theorem ulaCycle_rendered (emu : Emulator) (dot : Int) {line : Int} (hline : line < 224) :
    (ulaCycle emu line dot).rasterRendered = (if dot = 63 then line + 1 else emu.rasterRendered) ∧
      renderedLines (ulaCycle emu line dot).video =
        renderedLines emu.video ++ if dot = 63 then [line] else [] := by
  have hvisible : ¬line ≥ 224 := by omega
  have hlast : palCyclesPerLine - 1 = 63 := rfl
  simp only [ulaCycle, if_neg hvisible, hlast]
  split_ifs <;> simp [Emulator.call, renderedLines]

/-- The screen's part of a cycle leaves the beam where the loop may take it over. -/
theorem clockUla_loop {base : List Int} {emu : Emulator} (h : RasterAt base emu) :
    RasterLoop base ((clockUla emu).rasterCycle / 64)
      { clockUla emu with
        rasterCycle := (clockUla emu).rasterCycle + 1
        frameCycles := (clockUla emu).rasterCycle + 1 } := by
  have hkeeps := clockUla_keeps emu
  have hnonneg := h.nonneg
  have hrendered := h.rendered
  have hinUse : ulaCycleInUse { clockUla emu with
      rasterCycle := (clockUla emu).rasterCycle + 1
      frameCycles := (clockUla emu).rasterCycle + 1 } = ulaCycleInUse emu := hkeeps.inUse
  suffices hula : (clockUla emu).rasterRendered =
        min 224 (if ulaCycleInUse emu then (emu.rasterCycle + 1) / 64 else emu.rasterCycle / 64) ∧
      renderedLines (clockUla emu).video = base ++ upTo (clockUla emu).rasterRendered by
    refine ⟨?_, ?_, ?_, ?_, hula.2⟩
    · rw [hkeeps.rasterCycle]
      omega
    · dsimp only
      rw [hkeeps.rasterNextLine, hkeeps.rasterCycle, h.next]
    · rw [hinUse]
      dsimp only
      rw [hkeeps.rasterCycle, hula.1]
    · dsimp only
      rw [hkeeps.rasterNgLine, hkeeps.rasterCycle, h.ng]
  cases huse : ulaCycleInUse emu
  · simp only [clockUla, huse, Bool.false_eq_true, if_false]
    exact ⟨hrendered, h.lines⟩
  · have hdiv : emu.rasterCycle.tdiv palCyclesPerLine = emu.rasterCycle / 64 :=
      Int.tdiv_eq_ediv_of_nonneg hnonneg
    have hmod : emu.rasterCycle.tmod palCyclesPerLine = emu.rasterCycle % 64 :=
      Int.tmod_eq_emod_of_nonneg hnonneg
    simp only [clockUla, huse, if_true, hdiv, hmod]
    by_cases hline : emu.rasterCycle / 64 < 224
    · obtain ⟨hcount, hvideo⟩ := ulaCycle_rendered emu (emu.rasterCycle % 64) hline
      rw [hcount, hvideo, h.lines]
      by_cases hlast : emu.rasterCycle % 64 = 63
      · have hline0 : 0 ≤ emu.rasterCycle / 64 := by omega
        have hcur : emu.rasterRendered = emu.rasterCycle / 64 := by omega
        rw [if_pos hlast, if_pos hlast, upTo_succ hline0, hcur]
        exact ⟨by omega, List.append_assoc _ _ _⟩
      · rw [if_neg hlast, if_neg hlast, List.append_nil]
        exact ⟨by omega, rfl⟩
    · have hblank : emu.rasterCycle / 64 ≥ 224 := by omega
      rw [ulaCycle, if_pos hblank]
      exact ⟨by omega, h.lines⟩

/-- Every step keeps the beam in its place; an instruction's length is fed in one step only to the
per-line rendering. -/
theorem clockStep_stepped {base : List Int} {emu : Emulator} (h : RasterAt base emu)
    (step : ClockStep)
    (hstep : ∀ n, step = .instruction n → 0 < n ∧ ulaCycleInUse emu = false) :
    RasterStepped base emu (clockTicks emu step) (clockStep emu step) := by
  cases step with
  | cycle =>
    have hkeeps := clockUla_keeps emu
    have hnonneg : 0 ≤ (clockUla emu).rasterCycle := hkeeps.rasterCycle ▸ h.nonneg
    have hdone := clockAdvanceRaster_stepped one_pos hnonneg (clockUla_loop h)
    exact ⟨hdone.placed, hkeeps.rasterNgLine ▸ hdone.ticked, hkeeps.ulaNg ▸ hdone.ulaNg,
      hdone.inUse.trans hkeeps.inUse⟩
  | instruction n =>
    obtain ⟨hpos, huse⟩ := hstep n rfl
    refine clockAdvanceRaster_stepped hpos h.nonneg ⟨?_, h.next, ?_, h.ng, h.lines⟩
    · have := h.nonneg
      omega
    · rw [if_neg (by simpa [ulaCycleInUse] using huse)]
      exact h.rendered

/-! ## A frame -/

/-- The cycles a step feeds. -/
def ClockStep.cycles : ClockStep → Int
  | .cycle => 1
  | .instruction cycles => cycles

theorem clockStep_rasterCycle (emu : Emulator) (step : ClockStep) :
    (clockStep emu step).rasterCycle = emu.rasterCycle + step.cycles := by
  cases step with
  | cycle =>
    have hula := (clockUla_keeps emu).rasterCycle
    rw [clockStep, (clockAdvanceRaster_advances _ 1).2.2, hula, ClockStep.cycles]
  | instruction n => exact (clockAdvanceRaster_advances emu n).2.2

theorem clockRun_rasterCycle (steps : List ClockStep) (emu : Emulator) :
    (steps.foldl clockStep emu).rasterCycle =
      emu.rasterCycle + (steps.map ClockStep.cycles).sum := by
  induction steps generalizing emu with
  | nil => simp
  | cons step steps ih =>
    rw [List.foldl_cons, ih, clockStep_rasterCycle, List.map_cons, List.sum_cons, add_assoc]

theorem RasterStepped.trans {base ticks ticks' : List Int} {emu emu' emu'' : Emulator}
    (h : RasterStepped base emu ticks emu') (h' : RasterStepped base emu' ticks' emu'') :
    RasterStepped base emu (ticks ++ ticks') emu'' where
  placed := h'.placed
  ticked := by rw [← List.append_assoc, h.ticked, h'.ticked]
  ulaNg := by rw [h'.ulaNg, h.ulaNg, List.foldl_append]
  inUse := h'.inUse.trans h.inUse

/-- A run of the clock keeps the beam in its place. -/
theorem clockRun_stepped {base : List Int} (steps : List ClockStep) {emu : Emulator}
    (h : RasterAt base emu)
    (hsteps : ∀ n, .instruction n ∈ steps → 0 < n ∧ ulaCycleInUse emu = false) :
    RasterStepped base emu (trace clockStep clockTicks steps emu) (steps.foldl clockStep emu) := by
  induction steps generalizing emu with
  | nil => exact ⟨h, List.append_nil _, rfl, rfl⟩
  | cons step steps ih =>
    have hfirst := clockStep_stepped h step fun n heq =>
      hsteps n (heq ▸ List.mem_cons_self)
    have hrest := ih hfirst.placed fun n hmem =>
      hfirst.inUse ▸ hsteps n (List.mem_cons_of_mem step hmem)
    exact hfirst.trans hrest

/-- Calls made one after the other. -/
theorem foldl_call (call : Int → VideoCall) (ys : List Int) (emu : Emulator) :
    ys.foldl (fun emu y => emu.call (call y)) emu =
      { emu with video := emu.video ++ ys.map call } := by
  induction ys generalizing emu with
  | nil => simp
  | cons y ys ih =>
    rw [List.foldl_cons, ih]
    simp [Emulator.call]

theorem renderedLines_scanlines (ys : List Int) : renderedLines (ys.map .scanline) = ys := by
  simp [renderedLines, List.filterMap_map]

theorem renderedLines_cells (y : Int) (cols : List Int) :
    renderedLines (cols.map (.cell y)) = [] := by
  simp [renderedLines, List.filterMap_map]

/-- A load puts the beam back in its place, if it was in its place when saved. -/
theorem emuClockResume_at {emu : Emulator}
    (hng : 0 ≤ emu.rasterCycle → emu.rasterCycle < cyclesPerFrame →
      emu.rasterNgLine = min 312 (emu.rasterCycle / 64)) :
    RasterAt (renderedLines emu.video) (emuClockResume emu) := by
  by_cases hover : emu.rasterCycle ≥ cyclesPerFrame ∨ emu.rasterCycle < 0
  · rw [emuClockResume, if_pos hover]
    exact ⟨le_rfl, rfl, rfl, rfl, (List.append_nil _).symm⟩
  · obtain ⟨hlt, hnonneg⟩ := not_or.mp hover
    have hnonneg : 0 ≤ emu.rasterCycle := by omega
    have hng := hng hnonneg (by omega)
    have hdiv : emu.rasterCycle.tdiv palCyclesPerLine = emu.rasterCycle / 64 :=
      Int.tdiv_eq_ediv_of_nonneg hnonneg
    have hlines : resumeLines emu = min 224 (emu.rasterCycle / 64) := by
      rw [resumeLines, hdiv]
      split_ifs <;> omega
    rw [emuClockResume, if_neg hover]
    dsimp only
    rw [hdiv]
    change RasterAt _ (if _ then _ else _)
    have hsame : resumeLines { emu with
        rasterNextLine := (emu.rasterCycle / 64 + 1) * palCyclesPerLine
        frameCycles := emu.rasterCycle } = resumeLines emu := rfl
    rw [hsame, hlines]
    simp only [foldl_call]
    split_ifs
    · refine ⟨hnonneg, rfl, rfl, hng, ?_⟩
      simp only [Emulator.call, renderedLines_append, renderedLines_scanlines, renderedLines_cells]
      simp [renderedLines]
    · refine ⟨hnonneg, rfl, rfl, hng, ?_⟩
      simp only [renderedLines_append, renderedLines_scanlines]

theorem emuClockFrameBegin_at {resumePending : Bool} {emu : Emulator}
    (hng : resumePending → 0 ≤ emu.rasterCycle → emu.rasterCycle < cyclesPerFrame →
      emu.rasterNgLine = min 312 (emu.rasterCycle / 64)) :
    RasterAt (renderedLines emu.video) (emuClockFrameBegin resumePending emu) := by
  cases resumePending with
  | true => exact emuClockResume_at (hng rfl)
  | false => exact ⟨le_rfl, rfl, rfl, rfl, (List.append_nil _).symm⟩

theorem emuClockFrameBegin_inUse (resumePending : Bool) (emu : Emulator) :
    ulaCycleInUse (emuClockFrameBegin resumePending emu) = ulaCycleInUse emu := by
  unfold emuClockFrameBegin emuClockResume
  dsimp only
  simp only [foldl_call]
  split_ifs <;> rfl

/-- The end of the frame completes the picture. -/
theorem emuClockFrameEnd_lines {base : List Int} {emu : Emulator} (hnonneg : 0 ≤ emu.rasterRendered)
    (hle : emu.rasterRendered ≤ 224)
    (h : renderedLines emu.video = base ++ upTo emu.rasterRendered) :
    renderedLines (emuClockFrameEnd emu).video = base ++ upTo 224 := by
  induction emu using emuClockFrameEnd.induct with
  | case1 emu hlt ih =>
    rw [emuClockFrameEnd, if_pos hlt]
    refine ih ?_ ?_ ?_
    · dsimp only
      omega
    · dsimp only
      omega
    · simp only [Emulator.call, renderedLines_append, h, upTo_succ hnonneg, List.append_assoc]
      rfl
  | case2 emu hdone =>
    have hall : emu.rasterRendered = 224 := by omega
    rw [emuClockFrameEnd, if_neg hdone, h, hall]

/-- A frame, begun afresh or at a position saved by an earlier run: after any steps of positive
length the beam has advanced by their cycles, the lines rendered are the visible ones it has
finished, those ticked (before the save or since) are the frame's lines it has finished, each once
and in order, and the end of the frame renders the visible lines that are left. -/
theorem clockRun_frame (resumePending : Bool) (emu : Emulator)
    (hsaved : resumePending → 0 ≤ emu.rasterCycle → emu.rasterCycle < cyclesPerFrame →
      emu.rasterNgLine = min 312 (emu.rasterCycle / 64))
    (steps : List ClockStep)
    (hsteps : ∀ n, .instruction n ∈ steps → 0 < n ∧ ulaCycleInUse emu = false) :
    let start := emuClockFrameBegin resumePending emu
    let ticks := trace clockStep clockTicks steps start
    let emu' := steps.foldl clockStep start
    emu'.rasterCycle = start.rasterCycle + (steps.map ClockStep.cycles).sum ∧
      emu'.rasterNextLine = (emu'.rasterCycle / 64 + 1) * 64 ∧
      renderedLines emu'.video =
        renderedLines emu.video ++ upTo (min 224 (emu'.rasterCycle / 64)) ∧
      upTo start.rasterNgLine ++ ticks = upTo (min 312 (emu'.rasterCycle / 64)) ∧
      emu'.ulaNg = ticks.foldl ulaNgScanline start.ulaNg ∧
      renderedLines (emuClockFrameEnd emu').video = renderedLines emu.video ++ upTo 224 := by
  intro start ticks emu'
  have hinUse : ulaCycleInUse start = ulaCycleInUse emu := emuClockFrameBegin_inUse _ emu
  have hdone : RasterStepped (renderedLines emu.video) start ticks emu' :=
    clockRun_stepped steps (emuClockFrameBegin_at hsaved) fun n hmem => hinUse ▸ hsteps n hmem
  have hplaced := hdone.placed
  have hrendered := hplaced.rendered
  have hnonneg := hplaced.nonneg
  refine ⟨clockRun_rasterCycle steps start, hplaced.next, ?_, ?_, hdone.ulaNg, ?_⟩
  · rw [hplaced.lines, hrendered]
  · rw [hdone.ticked, hplaced.ng]
  · exact emuClockFrameEnd_lines (by omega) (by omega) hplaced.lines

/-- Two instructions of the indivisible core, the second longer than a line. -/
theorem clockRun_frame_instructions :
    let start := emuClockFrameBegin false { emuSample 0xEA#8 with microseq := false }
    let steps : List ClockStep := [.instruction 7, .instruction 200]
    let ticks := trace clockStep clockTicks steps start
    let emu' := steps.foldl clockStep start
    emu'.rasterCycle = start.rasterCycle + (steps.map ClockStep.cycles).sum ∧
      emu'.rasterNextLine = (emu'.rasterCycle / 64 + 1) * 64 ∧
      renderedLines emu'.video = renderedLines [] ++ upTo (min 224 (emu'.rasterCycle / 64)) ∧
      upTo start.rasterNgLine ++ ticks = upTo (min 312 (emu'.rasterCycle / 64)) ∧
      emu'.ulaNg = ticks.foldl ulaNgScanline start.ulaNg ∧
      renderedLines (emuClockFrameEnd emu').video = renderedLines [] ++ upTo 224 :=
  clockRun_frame false { emuSample 0xEA#8 with microseq := false } nofun
    [.instruction 7, .instruction 200] (by
      intro n hmem
      simp only [List.mem_cons, ClockStep.instruction.injEq, List.not_mem_nil, or_false] at hmem
      exact ⟨by omega, rfl⟩)

end Phosphoric
