import Phosphoric.Video.Preview

/-!
# The log of a frame

The calls that the clock of `src/emu_clock.c` makes on the video output, as a function of the beam's
position: `clockCalls` for the frame scanned by steps of the clock, `resumeCalls` for the frame
taken up by `emu_clock_resume`.

**Theorem (`clockRun_log`).** However the steps cut the frame, its log is `clockCalls` of the beam's
position.

Once the picture is begun, either list begins line 0, and begins no other frame (`OneFrame`).
-/

namespace Phosphoric

/-! ## The calls of a frame -/

theorem upTo_add {a b : Int} (ha : 0 ≤ a) (hb : 0 ≤ b) :
    upTo (a + b) = upTo a ++ (upTo b).map (a + ·) := by
  have htoNat : (a + b).toNat = a.toNat + b.toNat := by omega
  rw [upTo, upTo, upTo, htoNat, List.range_add, List.map_append, List.map_map, List.map_map]
  congr 1
  apply List.map_congr_left
  intro i _
  simp only [Function.comp_apply, Int.ofNat_eq_natCast, Nat.cast_add, Int.toNat_of_nonneg ha]

theorem mem_upTo {n x : Int} (h : x ∈ upTo n) : 0 ≤ x ∧ x < n := by
  simp only [upTo, List.mem_map, List.mem_range] at h
  obtain ⟨i, hi, rfl⟩ := h
  simp only [Int.ofNat_eq_natCast]
  omega

theorem upTo_of_nonpos {n : Int} (h : n ≤ 0) : upTo n = [] := by
  rw [upTo, Int.toNat_of_nonpos h]
  rfl

/-- The calls of a line's first cycles. -/
def lineCalls (offset line dot : Int) : List VideoCall :=
  .lineBegin line :: (upTo (min (dot - offset) 41)).map (.cell line)

/-- The calls the clock makes up to a raster cycle. -/
def clockCalls (inUse : Bool) (offset cycle : Int) : List VideoCall :=
  if inUse then (upTo cycle).flatMap fun c => ulaCycleCalls offset (c / 64) (c % 64)
  else (upTo (min 224 (cycle / 64))).map .scanline

/-- The calls `emu_clock_resume` makes. -/
def resumeCalls (inUse : Bool) (offset cycle : Int) : List VideoCall :=
  (upTo (min 224 (cycle / 64))).map .scanline ++
    if inUse ∧ cycle / 64 < 224 then lineCalls offset (cycle / 64) (cycle % 64) else []

/-! ## The log of a frame -/

theorem rasterLine_screen (emu : Emulator) :
    (rasterLine emu).ulaFetchOffset = emu.ulaFetchOffset ∧
      (rasterLine emu).frameCycles = emu.frameCycles := by
  unfold rasterLine rasterNgTick rasterScanline
  dsimp only
  split_ifs <;> exact ⟨rfl, rfl⟩

/-- The per-cycle ULA leaves the catch-up loop nothing to render. -/
theorem rasterLines_video_inUse {emu : Emulator} (huse : ulaCycleInUse emu = true) :
    (rasterLines emu).video = emu.video := by
  have hline : ∀ emu : Emulator, ulaCycleInUse emu = true → (rasterLine emu).video = emu.video := by
    intro emu huse
    rw [(rasterLine_rendered emu).2, rasterScanline, huse]
    rfl
  fun_induction rasterLines emu with
  | case1 emu _ ih => rw [ih ((rasterLine_inUse emu).trans huse), hline emu huse]
  | case2 emu _ => exact hline emu huse

/-- The log holds the lines rendered, whole. -/
def WholeLines (base : List VideoCall) (emu : Emulator) : Prop :=
  0 ≤ emu.rasterRendered ∧ emu.video = base ++ (upTo emu.rasterRendered).map .scanline

theorem rasterLine_whole {base : List VideoCall} {emu : Emulator} (h : WholeLines base emu) :
    WholeLines base (rasterLine emu) := by
  obtain ⟨hrendered, hvideo⟩ := rasterLine_rendered emu
  obtain ⟨hpos, hlog⟩ := h
  rw [WholeLines, hrendered, hvideo, rasterScanline]
  split_ifs
  · refine ⟨?_, ?_⟩
    · dsimp only
      omega
    · simp only [Emulator.call, hlog, upTo_succ hpos, List.map_append, List.append_assoc]
      rfl
  · exact ⟨hpos, hlog⟩

theorem rasterLines_whole {base : List VideoCall} {emu : Emulator} (h : WholeLines base emu) :
    WholeLines base (rasterLines emu) := by
  fun_induction rasterLines emu with
  | case1 emu _ ih => exact ih (rasterLine_whole h)
  | case2 emu _ => exact rasterLine_whole h

theorem clockAdvanceRaster_whole {base : List VideoCall} {emu : Emulator} (h : WholeLines base emu)
    (cycles : Int) : WholeLines base (clockAdvanceRaster emu cycles) := by
  rw [clockAdvanceRaster]
  dsimp only
  split_ifs
  · exact h
  · exact rasterLines_whole h

theorem clockAdvanceRaster_video_inUse {emu : Emulator} (huse : ulaCycleInUse emu = true)
    (cycles : Int) : (clockAdvanceRaster emu cycles).video = emu.video := by
  rw [clockAdvanceRaster]
  dsimp only
  split_ifs
  · rfl
  · exact rasterLines_video_inUse huse

theorem clockCalls_succ {offset cycle : Int} (hcycle : 0 ≤ cycle) :
    clockCalls true offset (cycle + 1) =
      clockCalls true offset cycle ++ ulaCycleCalls offset (cycle / 64) (cycle % 64) := by
  rw [clockCalls, clockCalls, if_pos rfl, if_pos rfl, upTo_succ hcycle, List.flatMap_append,
    List.flatMap_singleton]

theorem rasterLines_fetchOffset (emu : Emulator) :
    (rasterLines emu).ulaFetchOffset = emu.ulaFetchOffset := by
  fun_induction rasterLines emu with
  | case1 emu _ ih => rw [ih, (rasterLine_screen emu).1]
  | case2 emu _ => exact (rasterLine_screen emu).1

theorem rasterLines_frameCycles (emu : Emulator) :
    (rasterLines emu).frameCycles = emu.frameCycles := by
  fun_induction rasterLines emu with
  | case1 emu _ ih => rw [ih, (rasterLine_screen emu).2]
  | case2 emu _ => exact (rasterLine_screen emu).2

theorem clockAdvanceRaster_fetchOffset (emu : Emulator) (cycles : Int) :
    (clockAdvanceRaster emu cycles).ulaFetchOffset = emu.ulaFetchOffset := by
  rw [clockAdvanceRaster]
  dsimp only
  split_ifs
  · rfl
  · exact rasterLines_fetchOffset _

theorem clockAdvanceRaster_frameCycles (emu : Emulator) (cycles : Int) :
    (clockAdvanceRaster emu cycles).frameCycles =
      (clockAdvanceRaster emu cycles).rasterCycle := by
  rw [clockAdvanceRaster]
  dsimp only
  split_ifs
  · rfl
  · rw [rasterLines_frameCycles, (rasterLines_keeps _).rasterCycle]

theorem clockUla_fetchOffset (emu : Emulator) :
    (clockUla emu).ulaFetchOffset = emu.ulaFetchOffset := by
  unfold clockUla ulaCycle
  dsimp only
  split_ifs <;> rfl

theorem clockStep_fetchOffset (emu : Emulator) (step : ClockStep) :
    (clockStep emu step).ulaFetchOffset = emu.ulaFetchOffset := by
  cases step with
  | cycle => exact (clockAdvanceRaster_fetchOffset _ 1).trans (clockUla_fetchOffset emu)
  | instruction n => exact clockAdvanceRaster_fetchOffset emu n

/-- The log of a frame is what the beam's position says. -/
structure FrameLog (base : List VideoCall) (emu : Emulator) : Prop where
  placed : RasterAt (renderedLines base) emu
  cycles : emu.frameCycles = emu.rasterCycle
  video : emu.video = base ++ clockCalls (ulaCycleInUse emu) emu.ulaFetchOffset emu.rasterCycle

theorem emuClockFrameBegin_log (emu : Emulator) :
    FrameLog emu.video (emuClockFrameBegin false emu) := by
  have hplaced : RasterAt (renderedLines emu.video) (emuClockFrameBegin false emu) :=
    emuClockFrameBegin_at nofun
  refine ⟨hplaced, rfl, ?_⟩
  have hnone : clockCalls (ulaCycleInUse emu) emu.ulaFetchOffset 0 = [] := by
    cases ulaCycleInUse emu <;> rfl
  change emu.video = emu.video ++ clockCalls (ulaCycleInUse emu) emu.ulaFetchOffset 0
  rw [hnone, List.append_nil]

/-- The step lemma. -/
theorem clockStep_log {base : List VideoCall} {emu : Emulator} (h : FrameLog base emu)
    (step : ClockStep)
    (hstep : ∀ n, step = .instruction n → 0 < n ∧ ulaCycleInUse emu = false) :
    FrameLog base (clockStep emu step) := by
  have hdone := clockStep_stepped h.placed step hstep
  have hcycles : (clockStep emu step).frameCycles = (clockStep emu step).rasterCycle := by
    cases step with
    | cycle => exact clockAdvanceRaster_frameCycles _ 1
    | instruction n => exact clockAdvanceRaster_frameCycles emu n
  refine ⟨hdone.placed, hcycles, ?_⟩
  have hvideo := h.video
  rw [hdone.inUse, clockStep_fetchOffset]
  cases huse : ulaCycleInUse emu with
  | false =>
    -- the lines rendered are whole, and they are those the beam has finished
    have hrendered := h.placed.rendered
    have hnonneg := h.placed.nonneg
    have hwhole : WholeLines base emu := by
      rw [huse] at hvideo
      refine ⟨by omega, ?_⟩
      rw [hvideo, hrendered]
      rfl
    have hnext : WholeLines base (clockStep emu step) := by
      cases step with
      | cycle =>
        have hula : clockUla emu = emu := by simp [clockUla, huse]
        rw [clockStep, hula]
        exact clockAdvanceRaster_whole hwhole 1
      | instruction n => exact clockAdvanceRaster_whole hwhole n
    rw [hnext.2, hdone.placed.rendered]
    rfl
  | true =>
    cases step with
    | instruction n => simp [huse] at hstep
    | cycle =>
      have hnonneg := h.placed.nonneg
      have hcycle := clockStep_rasterCycle emu .cycle
      have huse' : ulaCycleInUse (clockUla emu) = true := (clockUla_keeps emu).inUse.trans huse
      have hdiv : emu.rasterCycle.tdiv palCyclesPerLine = emu.rasterCycle / 64 :=
        Int.tdiv_eq_ediv_of_nonneg hnonneg
      have hmod : emu.rasterCycle.tmod palCyclesPerLine = emu.rasterCycle % 64 :=
        Int.tmod_eq_emod_of_nonneg hnonneg
      rw [hcycle, ClockStep.cycles, clockCalls_succ hnonneg, clockStep,
        clockAdvanceRaster_video_inUse huse', clockUla, if_pos huse, (ulaCycle_video _ _ _).1,
        hvideo, huse, hdiv, hmod, List.append_assoc]

theorem clockRun_log {base : List VideoCall} (steps : List ClockStep) {emu : Emulator}
    (h : FrameLog base emu)
    (hsteps : ∀ n, .instruction n ∈ steps → 0 < n ∧ ulaCycleInUse emu = false) :
    FrameLog base (steps.foldl clockStep emu) := by
  induction steps generalizing emu with
  | nil => exact h
  | cons step steps ih =>
    have hstep : ∀ n, step = .instruction n → 0 < n ∧ ulaCycleInUse emu = false := by
      rintro n rfl
      exact hsteps n (.head _)
    have hinUse := (clockStep_stepped h.placed step hstep).inUse
    exact ih (clockStep_log h step hstep) fun n hmem => hinUse ▸ hsteps n (.tail _ hmem)

/-- What a resume does to a clock whose position is within a frame. -/
theorem emuClockResume_eq {emu : Emulator} (hcycle : 0 ≤ emu.rasterCycle)
    (hframe : emu.rasterCycle < cyclesPerFrame) :
    emuClockResume emu =
      { emu with
        rasterNextLine := (emu.rasterCycle / 64 + 1) * 64, frameCycles := emu.rasterCycle
        rasterRendered := min 224 (emu.rasterCycle / 64)
        video := emu.video ++
          resumeCalls (ulaCycleInUse emu) emu.ulaFetchOffset emu.rasterCycle } := by
  have hinside : ¬(emu.rasterCycle ≥ cyclesPerFrame ∨ emu.rasterCycle < 0) := by omega
  have hdiv : emu.rasterCycle.tdiv palCyclesPerLine = emu.rasterCycle / 64 :=
    Int.tdiv_eq_ediv_of_nonneg hcycle
  have hmod : emu.rasterCycle.tmod palCyclesPerLine = emu.rasterCycle % 64 :=
    Int.tmod_eq_emod_of_nonneg hcycle
  have hlines : resumeLines emu = min 224 (emu.rasterCycle / 64) := by
    rw [resumeLines, hdiv]
    split_ifs <;> omega
  have hsame : resumeLines { emu with
      rasterNextLine := (emu.rasterCycle / 64 + 1) * palCyclesPerLine
      frameCycles := emu.rasterCycle } = resumeLines emu := rfl
  rw [emuClockResume, if_neg hinside]
  dsimp only
  rw [hdiv, hmod, hsame, hlines]
  simp only [foldl_call]
  rw [resumeCalls]
  by_cases hcells : ulaCycleInUse emu = true ∧ emu.rasterCycle / 64 < 224
  · rw [if_pos hcells]
    change (if ulaCycleInUse emu = true ∧ emu.rasterCycle / 64 < 224 then _ else _) = _
    rw [if_pos hcells]
    simp [Emulator.call, lineCalls]
  · rw [if_neg hcells]
    change (if ulaCycleInUse emu = true ∧ emu.rasterCycle / 64 < 224 then _ else _) = _
    rw [if_neg hcells]
    simp

/-! ## Frames begun -/

/-- The calls begin one frame. -/
def OneFrame (calls : List VideoCall) : Prop :=
  ∃ rest, (∀ call ∈ rest, ¬call.beginsFrame) ∧
    ∀ (mem : Nat → Byte) (vid : Video), calls.foldl (videoCall mem) vid = frameCalls mem rest vid

theorem OneFrame.append {calls more : List VideoCall} (h : OneFrame calls)
    (hmore : ∀ call ∈ more, ¬call.beginsFrame) : OneFrame (calls ++ more) := by
  obtain ⟨rest, hrest, hcalls⟩ := h
  refine ⟨rest ++ more, ?_, ?_⟩
  · intro call hmem
    exact (List.mem_append.mp hmem).elim (hrest call) (hmore call)
  · intro mem vid
    rw [List.foldl_append, hcalls, frameCalls, frameCalls, List.foldl_append]

theorem oneFrame_lineBegin {calls : List VideoCall} (h : ∀ call ∈ calls, ¬call.beginsFrame) :
    OneFrame (.lineBegin 0 :: calls) := ⟨calls, h, fun _ _ => rfl⟩

theorem oneFrame_scanlines {n : Int} (hn : 0 < n) : OneFrame ((upTo n).map .scanline) := by
  obtain ⟨ys, hys, hne⟩ := upTo_cons hn
  refine ⟨linesAfterBegin ys, linesAfterBegin_frame hne, ?_⟩
  intro mem vid
  rw [hys, scanlines_frameCalls]

/-- The calls are cells of the line. -/
def AllCells (line : Int) (calls : List VideoCall) : Prop :=
  ∀ call ∈ calls, ∃ col, call = .cell line col

theorem AllCells.frame {line : Int} {calls : List VideoCall} (h : AllCells line calls) :
    ∀ call ∈ calls, ¬call.beginsFrame := by
  intro call hmem
  obtain ⟨col, rfl⟩ := h call hmem
  exact id

theorem allCells_map (line : Int) (cols : List Int) : AllCells line (cols.map (.cell line)) := by
  intro call hmem
  obtain ⟨col, -, rfl⟩ := List.mem_map.mp hmem
  exact ⟨col, rfl⟩

theorem resumeCalls_frame {inUse : Bool} {cycle : Int} (offset : Int)
    (hbegun : if inUse then 0 < cycle else 64 ≤ cycle) :
    OneFrame (resumeCalls inUse offset cycle) := by
  have hcells := fun line dot => (allCells_map line (upTo (min (dot - offset) 41))).frame
  by_cases hline : cycle / 64 = 0
  · have huse : inUse = true := by
      cases inUse
      · simp only [Bool.false_eq_true, if_false] at hbegun
        omega
      · rfl
    rw [resumeCalls, hline, if_pos ⟨huse, by decide⟩]
    exact oneFrame_lineBegin (hcells 0 _)
  · have hpos : 0 < cycle := by
      split_ifs at hbegun <;> omega
    refine (oneFrame_scanlines (by omega)).append ?_
    intro call hmem
    split_ifs at hmem
    · rcases List.mem_cons.mp hmem with rfl | hmem
      · exact hline
      · exact hcells _ _ call hmem
    · nomatch hmem

theorem ulaCycleCalls_frame {offset line dot : Int} (h : dot = 0 → line ≠ 0) :
    ∀ call ∈ ulaCycleCalls offset line dot, ¬call.beginsFrame := by
  intro call hmem
  rw [ulaCycleCalls] at hmem
  split_ifs at hmem with hblank hdot <;> simp only [List.mem_append, List.mem_singleton,
    List.not_mem_nil, or_false, false_or] at hmem
  all_goals rcases hmem with (rfl | rfl) | rfl <;> first | exact h hdot | exact id

theorem clockCalls_frame {inUse : Bool} {cycle : Int} (offset : Int)
    (hbegun : if inUse then 0 < cycle else 64 ≤ cycle) :
    OneFrame (clockCalls inUse offset cycle) := by
  cases inUse with
  | false =>
    have hlines : 0 < min 224 (cycle / 64) := by
      simp only [Bool.false_eq_true, if_false] at hbegun
      omega
    exact oneFrame_scanlines hlines
  | true =>
    obtain ⟨cs, hcs, hne⟩ := upTo_cons (n := cycle) hbegun
    have hmem : ∀ c ∈ cs, 0 < c := by
      intro c hc
      have hall : c ∈ upTo cycle := hcs ▸ List.mem_cons_of_mem 0 hc
      have := (mem_upTo hall).1
      have := hne c hc
      omega
    have hfirst : ∃ cells, ulaCycleCalls offset (0 / 64) (0 % 64) = .lineBegin 0 :: cells ∧
        ∀ call ∈ cells, ¬call.beginsFrame := by
      refine ⟨if 0 ≤ 0 - offset ∧ 0 - offset ≤ 40 then [.cell 0 (0 - offset)] else [], ?_, ?_⟩
      · have hlast : ¬(0 : Int) = palCyclesPerLine - 1 := by decide
        simp [ulaCycleCalls, hlast]
      · split_ifs <;> simp [VideoCall.beginsFrame]
    obtain ⟨cells, hfirst, hcells⟩ := hfirst
    rw [clockCalls, if_pos rfl, hcs, List.flatMap_cons, hfirst]
    refine (oneFrame_lineBegin hcells).append ?_
    intro call hcall
    obtain ⟨c, hc, hcall⟩ := List.mem_flatMap.mp hcall
    have := hmem c hc
    exact ulaCycleCalls_frame (by omega) call hcall

/-- Inside a line, the line has been begun and only cells followed. -/
theorem ulaCycleCalls_part (offset : Int) {line dot : Int} (hline : line < 224)
    (hdot : 0 < dot ∧ dot < 64) :
    ∃ cells, (upTo dot).flatMap (ulaCycleCalls offset line) = .lineBegin line :: cells ∧
      AllCells line cells := by
  have hvisible : ¬line ≥ 224 := by omega
  obtain ⟨n, rfl⟩ : ∃ n : Nat, dot = n + 1 := ⟨(dot - 1).toNat, by omega⟩
  have hcell : ∀ i : Int, AllCells line
      (if 0 ≤ i - offset ∧ i - offset ≤ 40 then [.cell line (i - offset)] else []) := by
    intro i
    split_ifs
    · exact allCells_map line [i - offset]
    · exact nofun
  induction n with
  | zero =>
    refine ⟨_, ?_, hcell 0⟩
    rw [show upTo ((0 : Nat) + 1 : Int) = [0] from rfl, List.flatMap_singleton, ulaCycleCalls,
      if_neg hvisible, if_pos rfl, if_neg (show ¬(0 : Int) = palCyclesPerLine - 1 by decide),
      List.append_nil]
    rfl
  | succ n ih =>
    obtain ⟨cells, hcalls, hcells⟩ := ih (by omega)
    have hstep : upTo ((n + 1 : Nat) + 1 : Int) = upTo (n + 1 : Int) ++ [(n + 1 : Int)] := by
      rw [Nat.cast_succ]
      exact upTo_succ (by omega)
    have hlast : ¬((n : Int) + 1 = palCyclesPerLine - 1) := by
      simp only [palCyclesPerLine]
      omega
    refine ⟨cells ++ if 0 ≤ (n : Int) + 1 - offset ∧ (n : Int) + 1 - offset ≤ 40 then
      [.cell line (n + 1 - offset)] else [], ?_, ?_⟩
    · rw [hstep, List.flatMap_append, hcalls, List.flatMap_singleton, ulaCycleCalls,
        if_neg hvisible, if_neg (by omega), if_neg hlast, List.nil_append, List.append_nil,
        List.cons_append]
    · intro call hmem
      exact (List.mem_append.mp hmem).elim (hcells call) (hcell (n + 1) call)

/-- Inside a line, what was called ends with the line's begin and cells. -/
theorem clockCalls_part (offset : Int) {cycle : Int} (hcycle : 0 ≤ cycle)
    (hmid : cycle % 64 ≠ 0 ∧ cycle / 64 < 224) :
    ∃ before cells, clockCalls true offset cycle = before ++ .lineBegin (cycle / 64) :: cells ∧
      AllCells (cycle / 64) cells := by
  have hdot : 0 < cycle % 64 ∧ cycle % 64 < 64 := by omega
  obtain ⟨cells, hcells, hall⟩ := ulaCycleCalls_part offset hmid.2 hdot
  refine ⟨clockCalls true offset (64 * (cycle / 64)), cells, ?_, hall⟩
  have hrest : ∀ i ∈ upTo (cycle % 64), ulaCycleCalls offset ((64 * (cycle / 64) + i) / 64)
      ((64 * (cycle / 64) + i) % 64) = ulaCycleCalls offset (cycle / 64) i := by
    intro i hmem
    obtain ⟨hlo, hhi⟩ := mem_upTo hmem
    have hdiv : (64 * (cycle / 64) + i) / 64 = cycle / 64 := by omega
    have hmod : (64 * (cycle / 64) + i) % 64 = i := by omega
    rw [hdiv, hmod]
  have hsplit : upTo cycle =
      upTo (64 * (cycle / 64)) ++ (upTo (cycle % 64)).map (64 * (cycle / 64) + ·) := by
    rw [← upTo_add (by omega) (by omega)]
    congr 1
    omega
  rw [clockCalls, if_pos rfl, hsplit, List.flatMap_append, List.flatMap_map,
    List.flatMap_congr hrest, hcells]
  rfl

end Phosphoric
