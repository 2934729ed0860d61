import Phosphoric.Emu.FrameLog

/-!
# A picture resumed

What `savestate_load` and then `emu_clock_frame_begin` make of a picture interrupted: the preview of
the VID section, the lines above the beam rendered again, and the rest of the run.

**Theorem (`savestate_frame_resumed`).** The machine restored goes on drawing as the machine saved
exactly when it had counted one frame less than the machine saved at the frame's start, and what RAM
leaves above the beam is the same from the mode that the preview ends with.

The frame counter is not saved, and both the preview and the frame taken up count one: a state
loaded back into its own machine is two frames ahead (`savestate_frame_resumed_blink`).
-/

namespace Phosphoric

/-! ## Going on -/

/-- What the clock goes on with. -/
inductive ClockEvent
  | step (step : ClockStep)
  | nextFrame

def clockEvent (emu : Emulator) : ClockEvent → Emulator
  | .step step => clockStep emu step
  | .nextFrame => emuClockFrameBegin false (emuClockFrameEnd emu)

/-- The calls go to the video output, RAM being `mems i` at the `i`-th. -/
def playCalls (mems : Nat → Nat → Byte) (calls : List VideoCall) (vid : Video) : Video :=
  calls.zipIdx.foldl (fun vid call => videoCall (mems call.2) vid call.1) vid

/-- The video output after the clock has gone on. -/
def playRest (mems : Nat → Nat → Byte) (emu : Emulator) (events : List ClockEvent) (vid : Video) :
    Video :=
  playCalls mems (events.foldl clockEvent { emu with video := [] }).video vid

theorem Alike.playCalls {blink : Prop} {fb fb' : Nat → Byte} {vid vid' : Video}
    (h : Alike blink fb fb' vid vid') (mems : Nat → Nat → Byte) (calls : List VideoCall) :
    Alike blink fb fb' (playCalls mems calls vid) (playCalls mems calls vid') :=
  Alike.foldl _ _ (fun _ _ call h => h.videoCall (mems call.2) call.1) calls.zipIdx h

/-- The call begins a visible line. -/
def VideoCall.beginsLine (call : VideoCall) : Prop :=
  ∃ y, (0 ≤ y ∧ y < 224) ∧ (call = .lineBegin y ∨ call = .scanline y)

/-- The palette a line latches. -/
def ngPalette (ng : VideoNg) : Fin 8 → Rgb :=
  match latched ng.ngActive, ng.ngPal with
  | true, some pal => fun i => pal (i.castLE palette_le)
  | _, _ => oricPalette

theorem paletteLatch_eq (vid : Video) :
    paletteLatch vid = { vid with palRgb := ngPalette vid.ng } := by
  rw [paletteLatch, ngPalette]
  cases latched vid.ng.ngActive <;> cases vid.ng.ngPal <;> rfl

/-- The latches and attributes of a line begun. -/
def relined (vid : Video) : Video := lineLatch (paletteLatch vid)

theorem relined_eq (vid : Video) :
    relined vid = lineLatch { vid with palRgb := ngPalette vid.ng } := by
  rw [relined, paletteLatch_eq]

theorem relined_serial (vid : Video) :
    (relined vid).serial = (vid.mode, 0#8, oricWhite, oricBlack) := by
  rw [relined_eq]
  rfl

theorem relined_keeps (vid : Video) :
    (relined vid).framebuffer = vid.framebuffer ∧
      (relined vid).frameCounter = vid.frameCounter := by
  rw [relined_eq]
  exact ⟨rfl, rfl⟩

theorem relined_relined (vid : Video) : relined (relined vid) = relined vid := by
  rw [relined_eq (relined vid), relined_eq vid]
  rfl

theorem frameLatch_relined (vid : Video) : frameLatch (relined vid) = relined (frameLatch vid) := by
  rw [relined_eq, relined_eq]
  by_cases hchange : (latched vid.ng.ngChunkyActive != vid.ngChunky ||
      latched vid.ng.ngText80Active != vid.ngText80) = true
  · have hframe : frameLatch vid = _ := if_pos hchange
    rw [hframe]
    exact if_pos hchange
  · have hframe : frameLatch vid = _ := if_neg hchange
    rw [hframe]
    exact if_neg hchange

/-- A line's begin does not look at what the line before left. -/
theorem videoLineBegin_relined {y : Int} (hy : 0 ≤ y ∧ y < 224) (vid : Video) :
    videoLineBegin y (relined vid) = videoLineBegin y vid := by
  rw [videoLineBegin_eq hy, videoLineBegin_eq hy]
  change relined _ = relined _
  split_ifs
  · rw [frameLatch_relined, relined_relined]
  · exact relined_relined vid

theorem videoCall_relined {call : VideoCall} (h : call.beginsLine) (mem : Nat → Byte)
    (vid : Video) : videoCall mem (relined vid) call = videoCall mem vid call := by
  obtain ⟨y, hy, rfl | rfl⟩ := h
  · exact videoLineBegin_relined hy vid
  · change videoRenderScanline mem y (relined vid) = videoRenderScanline mem y vid
    have hvisible : ¬(y < 0 ∨ y ≥ 224) := by omega
    rw [videoRenderScanline, videoRenderScanline, if_neg hvisible, if_neg hvisible,
      videoLineBegin_relined hy]

/-- With the mode, the frame counter and the latches of the frame equal, a line begun draws the same
pixels whatever the attributes were. -/
theorem playCalls_beginsLine {vid vid' : Video} (hconfig : vid.config = vid'.config)
    (hmode : vid.mode = vid'.mode) (hcounter : vid.frameCounter = vid'.frameCounter)
    {calls : List VideoCall} (hcalls : ∀ call ∈ calls.head?, call.beginsLine)
    (mems : Nat → Nat → Byte) :
    DrawnAlike vid.framebuffer vid'.framebuffer (playCalls mems calls vid)
      (playCalls mems calls vid') := by
  cases calls with
  | nil => exact fun i => .inr ⟨rfl, rfl⟩
  | cons call calls =>
    have hbegins : call.beginsLine := hcalls call rfl
    have hrelined : ∀ vid, playCalls mems (call :: calls) (relined vid) =
        playCalls mems (call :: calls) vid := by
      intro vid
      rw [playCalls, playCalls, List.zipIdx_cons, List.foldl_cons, List.foldl_cons,
        videoCall_relined hbegins]
    have hlatches : (relined vid).latches = (relined vid').latches := by
      rw [relined, relined, lineLatch_latches, lineLatch_latches, hconfig]
    have hserial : (relined vid).serial = (relined vid').serial := by
      rw [relined_serial, relined_serial, hmode]
    have halike : Alike True vid.framebuffer vid'.framebuffer (relined vid) (relined vid') := by
      refine ⟨source_ext hlatches hserial, ?_, ?_⟩
      · intro _
        rw [(relined_keeps vid).2, (relined_keeps vid').2, hcounter]
      · intro _ i
        rw [(relined_keeps vid).1, (relined_keeps vid').1]
        exact .inr ⟨rfl, rfl⟩
    have hdrawn := (halike.playCalls mems (call :: calls)).drawn trivial
    rwa [hrelined, hrelined] at hdrawn

/-- The log is empty or begins with a line's begin. -/
def LineLog (emu : Emulator) : Prop :=
  emu.video = [] ∧ 0 ≤ emu.rasterRendered ∨ ∃ call rest, emu.video = call :: rest ∧ call.beginsLine

theorem rasterLine_log {emu : Emulator} (h : LineLog emu) : LineLog (rasterLine emu) := by
  obtain ⟨hrendered, hvideo⟩ := rasterLine_rendered emu
  rw [LineLog, hrendered, hvideo, rasterScanline]
  split_ifs with hline
  · obtain ⟨hempty, hpos⟩ | ⟨call, rest, hlog, hbegins⟩ := h
    · have hvisible : emu.rasterRendered < 224 := by simpa using (Bool.and_eq_true_iff.mp hline).2
      refine .inr ⟨.scanline emu.rasterRendered, [], ?_, _, ⟨hpos, hvisible⟩, .inr rfl⟩
      simp [Emulator.call, hempty]
    · exact .inr ⟨call, _, by simp [Emulator.call, hlog]; rfl, hbegins⟩
  · exact h

theorem rasterLines_log {emu : Emulator} (h : LineLog emu) : LineLog (rasterLines emu) := by
  fun_induction rasterLines emu with
  | case1 emu _ ih => exact ih (rasterLine_log h)
  | case2 emu _ => exact rasterLine_log h

theorem clockAdvanceRaster_log {emu : Emulator} (h : LineLog emu) (cycles : Int) :
    LineLog (clockAdvanceRaster emu cycles) := by
  rw [clockAdvanceRaster]
  dsimp only
  split_ifs
  · exact h
  · exact rasterLines_log h

theorem emuClockFrameEnd_log {emu : Emulator} (h : LineLog emu) :
    LineLog (emuClockFrameEnd emu) := by
  induction emu using emuClockFrameEnd.induct with
  | case1 emu hlt ih =>
    rw [emuClockFrameEnd, if_pos hlt]
    refine ih (.inr ?_)
    obtain ⟨hempty, hpos⟩ | ⟨call, rest, hlog, hbegins⟩ := h
    · refine ⟨.scanline emu.rasterRendered, [], ?_, _, ⟨hpos, hlt⟩, .inr rfl⟩
      simp [Emulator.call, hempty]
    · exact ⟨call, rest ++ [.scanline emu.rasterRendered], by simp [Emulator.call, hlog], hbegins⟩
  | case2 emu hdone =>
    rw [emuClockFrameEnd, if_neg hdone]
    exact h

/-- The clock has begun a line since the log was emptied, or it is about to. -/
structure RestLog (emu : Emulator) : Prop where
  nonneg : 0 ≤ emu.rasterCycle
  log : LineLog emu
  dot : emu.video = [] → ulaCycleInUse emu = true →
    emu.rasterCycle % 64 = 0 ∨ 224 ≤ emu.rasterCycle / 64

theorem emuClockFrameEnd_inUse (emu : Emulator) :
    ulaCycleInUse (emuClockFrameEnd emu) = ulaCycleInUse emu := by
  induction emu using emuClockFrameEnd.induct with
  | case1 emu hlt ih =>
    rw [emuClockFrameEnd, if_pos hlt, ih]
    rfl
  | case2 emu hdone => rw [emuClockFrameEnd, if_neg hdone]

/-- The screen's part of a cycle begins a line first. -/
theorem clockUla_log {emu : Emulator} (h : RestLog emu) (huse : ulaCycleInUse emu = true) :
    LineLog (clockUla emu) ∧
      ((clockUla emu).video = [] → emu.video = [] ∧ 224 ≤ emu.rasterCycle / 64) := by
  have hdiv : emu.rasterCycle.tdiv palCyclesPerLine = emu.rasterCycle / 64 :=
    Int.tdiv_eq_ediv_of_nonneg h.nonneg
  have hmod : emu.rasterCycle.tmod palCyclesPerLine = emu.rasterCycle % 64 :=
    Int.tmod_eq_emod_of_nonneg h.nonneg
  have hnonneg := h.nonneg
  rw [clockUla, if_pos huse, hdiv, hmod]
  obtain ⟨hempty, hpos⟩ | ⟨call, rest, hlog, hbegins⟩ := h.log
  · by_cases hblank : emu.rasterCycle / 64 ≥ 224
    · rw [ulaCycle, if_pos hblank]
      exact ⟨.inl ⟨hempty, hpos⟩, fun _ => ⟨hempty, hblank⟩⟩
    · have hdot : emu.rasterCycle % 64 = 0 := (h.dot hempty huse).resolve_right hblank
      have hvideo := (ulaCycle_video emu (emu.rasterCycle / 64) (emu.rasterCycle % 64)).1
      rw [hempty, ulaCycleCalls, if_neg hblank, if_pos hdot] at hvideo
      refine ⟨.inr ⟨_, _, hvideo, _, ⟨by omega, by omega⟩, .inl rfl⟩, ?_⟩
      intro hnone
      rw [hvideo] at hnone
      exact absurd hnone (List.cons_ne_nil _ _)
  · have hvideo := (ulaCycle_video emu (emu.rasterCycle / 64) (emu.rasterCycle % 64)).1
    rw [hlog] at hvideo
    refine ⟨.inr ⟨_, _, hvideo, hbegins⟩, ?_⟩
    intro hnone
    rw [hvideo] at hnone
    exact absurd hnone (List.cons_ne_nil _ _)

theorem clockStep_restLog {emu : Emulator} (h : RestLog emu) (step : ClockStep)
    (hstep : ∀ n, step = .instruction n → 0 < n ∧ ulaCycleInUse emu = false) :
    RestLog (clockStep emu step) ∧ ulaCycleInUse (clockStep emu step) = ulaCycleInUse emu := by
  have hnonneg := h.nonneg
  have hcycle := clockStep_rasterCycle emu step
  have hadvance : ∀ (emu : Emulator) (n : Int),
      ulaCycleInUse (clockAdvanceRaster emu n) = ulaCycleInUse emu := by
    intro emu n
    rw [clockAdvanceRaster]
    dsimp only
    split_ifs
    · rfl
    · exact rasterLines_inUse _
  have hinUse : ulaCycleInUse (clockStep emu step) = ulaCycleInUse emu := by
    cases step with
    | cycle => exact (hadvance _ 1).trans (clockUla_keeps emu).inUse
    | instruction n => exact hadvance emu n
  refine ⟨?_, hinUse⟩
  cases step with
  | instruction n =>
    obtain ⟨hpos, huse⟩ := hstep n rfl
    refine ⟨?_, clockAdvanceRaster_log h.log n, ?_⟩
    · rw [hcycle, ClockStep.cycles]
      omega
    · intro _ huse'
      rw [hinUse, huse] at huse'
      exact absurd huse' Bool.false_ne_true
  | cycle =>
    cases huse : ulaCycleInUse emu with
    | false =>
      have hula : clockUla emu = emu := by simp [clockUla, huse]
      refine ⟨?_, ?_, ?_⟩
      · rw [hcycle, ClockStep.cycles]
        omega
      · rw [clockStep, hula]
        exact clockAdvanceRaster_log h.log 1
      · intro _ huse'
        rw [hinUse, huse] at huse'
        exact absurd huse' Bool.false_ne_true
    | true =>
      obtain ⟨hlog, hempty⟩ := clockUla_log h huse
      refine ⟨?_, clockAdvanceRaster_log hlog 1, ?_⟩
      · rw [hcycle, ClockStep.cycles]
        omega
      · intro hnone _
        have huse' : ulaCycleInUse (clockUla emu) = true := (clockUla_keeps emu).inUse.trans huse
        rw [clockStep, clockAdvanceRaster_video_inUse huse'] at hnone
        have hline := (hempty hnone).2
        rw [hcycle, ClockStep.cycles]
        omega

theorem clockEvent_restLog {emu : Emulator} (h : RestLog emu) (event : ClockEvent)
    (hevent : ∀ n, event = .step (.instruction n) → 0 < n ∧ ulaCycleInUse emu = false) :
    RestLog (clockEvent emu event) ∧ ulaCycleInUse (clockEvent emu event) = ulaCycleInUse emu := by
  cases event with
  | step step =>
    refine clockStep_restLog h step ?_
    rintro n rfl
    exact hevent n rfl
  | nextFrame =>
    have hlog := emuClockFrameEnd_log h.log
    refine ⟨⟨le_rfl, ?_, fun _ _ => .inl rfl⟩, emuClockFrameEnd_inUse emu⟩
    exact hlog.imp (fun hempty => ⟨hempty.1, le_rfl⟩) id

/-- Outside the cells of a line, the next call begins a line. -/
theorem clockEvents_beginsLine (events : List ClockEvent) {emu : Emulator} (h : RestLog emu)
    (hevents : ∀ n, .step (.instruction n) ∈ events → 0 < n ∧ ulaCycleInUse emu = false) :
    ∀ call ∈ (events.foldl clockEvent emu).video.head?, call.beginsLine := by
  induction events generalizing emu with
  | nil =>
    intro call hcall
    obtain ⟨hempty, -⟩ | ⟨call', rest, hlog, hbegins⟩ := h.log
    · rw [List.foldl_nil, hempty] at hcall
      nomatch hcall
    · rw [List.foldl_nil, hlog] at hcall
      obtain rfl : call' = call := by simpa using hcall
      exact hbegins
  | cons event events ih =>
    have hevent : ∀ n, event = .step (.instruction n) → 0 < n ∧ ulaCycleInUse emu = false := by
      rintro n rfl
      exact hevents n (.head _)
    obtain ⟨hnext, hinUse⟩ := clockEvent_restLog h event hevent
    exact ih hnext fun n hmem => hinUse ▸ hevents n (.tail _ hmem)

/-! ## The frame resumed -/

/-- The beam is inside a visible line that the ULA fetches cycle by cycle. -/
def MidLine (emu : Emulator) : Prop :=
  ulaCycleInUse emu = true ∧ emu.rasterCycle % 64 ≠ 0 ∧ emu.rasterCycle / 64 < 224

/-- The machine `emu'` with `vid'` is as the machine `emu` with `vid` was: whatever the clock goes
on with, and however RAM changes in both, what is drawn from here on is the same. -/
structure Resumed (emu emu' : Emulator) (vid vid' : Video) : Prop where
  mode : vid'.mode = vid.mode
  frameCounter : vid'.frameCounter = vid.frameCounter
  serial : MidLine emu → vid'.serial = vid.serial
  drawn : ∀ (mems : Nat → Nat → Byte) (events : List ClockEvent),
    (∀ n, .step (.instruction n) ∈ events → 0 < n ∧ ulaCycleInUse emu = false) →
      DrawnAlike vid.framebuffer vid'.framebuffer (playRest mems emu events vid)
        (playRest mems emu' events vid')

/-- The frame up to the save. -/
def frameSaved (emu : Emulator) (steps : List ClockStep) : Emulator :=
  steps.foldl clockStep (emuClockFrameBegin false { emu with video := [] })

/-- `emu_clock_frame_begin` after the load. The position is restored; what the clock derives from it
(`next`, `cycles`) is the loader's. -/
def frameRestored (saved : Emulator) (next cycles : Int) : Emulator :=
  emuClockFrameBegin true
    { saved with video := [], rasterNextLine := next, frameCycles := cycles }

/-- The scan of the frame, from RAM, ends as the scan of the lines above the beam and of the cells
left of it from the mode that the whole picture leaves. -/
def ScansAlike (mem : Nat → Byte) (saved : Emulator) (start vid : Video) : Prop :=
  let left := (videoRenderFrame mem (start.withMode vid.mode)).mode
  let again := (resumeCalls (ulaCycleInUse saved) saved.ulaFetchOffset saved.rasterCycle).foldl
    (videoCall mem) (start.withMode left)
  again.mode = vid.mode ∧ (MidLine saved → again.serial = vid.serial)

theorem frameSaved_log (emu : Emulator) {steps : List ClockStep}
    (hsteps : ∀ n, .instruction n ∈ steps → 0 < n ∧ ulaCycleInUse emu = false) :
    FrameLog [] (frameSaved emu steps) :=
  clockRun_log steps (emuClockFrameBegin_log { emu with video := [] }) hsteps

theorem frameRestored_eq {saved : Emulator} (h : FrameLog [] saved)
    (hframe : saved.rasterCycle < cyclesPerFrame) (next cycles : Int) :
    frameRestored saved next cycles =
      { saved with
        video := resumeCalls (ulaCycleInUse saved) saved.ulaFetchOffset saved.rasterCycle } := by
  have hnext := h.placed.next
  have hrendered := h.placed.rendered
  have hcycles := h.cycles
  have hresume : emuClockResume
      { saved with video := [], rasterNextLine := next, frameCycles := cycles } = _ :=
    emuClockResume_eq h.placed.nonneg hframe
  refine hresume.trans ?_
  dsimp only
  rw [← hnext, ← hrendered, ← hcycles]
  rfl

/-- The picture is begun once the ULA has worked, or a line is finished. -/
theorem clockCalls_begun {inUse : Bool} {offset cycle : Int} (hcycle : 0 ≤ cycle)
    (hbegun : clockCalls inUse offset cycle ≠ []) :
    if inUse then 0 < cycle else 64 ≤ cycle := by
  cases inUse with
  | false =>
    by_contra hnone
    rw [if_neg Bool.false_ne_true] at hnone
    refine hbegun ?_
    rw [clockCalls, if_neg Bool.false_ne_true, upTo_of_nonpos (by omega)]
    rfl
  | true =>
    by_contra hnone
    rw [if_pos rfl] at hnone
    refine hbegun ?_
    rw [clockCalls, if_pos rfl, upTo_of_nonpos (by omega)]
    rfl

/-- Before that, the lines are rendered whole and the beam is in the first one. -/
theorem clockCalls_none {inUse : Bool} {offset cycle : Int} (hcycle : 0 < cycle)
    (hnone : clockCalls inUse offset cycle = []) : inUse = false ∧ cycle < 64 := by
  cases inUse with
  | false =>
    refine ⟨rfl, ?_⟩
    by_contra hline
    have hlines : 0 < min 224 (cycle / 64) := by omega
    obtain ⟨ys, hys, -⟩ := upTo_cons hlines
    rw [clockCalls, if_neg Bool.false_ne_true, hys] at hnone
    exact absurd hnone (List.cons_ne_nil _ _)
  | true =>
    obtain ⟨cs, hcs, -⟩ := upTo_cons hcycle
    rw [clockCalls, if_pos rfl, hcs, List.flatMap_cons] at hnone
    have hfirst := (List.append_eq_nil_iff.mp hnone).1
    simp [ulaCycleCalls] at hfirst

/-- A line begun and cells: the latches are those the line latches. -/
theorem begun_latches {line : Int} (hline : 0 ≤ line ∧ line < 224) {cells : List VideoCall}
    (hcells : AllCells line cells) (mem : Nat → Byte) (before : List VideoCall) (vid : Video) :
    let vid' := (before ++ .lineBegin line :: cells).foldl (videoCall mem) vid
    vid'.latches =
      { lineLatch (paletteLatch vid'.config) with
        textAttr := 0#8, lineInk := 0#8, linePaper := 0#8 } := by
  intro vid'
  have hkept : ∀ (cells : List VideoCall) (vid : Video), AllCells line cells →
      (cells.foldl (videoCall mem) vid).latches = vid.latches := by
    intro cells
    induction cells with
    | nil => exact fun _ _ => rfl
    | cons call cells ih =>
      intro vid hall
      obtain ⟨col, rfl⟩ := hall call (.head _)
      have hcell := latches_of_counted (videoRenderCell_counted mem line col vid)
      exact (ih _ fun call hmem => hall call (.tail _ hmem)).trans hcell
  let begun := before.foldl (videoCall mem) vid
  have hsplit : vid' = cells.foldl (videoCall mem) (videoLineBegin line begun) :=
    List.foldl_append
  have hbegin : vid'.latches = (videoLineBegin line begun).latches := by
    rw [hsplit]
    exact hkept cells _ hcells
  have hconfig := config_of_latches hbegin
  rw [hbegin, hconfig, videoLineBegin_eq hline, lineLatch_latches, lineLatch_config]

section Restored

variable {start loader : Video} {saved : Emulator} (mem : Nat → Byte)

/-- The frames the machine saved has counted since the frame's start. -/
def framesBegun (saved : Emulator) : BitVec 32 := if saved.video = [] then 0#32 else 1#32

/-- What the frame saved and the frame restored agree on in any case, and what they count. -/
structure RestoredFrames (saved : Emulator) (start loader vid vid' : Video) : Prop where
  config : vid.config = vid'.config
  counted : vid.frameCounter = start.frameCounter + framesBegun saved
  counted' : vid'.frameCounter = loader.frameCounter + 1#32 + framesBegun saved

theorem resumeCalls_none {saved : Emulator} (h : FrameLog [] saved) (hcycle : 0 < saved.rasterCycle)
    (hnone : saved.video = []) :
    resumeCalls (ulaCycleInUse saved) saved.ulaFetchOffset saved.rasterCycle = [] := by
  have hvideo := h.video
  rw [hnone, List.nil_append] at hvideo
  obtain ⟨huse, hline⟩ := clockCalls_none hcycle hvideo.symm
  rw [huse, resumeCalls, upTo_of_nonpos (by omega)]
  rfl

theorem restoredFrames (h : FrameLog [] saved) (hcycle : 0 < saved.rasterCycle)
    (hbegun : saved.video ≠ [] ∨ start.Latched) (hconfig : loader.config = start.config) :
    let vid := saved.video.foldl (videoCall mem) start
    RestoredFrames saved start loader vid
      ((resumeCalls (ulaCycleInUse saved) saved.ulaFetchOffset saved.rasterCycle).foldl
        (videoCall mem) (savestateLoadVid mem vid.mode loader)) := by
  intro vid
  by_cases hnone : saved.video = []
  · have hvid : vid = start := by
      change saved.video.foldl _ _ = _
      rw [hnone]
      rfl
    have hlatched := hbegun.resolve_left fun hsome => hsome hnone
    rw [resumeCalls_none h hcycle hnone, List.foldl_nil, hvid]
    refine ⟨?_, ?_, ?_⟩
    · rw [savestateLoadVid_config mem hconfig, frameLatch_of_latched hlatched]
    · rw [framesBegun, if_pos hnone, BitVec.add_zero]
    · rw [framesBegun, if_pos hnone, BitVec.add_zero, savestateLoadVid_frameCounter]
  · have hvideo := h.video
    rw [List.nil_append] at hvideo
    have hfirst := clockCalls_begun h.placed.nonneg (hvideo ▸ hnone)
    obtain ⟨rest, hrest, hcalls⟩ := clockCalls_frame saved.ulaFetchOffset hfirst
    obtain ⟨again, hagain, hresume⟩ := resumeCalls_frame saved.ulaFetchOffset hfirst
    have hvid : vid = frameCalls mem rest start := by
      rw [← hcalls, ← hvideo]
    rw [hresume]
    refine ⟨?_, ?_, ?_⟩
    · rw [hvid, frameCalls_config, frameCalls_config, savestateLoadVid_latch mem hconfig]
    · rw [hvid, frameCalls_frameCounter mem hrest, framesBegun, if_neg hnone]
    · rw [frameCalls_frameCounter mem hagain, savestateLoadVid_frameCounter, framesBegun,
        if_neg hnone]

/-- Inside a line the frame's picture has begun. -/
theorem MidLine.begun (hmid : MidLine saved) (h : FrameLog [] saved) : saved.video ≠ [] := by
  intro hnone
  obtain ⟨huse, hdot, -⟩ := hmid
  have hnonneg := h.placed.nonneg
  have hvideo := h.video
  rw [hnone, List.nil_append, huse] at hvideo
  nomatch (clockCalls_none (by omega) hvideo.symm).1

/-- The mode and the attributes restored are those of the second scan. -/
theorem restored_serial (h : FrameLog [] saved) (hbegun : saved.video ≠ [])
    (hconfig : loader.config = start.config) (mode : Byte × Bool) :
    ((resumeCalls (ulaCycleInUse saved) saved.ulaFetchOffset saved.rasterCycle).foldl
        (videoCall mem) (savestateLoadVid mem mode loader)).serial =
      ((resumeCalls (ulaCycleInUse saved) saved.ulaFetchOffset saved.rasterCycle).foldl
        (videoCall mem)
        (start.withMode (videoRenderFrame mem (start.withMode mode)).mode)).serial := by
  have hvideo := h.video
  rw [List.nil_append] at hvideo
  have hcycle := clockCalls_begun h.placed.nonneg (hvideo ▸ hbegun)
  obtain ⟨again, -, hresume⟩ := resumeCalls_frame saved.ulaFetchOffset hcycle
  rw [hresume, hresume]
  exact resumed_serial mem hconfig mode again

theorem restored_mode (h : FrameLog [] saved) (hcycle : 0 < saved.rasterCycle)
    (hconfig : loader.config = start.config) (mode : Byte × Bool) :
    ((resumeCalls (ulaCycleInUse saved) saved.ulaFetchOffset saved.rasterCycle).foldl
        (videoCall mem) (savestateLoadVid mem mode loader)).mode =
      ((resumeCalls (ulaCycleInUse saved) saved.ulaFetchOffset saved.rasterCycle).foldl
        (videoCall mem)
        (start.withMode (videoRenderFrame mem (start.withMode mode)).mode)).mode := by
  by_cases hnone : saved.video = []
  · rw [resumeCalls_none h hcycle hnone, List.foldl_nil, List.foldl_nil, withMode_mode]
    exact savestateLoadVid_mode mem hconfig mode
  · have hserial := congrArg Prod.fst (restored_serial mem h hnone hconfig mode)
    exact (serial_mode _).symm.trans (hserial.trans (serial_mode _))

/-- Inside a line, the line has been latched in both. -/
theorem restored_latches (h : FrameLog [] saved) (hmid : MidLine saved) {vid vid' : Video}
    (hconfig : (saved.video.foldl (videoCall mem) vid).config =
      ((resumeCalls (ulaCycleInUse saved) saved.ulaFetchOffset saved.rasterCycle).foldl
        (videoCall mem) vid').config) :
    (saved.video.foldl (videoCall mem) vid).latches =
      ((resumeCalls (ulaCycleInUse saved) saved.ulaFetchOffset saved.rasterCycle).foldl
        (videoCall mem) vid').latches := by
  obtain ⟨huse, hdot, hvisible⟩ := hmid
  have hnonneg := h.placed.nonneg
  have hline : 0 ≤ saved.rasterCycle / 64 ∧ saved.rasterCycle / 64 < 224 := ⟨by omega, hvisible⟩
  have hvideo := h.video
  rw [List.nil_append, huse] at hvideo
  obtain ⟨before, cells, hsaved, hcells⟩ :=
    clockCalls_part saved.ulaFetchOffset hnonneg ⟨hdot, hvisible⟩
  rw [hvideo, hsaved, resumeCalls, if_pos ⟨huse, hvisible⟩, lineCalls] at hconfig ⊢
  rw [begun_latches hline hcells, begun_latches hline (allCells_map _ _), hconfig]

/-- The calls of the frame taken up. -/
theorem frameRestored_foldl (h : FrameLog [] saved) (hframe : saved.rasterCycle < cyclesPerFrame)
    (next cycles : Int) (vid : Video) :
    (frameRestored saved next cycles).video.foldl (videoCall mem) vid =
      (resumeCalls (ulaCycleInUse saved) saved.ulaFetchOffset saved.rasterCycle).foldl
        (videoCall mem) vid := by
  rw [frameRestored_eq h hframe]

/-- A state loaded into the machine that saved it is ahead of it. -/
theorem not_resumed_back (h : FrameLog [] saved) (hbegun : saved.video ≠ [])
    (hcycle : 0 < saved.rasterCycle ∧ saved.rasterCycle < cyclesPerFrame)
    (hlatched : start.Latched) (next cycles : Int) :
    let vid := saved.video.foldl (videoCall mem) start
    ¬Resumed saved (frameRestored saved next cycles) vid
      ((frameRestored saved next cycles).video.foldl (videoCall mem)
        (savestateLoadVid mem vid.mode vid)) := by
  intro vid hresumed
  have hconfig : vid.config = start.config := videoCalls_config hlatched mem _
  have hcounter := hresumed.frameCounter
  rw [frameRestored_foldl mem h hcycle.2,
    (restoredFrames mem h hcycle.1 (.inl hbegun) hconfig).counted', framesBegun, if_neg hbegun]
    at hcounter
  generalize vid.frameCounter = counted at hcounter
  bv_omega

end Restored

/-- A state saved inside a frame, and loaded into a machine with the same registers of the ULA-NG,
goes on like the machine saved exactly when the loader had counted one frame less than the machine
saved had at the frame's start, and the second scan ends like the first. Before the first call of
the frame, no mode of the ULA-NG waits to be latched. -/
theorem savestate_frame_resumed (emu : Emulator) (start loader : Video) (mem : Nat → Byte)
    (steps : List ClockStep) (next cycles : Int)
    (hsteps : ∀ n, .instruction n ∈ steps → 0 < n ∧ ulaCycleInUse emu = false)
    (hframe : 0 < (frameSaved emu steps).rasterCycle ∧
      (frameSaved emu steps).rasterCycle < cyclesPerFrame)
    (hbegun : (frameSaved emu steps).video ≠ [] ∨ start.Latched)
    (hconfig : loader.config = start.config) :
    let saved := frameSaved emu steps
    let vid := saved.video.foldl (videoCall mem) start
    let restored := frameRestored saved next cycles
    let vid' := restored.video.foldl (videoCall mem) (savestateLoadVid mem vid.mode loader)
    Resumed saved restored vid vid' ↔
      loader.frameCounter + 1#32 = start.frameCounter ∧ ScansAlike mem saved start vid := by
  intro saved vid restored vid'
  have hlog : FrameLog [] saved := frameSaved_log emu hsteps
  have hrestored := frameRestored_eq hlog hframe.2 next cycles
  have hvid' : vid' =
      (resumeCalls (ulaCycleInUse saved) saved.ulaFetchOffset saved.rasterCycle).foldl
        (videoCall mem) (savestateLoadVid mem vid.mode loader) :=
    frameRestored_foldl mem hlog hframe.2 next cycles _
  have hframes : RestoredFrames saved start loader vid vid' :=
    hvid' ▸ restoredFrames mem hlog hframe.1 hbegun hconfig
  have hmode := restored_mode mem hlog hframe.1 hconfig vid.mode
  have hserial : MidLine saved → _ := fun hmid =>
    restored_serial mem hlog (hmid.begun hlog) hconfig vid.mode
  rw [← hvid'] at hmode hserial
  constructor
  · intro h
    refine ⟨?_, ?_, ?_⟩
    · have hcounter := h.frameCounter
      rw [hframes.counted, hframes.counted'] at hcounter
      exact (BitVec.add_left_inj (framesBegun saved)).mp hcounter
    · exact hmode.symm.trans h.mode
    · exact fun hmid => (hserial hmid).symm.trans (h.serial hmid)
  · rintro ⟨hcounter, hagain, hattrs⟩
    have hmode' : vid'.mode = vid.mode := hmode.trans hagain
    have hcounter' : vid'.frameCounter = vid.frameCounter := by
      rw [hframes.counted, hframes.counted', hcounter]
    have hattrs' : MidLine saved → vid'.serial = vid.serial :=
      fun hmid => (hserial hmid).trans (hattrs hmid)
    refine ⟨hmode', hcounter', hattrs', ?_⟩
    intro mems events hevents
    have hsame : { restored with video := [] } = { saved with video := [] } := by
      change { frameRestored saved next cycles with video := [] } = _
      rw [hrestored]
    rw [playRest, playRest, hsame]
    by_cases hmid : MidLine saved
    · -- the line goes on from the same latches and attributes
      have hconfig' := hframes.config
      rw [hvid'] at hconfig'
      have hlatches := restored_latches mem hlog hmid hconfig'
      rw [← hvid'] at hlatches
      have halike : Alike True vid.framebuffer vid'.framebuffer vid vid' :=
        ⟨source_ext hlatches (hattrs' hmid).symm, fun _ => hcounter'.symm,
          fun _ _ => .inr ⟨rfl, rfl⟩⟩
      exact (halike.playCalls mems _).drawn trivial
    · -- the next call begins a line
      have hrendered := hlog.placed.rendered
      have hnonneg := hlog.placed.nonneg
      have hrest : RestLog { saved with video := [] } := by
        refine ⟨hnonneg, .inl ⟨rfl, ?_⟩, ?_⟩
        · dsimp only
          omega
        · intro _ huse
          by_contra hdot
          obtain ⟨hdot, hline⟩ := not_or.mp hdot
          exact hmid ⟨huse, hdot, lt_of_not_ge hline⟩
      exact playCalls_beginsLine hframes.config hmode'.symm hcounter'.symm
        (clockEvents_beginsLine events hrest hevents) mems

/-- A machine switched on, in text mode. -/
def videoSample : Video where
  framebuffer _ := 0#8
  lineInk := oricWhite
  linePaper := oricBlack
  lineSx := 0
  lineSy := 0
  lineLastCol := 39
  nativeW := oricScreenW
  nativeH := oricScreenH
  hiresMode := false
  needRefresh := false
  charset := none
  vidMode := 0#8
  ng := ⟨none, none, none, none, none, none, none, none, none, none, none, none⟩
  ngChunky := false
  ngText80 := false
  palRgb := oricPalette
  textAttr := 0#8
  frameCounter := 7#32

/-- Saved two cycles into the first line, and loaded where one frame less has been counted. -/
theorem savestate_frame_resumed_first :
    let saved := frameSaved (emuSample 0xEA#8) [.cycle, .cycle]
    let vid := saved.video.foldl (videoCall fun _ => 0x20#8) videoSample
    let restored := frameRestored saved 0 0
    let loader := { videoSample with frameCounter := 6#32 }
    let vid' := restored.video.foldl (videoCall fun _ => 0x20#8)
      (savestateLoadVid (fun _ => 0x20#8) vid.mode loader)
    Resumed saved restored vid vid' ↔
      loader.frameCounter + 1#32 = videoSample.frameCounter ∧
        ScansAlike (fun _ => 0x20#8) saved videoSample vid :=
  savestate_frame_resumed (emuSample 0xEA#8) videoSample { videoSample with frameCounter := 6#32 }
    (fun _ => 0x20#8) [.cycle, .cycle] 0 0 (by simp) ⟨by decide, by decide⟩
    (.inl (by decide)) rfl

/-- Saved and loaded in one machine, the blinking characters are two frames ahead. -/
theorem savestate_frame_resumed_blink :
    let saved := frameSaved (emuSample 0xEA#8) [.cycle, .cycle]
    let vid := saved.video.foldl (videoCall fun _ => 0x20#8) videoSample
    let restored := frameRestored saved 0 0
    let vid' := restored.video.foldl (videoCall fun _ => 0x20#8)
      (savestateLoadVid (fun _ => 0x20#8) vid.mode vid)
    (0 < saved.rasterCycle ∧ saved.rasterCycle < cyclesPerFrame) ∧
      ¬Resumed saved restored vid vid' := by
  have hlog : FrameLog [] (frameSaved (emuSample 0xEA#8) [.cycle, .cycle]) :=
    frameSaved_log (emuSample 0xEA#8) (by simp)
  have hcycle : 0 < (frameSaved (emuSample 0xEA#8) [.cycle, .cycle]).rasterCycle ∧
      (frameSaved (emuSample 0xEA#8) [.cycle, .cycle]).rasterCycle < cyclesPerFrame := by
    decide
  have hlatched : videoSample.Latched := ⟨rfl, rfl⟩
  exact ⟨hcycle, not_resumed_back (fun _ => 0x20#8) hlog (by decide) hcycle hlatched 0 0⟩

end Phosphoric
