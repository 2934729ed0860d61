import Phosphoric.Video.Alike

/-!
# The picture after a load: the preview

What becomes of the picture when a state saved in the middle of a frame is loaded. The VID section
of `src/savestate.c` restores the video mode and renders the whole picture once, for the window;
`emu_clock_resume` (`src/emu_clock.c`) renders the lines above the beam again. Both go on from the
mode they find and leave the one they end with, and both count a frame; the frame counter is in no
section.
-/

namespace Phosphoric

/-! ## The preview -/

def videoRenderFrame (mem : Nat → Byte) (vid : Video) : Video :=
  (upTo 224).foldl (fun vid y => videoRenderScanline mem y vid) vid

/-- The video mode, and the character set latched with it. -/
def Video.mode (vid : Video) : Byte × Bool := (vid.vidMode, vid.hiresMode)

def Video.withMode (vid : Video) (mode : Byte × Bool) : Video :=
  { vid with vidMode := mode.1, hiresMode := mode.2 }

theorem withMode_config (vid : Video) (mode : Byte × Bool) :
    (vid.withMode mode).config = vid.config := rfl

theorem serial_mode (vid : Video) : vid.serial.1 = vid.mode := rfl

theorem withMode_mode (vid : Video) (mode : Byte × Bool) : (vid.withMode mode).mode = mode := rfl

/-- The VID section of `savestate_load`. -/
def savestateLoadVid (mem : Nat → Byte) (mode : Byte × Bool) (vid : Video) : Video :=
  videoRenderFrame mem (vid.withMode mode)

/-! ## Frames begun -/

/-- Line 0 is begun and calls that begin no other frame follow. -/
def frameCalls (mem : Nat → Byte) (calls : List VideoCall) (vid : Video) : Video :=
  calls.foldl (videoCall mem) (videoLineBegin 0 vid)

theorem videoLineBegin_frame_latches {vid vid' : Video}
    (h : (frameLatch vid).config = (frameLatch vid').config) :
    (videoLineBegin 0 vid).latches = (videoLineBegin 0 vid').latches := by
  rw [videoLineBegin_eq (by decide), videoLineBegin_eq (by decide), if_pos rfl, if_pos rfl,
    lineLatch_latches, lineLatch_latches, h]

theorem videoLineBegin_frame_config (vid : Video) :
    (videoLineBegin 0 vid).config = (frameLatch vid).config := by
  rw [videoLineBegin_eq (by decide), if_pos rfl, lineLatch_config]

theorem videoLineBegin_latched (vid : Video) : (videoLineBegin 0 vid).Latched := by
  rw [← latched_config, videoLineBegin_frame_config, latched_config]
  exact frameLatch_latched vid

theorem frameLatch_config_congr {vid vid' : Video} (h : vid.config = vid'.config) :
    (frameLatch vid).config = (frameLatch vid').config := by
  rw [frameLatch_config, frameLatch_config, h]

/-- States with the same latches and attributes are alike. -/
theorem Alike.of_source_eq {vid vid' : Video} (h : vid.source = vid'.source) :
    Alike False vid.framebuffer vid'.framebuffer vid vid' := ⟨h, nofun, nofun⟩

theorem Alike.videoCalls {blink : Prop} {fb fb' : Nat → Byte} {vid vid' : Video}
    (h : Alike blink fb fb' vid vid') (mem : Nat → Byte) (calls : List VideoCall) :
    Alike blink fb fb' (calls.foldl (Phosphoric.videoCall mem) vid)
      (calls.foldl (Phosphoric.videoCall mem) vid') :=
  Alike.foldl _ _ (fun _ _ call h => h.videoCall mem call) calls h

/-- A frame is rendered from the mode and what its start latches. -/
theorem frameCalls_source {vid vid' : Video}
    (hlatch : (frameLatch vid).config = (frameLatch vid').config) (hmode : vid.mode = vid'.mode)
    (mem : Nat → Byte) (calls : List VideoCall) :
    (frameCalls mem calls vid).source = (frameCalls mem calls vid').source := by
  have hserial : (videoLineBegin 0 vid).serial = (videoLineBegin 0 vid').serial := by
    rw [videoLineBegin_serial (by decide), videoLineBegin_serial (by decide)]
    exact congrArg (fun mode => (mode, 0#8, oricWhite, oricBlack)) hmode
  have hbegin := source_ext (videoLineBegin_frame_latches hlatch) hserial
  exact ((Alike.of_source_eq hbegin).videoCalls mem calls).source

theorem frameCalls_config (mem : Nat → Byte) (calls : List VideoCall) (vid : Video) :
    (frameCalls mem calls vid).config = (frameLatch vid).config :=
  (videoCalls_config (videoLineBegin_latched vid) mem calls).trans (videoLineBegin_frame_config vid)

theorem frameCalls_frameCounter (mem : Nat → Byte) {calls : List VideoCall}
    (hcalls : ∀ call ∈ calls, ¬call.beginsFrame) (vid : Video) :
    (frameCalls mem calls vid).frameCounter = vid.frameCounter + 1#32 := by
  rw [frameCalls, videoCalls_frameCounter mem calls hcalls, videoLineBegin_frameCounter, if_pos rfl]

theorem upTo_cons {n : Int} (hn : 0 < n) : ∃ ys, upTo n = 0 :: ys ∧ ∀ y ∈ ys, y ≠ 0 := by
  obtain ⟨k, hk⟩ : ∃ k, n.toNat = k + 1 := ⟨n.toNat - 1, by omega⟩
  refine ⟨((List.range k).map Nat.succ).map Int.ofNat, ?_, ?_⟩
  · rw [upTo, hk, List.range_succ_eq_map]
    rfl
  · intro y hmem
    simp only [List.map_map, List.mem_map, Function.comp_apply] at hmem
    obtain ⟨i, -, rfl⟩ := hmem
    exact Int.ofNat_ne_zero.mpr (Nat.succ_ne_zero i)

/-- The calls of line 0 after its begin, and those of the lines below. -/
def linesAfterBegin (ys : List Int) : List VideoCall :=
  (upTo 41).map (.cell 0) ++ [.lineEnd 0] ++ ys.map .scanline

theorem linesAfterBegin_frame {ys : List Int} (hys : ∀ y ∈ ys, y ≠ 0) :
    ∀ call ∈ linesAfterBegin ys, ¬call.beginsFrame := by
  intro call hmem
  simp only [linesAfterBegin, List.mem_append, List.mem_map, List.mem_singleton] at hmem
  rcases hmem with (⟨col, -, rfl⟩ | rfl) | ⟨y, hy, rfl⟩
  · exact id
  · exact id
  · exact hys y hy

/-- Lines rendered from the top begin a frame. -/
theorem scanlines_frameCalls (ys : List Int) (mem : Nat → Byte) (vid : Video) :
    ((0 :: ys).map .scanline).foldl (videoCall mem) vid =
      frameCalls mem (linesAfterBegin ys) vid := by
  have hfirst := videoCalls_line (y := 0) (by decide) mem vid
  rw [List.append_assoc, List.foldl_append] at hfirst
  rw [List.map_cons, List.foldl_cons, frameCalls, linesAfterBegin, List.foldl_append]
  change _ = List.foldl _ (List.foldl (videoCall mem) (videoCall mem vid (.lineBegin 0)) _) _
  rw [show videoCall mem vid (.scanline 0) = videoRenderScanline mem 0 vid from rfl, ← hfirst]
  rfl

/-- The preview is a frame. -/
theorem videoRenderFrame_frameCalls (mem : Nat → Byte) :
    ∃ calls, (∀ call ∈ calls, ¬call.beginsFrame) ∧
      ∀ vid, videoRenderFrame mem vid = frameCalls mem calls vid := by
  obtain ⟨ys, hys, hne⟩ := upTo_cons (n := 224) (by decide)
  refine ⟨linesAfterBegin ys, linesAfterBegin_frame hne, ?_⟩
  intro vid
  rw [← scanlines_frameCalls, ← hys, List.foldl_map]
  rfl

/-! ## A frame interrupted -/

section Interrupted

variable (mem : Nat → Byte) {start loader : Video}

theorem savestateLoadVid_config (hconfig : loader.config = start.config) (mode : Byte × Bool) :
    (savestateLoadVid mem mode loader).config = (frameLatch start).config := by
  obtain ⟨calls, -, hframe⟩ := videoRenderFrame_frameCalls mem
  rw [savestateLoadVid, hframe, frameCalls_config]
  exact frameLatch_config_congr hconfig

/-- After the preview a frame latches what the interrupted one has latched. -/
theorem savestateLoadVid_latch (hconfig : loader.config = start.config) (mode : Byte × Bool) :
    (frameLatch (savestateLoadVid mem mode loader)).config = (frameLatch start).config := by
  have hpreview := savestateLoadVid_config mem hconfig mode
  have hlatched : (savestateLoadVid mem mode loader).Latched := by
    rw [← latched_config, hpreview, latched_config]
    exact frameLatch_latched start
  exact (frameLatch_of_latched hlatched).trans hpreview

/-- The mode the preview leaves depends on RAM and on the mode it starts with. -/
theorem savestateLoadVid_mode (hconfig : loader.config = start.config) (mode : Byte × Bool) :
    (savestateLoadVid mem mode loader).mode = (savestateLoadVid mem mode start).mode := by
  obtain ⟨calls, -, hframe⟩ := videoRenderFrame_frameCalls mem
  have hlatch : (frameLatch (loader.withMode mode)).config =
      (frameLatch (start.withMode mode)).config := frameLatch_config_congr hconfig
  rw [savestateLoadVid, savestateLoadVid, hframe, hframe]
  have hmode := congrArg Video.mode (frameCalls_source hlatch rfl mem calls)
  exact hmode

theorem savestateLoadVid_frameCounter (mode : Byte × Bool) :
    (savestateLoadVid mem mode loader).frameCounter = loader.frameCounter + 1#32 := by
  obtain ⟨calls, hcalls, hframe⟩ := videoRenderFrame_frameCalls mem
  rw [savestateLoadVid, hframe, frameCalls_frameCounter mem hcalls]
  rfl

/-- The frame rendered again: what it leaves is what RAM leaves from the mode of the preview's
end, and what it counts is two frames. -/
theorem resumed_serial (hconfig : loader.config = start.config) (mode : Byte × Bool)
    (calls : List VideoCall) :
    (frameCalls mem calls (savestateLoadVid mem mode loader)).serial =
      (frameCalls mem calls
        (start.withMode (savestateLoadVid mem mode start).mode)).serial := by
  have hlatch := savestateLoadVid_latch mem hconfig mode
  have hmode := savestateLoadVid_mode mem hconfig mode
  generalize savestateLoadVid mem mode loader = preview at hlatch hmode ⊢
  generalize (savestateLoadVid mem mode start).mode = left at hmode ⊢
  have hleft : (frameLatch start).config = (frameLatch (start.withMode left)).config :=
    frameLatch_config_congr (withMode_config start left).symm
  have hserial := congrArg Video.serial
    (frameCalls_source (hlatch.trans hleft) (hmode.trans (withMode_mode start left).symm) mem calls)
  exact hserial

end Interrupted

end Phosphoric
