import Phosphoric.Emu.Raster
import Phosphoric.Video.Scanline

/-!
# Cell by cell or line by line

The master clock either has the ULA fetch one cell per cycle (`ula_cycle`) or renders a whole line
at its end (`video_render_scanline`).

**Theorem (`ulaCycle_scanline`).** Over constant RAM, the calls the 64 cycles of a line make leave
the video state that one call of `video_render_scanline` leaves: every pixel, the video mode and
the serial attributes.

`ula_cycle` always offers 41 cells. The 41st is refused unless the line scrolls, which
`line_last_col` tells, and no cell changes that.
-/

namespace Phosphoric

/-! ## The calls of a line -/

/-- What a call made by the clock does to the video state. -/
def videoCall (mem : Nat → Byte) (vid : Video) : VideoCall → Video
  | .lineBegin y => videoLineBegin y vid
  | .cell y col => videoRenderCell mem y col vid
  | .lineEnd y => videoLineEnd mem y vid
  | .scanline y => videoRenderScanline mem y vid

/-- The calls `ula_cycle` makes. -/
def ulaCycleCalls (fetchOffset line dot : Int) : List VideoCall :=
  if line ≥ 224 then []
  else
    (if dot = 0 then [.lineBegin line] else []) ++
      (if 0 ≤ dot - fetchOffset ∧ dot - fetchOffset ≤ 40 then [.cell line (dot - fetchOffset)]
        else []) ++
      if dot = palCyclesPerLine - 1 then [.lineEnd line] else []

/-- A call made under a condition. -/
theorem call_ite (c : Prop) [Decidable c] (emu : Emulator) (call : VideoCall) :
    (if c then emu.call call else emu).video = emu.video ++ (if c then [call] else []) ∧
      (if c then emu.call call else emu).ulaFetchOffset = emu.ulaFetchOffset := by
  split_ifs
  · exact ⟨rfl, rfl⟩
  · exact ⟨(List.append_nil _).symm, rfl⟩

theorem ulaCycle_video (emu : Emulator) (line dot : Int) :
    (ulaCycle emu line dot).video = emu.video ++ ulaCycleCalls emu.ulaFetchOffset line dot ∧
      (ulaCycle emu line dot).ulaFetchOffset = emu.ulaFetchOffset := by
  by_cases hline : line ≥ 224
  · rw [ulaCycle, if_pos hline, ulaCycleCalls, if_pos hline]
    exact ⟨(List.append_nil _).symm, rfl⟩
  · rw [ulaCycle, if_neg hline, ulaCycleCalls, if_neg hline]
    obtain ⟨hbegin, hbegin'⟩ := call_ite (dot = 0) emu (.lineBegin line)
    dsimp only
    generalize (if dot = 0 then emu.call (.lineBegin line) else emu) = begun at *
    rw [hbegin']
    obtain ⟨hcell, hcell'⟩ := call_ite
      (0 ≤ dot - emu.ulaFetchOffset ∧ dot - emu.ulaFetchOffset ≤ 40) begun
      (.cell line (dot - emu.ulaFetchOffset))
    generalize (if 0 ≤ dot - emu.ulaFetchOffset ∧ dot - emu.ulaFetchOffset ≤ 40 then
      begun.call (.cell line (dot - emu.ulaFetchOffset)) else begun) = fetched at *
    rw [← List.append_assoc, ← List.append_assoc, ← hbegin, ← hcell, ← hbegin', ← hcell']
    split_ifs
    · exact ⟨rfl, rfl⟩
    · exact ⟨(List.append_nil _).symm, rfl⟩

theorem ulaCycles_video (dots : List Int) (emu : Emulator) (line : Int) :
    (dots.foldl (fun emu dot => ulaCycle emu line dot) emu).video =
      emu.video ++ dots.flatMap (ulaCycleCalls emu.ulaFetchOffset line) := by
  induction dots generalizing emu with
  | nil => simp
  | cons dot dots ih =>
    obtain ⟨hvideo, hoffset⟩ := ulaCycle_video emu line dot
    rw [List.foldl_cons, ih, hvideo, hoffset, List.flatMap_cons, List.append_assoc]

/-- With the fetch at its place, a line begins, offers 41 cells and ends. -/
theorem ulaCycleCalls_line {line : Int} (hline : line < 224) :
    (upTo 64).flatMap (ulaCycleCalls 0 line) =
      [.lineBegin line] ++ (upTo 41).map (.cell line) ++ [.lineEnd line] := by
  have hvisible : ¬line ≥ 224 := by omega
  have hcalls : ulaCycleCalls 0 line = fun dot =>
      (if dot = 0 then [.lineBegin line] else []) ++
        (if 0 ≤ dot - 0 ∧ dot - 0 ≤ 40 then [.cell line (dot - 0)] else []) ++
        if dot = 63 then [.lineEnd line] else [] := by
    funext dot
    rw [ulaCycleCalls, if_neg hvisible]
    rfl
  rw [hcalls]
  rfl

/-! ## Cells keep the line's last column -/

/-- The parts of the video state that say which cells a line has. -/
structure SameCells (vid vid' : Video) : Prop where
  lineLastCol : vid'.lineLastCol = vid.lineLastCol
  ngChunky : vid'.ngChunky = vid.ngChunky
  ngText80 : vid'.ngText80 = vid.ngText80

theorem SameCells.refl (vid : Video) : SameCells vid vid := ⟨rfl, rfl, rfl⟩

theorem SameCells.trans {vid vid' vid'' : Video} (h : SameCells vid vid')
    (h' : SameCells vid' vid'') : SameCells vid vid'' :=
  ⟨h'.lineLastCol.trans h.lineLastCol, h'.ngChunky.trans h.ngChunky, h'.ngText80.trans h.ngText80⟩

theorem SameCells.foldl {α : Type} {f : Video → α → Video} (hf : ∀ vid a, SameCells vid (f vid a))
    (as : List α) (vid : Video) : SameCells vid (as.foldl f vid) := by
  induction as generalizing vid with
  | nil => exact .refl vid
  | cons a as ih => exact (hf vid a).trans (ih (f vid a))

theorem setPixel_sameCells (x y : Int) (rgb : Rgb) (vid : Video) :
    SameCells vid (setPixel x y rgb vid) := by
  unfold setPixel
  split_ifs <;> exact ⟨rfl, rfl, rfl⟩

theorem renderBits_sameCells (x y : Int) (bits : Byte) (on off : Rgb) (vid : Video) :
    SameCells vid (renderBits x y bits on off vid) :=
  .foldl (fun vid _ => setPixel_sameCells _ _ _ vid) _ vid

theorem renderAttrBlock_sameCells (x y : Int) (paper : Byte) (height : Nat) (inverse : Bool)
    (vid : Video) : SameCells vid (renderAttrBlock x y paper height inverse vid) :=
  .foldl (fun vid _ => .foldl (fun vid _ => setPixel_sameCells _ _ _ vid) _ vid) _ vid

theorem decodeLineAttr_sameCells (vid : Video) (attr : Byte) :
    SameCells vid (decodeLineAttr vid attr) := by
  unfold decodeLineAttr decodeAttr
  dsimp only
  split_ifs <;> exact ⟨rfl, rfl, rfl⟩

theorem renderTextBlock_sameCells (mem : Nat → Byte) (x y : Int) (byte ink paper : Byte)
    (chline row : Nat) (vid : Video) :
    SameCells vid (renderTextBlock mem x y byte ink paper chline row vid) :=
  renderBits_sameCells _ _ _ _ _ vid

theorem renderHiresBlock_sameCells (x y : Int) (byte ink paper : Byte) (vid : Video) :
    SameCells vid (renderHiresBlock x y byte ink paper vid) :=
  renderBits_sameCells _ _ _ _ _ vid

theorem latchNgAttr_sameCells (y col : Int) (vid : Video) :
    SameCells vid (latchNgAttr y col vid).2 := by
  unfold latchNgAttr
  split <;> exact ⟨rfl, rfl, rfl⟩

theorem renderMainCell_sameCells (mem : Nat → Byte) (y col : Int) (vid : Video) :
    SameCells vid (renderMainCell mem y col vid) := by
  have hattr := latchNgAttr_sameCells y col vid
  unfold renderMainCell
  dsimp only
  split_ifs
  · exact (hattr.trans (decodeLineAttr_sameCells _ _)).trans
      (renderAttrBlock_sameCells _ _ _ _ _ _)
  · exact hattr.trans (renderHiresBlock_sameCells _ _ _ _ _ _)
  · exact hattr.trans (renderTextBlock_sameCells _ _ _ _ _ _ _ _ _)

theorem renderBottomTextCell_sameCells (mem : Nat → Byte) (y col : Int) (vid : Video) :
    SameCells vid (renderBottomTextCell mem y col vid) := by
  unfold renderBottomTextCell
  dsimp only
  split_ifs
  · exact (decodeLineAttr_sameCells vid _).trans (renderAttrBlock_sameCells _ _ _ _ _ _)
  · exact renderTextBlock_sameCells _ _ _ _ _ _ _ _ vid

theorem videoRenderCell_sameCells (mem : Nat → Byte) (y col : Int) (vid : Video) :
    SameCells vid (videoRenderCell mem y col vid) := by
  unfold videoRenderCell
  split_ifs
  · exact .refl vid
  · exact .refl vid
  · exact .refl vid
  · exact renderMainCell_sameCells mem y col vid
  · exact .refl vid
  · exact renderBottomTextCell_sameCells mem y col vid

/-! ## The 41st cell -/

theorem videoLineBegin_lastCol {y : Int} (hy : 0 ≤ y ∧ y < 224) (vid : Video) :
    (videoLineBegin y vid).lineLastCol = 39 ∨ (videoLineBegin y vid).lineLastCol = 40 := by
  have hvisible : ¬(y < 0 ∨ y ≥ 224) := by omega
  unfold videoLineBegin
  rw [if_neg hvisible]
  dsimp only
  split_ifs <;> simp

/-- The 41st cell is refused by a line that ends at the 40th. -/
theorem videoRenderCell_refused {y : Int} {vid : Video} (h : y < 200 → vid.lineLastCol = 39)
    (mem : Nat → Byte) : videoRenderCell mem y 40 vid = vid := by
  unfold videoRenderCell
  by_cases hy : y < 200
  · have hlast := h hy
    simp [hy, hlast]
  · simp [hy]

theorem videoRenderCells_succ (mem : Nat → Byte) (y : Int) (n : Nat) (vid : Video) :
    videoRenderCells mem y (n + 1) vid = videoRenderCell mem y n (videoRenderCells mem y n vid) := by
  simp [videoRenderCells, List.range_succ]

theorem videoRenderCells_sameCells (mem : Nat → Byte) (y : Int) (n : Nat) (vid : Video) :
    SameCells vid (videoRenderCells mem y n vid) :=
  .foldl (fun vid _ => videoRenderCell_sameCells mem y _ vid) _ vid

/-- Offering 41 cells is rendering the cells the line has. -/
theorem videoRenderCells_all {y : Int} (hy : 0 ≤ y ∧ y < 224) (mem : Nat → Byte) (vid : Video) :
    videoRenderCells mem y 41 (videoLineBegin y vid) =
      videoRenderCells mem y
        ((if y < 200 then (videoLineBegin y vid).lineLastCol else 39) + 1).toNat
        (videoLineBegin y vid) := by
  have hsame := videoRenderCells_sameCells mem y 40 (videoLineBegin y vid)
  have hforty : (y < 200 → (videoLineBegin y vid).lineLastCol = 39) →
      videoRenderCells mem y 41 (videoLineBegin y vid) =
        videoRenderCells mem y 40 (videoLineBegin y vid) := by
    intro hlast
    rw [videoRenderCells_succ]
    exact videoRenderCell_refused (fun hmain => hsame.lineLastCol.trans (hlast hmain)) mem
  by_cases hmain : y < 200
  · rw [if_pos hmain]
    rcases videoLineBegin_lastCol hy vid with hlast | hlast
    · rw [hforty fun _ => hlast, hlast]
      rfl
    · rw [hlast]
      rfl
  · rw [hforty fun h => absurd h hmain, if_neg hmain]
    rfl

/-- Replaying the calls of a line is rendering it at once. -/
theorem videoCalls_line {y : Int} (hy : 0 ≤ y ∧ y < 224) (mem : Nat → Byte) (vid : Video) :
    ([VideoCall.lineBegin y] ++ (upTo 41).map (VideoCall.cell y) ++ [VideoCall.lineEnd y]).foldl
        (videoCall mem) vid =
      videoRenderScanline mem y vid := by
  have hvisible : ¬(y < 0 ∨ y ≥ 224) := by omega
  have hcells : ((upTo 41).map (VideoCall.cell y)).foldl (videoCall mem) (videoLineBegin y vid) =
      videoRenderCells mem y 41 (videoLineBegin y vid) := by
    rw [upTo, List.map_map, List.foldl_map]
    rfl
  rw [List.foldl_append, List.foldl_append]
  change videoLineEnd mem y (((upTo 41).map (VideoCall.cell y)).foldl (videoCall mem)
    (videoLineBegin y vid)) = _
  rw [hcells, videoRenderCells_all hy, videoRenderScanline, if_neg hvisible]

/-- With the fetch at its place and RAM constant during the line, the 64 cycles of a visible line
leave the video state that rendering the line at once leaves. -/
theorem ulaCycle_scanline (emu : Emulator) (hoffset : emu.ulaFetchOffset = 0) {line : Int}
    (hline : 0 ≤ line ∧ line < 224) :
    ∃ calls,
      ((upTo 64).foldl (fun emu dot => ulaCycle emu line dot) emu).video = emu.video ++ calls ∧
      ∀ (mem : Nat → Byte) (vid : Video),
        calls.foldl (videoCall mem) vid = videoRenderScanline mem line vid := by
  refine ⟨_, ulaCycles_video (upTo 64) emu line, ?_⟩
  intro mem vid
  rw [hoffset, ulaCycleCalls_line hline.2]
  exact videoCalls_line hline mem vid

theorem ulaCycle_scanline_top :
    ∃ calls,
      ((upTo 64).foldl (fun emu dot => ulaCycle emu 0 dot) (emuSample 0xEA#8)).video =
        (emuSample 0xEA#8).video ++ calls ∧
      ∀ (mem : Nat → Byte) (vid : Video),
        calls.foldl (videoCall mem) vid = videoRenderScanline mem 0 vid :=
  ulaCycle_scanline (emuSample 0xEA#8) rfl ⟨by decide, by decide⟩

end Phosphoric
