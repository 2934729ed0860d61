import Phosphoric.Video.Preview

/-!
# The picture beside a dark ULA-NG

The hooks of `src/video/video.c` into the ULA-NG look at the caches of its mode first. With all of
them off, and no extended mode latched for the frame, nothing else the pointers lead to is read.

**Theorem (`videoCall_unlit`).** A call draws the same picture beside one dark ULA-NG as beside
another, and changes neither.
-/

namespace Phosphoric

/-- No mode, no palette and no sprite of the ULA-NG is on. -/
structure VideoNg.Dark (ng : VideoNg) : Prop where
  active : latched ng.ngActive = false
  attrActive : latched ng.ngAttrActive = false
  chunkyActive : latched ng.ngChunkyActive = false
  text80Active : latched ng.ngText80Active = false
  sprActive : ∀ u, ng.ngDev = some u → u.sprActive = false

/-- The ULA-NG is dark, and was when the frame began. -/
structure Video.Plain (vid : Video) : Prop where
  dark : vid.ng.Dark
  chunky : vid.ngChunky = false
  text80 : vid.ngText80 = false

/-- A step of the picture that does not see which dark ULA-NG is there. -/
structure Unlit (f : Video → Video) : Prop where
  plain : ∀ vid, vid.Plain → (f vid).Plain
  blind : ∀ vid, vid.Plain → ∀ ng : VideoNg, ng.Dark → f { vid with ng } = { f vid with ng }

namespace Unlit

variable {f g : Video → Video}

/-- A dark ULA-NG is left as it was. -/
theorem ng (hf : Unlit f) {vid : Video} (h : vid.Plain) : (f vid).ng = vid.ng :=
  congrArg (·.ng) (hf.blind vid h vid.ng h.dark)

theorem refl : Unlit fun vid => vid := ⟨fun _ h => h, fun _ _ _ _ => rfl⟩

theorem comp (hg : Unlit g) (hf : Unlit f) : Unlit fun vid => g (f vid) := by
  refine ⟨?_, ?_⟩
  · intro vid h
    exact hg.plain _ (hf.plain vid h)
  · intro vid h ng hng
    rw [hf.blind vid h ng hng]
    exact hg.blind (f vid) (hf.plain vid h) ng hng

theorem foldl {α : Type} {step : Video → α → Video} (h : ∀ a, Unlit (step · a)) (as : List α) :
    Unlit fun vid => as.foldl step vid := by
  induction as with
  | nil => exact refl
  | cons a as ih => exact ih.comp (h a)

end Unlit

/-! ## Cells -/

theorem setPixel_unlit (x y : Int) (rgb : Rgb) : Unlit (setPixel x y rgb) := by
  refine ⟨fun vid h => ?_, fun vid _ ng _ => ?_⟩
  · rw [setPixel]
    split_ifs
    · exact h
    · exact ⟨h.dark, h.chunky, h.text80⟩
  · rw [setPixel, setPixel]
    split_ifs <;> rfl

theorem renderBits_unlit (x y : Int) (bits : Byte) (on off : Rgb) :
    Unlit (renderBits x y bits on off) :=
  .foldl (fun _ => setPixel_unlit _ _ _) _

theorem renderHiresBlock_unlit (x y : Int) (byte ink paper : Byte) :
    Unlit (renderHiresBlock x y byte ink paper) :=
  ⟨fun vid => (renderBits_unlit _ _ _ _ _).plain vid,
    fun vid => (renderBits_unlit _ _ _ _ _).blind vid⟩

theorem renderAttrBlock_unlit (x y : Int) (paper : Byte) (height : Nat) (inverse : Bool) :
    Unlit (renderAttrBlock x y paper height inverse) := by
  have hblock : ∀ bg, Unlit fun vid => (List.range height).foldl (fun vid cy =>
      (List.range 6).foldl (fun vid bx => setPixel (x + bx) (y + cy) bg vid) vid) vid :=
    fun bg => .foldl (fun _ => .foldl (fun _ => setPixel_unlit _ _ bg) _) _
  exact ⟨fun vid => (hblock _).plain vid, fun vid => (hblock _).blind vid⟩

theorem renderTextBlock_unlit (mem : Nat → Byte) (x y : Int) (byte ink paper : Byte)
    (chline row : Nat) : Unlit (renderTextBlock mem x y byte ink paper chline row) := by
  refine ⟨fun vid => (renderBits_unlit _ _ _ _ _).plain vid, fun vid h ng hng => ?_⟩
  unfold renderTextBlock
  dsimp only [blinkPhaseOn, effectiveChline, getCharsetByte, getRgb]
  exact (renderBits_unlit _ _ _ _ _).blind vid h ng hng

/-- Decoding an attribute reads nothing of the ULA-NG. -/
theorem decodeAttr_ng (vid : Video) (ng : VideoNg) (attr ink paper : Byte) (inverse : Bool) :
    decodeAttr { vid with ng } attr ink paper inverse =
      { decodeAttr vid attr ink paper inverse with
        vid := { (decodeAttr vid attr ink paper inverse).vid with ng } } := by
  unfold decodeAttr
  dsimp only
  by_cases hmode : attr &&& 0x1F#8 &&& 0x18#8 = 0x18#8
  · simp only [if_pos hmode]
  · by_cases htext : attr &&& 0x1F#8 &&& 0x18#8 = 0x08#8
    · simp only [if_neg hmode, if_pos htext]
    · simp only [if_neg hmode, if_neg htext]

theorem decodeAttr_plain {vid : Video} (h : vid.Plain) (attr ink paper : Byte) (inverse : Bool) :
    (decodeAttr vid attr ink paper inverse).vid.Plain := by
  unfold decodeAttr
  dsimp only
  by_cases hmode : attr &&& 0x1F#8 &&& 0x18#8 = 0x18#8
  · rw [if_pos hmode]
    exact ⟨h.dark, h.chunky, h.text80⟩
  · rw [if_neg hmode]
    dsimp only
    split_ifs
    · exact ⟨h.dark, h.chunky, h.text80⟩
    · exact h

theorem decodeLineAttr_unlit (attr : Byte) : Unlit fun vid => decodeLineAttr vid attr := by
  refine ⟨fun vid h => ?_, fun vid _ ng _ => ?_⟩
  · have hplain := decodeAttr_plain h attr vid.lineInk vid.linePaper false
    exact ⟨hplain.dark, hplain.chunky, hplain.text80⟩
  · unfold decodeLineAttr
    dsimp only
    rw [decodeAttr_ng]

/-- A cell that holds an attribute. -/
theorem attrCell_unlit (x y : Int) (byte : Byte) (inverse : Bool) :
    Unlit fun vid => renderAttrBlock x y (decodeLineAttr vid byte).linePaper 1 inverse
      (decodeLineAttr vid byte) := by
  have hdecode := decodeLineAttr_unlit byte
  refine ⟨fun vid h => ?_, fun vid h ng hng => ?_⟩
  · exact (renderAttrBlock_unlit _ _ _ _ _).plain _ (hdecode.plain vid h)
  · dsimp only
    rw [hdecode.blind vid h ng hng]
    exact (renderAttrBlock_unlit _ _ _ _ _).blind _ (hdecode.plain vid h) ng hng

theorem renderBottomTextCell_unlit (mem : Nat → Byte) (y col : Int) :
    Unlit (renderBottomTextCell mem y col) := by
  refine ⟨fun vid h => ?_, fun vid h ng hng => ?_⟩
  · unfold renderBottomTextCell
    dsimp only
    split_ifs
    · exact (attrCell_unlit _ _ _ _).plain vid h
    · exact (renderTextBlock_unlit _ _ _ _ _ _ _ _).plain vid h
  · unfold renderBottomTextCell
    dsimp only
    split_ifs
    · exact (attrCell_unlit _ _ _ _).blind vid h ng hng
    · exact (renderTextBlock_unlit _ _ _ _ _ _ _ _).blind vid h ng hng

theorem latchNgAttr_dark {vid : Video} (h : vid.ng.Dark) (y col : Int) :
    latchNgAttr y col vid = (false, vid) := by
  unfold latchNgAttr
  rw [h.attrActive]

theorem fetchMainByte_dark {vid : Video} (h : vid.ng.Dark) {ng : VideoNg} (hng : ng.Dark)
    (mem : Nat → Byte) (hires : Bool) (srcY col : Nat) :
    fetchMainByte mem { vid with ng } hires srcY col = fetchMainByte mem vid hires srcY col := by
  unfold fetchMainByte
  rw [h.active, hng.active]

theorem renderMainCell_unlit (mem : Nat → Byte) (y col : Int) :
    Unlit (renderMainCell mem y col) := by
  refine ⟨fun vid h => ?_, fun vid h ng hng => ?_⟩
  · unfold renderMainCell
    rw [latchNgAttr_dark h.dark]
    dsimp only
    split_ifs
    · exact (attrCell_unlit _ _ _ _).plain vid h
    · exact (renderHiresBlock_unlit _ _ _ _ _).plain vid h
    · exact (renderTextBlock_unlit _ _ _ _ _ _ _ _).plain vid h
  · have hng' : { vid with ng : Video }.ng.Dark := hng
    unfold renderMainCell
    rw [latchNgAttr_dark h.dark, latchNgAttr_dark hng']
    dsimp only
    rw [fetchMainByte_dark h.dark hng]
    split_ifs
    · exact (attrCell_unlit _ _ _ _).blind vid h ng hng
    · exact (renderHiresBlock_unlit _ _ _ _ _).blind vid h ng hng
    · exact (renderTextBlock_unlit _ _ _ _ _ _ _ _).blind vid h ng hng

/-! ## Lines -/

theorem videoRenderCell_unlit (mem : Nat → Byte) (y col : Int) :
    Unlit (videoRenderCell mem y col) := by
  refine ⟨fun vid h => ?_, fun vid h ng hng => ?_⟩
  · unfold videoRenderCell
    split_ifs
    · exact h
    · exact h
    · exact h
    · exact (renderMainCell_unlit mem y col).plain vid h
    · exact h
    · exact (renderBottomTextCell_unlit mem y col).plain vid h
  · unfold videoRenderCell
    dsimp only
    split_ifs
    · rfl
    · rfl
    · rfl
    · exact (renderMainCell_unlit mem y col).blind vid h ng hng
    · rfl
    · exact (renderBottomTextCell_unlit mem y col).blind vid h ng hng

/-- The start of a line, where nothing is read of the ULA-NG. -/
def lineBeginDark (y : Int) (vid : Video) : Video :=
  if y < 0 ∨ y ≥ 224 then vid
  else
    { vid with
      frameCounter := if y = 0 then vid.frameCounter + 1#32 else vid.frameCounter
      palRgb := oricPalette, textAttr := 0#8, lineInk := oricWhite, linePaper := oricBlack
      lineSx := 0, lineSy := 0, lineLastCol := 39 }

theorem videoLineBegin_dark {vid : Video} (h : vid.Plain) (y : Int) :
    videoLineBegin y vid = lineBeginDark y vid := by
  unfold videoLineBegin lineBeginDark
  by_cases hout : y < 0 ∨ y ≥ 224
  · rw [if_pos hout, if_pos hout]
  · rw [if_neg hout, if_neg hout]
    by_cases hy : y = 0
    · simp [hy, paletteLatch, h.dark.active, h.dark.chunkyActive, h.dark.text80Active, h.chunky,
        h.text80]
    · simp [hy, paletteLatch, h.dark.active]

theorem videoLineBegin_unlit (y : Int) : Unlit (videoLineBegin y) := by
  refine ⟨fun vid h => ?_, fun vid h ng hng => ?_⟩
  · rw [videoLineBegin_dark h, lineBeginDark]
    split_ifs
    · exact h
    · exact ⟨h.dark, h.chunky, h.text80⟩
    · exact ⟨h.dark, h.chunky, h.text80⟩
  · have h' : { vid with ng : Video }.Plain := ⟨hng, h.chunky, h.text80⟩
    rw [videoLineBegin_dark h, videoLineBegin_dark h', lineBeginDark, lineBeginDark]
    split_ifs <;> rfl

/-- The end of a line, with nothing of the ULA-NG to add. -/
def lineEndDark (y : Int) (vid : Video) : Video :=
  if y < 0 ∨ y ≥ 224 then vid
  else
    { vid with
      hiresMode := if y = 199 then vid.vidMode &&& 0x04#8 != 0#8 else vid.hiresMode
      needRefresh := if y = 223 then false else vid.needRefresh }

/-- No sprite is drawn. -/
theorem composite_dark {u : UlaNgSprites} (h : u.sprActive = false) (fb : Nat → Byte)
    (w height y : Int) : ulaNgCompositeScanline u fb w height y = (fb, u) := by
  unfold ulaNgCompositeScanline
  rw [if_pos (.inl (by rw [h]; rfl))]

/-- The sprites are composed over a line. -/
def composeSprites (y : Int) (vid : Video) : Video :=
  match vid.ng.ngDev with
  | some u =>
    let (fb, u) := ulaNgCompositeScanline u vid.framebuffer vid.nativeW vid.nativeH y
    { vid with framebuffer := fb, ng := { vid.ng with ngDev := some u } }
  | none => vid

theorem videoLineEnd_dark {vid : Video} (h : vid.Plain) (mem : Nat → Byte) (y : Int) :
    videoLineEnd mem y vid = lineEndDark y vid := by
  have hcompose : ∀ vid' : Video, vid'.ng = vid.ng → composeSprites y vid' = vid' := by
    intro vid' hng
    have hdark := h.dark.sprActive
    rw [← hng] at hdark
    obtain ⟨fb, ink, paper, sx, sy, last, w, height, hires, refresh, charset, mode, ng, _, _, _, _,
      _⟩ := vid'
    unfold composeSprites
    cases hdev : ng.ngDev with
    | none => dsimp only
    | some u =>
      dsimp only
      rw [composite_dark (hdark u hdev), ← hdev]
  unfold videoLineEnd
  by_cases hout : y < 0 ∨ y ≥ 224
  · rw [if_pos hout, lineEndDark, if_pos hout]
  · have htext : ¬vid.ngText80 = true := by simp [h.text80]
    have hchunky : ¬vid.ngChunky = true := by simp [h.chunky]
    rw [if_neg hout, if_neg htext, if_neg hchunky, lineEndDark, if_neg hout]
    dsimp only
    split_ifs <;> exact (hcompose _ (by rfl)).trans rfl

theorem videoLineEnd_unlit (mem : Nat → Byte) (y : Int) : Unlit (videoLineEnd mem y) := by
  refine ⟨fun vid h => ?_, fun vid h ng hng => ?_⟩
  · rw [videoLineEnd_dark h, lineEndDark]
    split_ifs
    · exact h
    all_goals exact ⟨h.dark, h.chunky, h.text80⟩
  · have h' : { vid with ng : Video }.Plain := ⟨hng, h.chunky, h.text80⟩
    rw [videoLineEnd_dark h, videoLineEnd_dark h', lineEndDark, lineEndDark]
    split_ifs <;> rfl

theorem videoRenderScanline_unlit (mem : Nat → Byte) (y : Int) :
    Unlit (videoRenderScanline mem y) := by
  have hcells : ∀ n, Unlit (videoRenderCells mem y n) :=
    fun n => .foldl (fun _ => videoRenderCell_unlit mem y _) _
  have hline : ∀ n, Unlit fun vid =>
      videoLineEnd mem y (videoRenderCells mem y n (videoLineBegin y vid)) :=
    fun n => (videoLineEnd_unlit mem y).comp ((hcells n).comp (videoLineBegin_unlit y))
  refine ⟨fun vid h => ?_, fun vid h ng hng => ?_⟩
  · unfold videoRenderScanline
    by_cases hout : y < 0 ∨ y ≥ 224
    · rw [if_pos hout]
      exact h
    · rw [if_neg hout]
      exact (hline _).plain vid h
  · unfold videoRenderScanline
    by_cases hout : y < 0 ∨ y ≥ 224
    · rw [if_pos hout, if_pos hout]
    · rw [if_neg hout, if_neg hout, (videoLineBegin_unlit y).blind vid h ng hng,
        ← (videoLineBegin_unlit y).blind vid h ng hng]
      have hlast := congrArg (·.lineLastCol) ((videoLineBegin_unlit y).blind vid h ng hng)
      dsimp only at hlast ⊢
      rw [hlast]
      exact (hline _).blind vid h ng hng

/-- A call draws the same picture beside any dark ULA-NG, and leaves it dark. -/
theorem videoCall_unlit (mem : Nat → Byte) (call : VideoCall) :
    Unlit fun vid => videoCall mem vid call :=
  match call with
  | .lineBegin y => videoLineBegin_unlit y
  | .cell y col => videoRenderCell_unlit mem y col
  | .lineEnd y => videoLineEnd_unlit mem y
  | .scanline y => videoRenderScanline_unlit mem y

/-- The VID section of a save state, and the picture it is drawn again with. -/
theorem savestateLoadVid_unlit (mem : Nat → Byte) (mode : Byte × Bool) :
    Unlit (savestateLoadVid mem mode) := by
  have hframe : Unlit (videoRenderFrame mem) :=
    .foldl (fun y => videoRenderScanline_unlit mem y) _
  refine hframe.comp (f := fun vid => vid.withMode mode) ⟨fun vid h => ?_, fun _ _ _ _ => rfl⟩
  exact ⟨h.dark, h.chunky, h.text80⟩

end Phosphoric
