import Phosphoric.Video.PerCycle

/-!
# Two pictures of one RAM

What a line is rendered from besides RAM: the video mode and the latches of `video_t`, the
attributes of the line and the registers of the ULA-NG. The frame counter only shows in blinking
characters.

**Theorem (`Alike.videoCall`).** Video states alike stay alike under the same call, whatever
the frame counters; with equal counters they draw the same pixels.
-/

namespace Phosphoric

open Function (update)

/-! ## Alike -/

/-- The sprites, their collision flag apart. -/
def UlaNgSprites.still (u : UlaNgSprites) : UlaNgSprites := { u with sprCollision := false }

/-- The registers of the ULA-NG. -/
def VideoNg.still (ng : VideoNg) : VideoNg := { ng with ngDev := ng.ngDev.map (·.still) }

/-- What the cells and lines to come are rendered from, the frame counter apart. -/
def Video.source (vid : Video) : Video :=
  { vid with
    framebuffer := fun _ => 0#8, needRefresh := false, frameCounter := 0#32, ng := vid.ng.still }

/-- Pixels drawn since the framebuffers were `fb` and `fb'` are the same. -/
def DrawnAlike (fb fb' : Nat → Byte) (vid vid' : Video) : Prop :=
  ∀ i, vid.framebuffer i = vid'.framebuffer i ∨
    vid.framebuffer i = fb i ∧ vid'.framebuffer i = fb' i

/-- States that render alike; with `blink` they also have counted as many frames, and what they
drew is the same. -/
structure Alike (blink : Prop) (fb fb' : Nat → Byte) (vid vid' : Video) : Prop where
  source : vid.source = vid'.source
  counter : blink → vid.frameCounter = vid'.frameCounter
  drawn : blink → DrawnAlike fb fb' vid vid'

section Cells

variable {blink : Prop} {fb fb' : Nat → Byte} {vid vid' : Video}

/-- A field that the frame counter, the pixels and the collision flag do not touch. -/
theorem Alike.field {α : Type} (h : Alike blink fb fb' vid vid') (f : Video → α)
    (hf : ∀ vid : Video, f vid = f vid.source) : f vid = f vid' := by
  rw [hf vid, hf vid', h.source]

theorem update_drawn {g g' : Nat → Byte} {i : Nat} (h : g i = g' i ∨ g i = fb i ∧ g' i = fb' i)
    (j : Nat) (b : Byte) :
    update g j b i = update g' j b i ∨ update g j b i = fb i ∧ update g' j b i = fb' i := by
  by_cases hij : i = j
  · subst hij
    exact .inl (by simp)
  · rw [Function.update_of_ne hij, Function.update_of_ne hij]
    exact h

theorem setPixel_source (x y : Int) (rgb : Rgb) (vid : Video) :
    (setPixel x y rgb vid).source = vid.source := by
  rw [setPixel]
  split_ifs <;> rfl

theorem setPixel_frameCounter (x y : Int) (rgb : Rgb) (vid : Video) :
    (setPixel x y rgb vid).frameCounter = vid.frameCounter := by
  rw [setPixel]
  split_ifs <;> rfl

theorem Alike.setPixel (h : Alike blink fb fb' vid vid') (x y : Int) {rgb rgb' : Rgb}
    (hrgb : blink → rgb = rgb') :
    Alike blink fb fb' (setPixel x y rgb vid) (setPixel x y rgb' vid') := by
  refine ⟨?_, ?_, ?_⟩
  · rw [setPixel_source, setPixel_source, h.source]
  · rw [setPixel_frameCounter, setPixel_frameCounter]
    exact h.counter
  · intro hb i
    obtain rfl := hrgb hb
    have hw := h.field (·.nativeW) fun _ => rfl
    have hh := h.field (·.nativeH) fun _ => rfl
    rw [Phosphoric.setPixel, Phosphoric.setPixel, ← hw, ← hh]
    by_cases hout : x < 0 ∨ x ≥ vid.nativeW ∨ y < 0 ∨ y ≥ vid.nativeH
    · rw [if_pos hout, if_pos hout]
      exact h.drawn hb i
    · rw [if_neg hout, if_neg hout]
      exact update_drawn (update_drawn (update_drawn (h.drawn hb i) _ _) _ _) _ _

theorem Alike.foldl {α : Type} (f f' : Video → α → Video)
    (hf : ∀ vid vid' a, Alike blink fb fb' vid vid' → Alike blink fb fb' (f vid a) (f' vid' a))
    (as : List α) (h : Alike blink fb fb' vid vid') :
    Alike blink fb fb' (as.foldl f vid) (as.foldl f' vid') := by
  induction as generalizing vid vid' with
  | nil => exact h
  | cons a as ih => exact ih (hf _ _ a h)

theorem Alike.renderBits (h : Alike blink fb fb' vid vid') (x y : Int) {bits bits' : Byte}
    {on on' off off' : Rgb} (hbits : blink → bits = bits' ∧ on = on' ∧ off = off') :
    Alike blink fb fb' (renderBits x y bits on off vid) (renderBits x y bits' on' off' vid') := by
  refine Alike.foldl _ _ ?_ _ h
  intro vid vid' i h
  refine h.setPixel _ _ fun hb => ?_
  obtain ⟨rfl, rfl, rfl⟩ := hbits hb
  rfl

theorem Alike.getRgb (h : Alike blink fb fb' vid vid') (c : Byte) :
    getRgb vid c = getRgb vid' c := by
  rw [Phosphoric.getRgb, Phosphoric.getRgb, h.field (·.palRgb) fun _ => rfl]

theorem Alike.renderAttrBlock (h : Alike blink fb fb' vid vid') (x y : Int) (paper : Byte)
    (height : Nat) (inverse : Bool) :
    Alike blink fb fb' (renderAttrBlock x y paper height inverse vid)
      (renderAttrBlock x y paper height inverse vid') := by
  have hrgb := h.getRgb (if inverse then paper ^^^ 0x07#8 else paper)
  refine Alike.foldl _ _ ?_ _ h
  intro vid vid' cy h
  refine Alike.foldl _ _ ?_ _ h
  intro vid vid' bx h
  exact h.setPixel _ _ fun _ => hrgb

theorem Alike.renderHiresBlock (h : Alike blink fb fb' vid vid') (x y : Int)
    (byte ink paper : Byte) :
    Alike blink fb fb' (renderHiresBlock x y byte ink paper vid)
      (renderHiresBlock x y byte ink paper vid') :=
  h.renderBits x y fun _ => ⟨rfl, h.getRgb _, h.getRgb _⟩

theorem Alike.getCharsetByte (h : Alike blink fb fb' vid vid') (mem : Nat → Byte)
    (charIdx row : Nat) :
    getCharsetByte vid mem charIdx row = getCharsetByte vid' mem charIdx row :=
  h.field (fun vid => Phosphoric.getCharsetByte vid mem charIdx row) fun _ => rfl

theorem Alike.blinkPhaseOn (h : Alike blink fb fb' vid vid') (hb : blink) :
    blinkPhaseOn vid = blinkPhaseOn vid' := by
  rw [Phosphoric.blinkPhaseOn, Phosphoric.blinkPhaseOn, h.field (·.textAttr) fun _ => rfl,
    h.counter hb]

theorem Alike.renderTextBlock (h : Alike blink fb fb' vid vid') (mem : Nat → Byte) (x y : Int)
    (byte ink paper : Byte) (chline row : Nat) :
    Alike blink fb fb' (renderTextBlock mem x y byte ink paper chline row vid)
      (renderTextBlock mem x y byte ink paper chline row vid') := by
  refine h.renderBits x y fun hb => ?_
  have hrow : effectiveChline vid chline row = effectiveChline vid' chline row :=
    h.field (fun vid => effectiveChline vid chline row) fun _ => rfl
  rw [h.blinkPhaseOn hb, hrow, h.getCharsetByte]
  exact ⟨rfl, h.getRgb _, h.getRgb _⟩

theorem Alike.of_source (h : Alike blink fb fb' vid vid') {f : Video → Video}
    (hsource : ∀ vid : Video, (f vid).source = f vid.source)
    (hcounter : ∀ vid : Video, (f vid).frameCounter = vid.frameCounter)
    (hpixels : ∀ vid : Video, (f vid).framebuffer = vid.framebuffer) :
    Alike blink fb fb' (f vid) (f vid') := by
  refine ⟨?_, ?_, ?_⟩
  · rw [hsource vid, hsource vid', h.source]
  · intro hb
    rw [hcounter, hcounter]
    exact h.counter hb
  · intro hb i
    rw [hpixels, hpixels]
    exact h.drawn hb i

theorem Alike.decodeLineAttr (h : Alike blink fb fb' vid vid') (attr : Byte) :
    Alike blink fb fb' (decodeLineAttr vid attr) (decodeLineAttr vid' attr) := by
  refine h.of_source (f := fun vid => Phosphoric.decodeLineAttr vid attr) ?_ ?_ ?_ <;> intro vid <;>
    dsimp only [Phosphoric.decodeLineAttr, decodeAttr] <;> split_ifs <;> rfl

theorem Alike.latchNgAttr (h : Alike blink fb fb' vid vid') (y col : Int) :
    (latchNgAttr y col vid).1 = (latchNgAttr y col vid').1 ∧
      Alike blink fb fb' (latchNgAttr y col vid).2 (latchNgAttr y col vid').2 := by
  constructor
  · refine h.field (fun vid => (Phosphoric.latchNgAttr y col vid).1) ?_
    intro vid
    dsimp only [Phosphoric.latchNgAttr, Video.source, VideoNg.still]
    split <;> rfl
  · refine h.of_source (f := fun vid => (Phosphoric.latchNgAttr y col vid).2) ?_ ?_ ?_ <;>
      intro vid <;> dsimp only [Phosphoric.latchNgAttr, Video.source, VideoNg.still] <;> split <;>
      rfl

theorem Alike.renderMainCell (h : Alike blink fb fb' vid vid') (mem : Nat → Byte) (y col : Int) :
    Alike blink fb fb' (renderMainCell mem y col vid) (renderMainCell mem y col vid') := by
  obtain ⟨hon, hattr⟩ := h.latchNgAttr y col
  have hhires := h.field (fun vid => vid.vidMode &&& 0x04#8 != 0#8) fun _ => rfl
  have hsx := h.field (·.lineSx) fun _ => rfl
  have hsrc := h.field (fun vid => (y + vid.lineSy).toNat) fun _ => rfl
  have hbyte : ∀ hires srcY, fetchMainByte mem vid hires srcY col.toNat =
      fetchMainByte mem vid' hires srcY col.toNat :=
    fun hires srcY => h.field (fun vid => fetchMainByte mem vid hires srcY col.toNat) fun _ => rfl
  have hink := hattr.field (·.lineInk) fun _ => rfl
  have hpaper := hattr.field (·.linePaper) fun _ => rfl
  simp only [Phosphoric.renderMainCell, hbyte, hsx, hhires, hsrc, hon, hink, hpaper]
  split_ifs
  · have hdecoded := hattr.decodeLineAttr (fetchMainByte mem vid' (vid'.vidMode &&& 0x04#8 != 0#8)
      (y + vid'.lineSy).toNat col.toNat)
    rw [hdecoded.field (·.linePaper) fun _ => rfl]
    exact hdecoded.renderAttrBlock _ _ _ _ _
  · exact hattr.renderHiresBlock _ _ _ _ _
  · exact hattr.renderTextBlock _ _ _ _ _ _ _ _

theorem Alike.renderBottomTextCell (h : Alike blink fb fb' vid vid') (mem : Nat → Byte)
    (y col : Int) :
    Alike blink fb fb' (renderBottomTextCell mem y col vid)
      (renderBottomTextCell mem y col vid') := by
  rw [Phosphoric.renderBottomTextCell, Phosphoric.renderBottomTextCell]
  dsimp only
  split_ifs with hbyte
  · have hdecoded := h.decodeLineAttr (mem (0xBB80 + (25 + (y - 200).toNat / 8) * 40 + col.toNat))
    rw [hdecoded.field (·.linePaper) fun _ => rfl]
    exact hdecoded.renderAttrBlock _ _ _ _ _
  · rw [h.field (·.lineInk) fun _ => rfl, h.field (·.linePaper) fun _ => rfl]
    exact h.renderTextBlock _ _ _ _ _ _ _ _

theorem Alike.videoRenderCell (h : Alike blink fb fb' vid vid') (mem : Nat → Byte) (y col : Int) :
    Alike blink fb fb' (videoRenderCell mem y col vid) (videoRenderCell mem y col vid') := by
  rw [Phosphoric.videoRenderCell, Phosphoric.videoRenderCell, h.field (·.ngText80) fun _ => rfl,
    h.field (·.ngChunky) fun _ => rfl, h.field (·.lineLastCol) fun _ => rfl]
  split_ifs
  · exact h
  · exact h
  · exact h
  · exact h.renderMainCell mem y col
  · exact h
  · exact h.renderBottomTextCell mem y col

end Cells

/-! ## Lines -/

section Lines

variable {blink : Prop} {fb fb' : Nat → Byte} {vid vid' : Video}

theorem Alike.paletteLatch (h : Alike blink fb fb' vid vid') :
    Alike blink fb fb' (paletteLatch vid) (paletteLatch vid') := by
  refine h.of_source (f := Phosphoric.paletteLatch) ?_ ?_ ?_ <;> intro vid <;>
    dsimp only [Phosphoric.paletteLatch, Video.source, VideoNg.still] <;> split <;> rfl

/-- The latches of a frame. -/
def frameLatch (vid : Video) : Video :=
  let vid := { vid with frameCounter := vid.frameCounter + 1#32 }
  let wantChunky := latched vid.ng.ngChunkyActive
  let wantText80 := latched vid.ng.ngText80Active
  if wantChunky != vid.ngChunky || wantText80 != vid.ngText80 then
    { applyProfileResolution { vid with ngChunky := wantChunky, ngText80 := wantText80 } with
      framebuffer := fun _ => 0#8, needRefresh := true }
  else vid

/-- The latches of a line. -/
def lineLatch (vid : Video) : Video :=
  let ngOn := latched vid.ng.ngActive
  let sx : Int := if ngOn then (vid.ng.ngScrollx.getD 0#8).toNat else 0
  let sy : Int := if ngOn then (vid.ng.ngScrolly.getD 0#8).toNat else 0
  { vid with
    textAttr := 0#8, lineInk := oricWhite, linePaper := oricBlack
    lineSx := sx, lineSy := sy, lineLastCol := if sx > 0 then 40 else 39 }

theorem videoLineBegin_eq {y : Int} (hy : 0 ≤ y ∧ y < 224) (vid : Video) :
    videoLineBegin y vid = lineLatch (paletteLatch (if y = 0 then frameLatch vid else vid)) := by
  have hvisible : ¬(y < 0 ∨ y ≥ 224) := by omega
  rw [videoLineBegin, if_neg hvisible]
  rfl

theorem Alike.frameLatch (h : Alike blink fb fb' vid vid') :
    Alike blink fb fb' (frameLatch vid) (frameLatch vid') := by
  have hchunky := h.field (fun vid => latched vid.ng.ngChunkyActive != vid.ngChunky ||
    latched vid.ng.ngText80Active != vid.ngText80) fun _ => rfl
  rw [Phosphoric.frameLatch, Phosphoric.frameLatch]
  dsimp only
  rw [← hchunky]
  split_ifs
  · refine ⟨?_, ?_, fun _ _ => .inl rfl⟩
    · change applyProfileResolution { vid.source with
          ngChunky := latched vid.source.ng.ngChunkyActive
          ngText80 := latched vid.source.ng.ngText80Active } =
        applyProfileResolution { vid'.source with
          ngChunky := latched vid'.source.ng.ngChunkyActive
          ngText80 := latched vid'.source.ng.ngText80Active }
      rw [h.source]
    · intro hb
      change vid.frameCounter + 1#32 = vid'.frameCounter + 1#32
      rw [h.counter hb]
  · refine ⟨h.source, ?_, h.drawn⟩
    intro hb
    change vid.frameCounter + 1#32 = vid'.frameCounter + 1#32
    rw [h.counter hb]

theorem Alike.lineLatch (h : Alike blink fb fb' vid vid') :
    Alike blink fb fb' (lineLatch vid) (lineLatch vid') :=
  h.of_source (f := Phosphoric.lineLatch) (fun _ => rfl) (fun _ => rfl) fun _ => rfl

theorem Alike.videoLineBegin (h : Alike blink fb fb' vid vid') (y : Int) :
    Alike blink fb fb' (videoLineBegin y vid) (videoLineBegin y vid') := by
  by_cases hy : 0 ≤ y ∧ y < 224
  · rw [videoLineBegin_eq hy, videoLineBegin_eq hy]
    split_ifs
    · exact h.frameLatch.paletteLatch.lineLatch
    · exact h.paletteLatch.lineLatch
  · have hout : y < 0 ∨ y ≥ 224 := by omega
    rw [Phosphoric.videoLineBegin, Phosphoric.videoLineBegin, if_pos hout, if_pos hout]
    exact h

theorem Alike.renderNgChunkyScanline (h : Alike blink fb fb' vid vid') (mem : Nat → Byte)
    (y : Int) :
    Alike blink fb fb' (renderNgChunkyScanline mem y vid) (renderNgChunkyScanline mem y vid') := by
  have hactive := h.field (·.ng.ngVramActive) fun _ => rfl
  have hvram := h.field (·.ng.ngVram) fun _ => rfl
  have hbase := h.field ngBase fun _ => rfl
  simp only [Phosphoric.renderNgChunkyScanline, hactive, hvram, hbase]
  refine Alike.foldl _ _ ?_ _ h
  intro vid vid' col h
  refine Alike.foldl _ _ ?_ _ h
  intro vid vid' half h
  have hpal := h.field (·.ng.ngPal) fun _ => rfl
  refine (h.setPixel _ _ fun _ => ?_).setPixel _ _ fun _ => ?_ <;> simp only [hpal, h.getRgb]

theorem Alike.decodeAttr (h : Alike blink fb fb' vid vid') (attr ink paper : Byte)
    (inverse : Bool) :
    (decodeAttr vid attr ink paper inverse).ink = (decodeAttr vid' attr ink paper inverse).ink ∧
      (decodeAttr vid attr ink paper inverse).paper =
        (decodeAttr vid' attr ink paper inverse).paper ∧
      Alike blink fb fb' (decodeAttr vid attr ink paper inverse).vid
        (decodeAttr vid' attr ink paper inverse).vid := by
  refine ⟨?_, ?_, ?_⟩
  · dsimp only [Phosphoric.decodeAttr]
    split_ifs <;> rfl
  · dsimp only [Phosphoric.decodeAttr]
    split_ifs <;> rfl
  · refine h.of_source (f := fun vid => (Phosphoric.decodeAttr vid attr ink paper inverse).vid)
      ?_ ?_ ?_ <;> intro vid <;> dsimp only [Phosphoric.decodeAttr] <;> split_ifs <;> rfl

theorem Alike.renderNgText80Scanline (h : Alike blink fb fb' vid vid') (mem : Nat → Byte)
    (y : Int) :
    Alike blink fb fb' (renderNgText80Scanline mem y vid) (renderNgText80Scanline mem y vid') := by
  have hbase := h.field ngBase fun _ => rfl
  simp only [Phosphoric.renderNgText80Scanline, hbase]
  let Same : Byte × Byte × Video → Byte × Byte × Video → Prop := fun acc acc' =>
    acc.1 = acc'.1 ∧ acc.2.1 = acc'.2.1 ∧ Alike blink fb fb' acc.2.2 acc'.2.2
  have hstart : Same (oricWhite, oricBlack, vid) (oricWhite, oricBlack, vid') := ⟨rfl, rfl, h⟩
  refine (List.foldl_rel (r := Same) hstart ?_).2.2
  rintro col - ⟨ink, paper, vid⟩ ⟨ink', paper', vid'⟩ ⟨hink, hpaper, h⟩
  dsimp only at hink hpaper h
  subst hink hpaper
  dsimp only
  split_ifs
  · obtain ⟨hink, hpaper, hvid⟩ := h.decodeAttr
      (mem (ngBase _ + BitVec.ofNat 16 (y.toNat / 8 * 80 + col)).toNat) ink paper false
    refine ⟨hink, hpaper, ?_⟩
    dsimp only
    rw [hpaper]
    exact hvid.renderAttrBlock _ _ _ _ _
  · exact ⟨rfl, rfl, h.renderTextBlock _ _ _ _ _ _ _ _⟩

/-- The pixels of a sprite are drawn alike, the collision apart. -/
theorem compositeSprite_drawn (u : UlaNgSprites) (w y : Int) (s : Fin 16)
    {acc acc' : (Nat → Byte) × (Int → Bool) × Bool} (hocc : acc.2.1 = acc'.2.1)
    (hdrawn : ∀ i, acc.1 i = acc'.1 i ∨ acc.1 i = fb i ∧ acc'.1 i = fb' i) :
    (compositeSprite u w y s acc).2.1 = (compositeSprite u w y s acc').2.1 ∧
      ∀ i, (compositeSprite u w y s acc).1 i = (compositeSprite u w y s acc').1 i ∨
        (compositeSprite u w y s acc).1 i = fb i ∧ (compositeSprite u w y s acc').1 i = fb' i := by
  rw [compositeSprite, compositeSprite]
  dsimp only
  split_ifs
  · exact ⟨hocc, hdrawn⟩
  · let Same : (Nat → Byte) × (Int → Bool) × Bool → (Nat → Byte) × (Int → Bool) × Bool → Prop :=
      fun acc acc' => acc.2.1 = acc'.2.1 ∧
        ∀ i, acc.1 i = acc'.1 i ∨ acc.1 i = fb i ∧ acc'.1 i = fb' i
    refine List.foldl_rel (r := Same) ⟨hocc, hdrawn⟩ ?_
    rintro col - ⟨g, occ, collision⟩ ⟨g', occ', collision'⟩ ⟨hocc, hdrawn⟩
    dsimp only at hocc hdrawn
    subst hocc
    dsimp only
    split_ifs
    · exact ⟨rfl, hdrawn⟩
    · refine ⟨rfl, ?_⟩
      intro i
      exact update_drawn (update_drawn (update_drawn (hdrawn i) _ _) _ _) _ _

theorem compositeScanline_drawn (u : UlaNgSprites) (c : Bool) {g g' : Nat → Byte} (w hh y : Int)
    (hdrawn : ∀ i, g i = g' i ∨ g i = fb i ∧ g' i = fb' i) (i : Nat) :
    (ulaNgCompositeScanline u g w hh y).1 i =
        (ulaNgCompositeScanline { u with sprCollision := c } g' w hh y).1 i ∨
      (ulaNgCompositeScanline u g w hh y).1 i = fb i ∧
        (ulaNgCompositeScanline { u with sprCollision := c } g' w hh y).1 i = fb' i := by
  let Same : (Nat → Byte) × (Int → Bool) × Bool → (Nat → Byte) × (Int → Bool) × Bool → Prop :=
    fun acc acc' => acc.2.1 = acc'.2.1 ∧
      ∀ i, acc.1 i = acc'.1 i ∨ acc.1 i = fb i ∧ acc'.1 i = fb' i
  have hend : ∀ sprites : List (Fin 16),
      Same (sprites.foldr (compositeSprite u (min w 512) y) (g, fun _ => false, u.sprCollision))
        (sprites.foldr (compositeSprite u (min w 512) y) (g', fun _ => false, c)) := by
    intro sprites
    induction sprites with
    | nil => exact ⟨rfl, hdrawn⟩
    | cons s sprites ih => exact compositeSprite_drawn u _ y s ih.1 ih.2
  rw [ulaNgCompositeScanline, ulaNgCompositeScanline]
  dsimp only
  by_cases hout : (!u.sprActive) = true ∨ y < 0 ∨ y ≥ hh
  · rw [if_pos hout, if_pos hout]
    exact hdrawn i
  · rw [if_neg hout, if_neg hout]
    exact (hend (List.finRange 16)).2 i

theorem compositeScanline_still (u : UlaNgSprites) (g : Nat → Byte) (w hh y : Int) :
    (ulaNgCompositeScanline u g w hh y).2.still = u.still := by
  rw [ulaNgCompositeScanline]
  split_ifs <;> rfl

/-- What `video_line_end` does at last: the sprites over the line. -/
def spritesLine (y : Int) (vid : Video) : Video :=
  match vid.ng.ngDev with
  | some u =>
    let (fb, u) := ulaNgCompositeScanline u vid.framebuffer vid.nativeW vid.nativeH y
    { vid with framebuffer := fb, ng := { vid.ng with ngDev := some u } }
  | none => vid

theorem spritesLine_source (y : Int) (vid : Video) : (spritesLine y vid).source = vid.source := by
  rw [spritesLine]
  cases hu : vid.ng.ngDev with
  | none => rfl
  | some u =>
    have hstill := compositeScanline_still u vid.framebuffer vid.nativeW vid.nativeH y
    simp only [Video.source, VideoNg.still, hu, Option.map_some, hstill]

theorem spritesLine_frameCounter (y : Int) (vid : Video) :
    (spritesLine y vid).frameCounter = vid.frameCounter := by
  rw [spritesLine]
  cases vid.ng.ngDev <;> rfl

theorem Alike.spritesLine (h : Alike blink fb fb' vid vid') (y : Int) :
    Alike blink fb fb' (spritesLine y vid) (spritesLine y vid') := by
  have hdev : vid.ng.ngDev.map (·.still) = vid'.ng.ngDev.map (·.still) :=
    congrArg (·.ng.ngDev) h.source
  have hw := h.field (·.nativeW) fun _ => rfl
  have hh := h.field (·.nativeH) fun _ => rfl
  refine ⟨?_, ?_, ?_⟩
  · rw [spritesLine_source, spritesLine_source, h.source]
  · rw [spritesLine_frameCounter, spritesLine_frameCounter]
    exact h.counter
  intro hb i
  rw [Phosphoric.spritesLine, Phosphoric.spritesLine]
  cases hu : vid.ng.ngDev with
  | none =>
    cases hu' : vid'.ng.ngDev with
    | none => exact h.drawn hb i
    | some u' => simp [hu, hu'] at hdev
  | some u =>
    cases hu' : vid'.ng.ngDev with
    | none => simp [hu, hu'] at hdev
    | some u' =>
      have hstill : u.still = u'.still := by simpa [hu, hu'] using hdev
      obtain ⟨c, rfl⟩ : ∃ c, u' = { u with sprCollision := c } := by
        refine ⟨u'.sprCollision, ?_⟩
        cases u
        cases u'
        simpa [UlaNgSprites.still, eq_comm] using hstill
      dsimp only
      rw [hw, hh]
      exact compositeScanline_drawn u c _ _ y (h.drawn hb) i

theorem Alike.videoLineEnd (h : Alike blink fb fb' vid vid') (mem : Nat → Byte) (y : Int) :
    Alike blink fb fb' (videoLineEnd mem y vid) (videoLineEnd mem y vid') := by
  by_cases hy : y < 0 ∨ y ≥ 224
  · rw [Phosphoric.videoLineEnd, Phosphoric.videoLineEnd, if_pos hy, if_pos hy]
    exact h
  · rw [Phosphoric.videoLineEnd, Phosphoric.videoLineEnd, if_neg hy, if_neg hy]
    have htext := h.field (·.ngText80) fun _ => rfl
    have hchunky := h.field (·.ngChunky) fun _ => rfl
    have hlatch : Alike blink fb fb' { vid with hiresMode := vid.vidMode &&& 0x04#8 != 0#8 }
        { vid' with hiresMode := vid'.vidMode &&& 0x04#8 != 0#8 } :=
      h.of_source (f := fun vid => { vid with hiresMode := vid.vidMode &&& 0x04#8 != 0#8 })
        (fun _ => rfl) (fun _ => rfl) fun _ => rfl
    have hrefresh : ∀ {vid vid' : Video}, Alike blink fb fb' vid vid' →
        Alike blink fb fb' (if y = 223 then { vid with needRefresh := false } else vid)
          (if y = 223 then { vid' with needRefresh := false } else vid') := by
      intro vid vid' h
      split_ifs
      · exact ⟨h.source, h.counter, h.drawn⟩
      · exact h
    refine (hrefresh ?_).spritesLine y
    by_cases h80 : vid.ngText80 = true
    · rw [if_pos h80, if_pos (htext ▸ h80)]
      exact h.renderNgText80Scanline mem y
    · have h80' : ¬vid'.ngText80 = true := by rwa [← htext]
      rw [if_neg h80, if_neg h80']
      by_cases h4bpp : vid.ngChunky = true
      · rw [if_pos h4bpp, if_pos (hchunky ▸ h4bpp)]
        exact h.renderNgChunkyScanline mem y
      · have h4bpp' : ¬vid'.ngChunky = true := by rwa [← hchunky]
        rw [if_neg h4bpp, if_neg h4bpp']
        split_ifs
        · exact hlatch
        · exact h

theorem Alike.videoRenderCells (h : Alike blink fb fb' vid vid') (mem : Nat → Byte) (y : Int)
    (n : Nat) : Alike blink fb fb' (videoRenderCells mem y n vid) (videoRenderCells mem y n vid') :=
  Alike.foldl _ _ (fun _ _ col h => h.videoRenderCell mem y col) _ h

theorem Alike.videoRenderScanline (h : Alike blink fb fb' vid vid') (mem : Nat → Byte) (y : Int) :
    Alike blink fb fb' (videoRenderScanline mem y vid) (videoRenderScanline mem y vid') := by
  by_cases hy : y < 0 ∨ y ≥ 224
  · rw [Phosphoric.videoRenderScanline, Phosphoric.videoRenderScanline, if_pos hy, if_pos hy]
    exact h
  · rw [Phosphoric.videoRenderScanline, Phosphoric.videoRenderScanline, if_neg hy, if_neg hy]
    have hbegin := h.videoLineBegin y
    dsimp only
    rw [hbegin.field (·.lineLastCol) fun _ => rfl]
    exact (hbegin.videoRenderCells mem y _).videoLineEnd mem y

/-- The same call on states alike. -/
theorem Alike.videoCall (h : Alike blink fb fb' vid vid') (mem : Nat → Byte) (call : VideoCall) :
    Alike blink fb fb' (videoCall mem vid call) (videoCall mem vid' call) := by
  cases call with
  | lineBegin y => exact h.videoLineBegin y
  | cell y col => exact h.videoRenderCell mem y col
  | lineEnd y => exact h.videoLineEnd mem y
  | scanline y => exact h.videoRenderScanline mem y

end Lines

/-! ## Latches -/

/-- What cells and lines to come are rendered from, apart from the video mode and the attributes of
the line. -/
def Video.latches (vid : Video) : Video :=
  { vid.source with
    vidMode := 0#8, hiresMode := false, textAttr := 0#8, lineInk := 0#8, linePaper := 0#8 }

/-- What a frame to come is rendered from, apart from the video mode. -/
def Video.config (vid : Video) : Video :=
  { vid.latches with
    lineSx := 0, lineSy := 0, lineLastCol := 0, palRgb := oricPalette }

/-- The video mode and the attributes of the line. -/
def Video.serial (vid : Video) : (Byte × Bool) × Byte × Byte × Byte :=
  ((vid.vidMode, vid.hiresMode), vid.textAttr, vid.lineInk, vid.linePaper)

theorem source_ext {vid vid' : Video} (hlatches : vid.latches = vid'.latches)
    (hserial : vid.serial = vid'.serial) : vid.source = vid'.source := by
  have hback : ∀ vid : Video, vid.source = { vid.latches with
      vidMode := vid.serial.1.1, hiresMode := vid.serial.1.2, textAttr := vid.serial.2.1,
      lineInk := vid.serial.2.2.1, linePaper := vid.serial.2.2.2 } := fun _ => rfl
  rw [hback vid, hback vid', hlatches, hserial]

theorem latches_of_source {vid vid' : Video} (h : vid.source = vid'.source) :
    vid.latches = vid'.latches := by
  rw [Video.latches, Video.latches, h]

theorem config_of_latches {vid vid' : Video} (h : vid.latches = vid'.latches) :
    vid.config = vid'.config := by
  rw [Video.config, Video.config, h]

/-- The latches and the frame counter: what cells leave alone. -/
def Video.counted (vid : Video) : Video × BitVec 32 := (vid.latches, vid.frameCounter)

theorem foldl_keeps {α β : Type} (p : Video → β) {f : Video → α → Video}
    (hf : ∀ vid a, p (f vid a) = p vid) (as : List α) (vid : Video) :
    p (as.foldl f vid) = p vid := by
  induction as generalizing vid with
  | nil => rfl
  | cons a as ih => exact (ih (f vid a)).trans (hf vid a)

theorem setPixel_counted (x y : Int) (rgb : Rgb) (vid : Video) :
    (setPixel x y rgb vid).counted = vid.counted :=
  Prod.ext (latches_of_source (setPixel_source x y rgb vid)) (setPixel_frameCounter x y rgb vid)

theorem renderBits_counted (x y : Int) (bits : Byte) (on off : Rgb) (vid : Video) :
    (renderBits x y bits on off vid).counted = vid.counted :=
  foldl_keeps _ (fun _ _ => setPixel_counted _ _ _ _) _ vid

theorem renderAttrBlock_counted (x y : Int) (paper : Byte) (height : Nat) (inverse : Bool)
    (vid : Video) : (renderAttrBlock x y paper height inverse vid).counted = vid.counted :=
  foldl_keeps _ (fun _ _ => foldl_keeps _ (fun _ _ => setPixel_counted _ _ _ _) _ _) _ vid

theorem decodeAttr_counted (vid : Video) (attr ink paper : Byte) (inverse : Bool) :
    (decodeAttr vid attr ink paper inverse).vid.counted = vid.counted := by
  dsimp only [decodeAttr]
  split_ifs <;> rfl

theorem decodeLineAttr_counted (vid : Video) (attr : Byte) :
    (decodeLineAttr vid attr).counted = vid.counted :=
  decodeAttr_counted vid attr vid.lineInk vid.linePaper false

theorem latchNgAttr_counted (y col : Int) (vid : Video) :
    (latchNgAttr y col vid).2.counted = vid.counted := by
  dsimp only [latchNgAttr]
  split <;> rfl

theorem videoRenderCell_counted (mem : Nat → Byte) (y col : Int) (vid : Video) :
    (videoRenderCell mem y col vid).counted = vid.counted := by
  have hattr := latchNgAttr_counted y col vid
  rw [videoRenderCell]
  split_ifs
  · rfl
  · rfl
  · rfl
  · rw [renderMainCell]
    dsimp only
    split_ifs
    · rw [renderAttrBlock_counted, decodeLineAttr_counted, hattr]
    · exact (renderBits_counted _ _ _ _ _ _).trans hattr
    · exact (renderBits_counted _ _ _ _ _ _).trans hattr
  · rfl
  · rw [renderBottomTextCell]
    dsimp only
    split_ifs
    · rw [renderAttrBlock_counted, decodeLineAttr_counted]
    · exact renderBits_counted _ _ _ _ _ _

theorem renderNgChunkyScanline_counted (mem : Nat → Byte) (y : Int) (vid : Video) :
    (renderNgChunkyScanline mem y vid).counted = vid.counted := by
  refine foldl_keeps _ (fun _ _ => foldl_keeps _ (fun _ _ => ?_) _ _) _ vid
  exact (setPixel_counted _ _ _ _).trans (setPixel_counted _ _ _ _)

theorem renderNgText80Scanline_counted (mem : Nat → Byte) (y : Int) (vid : Video) :
    (renderNgText80Scanline mem y vid).counted = vid.counted := by
  have hfold : ∀ (F : Byte × Byte × Video → Nat → Byte × Byte × Video),
      (∀ acc col, (F acc col).2.2.counted = acc.2.2.counted) →
      ∀ (cols : List Nat) (acc : Byte × Byte × Video),
        (cols.foldl F acc).2.2.counted = acc.2.2.counted := by
    intro F hF cols
    induction cols with
    | nil => exact fun _ => rfl
    | cons col cols ih => exact fun acc => (ih (F acc col)).trans (hF acc col)
  refine hfold _ ?_ _ _
  rintro ⟨ink, paper, vid⟩ col
  dsimp only
  split_ifs
  · exact (renderAttrBlock_counted _ _ _ _ _ _).trans (decodeAttr_counted _ _ _ _ _)
  · exact renderBits_counted _ _ _ _ _ _

theorem videoLineEnd_counted (mem : Nat → Byte) (y : Int) (vid : Video) :
    (videoLineEnd mem y vid).counted = vid.counted := by
  by_cases hy : y < 0 ∨ y ≥ 224
  · rw [videoLineEnd, if_pos hy]
  · rw [videoLineEnd, if_neg hy]
    have hsprites : ∀ vid : Video, (spritesLine y vid).counted = vid.counted := fun vid =>
      Prod.ext (latches_of_source (spritesLine_source y vid)) (spritesLine_frameCounter y vid)
    refine (hsprites _).trans ?_
    have hrefresh : ∀ vid : Video,
        (if y = 223 then { vid with needRefresh := false } else vid).counted = vid.counted := by
      intro vid
      split_ifs <;> rfl
    rw [hrefresh]
    split_ifs
    · exact renderNgText80Scanline_counted mem y vid
    · exact renderNgChunkyScanline_counted mem y vid
    · rfl
    · rfl

theorem videoRenderCells_counted (mem : Nat → Byte) (y : Int) (n : Nat) (vid : Video) :
    (videoRenderCells mem y n vid).counted = vid.counted :=
  foldl_keeps _ (fun _ _ => videoRenderCell_counted _ _ _ _) _ vid

theorem latches_of_counted {vid vid' : Video} (h : vid.counted = vid'.counted) :
    vid.latches = vid'.latches := congrArg Prod.fst h

/-- A line leaves the latches and the frame counter as its begin does. -/
theorem videoRenderScanline_counted (mem : Nat → Byte) (y : Int) (vid : Video) :
    (videoRenderScanline mem y vid).counted = (videoLineBegin y vid).counted := by
  by_cases hy : y < 0 ∨ y ≥ 224
  · rw [videoRenderScanline, videoLineBegin, if_pos hy, if_pos hy]
  · rw [videoRenderScanline, if_neg hy]
    dsimp only
    rw [videoLineEnd_counted, videoRenderCells_counted]

/-! ## Line starts -/

/-- The extended modes are latched. -/
def Video.Latched (vid : Video) : Prop :=
  vid.ngChunky = latched vid.ng.ngChunkyActive ∧ vid.ngText80 = latched vid.ng.ngText80Active

theorem latched_config (vid : Video) : vid.config.Latched ↔ vid.Latched := Iff.rfl

theorem lineLatch_latches (vid : Video) :
    (lineLatch (paletteLatch vid)).latches =
      { lineLatch (paletteLatch vid.config) with
        textAttr := 0#8, lineInk := 0#8, linePaper := 0#8 } := by
  dsimp only [paletteLatch, Video.config, Video.latches, Video.source, VideoNg.still]
  split <;> rfl

theorem lineLatch_config (vid : Video) : (lineLatch (paletteLatch vid)).config = vid.config := by
  dsimp only [paletteLatch]
  split <;> rfl

theorem frameLatch_config (vid : Video) :
    (frameLatch vid).config =
      { frameLatch vid.config with
        framebuffer := fun _ => 0#8, needRefresh := false, frameCounter := 0#32 } := by
  dsimp only [frameLatch, Video.config, Video.latches, Video.source, VideoNg.still]
  split_ifs <;> rfl

theorem frameLatch_latched (vid : Video) : (frameLatch vid).Latched := by
  rw [frameLatch]
  dsimp only
  split_ifs with hchange
  · exact ⟨rfl, rfl⟩
  · simp only [Bool.or_eq_true, bne_iff_ne, ne_eq, not_or, not_not] at hchange
    exact ⟨hchange.1.symm, hchange.2.symm⟩

/-- Latching again changes nothing. -/
theorem frameLatch_of_latched {vid : Video} (h : vid.Latched) :
    (frameLatch vid).config = vid.config := by
  have hsame : ¬(latched vid.ng.ngChunkyActive != vid.ngChunky ||
      latched vid.ng.ngText80Active != vid.ngText80) = true := by
    simp [← h.1, ← h.2]
  rw [frameLatch]
  dsimp only
  rw [if_neg hsame]
  rfl

theorem videoLineBegin_config {y : Int} {vid : Video} (h : vid.Latched) :
    (videoLineBegin y vid).config = vid.config := by
  by_cases hy : 0 ≤ y ∧ y < 224
  · rw [videoLineBegin_eq hy, lineLatch_config]
    split_ifs
    · exact frameLatch_of_latched h
    · rfl
  · rw [videoLineBegin, if_pos (by omega)]

/-- Once the extended modes are latched, no call changes what frames are rendered from. -/
theorem videoCall_config {vid : Video} (h : vid.Latched) (mem : Nat → Byte) (call : VideoCall) :
    (videoCall mem vid call).config = vid.config := by
  have hkept : ∀ {vid vid' : Video}, vid.counted = vid'.counted → vid.config = vid'.config :=
    fun h => config_of_latches (latches_of_counted h)
  cases call with
  | lineBegin y => exact videoLineBegin_config h
  | cell y col => exact hkept (videoRenderCell_counted mem y col vid)
  | lineEnd y => exact hkept (videoLineEnd_counted mem y vid)
  | scanline y =>
    exact (hkept (videoRenderScanline_counted mem y vid)).trans (videoLineBegin_config h)

theorem videoCalls_config {vid : Video} (h : vid.Latched) (mem : Nat → Byte)
    (calls : List VideoCall) : (calls.foldl (videoCall mem) vid).config = vid.config := by
  induction calls generalizing vid with
  | nil => rfl
  | cons call calls ih =>
    have hcall := videoCall_config h mem call
    have hlatched : (videoCall mem vid call).Latched := by
      rw [← latched_config, hcall, latched_config]
      exact h
    exact (ih hlatched).trans hcall

/-- A line begun keeps the video mode and resets the attributes. -/
theorem videoLineBegin_serial {y : Int} (hy : 0 ≤ y ∧ y < 224) (vid : Video) :
    (videoLineBegin y vid).serial =
      ((vid.vidMode, vid.hiresMode), 0#8, oricWhite, oricBlack) := by
  have hpalette : ∀ vid : Video, (lineLatch (paletteLatch vid)).serial =
      ((vid.vidMode, vid.hiresMode), 0#8, oricWhite, oricBlack) := by
    intro vid
    dsimp only [paletteLatch]
    split <;> rfl
  rw [videoLineBegin_eq hy, hpalette]
  split_ifs
  · dsimp only [frameLatch]
    split_ifs <;> rfl
  · rfl

/-- The call begins line 0. -/
def VideoCall.beginsFrame : VideoCall → Prop
  | .lineBegin y | .scanline y => y = 0
  | .cell _ _ | .lineEnd _ => False

theorem videoLineBegin_frameCounter (y : Int) (vid : Video) :
    (videoLineBegin y vid).frameCounter = vid.frameCounter + if y = 0 then 1#32 else 0#32 := by
  by_cases hy : 0 ≤ y ∧ y < 224
  · have hpalette : ∀ vid : Video,
        (lineLatch (paletteLatch vid)).frameCounter = vid.frameCounter := by
      intro vid
      dsimp only [paletteLatch]
      split <;> rfl
    rw [videoLineBegin_eq hy, hpalette]
    split_ifs
    · dsimp only [frameLatch]
      split_ifs <;> rfl
    · exact (BitVec.add_zero _).symm
  · rw [videoLineBegin, if_pos (by omega), if_neg (by omega), BitVec.add_zero]

/-- Frames are counted at line 0. -/
theorem videoCalls_frameCounter (mem : Nat → Byte) (calls : List VideoCall)
    (hcalls : ∀ call ∈ calls, ¬call.beginsFrame) (vid : Video) :
    (calls.foldl (videoCall mem) vid).frameCounter = vid.frameCounter := by
  induction calls generalizing vid with
  | nil => rfl
  | cons call calls ih =>
    have hcall := hcalls call (.head _)
    rw [List.foldl_cons, ih fun call' hmem => hcalls call' (.tail _ hmem)]
    cases call with
    | lineBegin y =>
      have hy : ¬y = 0 := hcall
      exact (videoLineBegin_frameCounter y vid).trans (by simp [hy])
    | cell y col => exact congrArg Prod.snd (videoRenderCell_counted mem y col vid)
    | lineEnd y => exact congrArg Prod.snd (videoLineEnd_counted mem y vid)
    | scanline y =>
      have hy : ¬y = 0 := hcall
      refine (congrArg Prod.snd (videoRenderScanline_counted mem y vid)).trans ?_
      exact (videoLineBegin_frameCounter y vid).trans (by simp [hy])

end Phosphoric
