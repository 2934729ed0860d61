import Phosphoric.Lib.Word

/-!
# One line of the picture

The rendering of `src/video/video.c`: a line is `video_line_begin`, one six-pixel cell per fetch,
then `video_line_end`. Ink, paper, character set and video mode are serial: an attribute byte
changes them for the cells that follow, so that they live in `video_t` between two cells.

The pointers of `video_t` into the ULA-NG are what they lead to (`VideoNg`); `none` is a null
pointer.
-/

namespace Phosphoric

open Function (update)

/-! ## State -/

/-- A colour, RGB888. -/
abbrev Rgb := Byte × Byte × Byte

/-- The standard palette. -/
def oricPalette (c : Fin 8) : Rgb :=
  (if c.val % 2 = 1 then 0xFF#8 else 0#8, if c.val / 2 % 2 = 1 then 0xFF#8 else 0#8,
    if c.val / 4 = 1 then 0xFF#8 else 0#8)

/-- A sprite of the ULA-NG: a pattern entry is 0 for transparent, or a palette index. -/
structure UlaNgSprite where
  x : Byte
  y : Byte
  enable : Bool
  pattern : Fin 256 → Fin 8

/-- `ula_ng_t`, as far as `ula_ng_composite_scanline` reads and writes it. -/
structure UlaNgSprites where
  sprActive : Bool
  sprites : Fin 16 → UlaNgSprite
  pal : Fin 16 → Rgb
  sprCollision : Bool

/-- What the ULA-NG pointers of `video_t` lead to. -/
structure VideoNg where
  ngPal : Option (Fin 16 → Rgb)
  ngActive : Option Bool
  ngScrstart : Option Word
  ngScrollx : Option Byte
  ngScrolly : Option Byte
  ngAttr : Option (Fin 0x2000 → Byte)
  ngAttrActive : Option Bool
  ngDev : Option UlaNgSprites
  ngChunkyActive : Option Bool
  ngText80Active : Option Bool
  ngVram : Option (Nat → Byte)
  ngVramActive : Option Bool

/-- `video_t`, as far as lines are rendered. -/
structure Video where
  framebuffer : Nat → Byte
  lineInk : Byte
  linePaper : Byte
  /-- The fine X scroll latched for the line. -/
  lineSx : Int
  /-- The fine Y scroll latched for the line. -/
  lineSy : Int
  lineLastCol : Int
  nativeW : Int
  nativeH : Int
  hiresMode : Bool
  needRefresh : Bool
  charset : Option (Nat → Byte)
  vidMode : Byte
  ng : VideoNg
  ngChunky : Bool
  ngText80 : Bool
  palRgb : Fin 8 → Rgb
  textAttr : Byte
  frameCounter : BitVec 32

abbrev oricBlack : Byte := 0#8
abbrev oricWhite : Byte := 7#8
abbrev oricScreenW : Int := 240
abbrev oricScreenH : Int := 224
abbrev videoWideW : Int := 320
abbrev videoMaxW : Int := 480

/-! ## Palette and pixels -/

/-- `p && *p`. -/
def latched (p : Option Bool) : Bool := p.getD false

/-- The resolution follows the latches of the ULA-NG modes. -/
def applyProfileResolution (vid : Video) : Video :=
  { vid with
    nativeW := if vid.ngText80 then videoMaxW else if vid.ngChunky then videoWideW else oricScreenW
    nativeH := oricScreenH }

theorem palette_le : 8 ≤ 16 := by decide

/-- The palette is read again at the start of each line. -/
def paletteLatch (vid : Video) : Video :=
  match latched vid.ng.ngActive, vid.ng.ngPal with
  | true, some pal => { vid with palRgb := fun i => pal (i.castLE palette_le) }
  | _, _ => { vid with palRgb := oricPalette }

def getRgb (vid : Video) (oricColor : Byte) : Rgb := vid.palRgb (Fin.ofNat 8 oricColor.toNat)

def setPixel (x y : Int) (rgb : Rgb) (vid : Video) : Video :=
  if x < 0 ∨ x ≥ vid.nativeW ∨ y < 0 ∨ y ≥ vid.nativeH then vid
  else
    let off := ((y * vid.nativeW + x) * 3).toNat
    { vid with
      framebuffer := update (update (update vid.framebuffer off rgb.1) (off + 1) rgb.2.1)
        (off + 2) rgb.2.2 }

/-- The byte of the character's row: from the external set, or from the sets in RAM. -/
def getCharsetByte (vid : Video) (mem : Nat → Byte) (charIdx row : Nat) : Byte :=
  let alt := vid.textAttr &&& 0x01#8 != 0#8
  match vid.charset with
  | some charset => charset ((charIdx + if alt then 128 else 0) * 8 + row)
  | none =>
    let base := if vid.hiresMode then (if alt then 0x9C00 else 0x9800)
      else if alt then 0xB800 else 0xB400
    mem (base + charIdx * 8 + row)

/-! ## Serial attributes -/

/-- What `decode_attr` returns: whether the video mode changed, the ink and paper it was given by
reference, and the inverse flag. -/
structure AttrDecoded where
  modeChanged : Bool
  ink : Byte
  paper : Byte
  inverse : Bool
  vid : Video

def decodeAttr (vid : Video) (attr ink paper : Byte) (inverse : Bool) : AttrDecoded :=
  let val := attr &&& 0x1F#8
  if val &&& 0x18#8 = 0x18#8 then
    ⟨true, ink, paper, inverse, { vid with vidMode := val &&& 0x07#8 }⟩
  else
    let ink := if val &&& 0x18#8 = 0x00#8 then val &&& 0x07#8 else ink
    let vid := if val &&& 0x18#8 = 0x08#8 then { vid with textAttr := val &&& 0x07#8 } else vid
    let paper := if val &&& 0x18#8 = 0x10#8 then val &&& 0x07#8 else paper
    let inverse := if val = 28#8 then false else if val = 29#8 then true else inverse
    ⟨false, ink, paper, inverse, vid⟩

/-- `decode_attr` on the ink and paper of the line. -/
def decodeLineAttr (vid : Video) (attr : Byte) : Video :=
  let decoded := decodeAttr vid attr vid.lineInk vid.linePaper false
  { decoded.vid with lineInk := decoded.ink, linePaper := decoded.paper }

/-! ## Cells -/

/-- Six pixels, bit 5 first. -/
def renderBits (x y : Int) (bits : Byte) (on off : Rgb) (vid : Video) : Video :=
  (List.range 6).foldl (fun vid (i : Nat) =>
    setPixel (x + i) y (if bits.getLsbD (5 - i) then on else off) vid) vid

def renderHiresBlock (x y : Int) (byte ink paper : Byte) (vid : Video) : Video :=
  let inv := byte &&& 0x80#8 != 0#8
  let fg := if inv then ink ^^^ 0x07#8 else ink
  let bg := if inv then paper ^^^ 0x07#8 else paper
  renderBits x y byte (getRgb vid fg) (getRgb vid bg) vid

def renderAttrBlock (x y : Int) (paper : Byte) (height : Nat) (inverse : Bool) (vid : Video) :
    Video :=
  let bg := getRgb vid (if inverse then paper ^^^ 0x07#8 else paper)
  (List.range height).foldl (fun vid cy =>
    (List.range 6).foldl (fun vid bx => setPixel (x + bx) (y + cy) bg vid) vid) vid

/-- Double height shows the top half of a glyph on even rows, the bottom half on odd ones. -/
def effectiveChline (vid : Video) (chline row : Nat) : Nat :=
  if vid.textAttr &&& 0x02#8 != 0#8 then chline / 2 + if row % 2 = 1 then 4 else 0 else chline

/-- The blink attribute is in its inverted phase. -/
def blinkPhaseOn (vid : Video) : Bool :=
  vid.textAttr &&& 0x04#8 != 0#8 && vid.frameCounter &&& 0x10#32 != 0#32

/-- A character cell: the inverse bit and the blink complement ink and paper. -/
def renderTextBlock (mem : Nat → Byte) (x y : Int) (byte ink paper : Byte) (chline row : Nat)
    (vid : Video) : Video :=
  let charInv := byte &&& 0x80#8 != 0#8
  let charInv := if blinkPhaseOn vid then !charInv else charInv
  let fg := if charInv then ink ^^^ 0x07#8 else ink
  let bg := if charInv then paper ^^^ 0x07#8 else paper
  let erow := effectiveChline vid chline row
  let bits := getCharsetByte vid mem (byte &&& 0x7F#8).toNat erow
  renderBits x y bits (getRgb vid fg) (getRgb vid bg) vid

/-- One cell of the text footer, lines 200 to 223. -/
def renderBottomTextCell (mem : Nat → Byte) (y col : Int) (vid : Video) : Video :=
  let row := 25 + (y - 200).toNat / 8
  let chline := (y - 200).toNat % 8
  let byte := mem (0xBB80 + row * 40 + col.toNat)
  if byte &&& 0x60#8 = 0#8 then
    let vid := decodeLineAttr vid byte
    renderAttrBlock (col * 6) y vid.linePaper 1 (byte &&& 0x80#8 != 0#8) vid
  else renderTextBlock mem (col * 6) y byte vid.lineInk vid.linePaper chline row vid

/-- The byte a cell of the main area fetches, at `NG_SCRSTART` when that is set. -/
def fetchMainByte (mem : Nat → Byte) (vid : Video) (hires : Bool) (srcY col : Nat) : Byte :=
  let scrBase : Word := if hires then 0xA000#16 else 0xBB80#16
  let scrBase :=
    match latched vid.ng.ngActive, vid.ng.ngScrstart with
    | true, some start => if start != 0#16 then start else scrBase
    | _, _ => scrBase
  let base : Word := if hires then scrBase + BitVec.ofNat 16 (srcY * 40)
    else scrBase + BitVec.ofNat 16 (srcY / 8 * 40)
  mem (base.toNat + col)

/-- The parallel attributes of the ULA-NG give the cell its ink and paper. -/
def latchNgAttr (y col : Int) (vid : Video) : Bool × Video :=
  match latched vid.ng.ngAttrActive, vid.ng.ngAttr with
  | true, some attr =>
    let a := attr (Fin.ofNat 0x2000 (y * 40 + col).toNat)
    (true, { vid with lineInk := a &&& 0x07#8, linePaper := (a >>> 3) &&& 0x07#8 })
  | _, _ => (false, vid)

/-- One cell of the main area, TEXT or HIRES. -/
def renderMainCell (mem : Nat → Byte) (y col : Int) (vid : Video) : Video :=
  let srcY := (y + vid.lineSy).toNat
  let hires := vid.vidMode &&& 0x04#8 != 0#8
  let byte := fetchMainByte mem vid hires srcY col.toNat
  let px := col * 6 - vid.lineSx
  let (ngAttrOn, vid) := latchNgAttr y col vid
  if !ngAttrOn && byte &&& 0x60#8 == 0#8 then
    let vid := decodeLineAttr vid byte
    renderAttrBlock px y vid.linePaper 1 (byte &&& 0x80#8 != 0#8) vid
  else if hires then renderHiresBlock px y byte vid.lineInk vid.linePaper vid
  else renderTextBlock mem px y byte vid.lineInk vid.linePaper (srcY % 8) (srcY / 8) vid

/-! ## The extended modes of the ULA-NG -/

/-- The byte at `NG_SCRSTART`, `$A000` when it is not set. -/
def ngBase (vid : Video) : Word :=
  match vid.ng.ngScrstart with
  | some start => if start != 0#16 then start else 0xA000#16
  | none => 0xA000#16

/-- Chunky mode: 160 pixels of four bits, each two pixels wide. -/
def renderNgChunkyScanline (mem : Nat → Byte) (y : Int) (vid : Video) : Video :=
  let rowbytes : Nat → Byte :=
    match latched vid.ng.ngVramActive, vid.ng.ngVram with
    | true, some vram => fun col => vram (y.toNat * 80 + col)
    | _, _ => fun col => mem ((ngBase vid + BitVec.ofNat 16 (y.toNat * 80)).toNat + col)
  (List.range 80).foldl (fun vid col =>
    (List.range 2).foldl (fun vid half =>
      let idx := if half = 0 then rowbytes col >>> 4 else rowbytes col &&& 0x0F#8
      let rgb := match vid.ng.ngPal with
        | some pal => pal (Fin.ofNat 16 idx.toNat)
        | none => getRgb vid idx
      let x0 : Int := (col * 2 + half) * 2
      setPixel (x0 + 1) y rgb (setPixel x0 y rgb vid)) vid) vid

/-- Text of 80 columns, with an ink and a paper of its own. -/
def renderNgText80Scanline (mem : Nat → Byte) (y : Int) (vid : Video) : Video :=
  let base := ngBase vid
  let row := y.toNat / 8
  let chline := y.toNat % 8
  ((List.range 80).foldl (fun (acc : Byte × Byte × Video) col =>
    let (ink, paper, vid) := acc
    let byte := mem (base + BitVec.ofNat 16 (row * 80 + col)).toNat
    let px : Int := col * 6
    if byte &&& 0x60#8 = 0#8 then
      let decoded := decodeAttr vid byte ink paper false
      (decoded.ink, decoded.paper,
        renderAttrBlock px y decoded.paper 1 (byte &&& 0x80#8 != 0#8) decoded.vid)
    else (ink, paper, renderTextBlock mem px y byte ink paper chline row vid))
    (oricWhite, oricBlack, vid)).2.2

/-- A sprite's pixels on the line, over those of the sprites after it: the framebuffer, the pixels
covered and the collision so far. -/
def compositeSprite (u : UlaNgSprites) (w y : Int) (s : Fin 16)
    (acc : (Nat → Byte) × (Int → Bool) × Bool) : (Nat → Byte) × (Int → Bool) × Bool :=
  let sprite := u.sprites s
  let row := y - sprite.y.toNat
  if !sprite.enable ∨ row < 0 ∨ row ≥ 16 then acc
  else
    (List.range 16).foldl (fun (fb, occ, collision) (col : Nat) =>
      let idx := sprite.pattern (Fin.ofNat 256 (row.toNat * 16 + col))
      let x : Int := sprite.x.toNat + col
      if idx = 0 ∨ x < 0 ∨ x ≥ w then (fb, occ, collision)
      else
        let off := ((y * w + x) * 3).toNat
        let rgb := u.pal (idx.castLE palette_le)
        (update (update (update fb off rgb.1) (off + 1) rgb.2.1) (off + 2) rgb.2.2,
          update occ x true, collision || occ x)) acc

/-- `ula_ng_composite_scanline`: the last sprite first, so that the first ends on top. -/
def ulaNgCompositeScanline (u : UlaNgSprites) (fb : Nat → Byte) (w h y : Int) :
    (Nat → Byte) × UlaNgSprites :=
  if !u.sprActive ∨ y < 0 ∨ y ≥ h then (fb, u)
  else
    let (fb, _, collision) := (List.finRange 16).foldr (compositeSprite u (min w 512) y)
      (fb, fun _ => false, u.sprCollision)
    (fb, { u with sprCollision := collision })

/-! ## A line -/

def videoLineBegin (y : Int) (vid : Video) : Video :=
  if y < 0 ∨ y ≥ 224 then vid
  else
    let vid :=
      if y = 0 then
        let vid := { vid with frameCounter := vid.frameCounter + 1#32 }
        -- the extended modes are latched for the whole frame
        let wantChunky := latched vid.ng.ngChunkyActive
        let wantText80 := latched vid.ng.ngText80Active
        if wantChunky != vid.ngChunky || wantText80 != vid.ngText80 then
          { applyProfileResolution { vid with ngChunky := wantChunky, ngText80 := wantText80 } with
            framebuffer := fun _ => 0#8, needRefresh := true }
        else vid
      else vid
    let vid := paletteLatch vid
    let ngOn := latched vid.ng.ngActive
    let sx : Int := if ngOn then (vid.ng.ngScrollx.getD 0#8).toNat else 0
    let sy : Int := if ngOn then (vid.ng.ngScrolly.getD 0#8).toNat else 0
    { vid with
      textAttr := 0#8, lineInk := oricWhite, linePaper := oricBlack
      lineSx := sx, lineSy := sy, lineLastCol := if sx > 0 then 40 else 39 }

def videoRenderCell (mem : Nat → Byte) (y col : Int) (vid : Video) : Video :=
  if y < 0 ∨ y ≥ 224 then vid
  else if vid.ngText80 || vid.ngChunky then vid
  else if y < 200 then
    if col < 0 ∨ col > vid.lineLastCol then vid else renderMainCell mem y col vid
  else if col < 0 ∨ col ≥ 40 then vid
  else renderBottomTextCell mem y col vid

def videoLineEnd (mem : Nat → Byte) (y : Int) (vid : Video) : Video :=
  if y < 0 ∨ y ≥ 224 then vid
  else
    let vid :=
      if vid.ngText80 then renderNgText80Scanline mem y vid
      else if vid.ngChunky then renderNgChunkyScanline mem y vid
      else if y = 199 then { vid with hiresMode := vid.vidMode &&& 0x04#8 != 0#8 }
      else vid
    let vid := if y = 223 then { vid with needRefresh := false } else vid
    match vid.ng.ngDev with
    | some u =>
      let (fb, u) := ulaNgCompositeScanline u vid.framebuffer vid.nativeW vid.nativeH y
      { vid with framebuffer := fb, ng := { vid.ng with ngDev := some u } }
    | none => vid

/-- The cells from column 0 on, `n` of them. -/
def videoRenderCells (mem : Nat → Byte) (y : Int) (n : Nat) (vid : Video) : Video :=
  (List.range n).foldl (fun vid col => videoRenderCell mem y col vid) vid

def videoRenderScanline (mem : Nat → Byte) (y : Int) (vid : Video) : Video :=
  if y < 0 ∨ y ≥ 224 then vid
  else
    let vid := videoLineBegin y vid
    let last := if y < 200 then vid.lineLastCol else 39
    videoLineEnd mem y (videoRenderCells mem y (last + 1).toNat vid)

end Phosphoric
