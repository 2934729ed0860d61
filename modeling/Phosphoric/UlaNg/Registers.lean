import Phosphoric.Emu.Clock
import Phosphoric.Video.Scanline

/-!
# The registers of the ULA-NG

The register window $0340-$035F of `src/io/ula_ng.c`: the lock, the palette, the copper list, the
attribute plane, the sprites and the command interpreter behind the VDU port. Locked, the module
only watches the writes for `N`, `G`.

The memory the bus does not reach is a function; the picture made of all this is
`Phosphoric.Video.Scanline`, and the raster tick is `ulaNgScanline`.
-/

namespace Phosphoric

open Function (update)

/-- `ula_ng_t`. The scanline's part is `UlaNg`. -/
structure UlaNgCard extends UlaNg where
  unlocked : Bool
  /-- 1 once `N` has been seen. -/
  unlockStep : Byte
  regs : Fin 32 → Byte
  palIdx : Byte
  /-- The red nibble, latched until green and blue come. -/
  palR : Byte
  scrstart : Word
  scrollx : Byte
  scrolly : Byte
  copperPhase : Byte
  copLine : Byte
  copIndex : Byte
  copR : Byte
  attr : Fin 0x2000 → Byte
  attrWp : Word
  attrActive : Bool
  sprites : Fin 16 → UlaNgSprite
  sprSel : Byte
  sprWp : Word
  sprEnable : Bool
  sprCollision : Bool
  sprActive : Bool
  chunkyActive : Bool
  text80Active : Bool
  vduCmd : Byte
  vduParams : Fin 4 → Byte
  vduNeed : Byte
  vduGot : Byte
  vram : Nat → Byte
  vramActive : Bool
  vduGcol : Byte
  /-- Bytes of a pattern left to come. -/
  vduUpload : Word

/-! ## Reset and loading -/

/-- The first eight colours are the Oric's. -/
def ulaNgPalette (i : Fin 16) : Rgb :=
  if h : i.val < 8 then oricPalette ⟨i.val, h⟩ else (0#8, 0#8, 0#8)

/-- `ula_ng_reset`. Nothing resets the copper entry being assembled. -/
def ulaNgReset (u : UlaNgCard) : UlaNgCard where
  unlocked := false
  unlockStep := 0
  regs := fun _ => 0
  pal := ulaNgPalette
  palIdx := 0
  palR := 0
  active := false
  rasterLine := 0
  rasterEnable := false
  rasterPending := false
  scrstart := 0
  scrollx := 0
  scrolly := 0
  copper := []
  copperPhase := 0
  copLine := u.copLine
  copIndex := u.copIndex
  copR := u.copR
  attr := fun _ => 0
  attrWp := 0
  attrActive := false
  sprites := fun _ => ⟨0, 0, false, fun _ => 0⟩
  sprSel := 0
  sprWp := 0
  sprEnable := false
  sprCollision := false
  sprActive := false
  chunkyActive := false
  text80Active := false
  vduCmd := 0
  vduParams := fun _ => 0
  vduNeed := 0
  vduGot := 0
  vram := fun _ => 0
  vramActive := false
  vduGcol := 0
  vduUpload := 0

/-- What a save state has in its section `UNG`: of another size, cut short, or a state. -/
inductive UlaNgSection
  | otherSize
  | short
  | state (u : UlaNgCard)

/-- `ula_ng_load`. -/
def ulaNgLoad (u : UlaNgCard) : UlaNgSection → UlaNgCard
  | .otherSize => u
  | .short => ulaNgReset u
  | .state u' => u'

/-- `ula_ng_save` emits no section when locked. -/
def ulaNgSave (u : UlaNgCard) : Option UlaNgSection :=
  if u.unlocked then some (.state u) else none

/-- What an open card saves, any card loads back. -/
theorem ulaNgLoad_save {u : UlaNgCard} {ung : UlaNgSection} (h : ulaNgSave u = some ung)
    (u' : UlaNgCard) : ulaNgLoad u' ung = u ∧ u.unlocked = true := by
  unfold ulaNgSave at h
  split at h
  · cases h
    exact ⟨rfl, ‹_›⟩
  · cases h

/-! ## Registers -/

abbrev ulaNgVersion : Byte := 0x1E#8
abbrev ulaNgUnlockN : Byte := 0x4E#8
abbrev ulaNgUnlockG : Byte := 0x47#8
abbrev ulaNgRegLock : Word := 0x0340#16
abbrev ulaNgRegStatus : Word := 0x0347#16
abbrev ulaNgRegIdchk : Word := 0x034F#16
abbrev ulaNgRegSprStatus : Word := 0x0356#16

def ulaNgAddrInWindow (addr : Word) : Bool := addr ≥ 0x0340#16 && addr ≤ 0x035F#16

/-- The register of an address of the window. -/
def ulaNgReg (addr : Word) : Fin 32 := Fin.ofNat 32 (addr.toNat - 0x0340)

def ulaNgRead (u : UlaNgCard) (addr : Word) : Byte × UlaNgCard :=
  if addr = ulaNgRegLock then (ulaNgVersion, u)
  else if addr = ulaNgRegIdchk then (~~~ulaNgVersion, u)
  else if addr = ulaNgRegStatus then (if u.rasterPending then 0x80 else 0, u)
  else if addr = ulaNgRegSprStatus then
    (if u.sprCollision then 0x80 else 0, { u with sprCollision := false })
  else (u.regs (ulaNgReg addr), u)

/-- Four bits to eight. -/
def nibbleTwice (n : Byte) : Byte := n * 0x11#8

/-- NG_COP_DATA: a line, an index and red, then green and blue. At 64 entries the list is full. -/
def ulaNgCopData (u : UlaNgCard) (value : Byte) : UlaNgCard :=
  if u.copperPhase = 0 then { u with copLine := value, copperPhase := 1 }
  else if u.copperPhase = 1 then
    { u with copIndex := value >>> 4, copR := value &&& 0x0F#8, copperPhase := 2 }
  else
    let entry : UlaNgCopper :=
      ⟨u.copLine, u.copIndex, nibbleTwice u.copR, nibbleTwice (value >>> 4),
        nibbleTwice (value &&& 0x0F#8)⟩
    { u with
      copper := if u.copper.length < 64 then u.copper ++ [entry] else u.copper
      copperPhase := 0 }

/-- A colour of the palette is complete, and the index goes on. -/
def ulaNgPalCommit (u : UlaNgCard) (value : Byte) : UlaNgCard :=
  let rgb := (nibbleTwice u.palR, nibbleTwice (value >>> 4), nibbleTwice (value &&& 0x0F#8))
  { u with
    pal := update u.pal (Fin.ofNat 16 u.palIdx.toNat) rgb
    palIdx := (u.palIdx + 1) &&& 0x0F#8 }

/-- A pattern entry, 0 for transparent. -/
def patternEntry (value : Byte) : Fin 8 := Fin.ofNat 8 value.toNat

/-- A byte of the selected sprite's pattern. -/
def ulaNgSprData (u : UlaNgCard) (value : Byte) : UlaNgCard :=
  let s : Fin 16 := Fin.ofNat 16 u.sprSel.toNat
  let pattern := update (u.sprites s).pattern (Fin.ofNat 256 u.sprWp.toNat) (patternEntry value)
  { u with
    sprites := update u.sprites s { u.sprites s with pattern }
    sprWp := BitVec.ofNat 16 ((u.sprWp.toNat + 1) % 256) }

def ulaNgSprite (u : UlaNgCard) (f : UlaNgSprite → UlaNgSprite) : UlaNgCard :=
  let s : Fin 16 := Fin.ofNat 16 u.sprSel.toNat
  { u with sprites := update u.sprites s (f (u.sprites s)) }

/-- The `switch` of `ula_ng_write`, by the offset in the window; the VDU port is apart. -/
def ulaNgSwitch (u : UlaNgCard) (value : Byte) : Nat → UlaNgCard
  | 0x02 => { u with scrstart := (u.scrstart &&& 0xFF00#16) ||| value.setWidth 16 }
  | 0x03 => { u with scrstart := (u.scrstart &&& 0x00FF#16) ||| (value.setWidth 16 <<< 8) }
  | 0x04 => { u with scrollx := if value > 5#8 then 5 else value }
  | 0x05 => { u with scrolly := value &&& 0x07#8 }
  | 0x06 => { u with rasterLine := value }
  | 0x07 => { u with rasterEnable := value &&& 0x01#8 != 0#8, rasterPending := false }
  | 0x08 => { u with palIdx := value &&& 0x0F#8 }
  | 0x09 => { u with palR := value &&& 0x0F#8 }
  | 0x0A => ulaNgPalCommit u value
  | 0x0B => { u with copper := [], copperPhase := 0 }
  | 0x0C => ulaNgCopData u value
  | 0x0D => { u with attr := fun _ => value, attrWp := 0 }
  | 0x0E =>
    { u with
      attr := update u.attr (Fin.ofNat 0x2000 u.attrWp.toNat) value
      attrWp := BitVec.ofNat 16 ((u.attrWp.toNat + 1) % 0x2000) }
  | 0x10 => { u with sprEnable := value &&& 0x01#8 != 0#8 }
  | 0x11 => { u with sprSel := value &&& 0x0F#8, sprWp := 0 }
  | 0x12 => ulaNgSprite u ({ · with x := value })
  | 0x13 => ulaNgSprite u ({ · with y := value })
  | 0x14 => ulaNgSprite u ({ · with enable := value &&& 0x01#8 != 0#8 })
  | 0x15 => ulaNgSprData u value
  | _ => u

/-- The caches of NG_MODE and NG_SPR_CTRL the video looks at. -/
def ulaNgCaches (u : UlaNgCard) : UlaNgCard :=
  let mode := u.regs 1
  let active := u.unlocked && mode &&& 0x01#8 != 0#8
  { u with
    active := active
    attrActive := u.unlocked && mode &&& 0x02#8 != 0#8
    sprActive := u.unlocked && u.sprEnable
    chunkyActive := active && mode &&& 0x0C#8 == 0x04#8
    text80Active := active && mode &&& 0x0C#8 == 0x08#8 }

/-- A write to an unlocked register other than the lock, NG_IDCHK and the VDU port. -/
def ulaNgWriteReg (u : UlaNgCard) (off : Fin 32) (value : Byte) : UlaNgCard :=
  ulaNgCaches (ulaNgSwitch { u with regs := update u.regs off value } value off.val)

/-! ## The VDU -/

/-- A pixel of the chunky memory, two to a byte. -/
def vramPlot (u : UlaNgCard) (x y : Int) (c : Byte) : UlaNgCard :=
  if x < 0 ∨ x ≥ 160 ∨ y < 0 ∨ y ≥ 224 then u
  else
    let idx := y.toNat * 80 + x.toNat / 2
    let old := u.vram idx
    let pixel := if x % 2 = 1 then (old &&& 0xF0#8) ||| (c &&& 0x0F#8)
      else (old &&& 0x0F#8) ||| ((c &&& 0x0F#8) <<< 4)
    { u with vram := update u.vram idx pixel }

/-- The loop of `vram_line`, at most `fuel` points. -/
def vramLineLoop (dx dy sx sy x1 y1 : Int) (c : Byte) : Nat → Int → Int → Int → UlaNgCard →
    UlaNgCard
  | 0, _, _, _, u => u
  | fuel + 1, x, y, err, u =>
    let u := vramPlot u x y c
    if x = x1 ∧ y = y1 then u
    else
      let e2 := 2 * err
      let (err, x) := if e2 ≥ dy then (err + dy, x + sx) else (err, x)
      let (err, y) := if e2 ≤ dx then (err + dx, y + sy) else (err, y)
      vramLineLoop dx dy sx sy x1 y1 c fuel x y err u

/-- Bresenham's line. Each point goes a step towards the end on an axis at least. -/
def vramLine (u : UlaNgCard) (x0 y0 x1 y1 : Byte) (c : Byte) : UlaNgCard :=
  let dx : Int := |(x1.toNat : Int) - x0.toNat|
  let dy : Int := -|(y1.toNat : Int) - y0.toNat|
  vramLineLoop dx dy (if x0 < x1 then 1 else -1) (if y0 < y1 then 1 else -1) x1.toNat y1.toNat c
    512 x0.toNat y0.toNat (dx + dy) u

/-- Parameters a command takes. -/
def vduNeedFor (cmd : Byte) : Byte :=
  match cmd.toNat with
  | 17 | 18 | 22 | 23 => 1
  | 25 => 2
  | 31 => 3
  | 19 | 24 | 26 => 4
  | _ => 0

/-- The mode register with the parallel attributes on. -/
def vduAttrMode (u : UlaNgCard) : UlaNgCard := ulaNgWriteReg u 1 (u.regs 1 ||| 0x02#8)

/-- The eight lines of a cell of the attribute plane. -/
def vduColourCell (u : UlaNgCard) (col row a : Byte) : UlaNgCard :=
  if col < 40#8 ∧ row < 25#8 then
    { u with
      attr := (List.range 8).foldl (fun attr i =>
        update attr (Fin.ofNat 0x2000 ((row.toNat * 8 + i) * 40 + col.toNat)) a) u.attr }
  else u

def vduExec (u : UlaNgCard) : UlaNgCard :=
  let p := u.vduParams
  match u.vduCmd.toNat with
  | 20 => ulaNgWriteReg { u with vramActive := false } 1 0x00
  | 16 => ulaNgWriteReg { u with vram := fun _ => 0, vramActive := true } 1 0x05
  | 17 => { u with vduGcol := p 0 &&& 0x0F#8 }
  | 25 => vramPlot u (p 0).toNat (p 1).toNat u.vduGcol
  | 26 => vramLine u (p 0) (p 1) (p 2) (p 3) u.vduGcol
  | 23 => { u with sprSel := p 0 &&& 0x0F#8, sprWp := 0, vduUpload := 256 }
  | 24 =>
    let s : Fin 16 := Fin.ofNat 16 (p 0).toNat
    { u with
      sprites := update u.sprites s
        { u.sprites s with x := p 1, y := p 2, enable := p 3 &&& 0x01#8 != 0#8 }
      sprEnable := true }
  | 22 => ulaNgWriteReg u 1 (if p 0 = 1 then 0x05 else if p 0 = 2 then 0x09 else 0x01)
  | 19 =>
    let u := ulaNgWriteReg u 0x08 (p 0 &&& 0x0F#8)
    let u := ulaNgWriteReg u 0x09 (p 1 &&& 0x0F#8)
    ulaNgWriteReg u 0x0A (((p 2 &&& 0x0F#8) <<< 4) ||| (p 3 &&& 0x0F#8))
  | 18 => ulaNgWriteReg (vduAttrMode u) 0x0D (p 0)
  | 31 => vduColourCell (vduAttrMode u) (p 0) (p 1) (p 2)
  | _ => u

/-- `vdu_feed`: a pattern byte, a command, or a parameter of one. -/
def vduFeed (u : UlaNgCard) (b : Byte) : UlaNgCard :=
  if u.vduUpload > 0#16 then
    { ulaNgSprData u b with vduUpload := u.vduUpload - 1 }
  else if u.vduNeed = 0 then
    let u := { u with vduCmd := b, vduGot := 0, vduNeed := vduNeedFor b }
    if u.vduNeed = 0 then vduExec u else u
  else
    let u := { u with
      vduParams := if u.vduGot < 4#8 then update u.vduParams (Fin.ofNat 4 u.vduGot.toNat) b
        else u.vduParams
      vduGot := u.vduGot + 1 }
    if u.vduGot ≥ u.vduNeed then { vduExec u with vduNeed := 0 } else u

/-! ## Writes -/

/-- The lock watches for `N`, then `G`, both at $0340 and with no write of the window between. -/
def ulaNgWatch (u : UlaNgCard) (addr : Word) (value : Byte) : UlaNgCard :=
  if addr = ulaNgRegLock then
    if value = ulaNgUnlockN then { u with unlockStep := 1 }
    else if value = ulaNgUnlockG ∧ u.unlockStep = 1 then
      { u with unlocked := true, unlockStep := 0 }
    else { u with unlockStep := 0 }
  else { u with unlockStep := 0 }

/-- A write to an unlocked window. NG_ID and NG_IDCHK are read-only. -/
def ulaNgWriteOpen (u : UlaNgCard) (addr : Word) (value : Byte) : UlaNgCard :=
  if addr = ulaNgRegLock ∨ addr = ulaNgRegIdchk then ulaNgCaches u
  else if ulaNgReg addr = 0x17 then
    ulaNgCaches (vduFeed { u with regs := update u.regs 0x17 value } value)
  else ulaNgWriteReg u (ulaNgReg addr) value

/-- `ula_ng_write`: whether the write is consumed. -/
def ulaNgWrite (u : UlaNgCard) (addr : Word) (value : Byte) : Bool × UlaNgCard :=
  if !u.unlocked then (false, ulaNgWatch u addr value)
  else (true, ulaNgWriteOpen u addr value)

/-- `ula_ng_scanline`. -/
def UlaNgCard.scanline (u : UlaNgCard) (line : Int) : UlaNgCard :=
  { u with toUlaNg := ulaNgScanline u.toUlaNg line }

/-- What the pointers of `video_t` lead to. -/
def UlaNgCard.video (u : UlaNgCard) : VideoNg where
  ngPal := some u.pal
  ngActive := some u.active
  ngScrstart := some u.scrstart
  ngScrollx := some u.scrollx
  ngScrolly := some u.scrolly
  ngAttr := some u.attr
  ngAttrActive := some u.attrActive
  ngDev := some ⟨u.sprActive, u.sprites, u.pal, u.sprCollision⟩
  ngChunkyActive := some u.chunkyActive
  ngText80Active := some u.text80Active
  ngVram := some u.vram
  ngVramActive := some u.vramActive

end Phosphoric
