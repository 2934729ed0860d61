import Phosphoric.Emu.Raster

/-!
# The copper list over a frame

The copper of the ULA-NG changes colours of the palette as the beam goes down the frame: each entry
names a line, and `ula_ng_scanline` applies the entries of a line at the end of it. The line is drawn
before, so an entry is seen from the next line on.

**Theorem (`copper_frame`).** While the beam is on a line, the palette is that of the start of the
frame, changed by the entries of the lines before: line by line, and within a line in list order.
-/

namespace Phosphoric

open Function (update)
open Machine

/-! ## A tick -/

abbrev Palette := Fin 16 → Byte × Byte × Byte

/-- An entry applied. -/
def copperSet (pal : Palette) (e : UlaNgCopper) : Palette :=
  update pal (Fin.ofNat 16 (e.index &&& 0x0F#8).toNat) (e.r, e.g, e.b)

/-- The entries of a line, in list order. -/
def copperOf (copper : List UlaNgCopper) (line : Nat) : List UlaNgCopper :=
  copper.filter fun e => e.line.toNat = line

/-- The entries of the lines before `y`: line by line, and in list order. -/
def copperBefore (copper : List UlaNgCopper) (y : Nat) : List UlaNgCopper :=
  (List.range y).flatMap (copperOf copper)

theorem copperBefore_succ (copper : List UlaNgCopper) (y : Nat) :
    copperBefore copper (y + 1) = copperBefore copper y ++ copperOf copper y := by
  rw [copperBefore, List.range_succ, List.flatMap_append, List.flatMap_singleton]
  rfl

/-- What the ticks of a frame leave alone. -/
structure CopperKept (u u' : UlaNg) : Prop where
  active : u'.active = u.active
  copper : u'.copper = u.copper

theorem CopperKept.trans {u u' u'' : UlaNg} (h : CopperKept u u') (h' : CopperKept u' u'') :
    CopperKept u u'' :=
  ⟨h'.active.trans h.active, h'.copper.trans h.copper⟩

theorem ulaNgScanline_kept (u : UlaNg) (line : Int) : CopperKept u (ulaNgScanline u line) := by
  unfold ulaNgScanline ulaNgCopperLine
  dsimp only
  split_ifs <;> exact ⟨rfl, rfl⟩

theorem line_eq_iff (b : Byte) {line : Nat} (hline : line < 256) :
    b = BitVec.ofInt 8 line ↔ b.toNat = line := by
  rw [← BitVec.toNat_inj, BitVec.ofInt_natCast, BitVec.toNat_ofNat, Nat.mod_eq_of_lt hline]

/-- A tick applies the entries of its line. -/
theorem ulaNgScanline_pal {u : UlaNg} (hactive : u.active = true) {line : Nat} (hline : line < 256) :
    (ulaNgScanline u line).pal = (copperOf u.copper line).foldl copperSet u.pal := by
  have hpal : (ulaNgScanline u line).pal = (ulaNgCopperLine u line).pal := by
    unfold ulaNgScanline ulaNgCopperLine
    rw [hactive, if_neg (by decide)]
    dsimp only
    split_ifs <;> rfl
  rw [hpal, copperOf, List.foldl_filter]
  simp only [ulaNgCopperLine, line_eq_iff _ hline, decide_eq_true_eq]
  rfl

/-! ## The ticks of a frame -/

/-- The ticks of the lines before `y`. -/
theorem upTo_pal {u : UlaNg} (hactive : u.active = true) (y : Nat) (hy : y ≤ 256) :
    CopperKept u ((upTo y).foldl ulaNgScanline u) ∧
      ((upTo y).foldl ulaNgScanline u).pal = (copperBefore u.copper y).foldl copperSet u.pal := by
  induction y with
  | zero => exact ⟨⟨rfl, rfl⟩, rfl⟩
  | succ y ih =>
    obtain ⟨hkept, hpal⟩ := ih (by omega)
    have hsucc : upTo ((y + 1 : Nat) : Int) = upTo y ++ [(y : Int)] := by
      rw [Nat.cast_succ]
      exact upTo_succ (Int.natCast_nonneg y)
    rw [hsucc, List.foldl_append, copperBefore_succ, List.foldl_append, ← hpal]
    refine ⟨hkept.trans (ulaNgScanline_kept _ _), ?_⟩
    have htick := ulaNgScanline_pal (hkept.active.trans hactive) (show y < 256 by omega)
    rwa [hkept.copper] at htick

/-! ## The frame -/

/-- The loop of `clock_advance_raster` from the start of a frame: the visible lines before `y` are
rendered, and the same lines ticked. -/
theorem rasterLine_iterate {emu : Emulator} (hmode : ulaCycleInUse emu = false)
    (hng : emu.rasterNgLine = 0) (hrendered : emu.rasterRendered = 0) (y : Nat) (hy : y ≤ 224) :
    let line := rasterLine^[y] emu
    ulaCycleInUse line = false ∧ line.rasterNgLine = y ∧ line.rasterRendered = y ∧
      line.ulaNg = (upTo y).foldl ulaNgScanline emu.ulaNg := by
  induction y with
  | zero => exact ⟨hmode, hng, hrendered, rfl⟩
  | succ y ih =>
    obtain ⟨hmode', hng', hrendered', hticks⟩ := ih (by omega)
    have hsucc : upTo ((y + 1 : Nat) : Int) = upTo y ++ [(y : Int)] := by
      rw [Nat.cast_succ]
      exact upTo_succ (Int.natCast_nonneg y)
    have hlt : (y : Int) < ulaNgFrameLines := by
      change (y : Int) < 312
      omega
    rw [Function.iterate_succ_apply']
    refine ⟨(rasterLine_inUse _).trans hmode', ?_, ?_, ?_⟩
    · rw [rasterLine_ng, hng', if_pos hlt, Nat.cast_succ]
    · rw [(rasterLine_rendered _).1, rasterScanline, hmode', hrendered', if_pos (by simp; omega)]
      rw [Nat.cast_succ]
    · rw [rasterLine_ulaNg, hng', if_pos hlt, hticks, hsucc, List.foldl_append]

/-- The line is rendered before its tick. -/
theorem rasterLine_renders {emu : Emulator} (hmode : ulaCycleInUse emu = false)
    (hlt : emu.rasterRendered < 224) :
    (rasterLine emu).video = emu.video ++ [.scanline emu.rasterRendered] := by
  rw [(rasterLine_rendered emu).2, rasterScanline, hmode, if_pos (by simpa using hlt)]
  rfl

/-- The block of a visible line, from the start of a frame. -/
theorem copperLine_rendered {emu : Emulator} (hmode : ulaCycleInUse emu = false)
    (hactive : emu.ulaNg.active = true) (y : Nat) (hy : y < 224) :
    let line := rasterLine^[y] (emuClockFrameBegin false emu)
    (rasterLine line).video = line.video ++ [.scanline y] ∧
      line.ulaNg.pal = (copperBefore emu.ulaNg.copper y).foldl copperSet emu.ulaNg.pal := by
  intro line
  obtain ⟨hmode', -, hrendered, hticks⟩ :=
    @rasterLine_iterate (emuClockFrameBegin false emu) hmode rfl rfl y (by omega)
  constructor
  · rw [rasterLine_renders hmode' (by omega), hrendered]
  · rw [hticks]
    exact (upTo_pal hactive y (by omega)).2

/-- **A frame of the copper.** While the beam is on a line short of the 256th, and when the block
of a visible line is rendered, the palette is the one of the start of the frame changed by the
entries of the lines before, in order; and a tick applies the entries of its own line only. -/
theorem copper_frame (emu : Emulator) (hactive : emu.ulaNg.active = true) :
    let start := emuClockFrameBegin false emu
    (∀ steps : List ClockStep, (∀ n, .instruction n ∈ steps → 0 < n ∧ ulaCycleInUse emu = false) →
      ∀ y : Nat, y ≤ 256 → (steps.foldl clockStep start).rasterCycle / 64 = y →
        (steps.foldl clockStep start).ulaNg.pal =
          (copperBefore emu.ulaNg.copper y).foldl copperSet emu.ulaNg.pal) ∧
    (ulaCycleInUse emu = false → ∀ y : Nat, y < 224 →
      (rasterLine (rasterLine^[y] start)).video = (rasterLine^[y] start).video ++ [.scanline y] ∧
        (rasterLine^[y] start).ulaNg.pal =
          (copperBefore emu.ulaNg.copper y).foldl copperSet emu.ulaNg.pal) ∧
    ∀ u : UlaNg, u.active = true → ∀ line : Nat, line < 256 →
      (ulaNgScanline u line).pal = (copperOf u.copper line).foldl copperSet u.pal := by
  refine ⟨fun steps hsteps y hy hline => ?_, fun hmode y hy => ?_,
    fun u hu line hline => ulaNgScanline_pal hu hline⟩
  · obtain ⟨-, -, -, hticked, hticks, -⟩ := clockRun_frame false emu nofun steps hsteps
    have hmin : min (312 : Int) y = y := min_eq_right (by omega)
    rw [hline, hmin] at hticked
    have hall : trace clockStep clockTicks steps (emuClockFrameBegin false emu) = upTo y := hticked
    rw [hticks, hall]
    exact (upTo_pal hactive y hy).2
  · exact copperLine_rendered hmode hactive y hy

/-- The machine with an entry that makes colour 3 red at line 10. -/
def copperSample : Emulator :=
  { emuSample 0xEA#8 with
    microseq := false
    ulaNg := ⟨true, false, 0#8, false, [⟨10#8, 3#8, 0xFF#8, 0#8, 0#8⟩],
      fun _ => (0#8, 0#8, 0#8)⟩ }

/-- Line 11 is red. -/
theorem copper_frame_sample :
    (rasterLine^[11] (emuClockFrameBegin false copperSample)).ulaNg.pal =
      (copperBefore copperSample.ulaNg.copper 11).foldl copperSet copperSample.ulaNg.pal :=
  ((copper_frame copperSample rfl).2.1 rfl 11 (by decide)).2

/-- Line 10 is rendered before the entry is applied. -/
theorem copper_not_same_line :
    (rasterLine (rasterLine^[10] (emuClockFrameBegin false copperSample))).video =
        (rasterLine^[10] (emuClockFrameBegin false copperSample)).video ++ [.scanline 10] ∧
      (rasterLine^[10] (emuClockFrameBegin false copperSample)).ulaNg.pal ≠
        (copperBefore copperSample.ulaNg.copper 11).foldl copperSet copperSample.ulaNg.pal := by
  obtain ⟨hrender, hpal⟩ := @copperLine_rendered copperSample rfl rfl 10 (by decide)
  refine ⟨hrender, fun h => ?_⟩
  have hred := congrFun (hpal.symm.trans h) 3
  revert hred
  decide

end Phosphoric
