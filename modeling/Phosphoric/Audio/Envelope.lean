import Mathlib.Tactic.IntervalCases
import Phosphoric.Audio.Timed

/-!
# The envelope against the waveforms of the chip

A write to register 13 starts an envelope, which moves on by a step every `EP` ticks. The level is
computed from the step (`envelopeVolume`); after 32 steps a shape that does not repeat stops there.

**Theorem (`ayEnvelope_wave`).** The volume is the waveform's (`ayWave`) after every tick, but for
shapes 9 and 13 from 32 steps on: they stop at step 0, the start of their ramp, and not at the level
they hold. No tick has computed a volume right after the write.
-/

namespace Phosphoric

open Function

/-! ## Waveforms -/

/-- The level `n` steps after the write: `\___`, `/___`, `\\\\`, `\/\/`, `\‾‾‾`, `////`, `/‾‾‾`,
`/\/\`. -/
def ayWave (shape n : Nat) : Nat :=
  let down := 15 - n % 16
  let up := n % 16
  let first := n < 16
  match shape with
  | 8 => down
  | 10 => if n % 32 < 16 then down else up
  | 11 => if first then down else 15
  | 12 => up
  | 13 => if first then up else 15
  | 14 => if n % 32 < 16 then up else down
  | 4 | 5 | 6 | 7 | 15 => if first then up else 0
  | _ => if first then down else 0

/-- Bits 3 and 0: the shapes that go on for ever. -/
def ayRepeats (shape : Byte) : Prop := shape &&& 0x08#8 ≠ 0#8 ∧ shape &&& 0x01#8 = 0#8

instance (shape : Byte) : Decidable (ayRepeats shape) := inferInstanceAs (Decidable (_ ∧ _))

theorem ayWave_repeats {shape : Byte} (hshape : shape.toNat < 16) (h : ayRepeats shape) (n : Nat) :
    ayWave shape.toNat (n + 32) = ayWave shape.toNat n := by
  have hcases : ∀ shape : Byte, shape.toNat < 16 → ayRepeats shape →
      shape.toNat = 8 ∨ shape.toNat = 10 ∨ shape.toNat = 12 ∨ shape.toNat = 14 := by
    decide
  have h16 : (n + 32) % 16 = n % 16 := by omega
  have h32 : (n + 32) % 32 = n % 32 := Nat.add_mod_right n 32
  rcases hcases shape hshape h with hs | hs | hs | hs <;> rw [hs] <;> simp only [ayWave, h16, h32]

theorem ayWave_mod {shape : Byte} (hshape : shape.toNat < 16) (h : ayRepeats shape) (n : Nat) :
    ayWave shape.toNat (n % 32) = ayWave shape.toNat n := by
  have hmul : ∀ c m, ayWave shape.toNat (m + 32 * c) = ayWave shape.toNat m := by
    intro c m
    induction c with
    | zero => rfl
    | succ c ih => rw [Nat.mul_succ, ← Nat.add_assoc, ayWave_repeats hshape h, ih]
  rw [← hmul (n / 32) (n % 32), Nat.mod_add_div]

/-- What the other shapes hold. -/
def ayHold (shape : Nat) : Nat := if shape = 11 ∨ shape = 13 then 15 else 0

theorem ayWave_hold {shape : Byte} (hshape : shape.toNat < 16) (h : ¬ayRepeats shape) {n : Nat}
    (hn : 16 ≤ n) : ayWave shape.toNat n = ayHold shape.toNat := by
  have hcases : ∀ shape : Byte, shape.toNat < 16 → ¬ayRepeats shape →
      shape.toNat ≠ 8 ∧ shape.toNat ≠ 10 ∧ shape.toNat ≠ 12 ∧ shape.toNat ≠ 14 := by
    decide
  have hlate : ¬n < 16 := not_lt.mpr hn
  obtain ⟨h8, h10, h12, h14⟩ := hcases shape hshape h
  generalize shape.toNat = s at hshape h8 h10 h12 h14 ⊢
  interval_cases s <;> first | contradiction | simp [ayWave, ayHold, hlate]

/-- The first 32 steps. -/
theorem envelopeVolume_eq {shape step : Byte} (hshape : shape.toNat < 16) (hstep : step.toNat < 32) :
    (envelopeVolume shape step).toNat = ayWave shape.toNat step.toNat := by
  have hall : ∀ (shape : Fin 16) (step : Fin 32),
      (envelopeVolume (BitVec.ofNat 8 shape) (BitVec.ofNat 8 step)).toNat = ayWave shape step := by
    decide
  have h := hall ⟨shape.toNat, hshape⟩ ⟨step.toNat, hstep⟩
  simpa only [BitVec.ofNat_toNat, BitVec.setWidth_eq] using h

/-! ## The generator -/

/-- Where a shape that does not repeat stops. -/
def ayLastStep (shape : Byte) : Byte := if shape &&& 0x08#8 = 0#8 then 31#8 else 0#8

/-- `r` ticks after step `q` of an envelope, counted from the write. -/
structure AyEnvelope (period : Word) (shape : Byte) (q r : Nat) (v : AyVoice) : Prop where
  envPeriod : v.envPeriod = period
  envShape : v.envShape = shape
  runs : ayRepeats shape ∨ q < 32 →
    v.envHolding = false ∧ v.envCounter.toNat = r ∧ v.envStep.toNat = q % 32
  stops : ¬(ayRepeats shape ∨ q < 32) → v.envHolding = true ∧ v.envStep = ayLastStep shape

variable {period : Word} {shape : Byte} {q r : Nat} {v : AyVoice}

/-- A tick within a step. -/
theorem AyEnvelope.tick (h : AyEnvelope period shape q r v) (hr : r + 1 < period.toNat) :
    AyEnvelope period shape q (r + 1) (ayTickEnvelope v) := by
  have hperiod : v.envPeriod ≠ 0#16 := by
    rw [h.envPeriod]
    rintro rfl
    exact absurd hr (Nat.not_lt_zero _)
  unfold ayTickEnvelope
  by_cases hrun : ayRepeats shape ∨ q < 32
  · obtain ⟨hholding, hcounter, hstep⟩ := h.runs hrun
    have hlt := period.isLt
    have hnext : (v.envCounter + 1#32).toNat = r + 1 := by
      rw [BitVec.toNat_add, hcounter, BitVec.toNat_ofNat]
      omega
    have hless : ¬v.envCounter + 1#32 ≥ v.envPeriod.setWidth 32 := by
      rw [ge_iff_le, BitVec.le_def, hnext, h.envPeriod, BitVec.toNat_setWidth]
      omega
    rw [if_pos ⟨hperiod, hholding⟩]
    dsimp only
    rw [if_neg hless]
    exact ⟨h.envPeriod, h.envShape, fun _ => ⟨hholding, hnext, hstep⟩, fun hno => absurd hrun hno⟩
  · obtain ⟨hholding, hstep⟩ := h.stops hrun
    rw [if_neg (by simp [hholding])]
    exact ⟨h.envPeriod, h.envShape, fun hyes => absurd hyes hrun, fun _ => ⟨hholding, hstep⟩⟩

/-- The tick that ends a step. -/
theorem AyEnvelope.tick_last (h : AyEnvelope period shape q r v) (hr : r + 1 = period.toNat) :
    AyEnvelope period shape (q + 1) 0 (ayTickEnvelope v) := by
  have hperiod : v.envPeriod ≠ 0#16 := by
    rw [h.envPeriod]
    rintro rfl
    exact absurd hr (Nat.succ_ne_zero r)
  unfold ayTickEnvelope
  by_cases hrun : ayRepeats shape ∨ q < 32
  · obtain ⟨hholding, hcounter, hstep⟩ := h.runs hrun
    have hlt := period.isLt
    have hdue : v.envCounter + 1#32 ≥ v.envPeriod.setWidth 32 := by
      rw [ge_iff_le, BitVec.le_def, BitVec.toNat_add, hcounter, h.envPeriod, BitVec.toNat_setWidth,
        BitVec.toNat_ofNat]
      omega
    have hnext : (v.envStep + 1#8).toNat = q % 32 + 1 := by
      rw [BitVec.toNat_add, hstep, BitVec.toNat_ofNat]
      omega
    rw [if_pos ⟨hperiod, hholding⟩]
    dsimp only
    rw [if_pos hdue]
    by_cases hwrap : v.envStep + 1#8 ≥ 32#8
    · have hlast : q % 32 = 31 := by
        rw [ge_iff_le, BitVec.le_def, hnext, BitVec.toNat_ofNat] at hwrap
        omega
      have hmask : (v.envStep + 1#8) &&& 0x1F#8 = 0#8 := by
        have heq : v.envStep + 1#8 = 32#8 := by
          rw [← BitVec.toNat_inj, hnext, hlast]
          rfl
        rw [heq]
        decide
      rw [if_pos hwrap, hmask]
      by_cases h8 : v.envShape &&& 0x08#8 = 0#8
      · have hone : ¬ayRepeats shape := fun hrep => hrep.1 (h.envShape ▸ h8)
        have hfirst := hrun.resolve_left hone
        rw [if_pos h8]
        refine ⟨h.envPeriod, h.envShape, fun hyes => ?_, fun _ => ⟨rfl, ?_⟩⟩
        · rcases hyes with hrep | hlt32
          · exact absurd hrep hone
          · omega
        · show 31#8 = ayLastStep shape
          rw [ayLastStep, ← h.envShape, if_pos h8]
      · rw [if_neg h8]
        by_cases h1 : v.envShape &&& 0x01#8 ≠ 0#8
        · have hone : ¬ayRepeats shape := fun hrep => h1 (h.envShape ▸ hrep.2)
          have hfirst := hrun.resolve_left hone
          rw [if_pos h1]
          refine ⟨h.envPeriod, h.envShape, fun hyes => ?_, fun _ => ⟨rfl, ?_⟩⟩
          · rcases hyes with hrep | hlt32
            · exact absurd hrep hone
            · omega
          · show 0#8 = ayLastStep shape
            rw [ayLastStep, ← h.envShape, if_neg h8]
        · have hrep : ayRepeats shape := ⟨h.envShape ▸ h8, h.envShape ▸ not_not.mp h1⟩
          rw [if_neg h1]
          refine ⟨h.envPeriod, h.envShape, fun _ => ⟨hholding, rfl, ?_⟩, fun hno => absurd (.inl hrep) hno⟩
          show 0 = (q + 1) % 32
          omega
    · have hless : q % 32 + 1 < 32 := by
        rw [ge_iff_le, BitVec.le_def, hnext, BitVec.toNat_ofNat] at hwrap
        omega
      have hstill : ayRepeats shape ∨ q + 1 < 32 := hrun.imp_right fun hlt32 => by omega
      rw [if_neg hwrap]
      refine ⟨h.envPeriod, h.envShape, fun _ => ⟨hholding, rfl, ?_⟩, fun hno => absurd hstill hno⟩
      dsimp only
      rw [hnext]
      omega
  · obtain ⟨hholding, hstep⟩ := h.stops hrun
    have hstill : ¬(ayRepeats shape ∨ q + 1 < 32) := fun hyes => hrun (hyes.imp_right (by omega))
    rw [if_neg (by simp [hholding])]
    exact ⟨h.envPeriod, h.envShape, fun hyes => absurd hyes hstill, fun _ => ⟨hholding, hstep⟩⟩

theorem AyEnvelope.noise (h : AyEnvelope period shape q r v) :
    AyEnvelope period shape q r (ayTickNoise v) := by
  unfold ayTickNoise
  generalize (if v.noisePeriod = 0#16 then 1#32 else v.noisePeriod.setWidth 32) = np
  dsimp only
  split
  · exact ⟨h.envPeriod, h.envShape, h.runs, h.stops⟩
  · exact ⟨h.envPeriod, h.envShape, h.runs, h.stops⟩

theorem AyEnvelope.volume (h : AyEnvelope period shape q r v) (volume : Byte) :
    AyEnvelope period shape q r { v with envVolume := volume } :=
  ⟨h.envPeriod, h.envShape, h.runs, h.stops⟩

/-- A clock step: the envelope moves on, and the volume is computed from it. -/
theorem AyEnvelope.clock {st : AyPlay} (h : AyEnvelope period shape q r st.toAyVoice)
    (hpos : 0 < period.toNat) (hr : r < period.toNat) :
    AyEnvelope period shape ((q * period.toNat + r + 1) / period.toNat)
        ((q * period.toNat + r + 1) % period.toNat) (ayTick st).toAyVoice ∧
      (ayTick st).envVolume = envelopeVolume (ayTick st).envShape (ayTick st).envStep := by
  have htone : AyEnvelope period shape q r (ayTickTone st.toAyVoice) :=
    ⟨h.envPeriod, h.envShape, h.runs, h.stops⟩
  have hnoise := htone.noise
  have hvoice : (ayTick st).toAyVoice =
      { ayTickEnvelope (ayTickNoise (ayTickTone st.toAyVoice)) with
        envVolume := (ayTick st).envVolume } := rfl
  refine ⟨?_, rfl⟩
  by_cases hlast : r + 1 = period.toNat
  · have hsum : q * period.toNat + r + 1 = (q + 1) * period.toNat := by
      rw [Nat.succ_mul, Nat.add_assoc, hlast]
    have hnext := hnoise.tick_last hlast
    rw [hsum, Nat.mul_div_cancel _ hpos, Nat.mul_mod_left, hvoice]
    exact hnext.volume _
  · have hlt : r + 1 < period.toNat := by omega
    have hnext := hnoise.tick hlt
    rw [Nat.add_assoc, Nat.mul_comm, Nat.mul_add_div hpos, Nat.div_eq_of_lt hlt,
      Nat.mul_add_mod, Nat.mod_eq_of_lt hlt, Nat.add_zero, hvoice]
    exact hnext.volume _

/-- The envelope after `t` ticks. -/
theorem AyEnvelope.run {st : AyPlay} (h : AyEnvelope period shape 0 0 st.toAyVoice)
    (hpos : 0 < period.toNat) (t : Nat) :
    AyEnvelope period shape (t / period.toNat) (t % period.toNat) (ayTick^[t] st).toAyVoice := by
  induction t with
  | zero =>
    rw [Nat.zero_div, Nat.zero_mod]
    exact h
  | succ t ih =>
    have hnext := (ih.clock hpos (Nat.mod_lt t hpos)).1
    rw [Nat.mul_comm, Nat.div_add_mod] at hnext
    rw [iterate_succ_apply']
    exact hnext

/-- The level at a step, and where it is not the waveform's. -/
theorem AyEnvelope.level (h : AyEnvelope period shape q r v) (hshape : shape.toNat < 16) :
    (envelopeVolume v.envShape v.envStep).toNat = ayWave shape.toNat q ↔
      (shape.toNat = 9 ∨ shape.toNat = 13 → q < 32) := by
  rw [h.envShape]
  by_cases hrun : ayRepeats shape ∨ q < 32
  · obtain ⟨-, -, hstep⟩ := h.runs hrun
    have hlevel := envelopeVolume_eq hshape (show v.envStep.toNat < 32 by omega)
    rw [hstep] at hlevel
    by_cases hrep : ayRepeats shape
    · have hno : ¬(shape.toNat = 9 ∨ shape.toNat = 13) := by
        have hall : ∀ shape : Byte, ayRepeats shape → ¬(shape.toNat = 9 ∨ shape.toNat = 13) := by
          decide
        exact hall shape hrep
      rw [hlevel, ayWave_mod hshape hrep]
      exact iff_of_true rfl fun hyes => absurd hyes hno
    · have hlt := hrun.resolve_left hrep
      rw [hlevel, Nat.mod_eq_of_lt hlt]
      exact iff_of_true rfl fun _ => hlt
  · obtain ⟨-, hstep⟩ := h.stops hrun
    obtain ⟨hrep, hlate⟩ := not_or.mp hrun
    have hall : ∀ shape : Byte, shape.toNat < 16 → ¬ayRepeats shape →
        ((envelopeVolume shape (ayLastStep shape)).toNat = ayHold shape.toNat ↔
          ¬(shape.toNat = 9 ∨ shape.toNat = 13)) := by
      decide
    rw [hstep, ayWave_hold hshape hrep (by omega), hall shape hshape hrep]
    exact ⟨fun hno hyes => absurd hyes hno, fun himp hyes => hlate (himp hyes)⟩

/-- The volume after `t` ticks, and where it is not the waveform's. -/
theorem ayEnvelope_wave (st : AyPlay) (data : Byte) (hperiod : st.envPeriod ≠ 0#16) (t : Nat) :
    let start : AyPlay := { st with toAyVoice := st.toAyVoice.write 13 data }
    let shape := (data &&& 0x0F#8).toNat
    (ayTick^[t] start).envVolume.toNat = ayWave shape (t / st.envPeriod.toNat) ↔
      if t = 0 then st.envVolume.toNat = ayWave shape 0
      else shape = 9 ∨ shape = 13 → t < 32 * st.envPeriod.toNat := by
  intro start shape
  have hpos : 0 < st.envPeriod.toNat :=
    Nat.pos_of_ne_zero fun h => hperiod (BitVec.eq_of_toNat_eq h)
  have hshape : shape < 16 := by
    have hall : ∀ data : Byte, (data &&& 0x0F#8).toNat < 16 := by decide
    exact hall data
  have hwritten : AyEnvelope st.envPeriod (data &&& 0x0F#8) 0 0 start.toAyVoice :=
    ⟨rfl, by simp [start, AyVoice.write, applySoundRegs], fun _ => ⟨rfl, rfl, rfl⟩,
      fun hno => absurd (.inr (by decide)) hno⟩
  cases t with
  | zero =>
    rw [if_pos rfl, Nat.zero_div]
    rfl
  | succ t =>
    have hrun := hwritten.run hpos (t + 1)
    have hvolume := (hwritten.run hpos t).clock hpos (Nat.mod_lt t hpos)
    rw [iterate_succ_apply'] at hrun ⊢
    rw [hvolume.2, hrun.level hshape, if_neg (Nat.succ_ne_zero t), Nat.div_lt_iff_lt_mul hpos]

/-- The chip out of `ay_init`, with an envelope step on every tick. -/
def ayFastEnvelope : AyPlay := { ayVoiceInit.write 11 1#8 with stepAcc := 0 }

/-- Shape 14, `/\/\`, in its third ramp. -/
theorem ayEnvelope_wave_triangle :
    let start : AyPlay :=
      { ayFastEnvelope with toAyVoice := ayFastEnvelope.toAyVoice.write 13 0x0E#8 }
    (ayTick^[37] start).envVolume.toNat = ayWave 14 (37 / ayFastEnvelope.envPeriod.toNat) :=
  (ayEnvelope_wave ayFastEnvelope 0x0E#8 (by decide) 37).mpr (by decide)

/-- Shape 9, `\___`, is back at its top after 32 steps. -/
theorem ayEnvelope_shape9_top :
    let start : AyPlay :=
      { ayFastEnvelope with toAyVoice := ayFastEnvelope.toAyVoice.write 13 0x09#8 }
    ayFastEnvelope.envPeriod = 1#16 ∧ (ayTick^[32] start).envVolume = 15#8 ∧ ayWave 9 32 = 0 := by
  decide +kernel

end Phosphoric
