import Mathlib.Tactic.FinCases
import Phosphoric.Lib.Word

/-!
# The sound chip

The AY-3-8912 (`src/audio/ay3891x.c`) is kept twice: the fields the program writes, and the `play`
state that the audio thread renders. Both take a register write through `apply_sound_regs`. A
sample is the mean of the output over the clock steps it covers.

**Theorem (`ayStepSample_regs`).** Rendering leaves the registers as they are.
-/

namespace Phosphoric

open Function (update)

/-! ## State -/

/-- The fields that `ay3891x_t` and `ay_play_t` have in common; `regs` is `registers` in the one
and `sregs` in the other. -/
structure AyVoice where
  regs : Fin 16 → Byte
  tonePeriod : Fin 3 → Word
  toneCounter : Fin 3 → BitVec 32
  toneOutput : Fin 3 → Byte
  noisePeriod : Word
  noiseCounter : BitVec 32
  noiseShift : BitVec 32
  noiseOutput : Byte
  envPeriod : Word
  envCounter : BitVec 32
  envShape : Byte
  envStep : Byte
  envVolume : Byte
  envHolding : Bool

/-- `ay_play_t`. -/
structure AyPlay extends AyVoice where
  stepAcc : BitVec 32

/-- The registers with a sound effect, 0 to 13. -/
abbrev aySoundRegs : Fin 16 := 14

/-! ## Register writes -/

/-- `apply_sound_regs`: what a register written changes of the sound parameters. -/
def applySoundRegs (reg : Fin 16) (v : AyVoice) : AyVoice :=
  let period (hi lo : Byte) : Word := (hi.setWidth 16 <<< 8) ||| lo.setWidth 16
  let tone (ch : Fin 3) (lo hi : Fin 16) : AyVoice :=
    { v with tonePeriod := update v.tonePeriod ch (period (v.regs hi &&& 0x0F#8) (v.regs lo)) }
  match reg with
  | 0 | 1 => tone 0 0 1
  | 2 | 3 => tone 1 2 3
  | 4 | 5 => tone 2 4 5
  | 6 => { v with noisePeriod := (v.regs 6 &&& 0x1F#8).setWidth 16 }
  | 11 | 12 => { v with envPeriod := period (v.regs 12) (v.regs 11) }
  | 13 =>
    { v with envShape := v.regs 13 &&& 0x0F#8, envStep := 0, envCounter := 0, envHolding := false }
  | _ => v

/-- A register written, with what it changes. -/
def AyVoice.write (reg : Fin 16) (data : Byte) (v : AyVoice) : AyVoice :=
  applySoundRegs reg { v with regs := update v.regs reg data }

@[simp] theorem applySoundRegs_regs (reg : Fin 16) (v : AyVoice) :
    (applySoundRegs reg v).regs = v.regs := by
  fin_cases reg <;> rfl

@[simp] theorem AyVoice.write_regs (reg : Fin 16) (data : Byte) (v : AyVoice) :
    (v.write reg data).regs = update v.regs reg data :=
  applySoundRegs_regs reg _

/-! ## Samples -/

def voltab : List Int :=
  [0, 513 / 4, 828 / 4, 1239 / 4, 1923 / 4, 3238 / 4, 4926 / 4, 9110 / 4, 10344 / 4, 17876 / 4,
    24682 / 4, 30442 / 4, 38844 / 4, 47270 / 4, 56402 / 4, 65535 / 4]

/-- `envelope_volume`. -/
def envelopeVolume (shape step : Byte) : Byte :=
  let s := step &&& 0x1F#8
  let pos := s &&& 0x0F#8
  let attack := shape &&& 0x04#8 != 0#8
  let alternate := shape &&& 0x02#8 != 0#8
  let hold := shape &&& 0x01#8 != 0#8
  let up := if attack then pos else 15#8 - pos
  let down := if attack then 15#8 - pos else pos
  if shape &&& 0x08#8 == 0#8 then
    if s ≥ 16#8 then 0#8 else up
  else if hold then
    if s ≥ 16#8 then
      if alternate then (if attack then 0#8 else 15#8) else if attack then 15#8 else 0#8
    else up
  else if alternate then
    if s < 16#8 then up else down
  else up

/-- The tone generators of a clock step. -/
def ayTickTone (v : AyVoice) : AyVoice :=
  let period (ch : Fin 3) : BitVec 32 :=
    if v.tonePeriod ch = 0#16 then 1#32 else (v.tonePeriod ch).setWidth 32
  let turn (ch : Fin 3) : Bool := v.toneCounter ch + 1#32 ≥ period ch
  { v with
    toneCounter := fun ch => if turn ch then 0#32 else v.toneCounter ch + 1#32
    toneOutput := fun ch => if turn ch then v.toneOutput ch ^^^ 1#8 else v.toneOutput ch }

/-- The noise generator of a clock step. -/
def ayTickNoise (v : AyVoice) : AyVoice :=
  let np := if v.noisePeriod = 0#16 then 1#32 else v.noisePeriod.setWidth 32
  let counter := v.noiseCounter + 1#32
  if counter ≥ np * 2#32 then
    -- a 17-bit LFSR
    let bit := (v.noiseShift ^^^ (v.noiseShift >>> 3)) &&& 1#32
    let shift := (v.noiseShift >>> 1) ||| (bit <<< 16)
    { v with noiseCounter := 0, noiseShift := shift, noiseOutput := (shift &&& 1#32).setWidth 8 }
  else { v with noiseCounter := counter }

/-- The envelope generator of a clock step, without the volume. -/
def ayTickEnvelope (v : AyVoice) : AyVoice :=
  if v.envPeriod ≠ 0#16 ∧ v.envHolding = false then
    let counter := v.envCounter + 1#32
    if counter ≥ v.envPeriod.setWidth 32 then
      let step := v.envStep + 1#8
      let v := { v with envCounter := 0, envStep := step }
      if step ≥ 32#8 then
        if v.envShape &&& 0x08#8 = 0#8 then { v with envHolding := true, envStep := 31 }
        else if v.envShape &&& 0x01#8 ≠ 0#8 then
          { v with envHolding := true, envStep := step &&& 0x1F#8 }
        else { v with envStep := step &&& 0x1F#8 }
      else v
    else { v with envCounter := counter }
  else v

/-- `ay_tick`. -/
def ayTick (st : AyPlay) : AyPlay :=
  let v := ayTickEnvelope (ayTickNoise (ayTickTone st.toAyVoice))
  { st with toAyVoice := { v with envVolume := envelopeVolume v.envShape v.envStep } }

/-- `ay_mix`. -/
def ayMix (st : AyPlay) : Int :=
  let mixer := st.regs 7
  let channel (ch : Fin 3) : Int :=
    let toneDis := (mixer >>> ch.val) &&& 1#8
    let noiseDis := (mixer >>> (ch.val + 3)) &&& 1#8
    if (st.toneOutput ch ||| toneDis) &&& (st.noiseOutput ||| noiseDis) = 0#8 then 0
    else
      let volReg := st.regs ⟨8 + ch.val, by omega⟩
      let volIdx := if volReg &&& 0x10#8 ≠ 0#8 then st.envVolume else volReg &&& 0x0F#8
      voltab.getD volIdx.toNat 0
  Int.tdiv (channel 0 + channel 1 + channel 2) 3

/-- The loop of `ay_step_sample`: `n` clock steps and the sum of the output after each. -/
def ayTicks : Nat → AyPlay → AyPlay × Int
  | 0, st => (st, 0)
  | n + 1, st =>
    let st := ayTick st
    let (st', sum) := ayTicks n st
    (st', ayMix st + sum)

/-- `ay_step_sample`. -/
def ayStepSample (stepsQ16 : BitVec 32) (st : AyPlay) : AyPlay × BitVec 16 :=
  let acc := st.stepAcc + stepsQ16
  let nsteps := (acc >>> 16).toNat
  let st := { st with stepAcc := acc &&& 0xFFFF#32 }
  if nsteps = 0 then (st, .ofInt 16 (ayMix st))
  else
    let (st, sum) := ayTicks nsteps st
    (st, .ofInt 16 (Int.tdiv sum nsteps))

theorem ayTickTone_regs (v : AyVoice) : (ayTickTone v).regs = v.regs := rfl

theorem ayTickNoise_regs (v : AyVoice) : (ayTickNoise v).regs = v.regs := by
  simp only [ayTickNoise]
  generalize (if v.noisePeriod = 0#16 then 1#32 else v.noisePeriod.setWidth 32) = np
  split <;> rfl

theorem ayTickEnvelope_regs (v : AyVoice) : (ayTickEnvelope v).regs = v.regs := by
  simp only [ayTickEnvelope]
  split_ifs <;> rfl

theorem ayTick_regs (st : AyPlay) : (ayTick st).regs = st.regs := by
  simp [ayTick, ayTickEnvelope_regs, ayTickNoise_regs, ayTickTone_regs]

theorem ayTicks_regs (n : Nat) (st : AyPlay) : (ayTicks n st).1.regs = st.regs := by
  induction n generalizing st with
  | zero => rfl
  | succ n ih => exact (ih (ayTick st)).trans (ayTick_regs st)

/-- Rendering a sample leaves the registers as they are. -/
@[simp] theorem ayStepSample_regs (stepsQ16 : BitVec 32) (st : AyPlay) :
    (ayStepSample stepsQ16 st).1.regs = st.regs := by
  simp only [ayStepSample]
  split_ifs
  · rfl
  · exact ayTicks_regs _ _

/-! ## Output stage -/

/-- The DC estimator of `ay3891x_t`. -/
structure AyDc where
  dcAcc : Int
  dcBlockOff : Bool

/-- `ay_dc_block`. -/
def ayDcBlock (x : BitVec 16) (dc : AyDc) : AyDc × BitVec 16 :=
  if dc.dcBlockOff then (dc, x)
  else
    let acc := dc.dcAcc + (x.toInt * 2 ^ 16 - dc.dcAcc) >>> (12 : Nat)
    let y := x.toInt - acc >>> (16 : Nat)
    ({ dc with dcAcc := acc }, .ofInt 16 (max (-32768) (min 32767 y)))

end Phosphoric
