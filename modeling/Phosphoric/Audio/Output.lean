import Phosphoric.Audio.Timed

/-!
# The range of the output

The noise generator's shift register has 17 bits and is never 0; the mixer gives 0 to 16383, and
the estimate of the DC of such samples stays between those values, in 16.16 fixed point.

**Theorem (`ayOutput_fits`).** After any writes, clock steps and buffers the shift register is 1 to
131071, and on any sequence of mixed samples the sums of `ay_dc_block` fit in 32 bits and its
samples in 16.
-/

namespace Phosphoric

open Function (update)

/-! ## The noise generator -/

/-- The part of a voice that the output depends on is in range: `envVolume` indexes `voltab`. -/
structure AyVoice.Ranged (v : AyVoice) : Prop where
  shift_pos : 1 ≤ v.noiseShift.toNat
  shift_le : v.noiseShift.toNat ≤ 131071
  volume : v.envVolume.toNat < voltab.length

/-- The bit shifted in is 1 where the rest would be 0. -/
theorem ayNoise_range {shift : BitVec 32} (hpos : 1 ≤ shift.toNat) (hle : shift.toNat ≤ 131071) :
    let bit := (shift ^^^ (shift >>> 3)) &&& 1#32
    let next := (shift >>> 1) ||| (bit <<< 16)
    1 ≤ next.toNat ∧ next.toNat ≤ 131071 := by
  intro bit next
  have hhalf : (shift >>> 1).toNat = shift.toNat / 2 := by
    rw [BitVec.toNat_ushiftRight, Nat.shiftRight_eq_div_pow]
  have hbit : bit = 0#32 ∨ bit = 1#32 := by
    have hlt : bit.toNat < 2 := by
      have hand : bit.toNat = ((shift ^^^ (shift >>> 3)).toNat) % 2 := by
        rw [BitVec.toNat_and]
        exact Nat.and_one_is_mod _
      omega
    bv_omega
  obtain hbit | hbit := hbit
  · have hnext : next = shift >>> 1 := by
      show (shift >>> 1) ||| (bit <<< 16) = _
      rw [hbit]
      exact BitVec.or_zero
    have hmore : 2 ≤ shift.toNat := by
      by_contra hless
      have hone : shift = 1#32 := by bv_omega
      subst hone
      exact absurd hbit (by decide)
    rw [hnext, hhalf]
    omega
  · have hnext : next.toNat = shift.toNat / 2 ||| 2 ^ 16 := by
      show ((shift >>> 1) ||| (bit <<< 16)).toNat = _
      rw [hbit, BitVec.toNat_or, hhalf]
      rfl
    have hlt : shift.toNat / 2 ||| 2 ^ 16 < 2 ^ 17 :=
      Nat.or_lt_two_pow (by omega) (by decide)
    have hge : 2 ^ 16 ≤ shift.toNat / 2 ||| 2 ^ 16 := Nat.right_le_or
    rw [hnext]
    omega

theorem envelopeVolume_lt (shape step : Byte) : (envelopeVolume shape step).toNat < 16 := by
  have hpos : (step &&& 0x1F#8 &&& 0x0F#8).toNat ≤ 15 := by
    rw [BitVec.toNat_and]
    exact Nat.and_le_right
  have hdown : (15#8 - (step &&& 0x1F#8 &&& 0x0F#8)).toNat ≤ 15 := by bv_omega
  unfold envelopeVolume
  dsimp only
  split_ifs
  all_goals first | omega | decide

section Voice

variable {v : AyVoice}

theorem AyVoice.Ranged.applySoundRegs (h : v.Ranged) (reg : Fin 16) :
    (applySoundRegs reg v).Ranged := by
  fin_cases reg
  all_goals exact ⟨h.shift_pos, h.shift_le, h.volume⟩

theorem AyVoice.Ranged.write (h : v.Ranged) (reg : Fin 16) (data : Byte) :
    (v.write reg data).Ranged := by
  have hregs : AyVoice.Ranged { v with regs := update v.regs reg data } :=
    ⟨h.shift_pos, h.shift_le, h.volume⟩
  exact hregs.applySoundRegs reg

theorem AyVoice.Ranged.noise (h : v.Ranged) : (ayTickNoise v).Ranged := by
  obtain ⟨hpos, hle⟩ := ayNoise_range h.shift_pos h.shift_le
  unfold ayTickNoise
  dsimp only
  split_ifs
  · exact ⟨hpos, hle, h.volume⟩
  · exact ⟨h.shift_pos, h.shift_le, h.volume⟩
  · exact ⟨hpos, hle, h.volume⟩
  · exact ⟨h.shift_pos, h.shift_le, h.volume⟩

theorem ayTickEnvelope_shift (v : AyVoice) : (ayTickEnvelope v).noiseShift = v.noiseShift := by
  unfold ayTickEnvelope
  dsimp only
  split_ifs <;> rfl

theorem AyVoice.Ranged.tick {st : AyPlay} (h : st.toAyVoice.Ranged) :
    (ayTick st).toAyVoice.Ranged := by
  have htone : (ayTickTone st.toAyVoice).Ranged := ⟨h.shift_pos, h.shift_le, h.volume⟩
  have hshift := ayTickEnvelope_shift (ayTickNoise (ayTickTone st.toAyVoice))
  refine ⟨?_, ?_, envelopeVolume_lt _ _⟩
  · exact hshift ▸ htone.noise.shift_pos
  · exact hshift ▸ htone.noise.shift_le

theorem AyVoice.Ranged.ticks (n : Nat) {st : AyPlay} (h : st.toAyVoice.Ranged) :
    (ayTicks n st).1.toAyVoice.Ranged := by
  induction n generalizing st with
  | zero => exact h
  | succ n ih => exact ih h.tick

end Voice

/-! ## The mixer -/

theorem voltab_range (n : Nat) : 0 ≤ voltab.getD n 0 ∧ voltab.getD n 0 ≤ 16383 := by
  have hall : ∀ v ∈ voltab, 0 ≤ v ∧ v ≤ 16383 := by decide
  rw [List.getD_eq_getElem?_getD]
  cases h : voltab[n]? with
  | none => exact ⟨le_rfl, by decide⟩
  | some v => exact hall v (List.mem_of_getElem? h)

theorem tdiv_three {a b c : Int} (ha : 0 ≤ a ∧ a ≤ 16383) (hb : 0 ≤ b ∧ b ≤ 16383)
    (hc : 0 ≤ c ∧ c ≤ 16383) : 0 ≤ (a + b + c).tdiv 3 ∧ (a + b + c).tdiv 3 ≤ 16383 := by
  rw [Int.tdiv_eq_ediv_of_nonneg (by omega)]
  omega

theorem ayMix_range (st : AyPlay) : 0 ≤ ayMix st ∧ ayMix st ≤ 16383 := by
  have hchannel : ∀ (c : Prop) [Decidable c] (n : Nat),
      0 ≤ (if c then 0 else voltab.getD n 0) ∧ (if c then 0 else voltab.getD n 0) ≤ 16383 := by
    intro c _ n
    split_ifs
    · exact ⟨le_rfl, by decide⟩
    · exact voltab_range n
  exact tdiv_three (hchannel _ _) (hchannel _ _) (hchannel _ _)

theorem ayTicks_range (n : Nat) (st : AyPlay) :
    0 ≤ (ayTicks n st).2 ∧ (ayTicks n st).2 ≤ n * 16383 := by
  induction n generalizing st with
  | zero => exact ⟨le_rfl, le_rfl⟩
  | succ n ih =>
    have hmix := ayMix_range (ayTick st)
    have hrest := ih (ayTick st)
    unfold ayTicks
    dsimp only
    push_cast
    omega

/-- A mixed sample. -/
def AyLevel (x : BitVec 16) : Prop := 0 ≤ x.toInt ∧ x.toInt ≤ 16383

theorem ayLevel_ofInt {z : Int} (h : 0 ≤ z ∧ z ≤ 16383) : AyLevel (.ofInt 16 z) := by
  unfold AyLevel
  rw [BitVec.toInt_ofInt, Int.bmod_eq_of_le (by omega) (by omega)]
  exact h

/-- The mean of mixes is between them. -/
theorem ayStepSample_level (stepsQ16 : BitVec 32) (st : AyPlay) :
    AyLevel (ayStepSample stepsQ16 st).2 := by
  unfold ayStepSample
  dsimp only
  split_ifs with hsteps
  · exact ayLevel_ofInt (ayMix_range _)
  · have hsum := ayTicks_range ((st.stepAcc + stepsQ16) >>> 16).toNat
      { st with stepAcc := (st.stepAcc + stepsQ16) &&& 0xFFFF#32 }
    refine ayLevel_ofInt ?_
    rw [Int.tdiv_eq_ediv_of_nonneg hsum.1]
    have hpos : (0 : Int) < ((st.stepAcc + stepsQ16) >>> 16).toNat := by omega
    exact ⟨Int.ediv_nonneg hsum.1 hpos.le, Int.ediv_le_of_le_mul hpos (by linarith [hsum.2])⟩

theorem ayStepSample_ranged (stepsQ16 : BitVec 32) {st : AyPlay} (h : st.toAyVoice.Ranged) :
    (ayStepSample stepsQ16 st).1.toAyVoice.Ranged := by
  unfold ayStepSample
  dsimp only
  split_ifs
  · exact h
  · exact AyVoice.Ranged.ticks _ h

/-! ## The DC estimator -/

/-- Between the least sample and the greatest, as 16.16 fixed point. -/
def AyDc.Ranged (dc : AyDc) : Prop := 0 ≤ dc.dcAcc ∧ dc.dcAcc ≤ 16383 * 2 ^ 16

/-- Nothing of `ay_dc_block` overflows, and neither its bounds nor its last cast change the
sample. -/
structure AyDcFits (dc : AyDc) (x : BitVec 16) : Prop where
  shifted : -2 ^ 31 ≤ x.toInt * 2 ^ 16 ∧ x.toInt * 2 ^ 16 < 2 ^ 31
  difference : -2 ^ 31 ≤ x.toInt * 2 ^ 16 - dc.dcAcc ∧ x.toInt * 2 ^ 16 - dc.dcAcc < 2 ^ 31
  acc : -2 ^ 31 ≤ (ayDcBlock x dc).1.dcAcc ∧ (ayDcBlock x dc).1.dcAcc < 2 ^ 31
  sample : (ayDcBlock x dc).2.toInt =
    if dc.dcBlockOff then x.toInt else x.toInt - (ayDcBlock x dc).1.dcAcc >>> (16 : Nat)

/-- The estimate moves towards the sample, and not past it. -/
theorem AyDc.Ranged.block {dc : AyDc} (h : dc.Ranged) {x : BitVec 16} (hx : AyLevel x) :
    (ayDcBlock x dc).1.Ranged ∧ AyDcFits dc x := by
  obtain ⟨hlo, hhi⟩ := h
  obtain ⟨hx₀, hx₁⟩ := hx
  by_cases hoff : dc.dcBlockOff = true
  · have hblock : ayDcBlock x dc = (dc, x) := if_pos hoff
    refine ⟨by rw [hblock]; exact ⟨hlo, hhi⟩, by omega, by omega, ?_, ?_⟩
    · rw [hblock]
      dsimp only
      omega
    · rw [hblock, if_pos hoff]
  · have hblock : ayDcBlock x dc =
        ({ dc with dcAcc := dc.dcAcc + (x.toInt * 2 ^ 16 - dc.dcAcc) >>> (12 : Nat) },
          .ofInt 16 (max (-32768) (min 32767
            (x.toInt - (dc.dcAcc + (x.toInt * 2 ^ 16 - dc.dcAcc) >>> (12 : Nat)) >>> (16 : Nat))))) :=
      if_neg hoff
    have hnext : 0 ≤ dc.dcAcc + (x.toInt * 2 ^ 16 - dc.dcAcc) >>> (12 : Nat) ∧
        dc.dcAcc + (x.toInt * 2 ^ 16 - dc.dcAcc) >>> (12 : Nat) ≤ 16383 * 2 ^ 16 := by
      rw [Int.shiftRight_eq_div_pow]
      omega
    rw [hblock]
    refine ⟨hnext, by omega, by omega, ?_, ?_⟩
    · rw [hblock]
      dsimp only
      omega
    · rw [hblock, if_neg hoff]
      dsimp only
      generalize dc.dcAcc + (x.toInt * 2 ^ 16 - dc.dcAcc) >>> (12 : Nat) = acc at hnext ⊢
      have hshift : 0 ≤ acc >>> (16 : Nat) ∧ acc >>> (16 : Nat) ≤ 16383 := by
        rw [Int.shiftRight_eq_div_pow]
        omega
      rw [max_eq_right (by omega), min_eq_right (by omega), BitVec.toInt_ofInt,
        Int.bmod_eq_of_le (by omega) (by omega)]

/-! ## Runs -/

/-- What happens to the chip: the operations of `AyOp`, `ay_write_data`, a clock step or a queued
write of the playback state, `ay_sound_resync`, `ay_reset`, the DC blocking switched. -/
inductive AyAct
  | op (op : AyOp)
  | data (data : Byte)
  | tick
  | play (reg : Fin 16) (data : Byte)
  | resync
  | reset
  | dcBlock (off : Bool)

def ayAct (ay : Ay3891x) : AyAct → Ay3891x
  | .op op => (ayStep ay op).2
  | .data data => { ay with toAyVoice := ay.toAyVoice.write ay.selectedReg data }
  | .tick => { ay with play := ayTick ay.play }
  | .play reg data =>
    { ay with play := { ay.play with toAyVoice := ay.play.toAyVoice.write reg data } }
  | .resync => aySoundResync ay
  | .reset => ayInit ay.clockRate
  | .dcBlock off => { ay with dcBlockOff := off }

/-- A chip that has been used. -/
def ayUsed (clockRate : BitVec 32) (acts : List AyAct) : Ay3891x :=
  acts.foldl ayAct (ayInit clockRate)

/-- A sample of the playback state of a chip that has been used. -/
def AyMixed (x : BitVec 16) : Prop :=
  ∃ clockRate acts stepsQ16, x = (ayStepSample stepsQ16 (ayUsed clockRate acts).play).2

structure Ay3891x.Ranged (ay : Ay3891x) : Prop where
  chip : ay.toAyVoice.Ranged
  play : ay.play.toAyVoice.Ranged
  dc : ay.toAyDc.Ranged

theorem ayVoiceInit_ranged : ayVoiceInit.Ranged := ⟨by decide, by decide, by decide⟩

theorem ayInit_ranged (clockRate : BitVec 32) : (ayInit clockRate).Ranged :=
  ⟨ayVoiceInit_ranged, ayVoiceInit_ranged, le_rfl, show (0 : Int) ≤ 16383 * 2 ^ 16 by decide⟩

section Steps

variable {ay : Ay3891x}

theorem Ay3891x.Ranged.seedPlay (h : ay.Ranged) : (seedPlay ay).Ranged := by
  refine ⟨h.chip, ?_, h.dc⟩
  have hshift : (if ay.noiseShift ≠ 0#32 then ay.noiseShift else 1#32) = ay.noiseShift := by
    have hpos := h.chip.shift_pos
    exact if_pos fun hzero => absurd (hzero ▸ hpos) (by decide)
  unfold Phosphoric.seedPlay
  rw [hshift]
  exact ⟨h.chip.shift_pos, h.chip.shift_le, h.chip.volume⟩

theorem Ay3891x.Ranged.enqueue (h : ay.Ranged) (e : AyEvent) : (ayEnqueue e ay).2.Ranged := by
  have hseeded := h.seedPlay
  unfold ayEnqueue
  dsimp only
  split_ifs
  · exact ⟨h.chip, h.play, h.dc⟩
  · exact ⟨h.chip, h.play, h.dc⟩
  · exact ⟨hseeded.chip, hseeded.play, hseeded.dc⟩
  · exact ⟨hseeded.chip, hseeded.play, hseeded.dc⟩

/-- The playback state and the estimate of a buffer are in range. -/
def AyBuffer.Ranged (b : AyBuffer) : Prop := b.play.toAyVoice.Ranged ∧ b.dc.Ranged

theorem AyBuffer.Ranged.sample {b : AyBuffer} (h : b.Ranged) (stepsQ16 : BitVec 32) :
    (aySample stepsQ16 b).Ranged :=
  ⟨ayStepSample_ranged stepsQ16 h.1, (h.2.block (ayStepSample_level stepsQ16 b.play)).1⟩

theorem AyBuffer.Ranged.applyDue {offset : AyEvent → Nat} {i : Nat} (events : List AyEvent)
    {b : AyBuffer} (h : b.Ranged) : (ayApplyDue offset i events b).Ranged := by
  induction events generalizing b with
  | nil => exact h
  | cons e events ih =>
    unfold ayApplyDue
    split_ifs
    · exact h
    · exact ih ⟨h.1.write e.reg e.val, h.2⟩

theorem Ay3891x.Ranged.generate (h : ay.Ranged) (numSamples : Nat) :
    (ayGenerate numSamples ay).2.Ranged := by
  unfold ayGenerate
  dsimp only
  split_ifs
  · have hloop := List.foldlRecOn (List.range numSamples)
      (fun b _ => aySample (.ofNat 32 ((ay.clockRate / 8#32).toNat * 2 ^ 16 / 44100)) b)
      (motive := AyBuffer.Ranged) (b := ⟨[], [], (Phosphoric.seedPlay ay).play, ay.toAyDc, []⟩)
      ⟨h.seedPlay.play, h.dc⟩ fun b hb _ _ => hb.sample _
    exact ⟨⟨hloop.1.shift_pos, hloop.1.shift_le, hloop.1.volume⟩, hloop.1, hloop.2⟩
  · have hloop := List.foldlRecOn (List.range numSamples)
      (aySampleAt (ayEventOffset (aySpanStart ay) (ay.curCycle - aySpanStart ay) numSamples)
        (.ofNat 32 ((ay.clockRate / 8#32).toNat * 2 ^ 16 / 44100)))
      (motive := AyBuffer.Ranged) (b := ⟨[], ay.pending, ay.play, ay.toAyDc, []⟩)
      ⟨h.play, h.dc⟩ fun b hb _ _ => (hb.applyDue b.events).sample _
    exact ⟨h.chip, hloop.1, hloop.2⟩

theorem Ay3891x.Ranged.act (h : ay.Ranged) (act : AyAct) : (ayAct ay act).Ranged := by
  cases act with
  | op op =>
    cases op with
    | address addr => exact ⟨h.chip, h.play, h.dc⟩
    | write data cpuCycle =>
      have hwritten : Ay3891x.Ranged { ay with toAyVoice := ay.toAyVoice.write ay.selectedReg data } :=
        ⟨h.chip.write _ _, h.play, h.dc⟩
      show (ayWriteDataTimed data cpuCycle ay).2.Ranged
      unfold ayWriteDataTimed
      dsimp only
      split_ifs
      · exact hwritten
      · exact hwritten.enqueue _
    | generate numSamples => exact h.generate numSamples
  | data data => exact ⟨h.chip.write _ _, h.play, h.dc⟩
  | tick => exact ⟨h.chip, h.play.tick, h.dc⟩
  | play reg data => exact ⟨h.chip, h.play.write reg data, h.dc⟩
  | resync => exact ⟨h.seedPlay.chip, h.seedPlay.play, h.seedPlay.dc⟩
  | reset => exact ayInit_ranged _
  | dcBlock off => exact ⟨h.chip, h.play, h.dc⟩

end Steps

theorem ayUsed_ranged (clockRate : BitVec 32) (acts : List AyAct) :
    (ayUsed clockRate acts).Ranged := by
  unfold ayUsed
  refine List.foldlRecOn acts ayAct (motive := Ay3891x.Ranged) (ayInit_ranged clockRate) ?_
  exact fun _ hay act _ => hay.act act

/-- In the playback state and in the chip the shift register is never 0 and keeps its 17 bits, and
from any state the DC estimator fits its types on any sequence of mixed samples. -/
theorem ayOutput_fits (clockRate : BitVec 32) (acts : List AyAct) :
    let ay := ayUsed clockRate acts
    (1 ≤ ay.play.noiseShift.toNat ∧ ay.play.noiseShift.toNat ≤ 131071) ∧
      (1 ≤ ay.noiseShift.toNat ∧ ay.noiseShift.toNat ≤ 131071) ∧
      ∀ xs : List (BitVec 16), (∀ x ∈ xs, AyMixed x) →
        Machine.Throughout (fun dc x => (ayDcBlock x dc).1) AyDcFits xs ay.toAyDc := by
  intro ay
  have hranged := ayUsed_ranged clockRate acts
  refine ⟨⟨hranged.play.shift_pos, hranged.play.shift_le⟩,
    ⟨hranged.chip.shift_pos, hranged.chip.shift_le⟩, fun xs hxs => ?_⟩
  have hdc : ay.toAyDc.Ranged := hranged.dc
  generalize ay.toAyDc = dc at hdc
  induction xs generalizing dc with
  | nil => trivial
  | cons x xs ih =>
    obtain ⟨hx, hrest⟩ := List.forall_mem_cons.mp hxs
    obtain ⟨rate, used, stepsQ16, rfl⟩ := hx
    obtain ⟨hnext, hfits⟩ := hdc.block (ayStepSample_level stepsQ16 (ayUsed rate used).play)
    exact ⟨hfits, ih hrest _ hnext⟩

end Phosphoric
