import Phosphoric.Audio.Psg
import Phosphoric.Lib.Machine

/-!
# Timed register writes

A write with its CPU cycle changes the program's copy of the registers at once and is queued for
the audio thread, which applies it at the sample its cycle falls on. The queue is a ring of 4096
places, one of them kept free; a write that finds it full is dropped.

**Theorem (`ayRun_applied`).** In every run the queued writes are applied once, in program order.
After a buffer none is pending, and a sound register has the programmed value in the playback
state if the last write to it was queued.
-/

namespace Phosphoric

open Function (update update_self update_of_ne)

/-! ## State -/

/-- `ay_event_t`. -/
structure AyEvent where
  cycle : BitVec 64
  reg : Fin 16
  val : Byte
  deriving DecidableEq, Repr

/-- The event queue of `ay3891x_t`: `AY_EVENT_QUEUE_SIZE` is 2^12. -/
structure AyQueue where
  evq : BitVec 12 → AyEvent
  evqHead : BitVec 12
  evqTail : BitVec 12

/-- `ay3891x_t`. -/
structure Ay3891x extends AyVoice, AyDc, AyQueue where
  selectedReg : Fin 16
  clockRate : BitVec 32
  play : AyPlay
  curCycle : BitVec 64
  lastGenCycle : BitVec 64
  timedMode : Bool
  playSeeded : Bool

/-- The events from the tail to the head. -/
def AyQueue.pending (q : AyQueue) : List AyEvent :=
  (List.range (q.evqHead - q.evqTail).toNat).map fun i => q.evq (q.evqTail + .ofNat 12 i)

/-! ## The program's side -/

/-- The fields `ay_init` and `ay_reset` set in the chip and in the playback state. -/
def ayVoiceInit : AyVoice where
  regs reg := if reg < aySoundRegs then 0x00#8 else 0xFF#8
  tonePeriod _ := 0
  toneCounter _ := 0
  toneOutput _ := 0
  noisePeriod := 0
  noiseCounter := 0
  noiseShift := 1
  noiseOutput := 0
  envPeriod := 0
  envCounter := 0
  envShape := 0
  envStep := 0
  envVolume := 0
  envHolding := false

/-- `ay_init`. -/
def ayInit (clockRate : BitVec 32) : Ay3891x where
  toAyVoice := ayVoiceInit
  dcAcc := 0
  dcBlockOff := false
  evq _ := { cycle := 0, reg := 0, val := 0 }
  evqHead := 0
  evqTail := 0
  selectedReg := 0
  clockRate := clockRate
  play := { ayVoiceInit with stepAcc := 0 }
  curCycle := 0
  lastGenCycle := 0
  timedMode := false
  playSeeded := false

/-- `ay_write_address`. -/
def ayWriteAddress (addr : Byte) (ay : Ay3891x) : Ay3891x :=
  { ay with selectedReg := Fin.ofNat 16 (addr &&& 0x0F#8).toNat }

/-- `seed_play`, and `mirror_main_to_play`: the playback state from the chip. -/
def seedPlay (ay : Ay3891x) : Ay3891x :=
  { ay with play :=
    { ay.toAyVoice with
      stepAcc := ay.play.stepAcc
      noiseShift := if ay.noiseShift ≠ 0#32 then ay.noiseShift else 1#32 } }

/-- What `ay_write_data_timed` does with a sound register, and the event if it is queued. -/
def ayEnqueue (e : AyEvent) (ay : Ay3891x) : Option AyEvent × Ay3891x :=
  let ay := if ay.playSeeded then ay else { seedPlay ay with playSeeded := true }
  let ay := { ay with timedMode := true }
  if ay.evqHead + 1#12 = ay.evqTail then (none, ay)
  else
    (some e,
      { ay with
        evq := update ay.evq ay.evqHead e
        evqHead := ay.evqHead + 1#12
        curCycle := e.cycle })

/-- `ay_write_data_timed`. -/
def ayWriteDataTimed (data : Byte) (cpuCycle : BitVec 64) (ay : Ay3891x) :
    Option AyEvent × Ay3891x :=
  let reg := ay.selectedReg
  let ay := { ay with toAyVoice := ay.toAyVoice.write reg data }
  -- the I/O ports have no sound effect
  if aySoundRegs ≤ reg then (none, ay)
  else ayEnqueue { cycle := cpuCycle, reg := reg, val := data } ay

/-- `ay_sound_resync`. -/
def aySoundResync (ay : Ay3891x) : Ay3891x :=
  let ay := seedPlay ay
  { ay with evqTail := ay.evqHead, lastGenCycle := 0, playSeeded := true }

/-! ## The audio thread -/

/-- The sample of the buffer an event falls on. -/
def ayEventOffset (spanStart span : BitVec 64) (numSamples : Nat) (e : AyEvent) : Nat :=
  if span = 0#64 then 0
  else
    let rel := if e.cycle > spanStart then e.cycle - spanStart else 0#64
    let o := (rel * .ofNat 64 numSamples / span).toNat
    if numSamples ≤ o then numSamples - 1 else o

/-- A buffer being rendered: the writes applied so far, those left, and the samples. -/
structure AyBuffer where
  applied : List AyEvent
  events : List AyEvent
  play : AyPlay
  dc : AyDc
  samples : List (BitVec 16)

/-- The inner loop of `ay_generate`: the events due at the sample `i`. -/
def ayApplyDue (offset : AyEvent → Nat) (i : Nat) : List AyEvent → AyBuffer → AyBuffer
  | [], b => { b with events := [] }
  | e :: events, b =>
    if i < offset e then { b with events := e :: events }
    else
      ayApplyDue offset i events
        { b with
          applied := b.applied ++ [e]
          play := { b.play with toAyVoice := b.play.toAyVoice.write e.reg e.val } }

/-- A sample rendered and written to the buffer. -/
def aySample (stepsQ16 : BitVec 32) (b : AyBuffer) : AyBuffer :=
  let (play, x) := ayStepSample stepsQ16 b.play
  let (dc, s) := ayDcBlock x b.dc
  { b with play := play, dc := dc, samples := b.samples ++ [s] }

/-- A round of the loop of `ay_generate`. -/
def aySampleAt (offset : AyEvent → Nat) (stepsQ16 : BitVec 32) (b : AyBuffer) (i : Nat) :
    AyBuffer :=
  aySample stepsQ16 (ayApplyDue offset i b.events b)

/-- The playback state copied back into the chip, but for the registers and what they set. -/
def copyPlayRuntimeToMain (ay : Ay3891x) : Ay3891x :=
  { ay with
    toneCounter := ay.play.toneCounter
    toneOutput := ay.play.toneOutput
    noiseCounter := ay.play.noiseCounter
    noiseShift := ay.play.noiseShift
    noiseOutput := ay.play.noiseOutput
    envCounter := ay.play.envCounter
    envStep := ay.play.envStep
    envVolume := ay.play.envVolume
    envHolding := ay.play.envHolding }

/-- The start of the span of cycles a buffer covers. -/
def aySpanStart (ay : Ay3891x) : BitVec 64 :=
  let start := if ay.lastGenCycle = 0#64 ∧ ay.evqHead ≠ ay.evqTail then (ay.evq ay.evqTail).cycle
    else ay.lastGenCycle
  if start > ay.curCycle then ay.curCycle else start

/-- `ay_generate`: the samples, each for both channels, and the writes applied, in order. -/
def ayGenerate (numSamples : Nat) (ay : Ay3891x) :
    (List (BitVec 16) × List AyEvent) × Ay3891x :=
  let stepsQ16 : BitVec 32 := .ofNat 32 ((ay.clockRate / 8#32).toNat * 2 ^ 16 / 44100)
  if !ay.timedMode then
    let ay := seedPlay ay
    let b := (List.range numSamples).foldl (fun b _ => aySample stepsQ16 b)
      { applied := [], events := [], play := ay.play, dc := ay.toAyDc, samples := [] }
    ((b.samples, []), copyPlayRuntimeToMain { ay with play := b.play, toAyDc := b.dc })
  else
    let spanStart := aySpanStart ay
    let span := ay.curCycle - spanStart
    let b := (List.range numSamples).foldl
      (aySampleAt (ayEventOffset spanStart span numSamples) stepsQ16)
      { applied := [], events := ay.pending, play := ay.play, dc := ay.toAyDc, samples := [] }
    ((b.samples, b.applied),
      { ay with
        play := b.play, toAyDc := b.dc, evqTail := ay.evqHead, lastGenCycle := ay.curCycle })

/-! ## The queue -/

theorem AyQueue.pending_of_empty {q : AyQueue} (h : q.evqHead = q.evqTail) : q.pending = [] := by
  simp [AyQueue.pending, h]

/-- An event written where there is room comes after those pending. -/
theorem AyQueue.pending_push {q : AyQueue} (e : AyEvent) (hroom : q.evqHead + 1#12 ≠ q.evqTail) :
    AyQueue.pending { q with evq := update q.evq q.evqHead e, evqHead := q.evqHead + 1#12 } =
      q.pending ++ [e] := by
  have hcount : (q.evqHead + 1#12 - q.evqTail).toNat = (q.evqHead - q.evqTail).toNat + 1 := by
    bv_omega
  simp only [AyQueue.pending, hcount, List.range_succ, List.map_append, List.map_cons,
    List.map_nil]
  congr 1
  · apply List.map_congr_left
    intro i hi
    rw [List.mem_range] at hi
    have hne : q.evqTail + BitVec.ofNat 12 i ≠ q.evqHead := by
      intro heq
      have hi' : BitVec.ofNat 12 i = q.evqHead - q.evqTail := by rw [← heq]; bv_omega
      have hlt := (q.evqHead - q.evqTail).isLt
      rw [← hi', BitVec.toNat_ofNat, Nat.mod_eq_of_lt (by omega)] at hi
      omega
    exact update_of_ne hne ..
  · have hend : q.evqTail + BitVec.ofNat 12 (q.evqHead - q.evqTail).toNat = q.evqHead := by
      rw [BitVec.ofNat_toNat, BitVec.setWidth_eq]
      bv_omega
    rw [hend, update_self]

/-! ## A buffer -/

/-- Registers after writes, in order. -/
def ayPlayed (regs : Fin 16 → Byte) (events : List AyEvent) : Fin 16 → Byte :=
  events.foldl (fun regs e => update regs e.reg e.val) regs

theorem ayPlayed_append (regs : Fin 16 → Byte) (events : List AyEvent) (e : AyEvent) :
    ayPlayed regs (events ++ [e]) = update (ayPlayed regs events) e.reg e.val := by
  simp [ayPlayed]

/-- In a buffer the events are applied in order, and the playback registers are what they say. -/
def AyBuffer.Plays (regs : Fin 16 → Byte) (events : List AyEvent) (b : AyBuffer) : Prop :=
  b.applied ++ b.events = events ∧ b.play.regs = ayPlayed regs b.applied

section Buffer

variable {regs : Fin 16 → Byte} {events₀ : List AyEvent} {offset : AyEvent → Nat}

theorem ayApplyDue_plays (i : Nat) (events : List AyEvent) {b : AyBuffer}
    (hevents : b.applied ++ events = events₀) (hregs : b.play.regs = ayPlayed regs b.applied) :
    (ayApplyDue offset i events b).Plays regs events₀ := by
  induction events generalizing b with
  | nil => exact ⟨hevents, hregs⟩
  | cons e events ih =>
    rw [ayApplyDue]
    split_ifs with hlater
    · exact ⟨hevents, hregs⟩
    · apply ih
      · simpa using hevents
      · simp [ayPlayed_append, hregs]

theorem ayApplyDue_all {i : Nat} (events : List AyEvent) (h : ∀ e ∈ events, offset e ≤ i)
    (b : AyBuffer) : (ayApplyDue offset i events b).events = [] := by
  induction events generalizing b with
  | nil => rfl
  | cons e events ih =>
    rw [ayApplyDue, if_neg (Nat.not_lt.mpr (h e (by simp)))]
    exact ih (fun e' hmem => h e' (by simp [hmem])) _

theorem AyBuffer.Plays.sample (stepsQ16 : BitVec 32) {b : AyBuffer} (h : b.Plays regs events₀) :
    (aySample stepsQ16 b).Plays regs events₀ :=
  ⟨h.1, (ayStepSample_regs stepsQ16 b.play).trans h.2⟩

theorem AyBuffer.Plays.loop (stepsQ16 : BitVec 32) (n : Nat) {b : AyBuffer}
    (h : b.Plays regs events₀) :
    ((List.range n).foldl (aySampleAt offset stepsQ16) b).Plays regs events₀ := by
  induction n with
  | zero => exact h
  | succ n ih =>
    rw [List.range_succ, List.foldl_append]
    exact (ayApplyDue_plays n _ ih.1 ih.2).sample stepsQ16

/-- The last round leaves no event. -/
theorem loop_events (stepsQ16 : BitVec 32) {n : Nat} (hn : 0 < n) (hoffset : ∀ e, offset e ≤ n - 1)
    (b : AyBuffer) : ((List.range n).foldl (aySampleAt offset stepsQ16) b).events = [] := by
  obtain ⟨n, rfl⟩ := Nat.exists_eq_add_one.mpr hn
  rw [List.range_succ, List.foldl_append]
  exact ayApplyDue_all _ (fun e _ => hoffset e) _

end Buffer

theorem ayEventOffset_le (spanStart span : BitVec 64) (n : Nat) (e : AyEvent) :
    ayEventOffset spanStart span n e ≤ n - 1 := by
  simp only [ayEventOffset]
  split_ifs <;> omega

/-- Samples rendered from the chip itself leave the playback registers. -/
theorem samples_regs (stepsQ16 : BitVec 32) (n : Nat) (b : AyBuffer) :
    ((List.range n).foldl (fun b _ => aySample stepsQ16 b) b).play.regs = b.play.regs := by
  induction n with
  | zero => rfl
  | succ n ih =>
    rw [List.range_succ, List.foldl_append]
    exact (ayStepSample_regs stepsQ16 _).trans ih

/-- A buffer in timed mode applies what is pending. -/
theorem ayGenerate_timed {ay : Ay3891x} (ht : ay.timedMode = true) {n : Nat} (hn : 0 < n) :
    (ayGenerate n ay).1.2 = ay.pending ∧ (ayGenerate n ay).2.pending = [] ∧
      (ayGenerate n ay).2.play.regs = ayPlayed ay.play.regs ay.pending := by
  let b : AyBuffer :=
    { applied := [], events := ay.pending, play := ay.play, dc := ay.toAyDc, samples := [] }
  have hstart : b.Plays ay.play.regs ay.pending := ⟨rfl, rfl⟩
  have hoffset := ayEventOffset_le (aySpanStart ay) (ay.curCycle - aySpanStart ay) n
  have hnone := loop_events (.ofNat 32 ((ay.clockRate / 8#32).toNat * 2 ^ 16 / 44100)) hn hoffset b
  obtain ⟨hevents, hregs⟩ := hstart.loop (.ofNat 32 ((ay.clockRate / 8#32).toNat * 2 ^ 16 / 44100)) n
  rw [hnone, List.append_nil] at hevents
  simp only [ayGenerate, ht, Bool.not_true, Bool.false_eq_true, if_false]
  refine ⟨hevents, ?_, ?_⟩
  · exact AyQueue.pending_of_empty rfl
  · rw [hregs, hevents]

/-- A buffer before any timed write mirrors the chip. -/
theorem ayGenerate_mirror {ay : Ay3891x} (ht : ay.timedMode = false) (n : Nat) :
    (ayGenerate n ay).1.2 = [] ∧ (ayGenerate n ay).2.play.regs = ay.regs := by
  simp only [ayGenerate, ht, Bool.not_false, if_true]
  exact ⟨trivial, samples_regs _ n _⟩

/-! ## Runs -/

/-- What the program and the audio thread do. -/
inductive AyOp
  | address (addr : Byte)
  | write (data : Byte) (cpuCycle : BitVec 64)
  | generate (numSamples : { n : Nat // 0 < n })

/-- What an operation does: a write, with its event if it is queued, and the writes applied by a
buffer, with its samples. -/
inductive AyOut
  | addressed
  | wrote (reg : Fin 16) (queued : Option AyEvent)
  | generated (applied : List AyEvent) (samples : List (BitVec 16))

def ayStep (ay : Ay3891x) : AyOp → AyOut × Ay3891x
  | .address addr => (.addressed, ayWriteAddress addr ay)
  | .write data cpuCycle =>
    let (queued, ay') := ayWriteDataTimed data cpuCycle ay
    (.wrote ay.selectedReg queued, ay')
  | .generate numSamples =>
    let ((samples, applied), ay) := ayGenerate numSamples ay
    (.generated applied samples, ay)

def AyOut.queued : AyOut → List AyEvent
  | .wrote _ (some e) => [e]
  | _ => []

def AyOut.applied : AyOut → List AyEvent
  | .generated applied _ => applied
  | _ => []

/-- The registers whose last write was dropped, after one more operation. -/
def AyOut.note (dropped : Fin 16 → Bool) : AyOut → Fin 16 → Bool
  | .wrote reg queued => update dropped reg queued.isNone
  | _ => dropped

/-- The last write to the register, if there is one, found the queue full. -/
def ayDroppedLast (outs : List AyOut) : Fin 16 → Bool := outs.foldl AyOut.note fun _ => false

/-- Nothing is pending, and a seeded playback state has the programmed registers. -/
structure AyFresh (ay : Ay3891x) : Prop where
  empty : ay.evqHead = ay.evqTail
  seeded : ay.timedMode = true → ay.playSeeded = true
  synced : ay.playSeeded = true → ∀ reg < aySoundRegs, ay.play.regs reg = ay.regs reg

theorem ayInit_fresh (clockRate : BitVec 32) : AyFresh (ayInit clockRate) where
  empty := rfl
  seeded := fun h => absurd h (by simp [ayInit])
  synced := fun h => absurd h (by simp [ayInit])

/-- What holds in every state: applying what is pending gives the programmed sound registers, but
for those whose last write was dropped. -/
structure AyInv (dropped : Fin 16 → Bool) (ay : Ay3891x) : Prop where
  empty : ay.timedMode = false → ay.evqHead = ay.evqTail
  seeded : ay.timedMode = true → ay.playSeeded = true
  synced : ay.playSeeded = true → ∀ reg < aySoundRegs, dropped reg = false →
    ayPlayed ay.play.regs ay.pending reg = ay.regs reg

theorem AyFresh.inv {ay : Ay3891x} (h : AyFresh ay) : AyInv (fun _ => false) ay where
  empty := fun _ => h.empty
  seeded := h.seeded
  synced := fun hseeded reg hreg _ => by
    rw [AyQueue.pending_of_empty h.empty]
    exact h.synced hseeded reg hreg

/-- An event queued, or dropped where there is no room. -/
theorem AyInv.enqueue_seeded {dropped : Fin 16 → Bool} {ay : Ay3891x} {e : AyEvent}
    (hplay : ay.playSeeded = true) (he : ay.regs e.reg = e.val)
    (hsynced : ∀ reg < aySoundRegs, reg ≠ e.reg → dropped reg = false →
      ayPlayed ay.play.regs ay.pending reg = ay.regs reg) :
    AyInv (update dropped e.reg (ayEnqueue e ay).1.isNone) (ayEnqueue e ay).2 ∧
      (ayEnqueue e ay).2.pending = ay.pending ++ (ayEnqueue e ay).1.toList := by
  simp only [ayEnqueue, hplay, if_true]
  split_ifs with hfull
  · refine ⟨⟨fun h => absurd h (by simp), fun _ => rfl, ?_⟩, by simp⟩
    intro _ reg hreg hdropped
    by_cases hr : reg = e.reg
    · simp [hr] at hdropped
    · rw [update_of_ne hr] at hdropped
      exact hsynced reg hreg hr hdropped
  · have hpending := ay.pending_push e hfull
    refine ⟨⟨fun h => absurd h (by simp), fun _ => rfl, ?_⟩, hpending⟩
    intro _ reg hreg hdropped
    refine (congrFun (congrArg (ayPlayed ay.play.regs) hpending) reg).trans ?_
    rw [ayPlayed_append]
    by_cases hr : reg = e.reg
    · rw [hr, update_self]
      exact he.symm
    · rw [update_of_ne hr]
      rw [update_of_ne hr] at hdropped
      exact hsynced reg hreg hr hdropped

/-- The same, where the first timed write seeds the playback state. -/
theorem AyInv.enqueue {dropped : Fin 16 → Bool} {ay : Ay3891x} {e : AyEvent}
    (hempty : ay.timedMode = false → ay.evqHead = ay.evqTail)
    (hseeded : ay.timedMode = true → ay.playSeeded = true) (he : ay.regs e.reg = e.val)
    (hsynced : ay.playSeeded = true → ∀ reg < aySoundRegs, reg ≠ e.reg → dropped reg = false →
      ayPlayed ay.play.regs ay.pending reg = ay.regs reg) :
    AyInv (update dropped e.reg (ayEnqueue e ay).1.isNone) (ayEnqueue e ay).2 ∧
      (ayEnqueue e ay).2.pending = ay.pending ++ (ayEnqueue e ay).1.toList := by
  by_cases hplay : ay.playSeeded = true
  · exact AyInv.enqueue_seeded hplay he (hsynced hplay)
  · have hnone : ay.evqHead = ay.evqTail := by
      apply hempty
      by_contra htimed
      exact hplay (hseeded (by simpa using htimed))
    have hseed : ayEnqueue e ay = ayEnqueue e { seedPlay ay with playSeeded := true } := by
      simp [ayEnqueue, hplay]
    rw [hseed]
    apply @AyInv.enqueue_seeded dropped { seedPlay ay with playSeeded := true } e rfl he
    intro reg _ _ _
    have hpending : ay.pending = [] := AyQueue.pending_of_empty hnone
    exact congrFun (congrArg (ayPlayed ay.regs) hpending) reg

/-- An operation keeps the invariant; what was pending and what it queues is what it applies and
what is pending after it. -/
theorem AyInv.step {dropped : Fin 16 → Bool} {ay : Ay3891x} (h : AyInv dropped ay) (op : AyOp) :
    AyInv ((ayStep ay op).1.note dropped) (ayStep ay op).2 ∧
      ay.pending ++ (ayStep ay op).1.queued =
        (ayStep ay op).1.applied ++ (ayStep ay op).2.pending := by
  cases op with
  | address addr => exact ⟨⟨h.empty, h.seeded, h.synced⟩, List.append_nil _⟩
  | write data cpuCycle =>
    simp only [ayStep, ayWriteDataTimed]
    have hother : ∀ reg, reg ≠ ay.selectedReg →
        (ay.toAyVoice.write ay.selectedReg data).regs reg = ay.regs reg := by
      intro reg hr
      rw [AyVoice.write_regs, update_of_ne hr]
    split_ifs with hport
    · refine ⟨⟨h.empty, h.seeded, ?_⟩, List.append_nil _⟩
      intro hseeded reg hreg hdropped
      have hr : reg ≠ ay.selectedReg := fun heq => absurd (heq ▸ hport) (Fin.not_le.mpr hreg)
      rw [AyOut.note, update_of_ne hr] at hdropped
      exact (h.synced hseeded reg hreg hdropped).trans (hother reg hr).symm
    · have hself : (ay.toAyVoice.write ay.selectedReg data).regs ay.selectedReg = data := by
        rw [AyVoice.write_regs, update_self]
      have hstep := @AyInv.enqueue dropped
        { ay with toAyVoice := ay.toAyVoice.write ay.selectedReg data }
        { cycle := cpuCycle, reg := ay.selectedReg, val := data } h.empty h.seeded hself
        (fun hseeded reg hreg hr hdropped =>
          (h.synced hseeded reg hreg hdropped).trans (hother reg hr).symm)
      refine ⟨hstep.1, ?_⟩
      refine (congrArg (ay.pending ++ ·) ?_).trans hstep.2.symm
      cases (ayEnqueue _ _).1 <;> rfl
  | generate numSamples =>
    cases htimed : ay.timedMode with
    | false =>
      obtain ⟨happlied, hregs⟩ := ayGenerate_mirror htimed numSamples
      have hnone := AyQueue.pending_of_empty (h.empty htimed)
      have hqueue : (ayGenerate numSamples ay).2.toAyQueue = ay.toAyQueue := by
        simp [ayGenerate, htimed, copyPlayRuntimeToMain, seedPlay]
      have hsame : (ayGenerate numSamples ay).2.regs = ay.regs ∧
          (ayGenerate numSamples ay).2.timedMode = ay.timedMode := by
        simp [ayGenerate, htimed, copyPlayRuntimeToMain, seedPlay]
      have hpending : (ayGenerate numSamples ay).2.pending = [] := by rw [hqueue, hnone]
      refine ⟨⟨fun _ => ?_, fun h => ?_, fun _ reg _ _ => ?_⟩, ?_⟩
      · exact (congrArg AyQueue.evqHead hqueue).trans
          ((h.empty htimed).trans (congrArg AyQueue.evqTail hqueue).symm)
      · exact absurd (hsame.2.symm.trans h) (by simp [htimed])
      · show ayPlayed (ayGenerate numSamples ay).2.play.regs
          (ayGenerate numSamples ay).2.pending reg = (ayGenerate numSamples ay).2.regs reg
        rw [hpending, hregs, hsame.1]
        rfl
      · show ay.pending ++ [] =
          (ayGenerate numSamples ay).1.2 ++ (ayGenerate numSamples ay).2.pending
        rw [happlied, hpending, hnone]
    | true =>
      obtain ⟨happlied, hpending, hregs⟩ := ayGenerate_timed htimed numSamples.2
      have hsame : (ayGenerate numSamples ay).2.regs = ay.regs ∧
          (ayGenerate numSamples ay).2.playSeeded = ay.playSeeded ∧
          (ayGenerate numSamples ay).2.timedMode = ay.timedMode ∧
          (ayGenerate numSamples ay).2.evqHead = (ayGenerate numSamples ay).2.evqTail := by
        simp [ayGenerate, htimed]
      refine ⟨⟨fun _ => hsame.2.2.2, fun _ => ?_, fun hseeded reg hreg hdropped => ?_⟩, ?_⟩
      · exact hsame.2.1.trans (h.seeded htimed)
      · show ayPlayed (ayGenerate numSamples ay).2.play.regs
          (ayGenerate numSamples ay).2.pending reg = (ayGenerate numSamples ay).2.regs reg
        rw [hpending, hregs, hsame.1]
        exact h.synced (h.seeded htimed) reg hreg hdropped
      · show ay.pending ++ [] =
          (ayGenerate numSamples ay).1.2 ++ (ayGenerate numSamples ay).2.pending
        rw [happlied, hpending]

theorem AyInv.run (ops : List AyOp) {dropped : Fin 16 → Bool} {ay : Ay3891x}
    (h : AyInv dropped ay) :
    AyInv ((Machine.runOut ayStep ops ay).1.foldl AyOut.note dropped)
        (Machine.runOut ayStep ops ay).2 ∧
      ay.pending ++ (Machine.runOut ayStep ops ay).1.flatMap AyOut.queued =
        (Machine.runOut ayStep ops ay).1.flatMap AyOut.applied ++
          (Machine.runOut ayStep ops ay).2.pending := by
  induction ops generalizing dropped ay with
  | nil => exact ⟨h, by simp⟩
  | cons op ops ih =>
    obtain ⟨hstep, hqueue⟩ := h.step op
    obtain ⟨hrun, hrest⟩ := ih hstep
    simp only [Machine.runOut_cons, List.foldl_cons, List.flatMap_cons]
    refine ⟨hrun, ?_⟩
    calc ay.pending ++ ((ayStep ay op).1.queued ++ _)
        = (ayStep ay op).1.applied ++ ((ayStep ay op).2.pending ++ _) := by
          rw [← List.append_assoc, hqueue, List.append_assoc]
      _ = _ := by rw [hrest, List.append_assoc]

/-- From a fresh state, in every run: the queued writes, in program order, are the writes applied
and then those pending. A buffer applies what is pending, and after it the sound registers of the
playback state are the programmed ones, but for those whose last write was dropped. -/
theorem ayRun_applied {ay : Ay3891x} (h : AyFresh ay) (ops : List AyOp) :
    (Machine.runOut ayStep ops ay).1.flatMap AyOut.queued =
        (Machine.runOut ayStep ops ay).1.flatMap AyOut.applied ++
          (Machine.runOut ayStep ops ay).2.pending ∧
      ∀ n, 0 < n →
        (ayGenerate n (Machine.runOut ayStep ops ay).2).1.2 =
            (Machine.runOut ayStep ops ay).2.pending ∧
          (ayGenerate n (Machine.runOut ayStep ops ay).2).2.pending = [] ∧
          ∀ reg < aySoundRegs, ayDroppedLast (Machine.runOut ayStep ops ay).1 reg = false →
            (ayGenerate n (Machine.runOut ayStep ops ay).2).2.play.regs reg =
              (ayGenerate n (Machine.runOut ayStep ops ay).2).2.regs reg := by
  obtain ⟨hinv, hqueue⟩ := h.inv.run ops
  rw [AyQueue.pending_of_empty h.empty, List.nil_append] at hqueue
  refine ⟨hqueue, fun n hn => ?_⟩
  generalize (Machine.runOut ayStep ops ay).2 = last at hinv ⊢
  cases htimed : last.timedMode with
  | false =>
    obtain ⟨happlied, hregs⟩ := ayGenerate_mirror htimed n
    have hnone := AyQueue.pending_of_empty (hinv.empty htimed)
    have hsame : (ayGenerate n last).2.regs = last.regs ∧
        (ayGenerate n last).2.pending = last.pending := by
      simp [ayGenerate, htimed, copyPlayRuntimeToMain, seedPlay]
    refine ⟨happlied.trans hnone.symm, hsame.2.trans hnone, fun reg _ _ => ?_⟩
    rw [hregs, hsame.1]
  | true =>
    obtain ⟨happlied, hpending, hregs⟩ := ayGenerate_timed htimed hn
    have hsame : (ayGenerate n last).2.regs = last.regs := by simp [ayGenerate, htimed]
    refine ⟨happlied, hpending, fun reg hreg hdropped => ?_⟩
    rw [hregs, hsame]
    exact hinv.synced (hinv.seeded htimed) reg hreg hdropped

theorem ayRun_applied_volume :
    (ayGenerate 2 (Machine.runOut ayStep [.address 8, .write 15 100] (ayInit 1000000)).2).2.play.regs
        8 = 15 := by
  have hrun := (ayRun_applied (ayInit_fresh 1000000) [.address 8, .write 15 100]).2 2 (by decide)
  exact (hrun.2.2 8 (by decide) (by decide)).trans (by rfl)

/-! ## A full queue -/

/-- The volume of channel A is played and written as 0, with so many writes pending. -/
structure AyQuiet (ay : Ay3891x) (count : Nat) : Prop where
  timed : ay.timedMode = true
  seeded : ay.playSeeded = true
  selected : ay.selectedReg = 8
  pending : (ay.evqHead - ay.evqTail).toNat = count
  played : ayPlayed ay.play.regs ay.pending 8 = 0

/-- One more write of 0, where there is room. -/
theorem AyQuiet.write {ay : Ay3891x} {count : Nat} (h : AyQuiet ay count) (hroom : count < 4095) :
    AyQuiet (ayStep ay (.write 0 0)).2 (count + 1) := by
  have hne : ay.evqHead + 1#12 ≠ ay.evqTail := by
    have := h.pending
    bv_omega
  have hpending := ay.pending_push { cycle := 0, reg := 8, val := 0 } hne
  have hport : ¬aySoundRegs ≤ (8 : Fin 16) := by decide
  simp only [ayStep, ayWriteDataTimed, h.selected, if_neg hport, ayEnqueue, h.seeded, if_true,
    if_neg hne]
  refine ⟨rfl, rfl, rfl, ?_, ?_⟩
  · have := h.pending
    show (ay.evqHead + 1#12 - ay.evqTail).toNat = count + 1
    bv_omega
  · refine (congrFun (congrArg (ayPlayed ay.play.regs) hpending) 8).trans ?_
    rw [ayPlayed_append, update_self]

/-- Writes of 0 and one of 1. -/
abbrev ayFlood (k : Nat) : List AyOp := List.replicate k (.write 0 0) ++ [.write 1 0]

/-- A write that finds the queue full is not played. -/
theorem AyQuiet.overflow (k : Nat) {ay : Ay3891x} {count : Nat} (h : AyQuiet ay count)
    (hk : count + k = 4095) :
    (ayGenerate 1 (Machine.runOut ayStep (ayFlood k) ay).2).2.play.regs 8 = 0 ∧
      (ayGenerate 1 (Machine.runOut ayStep (ayFlood k) ay).2).2.regs 8 = 1 := by
  induction k generalizing ay count with
  | zero =>
    have hfull : ay.evqHead + 1#12 = ay.evqTail := by
      have := h.pending
      bv_omega
    have hport : ¬aySoundRegs ≤ (8 : Fin 16) := by decide
    have hlast : (ayStep ay (.write 1 0)).2 =
        { ay with toAyVoice := ay.toAyVoice.write 8 1, timedMode := true } := by
      simp [ayStep, ayWriteDataTimed, h.selected, hport, ayEnqueue, h.seeded, hfull]
    rw [ayFlood, List.replicate_zero, List.nil_append, Machine.runOut_cons, Machine.runOut_nil,
      hlast]
    obtain ⟨-, -, hregs⟩ := @ayGenerate_timed
      { ay with toAyVoice := ay.toAyVoice.write 8 1, timedMode := true } rfl 1 one_pos
    constructor
    · rw [hregs]
      exact h.played
    · simp [ayGenerate]
  | succ k ih =>
    rw [ayFlood, List.replicate_succ, List.cons_append, Machine.runOut_cons]
    exact ih (h.write (by omega)) (by omega)

/-- When more writes than the queue holds come before a buffer, the last one is lost. -/
theorem ayRun_overflow :
    ¬ ∀ (ops : List AyOp) (n : Nat) (reg : Fin 16), 0 < n → reg < aySoundRegs →
      (ayGenerate n (Machine.runOut ayStep ops (ayInit 1000000)).2).2.play.regs reg =
        (ayGenerate n (Machine.runOut ayStep ops (ayInit 1000000)).2).2.regs reg := by
  intro hall
  have hstart : AyQuiet (ayStep (ayStep (ayInit 1000000) (.address 8)).2 (.write 0 0)).2 1 :=
    ⟨rfl, rfl, rfl, rfl, rfl⟩
  obtain ⟨k, hk⟩ : ∃ k, 1 + k = 4095 := ⟨4094, rfl⟩
  obtain ⟨hplay, hregs⟩ := hstart.overflow k hk
  have heq := hall (.address 8 :: .write 0 0 :: ayFlood k) 1 8 one_pos (by decide)
  rw [Machine.runOut_cons, Machine.runOut_cons] at heq
  have : (0 : Byte) = 1 := hplay.symm.trans (heq.trans hregs)
  revert this
  decide

end Phosphoric
