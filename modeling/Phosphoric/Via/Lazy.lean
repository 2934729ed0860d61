import Phosphoric.Lib.Machine
import Phosphoric.Via.Chip

/-!
# Deferred VIA cycles are exact

`viaTick` counts a cycle instead of running it as long as `viaQuiet` vouches for it, and every
other operation applies the counted cycles first.

**Theorem (`viaTick_refines_stepwise`).** From any reachable chip state, a sequence of operations
run with the deferring tick and run with the `VIA_NO_LAZY` tick answers alike, calls
`irq_callback` alike at each operation, and ends in states that agree once synchronised.

Two chips are related when they synchronise to the same one. The work is in the tick: while
`viaQuiet` is positive, running a cycle is counting down the active timers, which is what
`viaSync` later does for all deferred cycles at once (`viaRunCycles_skip`).
-/

namespace Phosphoric

variable {σ : Type} (cb : ViaCallbacks σ)

/-! ## Operations -/

/-- The operations of the chip. -/
inductive ViaOp
  | tick
  | update (cycles : Nat)
  | read (reg : Byte)
  | write (reg value : Byte)
  | setCa1 (state : Bool)
  | setCb1 (state : Bool)
  | setCa2Input (level : Bool)
  | setCb2Input (level : Bool)
  | triggerCa1
  | triggerCa2
  | triggerCb1
  | triggerCb2
  | shiftClock
  | pb6Pulse
  | getCa2
  | getCb2
  | getPb7
  | reset

/-- What an operation returns. -/
inductive ViaOut
  | unit
  | byte (b : Byte)
  | level (l : Bool)
  deriving DecidableEq

/-- Run an operation. The tick is a parameter: `viaTick` or `viaTickNoLazy`. -/
def viaApply (tick : ViaSys σ → ViaSys σ) (via : ViaSys σ) : ViaOp → ViaOut × ViaSys σ
  | .tick => (.unit, tick via)
  | .update n => (.unit, viaUpdate cb n via)
  | .read reg => let (b, via) := viaRead cb reg via; (.byte b, via)
  | .write reg value => (.unit, viaWrite cb reg value via)
  | .setCa1 s => (.unit, viaSetCa1 cb s via)
  | .setCb1 s => (.unit, viaSetCb1 cb s via)
  | .setCa2Input l => (.unit, viaSetCa2Input cb l via)
  | .setCb2Input l => (.unit, viaSetCb2Input cb l via)
  | .triggerCa1 => (.unit, viaTriggerCa1 cb via)
  | .triggerCa2 => (.unit, viaTriggerCa2 cb via)
  | .triggerCb1 => (.unit, viaTriggerCb1 cb via)
  | .triggerCb2 => (.unit, viaTriggerCb2 cb via)
  | .shiftClock => (.unit, viaShiftClock cb via)
  | .pb6Pulse => (.unit, viaPb6Pulse cb via)
  | .getCa2 => (.level (viaGetCa2 via.toVia6522), via)
  | .getCb2 => (.level (viaGetCb2 via.toVia6522), via)
  | .getPb7 => (.level (viaGetPb7 via.toVia6522), via)
  | .reset => (.unit, viaReset via)

/-- Run an operation and return, with its result, the `irq_callback` calls it makes. -/
def viaObserve (tick : ViaSys σ → ViaSys σ) (via : ViaSys σ) (op : ViaOp) :
    (ViaOut × List Bool) × ViaSys σ :=
  let (out, via) := viaApply cb tick { via with irqCalls := [] } op
  ((out, via.irqCalls), via)

/-- The chips reachable from `viaInit`, in either build. -/
inductive ViaReachable : ViaSys σ → Prop
  | init (user : σ) : ViaReachable { viaInit with user := user, irqCalls := [] }
  | lazy {via : ViaSys σ} (op : ViaOp) :
      ViaReachable via → ViaReachable (viaApply cb (viaTick cb) via op).2
  | noLazy {via : ViaSys σ} (op : ViaOp) :
      ViaReachable via → ViaReachable (viaApply cb (viaTickNoLazy cb) via op).2

/-! ## Nothing but the tick and the update touches `quiet` and `pending` -/

/-- The two fields of the deferral. -/
def deferred (via : ViaSys σ) : Word × Word := (via.quiet, via.pending)

@[simp] theorem deferred_viaCheckIrq (via : ViaSys σ) :
    deferred (viaCheckIrq cb via) = deferred via := by
  unfold viaCheckIrq
  dsimp only
  split <;> [split; skip] <;> rfl

@[simp] theorem deferred_viaAck (flag : Byte) (via : ViaSys σ) :
    deferred (viaAck cb flag via) = deferred via := by
  simp only [viaAck, deferred_viaCheckIrq]; rfl

@[simp] theorem deferred_viaRaise (flag : Byte) (via : ViaSys σ) :
    deferred (viaRaise cb flag via) = deferred via := by
  simp only [viaRaise, deferred_viaCheckIrq]; rfl

@[simp] theorem deferred_viaCallRead (read : Option (Via6522 → σ → Byte × σ)) (via : ViaSys σ) :
    deferred (viaCallRead read via).2 = deferred via := by
  cases read <;> rfl

@[simp] theorem deferred_viaCallWrite (write : Option (Byte → Via6522 → σ → σ)) (value : Byte)
    (via : ViaSys σ) : deferred (viaCallWrite write value via) = deferred via := by
  cases write <;> rfl

@[simp] theorem deferred_viaPaPins (via : ViaSys σ) :
    deferred (viaPaPins cb via).2 = deferred via :=
  deferred_viaCallRead cb.portaRead via

@[simp] theorem deferred_viaPortAInput (via : ViaSys σ) :
    deferred (viaPortAInput cb via).2 = deferred via := by
  unfold viaPortAInput
  split
  · rfl
  · exact deferred_viaPaPins cb via

@[simp] theorem deferred_viaClearCa (via : ViaSys σ) :
    deferred (viaClearCa via) = deferred via := by
  unfold viaClearCa
  dsimp only
  split <;> rfl

@[simp] theorem deferred_viaClearCb (via : ViaSys σ) :
    deferred (viaClearCb via) = deferred via := by
  unfold viaClearCb
  dsimp only
  split <;> rfl

@[simp] theorem deferred_viaCa2PortAccess (via : ViaSys σ) :
    deferred (viaCa2PortAccess via) = deferred via := by
  unfold viaCa2PortAccess
  dsimp only
  split <;> [skip; split] <;> rfl

@[simp] theorem deferred_viaCb2PortAccess (via : ViaSys σ) :
    deferred (viaCb2PortAccess via) = deferred via := by
  unfold viaCb2PortAccess
  dsimp only
  split <;> [skip; split] <;> rfl

@[simp] theorem deferred_viaSrAccess (via : ViaSys σ) :
    deferred (viaSrAccess via) = deferred via := by
  unfold viaSrAccess
  dsimp only
  split_ifs <;> rfl

@[simp] theorem deferred_viaDoShift (via : ViaSys σ) :
    deferred (viaDoShift cb via) = deferred via := by
  unfold viaDoShift
  dsimp only
  split_ifs <;> simp only [deferred_viaCheckIrq] <;> rfl

@[simp] theorem deferred_viaSrEvent (via : ViaSys σ) :
    deferred (viaSrEvent cb via) = deferred via := by
  unfold viaSrEvent
  dsimp only
  split_ifs <;> first | rfl | exact deferred_viaCheckIrq cb _

@[simp] theorem deferred_viaPulses (cycles : Nat) (via : ViaSys σ) :
    deferred (viaPulses cycles via) = deferred via := by
  unfold viaPulses
  dsimp only
  split_ifs <;> rfl

@[simp] theorem deferred_viaT1Cycle (via : ViaSys σ) :
    deferred (viaT1Cycle cb via) = deferred via := by
  unfold viaT1Cycle
  dsimp only
  split
  · rfl
  split
  · rfl
  split
  · rfl
  split <;> exact deferred_viaRaise cb viaIntT1 _

@[simp] theorem deferred_viaT2Count (via : ViaSys σ) :
    deferred (viaT2Count cb via) = deferred via := by
  unfold viaT2Count viaT2EightBitCycle
  dsimp only
  split_ifs <;> first | rfl | exact deferred_viaRaise cb viaIntT2 _

@[simp] theorem deferred_viaSrT2Event (via : ViaSys σ) :
    deferred (viaSrT2Event cb via) = deferred via := by
  unfold viaSrT2Event
  dsimp only
  split_ifs <;> first | rfl | exact deferred_viaSrEvent cb _

@[simp] theorem deferred_viaT2Cycle (via : ViaSys σ) :
    deferred (viaT2Cycle cb via) = deferred via := by
  unfold viaT2Cycle
  dsimp only
  split
  · exact deferred_viaSrT2Event cb via
  · rw [deferred_viaT2Count]
    exact deferred_viaSrT2Event cb via

@[simp] theorem deferred_viaSrCycle (via : ViaSys σ) :
    deferred (viaSrCycle cb via) = deferred via := by
  unfold viaSrCycle
  split
  · rfl
  · exact deferred_viaSrEvent cb via

/-- A step that leaves the deferral alone does so when repeated. -/
theorem deferred_iterate {f : ViaSys σ → ViaSys σ} (h : ∀ via, deferred (f via) = deferred via)
    (n : Nat) (via : ViaSys σ) : deferred (f^[n] via) = deferred via := by
  induction n generalizing via with
  | zero => rfl
  | succ n ih => rw [Function.iterate_succ_apply, ih, h]

@[simp] theorem deferred_viaRunCycles (cycles : Nat) (via : ViaSys σ) :
    deferred (viaRunCycles cb cycles via) = deferred via := by
  have hsr : ∀ v : ViaSys σ, deferred (viaSrCycles cb cycles v) = deferred v := by
    intro v
    unfold viaSrCycles
    dsimp only
    split
    · exact deferred_iterate (deferred_viaSrCycle cb) cycles v
    · rfl
  have ht1 : ∀ v : ViaSys σ, deferred (viaT1Cycles cb cycles v) = deferred v := by
    intro v
    unfold viaT1Cycles
    split
    · exact deferred_iterate (deferred_viaT1Cycle cb) cycles v
    · rfl
  rw [viaRunCycles, hsr, deferred_iterate (deferred_viaT2Cycle cb), ht1, deferred_viaPulses]

theorem deferred_viaReadReg (reg : ViaReg) (via : ViaSys σ) :
    deferred (viaReadReg cb reg via).2 = deferred via := by
  cases reg <;> simp only [viaReadReg, deferred_viaCheckIrq, deferred_viaClearCa,
    deferred_viaClearCb, deferred_viaCa2PortAccess, deferred_viaSrAccess, deferred_viaAck,
    deferred_viaPortAInput]
  -- Port B is read through its own callback
  case orb => split <;> simp

theorem deferred_viaWriteReg (reg : ViaReg) (value : Byte) (via : ViaSys σ) :
    deferred (viaWriteReg cb reg value via) = deferred via := by
  cases reg <;> simp only [viaWriteReg, deferred_viaCheckIrq, deferred_viaClearCa,
    deferred_viaClearCb, deferred_viaCa2PortAccess, deferred_viaCb2PortAccess,
    deferred_viaSrAccess, deferred_viaAck, deferred_viaCallWrite]
  case acr =>
    unfold viaWriteAcr
    dsimp only
    split_ifs <;> first | rfl | exact deferred_viaAck cb viaIntSr _
  all_goals rfl

/-! ## Synchronising -/

/-- Count the active timers down by `n`. -/
def viaSkip (n : Word) (via : ViaSys σ) : ViaSys σ :=
  { via with
    t1Counter := if via.t1Active then via.t1Counter - n else via.t1Counter
    t2Counter :=
      if via.t2Active && via.t2Phi2 then
        if viaT2EightBit via.toVia6522 then
          Word.setLo via.t2Counter (Word.lo (via.t2Counter - n))
        else via.t2Counter - n
      else via.t2Counter }

theorem viaSkip_zero (via : ViaSys σ) : viaSkip 0#16 via = via := by
  have h : Word.setLo via.t2Counter (Word.lo via.t2Counter) = via.t2Counter := by
    rw [Word.setLo_eq_mk, Word.mk_hi_lo]
  simp only [viaSkip, BitVec.sub_zero, h, ite_self]

/-- Synchronising applies the pending cycles and leaves none. -/
theorem viaSync_eq (via : ViaSys σ) :
    viaSync via = { viaSkip via.pending via with quiet := 0#16, pending := 0#16 } := by
  by_cases hn : via.pending = 0#16
  · rw [hn, viaSkip_zero]
    simp [viaSync, hn]
  · by_cases h1 : via.t1Active <;> by_cases h2 : (via.t2Active && via.t2Phi2) = true <;>
      by_cases h8 : viaT2EightBit via.toVia6522 = true <;>
      simp only [viaT2EightBit] at h8 <;>
      simp only [viaSync, viaSkip, viaT2EightBit, beq_iff_eq, hn, h1, h2, h8,
        if_true, if_false, Bool.false_eq_true]

@[simp] theorem deferred_viaSync (via : ViaSys σ) : deferred (viaSync via) = (0#16, 0#16) := by
  rw [viaSync_eq]; rfl

/-- A settled chip is its own synchronisation. -/
theorem viaSync_of_settled {via : ViaSys σ} (h : deferred via = (0#16, 0#16)) :
    viaSync via = via := by
  obtain ⟨hq, hp⟩ := Prod.mk.inj h
  rw [viaSync_eq, hp, viaSkip_zero]
  rcases via with ⟨⟨⟩, user, irqCalls⟩
  subst hq hp
  rfl

@[simp] theorem viaSync_viaSync (via : ViaSys σ) : viaSync (viaSync via) = viaSync via :=
  viaSync_of_settled (deferred_viaSync via)

/-! ## Operations start from the synchronised chip -/

/-- An operation that neither advances the cycles nor only reads the pins. -/
def ViaOp.settles : ViaOp → Bool
  | .tick | .update _ | .getCa2 | .getCb2 | .getPb7 => false
  | _ => true

@[simp] theorem deferred_viaLatchPa (via : ViaSys σ) :
    deferred (viaLatchPa cb via) = deferred via := by
  unfold viaLatchPa
  split
  · exact deferred_viaPaPins cb via
  · rfl

@[simp] theorem deferred_viaLatchPb (via : ViaSys σ) :
    deferred (viaLatchPb cb via) = deferred via := by
  unfold viaLatchPb
  split
  · exact deferred_viaCallRead cb.portbRead via
  · rfl

theorem deferred_viaSetCa1 (state : Bool) (via : ViaSys σ) :
    deferred (viaSetCa1 cb state via) = (0#16, 0#16) := by
  rw [← deferred_viaSync via]
  unfold viaSetCa1
  dsimp only
  split
  · rfl
  rw [deferred_viaCheckIrq]
  split <;> exact deferred_viaLatchPa cb _

theorem deferred_viaSetCb1 (state : Bool) (via : ViaSys σ) :
    deferred (viaSetCb1 cb state via) = (0#16, 0#16) := by
  rw [← deferred_viaSync via]
  unfold viaSetCb1
  dsimp only
  split
  · rfl
  rw [deferred_viaCheckIrq]
  split <;> exact deferred_viaLatchPb cb _

/-- Every operation that settles the chip leaves no deferred cycle. -/
theorem deferred_viaApply (tick : ViaSys σ → ViaSys σ) (via : ViaSys σ) {op : ViaOp}
    (h : op.settles) : deferred (viaApply cb tick via op).2 = (0#16, 0#16) := by
  cases op with
  | tick | update | getCa2 | getCb2 | getPb7 => cases h
  | read reg => exact (deferred_viaReadReg cb _ _).trans (deferred_viaSync via)
  | write reg value => exact (deferred_viaWriteReg cb _ _ _).trans (deferred_viaSync via)
  | setCa1 s => exact deferred_viaSetCa1 cb s via
  | setCb1 s => exact deferred_viaSetCb1 cb s via
  | triggerCb1 => exact deferred_viaSetCb1 cb true _
  | triggerCa1 => exact (deferred_viaRaise cb _ _).trans (deferred_viaSync via)
  | triggerCa2 => exact (deferred_viaRaise cb _ _).trans (deferred_viaSync via)
  | triggerCb2 => exact (deferred_viaRaise cb _ _).trans (deferred_viaSync via)
  | reset => exact deferred_viaSync via
  | setCa2Input l =>
    rw [← deferred_viaSync via]
    unfold viaApply viaSetCa2Input
    dsimp only
    split_ifs <;> first | rfl | exact deferred_viaRaise cb _ _
  | setCb2Input l =>
    rw [← deferred_viaSync via]
    unfold viaApply viaSetCb2Input
    dsimp only
    split_ifs <;> first | rfl | exact deferred_viaRaise cb _ _
  | shiftClock =>
    rw [← deferred_viaSync via]
    unfold viaApply viaShiftClock
    dsimp only
    split_ifs <;> first | rfl | exact deferred_viaDoShift cb _
  | pb6Pulse =>
    rw [← deferred_viaSync via]
    unfold viaApply viaPb6Pulse
    dsimp only
    split_ifs <;> first | rfl | exact deferred_viaRaise cb _ _

/-- Such an operation depends on the chip through its synchronisation, and not on the tick. -/
theorem viaApply_viaSync (tick tick' : ViaSys σ → ViaSys σ) (via : ViaSys σ) {op : ViaOp}
    (h : op.settles) : viaApply cb tick via op = viaApply cb tick' (viaSync via) op := by
  cases op with
  | tick | update | getCa2 | getCb2 | getPb7 => cases h
  | _ => simp only [viaApply, viaRead, viaWrite, viaSetCa1, viaSetCb1, viaSetCa2Input,
      viaSetCb2Input, viaTriggerCa1, viaTriggerCa2, viaTriggerCb1, viaTriggerCb2, viaShiftClock,
      viaPb6Pulse, viaReset, viaSync_viaSync]

/-! ## What `viaQuiet` vouches for -/

/-- Timer 2 only counts down in the next `n` cycles. -/
structure QuietT2For (n : Nat) (via : Via6522) : Prop where
  srT2Pending : via.srT2Pending = 0#8
  t2Hold : via.t2Hold = false
  t2Phi2 : via.t2Phi2 = (via.acr &&& 0x20#8 == 0#8)
  t2EightBit : via.t2Active → via.t2Phi2 → viaT2EightBit via →
    via.t2Reload = false ∧ n ≤ (Word.lo via.t2Counter).toNat
  t2 : via.t2Active → via.t2Phi2 → ¬ viaT2EightBit via → n ≤ via.t2Counter.toNat

/-- Nothing but countdowns can happen in the next `n` cycles. -/
structure QuietFor (n : Nat) (via : Via6522) : Prop extends QuietT2For n via where
  pulses : via.ca2Pulse ≤ 0 ∧ via.cb2Pulse ≤ 0
  srDelay : via.srDelay = 0#8
  srPhi2 : via.acr &&& 0x1C#8 = 0x08#8 ∨ via.acr &&& 0x1C#8 = 0x18#8 → via.srActive = false
  t1 : via.t1Active → via.t1Reload = false ∧ n ≤ via.t1Counter.toNat

/-- A guard of `viaQuiet` that answers 0 was not taken. -/
theorem le_of_le_guard {c : Prop} [Decidable c] {n : Nat} {q : Word} (hn : 0 < n)
    (h : n ≤ (if c then 0#16 else q).toNat) : ¬ c ∧ n ≤ q.toNat := by
  by_cases hc : c
  · rw [if_pos hc, BitVec.toNat_ofNat, Nat.zero_mod] at h
    omega
  · exact ⟨hc, by rwa [if_neg hc] at h⟩

theorem quietFor_of_le_viaQuiet {n : Nat} {via : Via6522} (hn : 0 < n)
    (h : n ≤ (viaQuiet via).toNat) : QuietFor n via := by
  have hlo : ((Word.lo via.t2Counter).setWidth 16).toNat = (Word.lo via.t2Counter).toNat := by
    have := (Word.lo via.t2Counter).isLt
    simp only [BitVec.toNat_setWidth]
    omega
  obtain ⟨hpulse, h⟩ := le_of_le_guard hn h
  obtain ⟨hsr, h⟩ := le_of_le_guard hn h
  obtain ⟨hphi2, h⟩ := le_of_le_guard hn h
  obtain ⟨hreload, h⟩ := le_of_le_guard hn h
  dsimp only at h
  have hq : ∀ q, q = (if via.t1Active && via.t1Counter < 0xFFFF#16 then via.t1Counter
      else 0xFFFF#16) → n ≤ q.toNat → via.t1Active → n ≤ via.t1Counter.toNat := by
    rintro q rfl hle hact
    have := via.t1Counter.isLt
    split_ifs at hle with h1
    · exact hle
    · simp only [hact, Bool.true_and, decide_eq_true_eq, BitVec.lt_def] at h1
      omega
  generalize (if via.t1Active && via.t1Counter < 0xFFFF#16 then via.t1Counter
    else 0xFFFF#16) = q at h hq
  obtain ⟨hhold, h⟩ := le_of_le_guard hn h
  simp only [Bool.or_eq_true, Bool.and_eq_true, decide_eq_true_eq, bne_iff_ne, ne_eq, beq_iff_eq,
    not_or, not_and, not_not, Bool.not_eq_true, gt_iff_lt, not_lt] at hpulse hsr hphi2 hreload hhold
  have ht2 : n ≤ q.toNat ∧ (via.t2Active → via.t2Phi2 → if viaT2EightBit via then
      via.t2Reload = false ∧ n ≤ (Word.lo via.t2Counter).toNat
      else n ≤ via.t2Counter.toNat) := by
    split at h
    · split at h
      · rename_i h8
        obtain ⟨hr, h⟩ := le_of_le_guard hn h
        have hle : n ≤ q.toNat ∧ n ≤ (Word.lo via.t2Counter).toNat := by
          split at h <;> rename_i hlt <;> simp only [BitVec.lt_def, hlo] at hlt h <;> omega
        exact ⟨hle.1, fun _ _ => by rw [if_pos h8]; exact ⟨by simpa using hr, hle.2⟩⟩
      · rename_i h8
        have hle : n ≤ q.toNat ∧ n ≤ via.t2Counter.toNat := by
          split at h <;> rename_i hlt <;> simp only [BitVec.lt_def] at hlt h <;> omega
        exact ⟨hle.1, fun _ _ => by rw [if_neg h8]; exact hle.2⟩
    · rename_i hidle
      exact ⟨h, fun ha hp => absurd (by simp [ha, hp]) hidle⟩
  exact {
    pulses := hpulse
    srT2Pending := hsr.1
    srDelay := hsr.2
    srPhi2 := hphi2
    t1 := fun ha => ⟨hreload ha, hq q rfl ht2.1 ha⟩
    t2Hold := hhold.1
    t2Phi2 := hhold.2
    t2EightBit := fun ha hp h8 => by simpa only [if_pos h8] using ht2.2 ha hp
    t2 := fun ha hp h8 => by simpa only [if_neg h8] using ht2.2 ha hp }

/-- Counting down `m` cycles leaves a chip quiet for the rest. -/
theorem quietFor_viaSkip {m n : Nat} {w : Word} {via : ViaSys σ} (hw : w.toNat = m)
    (h : QuietFor (m + n) via.toVia6522) : QuietFor n (viaSkip w via).toVia6522 := by
  have hsub : ∀ c : Word, m + n ≤ c.toNat → n ≤ (c - w).toNat := by
    intro c hc
    rw [BitVec.toNat_sub_of_le (by rw [BitVec.le_def]; omega)]
    omega
  exact {
    pulses := h.pulses
    srT2Pending := h.srT2Pending
    srDelay := h.srDelay
    srPhi2 := h.srPhi2
    t1 := by
      intro ha
      obtain ⟨hr, hle⟩ := h.t1 ha
      have ha' : via.t1Active = true := ha
      refine ⟨hr, ?_⟩
      simp only [viaSkip, if_pos ha']
      exact hsub _ hle
    t2Hold := h.t2Hold
    t2Phi2 := h.t2Phi2
    t2EightBit := by
      intro ha hp h8
      obtain ⟨hr, hle⟩ := h.t2EightBit ha hp h8
      have h8' : viaT2EightBit via.toVia6522 = true := h8
      have hact : (via.t2Active && via.t2Phi2) = true := by
        rw [Bool.and_eq_true_iff]; exact ⟨ha, hp⟩
      refine ⟨hr, ?_⟩
      simp only [viaSkip, if_pos hact, if_pos h8', Word.setLo_eq_mk, Word.lo_mk]
      rw [Word.toNat_lo] at hle ⊢
      have hlt := via.t2Counter.isLt
      rw [BitVec.toNat_sub_of_le (by rw [BitVec.le_def]; omega)]
      omega
    t2 := by
      intro ha hp h8
      have h8' : ¬ viaT2EightBit via.toVia6522 = true := h8
      have hact : (via.t2Active && via.t2Phi2) = true := by
        rw [Bool.and_eq_true_iff]; exact ⟨ha, hp⟩
      simp only [viaSkip, if_pos hact, if_neg h8']
      exact hsub _ (h.t2 ha hp h8) }

/-! ## A vouched-for cycle is a countdown -/

theorem Word.sub_sub {w : Nat} (c m n : BitVec w) : c - m - n = c - (m + n) := by
  rw [BitVec.sub_eq_add_neg, BitVec.sub_eq_add_neg, BitVec.sub_eq_add_neg, BitVec.add_assoc,
    BitVec.neg_add, BitVec.sub_eq_add_neg]

/-- A counter that only counts in its low byte keeps the high one. -/
theorem Word.setLo_setLo_sub (c m n : Word) :
    Word.setLo (Word.setLo c (Word.lo (c - m))) (Word.lo (Word.setLo c (Word.lo (c - m)) - n)) =
      Word.setLo c (Word.lo (c - (m + n))) := by
  simp only [Word.setLo_eq_mk, Word.lo_sub, Word.lo_add, Word.hi_mk, Word.lo_mk, Word.sub_sub]

/-- Countdowns add up. -/
theorem viaSkip_viaSkip (m n : Word) (via : ViaSys σ) :
    viaSkip n (viaSkip m via) = viaSkip (m + n) via := by
  have ht1 : ∀ (active : Bool) (c : Word),
      (if active then (if active then c - m else c) - n else if active then c - m else c) =
        if active then c - (m + n) else c := by
    intro active c
    cases active
    · rfl
    · exact Word.sub_sub c m n
  have ht2 : ∀ (active eightBit : Bool) (c : Word),
      let c' := if active then if eightBit then Word.setLo c (Word.lo (c - m)) else c - m else c
      (if active then if eightBit then Word.setLo c' (Word.lo (c' - n)) else c' - n else c') =
        if active then
          if eightBit then Word.setLo c (Word.lo (c - (m + n))) else c - (m + n)
        else c := by
    intro active eightBit c
    cases active
    · rfl
    · cases eightBit
      · exact Word.sub_sub c m n
      · exact Word.setLo_setLo_sub c m n
  unfold viaSkip viaT2EightBit
  dsimp only
  dsimp only at ht2
  rw [ht1, ht2]

/-- Timer 1 counts down when it neither reloads nor underflows. -/
theorem viaT1Cycle_countdown {via : ViaSys σ} (hr : via.t1Reload = false)
    (hc : via.t1Counter ≠ 0#16) :
    viaT1Cycle cb via = { via with t1Counter := via.t1Counter - 1#16 } := by
  simp [viaT1Cycle, hr, hc]

/-- Timer 2 counts down when no shift register event, mode switch, reload or underflow is due. -/
theorem viaT2Cycle_countdown {via : ViaSys σ} (h : QuietT2For 1 via.toVia6522) :
    viaT2Cycle cb via =
      { via with
        t2Counter :=
          if via.t2Active && via.t2Phi2 then
            if viaT2EightBit via.toVia6522 then
              Word.setLo via.t2Counter (Word.lo (via.t2Counter - 1#16))
            else via.t2Counter - 1#16
          else via.t2Counter } := by
  have hmode : { via with t2Phi2 := via.acr &&& 0x20#8 == 0#8, t2Hold := false } = via := by
    rw [← h.t2Phi2, ← h.t2Hold]
  have hevent : viaSrT2Event cb via = via := by simp [viaSrT2Event, h.srT2Pending]
  have hgo : (!via.t2Active || !via.t2Phi2 || via.t2Hold) = !(via.t2Active && via.t2Phi2) := by
    rw [h.t2Hold, Bool.or_false, Bool.not_and]
  simp only [viaT2Cycle, hevent, hmode, hgo]
  by_cases hact : (via.t2Active && via.t2Phi2) = true
  · obtain ⟨ha, hp⟩ := Bool.and_eq_true_iff.1 hact
    rw [if_pos hact, hact, if_neg (by simp), viaT2Count]
    by_cases h8 : viaT2EightBit via.toVia6522
    · obtain ⟨hr, hle⟩ := h.t2EightBit ha hp h8
      have hne : Word.lo via.t2Counter ≠ 0#8 := fun h0 => by simp [h0] at hle
      have hone : Word.lo 1#16 = 1#8 := rfl
      simp [viaT2EightBitCycle, h8, hr, hne, Word.setLo_eq_mk, Word.lo_sub, hone]
    · have hle := h.t2 ha hp h8
      have hne : via.t2Counter ≠ 0#16 := fun h0 => by simp [h0] at hle
      simp [h8, hne]
  · rw [if_neg hact, Bool.eq_false_iff.2 hact, Bool.not_false, if_pos rfl]

/-- The shift register does nothing when no sequence is in progress. -/
theorem viaSrCycles_idle {via : ViaSys σ} (hdelay : via.srDelay = 0#8)
    (h : via.acr &&& 0x1C#8 = 0x08#8 ∨ via.acr &&& 0x1C#8 = 0x18#8 → via.srActive = false) :
    viaSrCycles cb 1 via = via := by
  unfold viaSrCycles
  dsimp only
  split
  · rename_i hmode
    have hidle : via.srActive = false := h (by simpa using hmode)
    simp [viaSrCycle, viaSrEvent, hdelay, hidle]
  · rfl

/-- Running a vouched-for cycle is counting it down. -/
theorem viaRunCycles_countdown {via : ViaSys σ} (h : QuietFor 1 via.toVia6522) :
    viaRunCycles cb 1 via = viaSkip 1#16 via := by
  have hpulses : viaPulses 1 via = via := by
    have h1 : ¬ via.ca2Pulse > 0 := not_lt.2 h.pulses.1
    have h2 : ¬ via.cb2Pulse > 0 := not_lt.2 h.pulses.2
    simp only [viaPulses, if_neg h1, if_neg h2]
  have ht1 : viaT1Cycles cb 1 via =
      { via with t1Counter := if via.t1Active then via.t1Counter - 1#16 else via.t1Counter } := by
    unfold viaT1Cycles
    by_cases ha : via.t1Active = true
    · obtain ⟨hr, hle⟩ := h.t1 ha
      have hne : via.t1Counter ≠ 0#16 := fun h0 => by simp [h0] at hle
      rw [if_pos ha, Function.iterate_one, viaT1Cycle_countdown cb hr hne, if_pos ha]
    · rw [if_neg ha, if_neg ha]
  -- T1 counting down does not disturb T2
  have ht2 : QuietT2For 1 { via with
      t1Counter := if via.t1Active then via.t1Counter - 1#16 else via.t1Counter }.toVia6522 :=
    ⟨h.srT2Pending, h.t2Hold, h.t2Phi2, h.t2EightBit, h.t2⟩
  unfold viaRunCycles
  rw [hpulses, ht1, Function.iterate_one, viaT2Cycle_countdown cb ht2]
  exact viaSrCycles_idle cb h.srDelay h.srPhi2

/-! ## The simulation -/

/-- The pending cycles and the ones still vouched for are within the bound `viaQuiet` gives. -/
def LazyInv (via : ViaSys σ) : Prop :=
  via.pending.toNat + via.quiet.toNat ≤ (viaQuiet via.toVia6522).toNat

theorem lazyInv_of_settled {via : ViaSys σ} (h : deferred via = (0#16, 0#16)) : LazyInv via := by
  obtain ⟨hq, hp⟩ := Prod.mk.inj h
  unfold LazyInv
  rw [hq, hp]
  exact Nat.zero_le _

/-- What `viaUpdate` leaves: the cycles run, and the bound for the next ones. -/
theorem viaUpdate_eq (n : Nat) (via : ViaSys σ) :
    viaUpdate cb n via =
      { viaRunCycles cb n (viaSync via) with
        quiet := viaQuiet (viaRunCycles cb n (viaSync via)).toVia6522, pending := 0#16 } := by
  have hp : (viaRunCycles cb n (viaSync via)).pending = 0#16 := by
    have := deferred_viaRunCycles cb n (viaSync via)
    rw [deferred_viaSync] at this
    exact (Prod.mk.inj this).2
  unfold viaUpdate
  rw [← hp]

theorem lazyInv_viaUpdate (n : Nat) (via : ViaSys σ) : LazyInv (viaUpdate cb n via) := by
  rw [viaUpdate_eq]
  show (0#16).toNat + _ ≤ _
  rw [BitVec.toNat_ofNat, Nat.zero_mod, Nat.zero_add]
  exact le_refl _

theorem viaSync_viaUpdate (n : Nat) (via : ViaSys σ) :
    viaSync (viaUpdate cb n via) =
      { viaRunCycles cb n (viaSync via) with quiet := 0#16, pending := 0#16 } := by
  rw [viaUpdate_eq, viaSync_eq]
  dsimp only
  rw [viaSkip_zero]

/-- Counting a vouched-for cycle is running it, once synchronised. -/
theorem viaSync_defer {via : ViaSys σ} (hinv : LazyInv via) (hq : via.quiet ≠ 0#16) :
    viaSync { via with quiet := via.quiet - 1#16, pending := via.pending + 1#16 } =
      { viaRunCycles cb 1 (viaSync via) with quiet := 0#16, pending := 0#16 } := by
  have hpos : 0 < via.quiet.toNat := by
    rw [Nat.pos_iff_ne_zero]
    exact fun h => hq (BitVec.eq_of_toNat_eq h)
  have hquiet : QuietFor (via.pending.toNat + 1) via.toVia6522 :=
    quietFor_of_le_viaQuiet (Nat.succ_pos _) (by unfold LazyInv at hinv; omega)
  have hnext : QuietFor 1 (viaSync via).toVia6522 := by
    rw [viaSync_eq]
    have h := quietFor_viaSkip rfl hquiet
    exact ⟨⟨h.srT2Pending, h.t2Hold, h.t2Phi2, h.t2EightBit, h.t2⟩, h.pulses, h.srDelay, h.srPhi2,
      h.t1⟩
  rw [viaRunCycles_countdown cb hnext, viaSync_eq, viaSync_eq via]
  exact congrArg (fun v : ViaSys σ => { v with quiet := 0#16, pending := 0#16 })
    (viaSkip_viaSkip via.pending 1#16 via).symm

/-- The deferring chip and the stepwise one synchronise to the same chip. -/
structure LazySim (l s : ViaSys σ) : Prop where
  inv : LazyInv l
  sync : viaSync l = viaSync s

theorem viaSync_clearCalls (via : ViaSys σ) :
    viaSync { via with irqCalls := [] } = { viaSync via with irqCalls := [] } := by
  rw [viaSync_eq, viaSync_eq via]
  rfl

/-- Chips that synchronise to the same one have the same pins. -/
theorem viaGet_viaSync (via : ViaSys σ) :
    viaGetCa2 (viaSync via).toVia6522 = viaGetCa2 via.toVia6522 ∧
      viaGetCb2 (viaSync via).toVia6522 = viaGetCb2 via.toVia6522 ∧
      viaGetPb7 (viaSync via).toVia6522 = viaGetPb7 via.toVia6522 ∧
      (viaSync via).irqCalls = via.irqCalls := by
  rw [viaSync_eq]
  exact ⟨rfl, rfl, rfl, rfl⟩

/-- The step lemma on a chip about to log its calls. -/
theorem lazySim_viaApply {l s : ViaSys σ} (h : LazySim l s) (op : ViaOp) :
    (viaApply cb (viaTick cb) l op).1 = (viaApply cb (viaTickNoLazy cb) s op).1 ∧
      (viaApply cb (viaTick cb) l op).2.irqCalls =
        (viaApply cb (viaTickNoLazy cb) s op).2.irqCalls ∧
      LazySim (viaApply cb (viaTick cb) l op).2 (viaApply cb (viaTickNoLazy cb) s op).2 := by
  have hupdate : ∀ n, LazySim (viaUpdate cb n l) (viaUpdate cb n s) := fun n =>
    ⟨lazyInv_viaUpdate cb n l, by rw [viaSync_viaUpdate, viaSync_viaUpdate, h.sync]⟩
  have hcalls : ∀ {l s : ViaSys σ}, LazySim l s → l.irqCalls = s.irqCalls := by
    intro l s h
    rw [← (viaGet_viaSync l).2.2.2, h.sync, (viaGet_viaSync s).2.2.2]
  obtain ⟨hca2, hcb2, hpb7, -⟩ := viaGet_viaSync l
  obtain ⟨hca2', hcb2', hpb7', -⟩ := viaGet_viaSync s
  rw [h.sync] at hca2 hcb2 hpb7
  by_cases hset : op.settles = true
  · have heq : viaApply cb (viaTick cb) l op = viaApply cb (viaTickNoLazy cb) s op := by
      rw [viaApply_viaSync cb _ (viaTickNoLazy cb) l hset, h.sync,
        ← viaApply_viaSync cb (viaTickNoLazy cb) _ s hset]
    rw [heq]
    exact ⟨rfl, rfl, lazyInv_of_settled (deferred_viaApply cb _ s hset), rfl⟩
  cases op with
  | tick =>
    have hsim : LazySim (viaTick cb l) (viaTickNoLazy cb s) := by
      by_cases hq : l.quiet = 0#16
      · have htick : viaTick cb l = viaUpdate cb 1 l := by simp [viaTick, hq]
        rw [htick]
        exact hupdate 1
      · have htick : viaTick cb l =
            { l with quiet := l.quiet - 1#16, pending := l.pending + 1#16 } := by
          simp [viaTick, hq]
        rw [htick]
        refine ⟨?_, ?_⟩
        · have hinv := h.inv
          have hl := (viaQuiet l.toVia6522).isLt
          have hpos : l.quiet.toNat ≠ 0 := fun h0 => hq (BitVec.eq_of_toNat_eq h0)
          unfold LazyInv at hinv ⊢
          show (l.pending + 1#16).toNat + (l.quiet - 1#16).toNat ≤ (viaQuiet l.toVia6522).toNat
          rw [BitVec.toNat_add, BitVec.toNat_sub, BitVec.toNat_ofNat]
          omega
        · rw [viaSync_defer cb h.inv hq, h.sync]
          exact (viaSync_viaUpdate cb 1 s).symm
    exact ⟨rfl, hcalls hsim, hsim⟩
  | update n => exact ⟨rfl, hcalls (hupdate n), hupdate n⟩
  | getCa2 => exact ⟨congrArg ViaOut.level (hca2.symm.trans hca2'), hcalls h, h⟩
  | getCb2 => exact ⟨congrArg ViaOut.level (hcb2.symm.trans hcb2'), hcalls h, h⟩
  | getPb7 => exact ⟨congrArg ViaOut.level (hpb7.symm.trans hpb7'), hcalls h, h⟩
  | _ => exact absurd rfl hset

/-- Logging the calls from scratch keeps the relation. -/
theorem LazySim.clearCalls {l s : ViaSys σ} (h : LazySim l s) :
    LazySim { l with irqCalls := [] } { s with irqCalls := [] } :=
  ⟨h.inv, by rw [viaSync_clearCalls, viaSync_clearCalls, h.sync]⟩

/-- The deferral is within its bound in every reachable chip, whichever build reaches it. -/
theorem lazyInv_of_reachable {via : ViaSys σ} (h : ViaReachable cb via) : LazyInv via := by
  induction h with
  | init user => exact lazyInv_of_settled rfl
  | @lazy via op _ ih => exact (lazySim_viaApply cb ⟨ih, rfl⟩ op).2.2.inv
  | @noLazy via op _ ih =>
    by_cases hset : op.settles = true
    · exact lazyInv_of_settled (deferred_viaApply cb _ via hset)
    cases op with
    | tick => exact lazyInv_viaUpdate cb 1 via
    | update n => exact lazyInv_viaUpdate cb n via
    | getCa2 | getCb2 | getPb7 => exact ih
    | _ => exact absurd rfl hset

/-- **Deferred cycles are exact.** From any reachable chip, an operation sequence run with the
deferring tick and with the stepwise one answers alike, calls `irq_callback` alike at each
operation, and ends in chips that synchronise to the same one. -/
theorem viaTick_refines_stepwise {via : ViaSys σ} (hvia : ViaReachable cb via)
    (ops : List ViaOp) :
    (Machine.runOut (viaObserve cb (viaTick cb)) ops via).1 =
        (Machine.runOut (viaObserve cb (viaTickNoLazy cb)) ops via).1 ∧
      viaSync (Machine.runOut (viaObserve cb (viaTick cb)) ops via).2 =
        viaSync (Machine.runOut (viaObserve cb (viaTickNoLazy cb)) ops via).2 := by
  have hstep : ∀ (l s : ViaSys σ) (op : ViaOp), LazySim l s →
      (viaObserve cb (viaTick cb) l op).1 = (viaObserve cb (viaTickNoLazy cb) s op).1 ∧
        LazySim (viaObserve cb (viaTick cb) l op).2 (viaObserve cb (viaTickNoLazy cb) s op).2 := by
    intro l s op h
    obtain ⟨hout, hirq, hsim⟩ := lazySim_viaApply cb h.clearCalls op
    exact ⟨Prod.ext hout hirq, hsim⟩
  obtain ⟨houts, hend⟩ := Machine.runOut_simulation hstep ops via via
    ⟨lazyInv_of_reachable cb hvia, rfl⟩
  exact ⟨houts, hend.sync⟩

/-- A one-shot T1 interrupt behind three deferred cycles. -/
theorem viaTick_refines_stepwise_oneShot :
    let cb : ViaCallbacks Nat := ⟨none, none, none, none, some fun _ _ calls => calls + 1⟩
    let via : ViaSys Nat := { viaInit with user := 0, irqCalls := [] }
    let ops : List ViaOp := [.write 0x0E#8 0xC0#8, .write 0x04#8 0x03#8, .write 0x05#8 0x00#8,
      .tick, .tick, .tick, .tick, .tick, .tick, .read 0x0D#8, .read 0x04#8]
    (Machine.runOut (viaObserve cb (viaTick cb)) ops via).1 =
        (Machine.runOut (viaObserve cb (viaTickNoLazy cb)) ops via).1 ∧
      viaSync (Machine.runOut (viaObserve cb (viaTick cb)) ops via).2 =
        viaSync (Machine.runOut (viaObserve cb (viaTickNoLazy cb)) ops via).2 :=
  viaTick_refines_stepwise _ (.init 0) _

end Phosphoric
