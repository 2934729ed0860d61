import Phosphoric.Via.Lazy
import Mathlib.Data.List.Chain

/-!
# The interrupt line

**Theorem (`via_irqLine_follows_flags`).** In every reachable chip the line is asserted exactly if
an enabled flag is set, and bit 7 of the IFR is the line. Since the chip was initialised or last
reset, the values passed to `irq_callback` alternate, and the last one is the line.

`viaReset` drops the line without a call, so the calls are counted from there. All the other
operations change flags and enables in many places, but call `viaCheckIrq` after the last one:
that re-establishes the invariant `ViaIrqInv` whatever the flags were (`viaCheckIrq_irq`), and the
rest only has to leave the flags, the enables, the line and the log alone.
-/

namespace Phosphoric

variable {σ : Type} (cb : ViaCallbacks σ) {base : List Bool} {via : ViaSys σ}

/-- The calls made since the log was `base`, with the line low: they alternate, and end at the
line. -/
def ViaIrqLog (base : List Bool) (via : ViaSys σ) : Prop :=
  ∃ calls, via.irqCalls = base ++ calls ∧ List.IsChain (· ≠ ·) (false :: calls) ∧
    calls.getLastD false = via.irqLine

/-- The line, bit 7 of the IFR and the log agree with the flags. -/
structure ViaIrqInv (base : List Bool) (via : ViaSys σ) : Prop where
  line : via.irqLine = (via.ifr &&& via.ier &&& viaIerMask != 0#8)
  any : via.ifr.getLsbD 7 = via.irqLine
  log : cb.irqCallback.isSome = true → ViaIrqLog base via

/-! ## The check -/

theorem ViaIrqLog.append {via' : ViaSys σ} {irq : Bool} (h : ViaIrqLog base via)
    (hne : irq ≠ via.irqLine) (hcalls : via'.irqCalls = via.irqCalls ++ [irq])
    (hline : via'.irqLine = irq) : ViaIrqLog base via' := by
  obtain ⟨calls, heq, hchain, hlast⟩ := h
  refine ⟨calls ++ [irq], by simp [hcalls, heq], ?_, by simp [hline]⟩
  rw [← List.cons_append]
  refine hchain.append (List.isChain_singleton irq) ?_
  intro x hx y hy
  have hx' : calls.getLastD false = x := by
    simpa [List.getLast?_cons] using hx
  have hy' : irq = y := by simpa using hy
  rw [← hx', ← hy', hlast]
  exact hne.symm

theorem or_viaIntAny (b : Byte) :
    (b ||| viaIntAny).getLsbD 7 = true ∧ ∀ ier : Byte,
      (b ||| viaIntAny) &&& ier &&& viaIerMask = b &&& ier &&& viaIerMask := by
  refine ⟨by revert b; decide, fun ier => ?_⟩
  ext i hi
  have hbit : (viaIntAny.getLsbD i && viaIerMask.getLsbD i) = false := by
    revert i; decide
  simp only [BitVec.getElem_and, BitVec.getElem_or]
  rcases Bool.and_eq_false_iff.mp hbit with h | h <;>
    simp [BitVec.getLsbD_eq_getElem hi] at h <;> simp [h]

theorem and_not_viaIntAny (b : Byte) :
    (b &&& ~~~viaIntAny).getLsbD 7 = false ∧ ∀ ier : Byte,
      (b &&& ~~~viaIntAny) &&& ier &&& viaIerMask = b &&& ier &&& viaIerMask := by
  have hmask : ~~~viaIntAny = viaIerMask := by decide
  refine ⟨by revert b; decide, fun ier => ?_⟩
  rw [hmask, BitVec.and_assoc, BitVec.and_comm ier, ← BitVec.and_assoc, BitVec.and_assoc b,
    BitVec.and_self, BitVec.and_assoc, BitVec.and_comm viaIerMask, ← BitVec.and_assoc]

/-- The flags as the check leaves them: bit 7 is the interrupt, the rest is unchanged. -/
theorem viaCheckIrq_flags (ifr ier : Byte) (irq : Bool)
    (hirq : irq = (ifr &&& ier &&& viaIerMask != 0#8)) (ifr' : Byte)
    (hifr : ifr' = if irq then ifr ||| viaIntAny else ifr &&& ~~~viaIntAny) :
    irq = (ifr' &&& ier &&& viaIerMask != 0#8) ∧ ifr'.getLsbD 7 = irq := by
  cases irq with
  | true =>
    rw [if_pos rfl] at hifr
    obtain ⟨hany, hmask⟩ := or_viaIntAny ifr
    rw [hifr, hmask]
    exact ⟨hirq, hany⟩
  | false =>
    rw [if_neg (by decide)] at hifr
    obtain ⟨hany, hmask⟩ := and_not_viaIntAny ifr
    rw [hifr, hmask]
    exact ⟨hirq, hany⟩

/-- The check restores the invariant, whatever was done to the flags and the enables. -/
theorem viaCheckIrq_irq (hlog : cb.irqCallback.isSome = true → ViaIrqLog base via) :
    ViaIrqInv cb base (viaCheckIrq cb via) := by
  unfold viaCheckIrq
  dsimp only
  generalize hirq : (via.ifr &&& via.ier &&& viaIerMask != 0#8) = irq
  generalize hifr : (if irq = true then via.ifr ||| viaIntAny else via.ifr &&& ~~~viaIntAny) = ifr'
  obtain ⟨hline, hany⟩ := viaCheckIrq_flags via.ifr via.ier irq hirq.symm ifr' hifr.symm
  split
  · rename_i hne
    have hne' : irq ≠ via.irqLine := by simpa using hne
    cases hcall : cb.irqCallback with
    | none => exact ⟨hline, hany, by simp [hcall]⟩
    | some call => exact ⟨hline, hany, fun hsome => (hlog hsome).append hne' rfl rfl⟩
  · rename_i heq
    have heq' : irq = via.irqLine := by simpa using heq
    exact ⟨heq' ▸ hline, hany.trans heq', hlog⟩

variable {cb}

/-- Flags may change before the check. -/
theorem ViaIrqInv.setFlags (h : ViaIrqInv cb base via) (ifr : Byte) :
    ViaIrqInv cb base (viaCheckIrq cb { via with ifr := ifr }) :=
  viaCheckIrq_irq cb h.log

theorem ViaIrqInv.ack (h : ViaIrqInv cb base via) (flag : Byte) :
    ViaIrqInv cb base (viaAck cb flag via) := h.setFlags _

theorem ViaIrqInv.raise (h : ViaIrqInv cb base via) (flag : Byte) :
    ViaIrqInv cb base (viaRaise cb flag via) := h.setFlags _

/-! ## Register accesses -/

theorem ViaIrqInv.sync (h : ViaIrqInv cb base via) : ViaIrqInv cb base (viaSync via) := by
  unfold viaSync
  dsimp only
  split_ifs <;> exact { h with }

theorem ViaIrqInv.callRead (h : ViaIrqInv cb base via)
    (read : Option (Via6522 → σ → Byte × σ)) : ViaIrqInv cb base (viaCallRead read via).2 := by
  cases read with
  | none => exact h
  | some call => exact { h with }

theorem ViaIrqInv.callWrite (h : ViaIrqInv cb base via) (write : Option (Byte → Via6522 → σ → σ))
    (value : Byte) : ViaIrqInv cb base (viaCallWrite write value via) := by
  cases write with
  | none => exact h
  | some call => exact { h with }

theorem ViaIrqInv.portAInput (h : ViaIrqInv cb base via) :
    ViaIrqInv cb base (viaPortAInput cb via).2 := by
  unfold viaPortAInput
  split
  · exact h
  · exact h.callRead cb.portaRead

/-- Clearing the port flags, then the check. -/
theorem ViaIrqInv.clearCa (h : ViaIrqInv cb base via) :
    ViaIrqInv cb base (viaCheckIrq cb (viaClearCa via)) := by
  unfold viaClearCa
  dsimp only
  split
  · exact h.setFlags _
  · exact h.setFlags _

theorem ViaIrqInv.clearCb (h : ViaIrqInv cb base via) :
    ViaIrqInv cb base (viaCheckIrq cb (viaClearCb via)) := by
  unfold viaClearCb
  dsimp only
  split
  · exact h.setFlags _
  · exact h.setFlags _

theorem ViaIrqInv.ca2PortAccess (h : ViaIrqInv cb base via) :
    ViaIrqInv cb base (viaCa2PortAccess via) := by
  unfold viaCa2PortAccess
  dsimp only
  split_ifs <;> exact { h with }

theorem ViaIrqInv.cb2PortAccess (h : ViaIrqInv cb base via) :
    ViaIrqInv cb base (viaCb2PortAccess via) := by
  unfold viaCb2PortAccess
  dsimp only
  split_ifs <;> exact { h with }

theorem ViaIrqInv.srAccess (h : ViaIrqInv cb base via) : ViaIrqInv cb base (viaSrAccess via) := by
  unfold viaSrAccess
  dsimp only
  split_ifs <;> exact { h with }

theorem ViaIrqInv.readReg (h : ViaIrqInv cb base via) (reg : ViaReg) :
    ViaIrqInv cb base (viaReadReg cb reg via).2 := by
  cases reg with
  | orb =>
    dsimp only [viaReadReg]
    split
    · exact h.clearCb
    · exact (h.callRead cb.portbRead).clearCb
  | ora => exact h.portAInput.clearCa.ca2PortAccess
  | t1cl => exact h.ack viaIntT1
  | t2cl => exact h.ack viaIntT2
  | sr => exact (h.ack viaIntSr).srAccess
  | oraNh => exact h.portAInput
  | _ => exact h

theorem ViaIrqInv.writeAcr (h : ViaIrqInv cb base via) (value : Byte) :
    ViaIrqInv cb base (viaWriteAcr cb value via) := by
  have hacr : ∀ pb7Pin, ViaIrqInv cb base { via with pb7Pin := pb7Pin, acr := value } :=
    fun _ => { h with }
  have hdelay : ∀ {via : ViaSys σ}, ViaIrqInv cb base via →
      ViaIrqInv cb base { via with srDelay := 3#8 } := fun h => { h with }
  unfold viaWriteAcr
  dsimp only
  split_ifs
  all_goals first
    | exact hdelay ((hacr _).ack viaIntSr)
    | exact (hacr _).ack viaIntSr
    | exact { h with }

theorem ViaIrqInv.writeReg (h : ViaIrqInv cb base via) (reg : ViaReg) (value : Byte) :
    ViaIrqInv cb base (viaWriteReg cb reg value via) := by
  cases reg with
  | orb =>
    have hset : ViaIrqInv cb base { via with orb := value } := { h with }
    exact hset.clearCb.cb2PortAccess.callWrite cb.portbWrite value
  | ora =>
    have hset : ViaIrqInv cb base { via with ora := value } := { h with }
    exact hset.clearCa.ca2PortAccess.callWrite cb.portaWrite value
  | t1ch => exact viaCheckIrq_irq cb h.log
  | t1lh => exact viaCheckIrq_irq cb h.log
  | t2ch => exact viaCheckIrq_irq cb h.log
  | sr =>
    have hset : ViaIrqInv cb base { via with sr := value } := { h with }
    exact (hset.ack viaIntSr).srAccess
  | acr => exact h.writeAcr value
  | ifr => exact h.ack _
  | ier => exact viaCheckIrq_irq cb h.log
  | oraNh =>
    have hset : ViaIrqInv cb base { via with ora := value } := { h with }
    exact hset.callWrite cb.portaWrite value
  | _ => exact { h with }

/-! ## Cycles -/

theorem ViaIrqInv.doShift (h : ViaIrqInv cb base via) :
    ViaIrqInv cb base (viaDoShift cb via) := by
  unfold viaDoShift
  dsimp only
  split_ifs <;> first | exact viaCheckIrq_irq cb h.log | exact { h with }

theorem ViaIrqInv.srEvent (h : ViaIrqInv cb base via) :
    ViaIrqInv cb base (viaSrEvent cb via) := by
  unfold viaSrEvent
  dsimp only
  split_ifs <;> first | exact viaCheckIrq_irq cb h.log | exact { h with }

theorem ViaIrqInv.pulses (h : ViaIrqInv cb base via) (cycles : Nat) :
    ViaIrqInv cb base (viaPulses cycles via) := by
  unfold viaPulses
  dsimp only
  split_ifs <;> exact { h with }

/-- An underflow raises a flag, and the timer changes after that. -/
theorem ViaIrqInv.t1Cycle (h : ViaIrqInv cb base via) :
    ViaIrqInv cb base (viaT1Cycle cb via) := by
  have hcount : ViaIrqInv cb base
      { via with t1Counter := via.t1Counter - 1#16, t1Reload := true } := { h with }
  have hraise := hcount.raise viaIntT1
  unfold viaT1Cycle
  dsimp only
  split_ifs <;> first | exact { hraise with } | exact { h with }

theorem ViaIrqInv.t2Count (h : ViaIrqInv cb base via) :
    ViaIrqInv cb base (viaT2Count cb via) := by
  have hcount : ViaIrqInv cb base { via with t2Counter := via.t2Counter - 1#16 } := { h with }
  have hraise := h.raise viaIntT2
  have hraise' := hcount.raise viaIntT2
  unfold viaT2Count viaT2EightBitCycle
  dsimp only
  split_ifs <;> first | exact { hraise with } | exact { hraise' with } | exact { h with }

theorem ViaIrqInv.srT2Event (h : ViaIrqInv cb base via) :
    ViaIrqInv cb base (viaSrT2Event cb via) := by
  have hpending : ViaIrqInv cb base { via with srT2Pending := via.srT2Pending - 1#8 } :=
    { h with }
  unfold viaSrT2Event
  dsimp only
  split_ifs
  · exact hpending.srEvent
  · exact hpending
  · exact h

theorem ViaIrqInv.t2Cycle (h : ViaIrqInv cb base via) :
    ViaIrqInv cb base (viaT2Cycle cb via) := by
  have hevent := h.srT2Event
  unfold viaT2Cycle
  dsimp only
  split
  · exact { hevent with }
  · refine ViaIrqInv.t2Count ?_
    exact { hevent with }

theorem ViaIrqInv.srCycle (h : ViaIrqInv cb base via) :
    ViaIrqInv cb base (viaSrCycle cb via) := by
  unfold viaSrCycle
  split
  · exact { h with }
  · exact h.srEvent

theorem ViaIrqInv.iterate {f : ViaSys σ → ViaSys σ}
    (hf : ∀ {via}, ViaIrqInv cb base via → ViaIrqInv cb base (f via)) (n : Nat)
    (h : ViaIrqInv cb base via) : ViaIrqInv cb base (f^[n] via) := by
  induction n generalizing via with
  | zero => exact h
  | succ n ih => exact ih (hf h)

theorem ViaIrqInv.update (h : ViaIrqInv cb base via) (cycles : Nat) :
    ViaIrqInv cb base (viaUpdate cb cycles via) := by
  have ht1 : ∀ {via : ViaSys σ}, ViaIrqInv cb base via →
      ViaIrqInv cb base (viaT1Cycles cb cycles via) := by
    intro via h
    unfold viaT1Cycles
    split
    · exact ViaIrqInv.iterate ViaIrqInv.t1Cycle cycles h
    · exact h
  have hsr : ∀ {via : ViaSys σ}, ViaIrqInv cb base via →
      ViaIrqInv cb base (viaSrCycles cb cycles via) := by
    intro via h
    unfold viaSrCycles
    dsimp only
    split
    · exact ViaIrqInv.iterate ViaIrqInv.srCycle cycles h
    · exact h
  have hrun : ViaIrqInv cb base (viaRunCycles cb cycles (viaSync via)) :=
    hsr (ViaIrqInv.iterate ViaIrqInv.t2Cycle cycles (ht1 (h.sync.pulses cycles)))
  exact { hrun with }

theorem ViaIrqInv.tick (h : ViaIrqInv cb base via) : ViaIrqInv cb base (viaTick cb via) := by
  unfold viaTick
  split
  · exact { h with }
  · exact h.update 1

/-! ## Pins -/

theorem ViaIrqInv.setCa1 (h : ViaIrqInv cb base via) (state : Bool) :
    ViaIrqInv cb base (viaSetCa1 cb state via) := by
  have hpin : ViaIrqInv cb base { viaSync via with ca1Pin := state } := { h.sync with }
  unfold viaSetCa1
  dsimp only
  split
  · exact hpin
  · refine viaCheckIrq_irq cb ?_
    unfold viaLatchPa viaPaPins viaCallRead
    dsimp only
    split_ifs <;> [split; split; skip; skip] <;> exact h.sync.log

theorem ViaIrqInv.setCb1 (h : ViaIrqInv cb base via) (state : Bool) :
    ViaIrqInv cb base (viaSetCb1 cb state via) := by
  have hpin : ViaIrqInv cb base { viaSync via with cb1Pin := state } := { h.sync with }
  unfold viaSetCb1
  dsimp only
  split
  · exact hpin
  · refine viaCheckIrq_irq cb ?_
    unfold viaLatchPb viaCallRead
    dsimp only
    split_ifs <;> [split; split; skip; skip] <;> exact h.sync.log

theorem ViaIrqInv.setCa2Input (h : ViaIrqInv cb base via) (level : Bool) :
    ViaIrqInv cb base (viaSetCa2Input cb level via) := by
  have hpin : ViaIrqInv cb base { viaSync via with ca2In := level } := { h.sync with }
  unfold viaSetCa2Input
  dsimp only
  split_ifs
  · exact hpin
  · exact hpin.raise viaIntCa2
  · exact hpin

theorem ViaIrqInv.setCb2Input (h : ViaIrqInv cb base via) (level : Bool) :
    ViaIrqInv cb base (viaSetCb2Input cb level via) := by
  have hpin : ViaIrqInv cb base { viaSync via with cb2In := level } := { h.sync with }
  unfold viaSetCb2Input
  dsimp only
  split_ifs
  · exact hpin
  · exact hpin.raise viaIntCb2
  · exact hpin

theorem ViaIrqInv.shiftClock (h : ViaIrqInv cb base via) :
    ViaIrqInv cb base (viaShiftClock cb via) := by
  unfold viaShiftClock
  dsimp only
  split_ifs
  · exact h.sync
  · exact h.sync
  · exact h.sync.doShift

theorem ViaIrqInv.pb6Pulse (h : ViaIrqInv cb base via) :
    ViaIrqInv cb base (viaPb6Pulse cb via) := by
  have hwrap : ViaIrqInv cb base { viaSync via with t2Counter := 0xFFFF#16 } := { h.sync with }
  have hraise := hwrap.raise viaIntT2
  unfold viaPb6Pulse
  dsimp only
  split_ifs
  · exact h.sync
  · exact { hraise with }
  · exact hwrap
  · exact { h.sync with }

/-! ## Runs -/

/-- The step lemma: every operation but a reset. -/
theorem ViaIrqInv.apply (h : ViaIrqInv cb base via) {tick : ViaSys σ → ViaSys σ}
    (htick : ViaIrqInv cb base (tick via)) {op : ViaOp} (hop : op ≠ .reset) :
    ViaIrqInv cb base (viaApply cb tick via op).2 := by
  cases op with
  | tick => exact htick
  | update cycles => exact h.update cycles
  | read reg => exact h.sync.readReg _
  | write reg value => exact h.sync.writeReg _ value
  | setCa1 state => exact h.setCa1 state
  | setCb1 state => exact h.setCb1 state
  | setCa2Input level => exact h.setCa2Input level
  | setCb2Input level => exact h.setCb2Input level
  | triggerCa1 => exact h.sync.raise viaIntCa1
  | triggerCa2 => exact h.sync.raise viaIntCa2
  | triggerCb1 => exact (h.sync.setCb1 false).setCb1 true
  | triggerCb2 => exact h.sync.raise viaIntCb2
  | shiftClock => exact h.shiftClock
  | pb6Pulse => exact h.pb6Pulse
  | getCa2 => exact h
  | getCb2 => exact h
  | getPb7 => exact h
  | reset => exact absurd rfl hop

variable (cb)

/-- A chip just initialised or just reset. -/
def ViaOutOfReset (start : ViaSys σ) : Prop :=
  (∃ user, start = { viaInit with user := user, irqCalls := [] }) ∨
    ∃ via, ViaReachable cb via ∧ start = viaReset via

/-- The chips reached from `start` without a reset, in either build. -/
inductive ViaReaches (start : ViaSys σ) : ViaSys σ → Prop
  | refl : ViaReaches start start
  | lazy {via : ViaSys σ} (op : ViaOp) (hop : op ≠ .reset) :
      ViaReaches start via → ViaReaches start (viaApply cb (viaTick cb) via op).2
  | noLazy {via : ViaSys σ} (op : ViaOp) (hop : op ≠ .reset) :
      ViaReaches start via → ViaReaches start (viaApply cb (viaTickNoLazy cb) via op).2

/-- Every reachable chip is reached from an initialisation or a reset. -/
theorem ViaReachable.since_reset (h : ViaReachable cb via) :
    ∃ start, ViaOutOfReset cb start ∧ ViaReaches cb start via := by
  induction h with
  | init user => exact ⟨_, .inl ⟨user, rfl⟩, .refl⟩
  | @lazy via op hvia ih =>
    by_cases hop : op = .reset
    · subst hop
      exact ⟨_, .inr ⟨via, hvia, rfl⟩, .refl⟩
    · obtain ⟨start, hstart, hreach⟩ := ih
      exact ⟨start, hstart, .lazy op hop hreach⟩
  | @noLazy via op hvia ih =>
    by_cases hop : op = .reset
    · subst hop
      exact ⟨_, .inr ⟨via, hvia, rfl⟩, .refl⟩
    · obtain ⟨start, hstart, hreach⟩ := ih
      exact ⟨start, hstart, .noLazy op hop hreach⟩

theorem ViaOutOfReset.irq {start : ViaSys σ} (h : ViaOutOfReset cb start) :
    ViaIrqInv cb start.irqCalls start := by
  have hlog : ∀ {via : ViaSys σ}, via.irqLine = false → ViaIrqLog via.irqCalls via :=
    fun hline => ⟨[], by simp, List.isChain_singleton false, hline.symm⟩
  have hline : false = (0#8 &&& 0#8 &&& viaIerMask != 0#8) := by decide
  have hany : (0#8).getLsbD 7 = false := by decide
  rcases h with ⟨user, rfl⟩ | ⟨via, -, rfl⟩
  · exact ⟨hline, hany, fun _ => hlog rfl⟩
  · exact ⟨hline, hany, fun _ => hlog rfl⟩

theorem ViaReaches.irq {start : ViaSys σ} (hstart : ViaOutOfReset cb start)
    (h : ViaReaches cb start via) : ViaIrqInv cb start.irqCalls via := by
  induction h with
  | refl => exact hstart.irq
  | lazy op hop _ ih => exact ih.apply ih.tick hop
  | noLazy op hop _ ih => exact ih.apply (ih.update 1) hop

/-- In every chip reached from an initialisation or a reset, the line and bit 7 of the IFR are
the enabled flags', and the calls made since alternate and end at the line. -/
theorem via_irqLine_follows_flags {start : ViaSys σ} (hstart : ViaOutOfReset cb start)
    (h : ViaReaches cb start via) (hcall : cb.irqCallback.isSome = true) :
    (via.irqLine = true ↔ via.ifr &&& via.ier &&& 0x7F#8 ≠ 0#8) ∧
      via.ifr.getLsbD 7 = via.irqLine ∧
      ∃ calls, via.irqCalls = start.irqCalls ++ calls ∧
        List.IsChain (· ≠ ·) (false :: calls) ∧ calls.getLastD false = via.irqLine := by
  have hirq := ViaReaches.irq cb hstart h
  refine ⟨?_, hirq.any, hirq.log hcall⟩
  rw [hirq.line]
  simp

/-- CA1's interrupt, enabled and raised. -/
def viaSampleIrq : List ViaOp := [.write 0x0E#8 0x82#8, .triggerCa1]

def viaSampleCallbacks : ViaCallbacks Unit := ⟨none, none, none, none, some fun _ _ _ => ()⟩

def viaSampleStart : ViaSys Unit := { viaInit with user := (), irqCalls := [] }

def viaSampleRun (ops : List ViaOp) : ViaSys Unit :=
  ops.foldl (fun via op => (viaApply viaSampleCallbacks (viaTick viaSampleCallbacks) via op).2)
    viaSampleStart

theorem via_irqLine_follows_flags_ca1 :
    let via := viaSampleRun viaSampleIrq
    (via.irqLine = true ↔ via.ifr &&& via.ier &&& 0x7F#8 ≠ 0#8) ∧
      via.ifr.getLsbD 7 = via.irqLine ∧
      ∃ calls, via.irqCalls = viaSampleStart.irqCalls ++ calls ∧
        List.IsChain (· ≠ ·) (false :: calls) ∧ calls.getLastD false = via.irqLine :=
  via_irqLine_follows_flags viaSampleCallbacks (.inl ⟨(), rfl⟩)
    (.lazy .triggerCa1 nofun (.lazy (.write 0x0E#8 0x82#8) nofun .refl)) rfl

/-- A reset drops the line without a call: the last value passed is then not the line. -/
theorem viaReset_drops_line_silently :
    ¬∀ (σ : Type) (cb : ViaCallbacks σ) (via : ViaSys σ) (op : ViaOp),
      ViaReachable cb via → cb.irqCallback.isSome = true → op ≠ .reset →
      let via' := (viaApply cb (viaTick cb) via op).2
      (via'.irqLine = true ↔ via'.ifr &&& via'.ier &&& 0x7F#8 ≠ 0#8) ∧
        via'.ifr.getLsbD 7 = via'.irqLine ∧
        List.IsChain (· ≠ ·) via'.irqCalls ∧ via'.irqCalls.getLastD false = via'.irqLine := by
  intro hall
  have hreach : ViaReachable viaSampleCallbacks (viaSampleRun (viaSampleIrq ++ [.reset])) :=
    .lazy .reset (.lazy .triggerCa1 (.lazy (.write 0x0E#8 0x82#8) (.init ())))
  have hlast := (hall Unit viaSampleCallbacks _ .tick hreach rfl nofun).2.2.2
  exact absurd hlast (by decide)

end Phosphoric
