import Phosphoric.Via.Irq
import Mathlib.Logic.Function.Iterate

/-!
# Splitting a batch of cycles

**Theorem (`viaUpdate_add`).** Updating a reachable chip by `a + b` cycles is updating it by `a`
and then by `b`: the same chip, the same calls of `irq_callback`, and the same effect of these
calls if the callback does not read the chip.

`viaUpdate` runs one loop for Timer 1, one for Timer 2 and one for the shift register, so a split
reorders their cycles. The chip is compared first, without its callbacks: there one cycle of a
loop commutes with one cycle of each other loop. Timer 1 shares only the flags with the others,
and raising flags commutes (`Via6522.raise_comm`). Timer 2 and the shift register both move the
sequence, but under φ2 by the same event.

The calls come after: an update never drops the line, so it makes at most one call, which the
line before and the line after tell (`ViaRises`).
-/

namespace Phosphoric

open Function

variable {σ : Type} (cb : ViaCallbacks σ)

/-! ## The chip alone -/

namespace Via6522

/-- `viaCheckIrq`, without the call. -/
def checkIrq (via : Via6522) : Via6522 :=
  let irq := (via.ifr &&& via.ier &&& viaIerMask) != 0#8
  { via with
    ifr := if irq then via.ifr ||| viaIntAny else via.ifr &&& ~~~viaIntAny
    irqLine := irq }

def raise (flag : Byte) (via : Via6522) : Via6522 :=
  checkIrq { via with ifr := via.ifr ||| flag }

/-- The register after one half-period. -/
def srShifted (via : Via6522) : Byte :=
  if via.srCount &&& 1#8 == 0#8 then
    if via.acr &&& 0x1C#8 &&& 0x10#8 != 0#8 then
      (via.sr <<< 1) ||| (if via.sr &&& 0x80#8 != 0#8 then 1#8 else 0#8)
    else via.sr
  else if via.acr &&& 0x1C#8 &&& 0x10#8 != 0#8 then via.sr
  else (via.sr <<< 1) ||| (if via.cb2In then 1#8 else 0#8)

/-- CB2 after one half-period. -/
def cb2Shifted (via : Via6522) : Bool :=
  if via.srCount &&& 1#8 == 0#8 && via.acr &&& 0x1C#8 &&& 0x10#8 != 0#8 then
    via.sr &&& 0x80#8 != 0#8
  else via.cb2Pin

def srEvent (via : Via6522) : Via6522 :=
  if via.acr &&& 0x1C#8 == 0#8 || !via.srActive then via
  else if via.srCount + 1#8 ≥ 16#8 then
    if via.acr &&& 0x1C#8 != 0x10#8 then
      raise viaIntSr { via with
        sr := via.srShifted, cb2Pin := via.cb2Shifted, srCount := 0#8, srActive := false }
    else { via with sr := via.srShifted, cb2Pin := via.cb2Shifted, srCount := 0#8 }
  else { via with sr := via.srShifted, cb2Pin := via.cb2Shifted, srCount := via.srCount + 1#8 }

/-- The parts of Timer 1. -/
def setT1 (counter : Word) (reload running pb7 : Bool) (via : Via6522) : Via6522 :=
  { via with t1Counter := counter, t1Reload := reload, t1Running := running, pb7Pin := pb7 }

def t1Cycle (via : Via6522) : Via6522 :=
  if via.t1Reload then via.setT1 via.t1Latch false via.t1Running via.pb7Pin
  else if via.t1Counter == 0x0000#16 then
    if via.t1Running then
      let running := if via.acr &&& 0x40#8 == 0#8 then false else via.t1Running
      raise viaIntT1 (via.setT1 (via.t1Counter - 1#16) true running (!via.pb7Pin))
    else via.setT1 (via.t1Counter - 1#16) true via.t1Running via.pb7Pin
  else via.setT1 (via.t1Counter - 1#16) via.t1Reload via.t1Running via.pb7Pin

def srT2Event (via : Via6522) : Via6522 :=
  if via.srT2Pending != 0#8 then
    if via.srT2Pending - 1#8 == 0#8 then srEvent { via with srT2Pending := via.srT2Pending - 1#8 }
    else { via with srT2Pending := via.srT2Pending - 1#8 }
  else via

/-- One countdown of Timer 2: the next counter, and what the underflow does. -/
def t2Count (via : Via6522) : Via6522 :=
  if viaT2EightBit via then
    if via.t2Reload then
      { via with t2Counter := Word.setLo via.t2Counter via.t2Latch, t2Reload := false }
    else
      let hi := Word.hi via.t2Counter
      let lo := Word.lo via.t2Counter
      if lo == 0#8 then
        if hi == 0#8 && via.t2Running then
          raise viaIntT2 { via with
            t2Running := false, t2Reload := true, srT2Pending := 2#8,
            t2Counter := Word.mk (hi - 1#8) (lo - 1#8) }
        else
          { via with
            t2Reload := true, srT2Pending := 2#8, t2Counter := Word.mk (hi - 1#8) (lo - 1#8) }
      else { via with t2Counter := Word.mk hi (lo - 1#8) }
  else if via.t2Counter == 0x0000#16 && via.t2Running then
    raise viaIntT2 { via with t2Counter := via.t2Counter - 1#16, t2Running := false }
  else { via with t2Counter := via.t2Counter - 1#16 }

/-- The rest of a cycle of Timer 2, once the event left is done. -/
def t2Step (via : Via6522) : Via6522 :=
  let phi2 := via.acr &&& 0x20#8 == 0#8
  if !via.t2Active || !via.t2Phi2 || via.t2Hold then { via with t2Phi2 := phi2, t2Hold := false }
  else t2Count { via with t2Phi2 := phi2, t2Hold := false }

def t2Cycle (via : Via6522) : Via6522 := via.srT2Event.t2Step

def srCycle (via : Via6522) : Via6522 :=
  if via.srDelay != 0#8 then { via with srDelay := via.srDelay - 1#8 } else srEvent via

end Via6522

theorem toVia6522_viaCheckIrq (via : ViaSys σ) :
    (viaCheckIrq cb via).toVia6522 = via.toVia6522.checkIrq := by
  unfold viaCheckIrq Via6522.checkIrq
  dsimp only
  split
  · cases cb.irqCallback <;> rfl
  · rename_i heq
    have heq' : (via.ifr &&& via.ier &&& viaIerMask != 0#8) = via.irqLine := by simpa using heq
    rw [heq']

theorem toVia6522_viaRaise (flag : Byte) (via : ViaSys σ) :
    (viaRaise cb flag via).toVia6522 = via.toVia6522.raise flag :=
  toVia6522_viaCheckIrq cb _

theorem toVia6522_viaSrEvent (via : ViaSys σ) :
    (viaSrEvent cb via).toVia6522 = via.toVia6522.srEvent := by
  unfold viaSrEvent Via6522.srEvent Via6522.srShifted Via6522.cb2Shifted
  dsimp only
  by_cases hidle : (via.acr &&& 0x1C#8 == 0#8 || !via.srActive) = true
  · rw [if_pos hidle, if_pos hidle]
  · rw [if_neg hidle, if_neg hidle]
    by_cases hout : (via.acr &&& 0x1C#8 &&& 0x10#8 != 0#8) = true <;>
      by_cases heven : (via.srCount &&& 1#8 == 0#8) = true <;>
      simp only [hout, heven, if_true, if_false, Bool.not_true, Bool.not_false, Bool.and_self,
        Bool.and_true, Bool.and_false, Bool.false_eq_true] <;>
      split_ifs <;> first | rfl | exact toVia6522_viaCheckIrq cb _

theorem toVia6522_viaT1Cycle (via : ViaSys σ) :
    (viaT1Cycle cb via).toVia6522 = via.toVia6522.t1Cycle := by
  have hraise := toVia6522_viaRaise cb viaIntT1
    { via with t1Counter := via.t1Counter - 1#16, t1Reload := true }
  unfold viaT1Cycle Via6522.t1Cycle
  dsimp only
  by_cases hreload : via.t1Reload = true
  · rw [if_pos hreload, if_pos hreload]
    rfl
  rw [if_neg hreload, if_neg hreload]
  by_cases hunder : (via.t1Counter == 0x0000#16) = true
  · rw [if_pos hunder, if_neg (by simpa using hunder)]
    by_cases hrun : via.t1Running = true
    · rw [if_pos hrun, if_neg (by simpa using hrun)]
      generalize viaRaise cb viaIntT1
        { via with t1Counter := via.t1Counter - 1#16, t1Reload := true } = raised at hraise ⊢
      have hacr : raised.acr = via.acr := by rw [hraise]; rfl
      rw [hacr]
      split_ifs with hshot
      · dsimp only; rw [hraise]; rfl
      · dsimp only; rw [hraise]; rfl
    · rw [if_neg hrun, if_pos (by simpa using hrun)]
      rfl
  · rw [if_neg hunder, if_pos (by simpa using hunder)]
    rfl

theorem toVia6522_viaSrT2Event (via : ViaSys σ) :
    (viaSrT2Event cb via).toVia6522 = via.toVia6522.srT2Event := by
  unfold viaSrT2Event Via6522.srT2Event
  dsimp only
  split_ifs <;> first | rfl | exact toVia6522_viaSrEvent cb _

theorem toVia6522_viaT2Count (via : ViaSys σ) :
    (viaT2Count cb via).toVia6522 = via.toVia6522.t2Count := by
  unfold viaT2Count viaT2EightBitCycle Via6522.t2Count
  dsimp only
  by_cases height : viaT2EightBit via.toVia6522 = true
  · rw [if_pos height, if_pos height]
    split_ifs with hreload hlo hfires
    · rfl
    · have hraise := toVia6522_viaRaise cb viaIntT2 via
      generalize viaRaise cb viaIntT2 via = raised at hraise ⊢
      dsimp only; rw [hraise]; rfl
    · rfl
    · rfl
  · rw [if_neg height, if_neg height]
    have hraise := toVia6522_viaRaise cb viaIntT2 { via with t2Counter := via.t2Counter - 1#16 }
    generalize viaRaise cb viaIntT2 { via with t2Counter := via.t2Counter - 1#16 } = raised
      at hraise ⊢
    by_cases hunder : (via.t2Counter == 0x0000#16) = true <;> by_cases hrun : via.t2Running = true
    · rw [if_neg (by simpa using hunder), if_neg (by simpa using hrun),
        if_pos (by simp [hunder, hrun])]
      dsimp only; rw [hraise]; rfl
    · rw [if_neg (by simpa using hunder), if_pos (by simpa using hrun), if_neg (by simp [hrun])]
    · rw [if_pos (by simpa using hunder), if_neg (by simp_all)]
    · rw [if_pos (by simpa using hunder), if_neg (by simp_all)]

theorem toVia6522_viaT2Cycle (via : ViaSys σ) :
    (viaT2Cycle cb via).toVia6522 = via.toVia6522.t2Cycle := by
  have hevent := toVia6522_viaSrT2Event cb via
  unfold viaT2Cycle Via6522.t2Cycle Via6522.t2Step
  generalize viaSrT2Event cb via = next at hevent ⊢
  rw [← hevent]
  dsimp only
  split_ifs
  · rfl
  · exact toVia6522_viaT2Count cb _

theorem toVia6522_viaSrCycle (via : ViaSys σ) :
    (viaSrCycle cb via).toVia6522 = via.toVia6522.srCycle := by
  unfold viaSrCycle Via6522.srCycle
  split_ifs
  · rfl
  · exact toVia6522_viaSrEvent cb _

/-! ## What commutes -/

namespace Via6522

theorem checkIrq_eq (via : Via6522) :
    via.checkIrq =
      { via with
        ifr := (via.ifr &&& viaIerMask) |||
          (if via.ifr &&& viaIerMask &&& via.ier != 0#8 then viaIntAny else 0#8)
        irqLine := via.ifr &&& viaIerMask &&& via.ier != 0#8 } := by
  have hmask : via.ifr &&& via.ier &&& viaIerMask = via.ifr &&& viaIerMask &&& via.ier := by
    rw [BitVec.and_assoc, BitVec.and_comm via.ier, BitVec.and_assoc]
  have hset : ∀ b : Byte, b ||| viaIntAny = (b &&& viaIerMask) ||| viaIntAny := by decide
  have hclear : ∀ b : Byte, b &&& ~~~viaIntAny = (b &&& viaIerMask) ||| 0#8 := by decide
  unfold checkIrq
  dsimp only
  rw [hmask]
  split_ifs with hirq
  · rw [hset]
  · rw [hclear]

theorem raise_raise (f g : Byte) (via : Via6522) :
    (via.raise f).raise g = via.raise (f ||| g) := by
  have hany : ∀ b : Byte, (b &&& viaIerMask ||| viaIntAny) &&& viaIerMask = b &&& viaIerMask := by
    decide
  have hnone : ∀ b : Byte, (b &&& viaIerMask ||| 0#8) &&& viaIerMask = b &&& viaIerMask := by
    decide
  have hmask : ∀ (b : Byte) (irq : Prop) [Decidable irq],
      ((b &&& viaIerMask ||| if irq then viaIntAny else 0#8) ||| g) &&& viaIerMask =
        (b ||| g) &&& viaIerMask := by
    intro b irq hdec
    rw [BitVec.and_comm, BitVec.and_or_distrib_left, BitVec.and_comm, BitVec.and_comm (b ||| g),
      BitVec.and_or_distrib_left, BitVec.and_comm _ b]
    split_ifs
    · rw [hany]
    · rw [hnone]
  unfold raise
  rw [checkIrq_eq, checkIrq_eq, checkIrq_eq]
  dsimp only
  rw [hmask, BitVec.or_assoc]

theorem raise_comm (f g : Byte) (via : Via6522) :
    (via.raise f).raise g = (via.raise g).raise f := by
  rw [raise_raise, raise_raise, BitVec.or_comm]

theorem srEvent_raise (flag : Byte) (via : Via6522) :
    (via.raise flag).srEvent = via.srEvent.raise flag := by
  have hevent : (via.raise flag).srEvent =
      if via.acr &&& 0x1C#8 == 0#8 || !via.srActive then via.raise flag
      else if via.srCount + 1#8 ≥ 16#8 then
        if via.acr &&& 0x1C#8 != 0x10#8 then
          raise viaIntSr (raise flag { via with
            sr := via.srShifted, cb2Pin := via.cb2Shifted, srCount := 0#8, srActive := false })
        else raise flag { via with sr := via.srShifted, cb2Pin := via.cb2Shifted, srCount := 0#8 }
      else raise flag
        { via with
          sr := via.srShifted, cb2Pin := via.cb2Shifted, srCount := via.srCount + 1#8 } := rfl
  rw [hevent]
  unfold srEvent
  split_ifs
  · rfl
  · exact raise_comm flag viaIntSr _
  · rfl
  · rfl

theorem srCycle_raise (flag : Byte) (via : Via6522) :
    (via.raise flag).srCycle = via.srCycle.raise flag := by
  have hcycle : (via.raise flag).srCycle =
      if via.srDelay != 0#8 then raise flag { via with srDelay := via.srDelay - 1#8 }
      else (via.raise flag).srEvent := rfl
  rw [hcycle, srEvent_raise]
  unfold srCycle
  split_ifs <;> rfl

theorem srT2Event_raise (flag : Byte) (via : Via6522) :
    (via.raise flag).srT2Event = via.srT2Event.raise flag := by
  have hevent : (via.raise flag).srT2Event =
      if via.srT2Pending != 0#8 then
        if via.srT2Pending - 1#8 == 0#8 then
          srEvent (raise flag { via with srT2Pending := via.srT2Pending - 1#8 })
        else raise flag { via with srT2Pending := via.srT2Pending - 1#8 }
      else via.raise flag := rfl
  rw [hevent, srEvent_raise]
  unfold srT2Event
  split_ifs <;> rfl

theorem t2Count_raise (flag : Byte) (via : Via6522) :
    (via.raise flag).t2Count = via.t2Count.raise flag := by
  have hcount : (via.raise flag).t2Count =
      if viaT2EightBit via then
        if via.t2Reload then
          raise flag
            { via with t2Counter := Word.setLo via.t2Counter via.t2Latch, t2Reload := false }
        else if Word.lo via.t2Counter == 0#8 then
          if Word.hi via.t2Counter == 0#8 && via.t2Running then
            raise viaIntT2 (raise flag { via with
              t2Running := false, t2Reload := true, srT2Pending := 2#8,
              t2Counter := Word.mk (Word.hi via.t2Counter - 1#8) (Word.lo via.t2Counter - 1#8) })
          else
            raise flag { via with
              t2Reload := true, srT2Pending := 2#8,
              t2Counter := Word.mk (Word.hi via.t2Counter - 1#8) (Word.lo via.t2Counter - 1#8) }
        else
          raise flag
            { via with t2Counter := Word.mk (Word.hi via.t2Counter) (Word.lo via.t2Counter - 1#8) }
      else if via.t2Counter == 0x0000#16 && via.t2Running then
        raise viaIntT2
          (raise flag { via with t2Counter := via.t2Counter - 1#16, t2Running := false })
      else raise flag { via with t2Counter := via.t2Counter - 1#16 } := rfl
  rw [hcount]
  unfold t2Count
  dsimp only
  split_ifs <;> first | rfl | exact raise_comm flag viaIntT2 _

theorem t2Step_raise (flag : Byte) (via : Via6522) :
    (via.raise flag).t2Step = via.t2Step.raise flag := by
  have hstep : (via.raise flag).t2Step =
      if !via.t2Active || !via.t2Phi2 || via.t2Hold then
        raise flag { via with t2Phi2 := via.acr &&& 0x20#8 == 0#8, t2Hold := false }
      else
        t2Count (raise flag { via with t2Phi2 := via.acr &&& 0x20#8 == 0#8, t2Hold := false }) :=
    rfl
  rw [hstep, t2Count_raise]
  unfold t2Step
  split_ifs <;> rfl

/-! Timer 1 and the rest. -/

/-- What no cycle changes, and chooses what one does. -/
def settings (via : Via6522) : Byte × Word × Bool × Bool × Int × Int :=
  (via.acr, via.t1Latch, via.t1Active, via.t2Active, via.ca2Pulse, via.cb2Pulse)

theorem srEvent_setT1 (c : Word) (r run p : Bool) (via : Via6522) :
    (via.setT1 c r run p).srEvent = via.srEvent.setT1 c r run p := by
  unfold srEvent setT1 srShifted cb2Shifted
  dsimp only
  split_ifs <;> rfl

theorem srCycle_setT1 (c : Word) (r run p : Bool) (via : Via6522) :
    (via.setT1 c r run p).srCycle = via.srCycle.setT1 c r run p := by
  have hcycle : (via.setT1 c r run p).srCycle =
      if via.srDelay != 0#8 then setT1 c r run p { via with srDelay := via.srDelay - 1#8 }
      else (via.setT1 c r run p).srEvent := rfl
  rw [hcycle, srEvent_setT1]
  unfold srCycle
  split_ifs <;> rfl

theorem t2Count_setT1 (c : Word) (r run p : Bool) (via : Via6522) :
    (via.setT1 c r run p).t2Count = via.t2Count.setT1 c r run p := by
  unfold t2Count viaT2EightBit setT1
  dsimp only
  split_ifs <;> rfl

theorem srT2Event_setT1 (c : Word) (r run p : Bool) (via : Via6522) :
    (via.setT1 c r run p).srT2Event = via.srT2Event.setT1 c r run p := by
  have hevent : (via.setT1 c r run p).srT2Event =
      if via.srT2Pending != 0#8 then
        if via.srT2Pending - 1#8 == 0#8 then
          srEvent (setT1 c r run p { via with srT2Pending := via.srT2Pending - 1#8 })
        else setT1 c r run p { via with srT2Pending := via.srT2Pending - 1#8 }
      else via.setT1 c r run p := rfl
  rw [hevent, srEvent_setT1]
  unfold srT2Event
  split_ifs <;> rfl

theorem t2Step_setT1 (c : Word) (r run p : Bool) (via : Via6522) :
    (via.setT1 c r run p).t2Step = via.t2Step.setT1 c r run p := by
  have hstep : (via.setT1 c r run p).t2Step =
      if !via.t2Active || !via.t2Phi2 || via.t2Hold then
        setT1 c r run p { via with t2Phi2 := via.acr &&& 0x20#8 == 0#8, t2Hold := false }
      else
        t2Count
          (setT1 c r run p { via with t2Phi2 := via.acr &&& 0x20#8 == 0#8, t2Hold := false }) :=
    rfl
  rw [hstep, t2Count_setT1]
  unfold t2Step
  split_ifs <;> rfl

theorem settings_srEvent (via : Via6522) : via.srEvent.settings = via.settings := by
  unfold srEvent
  split_ifs <;> rfl

theorem settings_srCycle (via : Via6522) : via.srCycle.settings = via.settings := by
  unfold srCycle
  split_ifs
  · rfl
  · exact settings_srEvent via

theorem settings_srT2Event (via : Via6522) : via.srT2Event.settings = via.settings := by
  unfold srT2Event
  split_ifs
  · exact settings_srEvent _
  · rfl
  · rfl

theorem settings_t1Cycle (via : Via6522) : via.t1Cycle.settings = via.settings := by
  unfold t1Cycle
  split_ifs <;> rfl

theorem settings_t2Step (via : Via6522) : via.t2Step.settings = via.settings := by
  have hcount : ∀ via : Via6522, via.t2Count.settings = via.settings := by
    intro via
    unfold t2Count
    dsimp only
    split_ifs <;> rfl
  unfold t2Step
  dsimp only
  split_ifs
  · rfl
  · exact hcount _

/-- A cycle that leaves Timer 1 alone commutes with one of Timer 1. -/
theorem t1Cycle_comm {g : Via6522 → Via6522}
    (hset : ∀ c r run p via, g (setT1 c r run p via) = setT1 c r run p (g via))
    (hraise : ∀ flag via, g (raise flag via) = raise flag (g via))
    (hsettings : ∀ via, (g via).settings = via.settings) : Function.Commute g t1Cycle := by
  intro via
  have hparts : g via = setT1 via.t1Counter via.t1Reload via.t1Running via.pb7Pin (g via) :=
    hset _ _ _ _ via
  have hcounter : (g via).t1Counter = via.t1Counter := by
    have h := congrArg Via6522.t1Counter hparts
    exact h
  have hreload : (g via).t1Reload = via.t1Reload := by
    have h := congrArg Via6522.t1Reload hparts
    exact h
  have hrunning : (g via).t1Running = via.t1Running := by
    have h := congrArg Via6522.t1Running hparts
    exact h
  have hpb7 : (g via).pb7Pin = via.pb7Pin := by
    have h := congrArg Via6522.pb7Pin hparts
    exact h
  have hacr : (g via).acr = via.acr := congrArg (·.1) (hsettings via)
  have hlatch : (g via).t1Latch = via.t1Latch := congrArg (·.2.1) (hsettings via)
  unfold t1Cycle
  rw [hreload, hcounter, hrunning, hpb7, hacr, hlatch]
  split_ifs
  · exact hset ..
  · exact (hraise ..).trans (congrArg (raise viaIntT1) (hset ..))
  · exact (hraise ..).trans (congrArg (raise viaIntT1) (hset ..))
  · exact hset ..
  · exact hset ..

/-! Timer 2 and the shift register, under φ2. -/

/-- The parts of Timer 2. -/
def setT2 (counter : Word) (running phi2 hold : Bool) (via : Via6522) : Via6522 :=
  { via with t2Counter := counter, t2Running := running, t2Phi2 := phi2, t2Hold := hold }

/-- The delays of the events. -/
def setDelays (pending delay : Byte) (via : Via6522) : Via6522 :=
  { via with srT2Pending := pending, srDelay := delay }

theorem srEvent_setT2 (c : Word) (run phi2 hold : Bool) (via : Via6522) :
    (via.setT2 c run phi2 hold).srEvent = via.srEvent.setT2 c run phi2 hold := by
  unfold srEvent setT2 srShifted cb2Shifted
  dsimp only
  split_ifs <;> rfl

theorem srCycle_setT2 (c : Word) (run phi2 hold : Bool) (via : Via6522) :
    (via.setT2 c run phi2 hold).srCycle = via.srCycle.setT2 c run phi2 hold := by
  have hcycle : (via.setT2 c run phi2 hold).srCycle =
      if via.srDelay != 0#8 then setT2 c run phi2 hold { via with srDelay := via.srDelay - 1#8 }
      else (via.setT2 c run phi2 hold).srEvent := rfl
  rw [hcycle, srEvent_setT2]
  unfold srCycle
  split_ifs <;> rfl

theorem srEvent_setDelays (p d : Byte) (via : Via6522) :
    (via.setDelays p d).srEvent = via.srEvent.setDelays p d := by
  unfold srEvent setDelays srShifted cb2Shifted
  dsimp only
  split_ifs <;> rfl

theorem t2Step_eq {via : Via6522} (height : viaT2EightBit via = false) :
    via.t2Step =
      if !via.t2Active || !via.t2Phi2 || via.t2Hold then
        via.setT2 via.t2Counter via.t2Running (via.acr &&& 0x20#8 == 0#8) false
      else if via.t2Counter == 0x0000#16 && via.t2Running then
        raise viaIntT2 (via.setT2 (via.t2Counter - 1#16) false (via.acr &&& 0x20#8 == 0#8) false)
      else
        via.setT2 (via.t2Counter - 1#16) via.t2Running (via.acr &&& 0x20#8 == 0#8) false := by
  have hcount : t2Count { via with t2Phi2 := via.acr &&& 0x20#8 == 0#8, t2Hold := false } =
      if viaT2EightBit via then _ else _ := rfl
  rw [if_neg (by simp [height])] at hcount
  unfold t2Step
  dsimp only
  rw [hcount]
  rfl

theorem srCycle_t2Step {via : Via6522} (height : viaT2EightBit via = false) :
    via.t2Step.srCycle = via.srCycle.t2Step := by
  have hparts : via.srCycle =
      setT2 via.t2Counter via.t2Running via.t2Phi2 via.t2Hold via.srCycle :=
    srCycle_setT2 _ _ _ _ via
  have hcounter : via.srCycle.t2Counter = via.t2Counter := by
    have h := congrArg Via6522.t2Counter hparts
    exact h
  have hrunning : via.srCycle.t2Running = via.t2Running := by
    have h := congrArg Via6522.t2Running hparts
    exact h
  have hphi2 : via.srCycle.t2Phi2 = via.t2Phi2 := by
    have h := congrArg Via6522.t2Phi2 hparts
    exact h
  have hhold : via.srCycle.t2Hold = via.t2Hold := by
    have h := congrArg Via6522.t2Hold hparts
    exact h
  have hacr : via.srCycle.acr = via.acr := congrArg (·.1) (settings_srCycle via)
  have hactive : via.srCycle.t2Active = via.t2Active :=
    congrArg (·.2.2.2.1) (settings_srCycle via)
  have height' : viaT2EightBit via.srCycle = false := by
    unfold viaT2EightBit at height ⊢
    rw [hacr]
    exact height
  rw [t2Step_eq height, t2Step_eq height', hcounter, hrunning, hphi2, hhold, hacr, hactive]
  split_ifs
  · exact srCycle_setT2 ..
  · exact (srCycle_raise ..).trans (congrArg (raise viaIntT2) (srCycle_setT2 ..))
  · exact srCycle_setT2 ..

/-- The event Timer 2 left and those of φ2 are the same one. -/
theorem srCycle_srT2Event (via : Via6522) : via.srT2Event.srCycle = via.srCycle.srT2Event := by
  have hparts : ∀ via : Via6522,
      via.srEvent = setDelays via.srT2Pending via.srDelay via.srEvent :=
    fun via => srEvent_setDelays via.srT2Pending via.srDelay via
  have hpending : ∀ via : Via6522, via.srEvent.srT2Pending = via.srT2Pending := by
    intro via
    have h := congrArg Via6522.srT2Pending (hparts via)
    exact h
  have hdelay : ∀ via : Via6522, via.srEvent.srDelay = via.srDelay := by
    intro via
    have h := congrArg Via6522.srDelay (hparts via)
    exact h
  have hcycle : ∀ via : Via6522, via.srCycle =
      if via.srDelay != 0#8 then via.setDelays via.srT2Pending (via.srDelay - 1#8)
      else via.srEvent := fun _ => rfl
  have hevent : ∀ via : Via6522, via.srT2Event =
      if via.srT2Pending != 0#8 then
        if via.srT2Pending - 1#8 == 0#8 then
          srEvent (via.setDelays (via.srT2Pending - 1#8) via.srDelay)
        else via.setDelays (via.srT2Pending - 1#8) via.srDelay
      else via := fun _ => rfl
  have hset : ∀ (p d : Byte) (via : Via6522),
      (via.setDelays p d).srT2Pending = p ∧ (via.setDelays p d).srDelay = d ∧
        ∀ p' d' : Byte, (via.setDelays p d).setDelays p' d' = via.setDelays p' d' :=
    fun _ _ _ => ⟨rfl, rfl, fun _ _ => rfl⟩
  by_cases hd : (via.srDelay != 0#8) = true <;> by_cases hp : (via.srT2Pending != 0#8) = true <;>
    by_cases hlast : (via.srT2Pending - 1#8 == 0#8) = true <;>
    simp only [hevent, hcycle, hset, hd, hp, hlast, hpending, hdelay, srEvent_setDelays, if_true,
      if_false, Bool.false_eq_true]

/-! The loops. -/

/-- A cycle run only under a setting. -/
def gate (runs : Via6522 → Bool) (cycle : Via6522 → Via6522) (via : Via6522) : Via6522 :=
  if runs via then cycle via else via

theorem gate_iterate {runs : Via6522 → Bool} {cycle : Via6522 → Via6522}
    (hruns : ∀ via, runs (cycle via) = runs via) (n : Nat) (via : Via6522) :
    (gate runs cycle)^[n] via = if runs via then cycle^[n] via else via := by
  induction n generalizing via with
  | zero => exact (ite_self _).symm
  | succ n ih =>
    rw [iterate_succ_apply, ih, gate]
    by_cases h : runs via = true
    · rw [if_pos h, hruns, if_pos h, if_pos h, iterate_succ_apply]
    · rw [if_neg h, if_neg h, if_neg h]

theorem gate_comm {runs : Via6522 → Bool} {cycle g : Via6522 → Via6522}
    (hruns : ∀ via, runs (g via) = runs via)
    (hcomm : ∀ via, runs via = true → g (cycle via) = cycle (g via)) :
    Function.Commute g (gate runs cycle) := by
  intro via
  unfold gate
  rw [hruns]
  split_ifs with h
  · exact hcomm via h
  · rfl

def t1Loop : Via6522 → Via6522 := gate t1Active t1Cycle

def srPhi2 (via : Via6522) : Bool :=
  via.acr &&& 0x1C#8 == 0x08#8 || via.acr &&& 0x1C#8 == 0x18#8

def srLoop : Via6522 → Via6522 := gate srPhi2 srCycle

theorem settings_t2Cycle (via : Via6522) : via.t2Cycle.settings = via.settings :=
  (settings_t2Step _).trans (settings_srT2Event via)

theorem settings_gate {runs : Via6522 → Bool} {cycle : Via6522 → Via6522}
    (h : ∀ via, (cycle via).settings = via.settings) (via : Via6522) :
    (gate runs cycle via).settings = via.settings := by
  unfold gate
  split_ifs
  · exact h via
  · rfl

theorem t1Active_of_settings {via via' : Via6522} (h : via'.settings = via.settings) :
    via'.t1Active = via.t1Active := congrArg (·.2.2.1) h

theorem srPhi2_of_settings {via via' : Via6522} (h : via'.settings = via.settings) :
    via'.srPhi2 = via.srPhi2 := by
  have hacr : via'.acr = via.acr := congrArg (·.1) h
  unfold srPhi2
  rw [hacr]

theorem t2Cycle_t1Loop : Function.Commute t2Cycle t1Loop := by
  refine gate_comm (fun via => t1Active_of_settings (settings_t2Cycle via)) fun via _ => ?_
  refine t1Cycle_comm (fun c r run p via => ?_) (fun flag via => ?_) settings_t2Cycle via
  · unfold t2Cycle
    rw [srT2Event_setT1, t2Step_setT1]
  · unfold t2Cycle
    rw [srT2Event_raise, t2Step_raise]

theorem srLoop_t1Loop : Function.Commute srLoop t1Loop := by
  have hcycle : Function.Commute srCycle t1Cycle :=
    t1Cycle_comm srCycle_setT1 srCycle_raise settings_srCycle
  have hloop : Function.Commute t1Cycle srLoop :=
    gate_comm (fun via => srPhi2_of_settings (settings_t1Cycle via)) fun via _ =>
      (hcycle via).symm
  exact gate_comm (fun via => t1Active_of_settings (settings_gate settings_srCycle via))
    fun via _ => (hloop via).symm

theorem t2Cycle_srLoop : Function.Commute t2Cycle srLoop := by
  refine gate_comm (fun via => srPhi2_of_settings (settings_t2Cycle via)) fun via hphi2 => ?_
  have height : viaT2EightBit via.srT2Event = false := by
    have hacr : via.srT2Event.acr = via.acr := congrArg (·.1) (settings_srT2Event via)
    unfold viaT2EightBit
    unfold srPhi2 at hphi2
    dsimp only
    rw [hacr]
    revert hphi2
    generalize via.acr = acr
    revert acr
    decide
  unfold t2Cycle
  rw [← srCycle_srT2Event, srCycle_t2Step height]

/-- The three loops over `a + b` cycles, split. -/
theorem loops_add (a b : Nat) (via : Via6522) :
    srLoop^[b] (t2Cycle^[b] (t1Loop^[b] (srLoop^[a] (t2Cycle^[a] (t1Loop^[a] via))))) =
      srLoop^[a + b] (t2Cycle^[a + b] (t1Loop^[a + b] via)) := by
  have ht1 := (srLoop_t1Loop.iterate_iterate a b) (t2Cycle^[a] (t1Loop^[a] via))
  have ht1' := (t2Cycle_t1Loop.iterate_iterate a b) (t1Loop^[a] via)
  have ht2 := (t2Cycle_srLoop.iterate_iterate b a) (t2Cycle^[a] (t1Loop^[b] (t1Loop^[a] via)))
  rw [← ht1, ← ht1', ht2, ← iterate_add_apply, ← iterate_add_apply, ← iterate_add_apply,
    Nat.add_comm b a]

end Via6522

/-- The chip after the loops of `viaRunCycles`. -/
theorem toVia6522_viaRunCycles (n : Nat) (via : ViaSys σ) :
    (viaRunCycles cb n via).toVia6522 =
      Via6522.srLoop^[n] (Via6522.t2Cycle^[n]
        (Via6522.t1Loop^[n] (viaPulses n via).toVia6522)) := by
  have ht1 : ∀ via : ViaSys σ,
      (viaT1Cycles cb n via).toVia6522 = Via6522.t1Loop^[n] via.toVia6522 := by
    intro via
    have hiter : ((viaT1Cycle cb)^[n] via).toVia6522 = Via6522.t1Cycle^[n] via.toVia6522 :=
      Semiconj.iterate_right (toVia6522_viaT1Cycle cb) n via
    rw [Via6522.t1Loop, Via6522.gate_iterate
      (fun via => Via6522.t1Active_of_settings (Via6522.settings_t1Cycle via)), viaT1Cycles]
    split_ifs
    · exact hiter
    · rfl
  have ht2 : ∀ via : ViaSys σ,
      ((viaT2Cycle cb)^[n] via).toVia6522 = Via6522.t2Cycle^[n] via.toVia6522 :=
    Semiconj.iterate_right (toVia6522_viaT2Cycle cb) n
  have hsr : ∀ via : ViaSys σ,
      (viaSrCycles cb n via).toVia6522 = Via6522.srLoop^[n] via.toVia6522 := by
    intro via
    have hiter : ((viaSrCycle cb)^[n] via).toVia6522 = Via6522.srCycle^[n] via.toVia6522 :=
      Semiconj.iterate_right (toVia6522_viaSrCycle cb) n via
    rw [Via6522.srLoop, Via6522.gate_iterate
      (fun via => Via6522.srPhi2_of_settings (Via6522.settings_srCycle via)), viaSrCycles]
    unfold Via6522.srPhi2
    split_ifs
    · exact hiter
    · rfl
  rw [viaRunCycles, hsr, ht2, ht1]

/-! ## Pulses -/

/-- A pulse lasts one cycle. -/
structure ViaPulsed (via : ViaSys σ) : Prop where
  ca2 : via.ca2Pulse = 0 ∨ via.ca2Pulse = 1
  cb2 : via.cb2Pulse = 0 ∨ via.cb2Pulse = 1

/-- What `n` cycles leave of a pulse. -/
def pulseLeft (n : Nat) (pulse : Int) : Int :=
  if pulse > 0 then if pulse - n ≤ 0 then 0 else pulse - n else pulse

theorem viaPulses_eq (n : Nat) (via : ViaSys σ) :
    viaPulses n via =
      { via with
        ca2Pulse := pulseLeft n via.ca2Pulse
        ca2Pin := (via.ca2Pulse > 0 ∧ via.ca2Pulse - n ≤ 0) || via.ca2Pin
        cb2Pulse := pulseLeft n via.cb2Pulse
        cb2Pin := (via.cb2Pulse > 0 ∧ via.cb2Pulse - n ≤ 0) || via.cb2Pin } := by
  unfold viaPulses pulseLeft
  by_cases hca : via.ca2Pulse > 0 <;> by_cases hca' : via.ca2Pulse - n ≤ 0 <;>
    by_cases hcb : via.cb2Pulse > 0 <;> by_cases hcb' : via.cb2Pulse - n ≤ 0 <;>
    simp only [hca, hca', hcb, hcb', if_true, if_false, and_true, and_false, decide_true,
      decide_false, Bool.true_or, Bool.false_or]

theorem pulseLeft_pos {pulse : Int} (h : pulse = 0 ∨ pulse = 1) {n : Nat} (hn : 0 < n) :
    pulseLeft n pulse = 0 ∧ (pulse > 0 ∧ pulse - n ≤ 0 ↔ pulse = 1) := by
  unfold pulseLeft
  split_ifs <;> omega

theorem viaPulses_zero (via : ViaSys σ) : viaPulses 0 via = via := by
  have hleft : ∀ pulse : Int, pulseLeft 0 pulse = pulse := by
    intro pulse
    unfold pulseLeft
    split_ifs <;> omega
  have hpin : ∀ pulse : Int, ¬(pulse > 0 ∧ pulse - (0 : Nat) ≤ 0) := by omega
  rw [viaPulses_eq, hleft, hleft]
  simp only [hpin, decide_false, Bool.false_or]

theorem viaPulses_idle (n : Nat) {via : ViaSys σ} (hca : via.ca2Pulse = 0)
    (hcb : via.cb2Pulse = 0) : viaPulses n via = via := by
  have hca' : ¬via.ca2Pulse > 0 := by omega
  have hcb' : ¬via.cb2Pulse > 0 := by omega
  unfold viaPulses
  simp only [hca', hcb', if_false]

/-- A first cycle ends the pulses, however many follow. -/
theorem viaPulses_pos {via : ViaSys σ} (h : ViaPulsed via) {n : Nat} (hn : 0 < n) :
    viaPulses n via = viaPulses 1 via ∧
      (viaPulses n via).ca2Pulse = 0 ∧ (viaPulses n via).cb2Pulse = 0 := by
  obtain ⟨hca, hca'⟩ := pulseLeft_pos h.ca2 hn
  obtain ⟨hcb, hcb'⟩ := pulseLeft_pos h.cb2 hn
  obtain ⟨hca1, hca1'⟩ := pulseLeft_pos h.ca2 Nat.one_pos
  obtain ⟨hcb1, hcb1'⟩ := pulseLeft_pos h.cb2 Nat.one_pos
  rw [viaPulses_eq, viaPulses_eq]
  refine ⟨?_, hca, hcb⟩
  simp only [hca, hca', hcb, hcb', hca1, hca1', hcb1, hcb1']

theorem viaRunCycles_zero (via : ViaSys σ) : viaRunCycles cb 0 via = via := by
  unfold viaRunCycles viaSrCycles viaT1Cycles
  simp only [iterate_zero, id_eq, ite_self, viaPulses_zero]

/-- The loops leave the pulses alone. -/
theorem settings_viaRunCycles (n : Nat) (via : ViaSys σ) :
    (viaRunCycles cb n via).toVia6522.settings = (viaPulses n via).toVia6522.settings := by
  have hiter : ∀ {f : Via6522 → Via6522}, (∀ via, (f via).settings = via.settings) →
      ∀ via : Via6522, (f^[n] via).settings = via.settings := by
    intro f hf
    induction n with
    | zero => exact fun _ => rfl
    | succ n ih => exact fun via => (ih (f via)).trans (hf via)
  rw [toVia6522_viaRunCycles]
  exact (hiter (Via6522.settings_gate Via6522.settings_srCycle) _).trans
    ((hiter Via6522.settings_t2Cycle _).trans
      (hiter (Via6522.settings_gate Via6522.settings_t1Cycle) _))

/-- The chip after a split batch. -/
theorem toVia6522_viaRunCycles_add {via : ViaSys σ} (h : ViaPulsed via) (a b : Nat) :
    (viaRunCycles cb b (viaRunCycles cb a via)).toVia6522 =
      (viaRunCycles cb (a + b) via).toVia6522 := by
  rcases Nat.eq_zero_or_pos a with rfl | ha
  · rw [viaRunCycles_zero, Nat.zero_add]
  obtain ⟨hone, hca, hcb⟩ := viaPulses_pos h ha
  obtain ⟨hone', -, -⟩ := viaPulses_pos h (Nat.add_pos_left ha b)
  have hsettings := settings_viaRunCycles cb a via
  -- the first part has ended the pulses
  have hidle : viaPulses b (viaRunCycles cb a via) = viaRunCycles cb a via :=
    viaPulses_idle b ((congrArg (·.2.2.2.2.1) hsettings).trans hca)
      ((congrArg (·.2.2.2.2.2) hsettings).trans hcb)
  rw [toVia6522_viaRunCycles, hidle, toVia6522_viaRunCycles, toVia6522_viaRunCycles,
    Via6522.loops_add, hone, hone']

/-! ## The calls -/

/-- The calls that raise the line from `old` to `new`. -/
def viaRaiseCalls (old new : Bool) : List Bool :=
  if cb.irqCallback.isSome && !old && new then [true] else []

/-- The callback is `call`, and does not read the chip. -/
def ViaBlind (call : Bool → σ → σ) : Prop :=
  ∀ f, cb.irqCallback = some f → f = fun level _ user => call level user

/-- The line is not dropped, and one call at most tells that it rose. -/
structure ViaRises (via via' : ViaSys σ) : Prop where
  line : via.irqLine = true → via'.irqLine = true
  calls : via'.irqCalls = via.irqCalls ++ viaRaiseCalls cb via.irqLine via'.irqLine
  user : ∀ call, ViaBlind cb call → via'.user =
    (viaRaiseCalls cb via.irqLine via'.irqLine).foldl (fun user level => call level user) via.user

theorem ViaRises.refl (via : ViaSys σ) : ViaRises cb via via := by
  have hnone : viaRaiseCalls cb via.irqLine via.irqLine = [] := by
    unfold viaRaiseCalls
    cases via.irqLine <;> simp
  refine ⟨id, ?_, fun call _ => ?_⟩
  · rw [hnone, List.append_nil]
  · rw [hnone]
    rfl

variable {cb} {base : List Bool} {via via' via'' : ViaSys σ}

theorem ViaRises.trans (h : ViaRises cb via via') (h' : ViaRises cb via' via'') :
    ViaRises cb via via'' := by
  have hcalls : viaRaiseCalls cb via.irqLine via''.irqLine =
      viaRaiseCalls cb via.irqLine via'.irqLine ++ viaRaiseCalls cb via'.irqLine via''.irqLine := by
    have hline := h.line
    have hline' := h'.line
    unfold viaRaiseCalls
    cases hold : via.irqLine <;> cases hmid : via'.irqLine <;> simp_all
  refine ⟨fun hold => h'.line (h.line hold), ?_, fun call hcall => ?_⟩
  · rw [h'.calls, h.calls, hcalls, List.append_assoc]
  · rw [h'.user call hcall, h.user call hcall, hcalls, List.foldl_append]

/-- A check with at least the flags of a high line. -/
theorem ViaRises.check (h : via.irqLine = true → via.ifr &&& via.ier &&& viaIerMask ≠ 0#8) :
    ViaRises cb via (viaCheckIrq cb via) := by
  unfold viaCheckIrq
  dsimp only
  generalize hirq : (via.ifr &&& via.ier &&& viaIerMask != 0#8) = irq
  generalize (if irq = true then via.ifr ||| viaIntAny else via.ifr &&& ~~~viaIntAny) = ifr
  have hline : via.irqLine = true → irq = true := by
    intro hhigh
    rw [← hirq]
    exact bne_iff_ne.mpr (h hhigh)
  split
  · rename_i hne
    have hrise : via.irqLine = false ∧ irq = true := by
      cases hold : via.irqLine <;> simp_all
    obtain ⟨hlow, rfl⟩ := hrise
    cases hcall : cb.irqCallback with
    | none =>
      refine ⟨fun _ => rfl, ?_, fun call _ => ?_⟩ <;> simp [viaRaiseCalls, hcall]
    | some f =>
      refine ⟨fun _ => rfl, ?_, fun call hblind => ?_⟩
      · simp [viaRaiseCalls, hcall, hlow]
      · simp [viaRaiseCalls, hcall, hlow, hblind f hcall]
  · have hrefl := ViaRises.refl cb via
    exact { hrefl with }

/-- A flag more keeps a high line's flags. -/
theorem ViaIrqInv.more (h : ViaIrqInv cb base via) (flag : Byte) (hhigh : via.irqLine = true) :
    (via.ifr ||| flag) &&& via.ier &&& viaIerMask ≠ 0#8 := by
  have hflags : via.ifr &&& via.ier &&& viaIerMask ≠ 0#8 := by
    rw [h.line] at hhigh
    exact bne_iff_ne.mp hhigh
  intro hzero
  apply hflags
  rw [BitVec.and_assoc] at hzero ⊢
  rw [BitVec.and_comm, BitVec.and_or_distrib_left, BitVec.or_eq_zero_iff] at hzero
  rw [BitVec.and_comm]
  exact hzero.1

theorem ViaRises.raise (h : ViaIrqInv cb base via) (flag : Byte) :
    ViaRises cb via (viaRaise cb flag via) := by
  have hcheck : ViaRises cb { via with ifr := via.ifr ||| flag } (viaRaise cb flag via) :=
    ViaRises.check (h.more flag)
  exact { hcheck with }

theorem ViaRises.srEvent (h : ViaIrqInv cb base via) : ViaRises cb via (viaSrEvent cb via) := by
  have hrefl := ViaRises.refl cb via
  have hmore := h.more viaIntSr
  unfold viaSrEvent
  dsimp only
  split_ifs <;> first
    | exact { hrefl with }
    | (refine ViaRises.trans ?_ (ViaRises.check hmore)
       exact { hrefl with })

theorem ViaRises.t1Cycle (h : ViaIrqInv cb base via) : ViaRises cb via (viaT1Cycle cb via) := by
  have hrefl := ViaRises.refl cb via
  have hcount : ViaIrqInv cb base
      { via with t1Counter := via.t1Counter - 1#16, t1Reload := true } := { h with }
  have hraise := ViaRises.raise hcount viaIntT1
  unfold viaT1Cycle
  dsimp only
  split_ifs <;> first | exact { hraise with } | exact { hrefl with }

theorem ViaRises.t2Count (h : ViaIrqInv cb base via) : ViaRises cb via (viaT2Count cb via) := by
  have hrefl := ViaRises.refl cb via
  have hcount : ViaIrqInv cb base { via with t2Counter := via.t2Counter - 1#16 } := { h with }
  have hraise := ViaRises.raise h viaIntT2
  have hraise' := ViaRises.raise hcount viaIntT2
  unfold viaT2Count viaT2EightBitCycle
  dsimp only
  split_ifs <;> first | exact { hraise with } | exact { hraise' with } | exact { hrefl with }

theorem ViaRises.srT2Event (h : ViaIrqInv cb base via) :
    ViaRises cb via (viaSrT2Event cb via) := by
  have hrefl := ViaRises.refl cb via
  have hpending : ViaIrqInv cb base { via with srT2Pending := via.srT2Pending - 1#8 } :=
    { h with }
  have hevent := ViaRises.srEvent hpending
  unfold viaSrT2Event
  dsimp only
  split_ifs
  · exact { hevent with }
  · exact { hrefl with }
  · exact hrefl

theorem ViaRises.t2Cycle (h : ViaIrqInv cb base via) : ViaRises cb via (viaT2Cycle cb via) := by
  have hevent := ViaRises.srT2Event h
  have hinv := h.srT2Event
  unfold viaT2Cycle
  generalize viaSrT2Event cb via = next at hevent hinv ⊢
  have hmode : ViaIrqInv cb base
      { next with t2Phi2 := next.acr &&& 0x20#8 == 0#8, t2Hold := false } := { hinv with }
  have hcount := ViaRises.t2Count hmode
  dsimp only
  split_ifs
  · exact { hevent with }
  · refine hevent.trans ?_
    exact { hcount with }

theorem ViaRises.srCycle (h : ViaIrqInv cb base via) : ViaRises cb via (viaSrCycle cb via) := by
  have hrefl := ViaRises.refl cb via
  unfold viaSrCycle
  split_ifs
  · exact { hrefl with }
  · exact ViaRises.srEvent h

theorem ViaRises.iterate {f : ViaSys σ → ViaSys σ}
    (hinv : ∀ {via}, ViaIrqInv cb base via → ViaIrqInv cb base (f via))
    (hf : ∀ {via}, ViaIrqInv cb base via → ViaRises cb via (f via)) (n : Nat)
    (h : ViaIrqInv cb base via) : ViaRises cb via (f^[n] via) := by
  induction n generalizing via with
  | zero => exact ViaRises.refl cb via
  | succ n ih => exact (hf h).trans (ih (hinv h))

theorem ViaRises.update (h : ViaIrqInv cb base via) (n : Nat) :
    ViaRises cb via (viaUpdate cb n via) := by
  have hpulses : ViaRises cb via (viaPulses n (viaSync via)) := by
    have hrefl := ViaRises.refl cb via
    have hsync : ViaRises cb via (viaSync via) := by
      unfold viaSync
      dsimp only
      split_ifs <;> exact { hrefl with }
    rw [viaPulses_eq]
    exact { hsync with }
  have ht1 : ∀ {via : ViaSys σ}, ViaIrqInv cb base via →
      ViaRises cb via (viaT1Cycles cb n via) ∧ ViaIrqInv cb base (viaT1Cycles cb n via) := by
    intro via h
    unfold viaT1Cycles
    split_ifs
    · exact ⟨ViaRises.iterate ViaIrqInv.t1Cycle ViaRises.t1Cycle n h,
        ViaIrqInv.iterate ViaIrqInv.t1Cycle n h⟩
    · exact ⟨ViaRises.refl cb via, h⟩
  have hsr : ∀ {via : ViaSys σ}, ViaIrqInv cb base via →
      ViaRises cb via (viaSrCycles cb n via) := by
    intro via h
    unfold viaSrCycles
    dsimp only
    split_ifs
    · exact ViaRises.iterate ViaIrqInv.srCycle ViaRises.srCycle n h
    · exact ViaRises.refl cb via
  have hstart := h.sync.pulses n
  obtain ⟨hone, hone'⟩ := ht1 hstart
  have htwo := ViaIrqInv.iterate ViaIrqInv.t2Cycle n hone'
  have hrun : ViaRises cb via (viaRunCycles cb n (viaSync via)) :=
    hpulses.trans (hone.trans
      ((ViaRises.iterate ViaIrqInv.t2Cycle ViaRises.t2Cycle n hone').trans (hsr htwo)))
  exact { hrun with }

/-! ## Reachable chips -/

theorem ViaPulsed.check (h : ViaPulsed via) : ViaPulsed (viaCheckIrq cb via) := by
  have hchip := toVia6522_viaCheckIrq cb via
  exact ⟨(congrArg Via6522.ca2Pulse hchip).symm ▸ h.ca2,
    (congrArg Via6522.cb2Pulse hchip).symm ▸ h.cb2⟩

theorem ViaPulsed.ack (h : ViaPulsed via) (flag : Byte) : ViaPulsed (viaAck cb flag via) := by
  have hflags : ViaPulsed { via with ifr := via.ifr &&& ~~~flag } := { h with }
  exact hflags.check

theorem ViaPulsed.raise (h : ViaPulsed via) (flag : Byte) :
    ViaPulsed (viaRaise cb flag via) := by
  have hflags : ViaPulsed { via with ifr := via.ifr ||| flag } := { h with }
  exact hflags.check

theorem ViaPulsed.sync (h : ViaPulsed via) : ViaPulsed (viaSync via) := by
  unfold viaSync
  dsimp only
  split_ifs <;> exact { h with }

theorem ViaPulsed.callRead (h : ViaPulsed via) (read : Option (Via6522 → σ → Byte × σ)) :
    ViaPulsed (viaCallRead read via).2 := by
  cases read with
  | none => exact h
  | some call => exact { h with }

theorem ViaPulsed.callWrite (h : ViaPulsed via) (write : Option (Byte → Via6522 → σ → σ))
    (value : Byte) : ViaPulsed (viaCallWrite write value via) := by
  cases write with
  | none => exact h
  | some call => exact { h with }

theorem ViaPulsed.portAInput (h : ViaPulsed via) : ViaPulsed (viaPortAInput cb via).2 := by
  unfold viaPortAInput
  split_ifs
  · exact h
  · exact h.callRead cb.portaRead

theorem ViaPulsed.clearCa (h : ViaPulsed via) : ViaPulsed (viaClearCa via) := by
  unfold viaClearCa
  dsimp only
  split_ifs <;> exact { h with }

theorem ViaPulsed.clearCb (h : ViaPulsed via) : ViaPulsed (viaClearCb via) := by
  unfold viaClearCb
  dsimp only
  split_ifs <;> exact { h with }

/-- The port accesses start the pulses. -/
theorem ViaPulsed.ca2PortAccess (h : ViaPulsed via) : ViaPulsed (viaCa2PortAccess via) := by
  unfold viaCa2PortAccess
  dsimp only
  split_ifs
  · exact { h with }
  · exact ⟨.inr rfl, h.cb2⟩
  · exact h

theorem ViaPulsed.cb2PortAccess (h : ViaPulsed via) : ViaPulsed (viaCb2PortAccess via) := by
  unfold viaCb2PortAccess
  dsimp only
  split_ifs
  · exact { h with }
  · exact ⟨h.ca2, .inr rfl⟩
  · exact h

theorem ViaPulsed.srAccess (h : ViaPulsed via) : ViaPulsed (viaSrAccess via) := by
  unfold viaSrAccess
  dsimp only
  split_ifs <;> exact { h with }

theorem ViaPulsed.readReg (h : ViaPulsed via) (reg : ViaReg) :
    ViaPulsed (viaReadReg cb reg via).2 := by
  cases reg with
  | orb =>
    dsimp only [viaReadReg]
    split
    · exact h.clearCb.check
    · exact (h.callRead cb.portbRead).clearCb.check
  | ora => exact h.portAInput.clearCa.check.ca2PortAccess
  | t1cl => exact h.ack viaIntT1
  | t2cl => exact h.ack viaIntT2
  | sr => exact (h.ack viaIntSr).srAccess
  | oraNh => exact h.portAInput
  | _ => exact h

theorem ViaPulsed.writeAcr (h : ViaPulsed via) (value : Byte) :
    ViaPulsed (viaWriteAcr cb value via) := by
  have hacr : ∀ pb7Pin, ViaPulsed { via with pb7Pin := pb7Pin, acr := value } :=
    fun _ => { h with }
  have hdelay : ∀ {via : ViaSys σ}, ViaPulsed via → ViaPulsed { via with srDelay := 3#8 } :=
    fun h => { h with }
  unfold viaWriteAcr
  dsimp only
  split_ifs
  all_goals first
    | exact hdelay ((hacr _).ack viaIntSr)
    | exact (hacr _).ack viaIntSr
    | exact { h with }

theorem ViaPulsed.writeReg (h : ViaPulsed via) (reg : ViaReg) (value : Byte) :
    ViaPulsed (viaWriteReg cb reg value via) := by
  have hset : ∀ {via' : ViaSys σ}, via'.ca2Pulse = via.ca2Pulse → via'.cb2Pulse = via.cb2Pulse →
      ViaPulsed via' := fun hca hcb => ⟨hca ▸ h.ca2, hcb ▸ h.cb2⟩
  cases reg with
  | orb =>
    have horb : ViaPulsed { via with orb := value } := { h with }
    exact horb.clearCb.check.cb2PortAccess.callWrite cb.portbWrite value
  | ora =>
    have hora : ViaPulsed { via with ora := value } := { h with }
    exact hora.clearCa.check.ca2PortAccess.callWrite cb.portaWrite value
  | t1ch => exact ViaPulsed.check (hset rfl rfl)
  | t1lh => exact ViaPulsed.check (hset rfl rfl)
  | t2ch => exact ViaPulsed.check (hset rfl rfl)
  | sr =>
    have hsr : ViaPulsed { via with sr := value } := { h with }
    exact (hsr.ack viaIntSr).srAccess
  | acr => exact h.writeAcr value
  | ifr => exact h.ack _
  | ier => exact ViaPulsed.check (hset rfl rfl)
  | oraNh =>
    have hora : ViaPulsed { via with ora := value } := { h with }
    exact hora.callWrite cb.portaWrite value
  | _ => exact { h with }

theorem ViaPulsed.update (h : ViaPulsed via) (n : Nat) : ViaPulsed (viaUpdate cb n via) := by
  have hsettings := settings_viaRunCycles cb n (viaSync via)
  have hpulses : ViaPulsed (viaPulses n (viaSync via)) := by
    rcases Nat.eq_zero_or_pos n with rfl | hn
    · rw [viaPulses_zero]
      exact h.sync
    · obtain ⟨-, hca, hcb⟩ := viaPulses_pos h.sync hn
      exact ⟨.inl hca, .inl hcb⟩
  have hca : (viaRunCycles cb n (viaSync via)).ca2Pulse = _ := congrArg (·.2.2.2.2.1) hsettings
  have hcb : (viaRunCycles cb n (viaSync via)).cb2Pulse = _ := congrArg (·.2.2.2.2.2) hsettings
  exact ⟨hca ▸ hpulses.ca2, hcb ▸ hpulses.cb2⟩

theorem ViaPulsed.tick (h : ViaPulsed via) : ViaPulsed (viaTick cb via) := by
  unfold viaTick
  split_ifs
  · exact { h with }
  · exact h.update 1

theorem ViaPulsed.setCa1 (h : ViaPulsed via) (state : Bool) :
    ViaPulsed (viaSetCa1 cb state via) := by
  have hpin : ViaPulsed { viaSync via with ca1Pin := state } := { h.sync with }
  unfold viaSetCa1
  dsimp only
  split
  · exact hpin
  · refine ViaPulsed.check ?_
    unfold viaLatchPa viaPaPins viaCallRead
    dsimp only
    split_ifs <;> [split; split; skip; skip] <;> exact { h.sync with }

theorem ViaPulsed.setCb1 (h : ViaPulsed via) (state : Bool) :
    ViaPulsed (viaSetCb1 cb state via) := by
  have hpin : ViaPulsed { viaSync via with cb1Pin := state } := { h.sync with }
  unfold viaSetCb1
  dsimp only
  split
  · exact hpin
  · refine ViaPulsed.check ?_
    unfold viaLatchPb viaCallRead
    dsimp only
    split_ifs <;> [split; split; skip; skip] <;> exact { h.sync with }

theorem ViaPulsed.setCa2Input (h : ViaPulsed via) (level : Bool) :
    ViaPulsed (viaSetCa2Input cb level via) := by
  have hpin : ViaPulsed { viaSync via with ca2In := level } := { h.sync with }
  unfold viaSetCa2Input
  dsimp only
  split_ifs
  · exact hpin
  · exact hpin.raise viaIntCa2
  · exact hpin

theorem ViaPulsed.setCb2Input (h : ViaPulsed via) (level : Bool) :
    ViaPulsed (viaSetCb2Input cb level via) := by
  have hpin : ViaPulsed { viaSync via with cb2In := level } := { h.sync with }
  unfold viaSetCb2Input
  dsimp only
  split_ifs
  · exact hpin
  · exact hpin.raise viaIntCb2
  · exact hpin

theorem ViaPulsed.doShift (h : ViaPulsed via) : ViaPulsed (viaDoShift cb via) := by
  unfold viaDoShift
  dsimp only
  split_ifs
  all_goals first
    | (refine ViaPulsed.check ?_
       exact { h with })
    | exact { h with }

theorem ViaPulsed.shiftClock (h : ViaPulsed via) : ViaPulsed (viaShiftClock cb via) := by
  unfold viaShiftClock
  dsimp only
  split_ifs
  · exact h.sync
  · exact h.sync
  · exact h.sync.doShift

theorem ViaPulsed.pb6Pulse (h : ViaPulsed via) : ViaPulsed (viaPb6Pulse cb via) := by
  have hwrap : ViaPulsed { viaSync via with t2Counter := 0xFFFF#16 } := { h.sync with }
  have hraise : ViaPulsed (viaRaise cb viaIntT2 _) := hwrap.raise viaIntT2
  unfold viaPb6Pulse
  dsimp only
  split_ifs
  · exact h.sync
  · exact { hraise with }
  · exact hwrap
  · exact { h.sync with }

/-- The step lemma. -/
theorem ViaPulsed.apply (h : ViaPulsed via) {tick : ViaSys σ → ViaSys σ}
    (htick : ViaPulsed (tick via)) (op : ViaOp) : ViaPulsed (viaApply cb tick via op).2 := by
  cases op with
  | tick => exact htick
  | update cycles => exact h.update cycles
  | read reg => exact h.sync.readReg _
  | write reg value => exact h.sync.writeReg _ value
  | setCa1 state => exact h.setCa1 state
  | setCb1 state => exact h.setCb1 state
  | setCa2Input level => exact h.setCa2Input level
  | setCb2Input level => exact h.setCb2Input level
  | triggerCa1 => exact h.sync.raise viaIntCa1
  | triggerCa2 => exact h.sync.raise viaIntCa2
  | triggerCb1 => exact (h.sync.setCb1 false).setCb1 true
  | triggerCb2 => exact h.sync.raise viaIntCb2
  | shiftClock => exact h.shiftClock
  | pb6Pulse => exact h.pb6Pulse
  | getCa2 => exact h
  | getCb2 => exact h
  | getPb7 => exact h
  | reset => exact ⟨.inl rfl, .inl rfl⟩

theorem viaPulsed_of_reachable (h : ViaReachable cb via) : ViaPulsed via := by
  induction h with
  | init user => exact ⟨.inl rfl, .inl rfl⟩
  | lazy op _ ih => exact ih.apply ih.tick op
  | noLazy op _ ih => exact ih.apply (ih.update 1) op

/-- Of the callback's effect a split batch can change only what it reads of the chip. -/
theorem viaUpdate_add (h : ViaReachable cb via) (a b : Nat) :
    let whole := viaUpdate cb (a + b) via
    let split := viaUpdate cb b (viaUpdate cb a via)
    split.toVia6522 = whole.toVia6522 ∧ split.irqCalls = whole.irqCalls ∧
      ∀ call, ViaBlind cb call → split.user = whole.user := by
  intro whole split
  have hchip : split.toVia6522 = whole.toVia6522 := by
    have hdeferred := deferred_viaRunCycles cb a (viaSync via)
    rw [deferred_viaSync] at hdeferred
    have hsync : viaSync (viaUpdate cb a via) = viaRunCycles cb a (viaSync via) := by
      have hself : ∀ run : ViaSys σ, deferred run = (0#16, 0#16) →
          { run with quiet := 0#16, pending := 0#16 } = run := by
        intro run hrun
        obtain ⟨hquiet, hpending⟩ := Prod.mk.inj hrun
        rw [← hquiet]
        nth_rewrite 2 [hquiet]
        rw [← hpending]
      rw [viaSync_viaUpdate, hself _ hdeferred]
    have hrun := toVia6522_viaRunCycles_add cb (viaPulsed_of_reachable h).sync a b
    rw [← hsync] at hrun
    exact congrArg (fun chip : Via6522 => { chip with quiet := viaQuiet chip }) hrun
  obtain ⟨start, hstart, hreach⟩ := h.since_reset
  have hirq := ViaReaches.irq cb hstart hreach
  have hwhole := ViaRises.update hirq (a + b)
  have hsplit := (ViaRises.update hirq a).trans (ViaRises.update (hirq.update a) b)
  have hline : split.irqLine = whole.irqLine := congrArg Via6522.irqLine hchip
  refine ⟨hchip, ?_, fun call hcall => ?_⟩
  · rw [hsplit.calls, hwhole.calls, hline]
  · rw [hsplit.user call hcall, hwhole.user call hcall, hline]

/-- Timer 1 in one-shot mode, split at its underflow. -/
theorem viaUpdate_add_oneShot :
    let via := viaSampleRun [.write 0x0E#8 0xC0#8, .write 0x04#8 0x02#8, .write 0x05#8 0x00#8]
    let whole := viaUpdate viaSampleCallbacks (3 + 5) via
    let split := viaUpdate viaSampleCallbacks 5 (viaUpdate viaSampleCallbacks 3 via)
    split.toVia6522 = whole.toVia6522 ∧ split.irqCalls = whole.irqCalls ∧
      ∀ call, ViaBlind viaSampleCallbacks call → split.user = whole.user :=
  viaUpdate_add
    (.lazy (.write 0x05#8 0x00#8) (.lazy (.write 0x04#8 0x02#8)
      (.lazy (.write 0x0E#8 0xC0#8) (.init ())))) 3 5

end Phosphoric
