import Phosphoric.Via.Batch

/-!
# The period of Timer 1

A write to T1C-H is followed by a reload cycle, as many countdowns as the latch says and the
underflow, which asks for the next reload cycle: a period is `N + 2` ticks.

**Theorem (`viaT1_period`).** After a write to T1C-H that leaves the latch at `N`, whatever the chip
did before, the ticks that raise the T1 flag are the multiples of `N + 2` in free-run mode, where
PB7 changes with each, and tick `N + 2` alone in one-shot mode, where the counter reloads all the
same. A latch rewritten in between counts from the next reload cycle on, for any writes at any time
(`T1Period`).

Timer 1 is looked at alone (`T1State`), on the synchronised chip: there a tick is one cycle of it,
deferred or not.
-/

namespace Phosphoric

open Function

variable {σ : Type} (cb : ViaCallbacks σ)

/-! ## Timer 1 alone -/

/-- Timer 1, its mode in the ACR and its flag in the IFR. -/
structure T1State where
  counter : Word
  latch : Word
  reload : Bool
  running : Bool
  pb7 : Bool
  freeRun : Bool
  flag : Bool

namespace T1State

/-- The next cycle raises the flag. -/
def fires (t : T1State) : Bool := !t.reload && t.counter == 0#16 && t.running

/-- One cycle. -/
def cycle (t : T1State) : T1State :=
  if t.reload then { t with counter := t.latch, reload := false }
  else if t.counter == 0#16 then
    if t.running then
      { t with
        counter := 0xFFFF#16, reload := true, running := t.freeRun, pb7 := !t.pb7, flag := true }
    else { t with counter := 0xFFFF#16, reload := true }
  else { t with counter := t.counter - 1#16 }

theorem cycle_flag (t : T1State) : t.cycle.flag = (t.flag || t.fires) := by
  unfold cycle fires
  cases t.reload <;> cases t.counter == 0#16 <;> cases t.running <;> simp

/-- `r` ticks after underflow `q` of a latch left at `n`. -/
def phase (n : Word) (freeRun : Bool) (q r : Nat) : T1State where
  counter :=
    if r = 0 then (if q = 0 then n else 0xFFFF#16) else BitVec.ofNat 16 (n.toNat - (r - 1))
  latch := n
  reload := r = 0
  running := freeRun || q = 0
  pb7 := if freeRun then q % 2 = 1 else 0 < q
  freeRun := freeRun
  flag := 0 < q

variable {n : Word} {freeRun : Bool} {q r : Nat}

/-- Within a period the counter is at 0 only on its last tick. -/
theorem phase_counter (hr : r < n.toNat + 2) (hpos : r ≠ 0) :
    (phase n freeRun q r).counter = 0#16 ↔ r = n.toNat + 1 := by
  have hn := n.isLt
  have hcounter : (phase n freeRun q r).counter = BitVec.ofNat 16 (n.toNat - (r - 1)) := if_neg hpos
  rw [hcounter, ← BitVec.toNat_inj, BitVec.toNat_ofNat, BitVec.toNat_ofNat]
  omega

theorem phase_fires (hr : r < n.toNat + 2) :
    (phase n freeRun q r).fires = true ↔ r = n.toNat + 1 ∧ (freeRun = true ∨ q = 0) := by
  have hrun : (phase n freeRun q r).running = true ↔ freeRun = true ∨ q = 0 := by simp [phase]
  by_cases hpos : r = 0
  · have hreload : (phase n freeRun q r).reload = true := decide_eq_true hpos
    simp only [fires, hreload, Bool.not_true, Bool.false_and, Bool.false_eq_true, false_iff]
    omega
  · have hreload : (phase n freeRun q r).reload = false := decide_eq_false hpos
    simp only [fires, hreload, Bool.not_false, Bool.true_and, Bool.and_eq_true, beq_iff_eq,
      phase_counter hr hpos, hrun]

/-- A tick within the period. -/
theorem cycle_phase (hr : r + 1 < n.toNat + 2) :
    (phase n freeRun q r).cycle = phase n freeRun q (r + 1) := by
  have hn := n.isLt
  by_cases hpos : r = 0
  · subst hpos
    simp [cycle, phase]
  · have hreload : (phase n freeRun q r).reload = false := decide_eq_false hpos
    have hne : ((phase n freeRun q r).counter == 0#16) = false := by
      rw [beq_eq_false_iff_ne, ne_eq, phase_counter (by omega) hpos]
      omega
    have hsub : BitVec.ofNat 16 (n.toNat - (r - 1)) - 1#16 = BitVec.ofNat 16 (n.toNat - r) := by
      rw [← BitVec.toNat_inj]
      simp only [BitVec.toNat_sub, BitVec.toNat_ofNat]
      omega
    simp only [cycle, hreload, hne, Bool.false_eq_true, if_false]
    simp [phase, hpos, hsub]

/-- The tick that ends the period. -/
theorem cycle_phase_last :
    (phase n freeRun q (n.toNat + 1)).cycle = phase n freeRun (q + 1) 0 := by
  have hreload : (phase n freeRun q (n.toNat + 1)).reload = false :=
    decide_eq_false (Nat.succ_ne_zero n.toNat)
  have hzero : ((phase n freeRun q (n.toNat + 1)).counter == 0#16) = true := by
    rw [beq_iff_eq, phase_counter (by omega) (by omega)]
  simp only [cycle, hreload, hzero, Bool.false_eq_true, if_false, if_true]
  cases freeRun
  · by_cases hq : q = 0
    · simp [phase, hq]
    · simp [phase, hq, Nat.pos_of_ne_zero hq]
  · have hparity : (!decide (q % 2 = 1)) = decide ((q + 1) % 2 = 1) := by
      rw [← decide_not, decide_eq_decide]
      omega
    simp [phase, hparity]

/-- Timer 1 after `k` ticks. -/
theorem cycle_iterate (n : Word) (freeRun : Bool) (k : Nat) :
    cycle^[k] (phase n freeRun 0 0) = phase n freeRun (k / (n.toNat + 2)) (k % (n.toNat + 2)) := by
  induction k with
  | zero => rw [Nat.zero_div, Nat.zero_mod]; rfl
  | succ k ih =>
    rw [iterate_succ_apply', ih]
    have hlt : k % (n.toNat + 2) < n.toNat + 2 := Nat.mod_lt _ (by omega)
    by_cases hlast : k % (n.toNat + 2) = n.toNat + 1
    · have hmod : (k + 1) % (n.toNat + 2) = 0 := Nat.succ_mod_succ_eq_zero_iff.mpr hlast
      have hdiv : (k + 1) / (n.toNat + 2) = k / (n.toNat + 2) + 1 :=
        Nat.succ_div_of_mod_eq_zero hmod
      rw [hlast, cycle_phase_last, hmod, hdiv]
    · have hmod : (k + 1) % (n.toNat + 2) = k % (n.toNat + 2) + 1 := by
        rw [Nat.add_mod, Nat.mod_eq_of_lt (show 1 < n.toNat + 2 by omega)]
        exact Nat.mod_eq_of_lt (by omega)
      have hdiv : (k + 1) / (n.toNat + 2) = k / (n.toNat + 2) :=
        Nat.succ_div_of_mod_ne_zero (by omega)
      rw [cycle_phase (by omega), hmod, hdiv]

end T1State

/-! ## Timer 1 of the chip -/

namespace Via6522

def t1 (via : Via6522) : T1State where
  counter := via.t1Counter
  latch := via.t1Latch
  reload := via.t1Reload
  running := via.t1Running
  pb7 := via.pb7Pin
  freeRun := via.acr &&& 0x40#8 != 0#8
  flag := via.ifr &&& viaIntT1 != 0#8

/-- A flag raised, among the flags. -/
theorem t1_raise {flag : Byte} (hflag : flag &&& viaIntT1 = 0#8) (via : Via6522) :
    (via.raise flag).t1 = via.t1 := by
  have hbit : ∀ (b : Byte) (c : Prop) [Decidable c],
      ((b ||| flag) &&& viaIerMask ||| if c then viaIntAny else 0#8) &&& viaIntT1 =
        b &&& viaIntT1 := by
    intro b c _
    have hmask : ∀ b any : Byte, any = viaIntAny ∨ any = 0#8 →
        (b &&& viaIerMask ||| any) &&& viaIntT1 = b &&& viaIntT1 := by
      rintro b any (rfl | rfl) <;> revert b <;> decide
    rw [hmask _ _ (by split_ifs <;> simp), BitVec.and_comm, BitVec.and_or_distrib_left,
      BitVec.and_comm _ flag, hflag, BitVec.or_zero, BitVec.and_comm]
  unfold raise
  rw [checkIrq_eq]
  unfold t1
  dsimp only
  rw [hbit]

/-- Its own flag. -/
theorem t1_raise_t1 (via : Via6522) : (via.raise viaIntT1).t1 = { via.t1 with flag := true } := by
  have hbit : ∀ (b any : Byte), any = viaIntAny ∨ any = 0#8 →
      (((b ||| viaIntT1) &&& viaIerMask ||| any) &&& viaIntT1 != 0#8) = true := by
    rintro b any (rfl | rfl) <;> revert b <;> decide
  unfold raise
  rw [checkIrq_eq]
  unfold t1
  dsimp only
  rw [hbit _ _ (by split_ifs <;> simp)]

theorem t1_t1Cycle (via : Via6522) : via.t1Cycle.t1 = via.t1.cycle := by
  unfold t1Cycle T1State.cycle
  by_cases hreload : via.t1Reload = true
  · rw [if_pos hreload, if_pos (show via.t1.reload = true from hreload)]
    rfl
  rw [if_neg hreload, if_neg (show ¬via.t1.reload = true from hreload)]
  by_cases hzero : (via.t1Counter == 0#16) = true
  · have hcounter : via.t1Counter - 1#16 = 0xFFFF#16 := by
      rw [beq_iff_eq] at hzero
      rw [hzero]
      decide
    rw [if_pos hzero, if_pos (show (via.t1.counter == 0#16) = true from hzero), hcounter]
    by_cases hrun : via.t1Running = true
    · rw [if_pos hrun, if_pos (show via.t1.running = true from hrun)]
      dsimp only
      rw [t1_raise_t1]
      have hmode : (if via.acr &&& 0x40#8 == 0#8 then false else via.t1Running) =
          (via.acr &&& 0x40#8 != 0#8) := by
        cases hacr : via.acr &&& 0x40#8 == 0#8 <;> simp [bne, hacr, hrun]
      rw [hmode]
      rfl
    · rw [if_neg hrun, if_neg (show ¬via.t1.running = true from hrun)]
      rfl
  · rw [if_neg hzero, if_neg (show ¬(via.t1.counter == 0#16) = true from hzero)]
    rfl

theorem t1_srEvent (via : Via6522) : via.srEvent.t1 = via.t1 := by
  unfold srEvent
  split_ifs
  · rfl
  · exact t1_raise (by decide) _
  · rfl
  · rfl

theorem t1_srCycle (via : Via6522) : via.srCycle.t1 = via.t1 := by
  unfold srCycle
  split_ifs
  · rfl
  · exact t1_srEvent via

theorem t1_t2Count (via : Via6522) : via.t2Count.t1 = via.t1 := by
  unfold t2Count
  dsimp only
  split_ifs
  · rfl
  · exact t1_raise (by decide) _
  · rfl
  · rfl
  · exact t1_raise (by decide) _
  · rfl

theorem t1_t2Cycle (via : Via6522) : via.t2Cycle.t1 = via.t1 := by
  have hevent : via.srT2Event.t1 = via.t1 := by
    unfold srT2Event
    split_ifs
    · exact t1_srEvent _
    · rfl
    · rfl
  unfold t2Cycle
  rw [← hevent]
  unfold t2Step
  dsimp only
  split_ifs
  · rfl
  · exact t1_t2Count _

theorem t1_srLoop (via : Via6522) : via.srLoop.t1 = via.t1 := by
  unfold srLoop gate
  split_ifs
  · exact t1_srCycle via
  · rfl

end Via6522

/-! ## Ticks -/

/-- Timer 1 once the deferred cycles are applied. -/
def viaT1 (via : ViaSys σ) : T1State := (viaSync via).toVia6522.t1

/-- Timer 1 was loaded, and the cycles deferred are within their bound. -/
structure T1Live (via : ViaSys σ) : Prop where
  inv : LazyInv via
  active : via.t1Active = true

variable {via : ViaSys σ}

theorem viaSync_t1Active (via : ViaSys σ) : (viaSync via).t1Active = via.t1Active := by
  rw [viaSync_eq]
  rfl

theorem viaT1_flag (via : ViaSys σ) :
    (viaT1 via).flag = (via.ifr &&& viaIntT1 != 0#8) := by
  unfold viaT1
  rw [viaSync_eq]
  rfl

/-- A tick, deferred or not, is one cycle of the synchronised chip. -/
theorem viaSync_viaTick (h : LazyInv via) : LazyInv (viaTick cb via) ∧
    viaSync (viaTick cb via) =
      { viaRunCycles cb 1 (viaSync via) with quiet := 0#16, pending := 0#16 } := by
  obtain ⟨-, -, hsim⟩ := lazySim_viaApply cb (l := via) ⟨h, rfl⟩ .tick
  exact ⟨hsim.inv, hsim.sync.trans (viaSync_viaUpdate cb 1 via)⟩

theorem t1_viaRunCycles (hactive : via.t1Active = true) :
    (viaRunCycles cb 1 via).toVia6522.t1 = via.toVia6522.t1.cycle ∧
      (viaRunCycles cb 1 via).t1Active = true := by
  have hpulses : (viaPulses 1 via).toVia6522.t1 = via.toVia6522.t1 ∧
      (viaPulses 1 via).t1Active = via.t1Active := by
    rw [viaPulses_eq]
    exact ⟨rfl, rfl⟩
  have hloop : Via6522.t1Loop (viaPulses 1 via).toVia6522 =
      Via6522.t1Cycle (viaPulses 1 via).toVia6522 := by
    unfold Via6522.t1Loop Via6522.gate
    rw [if_pos (hpulses.2.trans hactive)]
  constructor
  · rw [toVia6522_viaRunCycles, iterate_one, iterate_one, iterate_one, Via6522.t1_srLoop,
      Via6522.t1_t2Cycle, hloop, Via6522.t1_t1Cycle, hpulses.1]
  · have hsettings := settings_viaRunCycles cb 1 via
    exact (Via6522.t1Active_of_settings hsettings).trans (hpulses.2.trans hactive)

/-- The step lemma. -/
theorem T1Live.tick (h : T1Live via) :
    T1Live (viaTick cb via) ∧ viaT1 (viaTick cb via) = (viaT1 via).cycle := by
  obtain ⟨hinv, hsync⟩ := viaSync_viaTick cb h.inv
  obtain ⟨ht1, hactive⟩ := t1_viaRunCycles cb ((viaSync_t1Active via).trans h.active)
  refine ⟨⟨hinv, ?_⟩, ?_⟩
  · rw [← viaSync_t1Active, hsync]
    exact hactive
  · unfold viaT1
    rw [hsync]
    exact ht1

theorem T1Live.ticks (h : T1Live via) (k : Nat) :
    T1Live ((viaTick cb)^[k] via) ∧ viaT1 ((viaTick cb)^[k] via) = T1State.cycle^[k] (viaT1 via) := by
  induction k with
  | zero => exact ⟨h, rfl⟩
  | succ k ih =>
    obtain ⟨hlive, hcycle⟩ := ih.1.tick cb
    rw [iterate_succ_apply', iterate_succ_apply']
    exact ⟨hlive, hcycle.trans (congrArg T1State.cycle ih.2)⟩

/-- The next tick raises the flag: it is set after it, if it is cleared before it. -/
def T1Raises (cb : ViaCallbacks σ) (via : ViaSys σ) : Prop :=
  (viaTick cb { via with ifr := via.ifr &&& ~~~viaIntT1 }).ifr &&& viaIntT1 ≠ 0#8

theorem T1Live.raises (h : T1Live via) : T1Raises cb via ↔ (viaT1 via).fires = true := by
  have hbit : ∀ b : Byte, (b &&& ~~~viaIntT1 &&& viaIntT1 != 0#8) = false := by decide
  have hsync : viaSync { via with ifr := via.ifr &&& ~~~viaIntT1 } =
      { viaSync via with ifr := via.ifr &&& ~~~viaIntT1 } := by
    rw [viaSync_eq, viaSync_eq via]
    rfl
  have hview : viaT1 { via with ifr := via.ifr &&& ~~~viaIntT1 } =
      { viaT1 via with flag := false } := by
    unfold viaT1
    rw [hsync, ← hbit via.ifr]
    rfl
  have hlive : T1Live { via with ifr := via.ifr &&& ~~~viaIntT1 } := ⟨h.inv, h.active⟩
  have hflag := congrArg T1State.flag (hlive.tick cb).2
  rw [viaT1_flag, hview, T1State.cycle_flag, Bool.false_or] at hflag
  have hfires : T1State.fires { viaT1 via with flag := false } = (viaT1 via).fires := rfl
  rw [T1Raises, ← hfires, ← hflag, bne_iff_ne]

/-! ## Writes -/

/-- `VIA_T1CH`. -/
def viaT1ch : Byte := 0x05#8

/-- `VIA_T1LL`. -/
def viaT1ll : Byte := 0x06#8

/-- `VIA_T1LH`. -/
def viaT1lh : Byte := 0x07#8

theorem T1Live.of_settled (hsettled : deferred via = (0#16, 0#16)) (hactive : via.t1Active = true) :
    T1Live via ∧ viaT1 via = via.toVia6522.t1 :=
  ⟨⟨lazyInv_of_settled hsettled, hactive⟩, by rw [viaT1, viaSync_of_settled hsettled]⟩

/-- Only flag 7 moves with the interrupt line. -/
theorem t1_viaCheckIrq (via : ViaSys σ) :
    (viaCheckIrq cb via).toVia6522.t1 = via.toVia6522.t1 := by
  have hnone : 0#8 &&& viaIntT1 = 0#8 := by decide
  have h := Via6522.t1_raise hnone via.toVia6522
  rw [toVia6522_viaCheckIrq]
  unfold Via6522.raise at h
  rwa [show ({ via.toVia6522 with ifr := via.ifr ||| 0#8 } : Via6522) = via.toVia6522 by
    rw [BitVec.or_zero]] at h

/-- Whatever the chip did before, a write to T1C-H starts a period. -/
theorem viaWrite_t1ch (value : Byte) (via : ViaSys σ) :
    T1Live (viaWrite cb viaT1ch value via) ∧
      viaT1 (viaWrite cb viaT1ch value via) =
        .phase (viaWrite cb viaT1ch value via).t1Latch
          ((viaWrite cb viaT1ch value via).acr &&& 0x40#8 != 0#8) 0 0 := by
  have hbit : ∀ b : Byte, (b &&& ~~~viaIntT1 &&& viaIntT1 != 0#8) = false := by decide
  have hsettled : deferred (viaWrite cb viaT1ch value via) = (0#16, 0#16) :=
    deferred_viaApply cb (viaTick cb) via (show (ViaOp.write viaT1ch value).settles from rfl)
  have hreg : viaReg viaT1ch = .t1ch := rfl
  unfold viaWrite at hsettled ⊢
  rw [hreg] at hsettled ⊢
  unfold viaWriteReg at hsettled ⊢
  dsimp only at hsettled ⊢
  generalize hloaded : ({ viaSync via with
    t1Latch := Word.mk value (Word.lo (viaSync via).t1Latch)
    t1Counter := Word.mk value (Word.lo (viaSync via).t1Latch)
    t1Running := true, t1Active := true, t1Reload := true
    ifr := (viaSync via).ifr &&& ~~~viaIntT1, pb7Pin := false } : ViaSys σ) = loaded
    at hsettled ⊢
  have ht1 := t1_viaCheckIrq cb loaded
  have hactive : (viaCheckIrq cb loaded).t1Active = true := by
    rw [toVia6522_viaCheckIrq, ← hloaded]
    rfl
  obtain ⟨hlive, hview⟩ := T1Live.of_settled hsettled hactive
  have hlatch : (viaCheckIrq cb loaded).t1Latch = loaded.t1Latch := congrArg T1State.latch ht1
  have hmode : ((viaCheckIrq cb loaded).acr &&& 0x40#8 != 0#8) = (loaded.acr &&& 0x40#8 != 0#8) :=
    congrArg T1State.freeRun ht1
  refine ⟨hlive, ?_⟩
  rw [hview, ht1, hlatch, hmode, ← hloaded]
  unfold Via6522.t1 T1State.phase
  dsimp only
  rw [hbit]
  simp

/-- A tick, or a latch rewritten. -/
inductive T1Op
  | tick
  | latchLow (value : Byte)
  | latchHigh (value : Byte)

def t1Op (cb : ViaCallbacks σ) (via : ViaSys σ) : T1Op → ViaSys σ
  | .tick => viaTick cb via
  | .latchLow value => viaWrite cb viaT1ll value via
  | .latchHigh value => viaWrite cb viaT1lh value via

theorem viaWrite_latch (h : T1Live via) (high : Bool) (value : Byte) :
    let via' := viaWrite cb (if high then viaT1lh else viaT1ll) value via
    T1Live via' ∧ ∃ flag, viaT1 via' = { viaT1 via with
      latch := if high then Word.mk value (Word.lo (viaT1 via).latch)
        else Word.setLo (viaT1 via).latch value
      flag := flag } := by
  have hsettled : deferred (viaWrite cb (if high then viaT1lh else viaT1ll) value via) =
      (0#16, 0#16) :=
    deferred_viaApply cb (viaTick cb) via
      (show (ViaOp.write (if high then viaT1lh else viaT1ll) value).settles from rfl)
  have hactive := (viaSync_t1Active via).trans h.active
  intro via'
  replace hsettled : deferred via' = (0#16, 0#16) := hsettled
  cases high with
  | false =>
    have hwrite : via' = { viaSync via with
        t1Latch := Word.setLo (viaSync via).t1Latch value } := rfl
    have hactive' : via'.t1Active = true := by
      rw [hwrite]
      exact hactive
    obtain ⟨hlive, hview⟩ := T1Live.of_settled hsettled hactive'
    exact ⟨hlive, (viaT1 via).flag, by rw [hview, hwrite]; rfl⟩
  | true =>
    have hwrite : via' = viaCheckIrq cb { viaSync via with
        t1Latch := Word.mk value (Word.lo (viaSync via).t1Latch)
        ifr := (viaSync via).ifr &&& ~~~viaIntT1 } := rfl
    have hactive' : via'.t1Active = true := by
      rw [hwrite, toVia6522_viaCheckIrq]
      exact hactive
    obtain ⟨hlive, hview⟩ := T1Live.of_settled hsettled hactive'
    exact ⟨hlive, _, by rw [hview, hwrite, t1_viaCheckIrq]; rfl⟩

/-! ## Periods -/

/-- What a period is: it takes the latch at its first tick, the reload cycle, and lasts two ticks
more than that. -/
structure T1Period where
  latch : Word
  /-- The latch the period took, once it did. -/
  loaded : Option Word
  ticks : Nat
  underflows : Nat

namespace T1Period

/-- The next tick ends the period. -/
def Ends (p : T1Period) : Prop := p.ticks = (p.loaded.getD p.latch).toNat + 1

instance (p : T1Period) : Decidable p.Ends := inferInstanceAs (Decidable (_ = _))

def step (p : T1Period) : T1Op → T1Period
  | .tick =>
    if p.Ends then { p with loaded := none, ticks := 0, underflows := p.underflows + 1 }
    else { p with loaded := some (p.loaded.getD p.latch), ticks := p.ticks + 1 }
  | .latchLow value => { p with latch := Word.setLo p.latch value }
  | .latchHigh value => { p with latch := Word.mk value (Word.lo p.latch) }

def start (latch : Word) : T1Period := ⟨latch, none, 0, 0⟩

/-- Timer 1 is where the period says. -/
structure Fits (freeRun : Bool) (p : T1Period) (t : T1State) : Prop where
  latch : t.latch = p.latch
  mode : t.freeRun = freeRun
  running : t.running = (freeRun || p.underflows = 0)
  reload : t.reload = p.loaded.isNone
  ticks : p.loaded = none → p.ticks = 0
  counter : ∀ n, p.loaded = some n → 1 ≤ p.ticks ∧ t.counter.toNat + p.ticks = n.toNat + 1

variable {freeRun : Bool} {p : T1Period} {t : T1State}

theorem Fits.fires (h : Fits freeRun p t) :
    t.fires = true ↔ p.Ends ∧ (freeRun = true ∨ p.underflows = 0) := by
  have hrun : t.running = true ↔ freeRun = true ∨ p.underflows = 0 := by
    rw [h.running]
    simp
  unfold T1State.fires Ends
  cases hloaded : p.loaded with
  | none =>
    have hreload : t.reload = true := by rw [h.reload, hloaded]; rfl
    have hticks := h.ticks hloaded
    simp only [hreload, Bool.not_true, Bool.false_and, Bool.false_eq_true, false_iff, not_and]
    omega
  | some n =>
    have hreload : t.reload = false := by rw [h.reload, hloaded]; rfl
    obtain ⟨-, hcounter⟩ := h.counter n hloaded
    have hzero : t.counter = 0#16 ↔ p.ticks = n.toNat + 1 := by
      rw [← BitVec.toNat_inj, BitVec.toNat_ofNat]
      omega
    simp only [hreload, Bool.not_false, Bool.true_and, Bool.and_eq_true, beq_iff_eq, hzero, hrun,
      Option.getD_some]

theorem Fits.tick (h : Fits freeRun p t) : Fits freeRun (p.step .tick) t.cycle := by
  rcases p with ⟨latch, _ | n, ticks, underflows⟩
  · have hreload : t.reload = true := h.reload
    have hticks : ticks = 0 := h.ticks rfl
    have hstep : step ⟨latch, none, ticks, underflows⟩ .tick =
        ⟨latch, some latch, ticks + 1, underflows⟩ := by
      rw [step, if_neg]
      · rfl
      · rw [Ends, hticks]
        exact nofun
    rw [hstep, T1State.cycle, if_pos hreload]
    refine ⟨h.latch, h.mode, h.running, rfl, nofun, fun n hn => ?_⟩
    obtain rfl : latch = n := Option.some.inj hn
    have hlatch : t.latch = latch := h.latch
    dsimp only
    rw [hlatch, hticks]
    omega
  · have hreload : t.reload = false := h.reload
    obtain ⟨hpos, hcounter⟩ : 1 ≤ ticks ∧ t.counter.toNat + ticks = n.toNat + 1 := h.counter n rfl
    have hzero : t.counter = 0#16 ↔ ticks = n.toNat + 1 := by
      rw [← BitVec.toNat_inj, BitVec.toNat_ofNat]
      omega
    rw [T1State.cycle, if_neg (by rw [hreload]; exact Bool.false_ne_true), step]
    by_cases hend : ticks = n.toNat + 1
    · have hcounter0 := hzero.mpr hend
      rw [if_pos (show Ends ⟨latch, some n, ticks, underflows⟩ from hend),
        if_pos (by rw [hcounter0]; rfl)]
      have hlater : (freeRun || decide (underflows + 1 = 0)) = freeRun := by simp
      by_cases hrun : t.running = true
      · rw [if_pos hrun]
        exact ⟨h.latch, h.mode, h.mode.trans hlater.symm, rfl, fun _ => rfl, nofun⟩
      · have hmode : freeRun = false := by
          rw [Bool.not_eq_true, h.running] at hrun
          exact (Bool.or_eq_false_iff.mp hrun).1
        rw [if_neg hrun]
        refine ⟨h.latch, h.mode, ?_, rfl, fun _ => rfl, nofun⟩
        dsimp only
        rw [hlater, hmode]
        exact Bool.not_eq_true _ ▸ hrun
    · have hlt := t.counter.isLt
      rw [if_neg (show ¬Ends ⟨latch, some n, ticks, underflows⟩ from hend),
        if_neg (by rw [beq_iff_eq, hzero]; exact hend)]
      refine ⟨h.latch, h.mode, h.running, hreload, nofun, fun n' hn => ?_⟩
      obtain rfl : n = n' := Option.some.inj hn
      dsimp only
      rw [BitVec.toNat_sub, BitVec.toNat_ofNat]
      omega

theorem Fits.rewritten (h : Fits freeRun p t) (latch : Word) (flag : Bool) :
    Fits freeRun { p with latch } { t with latch, flag } :=
  ⟨rfl, h.mode, h.running, h.reload, h.ticks, h.counter⟩

theorem fits_start (n : Word) (freeRun : Bool) :
    Fits freeRun (start n) (.phase n freeRun 0 0) :=
  ⟨rfl, rfl, rfl, rfl, fun _ => rfl, nofun⟩

end T1Period

/-- The chip and its period, after any ticks and rewritings. -/
theorem T1Live.run {freeRun : Bool} {p : T1Period} (ops : List T1Op) (h : T1Live via)
    (hfits : p.Fits freeRun (viaT1 via)) :
    T1Live (ops.foldl (t1Op cb) via) ∧
      (ops.foldl T1Period.step p).Fits freeRun (viaT1 (ops.foldl (t1Op cb) via)) := by
  induction ops generalizing via p with
  | nil => exact ⟨h, hfits⟩
  | cons op ops ih =>
    cases op with
    | tick =>
      obtain ⟨hlive, hcycle⟩ := h.tick cb
      exact ih hlive (hcycle ▸ hfits.tick)
    | latchLow value =>
      obtain ⟨hlive, flag, hview⟩ := viaWrite_latch cb h false value
      refine ih hlive ?_
      rw [show t1Op cb via (.latchLow value) = viaWrite cb viaT1ll value via from rfl]
      simp only [Bool.false_eq_true, if_false, hfits.latch] at hview
      rw [hview]
      exact hfits.rewritten _ flag
    | latchHigh value =>
      obtain ⟨hlive, flag, hview⟩ := viaWrite_latch cb h true value
      refine ih hlive ?_
      rw [show t1Op cb via (.latchHigh value) = viaWrite cb viaT1lh value via from rfl]
      simp only [if_true, hfits.latch] at hview
      rw [hview]
      exact hfits.rewritten _ flag

/-- What a period of `N + 2` ticks means for the flag, PB7 and the counter, and the latch rewritten
at any time. -/
theorem viaT1_period (cb : ViaCallbacks σ) (via : ViaSys σ) (value : Byte) :
    let start := viaWrite cb viaT1ch value via
    let n := start.t1Latch.toNat
    let after (k : Nat) := (viaTick cb)^[k] start
    let freeRun := start.acr &&& 0x40#8 ≠ 0#8
    (∀ k, (after k).ifr &&& viaIntT1 ≠ 0#8 ↔ n + 2 ≤ k) ∧
      (∀ k, T1Raises cb (after k) ↔ if freeRun then n + 2 ∣ k + 1 else k + 1 = n + 2) ∧
      (∀ k, (after k).pb7Pin = true ↔ if freeRun then k / (n + 2) % 2 = 1 else n + 2 ≤ k) ∧
      (∀ k, (viaSync (after k)).t1Counter =
        if k = 0 then start.t1Latch else if n + 2 ∣ k then 0xFFFF#16
        else BitVec.ofNat 16 (n - (k % (n + 2) - 1))) ∧
      ∀ ops : List T1Op,
        let period := ops.foldl T1Period.step (.start start.t1Latch)
        T1Raises cb (ops.foldl (t1Op cb) start) ↔
          period.Ends ∧ (freeRun ∨ period.underflows = 0) := by
  intro start n after freeRun
  obtain ⟨hlive, hview⟩ := viaWrite_t1ch cb value via
  have hticks := hlive.ticks cb
  have hafter : ∀ k, viaT1 (after k) = .phase start.t1Latch (start.acr &&& 0x40#8 != 0#8)
      (k / (n + 2)) (k % (n + 2)) := by
    intro k
    rw [(hticks k).2, hview, T1State.cycle_iterate]
  have hmode : (start.acr &&& 0x40#8 != 0#8) = true ↔ freeRun := bne_iff_ne
  have hpositive : ∀ k, 0 < k / (n + 2) ↔ n + 2 ≤ k := fun k => by
    rw [Nat.div_pos_iff]
    omega
  refine ⟨fun k => ?_, fun k => ?_, fun k => ?_, fun k => ?_, fun ops => ?_⟩
  · rw [← bne_iff_ne, ← viaT1_flag, hafter, ← hpositive k]
    exact decide_eq_true_iff
  · have hlt : k % (n + 2) < n + 2 := Nat.mod_lt _ (by omega)
    have hlast : k % (n + 2) = n + 1 ↔ n + 2 ∣ k + 1 := by
      rw [Nat.dvd_iff_mod_eq_zero]
      exact Nat.succ_mod_succ_eq_zero_iff.symm
    rw [(hticks k).1.raises, hafter, T1State.phase_fires hlt, hmode, hlast]
    by_cases hfree : freeRun
    · rw [if_pos hfree, and_iff_left (.inl hfree)]
    · rw [if_neg hfree, or_iff_right hfree]
      constructor
      · rintro ⟨hdvd, hfirst⟩
        have hle : ¬n + 2 ≤ k := fun h => Nat.ne_of_gt ((hpositive k).mpr h) hfirst
        have hge := Nat.le_of_dvd k.succ_pos hdvd
        omega
      · intro hk
        exact ⟨⟨1, by omega⟩, Nat.div_eq_of_lt (by omega)⟩
  · have hpin : (after k).pb7Pin = (viaT1 (after k)).pb7 := by
      unfold viaT1
      rw [viaSync_eq]
      rfl
    rw [hpin, hafter, ← hpositive k]
    unfold T1State.phase
    dsimp only
    by_cases hfree : freeRun
    · rw [if_pos (hmode.mpr hfree), if_pos hfree]
      exact decide_eq_true_iff
    · rw [if_neg (mt hmode.mp hfree), if_neg hfree]
      exact decide_eq_true_iff
  · have hcounter : (viaSync (after k)).t1Counter = (viaT1 (after k)).counter := rfl
    rw [hcounter, hafter]
    unfold T1State.phase
    dsimp only
    by_cases hk : k = 0
    · subst hk
      simp
    · have hdvd : n + 2 ∣ k ↔ k % (n + 2) = 0 := Nat.dvd_iff_mod_eq_zero
      rw [if_neg hk]
      by_cases hr : k % (n + 2) = 0
      · have hq : k / (n + 2) ≠ 0 := by
          intro hq
          have := Nat.div_add_mod k (n + 2)
          rw [hq, hr] at this
          omega
        rw [if_pos hr, if_neg hq, if_pos (hdvd.mpr hr)]
      · rw [if_neg hr, if_neg (mt hdvd.mp hr)]
  · intro period
    have hfits := T1Period.fits_start start.t1Latch (start.acr &&& 0x40#8 != 0#8)
    rw [← hview] at hfits
    obtain ⟨hrun, hend⟩ := T1Live.run cb ops hlive hfits
    rw [hrun.raises, hend.fires, hmode]

end Phosphoric
