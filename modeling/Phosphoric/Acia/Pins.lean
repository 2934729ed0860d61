import Phosphoric.Acia.Receiver
import Phosphoric.Lib.Machine

/-!
# The modem pins in the status register

The levels of DCD and DSR are fields of the chip, and bits of its status register too. Every
operation keeps the two alike but a reset, which writes the whole register.

**Theorem (`pins_shown_iff`).** In a run every operation leaves the bits equal to the pins if and
only if no reset is made while a pin is inactive.
-/

namespace Phosphoric

/-- The bits of the pins, and the pins. -/
def Acia6551.modem (acia : Acia6551) : Byte × Bool × Bool :=
  (acia.status &&& (aciaStatusDcd ||| aciaStatusDsr), acia.dcd, acia.dsr)

/-- The bits are the levels of the pins, active low. -/
def Acia6551.PinsShown (acia : Acia6551) : Prop :=
  (acia.status &&& aciaStatusDcd = 0#8 ↔ acia.dcd = true) ∧
    (acia.status &&& aciaStatusDsr = 0#8 ↔ acia.dsr = true)

/-- What happens to the chip, its reset pin included. -/
inductive AciaEvent
  | op (op : AciaOp)
  | reset
  deriving DecidableEq

section Pins

variable {acia acia' : Acia6551}

/-! ## Operations that keep the bits -/

theorem Acia6551.PinsShown.congr (h : acia'.modem = acia.modem) :
    acia'.PinsShown ↔ acia.PinsShown := by
  obtain ⟨hbits, hpins⟩ := Prod.mk.inj h
  obtain ⟨hdcd, hdsr⟩ := Prod.mk.inj hpins
  have hbit : ∀ bit : Byte, (aciaStatusDcd ||| aciaStatusDsr) &&& bit = bit →
      acia'.status &&& bit = acia.status &&& bit := by
    intro bit hbit
    rw [← hbit, ← BitVec.and_assoc, ← BitVec.and_assoc, hbits]
  rw [Acia6551.PinsShown, Acia6551.PinsShown, hbit _ (by decide), hbit _ (by decide), hdcd, hdsr]

/-- Setting or clearing bits other than DCD and DSR. -/
theorem status_modem : ∀ bits ∈ [aciaStatusIrq, aciaStatusTdre, aciaStatusRdrf, aciaStatusOvrn,
      aciaStatusRdrf ||| aciaStatusOvrn ||| aciaStatusPe ||| aciaStatusFe],
    ∀ s : Byte,
      (s ||| bits) &&& (aciaStatusDcd ||| aciaStatusDsr) = s &&& (aciaStatusDcd ||| aciaStatusDsr) ∧
        (s &&& ~~~bits) &&& (aciaStatusDcd ||| aciaStatusDsr) =
          s &&& (aciaStatusDcd ||| aciaStatusDsr) := by
  decide

theorem modem_flags {a b : Acia6551} (hstatus : a.status &&& (aciaStatusDcd ||| aciaStatusDsr) =
      b.status &&& (aciaStatusDcd ||| aciaStatusDsr))
    (hdcd : a.dcd = b.dcd) (hdsr : a.dsr = b.dsr) : a.modem = b.modem := by
  rw [Acia6551.modem, Acia6551.modem, hstatus, hdcd, hdsr]

@[simp] theorem modem_assertIrq (acia : Acia6551) : (aciaAssertIrq acia).modem = acia.modem := by
  unfold aciaAssertIrq
  split_ifs <;> rfl

@[simp] theorem modem_deassertIrq (acia : Acia6551) :
    (aciaDeassertIrq acia).modem = acia.modem := by
  by_cases hline : acia.irqLine = true
  · simp only [aciaDeassertIrq, hline, if_true]
    rfl
  · simp only [aciaDeassertIrq, hline]
    rfl

@[simp] theorem modem_updateIrq (acia : Acia6551) : (aciaUpdateIrq acia).modem = acia.modem := by
  have hflags := status_modem aciaStatusIrq (by simp) acia.status
  unfold aciaUpdateIrq
  dsimp only
  split_ifs
  · rw [modem_assertIrq]
    exact modem_flags hflags.1 rfl rfl
  · rw [modem_deassertIrq]
    exact modem_flags hflags.2 rfl rfl

@[simp] theorem modem_updateTiming (acia : Acia6551) :
    (aciaUpdateTiming acia).modem = acia.modem := by
  unfold aciaUpdateTiming
  by_cases hv23 : (aciaCalcFramebits acia).v23Mode = true
  · simp only [hv23, if_true]
    rfl
  · simp only [hv23]
    rfl

@[simp] theorem modem_irqTransit (acia : Acia6551) (cycles : Int) :
    (aciaIrqTransit acia cycles).modem = acia.modem := by
  unfold aciaIrqTransit
  dsimp only
  split_ifs <;> rfl

@[simp] theorem modem_echo (acia : Acia6551) (byte : Byte) :
    (aciaEcho acia byte).modem = acia.modem := by
  have hflags := status_modem aciaStatusTdre (by simp) acia.status
  unfold aciaEcho
  split_ifs
  · exact modem_flags hflags.2 rfl rfl
  · rfl

@[simp] theorem modem_receive (acia : Acia6551) (byte : Byte) :
    (aciaReceive acia byte).modem = acia.modem := by
  have hrdrf := fun s => (status_modem aciaStatusRdrf (by simp) s).1
  have hovrn := fun s => (status_modem aciaStatusOvrn (by simp) s).1
  unfold aciaReceive
  split
  · split_ifs
    · exact modem_flags (hrdrf _) rfl rfl
    · split
      · rfl
      · exact modem_flags (hovrn _) rfl rfl
  · refine modem_flags ?_ rfl rfl
    dsimp only
    rw [hrdrf]
    split_ifs
    · exact hovrn _
    · rfl

@[simp] theorem modem_loadNext (acia : Acia6551) : (aciaLoadNext acia).modem = acia.modem := by
  have hflags := status_modem aciaStatusRdrf (by simp) acia.status
  unfold aciaLoadNext
  split
  · exact modem_flags hflags.1 rfl rfl
  · rfl

@[simp] theorem modem_read (acia : Acia6551) (reg : AciaReg) :
    (aciaRead acia reg).2.modem = acia.modem := by
  cases reg with
  | data =>
    simp only [aciaRead, modem_updateIrq, modem_loadNext]
    exact modem_flags (status_modem _ (by simp) acia.status).2 rfl rfl
  | status =>
    have hcleared : ∀ b : Acia6551,
        { b with status := b.status &&& ~~~aciaStatusIrq }.modem = b.modem := fun b =>
      modem_flags (status_modem aciaStatusIrq (by simp) b.status).2 rfl rfl
    simp only [aciaRead]
    split_ifs
    · rw [modem_updateIrq, modem_deassertIrq, hcleared]
    · rw [modem_deassertIrq, hcleared]
  | command => rfl
  | control => rfl

theorem modem_write (acia : Acia6551) {reg : AciaReg} (hreg : reg ≠ .status) (value : Byte) :
    (aciaWrite acia reg value).modem = acia.modem := by
  cases reg with
  | data =>
    simp only [aciaWrite, modem_updateIrq]
    exact modem_flags (status_modem aciaStatusTdre (by simp) acia.status).2 rfl rfl
  | status => exact absurd rfl hreg
  | command =>
    simp only [aciaWrite, modem_updateIrq, modem_updateTiming]
    rfl
  | control =>
    simp only [aciaWrite, modem_updateTiming]
    rfl

/-! ## Pins that move, and resets -/

/-- The bit of the one pin is set or cleared, that of the other kept. -/
theorem status_line : ∀ s : Byte,
    ((s &&& ~~~aciaStatusDcd) &&& aciaStatusDcd = 0#8 ∧
      (s ||| aciaStatusDcd) &&& aciaStatusDcd ≠ 0#8 ∧
      (s &&& ~~~aciaStatusDcd) &&& aciaStatusDsr = s &&& aciaStatusDsr ∧
      (s ||| aciaStatusDcd) &&& aciaStatusDsr = s &&& aciaStatusDsr) ∧
    (s &&& ~~~aciaStatusDsr) &&& aciaStatusDsr = 0#8 ∧
      (s ||| aciaStatusDsr) &&& aciaStatusDsr ≠ 0#8 ∧
      (s &&& ~~~aciaStatusDsr) &&& aciaStatusDcd = s &&& aciaStatusDcd ∧
      (s ||| aciaStatusDsr) &&& aciaStatusDcd = s &&& aciaStatusDcd := by
  decide

theorem Acia6551.PinsShown.setLine (h : acia.PinsShown) (line : AciaLine) :
    (aciaSetLine acia line).PinsShown := by
  obtain ⟨hdcd, hdsr⟩ := h
  obtain ⟨⟨hdcdOff, hdcdOn, hdsrOff, hdsrOn⟩, hdsrOff', hdsrOn', hdcdOff', hdcdOn'⟩ :=
    status_line acia.status
  cases line with
  | dcd active =>
    have hshown : { acia with
        dcd := active
        status := if active then acia.status &&& ~~~aciaStatusDcd
          else acia.status ||| aciaStatusDcd }.PinsShown := by
      cases active
      · exact ⟨iff_of_false hdcdOn Bool.false_ne_true, by simpa [hdsrOn] using hdsr⟩
      · exact ⟨iff_of_true hdcdOff rfl, by simpa [hdsrOff] using hdsr⟩
    by_cases hmoved : (acia.dcd != active) = true
    · rw [aciaSetLine, if_pos hmoved]
      exact (Acia6551.PinsShown.congr (modem_updateIrq _)).mpr hshown
    · rw [aciaSetLine, if_neg hmoved]
      exact hshown
  | dsr active =>
    cases active
    · exact ⟨by simpa [aciaSetLine, hdcdOn'] using hdcd, iff_of_false hdsrOn' Bool.false_ne_true⟩
    · exact ⟨by simpa [aciaSetLine, hdcdOff'] using hdcd, iff_of_true hdsrOff' rfl⟩
  | cts active => exact ⟨hdcd, hdsr⟩

/-- A reset clears both bits. -/
theorem pinsShown_reset : (aciaReset acia).PinsShown ↔ acia.dcd = true ∧ acia.dsr = true := by
  rw [aciaReset, Acia6551.PinsShown.congr (modem_deassertIrq _), Acia6551.PinsShown]
  dsimp only
  rw [show aciaStatusTdre &&& aciaStatusDcd = 0#8 from rfl,
    show aciaStatusTdre &&& aciaStatusDsr = 0#8 from rfl]
  simp

end Pins

/-! ## The chip and its backend -/

section Steps

variable {β : Type} (backend : SerialBackend β)

theorem pinsShown_called {sys : AciaSys β} (h : sys.PinsShown) (lines : List AciaLine) (peer : β) :
    (sys.called lines peer).PinsShown := by
  have hlines : ∀ acia : Acia6551, acia.PinsShown → (lines.foldl aciaSetLine acia).PinsShown := by
    induction lines with
    | nil => exact fun _ hshown => hshown
    | cons line lines ih => exact fun _ hshown => ih _ (hshown.setLine line)
  exact hlines _ h

theorem pinsShown_send {sys : AciaSys β} (h : sys.PinsShown) :
    (aciaSend backend sys).PinsShown := by
  unfold aciaSend
  split
  · exact pinsShown_called h _ _
  · exact h

theorem pinsShown_tickTx {sys : AciaSys β} (h : sys.PinsShown) (cycles : Int) :
    (aciaTickTx backend sys cycles).PinsShown := by
  have hsent : (aciaSend backend (sys.withAcia
      { sys.toAcia6551 with txCycles := sys.txCycles - cycles })).PinsShown :=
    pinsShown_send backend h
  unfold aciaTickTx
  dsimp only
  split_ifs
  · generalize aciaSend backend _ = sent at hsent ⊢
    have hready : { sent.toAcia6551 with
        txPending := false, status := sent.status ||| aciaStatusTdre
        txCycles := sent.txReload }.modem = sent.modem :=
      modem_flags (status_modem aciaStatusTdre (by simp) sent.status).1 rfl rfl
    exact (Acia6551.PinsShown.congr ((modem_updateIrq _).trans hready)).mpr hsent
  · exact h
  · exact h

theorem pinsShown_take {sys : AciaSys β} (h : sys.PinsShown) :
    (aciaTake backend sys).PinsShown := by
  unfold aciaTake
  split
  · rename_i peer hpeer
    obtain ⟨byte, lines, peer'⟩ := backend.recv peer
    have hcalled := pinsShown_called h lines peer'
    cases byte with
    | none => exact hcalled
    | some raw =>
      refine (Acia6551.PinsShown.congr ?_).mpr hcalled
      exact (modem_updateIrq _).trans ((modem_echo _ _).trans (modem_receive _ _))
  · exact h

theorem pinsShown_rxDue {sys : AciaSys β} (h : sys.PinsShown) :
    (aciaRxDue backend sys).PinsShown := by
  have hpoll : (aciaPoll backend sys).2.PinsShown := by
    unfold aciaPoll
    split
    · exact pinsShown_called h _ _
    · exact h
  unfold aciaRxDue
  dsimp only
  split_ifs
  · exact pinsShown_take backend hpoll
  · exact hpoll

theorem pinsShown_tick {sys : AciaSys β} (h : sys.PinsShown) (cycles : Int) :
    (aciaTick backend sys cycles).PinsShown := by
  have htransit : (sys.withAcia (aciaIrqTransit sys.toAcia6551 cycles)).PinsShown :=
    (Acia6551.PinsShown.congr (modem_irqTransit _ _)).mpr h
  unfold aciaTick
  dsimp only
  split_ifs
  · exact htransit
  · exact htransit
  · unfold aciaTickRx
    dsimp only
    split_ifs
    · exact pinsShown_rxDue backend (pinsShown_tickTx backend htransit cycles)
    · exact pinsShown_tickTx backend htransit cycles

/-! ## Runs -/

def aciaEventStep (sys : AciaSys β) : AciaEvent → AciaSys β
  | .op op => aciaStep backend sys op
  | .reset => sys.withAcia (aciaReset sys.toAcia6551)

/-- The event is no reset, programmed or by the pin, or both pins are active. -/
def ResetsActive (sys : AciaSys β) : AciaEvent → Prop
  | .op (.write .status _) => sys.dcd = true ∧ sys.dsr = true
  | .op _ => True
  | .reset => sys.dcd = true ∧ sys.dsr = true

/-- The step lemma. -/
theorem pinsShown_step_iff {sys : AciaSys β} (h : sys.PinsShown) (event : AciaEvent) :
    (aciaEventStep backend sys event).PinsShown ↔ ResetsActive sys event := by
  cases event with
  | reset => exact pinsShown_reset
  | op op =>
    cases op with
    | tick cycles => exact iff_of_true (pinsShown_tick backend h cycles) trivial
    | read reg => exact iff_of_true ((Acia6551.PinsShown.congr (modem_read _ reg)).mpr h) trivial
    | write reg value =>
      cases reg with
      | status => exact pinsShown_reset
      | data =>
        refine iff_of_true ?_ trivial
        exact (Acia6551.PinsShown.congr (modem_write _ (by decide) value)).mpr h
      | command =>
        refine iff_of_true ?_ trivial
        exact (Acia6551.PinsShown.congr (modem_write _ (by decide) value)).mpr h
      | control =>
        refine iff_of_true ?_ trivial
        exact (Acia6551.PinsShown.congr (modem_write _ (by decide) value)).mpr h
    | line line => exact iff_of_true (h.setLine line) trivial

theorem pinsShown_start (config : AciaConfig) (peer : Option β) :
    (aciaStart config peer).PinsShown := by
  have hinit : aciaInit.PinsShown :=
    (Acia6551.PinsShown.congr (modem_updateTiming _)).mpr ⟨by decide, by decide⟩
  have hset : (aciaSetUp config).modem = aciaInit.modem := by
    unfold aciaSetUp
    cases config.rxFifoSize with
    | none => exact (modem_updateTiming _).trans (modem_updateTiming _)
    | some size => exact (modem_updateTiming _).trans (modem_updateTiming _)
  exact (Acia6551.PinsShown.congr hset).mpr hinit

/-- The bits equal the pins after every event of a run if and only if no reset is made while a pin
is inactive. -/
theorem pins_shown_iff (config : AciaConfig) (peer : Option β) (events : List AciaEvent) :
    Machine.Throughout (aciaEventStep backend)
        (fun sys event => (aciaEventStep backend sys event).PinsShown) events
        (aciaStart config peer) ↔
      Machine.Throughout (aciaEventStep backend) ResetsActive events (aciaStart config peer) :=
  @Machine.Throughout.next_iff _ _ (aciaEventStep backend) ResetsActive (fun _ => True)
    (fun sys => sys.PinsShown) (fun _ _ _ _ => trivial)
    (fun _ event _ h => pinsShown_step_iff backend h event) events _ trivial
    (pinsShown_start config peer)

end Steps

/-- Without the carrier, a programmed reset clears the bit that says so. -/
theorem reset_hides_dcd :
    let sys := aciaEventStep queueBackend (aciaEventStep queueBackend
      (aciaStart (plainConfig true) none) (.op (.line (.dcd false)))) (.op (.write .status 0#8))
    sys.dcd = false ∧ (aciaRead sys.toAcia6551 .status).1 &&& aciaStatusDcd = 0#8 ∧
      ¬sys.PinsShown := by
  intro sys
  refine ⟨by decide, by decide, ?_⟩
  rintro ⟨hdcd, -⟩
  exact absurd (hdcd.mp (by decide)) (by decide)

end Phosphoric
