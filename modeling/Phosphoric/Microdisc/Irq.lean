import Phosphoric.Microdisc.Controller

/-!
# The interrupt line of the Microdisc

**Theorem (`microdisc_irqLine`).** In every run from `microdiscInit` without a reset, the line that
`cpu_irq_set` and `cpu_irq_clr` drive is asserted exactly if the last value written to $0314 has
INTENA and the WD1793 requests an interrupt.

Three places drive the line, and each leaves it at `MicrodiscIrq`: a request made without INTENA
makes no call, and finds the line low.
-/

namespace Phosphoric

/-- The line after the calls made: low until the first one. -/
def Microdisc.irqLine (md : Microdisc) : Bool := md.cpuIrqCalls.getLastD false

/-- The last value written to the control register, `value` before the first one. -/
def microdiscLastControl (value : Byte) (ops : List MicrodiscOp) : Byte :=
  ops.foldl (fun value op =>
    match op with
    | .write addr v => if addr = 0x0314#16 then v else value
    | _ => value) value

/-- The line follows INTENA and the request. -/
structure MicrodiscIrq (md : Microdisc) : Prop where
  wired : md.cpuWired = true
  line : md.irqLine = (md.status &&& microdiscCtrlIntena != 0#8 && md.intrq == 0x00#8)

theorem cpuIrq_irqLine {md : Microdisc} (hwired : md.cpuWired = true) (level : Bool) :
    (md.cpuIrq level).irqLine = level := by
  rw [Microdisc.cpuIrq, if_pos hwired, Microdisc.irqLine]
  exact List.getLastD_concat ..

theorem cpuIrq_frame (md : Microdisc) (level : Bool) :
    (md.cpuIrq level).cpuWired = md.cpuWired ∧ (md.cpuIrq level).status = md.status ∧
      (md.cpuIrq level).intrq = md.intrq := by
  rw [Microdisc.cpuIrq]
  split_ifs <;> exact ⟨rfl, rfl, rfl⟩

/-- A callback of the WD1793. -/
theorem MicrodiscIrq.signal {md : Microdisc} (h : MicrodiscIrq md) (s : FdcSignal) :
    MicrodiscIrq (microdiscSignal md s) ∧ (microdiscSignal md s).status = md.status := by
  cases s with
  | setDrq => exact ⟨⟨h.wired, h.line⟩, rfl⟩
  | clrDrq => exact ⟨⟨h.wired, h.line⟩, rfl⟩
  | setIntrq =>
    rw [microdiscSignal]
    dsimp only
    by_cases hena : (md.status &&& microdiscCtrlIntena != 0#8) = true
    · have hset : { md with intrq := 0x00#8 }.cpuWired = true := h.wired
      obtain ⟨hwired, hstatus, hintrq⟩ := cpuIrq_frame { md with intrq := 0x00#8 } true
      rw [if_pos hena]
      refine ⟨⟨hwired.trans h.wired, ?_⟩, hstatus⟩
      rw [cpuIrq_irqLine hset, hstatus, hintrq, hena]
      rfl
    · -- no call: the line was low already
      have hline := h.line
      rw [Bool.not_eq_true] at hena
      rw [hena, Bool.false_and] at hline
      rw [if_neg (by simp [hena])]
      refine ⟨⟨h.wired, ?_⟩, rfl⟩
      dsimp only
      rw [hena, Bool.false_and]
      exact hline
  | clrIntrq =>
    have hset : { md with intrq := 0x80#8 }.cpuWired = true := h.wired
    obtain ⟨hwired, hstatus, hintrq⟩ := cpuIrq_frame { md with intrq := 0x80#8 } false
    refine ⟨⟨hwired.trans h.wired, ?_⟩, hstatus⟩
    rw [microdiscSignal, cpuIrq_irqLine hset, hintrq]
    exact (Bool.and_false _).symm

theorem MicrodiscIrq.signals {md : Microdisc} (h : MicrodiscIrq md) (signals : List FdcSignal) :
    MicrodiscIrq (signals.foldl microdiscSignal md) ∧
      (signals.foldl microdiscSignal md).status = md.status := by
  induction signals generalizing md with
  | nil => exact ⟨h, rfl⟩
  | cons s signals ih =>
    obtain ⟨hnext, hstatus⟩ := h.signal s
    obtain ⟨hend, hsame⟩ := ih hnext
    exact ⟨hend, hsame.trans hstatus⟩

theorem MicrodiscIrq.withFdc {md : Microdisc} (h : MicrodiscIrq md) (fdc : Fdc) :
    MicrodiscIrq (md.withFdc fdc) ∧ (md.withFdc fdc).status = md.status := by
  have hcleared : MicrodiscIrq { md with fdc := { fdc with signals := [] } } := ⟨h.wired, h.line⟩
  exact hcleared.signals fdc.signals.reverse

theorem MicrodiscIrq.read {md : Microdisc} (h : MicrodiscIrq md) (addr : Word) :
    MicrodiscIrq (microdiscRead md addr).2 ∧ (microdiscRead md addr).2.status = md.status := by
  unfold microdiscRead
  split_ifs
  · exact h.withFdc _
  · exact ⟨h, rfl⟩
  · exact ⟨h, rfl⟩
  · exact ⟨h, rfl⟩

/-- The control register: the line is driven whichever way the new value and the request say. -/
theorem MicrodiscIrq.control {md : Microdisc} (h : MicrodiscIrq md) (value : Byte) :
    MicrodiscIrq (microdiscControl md value) ∧ (microdiscControl md value).status = value := by
  have hset : { md with status := value }.cpuWired = true := h.wired
  have hdriven : ∀ irq : Bool, irq = (value &&& microdiscCtrlIntena != 0#8 && md.intrq == 0x00#8) →
      let driven := if irq then { md with status := value }.cpuIrq true
        else { md with status := value }.cpuIrq false
      MicrodiscIrq driven ∧ driven.status = value := by
    intro irq hirq
    obtain ⟨hwired, hstatus, hintrq⟩ := cpuIrq_frame { md with status := value } irq
    have hdone : MicrodiscIrq ({ md with status := value }.cpuIrq irq) := by
      refine ⟨hwired.trans h.wired, ?_⟩
      rw [cpuIrq_irqLine hset, hstatus, hintrq]
      exact hirq
    cases irq with
    | true => exact ⟨hdone, hstatus⟩
    | false => exact ⟨hdone, hstatus⟩
  obtain ⟨hdone, hstatus⟩ := hdriven _ rfl
  exact ⟨⟨hdone.wired, hdone.line⟩, hstatus⟩

theorem MicrodiscIrq.selectDrive {md : Microdisc} (h : MicrodiscIrq md) (drive : Fin 4) :
    MicrodiscIrq (microdiscSelectDrive md drive) := ⟨h.wired, h.line⟩

theorem MicrodiscIrq.write {md : Microdisc} (h : MicrodiscIrq md) (addr : Word) (value : Byte) :
    MicrodiscIrq (microdiscWrite md addr value) ∧
      (microdiscWrite md addr value).status = if addr = 0x0314#16 then value else md.status := by
  rw [microdiscWrite]
  by_cases hfdc : (addr ≥ 0x0310#16 && addr ≤ 0x0313#16) = true
  · have hne : addr ≠ 0x0314#16 := by
      rintro rfl
      exact absurd hfdc (by decide)
    obtain ⟨hdone, hstatus⟩ := h.withFdc (fdcWrite md.fdc (Word.lo (addr &&& 3#16)) value)
    rw [if_pos hfdc, if_neg hne, microdiscMarkDirty]
    split_ifs
    · exact ⟨⟨hdone.wired, hdone.line⟩, hstatus⟩
    · exact ⟨hdone, hstatus⟩
  · rw [if_neg hfdc]
    by_cases hctrl : addr = 0x0314#16
    · obtain ⟨hdone, hstatus⟩ := h.control value
      rw [if_pos (beq_iff_eq.mpr hctrl), if_pos hctrl]
      dsimp only
      split_ifs
      · exact ⟨hdone.selectDrive _, hstatus⟩
      · exact ⟨hdone, hstatus⟩
    · rw [if_neg (by simpa using hctrl), if_neg hctrl]
      exact ⟨h, rfl⟩

/-- The step lemma: only a write to $0314 changes the value remembered. -/
theorem microdiscStep_irq {md : Microdisc} (h : MicrodiscIrq md) (op : MicrodiscOp)
    (hop : op ≠ .reset) :
    MicrodiscIrq (microdiscStep md op) ∧
      (microdiscStep md op).status = microdiscLastControl md.status [op] := by
  cases op with
  | write addr value => exact h.write addr value
  | read addr => exact h.read addr
  | ticktock cycles => exact h.withFdc _
  | setDisk drive data size tracks sectorsPerTrack =>
    show MicrodiscIrq (microdiscSetDisk ..) ∧ (microdiscSetDisk ..).status = md.status
    rw [microdiscSetDisk]
    cases microdiscDrive drive with
    | none => exact ⟨h, rfl⟩
    | some d =>
      dsimp only
      split_ifs <;> exact ⟨⟨h.wired, h.line⟩, rfl⟩
  | setWriteProtect drive on =>
    show MicrodiscIrq (microdiscSetWriteProtect ..) ∧
      (microdiscSetWriteProtect ..).status = md.status
    rw [microdiscSetWriteProtect]
    cases microdiscDrive drive with
    | none => exact ⟨h, rfl⟩
    | some d =>
      dsimp only
      split_ifs <;> exact ⟨⟨h.wired, h.line⟩, rfl⟩
  | addBadSector drive side track sector =>
    show MicrodiscIrq (microdiscAddBadSector ..).2 ∧ (microdiscAddBadSector ..).2.status = md.status
    rw [microdiscAddBadSector]
    cases microdiscDrive drive with
    | none => exact ⟨h, rfl⟩
    | some d =>
      dsimp only
      cases fdcBadMapAdd (md.badMap d) side track sector with
      | none => exact ⟨h, rfl⟩
      | some map =>
        dsimp only
        rw [microdiscSyncBadMap]
        split_ifs <;> exact ⟨⟨h.wired, h.line⟩, rfl⟩
  | reset => exact absurd rfl hop

theorem microdiscRun_irq (ops : List MicrodiscOp) {md : Microdisc} (h : MicrodiscIrq md)
    (hops : .reset ∉ ops) :
    MicrodiscIrq (microdiscRun md ops) ∧
      (microdiscRun md ops).status = microdiscLastControl md.status ops := by
  induction ops generalizing md with
  | nil => exact ⟨h, rfl⟩
  | cons op ops ih =>
    have hop : op ≠ .reset := fun heq => hops (heq ▸ .head _)
    obtain ⟨hnext, hstatus⟩ := microdiscStep_irq h op hop
    obtain ⟨hend, hlast⟩ := ih hnext fun hmem => hops (.tail _ hmem)
    refine ⟨hend, hlast.trans ?_⟩
    rw [hstatus]
    rfl

/-- From a controller just initialised, whose status is 0. -/
theorem microdisc_irqLine (heap : Heap Ptr Byte) (ops : List MicrodiscOp) (hops : .reset ∉ ops) :
    let md := microdiscRun (microdiscInit heap true) ops
    md.irqLine =
      (microdiscLastControl 0#8 ops &&& microdiscCtrlIntena != 0#8 && md.intrq == 0x00#8) := by
  intro md
  have hinit : MicrodiscIrq (microdiscInit heap true) := ⟨rfl, (Bool.and_false _).symm⟩
  obtain ⟨hend, hlast⟩ := microdiscRun_irq ops hinit hops
  have hline := hend.line
  rwa [hlast] at hline

/-- An interrupt requested before INTENA is set: a Restore without a medium, then the control
register. -/
theorem microdisc_irqLine_late :
    let ops : List MicrodiscOp := [.write 0x0310 0x00, .write 0x0314 0x01]
    let md := microdiscRun (microdiscInit ⟨fun _ => 0#8, []⟩ true) ops
    md.irqLine =
      (microdiscLastControl 0#8 ops &&& microdiscCtrlIntena != 0#8 && md.intrq == 0x00#8) :=
  microdisc_irqLine ⟨fun _ => 0#8, []⟩ [.write 0x0310 0x00, .write 0x0314 0x01] (by simp)

end Phosphoric
