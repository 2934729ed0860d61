import Phosphoric.Lib.Word

/-!
# The PIA 6821

The two sides of `src/io/pia6821.c` have the same registers and differ in the access that strobes
C2. The flags in a control register make the interrupt of its side, and `irq_out` is told of each
change that `pia_update_irqa` finds. A reset clears the interrupt and tells nobody.
-/

namespace Phosphoric

/-- The registers, pins and interrupt of a side; `irqOut` is the last value given to `irqa_out` or
`irqb_out`, `false` before any. -/
structure PiaSide where
  ddr : Byte
  output : Byte
  input : Byte
  cr : Byte
  c1 : Bool
  c2 : Bool
  irq : Bool
  irqOut : Bool
  deriving DecidableEq

/-- `PIA_CR_IRQ1_ENABLE`. -/
def piaCrIrq1Enable : Byte := 0x01
def piaCrIrq1Edge : Byte := 0x02
def piaCrDdrSelect : Byte := 0x04
def piaCrC2Low : Byte := 0x08
def piaCrC2High : Byte := 0x10
def piaCrC2Output : Byte := 0x20
def piaCrIrq2Flag : Byte := 0x40
def piaCrIrq1Flag : Byte := 0x80

/-- `pia_irq_from_cr`. -/
def piaIrqFromCr (cr : Byte) : Bool :=
  let irq1 := cr &&& piaCrIrq1Flag != 0#8 && cr &&& piaCrIrq1Enable != 0#8
  let irq2 := cr &&& piaCrC2Output == 0#8 && cr &&& piaCrIrq2Flag != 0#8 &&
    cr &&& piaCrC2Low != 0#8
  irq1 || irq2

namespace PiaSide

/-- `pia_update_irqa`, `pia_update_irqb`. -/
def updateIrq (s : PiaSide) : PiaSide :=
  let irq := piaIrqFromCr s.cr
  if irq != s.irq then { s with irq := irq, irqOut := irq } else s

/-- `pia6821_init` and `pia6821_reset`: the callbacks are kept, and not called. -/
def reset (s : PiaSide) : PiaSide :=
  { ddr := 0, output := 0, input := 0, cr := 0, c1 := false, c2 := false, irq := false
    irqOut := s.irqOut }

/-- C2 is an output of the handshake or pulse kind. -/
def strobes (s : PiaSide) : Bool :=
  s.cr &&& piaCrC2Output != 0#8 && s.cr &&& piaCrC2High == 0#8

/-- `pia_write_cra`, `pia_write_crb`: the flags are kept. -/
def writeControl (value : Byte) (s : PiaSide) : PiaSide :=
  let wasOutput := s.cr &&& piaCrC2Output != 0#8
  let s := { s with cr := (value &&& 0x3F#8) ||| (s.cr &&& 0xC0#8) }
  let s :=
    if s.cr &&& piaCrC2Output != 0#8 then
      if s.cr &&& piaCrC2High != 0#8 then { s with c2 := s.cr &&& piaCrC2Low != 0#8 }
      else if !wasOutput then { s with c2 := true }
      else s
    else s
  s.updateIrq

/-- A pulse ends high, a handshake leaves C2 low. -/
def strobe (s : PiaSide) : PiaSide :=
  if s.strobes then { s with c2 := s.cr &&& piaCrC2Low != 0#8 } else s

/-- `pia6821_read` of `PRA` or `PRB`; a read strobes C2 of side A only. -/
def readData (strobed : Bool) (s : PiaSide) : Byte × PiaSide :=
  if s.cr &&& piaCrDdrSelect != 0#8 then
    let v := (s.output &&& s.ddr) ||| (s.input &&& ~~~s.ddr)
    let s := { s with cr := s.cr &&& ~~~(piaCrIrq1Flag ||| piaCrIrq2Flag) }
    (v, (if strobed then s.strobe else s).updateIrq)
  else (s.ddr, s)

/-- `pia6821_write` of `PRA` or `PRB`; a write strobes C2 of side B only. -/
def writeData (strobed : Bool) (value : Byte) (s : PiaSide) : PiaSide :=
  if s.cr &&& piaCrDdrSelect != 0#8 then
    let s := { s with output := value }
    if strobed then s.strobe else s
  else { s with ddr := value }

/-- `pia_active_edge`. -/
def activeEdge (old new risingActive : Bool) : Bool :=
  if risingActive then !old && new else old && !new

/-- `pia6821_set_ca1`, `pia6821_set_cb1`. -/
def setC1 (level : Bool) (s : PiaSide) : PiaSide :=
  let active := activeEdge s.c1 level (s.cr &&& piaCrIrq1Edge != 0#8)
  let s := { s with c1 := level }
  if active then
    let s := { s with cr := s.cr ||| piaCrIrq1Flag }
    let s := if s.strobes && s.cr &&& piaCrC2Low == 0#8 then { s with c2 := true } else s
    s.updateIrq
  else s

/-- `pia6821_set_ca2`, `pia6821_set_cb2`. -/
def setC2 (level : Bool) (s : PiaSide) : PiaSide :=
  if s.cr &&& piaCrC2Output != 0#8 then s
  else
    let active := activeEdge s.c2 level (s.cr &&& piaCrC2High != 0#8)
    let s := { s with c2 := level }
    if active then { s with cr := s.cr ||| piaCrIrq2Flag }.updateIrq else s

end PiaSide

/-- `pia6821_t`. -/
structure Pia6821 where
  a : PiaSide
  b : PiaSide
  deriving DecidableEq

namespace Pia6821

def reset (pia : Pia6821) : Pia6821 := { a := pia.a.reset, b := pia.b.reset }

/-- `pia6821_read`. -/
def read (rs : BitVec 2) (pia : Pia6821) : Byte × Pia6821 :=
  match rs with
  | 0 => ((pia.a.readData true).1, { pia with a := (pia.a.readData true).2 })
  | 1 => (pia.a.cr, pia)
  | 2 => ((pia.b.readData false).1, { pia with b := (pia.b.readData false).2 })
  | 3 => (pia.b.cr, pia)

/-- `pia6821_write`. -/
def write (rs : BitVec 2) (value : Byte) (pia : Pia6821) : Pia6821 :=
  match rs with
  | 0 => { pia with a := pia.a.writeData false value }
  | 1 => { pia with a := pia.a.writeControl value }
  | 2 => { pia with b := pia.b.writeData true value }
  | 3 => { pia with b := pia.b.writeControl value }

end Pia6821

/-! ## The line -/

namespace PiaSide

variable {s : PiaSide}

/-- The interrupt is the condition of the control register. -/
def Resolved (s : PiaSide) : Prop := s.irq = piaIrqFromCr s.cr

/-- `irqa_out` was last given that condition. -/
def Told (s : PiaSide) : Prop := s.irqOut = piaIrqFromCr s.cr

theorem updateIrq_resolved (s : PiaSide) : s.updateIrq.Resolved := by
  unfold updateIrq Resolved
  dsimp only
  split_ifs with hchange
  · rfl
  · exact (by simpa using hchange : piaIrqFromCr s.cr = s.irq).symm

/-- A change found is told, so that the two stay equal. -/
theorem updateIrq_told (h : s.irqOut = s.irq) : s.updateIrq.Told := by
  unfold updateIrq Told
  dsimp only
  split_ifs with hchange
  · rfl
  · rw [h]
    exact (by simpa using hchange : piaIrqFromCr s.cr = s.irq).symm

/-- Registers and C2 changed, with the interrupt recomputed. -/
theorem updateIrq_of {s' : PiaSide} (hr : s.Resolved) (ht : s.Told) (hirq : s'.irq = s.irq)
    (hout : s'.irqOut = s.irqOut) : s'.updateIrq.Resolved ∧ s'.updateIrq.Told := by
  refine ⟨updateIrq_resolved s', updateIrq_told ?_⟩
  rw [hirq, hout, ht, hr]

theorem strobe_eq (s : PiaSide) :
    s.strobe.cr = s.cr ∧ s.strobe.irq = s.irq ∧ s.strobe.irqOut = s.irqOut := by
  unfold strobe
  split_ifs <;> exact ⟨rfl, rfl, rfl⟩

theorem writeControl_line (hr : s.Resolved) (ht : s.Told) (value : Byte) :
    (s.writeControl value).Resolved ∧ (s.writeControl value).Told := by
  refine updateIrq_of hr ht ?_ ?_ <;> dsimp only <;> split_ifs <;> rfl

theorem readData_line (hr : s.Resolved) (ht : s.Told) (strobed : Bool) :
    (s.readData strobed).2.Resolved ∧ (s.readData strobed).2.Told := by
  unfold readData
  dsimp only
  split_ifs
  · exact updateIrq_of hr ht (strobe_eq _).2.1 (strobe_eq _).2.2
  · exact updateIrq_of hr ht rfl rfl
  · exact ⟨hr, ht⟩

theorem writeData_line (hr : s.Resolved) (ht : s.Told) (strobed : Bool) (value : Byte) :
    (s.writeData strobed value).Resolved ∧ (s.writeData strobed value).Told := by
  unfold writeData
  split_ifs
  · obtain ⟨hcr, hirq, hout⟩ := strobe_eq { s with output := value }
    unfold Resolved Told
    dsimp only
    rw [hcr, hirq, hout]
    exact ⟨hr, ht⟩
  · exact ⟨hr, ht⟩
  · exact ⟨hr, ht⟩

theorem setC1_line (hr : s.Resolved) (ht : s.Told) (level : Bool) :
    (s.setC1 level).Resolved ∧ (s.setC1 level).Told := by
  unfold setC1
  dsimp only
  split_ifs
  · exact updateIrq_of hr ht rfl rfl
  · exact updateIrq_of hr ht rfl rfl
  · exact ⟨hr, ht⟩

theorem setC2_line (hr : s.Resolved) (ht : s.Told) (level : Bool) :
    (s.setC2 level).Resolved ∧ (s.setC2 level).Told := by
  unfold setC2
  dsimp only
  split_ifs
  · exact ⟨hr, ht⟩
  · exact updateIrq_of hr ht rfl rfl
  · exact ⟨hr, ht⟩

/-- After a reset the last value given is right if it is the value of before, no interrupt. -/
theorem reset_line (s : PiaSide) : s.reset.Resolved ∧ (s.reset.Told ↔ s.irqOut = false) := by
  have hnone : piaIrqFromCr 0 = false := by decide
  unfold Resolved Told reset
  dsimp only
  rw [hnone]
  exact ⟨rfl, Iff.rfl⟩

end PiaSide

end Phosphoric
