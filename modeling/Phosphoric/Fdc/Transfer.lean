import Mathlib.Data.List.GetD
import Phosphoric.Fdc.Loaded
import Phosphoric.Fdc.Outstanding

/-!
# A sector through the byte stream

Read Sector and Write Sector in the REAL model, from the command to its INTRQ, under any schedule
of ticks and of accesses to the status and data registers. A ledger runs beside the controller
and notes, for each byte that passes under the head, what the host did about it since its DRQ.

The run has three phases: the sector is awaited, its bytes pass, the command has ended. The status
register is known exactly in each, so that what a byte time does is a computation.
-/

namespace Phosphoric

/-! ## The host -/

/-- What the host does while a sector passes. -/
inductive FdcHostOp
  | tick (cycles : BitVec 32)
  | readStatus
  | readData
  | writeData (value : Byte)

def FdcHostOp.access : FdcHostOp → FdcAccess
  | .tick cycles => .ticktock cycles
  | .readStatus => .read 0
  | .readData => .read 3
  | .writeData value => .write 3 value

/-- The controller, and what became of each byte that passed. -/
structure FdcLedger where
  fdc : Fdc
  /-- The value the host last transferred since the DRQ of the byte under the head. -/
  answer : Option Byte
  /-- The answers when the bytes before it passed. -/
  passed : List (Option Byte)

namespace FdcLedger

/-- A byte time elapsed; the two of the CRC carry no byte. -/
def streamStep (l : FdcLedger) : FdcLedger where
  fdc := fdcStreamStep l.fdc
  answer := if l.fdc.streamCrc then l.answer else none
  passed := if l.fdc.streamCrc then l.passed else l.passed ++ [l.answer]

def streamLoop : Nat → FdcLedger → FdcLedger
  | 0, l => l
  | fuel + 1, l =>
    if l.fdc.stream && l.fdc.streamDue ≤ 0 then streamLoop fuel l.streamStep else l

/-- The controller when a tick comes to the stream. -/
def counted (fdc : Fdc) (cycles : BitVec 32) : Fdc :=
  fdcTickDrq (fdcTickInt
    { fdc with rotPos := (fdc.rotPos + cycles.toNat) % 2 ^ 32 % fdcRevCycles } cycles) cycles

def tick (l : FdcLedger) (cycles : BitVec 32) : FdcLedger :=
  let fdc := counted l.fdc cycles
  if fdc.stream && fdcStreamed fdc then
    streamLoop fdcStreamFuel
      { l with fdc := { fdc with streamDue := cInt (fdc.streamDue - cycles.toInt) } }
  else { l with fdc := fdcTickStream fdc cycles }

def step (l : FdcLedger) : FdcHostOp → FdcLedger
  | .tick cycles => l.tick cycles
  | .readStatus => { l with fdc := (fdcRead l.fdc 0).2 }
  | .readData =>
    { l with
      fdc := (fdcRead l.fdc 3).2
      answer := if fdcOpIsWrite l.fdc.currentop then l.answer else some (fdcRead l.fdc 3).1 }
  | .writeData value => { l with fdc := fdcWrite l.fdc 3 value, answer := some value }

/-- The ledger only watches. -/
theorem streamLoop_fdc (fuel : Nat) (l : FdcLedger) :
    (streamLoop fuel l).fdc = fdcStreamLoop fuel l.fdc := by
  induction fuel generalizing l with
  | zero => rfl
  | succ fuel ih =>
    unfold streamLoop fdcStreamLoop
    split_ifs
    · exact ih l.streamStep
    · rfl

end FdcLedger

/-! ## Where a transfer stands -/

/-- The data field of the sector, and what was there when the command was accepted. -/
structure FdcSectorField where
  start : Ptr
  heap : Heap Ptr Byte
  /-- INTRQs delivered until then. -/
  ints : Nat

def FdcSectorField.cell (f : FdcSectorField) (k : Nat) : Ptr := ⟨f.start.buf, f.start.off + k⟩

/-- The status of a sector transfer. -/
def fdcFlowStatus (drq lost : Bool) : Byte :=
  fdcStBusy ||| fdcStNotReady ||| (if drq then fdcStDrq else 0#8) |||
    if lost then fdcStLostData else 0#8

/-- The status it ends with. -/
def fdcEndStatus (lost : Bool) : Byte := if lost then fdcStLostData else 0#8

variable {f : FdcSectorField} {op : FdcOp} {fdc : Fdc} {drq lost : Bool} {l : FdcLedger}

theorem flowStatus_drq : (fdcFlowStatus drq lost &&& fdcStDrq == 0#8) = !drq := by
  cases drq <;> cases lost <;> rfl

theorem flowStatus_lost : fdcFlowStatus drq lost &&& fdcStLostData = fdcEndStatus lost := by
  cases drq <;> cases lost <;> rfl

theorem flowStatus_setDrq :
    fdcFlowStatus drq lost ||| fdcStDrq = fdcFlowStatus true lost := by
  cases drq <;> cases lost <;> rfl

theorem flowStatus_clrDrq :
    fdcFlowStatus drq lost &&& ~~~fdcStDrq = fdcFlowStatus false lost := by
  cases drq <;> cases lost <;> rfl

theorem flowStatus_setLost :
    fdcFlowStatus drq lost ||| fdcStLostData = fdcFlowStatus drq true := by
  cases drq <;> cases lost <;> rfl

/-- A command accepted and not ended, nothing left from the ones before. -/
structure FdcUnderWay (f : FdcSectorField) (op : FdcOp) (fdc : Fdc) : Prop where
  mode : fdc.timingMode = .real
  op : fdc.currentop = op
  cur : fdc.curSectorData = some f.start
  len : fdc.curSectorLen = 256#16
  secType : fdc.secType = 0#8
  ddStatus : fdc.ddStatus = none
  int : fdc.delayedInt ≤ 0
  ints : fdc.signals.count .setIntrq = f.ints

/-- The sector is on its way to the head. -/
structure FdcAwaited (f : FdcSectorField) (op : FdcOp) (l : FdcLedger) : Prop
    extends FdcUnderWay f op l.fdc where
  stream : l.fdc.stream = false
  drq : 0 < l.fdc.delayedDrq
  status : l.fdc.status = fdcFlowStatus false false
  heap : l.fdc.heap = f.heap
  answer : l.answer = none
  passed : l.passed = []

/-- The sector is under the head. -/
structure FdcPassing (f : FdcSectorField) (op : FdcOp) (fdc : Fdc) : Prop
    extends FdcUnderWay f op fdc where
  stream : fdc.stream = true
  drq : fdc.delayedDrq ≤ 0

/-- The command has ended with the status `st`: its INTRQ is to come or has been delivered. -/
structure FdcEnded (f : FdcSectorField) (st : Byte) (fdc : Fdc) : Prop where
  op : fdc.currentop = .none
  stream : fdc.stream = false
  drq : fdc.delayedDrq ≤ 0
  int : 0 < fdc.delayedInt ∧ fdc.diStatus = some st ∧ fdc.signals.count .setIntrq = f.ints ∨
    fdc.delayedInt ≤ 0 ∧ fdc.status = st ∧ fdc.signals.count .setIntrq = f.ints + 1

/-! ## Ticks -/

theorem fdcTickInt_none (h : fdc.delayedInt ≤ 0) (cycles : BitVec 32) :
    fdcTickInt fdc cycles = fdc := if_neg (not_lt.mpr h)

theorem fdcTickDrq_none (h : fdc.delayedDrq ≤ 0) (cycles : BitVec 32) :
    fdcTickDrq fdc cycles = fdc := if_neg (not_lt.mpr h)

/-- No byte asked for: the watchdog only forgets its age. -/
theorem fdcTickLost_quiet (h : fdc.status &&& fdcStDrq = 0#8 ∨ fdc.currentop = .none)
    (cycles : BitVec 32) : fdcTickLost fdc cycles = { fdc with drqAge := 0 } := by
  unfold fdcTickLost
  rw [if_neg]
  rcases h with h | h
  · simp [h]
  · simp [h, fdcOpTransfersData]

theorem FdcPassing.streamed (h : FdcPassing f op fdc) (hop : op.isSector = true) :
    fdcStreamed fdc = true :=
  (fdcStreamed_iff fdc).mpr ⟨h.mode, by rw [h.op]; exact hop⟩

/-! ## The end of a data field -/

/-- A command for one sector ends with its field; S2 stays. -/
theorem fdcStreamSectorDone_single
    (hop : fdc.currentop = .readSector ∨ fdc.currentop = .writeSector) :
    fdcStreamSectorDone fdc =
      { fdcClrDrq { fdc with stream := false, streamCrc := false } with
        diStatus := some (fdc.secType ||| (fdc.status &&& fdcStLostData)), currentop := .none,
        delayedInt := 1 } := by
  unfold fdcStreamSectorDone
  dsimp only [fdcClrDrq, Fdc.signal]
  rw [if_neg]
  rcases hop with hop | hop <;> simp [hop]

theorem FdcPassing.done (h : FdcPassing f op fdc) (hop : op = .readSector ∨ op = .writeSector)
    (hst : fdc.status = fdcFlowStatus drq lost) :
    FdcEnded f (fdcEndStatus lost) (fdcStreamSectorDone fdc) ∧
      (fdcStreamSectorDone fdc).heap = fdc.heap := by
  rw [fdcStreamSectorDone_single (by rw [h.op]; exact hop)]
  have hcount : (FdcSignal.clrDrq :: fdc.signals).count .setIntrq = f.ints := by
    rw [List.count_cons_of_ne (by decide)]
    exact h.ints
  have hend : some (fdc.secType ||| (fdc.status &&& fdcStLostData)) = some (fdcEndStatus lost) := by
    rw [h.secType, hst, flowStatus_lost, BitVec.zero_or]
  exact ⟨⟨rfl, rfl, h.drq, .inl ⟨Int.one_pos, hend, hcount⟩⟩, rfl⟩

/-! ## Writing -/

/-- What the sector holds once the bytes of `passed` were taken, 0 for one not in time. -/
def FdcSectorField.written (f : FdcSectorField) (passed : List (Option Byte)) (a : Ptr) : Byte :=
  if a.buf = f.start.buf ∧ f.start.off ≤ a.off ∧ a.off < f.start.off + passed.length then
    (passed.getD (a.off - f.start.off) none).getD 0
  else f.heap.load a

theorem FdcSectorField.written_nil (f : FdcSectorField) (a : Ptr) :
    f.written [] a = f.heap.load a := by
  unfold FdcSectorField.written
  rw [if_neg]
  rintro ⟨-, hge, hlt⟩
  exact absurd hlt (by simpa using hge)

theorem FdcSectorField.written_append (f : FdcSectorField) (passed : List (Option Byte))
    (x : Option Byte) (a : Ptr) :
    f.written (passed ++ [x]) a =
      if a = f.cell passed.length then x.getD 0 else f.written passed a := by
  obtain ⟨buf, off⟩ := a
  unfold FdcSectorField.written FdcSectorField.cell
  simp only [Ptr.mk.injEq, List.length_append, List.length_singleton]
  by_cases hlast : buf = f.start.buf ∧ off = f.start.off + passed.length
  · obtain ⟨rfl, rfl⟩ := hlast
    simp
  · rw [if_neg hlast]
    by_cases hin : buf = f.start.buf ∧ f.start.off ≤ off ∧ off < f.start.off + passed.length
    · obtain ⟨hbuf, hge, hlt⟩ := hin
      rw [if_pos ⟨hbuf, hge, by omega⟩, if_pos ⟨hbuf, hge, hlt⟩,
        List.getD_append _ _ _ _ (by omega)]
    · rw [if_neg hin, if_neg]
      rintro ⟨hbuf, hge, hlt⟩
      have hoff : off ≠ f.start.off + passed.length := fun h => hlast ⟨hbuf, h⟩
      exact hin ⟨hbuf, hge, by omega⟩

/-- Some byte of a write was not supplied in time. -/
def fdcMissed (passed : List (Option Byte)) : Bool := passed.any (·.isNone)

theorem fdcMissed_append (passed : List (Option Byte)) (x : Option Byte) :
    fdcMissed (passed ++ [x]) = (fdcMissed passed || x.isNone) := by
  simp [fdcMissed]

/-- A write while its field passes: each byte time that passed has stored its byte, and DRQ asks
for the one under the head. -/
structure FdcWriteFlow (f : FdcSectorField) (l : FdcLedger) : Prop
    extends FdcPassing f .writeSector l.fdc where
  offset : l.fdc.streamCrc = false →
    l.fdc.curOffset.toNat = l.passed.length ∧ l.passed.length < 256
  crc : l.fdc.streamCrc = true → l.passed.length = 256
  status : l.fdc.status =
    fdcFlowStatus (!l.fdc.streamCrc && l.answer.isNone) (fdcMissed l.passed)
  data : ∀ v, l.answer = some v → l.fdc.data = v
  heap : ∀ a, l.fdc.heap.load a = f.written l.passed a
  first : l.passed.head? ≠ some none

/-- A write that has ended: with nothing stored when the first byte was missed, else with a byte
stored for each byte time. -/
structure FdcWriteEnded (f : FdcSectorField) (l : FdcLedger) : Prop
    extends FdcEnded f (fdcEndStatus (fdcMissed l.passed)) l.fdc where
  content : l.passed = [none] ∧ (∀ a, l.fdc.heap.load a = f.heap.load a) ∨
    l.passed.length = 256 ∧ l.passed.head? ≠ some none ∧
      ∀ a, l.fdc.heap.load a = f.written l.passed a

/-- The byte taken, 0 while DRQ is up. -/
theorem fdcStreamPut_flow {p : Ptr} (hcur : fdc.curSectorData = some p)
    (hst : fdc.status = fdcFlowStatus drq lost) :
    ∃ count, fdcStreamPut fdc = { fdc with
      status := fdcFlowStatus drq (lost || drq), lostDataCount := count
      heap := fdc.heap.store ⟨p.buf, p.off + fdc.curOffset.toNat⟩ (if drq then 0#8 else fdc.data)
      curOffset := fdc.curOffset + 1#16, diskModified := true } := by
  unfold fdcStreamPut
  dsimp only
  rw [hst, flowStatus_drq]
  cases drq with
  | false =>
    refine ⟨fdc.lostDataCount, ?_⟩
    rw [Bool.or_false, ← hst]
    simp [Fdc.storeByte, hcur]
  | true =>
    have hstatus : (fdcStreamLost fdc).status = fdcFlowStatus true true := by
      change fdc.status ||| fdcStLostData = _
      rw [hst, flowStatus_setLost]
    refine ⟨(fdcStreamLost fdc).lostDataCount, ?_⟩
    rw [Bool.or_true, ← hstatus]
    simp [Fdc.storeByte, hcur, fdcStreamLost]

/-- The first byte missed: the command ends with nothing stored. -/
theorem FdcWriteFlow.miss (h : FdcWriteFlow f l) (hcrc : l.fdc.streamCrc = false)
    (hanswer : l.answer = none) (hpassed : l.passed = []) : FdcWriteEnded f l.streamStep := by
  have hoff : l.fdc.curOffset = 0#16 := by
    have hlen := (h.offset hcrc).1
    rw [hpassed] at hlen
    exact BitVec.eq_of_toNat_eq hlen
  have hst : l.fdc.status = fdcFlowStatus true false := by
    rw [h.status, hcrc, hanswer, hpassed]
    rfl
  let g : Fdc := fdcClrDrq { fdcStreamLost l.fdc with curOffset := l.fdc.curSectorLen }
  have hstep : fdcStreamStep l.fdc = fdcStreamSectorDone g := by
    have hbytes : ¬l.fdc.streamCrc = true := by simp [hcrc]
    have hwrite : fdcOpIsWrite l.fdc.currentop = true := by rw [h.op]; rfl
    have hmissed : (l.fdc.curOffset == 0#16 && l.fdc.status &&& fdcStDrq != 0#8) = true := by
      rw [hoff, hst]
      rfl
    have hsingle : (l.fdc.currentop == .writeSectors) = false := by rw [h.op]; rfl
    unfold fdcStreamStep fdcStreamStepWrite
    rw [if_neg hbytes, if_pos hwrite, if_pos hmissed]
    change fdcStreamSectorDone { g with
      currentop := if l.fdc.currentop == .writeSectors then .writeSector else l.fdc.currentop } = _
    rw [hsingle]
    rfl
  have hg : FdcPassing f .writeSector g := { h with
    ints := (List.count_cons_of_ne (by decide)).trans h.ints }
  have hgst : g.status = fdcFlowStatus false true := by
    change (l.fdc.status ||| fdcStLostData) &&& ~~~fdcStDrq = _
    rw [hst, flowStatus_setLost, flowStatus_clrDrq]
  obtain ⟨hend, hheap⟩ := hg.done (.inr rfl) hgst
  unfold FdcLedger.streamStep
  rw [hstep, hcrc, hanswer, hpassed]
  refine ⟨hend, .inl ⟨rfl, fun a => ?_⟩⟩
  have hload := h.heap a
  rw [hpassed, f.written_nil] at hload
  rw [hheap]
  exact hload

/-- A byte time of a write that goes on. -/
theorem FdcWriteFlow.put (h : FdcWriteFlow f l) (hcrc : l.fdc.streamCrc = false)
    (hfirst : l.answer = none → l.passed ≠ []) : FdcWriteFlow f l.streamStep := by
  obtain ⟨hoff, hlen⟩ := h.offset hcrc
  have hst : l.fdc.status = fdcFlowStatus l.answer.isNone (fdcMissed l.passed) := by
    rw [h.status, hcrc, Bool.not_false, Bool.true_and]
  have hgo : ¬(l.fdc.curOffset == 0#16 && l.fdc.status &&& fdcStDrq != 0#8) = true := by
    intro hmiss
    rw [Bool.and_eq_true, beq_iff_eq, bne, hst, flowStatus_drq, Bool.not_not] at hmiss
    refine hfirst (Option.isNone_iff_eq_none.mp hmiss.2) (List.eq_nil_of_length_eq_zero ?_)
    rw [← hoff, hmiss.1]
    rfl
  obtain ⟨count, hput⟩ := fdcStreamPut_flow h.cur hst
  have hheap : ∀ a, (l.fdc.heap.store ⟨f.start.buf, f.start.off + l.fdc.curOffset.toNat⟩
      (if l.answer.isNone then 0#8 else l.fdc.data)).load a =
        f.written (l.passed ++ [l.answer]) a := by
    intro a
    have hbyte : (if l.answer.isNone then 0#8 else l.fdc.data) = l.answer.getD 0 := by
      cases hanswer : l.answer with
      | none => rfl
      | some v => exact h.data v hanswer
    rw [f.written_append, hbyte, hoff]
    by_cases ha : a = f.cell l.passed.length
    · rw [if_pos ha, ha]
      exact Heap.store_load_same _ _ _
    · rw [if_neg ha]
      exact (Heap.store_load_ne _ _ ha).trans (h.heap a)
  have hfirst' : (l.passed ++ [l.answer]).head? ≠ some none := by
    cases hpassed : l.passed with
    | nil =>
      intro hnone
      exact hfirst (by simpa using hnone) hpassed
    | cons x xs =>
      have hx := h.first
      rw [hpassed] at hx
      simpa using hx
  have hstep : fdcStreamStep l.fdc = fdcStreamStepWrite l.fdc := by
    unfold fdcStreamStep
    simp only [hcrc, h.op]
    rfl
  unfold FdcLedger.streamStep
  rw [hstep, hcrc, if_neg Bool.false_ne_true, if_neg Bool.false_ne_true]
  unfold fdcStreamStepWrite
  rw [if_neg hgo, hput]
  dsimp only [fdcStreamDrq, fdcClrDrq, Fdc.signal]
  rw [flowStatus_setDrq, flowStatus_clrDrq, ← fdcMissed_append]
  by_cases hmore : l.fdc.curOffset + 1#16 < l.fdc.curSectorLen
  · rw [if_pos hmore]
    rw [h.len] at hmore
    refine ⟨{ h with ints := (List.count_cons_of_ne (by decide)).trans h.ints }, ?_, ?_, ?_, nofun,
      hheap, hfirst'⟩
    · intro _
      have hnext : (l.fdc.curOffset + 1#16).toNat = l.passed.length + 1 := by
        rw [BitVec.toNat_add, hoff]
        simp
        omega
      have hlt : (l.fdc.curOffset + 1#16).toNat < 256 := hmore
      simp only [List.length_append, List.length_singleton]
      exact ⟨hnext, by omega⟩
    · intro hcrc'
      rw [hcrc] at hcrc'
      cases hcrc'
    · change fdcFlowStatus true _ = fdcFlowStatus (!l.fdc.streamCrc && true) _
      rw [hcrc]
      rfl
  · rw [if_neg hmore]
    rw [h.len] at hmore
    refine ⟨{ h with ints := (List.count_cons_of_ne (by decide)).trans h.ints }, nofun, ?_, rfl,
      nofun, hheap, hfirst'⟩
    intro _
    have hge : 256 ≤ (l.fdc.curOffset + 1#16).toNat := Nat.le_of_not_lt hmore
    have hnext : (l.fdc.curOffset + 1#16).toNat = l.passed.length + 1 := by
      rw [BitVec.toNat_add, hoff]
      simp
      omega
    simp only [List.length_append, List.length_singleton]
    omega

/-- A byte time of a write. -/
theorem FdcWriteFlow.step (h : FdcWriteFlow f l) :
    FdcWriteFlow f l.streamStep ∨ FdcWriteEnded f l.streamStep := by
  cases hcrc : l.fdc.streamCrc with
  | false =>
    by_cases hmiss : l.answer = none ∧ l.passed = []
    · exact .inr (h.miss hcrc hmiss.1 hmiss.2)
    · exact .inl (h.put hcrc fun hanswer hpassed => hmiss ⟨hanswer, hpassed⟩)
  | true =>
    have hst : l.fdc.status = fdcFlowStatus false (fdcMissed l.passed) := by
      rw [h.status, hcrc]
      rfl
    have hdrq : ¬(l.fdc.status &&& fdcStDrq != 0#8) = true := by
      rw [bne, hst, flowStatus_drq]
      decide
    obtain ⟨hend, hheap⟩ := h.toFdcPassing.done (.inr rfl) hst
    unfold FdcLedger.streamStep fdcStreamStep
    rw [hcrc, if_pos rfl, if_neg hdrq]
    refine .inr ⟨hend, .inr ⟨h.crc hcrc, h.first, fun a => ?_⟩⟩
    rw [hheap]
    exact h.heap a

/-! ## Reading -/

/-- A read while its field passes: the byte under the head is in the data register, DRQ tells
whether it was read, and what the host read of the ones before is theirs. -/
structure FdcReadFlow (f : FdcSectorField) (l : FdcLedger) : Prop
    extends FdcPassing f .readSector l.fdc where
  offset : l.fdc.streamCrc = false →
    l.fdc.curOffset.toNat = l.passed.length + 1 ∧ l.passed.length < 256
  crc : l.fdc.streamCrc = true → l.passed.length = 256
  heap : l.fdc.heap = f.heap
  data : l.fdc.streamCrc = false → l.fdc.data = f.heap.load (f.cell l.passed.length)
  answer : l.fdc.streamCrc = false →
    ∀ v, l.answer = some v → v = f.heap.load (f.cell l.passed.length)
  delivered : ∀ k v, l.passed[k]? = some (some v) → v = f.heap.load (f.cell k)
  status : ∃ drq lost, l.fdc.status = fdcFlowStatus drq lost ∧
    (l.fdc.streamCrc = false → drq = l.answer.isNone) ∧
    (l.fdc.streamCrc = true → drq = true → fdcMissed l.passed = true) ∧
    (lost = true → fdcMissed l.passed = true)

/-- A read that has ended. -/
structure FdcReadEnded (f : FdcSectorField) (l : FdcLedger) : Prop where
  ended : ∃ lost, FdcEnded f (fdcEndStatus lost) l.fdc ∧
    (lost = true → fdcMissed l.passed = true)
  length : l.passed.length = 256
  heap : l.fdc.heap = f.heap
  delivered : ∀ k v, l.passed[k]? = some (some v) → v = f.heap.load (f.cell k)

/-- A byte passes with its answer. -/
theorem FdcReadFlow.delivered_append (h : FdcReadFlow f l) (hcrc : l.fdc.streamCrc = false) :
    ∀ k v, (l.passed ++ [l.answer])[k]? = some (some v) → v = f.heap.load (f.cell k) := by
  intro k v hk
  rcases Nat.lt_trichotomy k l.passed.length with hlt | heq | hgt
  · rw [List.getElem?_append_left hlt] at hk
    exact h.delivered k v hk
  · subst heq
    rw [List.getElem?_concat_length] at hk
    exact h.answer hcrc v (Option.some.inj hk)
  · rw [List.getElem?_eq_none (by simp; omega)] at hk
    cases hk

/-- The status once a byte not read is written over. -/
theorem fdcStreamLost_flow (hst : fdc.status = fdcFlowStatus drq lost) :
    ∃ count, (if fdc.status &&& fdcStDrq != 0#8 then fdcStreamLost fdc else fdc) =
      { fdc with status := fdcFlowStatus drq (lost || drq), lostDataCount := count } := by
  rw [bne, hst, flowStatus_drq]
  cases drq with
  | false =>
    refine ⟨fdc.lostDataCount, ?_⟩
    rw [Bool.or_false, ← hst]
    rfl
  | true =>
    refine ⟨(fdcStreamLost fdc).lostDataCount, ?_⟩
    rw [Bool.or_true, ← flowStatus_setLost, ← hst]
    rfl

/-- A byte time of a read that goes on. -/
theorem FdcReadFlow.get (h : FdcReadFlow f l) (hcrc : l.fdc.streamCrc = false) :
    FdcReadFlow f l.streamStep := by
  obtain ⟨hoff, hlen⟩ := h.offset hcrc
  obtain ⟨drq, lost, hst, hdrq, -, hlost⟩ := h.status
  obtain ⟨count, hover⟩ := fdcStreamLost_flow hst
  have hmissed : (lost || drq) = true → fdcMissed (l.passed ++ [l.answer]) = true := by
    intro hor
    rw [fdcMissed_append, Bool.or_eq_true]
    rcases Bool.or_eq_true_iff.mp hor with hl | hd
    · exact .inl (hlost hl)
    · exact .inr (by rw [← hdrq hcrc]; exact hd)
  have hstep : fdcStreamStep l.fdc = fdcStreamStepRead l.fdc := by
    unfold fdcStreamStep
    simp only [hcrc, h.op]
    rfl
  have hsucc : l.passed.length + 1 < 256 →
      (l.fdc.curOffset + 1#16).toNat = l.passed.length + 1 + 1 := by
    intro hlt
    rw [BitVec.toNat_add, hoff]
    simp
    omega
  unfold FdcLedger.streamStep
  rw [hstep, hcrc, if_neg Bool.false_ne_true, if_neg Bool.false_ne_true]
  unfold fdcStreamStepRead
  by_cases hmore : l.fdc.curOffset < l.fdc.curSectorLen
  · rw [if_pos hmore]
    have hlt : l.passed.length + 1 < 256 := by
      rw [h.len] at hmore
      rw [← hoff]
      exact hmore
    unfold fdcStreamGet
    rw [hover]
    dsimp only [fdcStreamDrq, Fdc.signal]
    rw [flowStatus_setDrq]
    have hbyte : Fdc.sectorByte { l.fdc with
        status := fdcFlowStatus drq (lost || drq), lostDataCount := count } =
        f.heap.load (f.cell (l.passed ++ [l.answer]).length) := by
      unfold Fdc.sectorByte
      dsimp only
      rw [h.cur, h.heap, hoff, List.length_append, List.length_singleton]
      rfl
    refine ⟨{ h with ints := (List.count_cons_of_ne (by decide)).trans h.ints }, ?_, ?_, h.heap,
      fun _ => hbyte, fun _ => nofun, h.delivered_append hcrc,
      ⟨true, lost || drq, rfl, fun _ => rfl, ?_, hmissed⟩⟩
    · intro _
      rw [List.length_append, List.length_singleton]
      exact ⟨hsucc hlt, hlt⟩
    · intro hcrc'
      rw [hcrc] at hcrc'
      cases hcrc'
    · intro hcrc'
      rw [hcrc] at hcrc'
      cases hcrc'
  · rw [if_neg hmore]
    have hge : 256 ≤ l.passed.length + 1 := by
      rw [h.len] at hmore
      rw [← hoff]
      exact Nat.le_of_not_lt hmore
    refine ⟨{ h with }, nofun, ?_, h.heap, nofun, nofun, h.delivered_append hcrc,
      ⟨drq, lost, hst, nofun, fun _ hd => hmissed (by simp [hd]), fun hl => hmissed (by simp [hl])⟩⟩
    intro _
    simp only [List.length_append, List.length_singleton]
    omega

/-- A byte time of a read. -/
theorem FdcReadFlow.step (h : FdcReadFlow f l) :
    FdcReadFlow f l.streamStep ∨ FdcReadEnded f l.streamStep := by
  cases hcrc : l.fdc.streamCrc with
  | false => exact .inl (h.get hcrc)
  | true =>
    obtain ⟨drq, lost, hst, -, hdrq, hlost⟩ := h.status
    obtain ⟨count, hover⟩ := fdcStreamLost_flow hst
    have hpassing : FdcPassing f .readSector { l.fdc with
        status := fdcFlowStatus drq (lost || drq), lostDataCount := count } := { h with }
    obtain ⟨hend, hheap⟩ := hpassing.done (.inl rfl) rfl
    unfold FdcLedger.streamStep fdcStreamStep
    rw [hcrc, if_pos rfl, hover]
    refine .inr ⟨⟨lost || drq, hend, fun hor => ?_⟩, h.crc hcrc, hheap.trans h.heap, h.delivered⟩
    rcases Bool.or_eq_true_iff.mp hor with hl | hd
    · exact hlost hl
    · exact hdrq hcrc hd

/-! ## Runs -/

/-- What a direction's phases give each other. -/
structure FdcFlowRules (f : FdcSectorField) (op : FdcOp) (Flow Ended : FdcLedger → Prop) :
    Prop where
  single : op = .readSector ∨ op = .writeSector
  passing : ∀ l, Flow l → FdcPassing f op l.fdc
  /-- The beam and the platter turn. -/
  turned : ∀ l, Flow l → ∀ rotPos streamDue,
    Flow { l with fdc := { l.fdc with rotPos, streamDue } }
  start : ∀ l, FdcAwaited f op l → ∀ rotPos,
    Flow { l with fdc := fdcStreamStart { l.fdc with rotPos, delayedDrq := 0 } }
  step : ∀ l, Flow l → Flow l.streamStep ∨ Ended l.streamStep
  ended : ∀ l, Ended l → ∃ lost, FdcEnded f (fdcEndStatus lost) l.fdc
  after : ∀ l, Ended l → ∀ fdc answer,
    (∀ lost, FdcEnded f (fdcEndStatus lost) l.fdc → FdcEnded f (fdcEndStatus lost) fdc) →
    fdc.heap = l.fdc.heap → Ended ⟨fdc, answer, l.passed⟩

/-- Between two operations of the host no byte time is due. -/
def FdcTransfer (f : FdcSectorField) (op : FdcOp) (Flow Ended : FdcLedger → Prop) (l : FdcLedger) :
    Prop :=
  FdcAwaited f op l ∨ Flow l ∧ 0 < l.fdc.streamDue ∨ Ended l

section Phases

variable {Flow Ended : FdcLedger → Prop}

/-- A tick after the end only brings the INTRQ nearer. -/
theorem FdcEnded.tick {st : Byte} (h : FdcEnded f st fdc) (cycles : BitVec 32) :
    FdcEnded f st (fdcTicktock fdc cycles) ∧ (fdcTicktock fdc cycles).heap = fdc.heap ∧
      (fdcTicktock fdc cycles).delayedInt.toNat ≤
        if 0 < fdc.delayedInt then (cInt (fdc.delayedInt - cycles.toNat)).toNat else 0 := by
  have hquiet : ∀ g : Fdc, FdcEnded f st g → fdcTickStream g cycles = { g with drqAge := 0 } := by
    intro g hg
    unfold fdcTickStream
    rw [if_neg (by simp [hg.stream])]
    exact fdcTickLost_quiet (.inr hg.op) cycles
  have hend : ∀ (g : Fdc) (left : Nat), FdcEnded f st g → g.heap = fdc.heap →
      g.delayedInt.toNat ≤ left →
      FdcEnded f st (fdcTickStream (fdcTickDrq g cycles) cycles) ∧
        (fdcTickStream (fdcTickDrq g cycles) cycles).heap = fdc.heap ∧
        (fdcTickStream (fdcTickDrq g cycles) cycles).delayedInt.toNat ≤ left := by
    intro g left hg hheap hleft
    rw [fdcTickDrq_none hg.drq, hquiet g hg]
    exact ⟨{ hg with }, hheap, hleft⟩
  unfold fdcTicktock
  dsimp only
  rcases h.int with ⟨hpos, hst, hcount⟩ | ⟨hnone, hst, hcount⟩
  · rw [if_pos hpos]
    unfold fdcTickInt
    dsimp only
    rw [if_pos hpos]
    split_ifs with hleft
    · refine hend _ _ ⟨h.op, h.stream, h.drq, .inr ⟨le_refl _, ?_, ?_⟩⟩ rfl (Nat.zero_le _)
      · change fdc.diStatus.getD _ = st
        rw [hst]
        rfl
      · change (FdcSignal.setIntrq :: fdc.signals).count .setIntrq = _
        rw [List.count_cons_self, hcount]
    · exact hend _ _ ⟨h.op, h.stream, h.drq, .inl ⟨not_le.mp hleft, hst, hcount⟩⟩ rfl (le_refl _)
  · rw [fdcTickInt_none (by exact hnone), if_neg (not_lt.mpr hnone)]
    refine hend _ _ { h with } rfl ?_
    exact le_of_eq (Int.toNat_of_nonpos hnone)

theorem FdcFlowRules.loop (rules : FdcFlowRules f op Flow Ended) (fuel : Nat) (h : Flow l) :
    Flow (l.streamLoop fuel) ∨ Ended (l.streamLoop fuel) := by
  induction fuel generalizing l with
  | zero => exact .inl h
  | succ fuel ih =>
    unfold FdcLedger.streamLoop
    split_ifs
    · rcases rules.step l h with hflow | hended
      · exact ih hflow
      · obtain ⟨lost, hend⟩ := rules.ended _ hended
        have hstop : ∀ fuel, FdcLedger.streamLoop fuel l.streamStep = l.streamStep := by
          intro fuel
          cases fuel with
          | zero => rfl
          | succ fuel => rw [FdcLedger.streamLoop, if_neg (by simp [hend.stream])]
        rw [hstop]
        exact .inr hended
    · exact .inl h

/-- A tick that finds the field under the head. -/
theorem FdcFlowRules.stream (rules : FdcFlowRules f op Flow Ended) (h : Flow l)
    (cycles : BitVec 32) :
    FdcTransfer f op Flow Ended (FdcLedger.streamLoop fdcStreamFuel
      { l with fdc := { l.fdc with streamDue := cInt (l.fdc.streamDue - cycles.toInt) } }) := by
  have hturned := rules.turned l h l.fdc.rotPos (cInt (l.fdc.streamDue - cycles.toInt))
  rcases rules.loop fdcStreamFuel hturned with hflow | hended
  · refine .inr (.inl ⟨hflow, ?_⟩)
    have hroom := fdcStreamRoom_le
      { l.fdc with streamDue := cInt (l.fdc.streamDue - cycles.toInt) }
    have hsettled := fdcStreamLoop_settles fdcStreamFuel (le_trans hroom (by decide))
    have hstream := (rules.passing _ hflow).stream
    rw [FdcLedger.streamLoop_fdc] at hstream ⊢
    by_contra hdue
    exact hsettled ⟨hstream, not_lt.mp hdue⟩
  · exact .inr (.inr hended)

theorem FdcFlowRules.isSector (rules : FdcFlowRules f op Flow Ended) : op.isSector = true := by
  rcases rules.single with rfl | rfl <;> rfl

/-- Where a tick finds the platter. -/
def fdcTurned (fdc : Fdc) (cycles : BitVec 32) : Nat :=
  (fdc.rotPos + cycles.toNat) % 2 ^ 32 % fdcRevCycles

/-- A tick before the sector comes. -/
theorem FdcAwaited.tick_wait (h : FdcAwaited f op l) {cycles : BitVec 32}
    (hleft : ¬cInt (l.fdc.delayedDrq - cycles.toNat) ≤ 0) :
    l.tick cycles = { l with fdc := { l.fdc with
      rotPos := fdcTurned l.fdc cycles, delayedDrq := cInt (l.fdc.delayedDrq - cycles.toNat)
      drqAge := 0 } } := by
  have hint : fdcTickInt { l.fdc with rotPos := fdcTurned l.fdc cycles } cycles =
      { l.fdc with rotPos := fdcTurned l.fdc cycles } := fdcTickInt_none (by exact h.int) cycles
  have hcount : FdcLedger.counted l.fdc cycles = { l.fdc with
      rotPos := fdcTurned l.fdc cycles
      delayedDrq := cInt (l.fdc.delayedDrq - cycles.toNat) } := by
    change fdcTickDrq (fdcTickInt { l.fdc with rotPos := fdcTurned l.fdc cycles } cycles) cycles = _
    rw [hint]
    unfold fdcTickDrq
    dsimp only
    rw [if_pos h.drq, if_neg hleft]
  have hquiet : l.fdc.status &&& fdcStDrq = 0#8 := by rw [h.status]; rfl
  unfold FdcLedger.tick
  dsimp only
  rw [hcount, if_neg (by simp [h.stream])]
  unfold fdcTickStream
  rw [if_neg (by simp [h.stream]), fdcTickLost_quiet (by exact .inl hquiet)]

/-- The tick the sector comes in. -/
theorem FdcAwaited.tick_start (h : FdcAwaited f op l) (hop : op.isSector = true)
    {cycles : BitVec 32} (hleft : cInt (l.fdc.delayedDrq - cycles.toNat) ≤ 0) :
    l.tick cycles =
      let fdc := fdcStreamStart { l.fdc with rotPos := fdcTurned l.fdc cycles, delayedDrq := 0 }
      FdcLedger.streamLoop fdcStreamFuel
        { l with fdc := { fdc with streamDue := cInt (fdc.streamDue - cycles.toInt) } } := by
  have hint : fdcTickInt { l.fdc with rotPos := fdcTurned l.fdc cycles } cycles =
      { l.fdc with rotPos := fdcTurned l.fdc cycles } := fdcTickInt_none (by exact h.int) cycles
  have hdd : l.fdc.ddStatus.getD l.fdc.status = l.fdc.status := by rw [h.ddStatus]; rfl
  have hstreamed : (fdcStreamed l.fdc && l.fdc.curSectorData.isSome) = true := by
    rw [Bool.and_eq_true, fdcStreamed_iff, h.op, h.cur]
    exact ⟨⟨h.mode, hop⟩, rfl⟩
  have hstart : FdcLedger.counted l.fdc cycles =
      fdcStreamStart { l.fdc with rotPos := fdcTurned l.fdc cycles, delayedDrq := 0 } := by
    change fdcTickDrq (fdcTickInt { l.fdc with rotPos := fdcTurned l.fdc cycles } cycles) cycles = _
    rw [hint]
    unfold fdcTickDrq
    dsimp only
    rw [if_pos h.drq, if_pos hleft, hdd, ← h.ddStatus]
    exact if_pos hstreamed
  obtain ⟨hrun, hmode, hsector⟩ : (FdcLedger.counted l.fdc cycles).stream = true ∧
      (FdcLedger.counted l.fdc cycles).timingMode = .real ∧
      (FdcLedger.counted l.fdc cycles).currentop = op := by
    rw [hstart]
    unfold fdcStreamStart
    dsimp only
    split_ifs <;> exact ⟨rfl, h.mode, h.op⟩
  have hrun' : ((FdcLedger.counted l.fdc cycles).stream &&
      fdcStreamed (FdcLedger.counted l.fdc cycles)) = true := by
    rw [Bool.and_eq_true, fdcStreamed_iff, hsector]
    exact ⟨hrun, hmode, hop⟩
  unfold FdcLedger.tick
  dsimp only
  rw [if_pos hrun', hstart]

/-- A tick while the field passes. -/
theorem FdcPassing.tick (h : FdcPassing f op l.fdc) (hop : op.isSector = true)
    (cycles : BitVec 32) :
    l.tick cycles = FdcLedger.streamLoop fdcStreamFuel { l with fdc := { l.fdc with
      rotPos := fdcTurned l.fdc cycles
      streamDue := cInt (l.fdc.streamDue - cycles.toInt) } } := by
  have hcount : FdcLedger.counted l.fdc cycles =
      { l.fdc with rotPos := fdcTurned l.fdc cycles } := by
    unfold FdcLedger.counted
    rw [fdcTickInt_none (by exact h.int), fdcTickDrq_none (by exact h.drq)]
    rfl
  have hrun : ((FdcLedger.counted l.fdc cycles).stream &&
      fdcStreamed (FdcLedger.counted l.fdc cycles)) = true := by
    rw [hcount, Bool.and_eq_true]
    exact ⟨h.stream, h.streamed hop⟩
  unfold FdcLedger.tick
  dsimp only
  rw [if_pos hrun, hcount]

/-- A tick after the end. -/
theorem FdcEnded.tick_ledger {st : Byte} (h : FdcEnded f st l.fdc) (cycles : BitVec 32) :
    l.tick cycles = ⟨fdcTicktock l.fdc cycles, l.answer, l.passed⟩ := by
  have hstop : (FdcLedger.counted l.fdc cycles).stream = false := by
    unfold FdcLedger.counted fdcTickInt
    dsimp only
    split_ifs <;> exact (congrArg Fdc.stream (fdcTickDrq_none (by exact h.drq) cycles)).trans
      h.stream
  unfold FdcLedger.tick
  dsimp only
  rw [hstop, Bool.false_and, if_neg Bool.false_ne_true]
  rfl

/-- A tick, in any phase. -/
theorem FdcFlowRules.tick (rules : FdcFlowRules f op Flow Ended)
    (h : FdcTransfer f op Flow Ended l) (cycles : BitVec 32) :
    FdcTransfer f op Flow Ended (l.tick cycles) := by
  rcases h with haway | ⟨hflow, -⟩ | hended
  · by_cases hleft : cInt (l.fdc.delayedDrq - cycles.toNat) ≤ 0
    · rw [haway.tick_start rules.isSector hleft]
      exact rules.stream (rules.start l haway _) cycles
    · rw [haway.tick_wait hleft]
      exact .inl { haway with drq := not_le.mp hleft }
  · rw [(rules.passing l hflow).tick rules.isSector]
    exact rules.stream (rules.turned l hflow (fdcTurned l.fdc cycles) l.fdc.streamDue) cycles
  · obtain ⟨lost, hend⟩ := rules.ended l hended
    rw [hend.tick_ledger]
    exact .inr (.inr (rules.after l hended _ _ (fun _ h => (h.tick cycles).1)
      (hend.tick cycles).2.1))

end Phases

end Phosphoric
