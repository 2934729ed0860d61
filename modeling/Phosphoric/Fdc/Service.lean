import Phosphoric.Fdc.Transfer

/-!
# What a streamed transfer comes to

**Theorem (`fdcTransfer_outcome`).** A Read Sector or Write Sector accepted in the REAL model with
no INTRQ of an earlier command on its way, and whose host leaves the data register alone until the
sector has come, does what its bytes' answers say: a byte read in time is the sector's, a byte
written in time is stored and 0 in place of one missed, nothing when the first is missed; nothing
else is stored, and the command ends with its INTRQ.
-/

namespace Phosphoric

variable {f : FdcSectorField} {op : FdcOp} {fdc : Fdc} {l : FdcLedger}

/-! ## The phases of a write and of a read -/

theorem fdcWrite_rules (f : FdcSectorField) :
    FdcFlowRules f .writeSector (FdcWriteFlow f) (FdcWriteEnded f) where
  single := .inr rfl
  passing := fun _ h => h.toFdcPassing
  turned := fun _ h _ _ => { h with }
  start := by
    intro l h rotPos
    have hwrite : fdcOpIsWrite l.fdc.currentop = true := by rw [h.op]; rfl
    unfold fdcStreamStart
    dsimp only [fdcStreamDrq, Fdc.signal]
    rw [if_pos hwrite]
    refine ⟨{ h with
        stream := rfl, drq := le_refl _
        ints := (List.count_cons_of_ne (by decide)).trans h.ints }, ?_, nofun, ?_, ?_, ?_, ?_⟩
    · intro _
      dsimp only
      rw [h.passed]
      exact ⟨rfl, by decide⟩
    · dsimp only
      rw [h.status, flowStatus_setDrq, h.answer, h.passed]
      rfl
    · intro v hv
      rw [h.answer] at hv
      cases hv
    · intro a
      dsimp only
      rw [h.passed, f.written_nil, h.heap]
    · dsimp only
      rw [h.passed]
      nofun
  step := fun _ h => h.step
  ended := fun _ h => ⟨_, h.toFdcEnded⟩
  after := by
    intro l h fdc answer hend hheap
    have hcontent := h.content
    rw [← hheap] at hcontent
    exact ⟨hend _ h.toFdcEnded, hcontent⟩

theorem fdcRead_rules (f : FdcSectorField) :
    FdcFlowRules f .readSector (FdcReadFlow f) (FdcReadEnded f) where
  single := .inl rfl
  passing := fun _ h => h.toFdcPassing
  turned := fun _ h _ _ => { h with }
  start := by
    intro l h rotPos
    have hread : ¬fdcOpIsWrite l.fdc.currentop = true := by rw [h.op]; decide
    unfold fdcStreamStart
    dsimp only [fdcStreamDrq, Fdc.signal]
    rw [if_neg hread]
    refine ⟨{ h with
        stream := rfl, drq := le_refl _, secType := rfl
        ints := (List.count_cons_of_ne (by decide)).trans h.ints }, ?_, nofun, h.heap, ?_, ?_, ?_,
        ⟨true, false, ?_, ?_, nofun, nofun⟩⟩
    · intro _
      dsimp only
      rw [h.passed]
      exact ⟨rfl, by decide⟩
    · intro _
      dsimp only [Fdc.sectorByte]
      rw [h.cur, h.heap, h.passed]
      rfl
    · intro _ v hv
      rw [h.answer] at hv
      cases hv
    · intro k v hk
      rw [h.passed] at hk
      cases hk
    · dsimp only
      rw [h.status, flowStatus_setDrq]
    · intro _
      rw [h.answer]
      rfl
  step := fun _ h => h.step
  ended := fun _ h => h.ended.imp fun _ h => h.1
  after := by
    intro l h fdc answer hend hheap
    obtain ⟨lost, hended, hlost⟩ := h.ended
    exact ⟨⟨lost, hend lost hended, hlost⟩, h.length, hheap.trans h.heap, h.delivered⟩

/-! ## Accesses -/

/-- The host transfers bytes in the direction of the command, and none before the sector comes. -/
def FdcLedger.Asked (op : FdcOp) (l : FdcLedger) : FdcHostOp → Prop
  | .readData => fdcOpIsWrite op = true ∨ ¬(l.fdc.currentop = op ∧ l.fdc.stream = false)
  | .writeData _ => fdcOpIsWrite op = true ∧ ¬(l.fdc.currentop = op ∧ l.fdc.stream = false)
  | _ => True

theorem clrIntrq_count (signals : List FdcSignal) :
    (FdcSignal.clrIntrq :: signals).count .setIntrq = signals.count .setIntrq :=
  List.count_cons_of_ne (by decide)

theorem clrDrq_count (signals : List FdcSignal) :
    (FdcSignal.clrDrq :: signals).count .setIntrq = signals.count .setIntrq :=
  List.count_cons_of_ne (by decide)

theorem FdcEnded.signal {st : Byte} (h : FdcEnded f st fdc) :
    FdcEnded f st (fdc.signal .clrIntrq) where
  op := h.op
  stream := h.stream
  drq := h.drq
  int := by
    unfold Fdc.signal
    dsimp only
    rw [clrIntrq_count]
    exact h.int

/-- After the end an access changes the data register or INTRQ. -/
theorem FdcFlowRules.after_access {Flow Ended : FdcLedger → Prop}
    (rules : FdcFlowRules f op Flow Ended) (h : Ended l) (host : FdcHostOp)
    (htick : ∀ cycles, host ≠ .tick cycles) : Ended (l.step host) := by
  obtain ⟨lost, hend⟩ := rules.ended l h
  cases host with
  | tick cycles => exact absurd rfl (htick cycles)
  | readStatus => exact rules.after l h (l.fdc.signal .clrIntrq) l.answer (fun _ h => h.signal) rfl
  | readData =>
    have hread : fdcReadData l.fdc = l.fdc := by
      unfold fdcReadData
      rw [hend.op]
    refine rules.after l h (fdcReadData l.fdc) _ (fun lost' h' => ?_) ?_
    · rw [hread]
      exact h'
    · rw [hread]
  | writeData value =>
    have hwrite : fdcWriteData l.fdc value = { l.fdc with data := value } := by
      unfold fdcWriteData
      dsimp only
      rw [hend.op]
    refine rules.after l h (fdcWriteData l.fdc value) _ (fun lost' h' => ?_) ?_
    · rw [hwrite]
      exact ⟨h'.op, h'.stream, h'.drq, h'.int⟩
    · rw [hwrite]

/-- Reading the status only drops INTRQ. -/
theorem FdcAwaited.readStatus (h : FdcAwaited f op l) : FdcAwaited f op (l.step .readStatus) :=
  { h with ints := (clrIntrq_count _).trans h.ints }

theorem FdcWriteFlow.access (h : FdcWriteFlow f l) (host : FdcHostOp)
    (htick : ∀ cycles, host ≠ .tick cycles) :
    FdcWriteFlow f (l.step host) ∧ (l.step host).fdc.streamDue = l.fdc.streamDue := by
  cases host with
  | tick cycles => exact absurd rfl (htick cycles)
  | readStatus => exact ⟨{ h with ints := (clrIntrq_count _).trans h.ints }, rfl⟩
  | readData =>
    have hread : fdcReadData l.fdc = l.fdc := by
      unfold fdcReadData
      rw [h.op]
    have hstep : l.step .readData = l := by
      have hwrite : fdcOpIsWrite l.fdc.currentop = true := by rw [h.op]; rfl
      unfold FdcLedger.step
      rw [if_pos hwrite]
      change { l with fdc := fdcReadData l.fdc } = l
      rw [hread]
    rw [hstep]
    exact ⟨h, rfl⟩
  | writeData value =>
    have hwrite : fdcWriteData l.fdc value = fdcClrDrq { l.fdc with data := value } := by
      unfold fdcWriteData fdcWriteSectorByte
      dsimp only
      rw [h.op, h.cur, h.stream]
      rfl
    have hstep : l.step (.writeData value) =
        ⟨fdcClrDrq { l.fdc with data := value }, some value, l.passed⟩ := by
      change (⟨fdcWriteData l.fdc value, some value, l.passed⟩ : FdcLedger) = _
      rw [hwrite]
    rw [hstep]
    refine ⟨{ h with
      ints := (clrDrq_count _).trans h.ints
      status := ?_
      data := fun v hv => (Option.some.inj hv) }, rfl⟩
    change l.fdc.status &&& ~~~fdcStDrq =
      fdcFlowStatus (!l.fdc.streamCrc && (some value).isNone) (fdcMissed l.passed)
    rw [h.status, flowStatus_clrDrq, Option.isNone_some, Bool.and_false]

theorem FdcReadFlow.access (h : FdcReadFlow f l) (host : FdcHostOp)
    (htick : ∀ cycles, host ≠ .tick cycles) (hasked : l.Asked .readSector host) :
    FdcReadFlow f (l.step host) ∧ (l.step host).fdc.streamDue = l.fdc.streamDue := by
  cases host with
  | tick cycles => exact absurd rfl (htick cycles)
  | readStatus => exact ⟨{ h with ints := (clrIntrq_count _).trans h.ints }, rfl⟩
  | readData =>
    have hread : fdcReadData l.fdc = fdcClrDrq l.fdc := by
      unfold fdcReadData fdcReadSectorByte
      rw [h.op, h.cur, h.stream]
      rfl
    have hstep : l.step .readData = ⟨fdcClrDrq l.fdc, some l.fdc.data, l.passed⟩ := by
      have hwrite : ¬fdcOpIsWrite l.fdc.currentop = true := by rw [h.op]; decide
      unfold FdcLedger.step
      rw [if_neg hwrite]
      change (⟨fdcReadData l.fdc, some (fdcReadData l.fdc).data, l.passed⟩ : FdcLedger) = _
      rw [hread]
      rfl
    rw [hstep]
    obtain ⟨drq, lost, hst, -, -, hlost⟩ := h.status
    refine ⟨{ h with
      ints := (clrDrq_count _).trans h.ints
      answer := fun hcrc v hv => ?_
      status := ⟨false, lost, ?_, fun _ => rfl, nofun, hlost⟩ }, rfl⟩
    · exact (Option.some.inj hv).symm.trans (h.data hcrc)
    · change l.fdc.status &&& ~~~fdcStDrq = _
      rw [hst, flowStatus_clrDrq]
  | writeData value => exact absurd hasked.1 (by decide)

theorem fdcWrite_step (h : FdcTransfer f .writeSector (FdcWriteFlow f) (FdcWriteEnded f) l)
    (host : FdcHostOp) (hasked : l.Asked .writeSector host) :
    FdcTransfer f .writeSector (FdcWriteFlow f) (FdcWriteEnded f) (l.step host) := by
  by_cases htick : ∃ cycles, host = .tick cycles
  · obtain ⟨cycles, rfl⟩ := htick
    exact (fdcWrite_rules f).tick h cycles
  have htick' : ∀ cycles, host ≠ .tick cycles := fun cycles h => htick ⟨cycles, h⟩
  rcases h with haway | ⟨hflow, hdue⟩ | hended
  · cases host with
    | tick cycles => exact absurd rfl (htick' cycles)
    | readStatus => exact .inl haway.readStatus
    | readData =>
      have hread : fdcReadData l.fdc = l.fdc := by
        unfold fdcReadData
        rw [haway.op]
      have hwrite : fdcOpIsWrite l.fdc.currentop = true := by rw [haway.op]; rfl
      have hstep : l.step .readData = l := by
        unfold FdcLedger.step
        rw [if_pos hwrite]
        change { l with fdc := fdcReadData l.fdc } = l
        rw [hread]
      rw [hstep]
      exact .inl haway
    | writeData value => exact absurd ⟨haway.op, haway.stream⟩ hasked.2
  · obtain ⟨hflow', hdue'⟩ := hflow.access host htick'
    exact .inr (.inl ⟨hflow', hdue'.symm ▸ hdue⟩)
  · exact .inr (.inr ((fdcWrite_rules f).after_access hended host htick'))

theorem fdcRead_step (h : FdcTransfer f .readSector (FdcReadFlow f) (FdcReadEnded f) l)
    (host : FdcHostOp) (hasked : l.Asked .readSector host) :
    FdcTransfer f .readSector (FdcReadFlow f) (FdcReadEnded f) (l.step host) := by
  by_cases htick : ∃ cycles, host = .tick cycles
  · obtain ⟨cycles, rfl⟩ := htick
    exact (fdcRead_rules f).tick h cycles
  have htick' : ∀ cycles, host ≠ .tick cycles := fun cycles h => htick ⟨cycles, h⟩
  rcases h with haway | ⟨hflow, hdue⟩ | hended
  · cases host with
    | tick cycles => exact absurd rfl (htick' cycles)
    | readStatus => exact .inl haway.readStatus
    | readData =>
      rcases hasked with hwrite | hcome
      · cases hwrite
      · exact absurd ⟨haway.op, haway.stream⟩ hcome
    | writeData value => exact absurd hasked.1 (by decide)
  · obtain ⟨hflow', hdue'⟩ := hflow.access host htick' hasked
    exact .inr (.inl ⟨hflow', hdue'.symm ▸ hdue⟩)
  · exact .inr (.inr ((fdcRead_rules f).after_access hended host htick'))

/-! ## The end comes -/

/-- Cycles until the field has passed. -/
def fdcFieldLeft (fdc : Fdc) : Int :=
  if fdc.streamCrc then fdc.streamDue else fdc.streamDue + 32 * (258 - fdc.curOffset.toNat)

/-- A bound on the ticks until INTRQ, of a cycle or more each. -/
def fdcTicksLeft (fdc : Fdc) : Nat :=
  if fdc.stream then (fdcFieldLeft fdc).toNat + 2
  else if fdc.currentop = .none then fdc.delayedInt.toNat
  else fdc.delayedDrq.toNat + 10000

theorem cInt_ge (x : Int) : -2 ^ 31 ≤ cInt x := by
  unfold cInt
  rw [Int.bmod_def]
  split <;> omega

theorem cInt_le {x : Int} (h : -2 ^ 31 ≤ x) : cInt x ≤ x := by
  unfold cInt
  rw [Int.bmod_def]
  split <;> omega

/-- What a byte time leaves of a single sector's field. -/
def FdcNearer (fdc fdc' : Fdc) : Prop :=
  fdc'.stream = true ∧ fdcFieldLeft fdc' ≤ fdcFieldLeft fdc ∧ -2 ^ 31 ≤ fdc'.streamDue ∨
    fdc'.stream = false ∧ fdc'.currentop = .none ∧ fdc'.delayedInt = 1

theorem fdcStreamSectorDone_nearer {g : Fdc}
    (hop : g.currentop = .readSector ∨ g.currentop = .writeSector) :
    FdcNearer fdc (fdcStreamSectorDone g) := by
  rw [fdcStreamSectorDone_single hop]
  exact .inr ⟨rfl, rfl, rfl⟩

theorem fdcStreamStepWrite_nearer (hop : fdc.currentop = .writeSector) (hs : fdc.stream = true)
    (hcrc : fdc.streamCrc = false) (hlen : fdc.curSectorLen = 256#16)
    (hoff : fdc.curOffset.toNat ≤ 256) (hdue : -2 ^ 31 ≤ fdc.streamDue) :
    FdcNearer fdc (fdcStreamStepWrite fdc) := by
  have hbefore : fdcFieldLeft fdc = fdc.streamDue + 32 * (258 - fdc.curOffset.toNat) := by
    simp [fdcFieldLeft, hcrc]
  have hnext : (fdc.curOffset + 1#16).toNat = fdc.curOffset.toNat + 1 := by
    rw [BitVec.toNat_add]
    simp
    omega
  have hbyte : cInt (fdc.streamDue + fdcByteCycles) ≤ fdc.streamDue + 32 :=
    cInt_le (by unfold fdcByteCycles; omega)
  have hgap : cInt (fdc.streamDue + 2 * fdcByteCycles) ≤ fdc.streamDue + 64 :=
    cInt_le (by unfold fdcByteCycles; omega)
  unfold fdcStreamStepWrite
  split
  · dsimp only
    refine fdcStreamSectorDone_nearer (.inr ?_)
    simp [fdcClrDrq, Fdc.signal, fdcStreamLost, hop]
  · obtain ⟨status, lost, heap, hput⟩ := fdcStreamPut_frame fdc
    rw [hput]
    dsimp only [fdcStreamDrq, fdcClrDrq, Fdc.signal]
    rw [hlen]
    split_ifs with hmore
    · refine .inl ⟨hs, ?_, cInt_ge _⟩
      rw [hbefore]
      unfold fdcFieldLeft
      dsimp only
      rw [if_neg (by simp [hcrc]), hnext]
      omega
    · refine .inl ⟨hs, ?_, cInt_ge _⟩
      have hge : 256 ≤ (fdc.curOffset + 1#16).toNat := Nat.le_of_not_lt hmore
      rw [hbefore]
      unfold fdcFieldLeft
      dsimp only
      rw [if_pos rfl]
      omega

theorem fdcStreamStepRead_nearer (hs : fdc.stream = true) (hcrc : fdc.streamCrc = false)
    (hoff : fdc.curOffset.toNat ≤ 256) (hdue : -2 ^ 31 ≤ fdc.streamDue) :
    FdcNearer fdc (fdcStreamStepRead fdc) := by
  have hbefore : fdcFieldLeft fdc = fdc.streamDue + 32 * (258 - fdc.curOffset.toNat) := by
    simp [fdcFieldLeft, hcrc]
  have hnext : (fdc.curOffset + 1#16).toNat = fdc.curOffset.toNat + 1 := by
    rw [BitVec.toNat_add]
    simp
    omega
  have hbyte : cInt (fdc.streamDue + fdcByteCycles) ≤ fdc.streamDue + 32 :=
    cInt_le (by unfold fdcByteCycles; omega)
  unfold fdcStreamStepRead
  split_ifs with hmore
  · obtain ⟨status, lost, data, hget⟩ := fdcStreamGet_frame fdc
    rw [hget]
    dsimp only [fdcStreamDrq, Fdc.signal]
    refine .inl ⟨hs, ?_, cInt_ge _⟩
    rw [hbefore]
    unfold fdcFieldLeft
    dsimp only
    rw [if_neg (by simp [hcrc]), hnext]
    omega
  · refine .inl ⟨hs, ?_, cInt_ge _⟩
    rw [hbefore]
    unfold fdcFieldLeft
    dsimp only
    rw [if_pos rfl]
    omega

/-- A byte time of a transfer under way. -/
theorem FdcPassing.nearer (h : FdcPassing f op fdc)
    (hsingle : op = .readSector ∨ op = .writeSector)
    (hoff : fdc.streamCrc = false → fdc.curOffset.toNat ≤ 256) (hdue : -2 ^ 31 ≤ fdc.streamDue) :
    FdcNearer fdc (fdcStreamStep fdc) := by
  unfold fdcStreamStep
  cases hcrc : fdc.streamCrc with
  | true =>
    rw [if_pos rfl]
    refine fdcStreamSectorDone_nearer ?_
    have hop : ∀ b : Bool, (if b then fdcStreamLost fdc else fdc).currentop = op := by
      intro b
      cases b <;> exact h.op
    rw [hop]
    exact hsingle
  | false =>
    rw [if_neg Bool.false_ne_true]
    rcases hsingle with hop | hop
    · rw [if_neg (by rw [h.op, hop]; decide)]
      exact fdcStreamStepRead_nearer h.stream hcrc (hoff hcrc) hdue
    · rw [if_pos (by rw [h.op, hop]; rfl)]
      exact fdcStreamStepWrite_nearer (h.op.trans hop) h.stream hcrc h.len (hoff hcrc) hdue

section Progress

variable {Flow Ended : FdcLedger → Prop}

theorem FdcFlowRules.loop_nearer (rules : FdcFlowRules f op Flow Ended)
    (hoff : ∀ l, Flow l → l.fdc.streamCrc = false → l.fdc.curOffset.toNat ≤ 256) (fuel : Nat)
    (h : Flow l) (hdue : -2 ^ 31 ≤ l.fdc.streamDue) :
    FdcNearer l.fdc (l.streamLoop fuel).fdc := by
  induction fuel generalizing l with
  | zero => exact .inl ⟨(rules.passing l h).stream, le_refl _, hdue⟩
  | succ fuel ih =>
    unfold FdcLedger.streamLoop
    split_ifs
    · rcases (rules.passing l h).nearer rules.single (hoff l h) hdue with hmore | hend
      · rcases rules.step l h with hflow | hended
        · rcases ih hflow hmore.2.2 with hmore' | hend'
          · exact .inl ⟨hmore'.1, hmore'.2.1.trans hmore.2.1, hmore'.2.2⟩
          · exact .inr hend'
        · obtain ⟨lost, hended⟩ := rules.ended _ hended
          have hstop : (fdcStreamStep l.fdc).stream = false := hended.stream
          rw [hmore.1] at hstop
          cases hstop
      · have hquiet : l.streamStep.fdc.stream = false := hend.1
        have hstop : FdcLedger.streamLoop fuel l.streamStep = l.streamStep := by
          cases fuel with
          | zero => rfl
          | succ fuel => rw [FdcLedger.streamLoop, if_neg (by simp [hquiet])]
        rw [hstop]
        exact .inr hend
    · exact .inl ⟨(rules.passing l h).stream, le_refl _, hdue⟩

theorem fdcTicksLeft_stream (hs : fdc.stream = true) :
    fdcTicksLeft fdc = (fdcFieldLeft fdc).toNat + 2 := if_pos hs

theorem fdcTicksLeft_ended (hs : fdc.stream = false) (hop : fdc.currentop = .none) :
    fdcTicksLeft fdc = fdc.delayedInt.toNat := by
  simp [fdcTicksLeft, hs, hop]

theorem fdcTicksLeft_awaited (hs : fdc.stream = false) (hop : fdc.currentop ≠ .none) :
    fdcTicksLeft fdc = fdc.delayedDrq.toNat + 10000 := by
  simp [fdcTicksLeft, hs, hop]

theorem FdcNearer.ticksLeft {fdc' : Fdc} (h : FdcNearer fdc fdc') :
    fdcTicksLeft fdc' ≤ (fdcFieldLeft fdc).toNat + 2 := by
  rcases h with ⟨hs, hleft, -⟩ | ⟨hs, hop, hint⟩
  · rw [fdcTicksLeft_stream hs]
    omega
  · rw [fdcTicksLeft_ended hs hop, hint]
    simp

/-- A positive number of cycles is less than half of what a register holds. -/
theorem toNat_of_positive {cycles : BitVec 32} (h : 0 < cycles.toInt) :
    (cycles.toNat : Int) = cycles.toInt ∧ cycles.toInt < 2 ^ 31 := by
  rw [BitVec.toInt_eq_toNat_cond] at h ⊢
  split at h
  · rename_i hsmall
    rw [if_pos hsmall]
    omega
  · omega

theorem fdcStreamStart_left (g : Fdc) (cycles : BitVec 32) (hn : 0 < cycles.toInt) :
    fdcFieldLeft { fdcStreamStart g with
      streamDue := cInt ((fdcStreamStart g).streamDue - cycles.toInt) } ≤ 704 + 32 * 258 := by
  obtain ⟨-, hlt⟩ := toNat_of_positive hn
  have hstart : (fdcStreamStart g).streamCrc = false ∧
      ((fdcStreamStart g).streamDue = 704 ∨ (fdcStreamStart g).streamDue = 32) := by
    unfold fdcStreamStart
    dsimp only
    split_ifs
    · exact ⟨rfl, .inl rfl⟩
    · exact ⟨rfl, .inr rfl⟩
  have hdue := cInt_le (x := (fdcStreamStart g).streamDue - cycles.toInt) (by omega)
  unfold fdcFieldLeft
  dsimp only
  rw [hstart.1, if_neg Bool.false_ne_true]
  omega

/-- A tick of a cycle or more. -/
theorem FdcFlowRules.progress (rules : FdcFlowRules f op Flow Ended)
    (hoff : ∀ l, Flow l → l.fdc.streamCrc = false → l.fdc.curOffset.toNat ≤ 256)
    (h : FdcTransfer f op Flow Ended l) {cycles : BitVec 32} (hn : 0 < cycles.toInt) :
    fdcTicksLeft (l.tick cycles).fdc < fdcTicksLeft l.fdc ∨
      fdcTicksLeft (l.tick cycles).fdc = 0 := by
  obtain ⟨hnat, hlt⟩ := toNat_of_positive hn
  have hsector : op ≠ .none := by rcases rules.single with rfl | rfl <;> decide
  rcases h with haway | ⟨hflow, hdue⟩ | hended
  · left
    have hpos := haway.drq
    have hbusy : l.fdc.currentop ≠ .none := by rw [haway.op]; exact hsector
    rw [fdcTicksLeft_awaited haway.stream hbusy]
    by_cases hleft : cInt (l.fdc.delayedDrq - cycles.toNat) ≤ 0
    · rw [haway.tick_start rules.isSector hleft]
      have hstart := rules.start l haway (fdcTurned l.fdc cycles)
      have hturned := rules.turned _ hstart
        (fdcStreamStart { l.fdc with
          rotPos := fdcTurned l.fdc cycles, delayedDrq := 0 }).rotPos
        (cInt ((fdcStreamStart { l.fdc with
          rotPos := fdcTurned l.fdc cycles, delayedDrq := 0 }).streamDue - cycles.toInt))
      have hleft' := fdcStreamStart_left
        { l.fdc with rotPos := fdcTurned l.fdc cycles, delayedDrq := 0 } cycles hn
      have hnear := (rules.loop_nearer hoff fdcStreamFuel hturned (cInt_ge _)).ticksLeft
      refine lt_of_le_of_lt hnear ?_
      change (fdcFieldLeft { fdcStreamStart { l.fdc with
        rotPos := fdcTurned l.fdc cycles, delayedDrq := 0 } with streamDue := _ }).toNat + 2 < _
      omega
    · rw [haway.tick_wait hleft, fdcTicksLeft_awaited (by exact haway.stream) (by exact hbusy)]
      have hless := cInt_le (x := l.fdc.delayedDrq - cycles.toNat) (by omega)
      dsimp only
      omega
  · left
    have hpassing := rules.passing l hflow
    rw [hpassing.tick rules.isSector, fdcTicksLeft_stream hpassing.stream]
    have hturned := rules.turned l hflow (fdcTurned l.fdc cycles)
      (cInt (l.fdc.streamDue - cycles.toInt))
    have hnear := (rules.loop_nearer hoff fdcStreamFuel hturned (cInt_ge _)).ticksLeft
    have hless := cInt_le (x := l.fdc.streamDue - cycles.toInt) (by omega)
    refine lt_of_le_of_lt hnear ?_
    unfold fdcFieldLeft
    dsimp only
    cases hcrc : l.fdc.streamCrc with
    | true =>
      rw [if_pos rfl, if_pos rfl]
      omega
    | false =>
      have hin := hoff l hflow hcrc
      rw [if_neg Bool.false_ne_true, if_neg Bool.false_ne_true]
      omega
  · obtain ⟨lost, hend⟩ := rules.ended l hended
    obtain ⟨hend', -, hint⟩ := hend.tick cycles
    rw [hend.tick_ledger, fdcTicksLeft_ended hend.stream hend.op]
    dsimp only
    rw [fdcTicksLeft_ended hend'.stream hend'.op]
    by_cases hpos : 0 < l.fdc.delayedInt
    · rw [if_pos hpos] at hint
      have hless := cInt_le (x := l.fdc.delayedInt - cycles.toNat) (by omega)
      left
      omega
    · rw [if_neg hpos] at hint
      right
      omega

/-- Ticks enough bring the end. -/
theorem FdcFlowRules.ends (rules : FdcFlowRules f op Flow Ended)
    (hoff : ∀ l, Flow l → l.fdc.streamCrc = false → l.fdc.curOffset.toNat ≤ 256)
    (more : List (BitVec 32)) (h : FdcTransfer f op Flow Ended l)
    (hmore : ∀ cycles ∈ more, 0 < cycles.toInt) (hlen : fdcTicksLeft l.fdc ≤ more.length) :
    (more.foldl FdcLedger.tick l).fdc.currentop = .none ∧
      (more.foldl FdcLedger.tick l).fdc.delayedInt ≤ 0 ∧
      (more.foldl FdcLedger.tick l).fdc.signals.count .setIntrq = f.ints + 1 := by
  induction more generalizing l with
  | nil =>
    have hzero : fdcTicksLeft l.fdc = 0 := Nat.le_zero.mp hlen
    have hsector : op ≠ .none := by rcases rules.single with rfl | rfl <;> decide
    rcases h with haway | ⟨hflow, -⟩ | hended
    · rw [fdcTicksLeft_awaited haway.stream (by rw [haway.op]; exact hsector)] at hzero
      omega
    · rw [fdcTicksLeft_stream (rules.passing l hflow).stream] at hzero
      omega
    · obtain ⟨lost, hend⟩ := rules.ended l hended
      rw [fdcTicksLeft_ended hend.stream hend.op] at hzero
      rcases hend.int with ⟨hpos, -, -⟩ | ⟨hnone, -, hcount⟩
      · omega
      · exact ⟨hend.op, hnone, hcount⟩
  | cons cycles more ih =>
    have hprogress := rules.progress hoff h (hmore cycles List.mem_cons_self)
    refine ih (rules.tick h cycles) (fun n hn => hmore n (List.mem_cons_of_mem cycles hn)) ?_
    rw [List.length_cons] at hlen
    omega

end Progress

theorem FdcWriteFlow.offset_le (h : FdcWriteFlow f l) (hcrc : l.fdc.streamCrc = false) :
    l.fdc.curOffset.toNat ≤ 256 := by
  obtain ⟨hoff, hlen⟩ := h.offset hcrc
  omega

theorem FdcReadFlow.offset_le (h : FdcReadFlow f l) (hcrc : l.fdc.streamCrc = false) :
    l.fdc.curOffset.toNat ≤ 256 := by
  obtain ⟨hoff, hlen⟩ := h.offset hcrc
  omega

/-! ## The command -/

/-- A command for one sector, on a medium that has it. -/
structure FdcAccepts (fdc : Fdc) (value : Byte) (op : FdcOp) (p : Ptr) : Prop where
  mode : fdc.timingMode = .real
  command : fdcCommand value = .readSector ∧ op = .readSector ∨
    fdcCommand value = .writeSector ∧ op = .writeSector ∧ fdc.writeProtected = false
  single : value &&& 0x10#8 = 0#8
  found : fdcFindSector fdc fdc.sector = some p

def Fdc.sectorField (fdc : Fdc) (p : Ptr) : FdcSectorField :=
  ⟨p, fdc.heap, fdc.signals.count .setIntrq⟩

/-- The command is written, and nothing has passed. -/
def FdcLedger.accepted (fdc : Fdc) (value : Byte) : FdcLedger :=
  ⟨fdcWriteCommand fdc value, none, []⟩

theorem fdcCommand_sector_stops : ∀ value : Byte,
    fdcCommand value = .readSector ∨ fdcCommand value = .writeSector →
      (value &&& 0xF0#8 != 0xD0#8) = true := by
  decide

theorem fdcSectorCommand_awaited {value : Byte} {p : Ptr} {delay : Int} {multiple : FdcOp}
    (hbase : FdcBase fdc) (hmode : fdc.timingMode = .real) (hsingle : value &&& 0x10#8 = 0#8)
    (hfound : fdcFindSector fdc fdc.sector = some p) (hint : fdc.delayedInt ≤ 0)
    (hs : fdc.stream = false) :
    FdcAwaited (fdc.sectorField p) op
      ⟨fdcSectorCommand value delay op multiple fdc, none, []⟩ := by
  rw [fdcSectorCommand_found hfound, hmode, hsingle]
  have hwait := fdcRotWait_pos fdc fdc.sector
  refine ⟨⟨rfl, rfl, rfl, rfl, hbase.secType, hbase.ddStatus, hint, rfl⟩, hs, ?_, rfl, rfl, rfl,
    rfl⟩
  dsimp only
  split_ifs
  · unfold fdcSettleCycles
    omega
  · omega

/-- Accepted with no INTRQ on its way, the command waits for its sector. -/
theorem FdcAccepts.awaited {value : Byte} {p : Ptr} (h : FdcAccepts fdc value op p)
    (hbase : FdcBase fdc) (hint : fdc.delayedInt ≤ 0) :
    FdcAwaited (fdc.sectorField p) op (.accepted fdc value) := by
  obtain ⟨buf, hdisk⟩ := fdcFindSector_ready (Option.isSome_iff_exists.mpr ⟨p, h.found⟩)
  let g : Fdc := { fdc.signal .clrIntrq with stream := false, streamCrc := false }
  have hfield : ({ g with statusType1 := false } : Fdc).sectorField p = fdc.sectorField p := by
    unfold Fdc.sectorField
    exact congrArg (FdcSectorField.mk p fdc.heap) (clrIntrq_count fdc.signals)
  have hg : FdcBase { g with statusType1 := false } := { hbase with stream := nofun }
  have hstop : (value &&& 0xF0#8 != 0xD0#8) = true :=
    fdcCommand_sector_stops value (h.command.imp (·.1) (·.1))
  have hbegin : fdcBeginCommand fdc value = g := by
    unfold fdcBeginCommand
    dsimp only
    rw [if_pos hstop]
  unfold FdcLedger.accepted fdcWriteCommand
  dsimp only
  rw [hbegin, ← hfield]
  have hdisk' : g.diskData = some buf := hdisk
  rcases h.command with ⟨hcmd, rfl⟩ | ⟨hcmd, rfl, hopen⟩
  · rw [hcmd]
    dsimp only
    rw [fdcReadSector_open hdisk']
    exact fdcSectorCommand_awaited hg h.mode h.single h.found hint rfl
  · have hopen' : g.writeProtected = false := hopen
    rw [hcmd]
    dsimp only
    rw [fdcWriteSector_open hdisk' hopen']
    exact fdcSectorCommand_awaited hg h.mode h.single h.found hint rfl

/-! ## The outcome -/

def FdcSectorField.Holds (f : FdcSectorField) (a : Ptr) : Prop :=
  a.buf = f.start.buf ∧ f.start.off ≤ a.off ∧ a.off < f.start.off + 256

/-- What a transfer of one sector comes to, `none` among the bytes passed being one missed. -/
structure FdcOutcome (f : FdcSectorField) (op : FdcOp) (l : FdcLedger) : Prop where
  /-- No other sector changes. -/
  elsewhere : ∀ a, ¬f.Holds a → l.fdc.heap.load a = f.heap.load a
  /-- A read stores nothing, and a byte read in time is the sector's. -/
  read : op = .readSector → l.fdc.heap = f.heap ∧
    ∀ k v, l.passed[k]? = some (some v) → v = f.heap.load (f.cell k)
  /-- A command ends past its field, or at the first byte of a write when that is missed. -/
  passed : l.fdc.currentop = .none →
    l.passed.length = 256 ∧ (op = .writeSector → l.passed.head? ≠ some none) ∨
      op = .writeSector ∧ l.passed = [none]
  /-- A write stores each byte in its place, 0 for one missed, or nothing. -/
  written : op = .writeSector → l.fdc.currentop = .none → ∀ k < 256,
    l.fdc.heap.load (f.cell k) =
      if l.passed = [none] then f.heap.load (f.cell k) else (l.passed.getD k none).getD 0
  /-- The status is LOST DATA if a byte of a write was missed, and 0 if none was. -/
  status : l.fdc.currentop = .none → ∃ lost, FdcEnded f (fdcEndStatus lost) l.fdc ∧
    (lost = true → none ∈ l.passed) ∧ (op = .writeSector → none ∈ l.passed → lost = true)
  /-- With ticks enough the command ends, and INTRQ has been delivered once. -/
  ends : ∃ n, ∀ more : List (BitVec 32), (∀ cycles ∈ more, 0 < cycles.toInt) → n ≤ more.length →
    (more.foldl FdcLedger.tick l).fdc.currentop = .none ∧
      (more.foldl FdcLedger.tick l).fdc.delayedInt ≤ 0 ∧
      (more.foldl FdcLedger.tick l).fdc.signals.count .setIntrq = f.ints + 1

theorem fdcMissed_iff {passed : List (Option Byte)} : fdcMissed passed = true ↔ none ∈ passed := by
  unfold fdcMissed
  rw [List.any_eq_true]
  constructor
  · rintro ⟨x, hx, hnone⟩
    rw [← Option.isNone_iff_eq_none.mp hnone]
    exact hx
  · intro h
    exact ⟨none, h, rfl⟩

theorem FdcSectorField.written_elsewhere {a : Ptr} (ha : ¬f.Holds a) {passed : List (Option Byte)}
    (hlen : passed.length ≤ 256) : f.written passed a = f.heap.load a := by
  unfold FdcSectorField.written
  rw [if_neg]
  rintro ⟨hbuf, hge, hlt⟩
  exact ha ⟨hbuf, hge, by omega⟩

theorem FdcSectorField.written_cell {passed : List (Option Byte)} {k : Nat}
    (hk : k < passed.length) : f.written passed (f.cell k) = (passed.getD k none).getD 0 := by
  unfold FdcSectorField.written FdcSectorField.cell
  dsimp only
  rw [if_pos ⟨rfl, by omega, by omega⟩, Nat.add_sub_cancel_left]

theorem fdcWrite_outcome (h : FdcTransfer f .writeSector (FdcWriteFlow f) (FdcWriteEnded f) l) :
    FdcOutcome f .writeSector l := by
  have hended : l.fdc.currentop = .none → FdcWriteEnded f l := by
    intro hend
    rcases h with haway | ⟨hflow, -⟩ | hended
    · rw [haway.op] at hend
      cases hend
    · rw [hflow.op] at hend
      cases hend
    · exact hended
  refine ⟨?_, nofun, ?_, ?_, ?_, ?_⟩
  · intro a ha
    rcases h with haway | ⟨hflow, -⟩ | hended
    · rw [haway.heap]
    · have hlen : l.passed.length ≤ 256 := by
        cases hcrc : l.fdc.streamCrc with
        | true => exact le_of_eq (hflow.crc hcrc)
        | false => exact le_of_lt (hflow.offset hcrc).2
      exact (hflow.heap a).trans (f.written_elsewhere ha hlen)
    · rcases hended.content with ⟨-, hsame⟩ | ⟨hlen, -, hstored⟩
      · exact hsame a
      · exact (hstored a).trans (f.written_elsewhere ha (le_of_eq hlen))
  · intro hend
    rcases (hended hend).content with ⟨hmiss, -⟩ | ⟨hlen, hfirst, -⟩
    · exact .inr ⟨rfl, hmiss⟩
    · exact .inl ⟨hlen, fun _ => hfirst⟩
  · intro _ hend k hk
    rcases (hended hend).content with ⟨hmiss, hsame⟩ | ⟨hlen, hfirst, hstored⟩
    · rw [if_pos hmiss]
      exact hsame _
    · have hnot : l.passed ≠ [none] := by
        rintro heq
        rw [heq] at hlen
        cases hlen
      rw [if_neg hnot, hstored]
      exact f.written_cell (by omega)
  · intro hend
    exact ⟨fdcMissed l.passed, (hended hend).toFdcEnded, fdcMissed_iff.mp,
      fun _ hmiss => fdcMissed_iff.mpr hmiss⟩
  · exact ⟨fdcTicksLeft l.fdc, fun more hmore hlen =>
      (fdcWrite_rules f).ends (fun _ h hcrc => h.offset_le hcrc) more h hmore hlen⟩

theorem fdcRead_outcome (h : FdcTransfer f .readSector (FdcReadFlow f) (FdcReadEnded f) l) :
    FdcOutcome f .readSector l := by
  have hended : l.fdc.currentop = .none → FdcReadEnded f l := by
    intro hend
    rcases h with haway | ⟨hflow, -⟩ | hended
    · rw [haway.op] at hend
      cases hend
    · rw [hflow.op] at hend
      cases hend
    · exact hended
  have hheap : l.fdc.heap = f.heap := by
    rcases h with haway | ⟨hflow, -⟩ | hended
    · exact haway.heap
    · exact hflow.heap
    · exact hended.heap
  refine ⟨fun a _ => by rw [hheap], fun _ => ⟨hheap, ?_⟩, ?_, nofun, ?_, ?_⟩
  · rcases h with haway | ⟨hflow, -⟩ | hended
    · intro k v hk
      rw [haway.passed] at hk
      cases hk
    · exact hflow.delivered
    · exact hended.delivered
  · intro hend
    exact .inl ⟨(hended hend).length, nofun⟩
  · intro hend
    obtain ⟨lost, hst, hlost⟩ := (hended hend).ended
    exact ⟨lost, hst, fun h => fdcMissed_iff.mp (hlost h), nofun⟩
  · exact ⟨fdcTicksLeft l.fdc, fun more hmore hlen =>
      (fdcRead_rules f).ends (fun _ h hcrc => h.offset_le hcrc) more h hmore hlen⟩

theorem fdcWrite_run (ops : List FdcHostOp)
    (h : FdcTransfer f .writeSector (FdcWriteFlow f) (FdcWriteEnded f) l)
    (hasked : Machine.Throughout FdcLedger.step (FdcLedger.Asked .writeSector) ops l) :
    FdcTransfer f .writeSector (FdcWriteFlow f) (FdcWriteEnded f)
      (ops.foldl FdcLedger.step l) := by
  have hstep : ∀ l op, FdcTransfer f .writeSector (FdcWriteFlow f) (FdcWriteEnded f) l →
      l.Asked .writeSector op →
      FdcTransfer f .writeSector (FdcWriteFlow f) (FdcWriteEnded f) (l.step op) :=
    fun _ op h hok => fdcWrite_step h op hok
  exact Machine.Throughout.invariant hstep ops h hasked

theorem fdcRead_run (ops : List FdcHostOp)
    (h : FdcTransfer f .readSector (FdcReadFlow f) (FdcReadEnded f) l)
    (hasked : Machine.Throughout FdcLedger.step (FdcLedger.Asked .readSector) ops l) :
    FdcTransfer f .readSector (FdcReadFlow f) (FdcReadEnded f)
      (ops.foldl FdcLedger.step l) := by
  have hstep : ∀ l op, FdcTransfer f .readSector (FdcReadFlow f) (FdcReadEnded f) l →
      l.Asked .readSector op →
      FdcTransfer f .readSector (FdcReadFlow f) (FdcReadEnded f) (l.step op) :=
    fun _ op h hok => fdcRead_step h op hok
  exact Machine.Throughout.invariant hstep ops h hasked

/-- From any run before it, a command accepted with no INTRQ of another on its way comes to its
outcome under every schedule of a host that waits for its sector. -/
theorem fdcTransfer_outcome {start : Fdc} (hstart : FdcStart start) (before : List FdcInput)
    {value : Byte} {op : FdcOp} {p : Ptr}
    (haccepts : FdcAccepts (before.foldl fdcInput start) value op p)
    (hint : (before.foldl fdcInput start).delayedInt ≤ 0) (ops : List FdcHostOp)
    (hasked : Machine.Throughout FdcLedger.step (FdcLedger.Asked op) ops
      (.accepted (before.foldl fdcInput start) value)) :
    FdcOutcome ((before.foldl fdcInput start).sectorField p) op
      (ops.foldl FdcLedger.step (.accepted (before.foldl fdcInput start) value)) := by
  have hinv : FdcInv False (before.foldl fdcInput start) :=
    List.foldlRecOn before fdcInput (fdcInit_inv hstart)
      fun _ hinv op _ => fdcInput_inv hinv op nofun
  have hawaited := haccepts.awaited hinv.toFdcBase hint
  rcases haccepts.command with ⟨-, rfl⟩ | ⟨-, rfl, -⟩
  · exact fdcRead_outcome (fdcRead_run ops (.inl hawaited) hasked)
  · exact fdcWrite_outcome (fdcWrite_run ops (.inl hawaited) hasked)

/-- A disk of 80 tracks of 17 sectors in the REAL model, with sector 1 next. -/
def fdcTransferReady : List FdcInput :=
  [.setDisk (some 0) 348160 80 17, .access (.write 2 1)]

/-- The first byte comes in time and the next 255 do not. -/
theorem fdcTransfer_outcome_firstByte :
    FdcOutcome
      ((fdcTransferReady.foldl fdcInput
        { fdcInit ⟨fun _ => 0xE5#8, []⟩ with timingMode := .real }).sectorField ⟨0, 0⟩)
      .writeSector
      ([.tick 1470, .writeData 0xAA, .tick 704, .readStatus, .tick 20000].foldl FdcLedger.step
        (.accepted (fdcTransferReady.foldl fdcInput
          { fdcInit ⟨fun _ => 0xE5#8, []⟩ with timingMode := .real }) 0xA0)) := by
  refine fdcTransfer_outcome ⟨_, .real, rfl⟩ fdcTransferReady ⟨rfl, .inr ⟨rfl, rfl, rfl⟩, rfl, ?_⟩
    (by decide) _ ⟨trivial, ⟨rfl, ?_⟩, trivial, trivial, trivial, trivial⟩
  · decide
  · decide

/-- A Seek with 40 cycles to go when its sector is 10 cycles from the head. -/
def fdcTransferSeeking : List FdcInput :=
  [.setDisk (some 0) 348160 80 17, .access (.ticktock 195500), .access (.write 3 1),
    .access (.write 0 0x10), .access (.ticktock 5960), .access (.write 2 1)]

/-- The byte is written in time; then the Seek's INTRQ puts the Seek's status over it. -/
def fdcTransferInterrupted : List FdcHostOp :=
  [.tick 10, .writeData 0xAA, .tick 30, .tick 664]

/-- Its index pulse reads as a DRQ: the byte counts as missed, and the command ends. -/
theorem fdcTransfer_interrupted :
    let fdc := fdcTransferSeeking.foldl fdcInput
      { fdcInit ⟨fun _ => 0#8, []⟩ with timingMode := .real }
    let l := fdcTransferInterrupted.foldl FdcLedger.step (.accepted fdc 0xA0)
    FdcAccepts fdc 0xA0 .writeSector ⟨0, 4352⟩ ∧
      Machine.Throughout FdcLedger.step (FdcLedger.Asked .writeSector) fdcTransferInterrupted
        (.accepted fdc 0xA0) ∧
      l.passed = [some 0xAA] ∧ l.fdc.currentop = .none ∧ l.fdc.diStatus = some fdcStLostData ∧
      l.fdc.heap.load ⟨0, 4352⟩ = 0#8 ∧ ¬FdcOutcome (fdc.sectorField ⟨0, 4352⟩) .writeSector l := by
  intro fdc l
  have hpassed : l.passed = [some 0xAA] := by decide
  have hend : l.fdc.currentop = .none := by decide
  refine ⟨⟨by decide, .inr ⟨rfl, rfl, by decide⟩, rfl, by decide⟩,
    ⟨trivial, ⟨rfl, by decide⟩, trivial, trivial, trivial⟩, hpassed, hend,
    by decide, by decide, fun houtcome => ?_⟩
  rcases houtcome.passed hend with ⟨hlen, -⟩ | ⟨-, hmiss⟩
  · rw [hpassed] at hlen
    cases hlen
  · rw [hpassed] at hmiss
    cases hmiss

end Phosphoric
