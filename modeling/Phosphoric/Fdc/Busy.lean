import Phosphoric.Fdc.Invariant

/-!
# A busy controller has something scheduled

**Theorem (`fdcBusy_scheduled`).** In every state of every run from an initialised controller, if
the status says BUSY then the delayed interrupt, the delayed DRQ or the stream is running, or DRQ
is set and the next FDC_DATA access clears it and schedules the next event; or the operation is
Read Track, which nothing completes (`fdcReadTrack_never_scheduled`). The runs are those without a
Step-out at track 0 while no interrupt is on its way.
-/

namespace Phosphoric

/-! ## The property -/

/-- The access clears DRQ and schedules the next event. -/
def FdcAdvances (fdc : Fdc) : Prop :=
  fdc.drq = false ∧ (0 < fdc.delayedInt ∨ 0 < fdc.delayedDrq)

/-- DRQ is set and the FDC_DATA access the operation waits for advances it. -/
def FdcDrqServed (fdc : Fdc) : Prop :=
  fdc.drq = true ∧
    ((fdc.currentop ∈ [FdcOp.readSector, .readSectors, .readAddress] ∧
        FdcAdvances (fdcRead fdc 3).2) ∨
      (fdc.currentop ∈ [FdcOp.writeSector, .writeSectors, .writeTrack] ∧
        ∀ value, FdcAdvances (fdcWrite fdc 3 value)))

/-- Something will end or advance the command. -/
def FdcScheduled (fdc : Fdc) : Prop :=
  0 < fdc.delayedInt ∨ 0 < fdc.delayedDrq ∨ (fdc.stream = true ∧ fdcStreamed fdc = true) ∨
    FdcDrqServed fdc

/-! ## What a served DRQ schedules -/

theorem fdcNextSector_advances {fdc : Fdc} (hdrq : fdc.drq = false) :
    FdcAdvances (fdcNextSector fdc) := by
  unfold fdcNextSector
  dsimp only
  generalize hf : ({ fdc with sector := fdc.sector + 1#8, curOffset := 0 } : Fdc).lookup
    (fdc.sector + 1#8) = f
  have hdrq' : f.drq = false := hf ▸ hdrq
  cases f.curSectorData with
  | some p =>
    refine ⟨hdrq', .inr ?_⟩
    cases f.timingMode with
    | real => exact fdcRotWait_pos ..
    | fast => exact (by decide : (0 : Int) < 180)
  | none => exact ⟨fdcClrDrq_drq _, .inl (by decide : (0 : Int) < 20)⟩

theorem fdcByteServed_advances (fdc : Fdc) : FdcAdvances (fdcByteServed fdc) := by
  unfold fdcByteServed
  dsimp only
  split_ifs
  · exact fdcNextSector_advances (fdcClrDrq_drq fdc)
  · exact ⟨fdcClrDrq_drq _, .inl (by decide : (0 : Int) < 32)⟩
  · exact ⟨fdcClrDrq_drq fdc, .inr (by decide : (0 : Int) < 32)⟩

theorem fdcReadSectorByte_advances {fdc : Fdc} (hcur : fdc.curSectorData.isSome)
    (hs : fdc.stream = false) : FdcAdvances (fdcReadSectorByte fdc) := by
  unfold fdcReadSectorByte
  cases hc : fdc.curSectorData with
  | none => simp [hc] at hcur
  | some p =>
    dsimp only
    rw [if_neg (by simp [hs])]
    exact fdcByteServed_advances _

theorem fdcWriteSectorByte_advances {fdc : Fdc} (hcur : fdc.curSectorData.isSome)
    (hs : fdc.stream = false) (value : Byte) : FdcAdvances (fdcWriteSectorByte fdc value) := by
  unfold fdcWriteSectorByte
  cases hc : fdc.curSectorData with
  | none => simp [hc] at hcur
  | some p =>
    dsimp only
    rw [if_neg (by simp [hs])]
    exact fdcByteServed_advances _

theorem fdcReadAddressByte_advances (fdc : Fdc) : FdcAdvances (fdcReadAddressByte fdc) := by
  unfold fdcReadAddressByte
  dsimp only
  split_ifs
  · exact ⟨fdcClrDrq_drq (fdcIdByte fdc), .inl (by decide : (0 : Int) < 20)⟩
  · exact ⟨fdcClrDrq_drq (fdcIdByte fdc), .inr (by decide : (0 : Int) < 32)⟩

theorem fdcWriteTrackByte_advances (fdc : Fdc) (value : Byte) :
    FdcAdvances (fdcWriteTrackByte fdc value) := by
  unfold fdcWriteTrackByte
  dsimp only
  split_ifs
  · exact ⟨fdcClrDrq_drq (fdcWtParse _ value), .inl (by decide : (0 : Int) < 32)⟩
  · exact ⟨fdcClrDrq_drq (fdcWtParse _ value), .inr (by decide : (0 : Int) < 32)⟩

theorem FdcOp.isServed_cases {op : FdcOp} (h : op.isServed = true) :
    (op = .readSector ∨ op = .readSectors) ∨ op = .readAddress ∨
      (op = .writeSector ∨ op = .writeSectors) ∨ op = .writeTrack := by
  cases op <;> simp_all [FdcOp.isServed, FdcOp.isSector]

theorem fdcReadData_of_sector {fdc : Fdc}
    (hop : fdc.currentop = .readSector ∨ fdc.currentop = .readSectors) :
    fdcReadData fdc = fdcReadSectorByte fdc := by
  rcases hop with hop | hop <;> simp [fdcReadData, hop]

theorem fdcWriteData_of_sector {fdc : Fdc} (value : Byte)
    (hop : fdc.currentop = .writeSector ∨ fdc.currentop = .writeSectors) :
    fdcWriteData fdc value = fdcWriteSectorByte { fdc with data := value } value := by
  rcases hop with hop | hop <;> simp [fdcWriteData, hop]

theorem FdcInv.drqServed {fdc : Fdc} (h : FdcInv live fdc) (hop : fdc.currentop.isServed = true)
    (hdrq : fdc.drq = true) (hs : fdc.stream = false) : FdcDrqServed fdc := by
  have hread : (fdcRead fdc 3).2 = fdcReadData fdc := rfl
  have hwrite : ∀ value, fdcWrite fdc 3 value = fdcWriteData fdc value := fun _ => rfl
  refine ⟨hdrq, ?_⟩
  rw [hread]
  simp only [hwrite]
  rcases FdcOp.isServed_cases hop with hop | hop | hop | hop
  · have hsector : fdc.currentop.isSector = true := by
      rcases hop with hop | hop <;> rw [hop] <;> rfl
    refine .inl ⟨by rcases hop with hop | hop <;> simp [hop], ?_⟩
    rw [fdcReadData_of_sector hop]
    exact fdcReadSectorByte_advances (h.sector hsector).1 hs
  · refine .inl ⟨by simp [hop], ?_⟩
    rw [fdcReadData, hop]
    exact fdcReadAddressByte_advances fdc
  · have hsector : fdc.currentop.isSector = true := by
      rcases hop with hop | hop <;> rw [hop] <;> rfl
    refine .inr ⟨by rcases hop with hop | hop <;> simp [hop], fun value => ?_⟩
    have hcur : ({ fdc with data := value } : Fdc).curSectorData.isSome := (h.sector hsector).1
    rw [fdcWriteData_of_sector value hop]
    exact fdcWriteSectorByte_advances hcur hs value
  · refine .inr ⟨by simp [hop], fun value => ?_⟩
    have hdata : fdcWriteData fdc value = fdcWriteTrackByte { fdc with data := value } value := by
      simp [fdcWriteData, hop]
    rw [hdata]
    exact fdcWriteTrackByte_advances _ value

theorem FdcInv.scheduled {fdc : Fdc} (h : FdcInv True fdc) (hb : fdc.busy = true) :
    fdc.currentop = .readTrack ∨ FdcScheduled fdc := by
  rcases h.busy trivial hb with hr | hint | ⟨hop, hd | ⟨hdrq, hs⟩⟩ | hst
  · exact .inl hr
  · exact .inr (.inl hint)
  · exact .inr (.inr (.inl hd))
  · exact .inr (.inr (.inr (.inr (h.drqServed hop hdrq hs))))
  · exact .inr (.inr (.inr (.inl hst)))

/-! ## The property of runs -/

/-- The states reached from an initialised controller by the inputs `ok` allows. -/
abbrev FdcReach (ok : Fdc → FdcInput → Prop) : Fdc → Prop :=
  Machine.Reach fdcInput ok FdcStart

theorem fdcBusy_scheduled {fdc : Fdc} (h : FdcReach (fun f op => ¬FdcBlindStepOut f op) fdc)
    (hb : fdc.busy = true) : fdc.currentop = .readTrack ∨ FdcScheduled fdc :=
  (h.invariant (fun _ => fdcInit_inv) fun _ op hinv hok =>
    fdcInput_inv hinv op fun _ => hok).scheduled hb

/-- An 80-track, 17-sector medium put into a controller of a Microdisc. -/
def fdcSampleStart : Fdc :=
  fdcInput { fdcInit ⟨fun _ => 0, []⟩ with timingMode := .real }
    (.setDisk (some 0) 348160 80 17)

theorem fdcSampleStart_reach {ok : Fdc → FdcInput → Prop} (hok : ok
    { fdcInit ⟨fun _ => 0, []⟩ with timingMode := .real } (.setDisk (some 0) 348160 80 17)) :
    FdcReach ok fdcSampleStart :=
  .step (.init ⟨_, _, rfl⟩) hok

theorem fdcBusy_scheduled_readSector :
    fdcSampleStart.busy = false ∧
      (fdcInput (fdcInput fdcSampleStart (.access (.write 2 1))) (.access (.write 0 0x80))).busy =
        true ∧
      ((fdcInput (fdcInput fdcSampleStart (.access (.write 2 1)))
          (.access (.write 0 0x80))).currentop = .readTrack ∨
        FdcScheduled (fdcInput (fdcInput fdcSampleStart (.access (.write 2 1)))
          (.access (.write 0 0x80)))) := by
  have hreach : FdcReach (fun f op => ¬FdcBlindStepOut f op)
      (fdcInput (fdcInput fdcSampleStart (.access (.write 2 1))) (.access (.write 0 0x80))) := by
    refine .step (.step (fdcSampleStart_reach id) ?_) ?_
    · rintro ⟨h, -⟩; exact absurd h (by decide)
    · rintro ⟨-, h, -⟩; exact absurd h (by decide)
  exact ⟨by decide, by decide, fdcBusy_scheduled hreach (by decide)⟩

/-- Read Track raises its DRQ, and no access ever lowers it. -/
theorem fdcReadTrack_never_scheduled :
    ¬∀ fdc, FdcReach (fun _ _ => True) fdc → fdc.busy = true → FdcScheduled fdc := by
  intro hall
  have hsched := hall
    (fdcInput (fdcInput fdcSampleStart (.access (.write 0 0xE0))) (.access (.ticktock 60)))
    (.step (.step (fdcSampleStart_reach trivial) trivial) trivial) (by decide)
  rcases hsched with h | h | ⟨h, -⟩ | ⟨-, ⟨h, -⟩ | ⟨h, -⟩⟩
  · exact absurd h (by decide)
  · exact absurd h (by decide)
  · exact absurd h (by decide)
  · exact absurd h (by decide)
  · exact absurd h (by decide)

end Phosphoric
