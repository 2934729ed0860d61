import Phosphoric.Fdc.Invariant

/-!
# Where the controller stores

**Theorem (`fdcAccess_stores_in_sector`).** In every run of register accesses and ticks on a
medium of any size, geometry and side, an access stores into the 256 bytes of the sector addressed
and into the image only, exactly if it is not a byte past the 256th of a Write Track data field
(`FdcOverlongStore`).

What an access may store is stated twice. `FdcEffect` bounds it by the pointer `cur_sector_data`
and an offset, and follows the code; `FdcPlaced` says what the pointer points to, and is an
invariant. A lookup establishes it and only a command moves the head, so it is stated over a
property `Q` of a place and a pointer that every lookup establishes.
-/

namespace Phosphoric

open Heap

/-! ## What an operation may store -/

/-- The operations that store. -/
def FdcOp.stores (op : FdcOp) : Bool := fdcOpIsWrite op || op == .writeTrack

/-- The bytes the operation in progress may store, at an offset below `n`. -/
def FdcCell (n : Nat) (fdc : Fdc) (a : Ptr) : Prop :=
  fdc.currentop.stores = true ∧
    ∃ p k, fdc.curSectorData = some p ∧ k < n ∧ a = ⟨p.buf, p.off + k⟩

/-- The medium under the head. -/
structure FdcMedia where
  diskData : Option Nat
  diskSize : Nat
  tracks : Byte
  sectorsPerTrack : Byte
  bad : FdcBadMap
  writeProtected : Bool
  side : Byte

def Fdc.media (fdc : Fdc) : FdcMedia :=
  ⟨fdc.diskData, fdc.diskSize, fdc.tracks, fdc.sectorsPerTrack, fdc.bad, fdc.writeProtected,
    fdc.side⟩

/-- The stores are where they may be, `disk_modified` tells of them, and the medium stays. -/
structure FdcEffect (n : Nat) (fdc fdc' : Fdc) : Prop where
  stores : StoresIn (FdcCell n fdc) fdc.heap fdc'.heap
  modified : (fdc'.heap = fdc.heap ∧ fdc'.diskModified = fdc.diskModified) ∨
    fdc'.diskModified = true
  media : fdc'.media = fdc.media

/-- Nothing stored, nothing marked, nothing moved. -/
structure FdcKeeps (fdc fdc' : Fdc) : Prop where
  heap : fdc'.heap = fdc.heap
  diskModified : fdc'.diskModified = fdc.diskModified
  media : fdc'.media = fdc.media

variable {n : Nat} {fdc f f' f'' : Fdc}

theorem FdcKeeps.trans (h : FdcKeeps f f') (h' : FdcKeeps f' f'') : FdcKeeps f f'' :=
  ⟨h'.heap.trans h.heap, h'.diskModified.trans h.diskModified, h'.media.trans h.media⟩

theorem FdcKeeps.effect (h : FdcKeeps f f') : FdcEffect n f f' where
  stores := h.heap ▸ StoresIn.refl _ _
  modified := .inl ⟨h.heap, h.diskModified⟩
  media := h.media

/-- Two effects of one operation on one sector. -/
theorem FdcEffect.trans (h : FdcEffect n f f') (h' : FdcEffect n f' f'')
    (hop : f'.currentop = f.currentop) (hcur : f'.curSectorData = f.curSectorData) :
    FdcEffect n f f'' where
  stores := by
    refine h.stores.trans (h'.stores.mono fun a ha => ?_)
    rwa [FdcCell, hop, hcur] at ha
  modified := by
    rcases h'.modified with ⟨hheap, hmod⟩ | hmod
    · rcases h.modified with ⟨hheap', hmod'⟩ | hmod'
      · exact .inl ⟨hheap.trans hheap', hmod.trans hmod'⟩
      · exact .inr (hmod.trans hmod')
    · exact .inr hmod
  media := h'.media.trans h.media

theorem FdcEffect.then_keeps (h : FdcEffect n f f') (h' : FdcKeeps f' f'') :
    FdcEffect n f f'' where
  stores := h'.heap ▸ h.stores
  modified := h'.heap ▸ h'.diskModified ▸ h.modified
  media := h'.media.trans h.media

/-! ## Where the pointer points -/

/-- What a sector's position depends on. -/
structure FdcPlace where
  diskData : Option Nat
  diskSize : Nat
  side : Byte
  tracks : Byte
  sectorsPerTrack : Byte
  cTrack : Byte
  sectorId : Byte

def Fdc.place (fdc : Fdc) : FdcPlace :=
  ⟨fdc.diskData, fdc.diskSize, fdc.side, fdc.tracks, fdc.sectorsPerTrack, fdc.cTrack,
    fdc.curSectorId⟩

/-- While an operation that stores is in progress, its sector is where `Q` says. -/
def FdcPlaced (Q : FdcPlace → Ptr → Prop) (fdc : Fdc) : Prop :=
  fdc.currentop.stores = true → ∀ p, fdc.curSectorData = some p → Q fdc.place p

/-- Every lookup establishes `Q`. -/
def FdcFinds (Q : FdcPlace → Ptr → Prop) : Prop :=
  ∀ (fdc : Fdc) (secId : Byte) (p : Ptr),
    (fdc.lookup secId).curSectorData = some p → Q (fdc.lookup secId).place p

variable {Q : FdcPlace → Ptr → Prop}

theorem FdcPlaced.of_op (op : FdcOp) (hop : fdc.currentop = op) (hs : op.stores = false) :
    FdcPlaced Q fdc := by
  intro h
  rw [hop, hs] at h
  cases h

/-- The operation and its sector are the same. -/
structure FdcSame (fdc fdc' : Fdc) : Prop extends FdcKeeps fdc fdc' where
  currentop : fdc'.currentop = fdc.currentop
  curSectorData : fdc'.curSectorData = fdc.curSectorData
  place : fdc'.place = fdc.place

theorem FdcSame.trans (h : FdcSame f f') (h' : FdcSame f' f'') : FdcSame f f'' :=
  ⟨h.toFdcKeeps.trans h'.toFdcKeeps, h'.currentop.trans h.currentop,
    h'.curSectorData.trans h.curSectorData, h'.place.trans h.place⟩

theorem FdcSame.placed (h : FdcSame f f') (hp : FdcPlaced Q f) : FdcPlaced Q f' := by
  intro hop p hcur
  rw [h.currentop] at hop
  rw [h.curSectorData] at hcur
  rw [h.place]
  exact hp hop p hcur

/-- An operation's outcome: nothing stored by what followed its stores, and the sector placed. -/
structure FdcPlaces (Q : FdcPlace → Ptr → Prop) (fdc fdc' : Fdc) : Prop
    extends FdcKeeps fdc fdc' where
  placed : FdcPlaced Q fdc'

/-! ## Commands -/

theorem FdcPlaces.idle (op : FdcOp) (h : FdcKeeps f f') (hop : f'.currentop = op)
    (hs : op.stores = false) : FdcPlaces Q f f' :=
  ⟨h, .of_op op hop hs⟩

theorem FdcKeeps.then_places (h : FdcKeeps f f') (h' : FdcPlaces Q f' f'') : FdcPlaces Q f f'' :=
  ⟨h.trans h'.toFdcKeeps, h'.placed⟩

theorem fdcSeekTrack_places (fdc : Fdc) (target cmd : Byte) (update : Bool) :
    FdcPlaces Q fdc { fdcSeekTrack fdc target cmd update with currentop := .none } := by
  unfold fdcSeekTrack
  split <;> exact .idle .none ⟨rfl, rfl, rfl⟩ rfl rfl

theorem fdcRecordNotFound_places (fdc : Fdc) : FdcPlaces Q fdc (fdcRecordNotFound fdc) := by
  unfold fdcRecordNotFound
  dsimp only
  split <;> exact .idle .none ⟨rfl, rfl, rfl⟩ rfl rfl

theorem fdcRefuse_places (fdc : Fdc) (st : Byte) : FdcPlaces Q fdc (fdcRefuse fdc st) :=
  .idle .none ⟨rfl, rfl, rfl⟩ rfl rfl

theorem fdcNotReady_places {command : Fdc → Fdc} (hc : FdcPlaces Q fdc (command fdc)) :
    FdcPlaces Q fdc (fdcNotReady fdc command) := by
  unfold fdcNotReady
  split
  · exact hc
  · exact fdcRefuse_places fdc _

theorem fdcWriteProtected_places {command : Fdc → Fdc} (hc : FdcPlaces Q fdc (command fdc)) :
    FdcPlaces Q fdc (fdcWriteProtected fdc command) := by
  unfold fdcWriteProtected
  split
  · exact fdcRefuse_places fdc _
  · exact hc

theorem fdcSectorCommand_places (hQ : FdcFinds Q) (fdc : Fdc) (value : Byte) (delay : Int)
    (single multiple : FdcOp) :
    FdcPlaces Q fdc (fdcSectorCommand value delay single multiple fdc) := by
  have hfind := hQ { fdc with curOffset := 0 } fdc.sector
  have hkeep : FdcKeeps fdc ({ fdc with curOffset := 0 }.lookup fdc.sector) := ⟨rfl, rfl, rfl⟩
  unfold fdcSectorCommand
  dsimp only
  generalize ({ fdc with curOffset := 0 } : Fdc).lookup fdc.sector = f at hfind hkeep
  cases hcur : f.curSectorData with
  | none => exact hkeep.then_places (fdcRecordNotFound_places f)
  | some p =>
    refine ⟨⟨hkeep.heap, hkeep.diskModified, hkeep.media⟩, fun _ q hq => ?_⟩
    cases hq
    exact hfind p hcur

theorem fdcReadAddress_places (fdc : Fdc) : FdcPlaces Q fdc (fdcReadAddress fdc) := by
  have hkeep : FdcKeeps fdc { fdc with statusType1 := false } := ⟨rfl, rfl, rfl⟩
  refine hkeep.then_places (fdcNotReady_places ?_)
  dsimp only
  split
  · refine FdcKeeps.then_places ?_ (fdcRecordNotFound_places _)
    exact ⟨rfl, rfl, rfl⟩
  · split <;> exact .idle .readAddress ⟨rfl, rfl, rfl⟩ rfl rfl

theorem fdcForceInterrupt_places (fdc : Fdc) (value : Byte) :
    FdcPlaces Q fdc (fdcForceInterrupt fdc value) := by
  unfold fdcForceInterrupt
  dsimp only
  split_ifs <;> exact .idle .none ⟨rfl, rfl, rfl⟩ rfl rfl

theorem fdcReadTrack_places (fdc : Fdc) : FdcPlaces Q fdc (fdcReadTrack fdc) := by
  have hkeep : FdcKeeps fdc { fdc with statusType1 := false } := ⟨rfl, rfl, rfl⟩
  exact hkeep.then_places (fdcNotReady_places (.idle .readTrack ⟨rfl, rfl, rfl⟩ rfl rfl))

/-- The format starts without a sector. -/
theorem fdcWriteTrack_places (fdc : Fdc) : FdcPlaces Q fdc (fdcWriteTrack fdc) := by
  have hkeep : FdcKeeps fdc { fdc with statusType1 := false } := ⟨rfl, rfl, rfl⟩
  exact hkeep.then_places (fdcNotReady_places (fdcWriteProtected_places ⟨⟨rfl, rfl, rfl⟩, nofun⟩))

theorem fdcStep_places (fdc : Fdc) (value : Byte) : FdcPlaces Q fdc (fdcStep fdc value) := by
  have hkeep : FdcKeeps fdc (fdcTypeI fdc value) := ⟨rfl, rfl, rfl⟩
  unfold fdcStep
  dsimp only
  split <;> exact hkeep.then_places (fdcSeekTrack_places ..)

theorem fdcStepOut_places (fdc : Fdc) (value : Byte) : FdcPlaces Q fdc (fdcStepOut fdc value) := by
  have hkeep : FdcKeeps fdc { fdcTypeI fdc value with direction := 1 } := ⟨rfl, rfl, rfl⟩
  unfold fdcStepOut
  dsimp only
  split_ifs
  · exact hkeep.then_places (fdcSeekTrack_places ..)
  · exact .idle .none ⟨rfl, rfl, rfl⟩ rfl rfl

theorem fdcBeginCommand_keeps (fdc : Fdc) (value : Byte) :
    FdcKeeps fdc (fdcBeginCommand fdc value) := by
  unfold fdcBeginCommand
  dsimp only
  split_ifs <;> exact ⟨rfl, rfl, rfl⟩

/-- No command stores. -/
theorem fdcWriteCommand_places (hQ : FdcFinds Q) (fdc : Fdc) (value : Byte) :
    FdcPlaces Q fdc (fdcWriteCommand fdc value) := by
  unfold fdcWriteCommand
  refine (fdcBeginCommand_keeps fdc value).then_places ?_
  generalize fdcBeginCommand fdc value = f
  have hkeep : FdcKeeps f { f with statusType1 := false } := ⟨rfl, rfl, rfl⟩
  have hkeep' : ∀ direction, FdcKeeps f { fdcTypeI f value with direction := direction } :=
    fun _ => ⟨rfl, rfl, rfl⟩
  cases fdcCommand value with
  | restoreSeek => exact (hkeep' f.direction).then_places (fdcSeekTrack_places ..)
  | step => exact fdcStep_places f value
  | stepIn => exact (hkeep' 0).then_places (fdcSeekTrack_places ..)
  | stepOut => exact fdcStepOut_places f value
  | readSector => exact hkeep.then_places (fdcNotReady_places (fdcSectorCommand_places hQ ..))
  | writeSector =>
    exact hkeep.then_places
      (fdcNotReady_places (fdcWriteProtected_places (fdcSectorCommand_places hQ ..)))
  | readAddress => exact fdcReadAddress_places f
  | forceInterrupt => exact fdcForceInterrupt_places f value
  | readTrack => exact fdcReadTrack_places f
  | writeTrack => exact fdcWriteTrack_places f

/-! ## One byte -/

/-- A byte at `cur_offset` of the sector. -/
theorem storeByte_effect (fdc : Fdc) (b : Byte) (hop : fdc.currentop.stores = true)
    (hoff : fdc.curSectorData.isSome = true → fdc.curOffset.toNat < n) :
    StoresIn (FdcCell n fdc) fdc.heap (fdc.storeByte b).heap := by
  unfold Fdc.storeByte
  split
  · rename_i p hcur
    exact StoresIn.store _ _ ⟨hop, p, _, hcur, hoff (by simp [hcur]), rfl⟩
  · exact StoresIn.refl _ _

theorem fdcNextSector_places (hQ : FdcFinds Q) (fdc : Fdc) :
    FdcPlaces Q fdc (fdcNextSector fdc) := by
  have hfind := hQ { fdc with sector := fdc.sector + 1#8, curOffset := 0 } (fdc.sector + 1#8)
  have hkeep : FdcKeeps fdc ({ fdc with sector := fdc.sector + 1#8, curOffset := 0 }.lookup
    (fdc.sector + 1#8)) := ⟨rfl, rfl, rfl⟩
  unfold fdcNextSector
  dsimp only
  generalize ({ fdc with sector := fdc.sector + 1#8, curOffset := 0 } : Fdc).lookup
    (fdc.sector + 1#8) = f at hfind hkeep
  cases hcur : f.curSectorData with
  | some p =>
    refine ⟨⟨hkeep.heap, hkeep.diskModified, hkeep.media⟩, fun _ q hq => ?_⟩
    cases hq
    exact hfind p hcur
  | none => exact hkeep.then_places (.idle .none ⟨rfl, rfl, rfl⟩ rfl rfl)

theorem fdcByteServed_places (hQ : FdcFinds Q) (hp : FdcPlaced Q fdc) :
    FdcPlaces Q fdc (fdcByteServed fdc) := by
  have hkeep : FdcKeeps fdc (fdcClrDrq fdc) := ⟨rfl, rfl, rfl⟩
  unfold fdcByteServed
  dsimp only
  split_ifs
  · exact hkeep.then_places (fdcNextSector_places hQ _)
  · exact .idle .none ⟨rfl, rfl, rfl⟩ rfl rfl
  · exact ⟨⟨rfl, rfl, rfl⟩, hp⟩

theorem fdcReadData_places (hQ : FdcFinds Q) (hp : FdcPlaced Q fdc) :
    FdcPlaces Q fdc (fdcReadData fdc) := by
  have hsector : FdcPlaces Q fdc (fdcReadSectorByte fdc) := by
    unfold fdcReadSectorByte
    split
    · exact .idle .none ⟨rfl, rfl, rfl⟩ rfl rfl
    · dsimp only
      split_ifs
      · exact ⟨⟨rfl, rfl, rfl⟩, hp⟩
      · refine FdcKeeps.then_places ?_ (fdcByteServed_places hQ ?_)
        · exact ⟨rfl, rfl, rfl⟩
        · exact hp
      · refine FdcKeeps.then_places ?_ (fdcByteServed_places hQ ?_)
        · exact ⟨rfl, rfl, rfl⟩
        · exact hp
  unfold fdcReadData
  split
  case h_1 => exact hsector
  case h_2 => exact hsector
  case h_3 hop =>
    have hid : FdcKeeps fdc (fdcIdByte fdc) ∧ (fdcIdByte fdc).currentop = fdc.currentop := by
      unfold fdcIdByte
      split <;> exact ⟨⟨rfl, rfl, rfl⟩, rfl⟩
    unfold fdcReadAddressByte
    dsimp only
    refine hid.1.then_places ?_
    split_ifs
    · exact .idle .none ⟨rfl, rfl, rfl⟩ rfl rfl
    · exact .idle .readAddress ⟨rfl, rfl, rfl⟩ (hid.2.trans hop) rfl
  case h_4 => exact ⟨⟨rfl, rfl, rfl⟩, hp⟩

/-- What an access leaves: its effect, and the sector placed. -/
structure FdcStep (n : Nat) (Q : FdcPlace → Ptr → Prop) (fdc fdc' : Fdc) : Prop where
  effect : FdcEffect n fdc fdc'
  placed : FdcPlaced Q fdc'

theorem FdcPlaces.step (h : FdcPlaces Q f f') : FdcStep n Q f f' :=
  ⟨h.toFdcKeeps.effect, h.placed⟩

theorem fdcWriteSectorByte_step {live : Prop} (hQ : FdcFinds Q) (hinv : FdcInv live fdc)
    (hp : FdcPlaced Q fdc) (hop : fdcOpIsWrite fdc.currentop = true) (value : Byte)
    (hn : 256 ≤ n) : FdcStep n Q fdc (fdcWriteSectorByte fdc value) := by
  have hstores : fdc.currentop.stores = true := by simp [FdcOp.stores, hop]
  have hsector : fdc.currentop.isSector = true := by
    simp only [fdcOpIsWrite, Bool.or_eq_true, beq_iff_eq] at hop
    rcases hop with hop | hop <;> rw [hop] <;> rfl
  unfold fdcWriteSectorByte
  split
  · exact FdcPlaces.step (.idle .none ⟨rfl, rfl, rfl⟩ rfl rfl)
  · split_ifs with hs
    · exact FdcPlaces.step ⟨⟨rfl, rfl, rfl⟩, hp⟩
    · have hoff : fdc.curOffset.toNat < n := by
        rcases hinv.offset hsector with hlt | ⟨hs', -⟩
        · exact lt_of_lt_of_le hlt hn
        · exact absurd hs' hs
      have hstore := storeByte_effect fdc value hstores fun _ => hoff
      obtain ⟨heap, heq⟩ := storeByte_frame fdc value
      rw [heq] at hstore ⊢
      have heffect : FdcEffect n fdc
          { fdc with heap := heap, curOffset := fdc.curOffset + 1#16, diskModified := true } :=
        ⟨hstore, .inr rfl, rfl⟩
      have hserved := fdcByteServed_places hQ (by exact hp : FdcPlaced Q
        { fdc with heap := heap, curOffset := fdc.curOffset + 1#16, diskModified := true })
      exact ⟨heffect.then_keeps hserved.toFdcKeeps, hserved.placed⟩

/-- A Write Track data field byte, stored at an offset below `n`. -/
def FdcFieldBelow (n : Nat) (fdc : Fdc) : Prop :=
  fdc.wtState = .dataField → fdc.curOffset < fdc.wtDataLen → fdc.curSectorData.isSome = true →
    fdc.curOffset.toNat < n

theorem fdcWtParse_step (hQ : FdcFinds Q) (hp : FdcPlaced Q fdc)
    (hop : fdc.currentop = .writeTrack) (hmod : fdc.diskModified = true) (value : Byte)
    (hoff : FdcFieldBelow n fdc) :
    FdcStep n Q fdc (fdcWtParse fdc value) ∧ (fdcWtParse fdc value).currentop = .writeTrack := by
  unfold fdcWtParse
  cases hst : fdc.wtState with
  | scan =>
    dsimp only
    split_ifs
    · exact ⟨FdcPlaces.step ⟨⟨rfl, rfl, rfl⟩, hp⟩, hop⟩
    · exact ⟨FdcPlaces.step ⟨⟨rfl, rfl, rfl⟩, fun _ p hcur => hQ fdc _ p hcur⟩, hop⟩
    · exact ⟨FdcPlaces.step ⟨⟨rfl, rfl, rfl⟩, hp⟩, hop⟩
  | idField => exact ⟨FdcPlaces.step ⟨⟨rfl, rfl, rfl⟩, hp⟩, hop⟩
  | other _ => exact ⟨FdcPlaces.step ⟨⟨rfl, rfl, rfl⟩, hp⟩, hop⟩
  | dataField =>
    obtain ⟨heap, hheap, hstore⟩ : ∃ heap, StoresIn (FdcCell n fdc) fdc.heap heap ∧
        (if fdc.curOffset < fdc.wtDataLen then fdc.storeByte value else fdc) =
          { fdc with heap := heap } := by
      split_ifs with hin
      · have heffect := storeByte_effect fdc value (by rw [hop]; rfl) (hoff hst hin)
        obtain ⟨heap, heq⟩ := storeByte_frame fdc value
        rw [heq] at heffect
        exact ⟨heap, heffect, heq⟩
      · exact ⟨fdc.heap, StoresIn.refl _ _, rfl⟩
    rw [hstore]
    dsimp only
    split
    · exact ⟨⟨⟨hheap, .inr hmod, rfl⟩, hp⟩, hop⟩
    · exact ⟨⟨⟨hheap, .inr hmod, rfl⟩, hp⟩, hop⟩

theorem fdcWriteTrackByte_step (hQ : FdcFinds Q) (hp : FdcPlaced Q fdc)
    (hop : fdc.currentop = .writeTrack) (value : Byte) (hoff : FdcFieldBelow n fdc) :
    FdcStep n Q fdc (fdcWriteTrackByte fdc value) := by
  have hp₀ : FdcPlaced Q { fdc with diskModified := true } := hp
  obtain ⟨⟨heffect, hplaced⟩, hop'⟩ := fdcWtParse_step hQ hp₀ hop rfl value hoff
  have heffect' : FdcEffect n fdc (fdcWtParse { fdc with diskModified := true } value) :=
    ⟨heffect.stores, .inr (heffect.modified.elim And.right id), heffect.media⟩
  unfold fdcWriteTrackByte
  dsimp only
  split_ifs
  · exact ⟨heffect'.then_keeps ⟨rfl, rfl, rfl⟩, .of_op .none rfl rfl⟩
  · exact ⟨heffect'.then_keeps ⟨rfl, rfl, rfl⟩, hplaced⟩

theorem fdcWriteTrackByte_heap (fdc : Fdc) (value : Byte) :
    (fdcWriteTrackByte fdc value).heap =
      (fdcWtParse { fdc with diskModified := true } value).heap := by
  unfold fdcWriteTrackByte
  dsimp only
  split_ifs <;> rfl

theorem fdcWriteData_step {live : Prop} (hQ : FdcFinds Q) (hinv : FdcInv live fdc)
    (hp : FdcPlaced Q fdc) (value : Byte) (hn : 256 ≤ n)
    (hoff : fdc.currentop = .writeTrack → FdcFieldBelow n fdc) :
    FdcStep n Q fdc (fdcWriteData fdc value) := by
  have hinv₀ : FdcInv live { fdc with data := value } := { hinv with }
  have hp₀ : FdcPlaced Q { fdc with data := value } := hp
  have hsector (hop : fdcOpIsWrite fdc.currentop = true) :
      FdcStep n Q fdc (fdcWriteSectorByte { fdc with data := value } value) := by
    have hstep := fdcWriteSectorByte_step hQ hinv₀ hp₀ hop value hn
    exact ⟨⟨hstep.effect.stores, hstep.effect.modified, hstep.effect.media⟩, hstep.placed⟩
  unfold fdcWriteData
  dsimp only
  split
  case h_1 hop => exact hsector (by rw [hop]; rfl)
  case h_2 hop => exact hsector (by rw [hop]; rfl)
  case h_3 hop =>
    have hstep := fdcWriteTrackByte_step hQ hp₀ hop value (hoff hop)
    exact ⟨⟨hstep.effect.stores, hstep.effect.modified, hstep.effect.media⟩, hstep.placed⟩
  case h_4 => exact FdcPlaces.step ⟨⟨rfl, rfl, rfl⟩, hp⟩

/-! ## Ticks -/

theorem fdcTickInt_same (fdc : Fdc) (cycles : BitVec 32) : FdcSame fdc (fdcTickInt fdc cycles) := by
  unfold fdcTickInt
  dsimp only
  split_ifs <;> exact ⟨⟨rfl, rfl, rfl⟩, rfl, rfl, rfl⟩

theorem fdcTickDrq_same (fdc : Fdc) (cycles : BitVec 32) : FdcSame fdc (fdcTickDrq fdc cycles) := by
  unfold fdcTickDrq fdcStreamStart
  dsimp only
  split_ifs <;> exact ⟨⟨rfl, rfl, rfl⟩, rfl, rfl, rfl⟩

theorem fdcTickLost_same (fdc : Fdc) (cycles : BitVec 32) :
    FdcSame fdc (fdcTickLost fdc cycles) := by
  unfold fdcTickLost
  dsimp only
  split_ifs <;> exact ⟨⟨rfl, rfl, rfl⟩, rfl, rfl, rfl⟩

theorem fdcStreamSectorDone_places (hQ : FdcFinds Q) (fdc : Fdc) :
    FdcPlaces Q fdc (fdcStreamSectorDone fdc) := by
  have hkeep : FdcKeeps fdc (fdcClrDrq { fdc with stream := false, streamCrc := false }) :=
    ⟨rfl, rfl, rfl⟩
  unfold fdcStreamSectorDone
  dsimp only
  refine hkeep.then_places ?_
  generalize fdcClrDrq { fdc with stream := false, streamCrc := false } = f
  split_ifs
  · have hfind := hQ { f with sector := f.sector + 1#8, curOffset := 0 } (f.sector + 1#8)
    have hkeep : FdcKeeps f ({ f with sector := f.sector + 1#8, curOffset := 0 }.lookup
      (f.sector + 1#8)) := ⟨rfl, rfl, rfl⟩
    generalize ({ f with sector := f.sector + 1#8, curOffset := 0 } : Fdc).lookup
      (f.sector + 1#8) = g at hfind hkeep
    cases hcur : g.curSectorData with
    | some p =>
      refine ⟨⟨hkeep.heap, hkeep.diskModified, hkeep.media⟩, fun _ q hq => ?_⟩
      cases hq
      exact hfind p hcur
    | none => exact hkeep.then_places (.idle .none ⟨rfl, rfl, rfl⟩ rfl rfl)
  · exact .idle .none ⟨rfl, rfl, rfl⟩ rfl rfl

theorem fdcStreamPut_step {live : Prop} (hinv : FdcStreaming live fdc)
    (hcrc : fdc.streamCrc = false) (hw : fdcOpIsWrite fdc.currentop = true) (hn : 256 ≤ n) :
    FdcEffect n fdc (fdcStreamPut fdc) := by
  have hstores : fdc.currentop.stores = true := by simp [FdcOp.stores, hw]
  have hoff : fdc.curSectorData.isSome = true → fdc.curOffset.toNat < n :=
    fun _ => lt_of_lt_of_le (hinv.offset_lt hcrc hw) hn
  refine ⟨?_, .inr rfl, ?_⟩
  · unfold fdcStreamPut
    dsimp only
    split_ifs
    · exact storeByte_effect fdc _ hstores hoff
    · exact storeByte_effect (fdcStreamLost fdc) _ hstores hoff
  · obtain ⟨status, lost, heap, hput⟩ := fdcStreamPut_frame fdc
    rw [hput]
    rfl

/-- What a step of the stream leaves: while it runs, it is the same transfer of the same
sector. -/
structure FdcStreamed (n : Nat) (Q : FdcPlace → Ptr → Prop) (fdc fdc' : Fdc) : Prop
    extends FdcStep n Q fdc fdc' where
  currentop : fdc'.stream = true → fdc'.currentop = fdc.currentop
  curSectorData : fdc'.stream = true → fdc'.curSectorData = fdc.curSectorData

theorem fdcStreamSectorDone_streamed (hQ : FdcFinds Q) (hkeep : FdcKeeps fdc f) :
    FdcStreamed n Q fdc (fdcStreamSectorDone f) := by
  have hstop : ∀ {P : Prop}, (fdcStreamSectorDone f).stream = true → P := by
    intro P hs
    rw [fdcStreamSectorDone_stream] at hs
    cases hs
  exact ⟨(hkeep.then_places (fdcStreamSectorDone_places hQ f)).step, hstop, hstop⟩

theorem fdcStreamStepWrite_streamed {live : Prop} (hQ : FdcFinds Q)
    (hinv : FdcStreaming live fdc) (hp : FdcPlaced Q fdc) (hcrc : fdc.streamCrc = false)
    (hw : fdcOpIsWrite fdc.currentop = true) (hn : 256 ≤ n) :
    FdcStreamed n Q fdc (fdcStreamStepWrite fdc) := by
  have heffect := fdcStreamPut_step hinv hcrc hw hn
  unfold fdcStreamStepWrite
  split
  · exact fdcStreamSectorDone_streamed hQ ⟨rfl, rfl, rfl⟩
  · obtain ⟨status, lost, heap, hput⟩ := fdcStreamPut_frame fdc
    rw [hput] at heffect ⊢
    dsimp only
    split_ifs
    · exact ⟨⟨heffect.then_keeps ⟨rfl, rfl, rfl⟩, hp⟩, fun _ => rfl, fun _ => rfl⟩
    · exact ⟨⟨heffect.then_keeps ⟨rfl, rfl, rfl⟩, hp⟩, fun _ => rfl, fun _ => rfl⟩

theorem fdcStreamStepRead_streamed (hp : FdcPlaced Q fdc) :
    FdcStreamed n Q fdc (fdcStreamStepRead fdc) := by
  unfold fdcStreamStepRead
  split_ifs
  · obtain ⟨status, lost, data, hget⟩ := fdcStreamGet_frame fdc
    rw [hget]
    exact ⟨FdcPlaces.step ⟨⟨rfl, rfl, rfl⟩, hp⟩, fun _ => rfl, fun _ => rfl⟩
  · exact ⟨FdcPlaces.step ⟨⟨rfl, rfl, rfl⟩, hp⟩, fun _ => rfl, fun _ => rfl⟩

theorem fdcStreamStep_streamed {live : Prop} (hQ : FdcFinds Q) (hinv : FdcStreaming live fdc)
    (hp : FdcPlaced Q fdc) (hn : 256 ≤ n) : FdcStreamed n Q fdc (fdcStreamStep fdc) := by
  unfold fdcStreamStep
  split_ifs with hcrc hlost hw
  · exact fdcStreamSectorDone_streamed hQ ⟨rfl, rfl, rfl⟩
  · exact fdcStreamSectorDone_streamed hQ ⟨rfl, rfl, rfl⟩
  · exact fdcStreamStepWrite_streamed hQ hinv hp (by simpa using hcrc) hw hn
  · exact fdcStreamStepRead_streamed hp

/-- All the bytes of one tick go to one sector: the loop ends with the field. -/
theorem fdcStreamLoop_step {live : Prop} (hQ : FdcFinds Q) (fuel : Nat)
    (hinv : FdcStreaming live fdc) (hp : FdcPlaced Q fdc) (hn : 256 ≤ n) :
    FdcStep n Q fdc (fdcStreamLoop fuel fdc) := by
  induction fuel generalizing fdc with
  | zero => exact FdcPlaces.step ⟨⟨rfl, rfl, rfl⟩, hp⟩
  | succ fuel ih =>
    unfold fdcStreamLoop
    split_ifs with hcond
    · have hstep := fdcStreamStep_streamed hQ hinv hp hn
      rcases fdcStreamStep_next hinv with ⟨_, hend⟩ | ⟨hnext, _⟩
      · rw [fdcStreamLoop_of_stopped hend]
        exact hstep.toFdcStep
      · have hloop := ih hnext hstep.placed
        exact ⟨hstep.effect.trans hloop.effect (hstep.currentop hnext.running)
          (hstep.curSectorData hnext.running), hloop.placed⟩
    · exact FdcPlaces.step ⟨⟨rfl, rfl, rfl⟩, hp⟩

theorem FdcSame.then_step (h : FdcSame f f') (h' : FdcStep n Q f' f'') : FdcStep n Q f f'' :=
  ⟨h.toFdcKeeps.effect.trans h'.effect h.currentop h.curSectorData, h'.placed⟩

theorem fdcTickStream_step {live : Prop} (hQ : FdcFinds Q) (hinv : FdcInv live fdc)
    (hp : FdcPlaced Q fdc) (cycles : BitVec 32) (hn : 256 ≤ n) :
    FdcStep n Q fdc (fdcTickStream fdc cycles) := by
  unfold fdcTickStream
  split_ifs with hs hst
  · have h₀ : FdcStreaming live { fdc with streamDue := cInt (fdc.streamDue - cycles.toInt) } :=
      { hinv with running := hs, streamed := hst }
    have hp₀ : FdcPlaced Q { fdc with streamDue := cInt (fdc.streamDue - cycles.toInt) } := hp
    have hstep := fdcStreamLoop_step hQ fdcStreamFuel h₀ hp₀ hn
    exact ⟨⟨hstep.effect.stores, hstep.effect.modified, hstep.effect.media⟩, hstep.placed⟩
  · have hstop : FdcSame fdc { fdc with stream := false } := ⟨⟨rfl, rfl, rfl⟩, rfl, rfl, rfl⟩
    have hsame := hstop.trans (fdcTickLost_same _ cycles)
    exact FdcPlaces.step ⟨hsame.toFdcKeeps, hsame.placed hp⟩
  · have hsame := fdcTickLost_same fdc cycles
    exact FdcPlaces.step ⟨hsame.toFdcKeeps, hsame.placed hp⟩

theorem fdcTicktock_step {live : Prop} (hQ : FdcFinds Q) (hinv : FdcInv live fdc)
    (hp : FdcPlaced Q fdc) (cycles : BitVec 32) (hn : 256 ≤ n) :
    FdcStep n Q fdc (fdcTicktock fdc cycles) := by
  have hspin : FdcSame fdc
      { fdc with rotPos := (fdc.rotPos + cycles.toNat) % 2 ^ 32 % fdcRevCycles } :=
    ⟨⟨rfl, rfl, rfl⟩, rfl, rfl, rfl⟩
  have hinv₀ : FdcInv live
      { fdc with rotPos := (fdc.rotPos + cycles.toNat) % 2 ^ 32 % fdcRevCycles } :=
    { hinv with rotPos := Nat.mod_lt _ (by decide) }
  have hsame := (hspin.trans (fdcTickInt_same _ cycles)).trans (fdcTickDrq_same _ cycles)
  exact hsame.then_step (fdcTickStream_step hQ (fdcTickDrq_inv (fdcTickInt_inv hinv₀ cycles) cycles)
    (hsame.placed hp) cycles hn)

/-! ## Accesses -/

/-- An FDC_DATA write that stores past the 256th byte of a Write Track data field. -/
def FdcOverlongStore (fdc : Fdc) : FdcAccess → Prop
  | .write reg _ =>
    fdcReg reg = .data ∧ fdc.currentop = .writeTrack ∧ fdc.wtState = .dataField ∧
      fdc.curSectorData.isSome = true ∧ 256#16 ≤ fdc.curOffset ∧ fdc.curOffset < fdc.wtDataLen
  | _ => False

theorem fdcAccess_step {live : Prop} (hQ : FdcFinds Q) (hinv : FdcInv live fdc)
    (hp : FdcPlaced Q fdc) (a : FdcAccess) (hn : 256 ≤ n)
    (hoff : FdcOverlongStore fdc a → fdc.curOffset.toNat < n) :
    FdcStep n Q fdc (fdcAccess fdc a) := by
  have hsame : FdcStep n Q fdc fdc := FdcPlaces.step ⟨⟨rfl, rfl, rfl⟩, hp⟩
  cases a with
  | write reg value =>
    change FdcStep n Q fdc (fdcWrite fdc reg value)
    unfold fdcWrite
    cases hreg : fdcReg reg with
    | command => exact (fdcWriteCommand_places hQ fdc value).step
    | track => exact ⟨⟨hsame.effect.stores, hsame.effect.modified, hsame.effect.media⟩, hp⟩
    | sector => exact ⟨⟨hsame.effect.stores, hsame.effect.modified, hsame.effect.media⟩, hp⟩
    | data =>
      refine fdcWriteData_step hQ hinv hp value hn fun hop hst hin hcur => ?_
      by_cases hlt : fdc.curOffset < 256#16
      · exact lt_of_lt_of_le hlt hn
      · exact hoff ⟨hreg, hop, hst, hcur, BitVec.not_lt.mp hlt, hin⟩
  | read reg =>
    change FdcStep n Q fdc (fdcRead fdc reg).2
    unfold fdcRead
    cases fdcReg reg with
    | command => exact ⟨⟨hsame.effect.stores, hsame.effect.modified, hsame.effect.media⟩, hp⟩
    | track => exact hsame
    | sector => exact hsame
    | data => exact (fdcReadData_places hQ hp).step
  | ticktock cycles => exact fdcTicktock_step hQ hinv hp cycles hn

/-! ## The sector addressed -/

/-- The byte offset of the place's sector. -/
def FdcPlace.offset (pl : FdcPlace) : Nat :=
  (pl.side.toNat * pl.tracks.toNat * pl.sectorsPerTrack.toNat
    + pl.cTrack.toNat * pl.sectorsPerTrack.toNat + (pl.sectorId.toNat - 1)) * 256

/-- The bytes of the place's sector that are in the image. -/
def FdcPlace.Bytes (pl : FdcPlace) (a : Ptr) : Prop :=
  pl.diskData = some a.buf ∧ pl.offset ≤ a.off ∧ a.off < pl.offset + 256 ∧ a.off < pl.diskSize

/-- The pointer is to the start of the place's sector, and the whole sector is in the image. -/
def FdcPlace.Starts (pl : FdcPlace) (p : Ptr) : Prop :=
  pl.diskData = some p.buf ∧ p.off = pl.offset ∧ pl.offset + 256 ≤ pl.diskSize

theorem fdcFindSector_starts : FdcFinds FdcPlace.Starts := by
  intro fdc secId p hfind
  change fdcFindSector fdc secId = some p at hfind
  unfold fdcFindSector at hfind
  split at hfind
  · cases hfind
  · rename_i buf hdata
    split_ifs at hfind with hgeom hbad hsize
    cases hfind
    exact ⟨hdata, rfl, Nat.le_of_not_lt hsize⟩

/-- An initialised controller with any medium, geometry, side, tab and damage, in either timing
mode. -/
def FdcMounted (fdc : Fdc) : Prop :=
  ∃ heap mode data size tracks sectorsPerTrack side protect bad, fdc = { fdcInit heap with
    timingMode := mode, diskData := data, diskSize := size, tracks := tracks,
    sectorsPerTrack := sectorsPerTrack, side := side, writeProtected := protect, bad := bad }

theorem fdcMounted_inv {live : Prop} (h : FdcMounted fdc) : FdcInv live fdc := by
  obtain ⟨heap, mode, data, size, tracks, sectorsPerTrack, side, protect, bad, rfl⟩ := h
  have hinit : FdcInv live { fdcInit heap with timingMode := mode } := fdcInit_inv ⟨heap, mode, rfl⟩
  exact { hinit with }

/-- Both invariants. -/
structure FdcPlacedInv (fdc : Fdc) : Prop where
  inv : FdcInv False fdc
  placed : FdcPlaced FdcPlace.Starts fdc

theorem fdcMounted_placed (h : FdcMounted fdc) : FdcPlacedInv fdc := by
  refine ⟨fdcMounted_inv h, ?_⟩
  obtain ⟨heap, mode, data, size, tracks, sectorsPerTrack, side, protect, bad, rfl⟩ := h
  exact .of_op .none rfl rfl

theorem fdcAccess_placed (h : FdcPlacedInv fdc) (a : FdcAccess) :
    FdcPlacedInv (fdcAccess fdc a) where
  inv := fdcInput_inv h.inv (.access a) nofun
  placed := (fdcAccess_step fdcFindSector_starts h.inv h.placed a (by decide : 256 ≤ 65536)
    fun _ => fdc.curOffset.isLt).placed

theorem fdcReach_placed {ok : Fdc → FdcAccess → Prop}
    (h : Machine.Reach fdcAccess ok FdcMounted fdc) : FdcPlacedInv fdc :=
  h.invariant (fun _ => fdcMounted_placed) fun _ a hinv _ => fdcAccess_placed hinv a

/-- A byte past the 256th is stored past the sector. -/
theorem fdcOverlongStore_escapes {a : FdcAccess} (hp : FdcPlaced FdcPlace.Starts fdc)
    (hlong : FdcOverlongStore fdc a) :
    ¬StoresIn fdc.place.Bytes fdc.heap (fdcAccess fdc a).heap := by
  intro hstores
  cases a with
  | write reg value =>
    obtain ⟨hreg, hop, hst, hcur, hge, hlt⟩ := hlong
    obtain ⟨p, hcur⟩ := Option.isSome_iff_exists.mp hcur
    have hheap : (fdcAccess fdc (.write reg value)).heap =
        fdc.heap.store ⟨p.buf, p.off + fdc.curOffset.toNat⟩ value := by
      have hdata : fdcAccess fdc (.write reg value) =
          fdcWriteTrackByte { fdc with data := value } value := by
        simp only [fdcAccess, fdcWrite, hreg, fdcWriteData, hop]
      rw [hdata, fdcWriteTrackByte_heap]
      simp only [fdcWtParse, hst, if_pos hlt, Fdc.storeByte, hcur]
      split <;> rfl
    rw [hheap] at hstores
    obtain ⟨_, hoff, hsize⟩ := hp (by rw [hop]; rfl) p hcur
    obtain ⟨_, _, hend, _⟩ := hstores.of_store
    have hge' : 256 ≤ fdc.curOffset.toNat := hge
    simp only [hoff] at hend
    omega
  | read reg => exact hlong
  | ticktock cycles => exact hlong

theorem fdcAccess_stores_in_sector
    (h : Machine.Reach fdcAccess (fun f a => ¬FdcOverlongStore f a) FdcMounted fdc)
    (a : FdcAccess) :
    StoresIn fdc.place.Bytes fdc.heap (fdcAccess fdc a).heap ↔ ¬FdcOverlongStore fdc a := by
  obtain ⟨hinv, hp⟩ := fdcReach_placed h
  constructor
  · intro hstores hlong
    exact fdcOverlongStore_escapes hp hlong hstores
  · intro hok
    have hstep := fdcAccess_step fdcFindSector_starts hinv hp a (le_refl 256) (absurd · hok)
    refine hstep.effect.stores.mono ?_
    rintro _ ⟨hop, p, k, hcur, hk, rfl⟩
    obtain ⟨hdata, hoff, hsize⟩ := hp hop p hcur
    refine ⟨hdata, ?_, ?_, ?_⟩ <;> simp only [hoff] <;> omega

/-- A double-sided medium of 80 tracks of 17 sectors, with side 1 under the head. -/
def fdcSampleMounted : Fdc :=
  { fdcInit ⟨fun _ => 0, []⟩ with diskData := some 0, diskSize := 696320, side := 1 }

theorem fdcSampleMounted_mounted : FdcMounted fdcSampleMounted :=
  ⟨_, .fast, some 0, 696320, 80, 17, 1, false, .empty, rfl⟩

/-- A Write Sector command to the first sector, and its first byte. -/
theorem fdcAccess_stores_in_sector_writeSector :
    StoresIn
      (fdcAccess (fdcAccess fdcSampleMounted (.write 2 1)) (.write 0 0xA0)).place.Bytes
      (fdcAccess (fdcAccess fdcSampleMounted (.write 2 1)) (.write 0 0xA0)).heap
      (fdcAccess (fdcAccess (fdcAccess fdcSampleMounted (.write 2 1)) (.write 0 0xA0))
        (.write 3 0xE5)).heap ↔
    ¬FdcOverlongStore (fdcAccess (fdcAccess fdcSampleMounted (.write 2 1)) (.write 0 0xA0))
      (.write 3 0xE5) := by
  refine fdcAccess_stores_in_sector (.step (.step (.init fdcSampleMounted_mounted) ?_) ?_) _
  · rintro ⟨h, -⟩; exact absurd h (by decide)
  · rintro ⟨h, -⟩; exact absurd h (by decide)

/-- A format of the last track whose ID field says 512 bytes, up to the 256th byte of its data
field. -/
def fdcLongFormat : List FdcAccess :=
  [.write 3 79, .write 0 0x10, .write 0 0xF0] ++
    [0xFE, 79, 1, 17, 2, 0xFB].map (.write 3 ·) ++ List.replicate 256 (.write 3 0xE5)

/-- The next byte is stored past the last sector and past the end of the image. -/
theorem fdcLongFormat_stores_outside :
    ¬∀ fdc a, Machine.Reach fdcAccess (fun _ _ => True) FdcMounted fdc →
      StoresIn fdc.place.Bytes fdc.heap (fdcAccess fdc a).heap := by
  intro hall
  have hreach : Machine.Reach fdcAccess (fun _ _ => True) FdcMounted
      (fdcLongFormat.foldl fdcAccess fdcSampleMounted) :=
    .run _ (.init fdcSampleMounted_mounted) fun _ _ _ _ => trivial
  have hlong : FdcOverlongStore (fdcLongFormat.foldl fdcAccess fdcSampleMounted)
      (.write 3 0xE5) := by
    refine ⟨by decide, ?_, ?_, ?_, ?_, ?_⟩ <;> decide +kernel
  exact fdcOverlongStore_escapes (fdcReach_placed hreach).placed hlong (hall _ _ hreach)

end Phosphoric
