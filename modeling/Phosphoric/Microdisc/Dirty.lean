import Phosphoric.Microdisc.Attached

/-!
# Dirty drives

**Theorem (`microdisc_dirty`).** In a run of register accesses and ticks from a clean state, a
drive whose image has changed is marked dirty, or is selected with the WD1793's `disk_modified`
set; and a drive is marked dirty only for bytes written while it was selected. The steps of the
run must not be *stray* (`MicrodiscStray`):

* the drive changes while `disk_modified` is clear, since whoever consumes the flag marks the drive
  selected then;
* the controller does not store while its sector is of another drive than the selected one.

The proof follows the memory, the flag, the marks and the selected drive through one bus operation
(`microdiscStep_bus`), then through the run.
-/

namespace Phosphoric

open Heap

/-! ## Bus operations -/

/-- The operations of the bus: register accesses and ticks. -/
def MicrodiscBus : MicrodiscOp → Prop
  | .write _ _ | .read _ | .ticktock _ => True
  | _ => False

instance : DecidablePred MicrodiscBus := fun op =>
  match op with
  | .write _ _ | .read _ | .ticktock _ => isTrue trivial
  | .setDisk .. | .setWriteProtect .. | .addBadSector .. | .reset => isFalse id

/-- A byte of a drive's image. -/
def MicrodiscImage (md : Microdisc) (d : Fin 4) (a : Ptr) : Prop := md.diskData d = some a.buf

/-- A write command holds a sector of another drive than the selected one. -/
def MicrodiscForeign (md : Microdisc) : Prop :=
  md.fdc.currentop.stores = true ∧
    ∃ p, md.fdc.curSectorData = some p ∧ ¬MicrodiscImage md md.drive p

instance (md : Microdisc) (d : Fin 4) (a : Ptr) : Decidable (MicrodiscImage md d a) :=
  inferInstanceAs (Decidable (md.diskData d = some a.buf))

instance (md : Microdisc) : Decidable (MicrodiscForeign md) :=
  inferInstanceAs (Decidable (_ ∧ ∃ p, md.fdc.curSectorData = some p ∧ _))

/-- A drive change with `disk_modified` set, or a tick or a data byte for a sector of another
drive. -/
def MicrodiscStray (md : Microdisc) : MicrodiscOp → Prop
  | .ticktock _ => MicrodiscForeign md
  | .write addr value =>
    (addr = 0x0313#16 ∧ MicrodiscForeign md) ∨
      (addr = 0x0314#16 ∧ microdiscDriveBits value ≠ md.drive ∧ md.fdc.diskModified = true)
  | _ => False

instance (md : Microdisc) (op : MicrodiscOp) : Decidable (MicrodiscStray md op) :=
  match op with
  | .ticktock _ => inferInstanceAs (Decidable (MicrodiscForeign md))
  | .write addr value => inferInstanceAs (Decidable ((addr = 0x0313#16 ∧ MicrodiscForeign md) ∨
      (addr = 0x0314#16 ∧ microdiscDriveBits value ≠ md.drive ∧ md.fdc.diskModified = true)))
  | .read _ | .setDisk .. | .setWriteProtect .. | .addBadSector .. | .reset => isFalse id

/-- The WD1793's access, if the operation is one. -/
def microdiscAccess : MicrodiscOp → Option FdcAccess
  | .write addr value =>
    if addr ≥ 0x0310#16 && addr ≤ 0x0313#16 then some (.write (Word.lo (addr &&& 3#16)) value)
    else none
  | .read addr =>
    if addr ≥ 0x0310#16 && addr ≤ 0x0313#16 then some (.read (Word.lo (addr &&& 3#16))) else none
  | .ticktock cycles => some (.ticktock cycles)
  | _ => none

/-- The WD1793 stores nothing, or stores into the selected drive's image and says so. -/
structure MicrodiscStores (md : Microdisc) (fdc : Fdc) : Prop where
  stores : StoresIn (MicrodiscImage md md.drive) md.fdc.heap fdc.heap
  modified : (fdc.heap = md.fdc.heap ∧ fdc.diskModified = md.fdc.diskModified) ∨
    fdc.diskModified = true

/-- The operation writes to drive `d`, and raises `disk_modified` for it. -/
def MicrodiscWrites (d : Fin 4) (md : Microdisc) (op : MicrodiscOp) : Prop :=
  md.drive = d ∧ md.fdc.diskModified = false ∧ ∃ a, microdiscAccess op = some a ∧
    (fdcAccess md.fdc a).diskModified = true ∧
    StoresIn (MicrodiscImage md d) md.fdc.heap (fdcAccess md.fdc a).heap

/-- What a bus operation does to the memory, the flag, the marks and the selected drive. -/
inductive MicrodiscBusStep (md : Microdisc) (op : MicrodiscOp) (md' : Microdisc) : Prop
  /-- A call of the WD1793, its flag not consumed. -/
  | call (a : FdcAccess) (haccess : microdiscAccess op = some a)
      (hstores : MicrodiscStores md (fdcAccess md.fdc a))
      (hheap : md'.fdc.heap = (fdcAccess md.fdc a).heap)
      (hflag : md'.fdc.diskModified = (fdcAccess md.fdc a).diskModified)
      (hdirty : md'.diskDirty = md.diskDirty) (hdrive : md'.drive = md.drive)
  /-- A call of the WD1793, its flag marking the selected drive. -/
  | mark (a : FdcAccess) (haccess : microdiscAccess op = some a)
      (hstores : MicrodiscStores md (fdcAccess md.fdc a))
      (hheap : md'.fdc.heap = (fdcAccess md.fdc a).heap)
      (hraised : (fdcAccess md.fdc a).diskModified = true)
      (hflag : md'.fdc.diskModified = false)
      (hdirty : md'.diskDirty = Function.update md.diskDirty md.drive true)
      (hdrive : md'.drive = md.drive)
  /-- An access that reaches neither the WD1793 nor the drive selection. -/
  | still (hheap : md'.fdc.heap = md.fdc.heap)
      (hflag : md'.fdc.diskModified = md.fdc.diskModified)
      (hdirty : md'.diskDirty = md.diskDirty) (hdrive : md'.drive = md.drive)
  /-- A change of drive. -/
  | select (hclear : md.fdc.diskModified = false) (hheap : md'.fdc.heap = md.fdc.heap)
      (hflag : md'.fdc.diskModified = false) (hdirty : md'.diskDirty = md.diskDirty)

theorem FdcEffect.microdiscStores {n : Nat} {md : Microdisc} {fdc : Fdc}
    (h : FdcEffect n md.fdc fdc) (hown : ¬MicrodiscForeign md) : MicrodiscStores md fdc where
  stores := by
    refine h.stores.mono ?_
    rintro _ ⟨hop, p, k, hcur, -, rfl⟩
    by_contra himage
    exact hown ⟨hop, p, hcur, himage⟩
  modified := h.modified

theorem FdcKeeps.microdiscStores {md : Microdisc} {fdc : Fdc} (h : FdcKeeps md.fdc fdc) :
    MicrodiscStores md fdc where
  stores := h.heap ▸ StoresIn.refl _ _
  modified := .inl ⟨h.heap, h.diskModified⟩

theorem fdcAccess_effect {fdc : Fdc} (h : FdcInv False fdc) (a : FdcAccess) :
    FdcEffect 65536 fdc (fdcAccess fdc a) := by
  let Q : FdcPlace → Ptr → Prop := fun _ _ => True
  have hQ : FdcFinds Q := fun _ _ _ _ => trivial
  have hp : FdcPlaced Q fdc := fun _ _ _ => trivial
  exact (fdcAccess_step hQ h hp a (by decide) fun _ => fdc.curOffset.isLt).effect

/-- Only data bytes and ticks store. -/
theorem fdcAccess_keeps {fdc : Fdc} {a : FdcAccess}
    (ha : (∃ reg value, a = .write reg value ∧ fdcReg reg ≠ .data) ∨ ∃ reg, a = .read reg) :
    FdcKeeps fdc (fdcAccess fdc a) := by
  let Q : FdcPlace → Ptr → Prop := fun _ _ => True
  have hQ : FdcFinds Q := fun _ _ _ _ => trivial
  have hp : FdcPlaced Q fdc := fun _ _ _ => trivial
  rcases ha with ⟨reg, value, rfl, hreg⟩ | ⟨reg, rfl⟩
  · change FdcKeeps fdc (fdcWrite fdc reg value)
    unfold fdcWrite
    cases h : fdcReg reg with
    | command => exact (fdcWriteCommand_places hQ fdc value).toFdcKeeps
    | track => exact ⟨rfl, rfl, rfl⟩
    | sector => exact ⟨rfl, rfl, rfl⟩
    | data => exact absurd h hreg
  · change FdcKeeps fdc (fdcRead fdc reg).2
    unfold fdcRead
    cases fdcReg reg with
    | command => exact ⟨rfl, rfl, rfl⟩
    | track => exact ⟨rfl, rfl, rfl⟩
    | sector => exact ⟨rfl, rfl, rfl⟩
    | data => exact (fdcReadData_places hQ hp).toFdcKeeps

theorem fdcReg_ne_data {addr : Word} (hle : (addr ≥ 0x0310#16 && addr ≤ 0x0313#16) = true)
    (hne : addr ≠ 0x0313#16) : fdcReg (Word.lo (addr &&& 3#16)) ≠ .data := by
  simp only [ge_iff_le, Bool.and_eq_true, decide_eq_true_eq] at hle
  have haddr : addr = 0x0310#16 ∨ addr = 0x0311#16 ∨ addr = 0x0312#16 := by bv_omega
  rcases haddr with rfl | rfl | rfl <;> decide

/-- The step lemma. -/
theorem microdiscStep_bus {md : Microdisc} (h : FdcInv False md.fdc) (op : MicrodiscOp)
    (hbus : MicrodiscBus op) (hok : ¬MicrodiscStray md op) :
    MicrodiscBusStep md op (microdiscStep md op) := by
  cases op with
  | write addr value =>
    change MicrodiscBusStep md _ (microdiscWrite md addr value)
    by_cases hfdc : (addr ≥ 0x0310#16 && addr ≤ 0x0313#16) = true
    · have haccess : microdiscAccess (.write addr value) =
          some (.write (Word.lo (addr &&& 3#16)) value) := if_pos hfdc
      have hstores : MicrodiscStores md
          (fdcAccess md.fdc (.write (Word.lo (addr &&& 3#16)) value)) := by
        by_cases haddr : addr = 0x0313#16
        · refine (fdcAccess_effect h _).microdiscStores fun hforeign => ?_
          exact hok (.inl ⟨haddr, hforeign⟩)
        · exact (fdcAccess_keeps (.inl ⟨_, _, rfl, fdcReg_ne_data hfdc haddr⟩)).microdiscStores
      obtain ⟨intrq, drq, calls, heq⟩ := withFdc_frame md
        (fdcWrite md.fdc (Word.lo (addr &&& 3#16)) value)
      unfold microdiscWrite microdiscMarkDirty
      rw [if_pos hfdc, heq]
      dsimp only
      split_ifs with hraised
      · exact .mark _ haccess hstores rfl hraised rfl rfl rfl
      · exact .call _ haccess hstores rfl rfl rfl rfl
    · rcases microdiscWrite_cases h addr value with ⟨haddr, -⟩ | ⟨-, hsame, heq⟩ |
        ⟨haddr, hchange, heq⟩
      · unfold microdiscWrite
        rw [if_neg hfdc, if_neg (by simpa using haddr)]
        exact .still rfl rfl rfl rfl
      · obtain ⟨_, _, _, _, _, _, heq'⟩ := microdiscControl_frame md value
        rw [heq, heq']
        exact .still rfl rfl rfl rfl
      · have hclear : md.fdc.diskModified = false := by
          by_contra hset
          exact hok (.inr ⟨haddr, hchange, by simpa using hset⟩)
        obtain ⟨_, _, _, _, _, _, heq'⟩ := microdiscControl_frame md value
        rw [heq, heq']
        exact .select hclear rfl hclear rfl
  | read addr =>
    change MicrodiscBusStep md _ (microdiscRead md addr).2
    unfold microdiscRead
    split_ifs with hfdc
    · obtain ⟨intrq, drq, calls, heq⟩ := withFdc_frame md
        (fdcRead md.fdc (Word.lo (addr &&& 3#16))).2
      dsimp only
      rw [heq]
      exact .call _ (if_pos hfdc) (fdcAccess_keeps (.inr ⟨_, rfl⟩)).microdiscStores rfl rfl rfl rfl
    all_goals exact .still rfl rfl rfl rfl
  | ticktock cycles =>
    obtain ⟨intrq, drq, calls, heq⟩ := withFdc_frame md (fdcTicktock md.fdc cycles)
    change MicrodiscBusStep md _ (md.withFdc (fdcTicktock md.fdc cycles))
    rw [heq]
    exact .call (.ticktock cycles) rfl ((fdcAccess_effect h _).microdiscStores hok)
      rfl rfl rfl rfl
  | _ => exact hbus.elim

/-! ## Runs -/

/-- Bus operations leave the table of images. -/
theorem microdiscStep_diskData {md : Microdisc} (h : FdcInv False md.fdc) (op : MicrodiscOp)
    (hbus : MicrodiscBus op) : (microdiscStep md op).diskData = md.diskData := by
  cases op with
  | write addr value =>
    rcases microdiscWrite_cases h addr value with ⟨-, hcall⟩ | ⟨-, -, heq⟩ | ⟨-, -, heq⟩
    · exact hcall.diskData
    · obtain ⟨_, _, _, _, _, _, heq'⟩ := microdiscControl_frame md value
      change (microdiscWrite md addr value).diskData = _
      rw [heq, heq']
    · obtain ⟨_, _, _, _, _, _, heq'⟩ := microdiscControl_frame md value
      change (microdiscWrite md addr value).diskData = _
      rw [heq, heq']
      rfl
  | read addr => exact (microdiscRead_called h addr).diskData
  | ticktock cycles => exact (microdiscTick_called h cycles).diskData
  | _ => exact hbus.elim

theorem microdiscReset_fdc {md : Microdisc} (h : FdcInv False md.fdc) :
    FdcInv False (microdiscReset md).fdc := by
  have hbase : FdcBase (fdcReset md.fdc) :=
    { h with
      ddStatus := rfl, stream := nofun, diStatus := fun hd => absurd hd (Int.lt_irrefl 0) }
  exact hbase.inv_of_idle rfl 0 rfl (by decide)

/-- The WD1793's invariant outlasts every operation. -/
theorem microdiscStep_fdc {md : Microdisc} (h : FdcInv False md.fdc) (op : MicrodiscOp) :
    FdcInv False (microdiscStep md op).fdc := by
  cases op with
  | write addr value =>
    change FdcInv False (microdiscWrite md addr value).fdc
    obtain ⟨_, _, _, _, _, _, hcontrol⟩ := microdiscControl_frame md value
    rcases microdiscWrite_cases h addr value with ⟨-, hcall⟩ | ⟨-, -, heq⟩ | ⟨-, -, heq⟩
    · exact hcall.fdcInv
    · rw [heq, hcontrol]
      exact { h with }
    · rw [heq, hcontrol]
      exact { h with }
  | read addr => exact (microdiscRead_called h addr).fdcInv
  | ticktock cycles => exact (microdiscTick_called h cycles).fdcInv
  | setDisk drive data size tracks sectorsPerTrack =>
    change FdcInv False (microdiscSetDisk _ _ _ _ _ _).fdc
    unfold microdiscSetDisk
    split
    · exact h
    · dsimp only
      split_ifs
      all_goals exact { h with }
  | setWriteProtect drive on =>
    change FdcInv False (microdiscSetWriteProtect _ _ _).fdc
    unfold microdiscSetWriteProtect
    split
    · exact h
    · dsimp only
      split_ifs
      · exact { h with }
      · exact h
  | addBadSector drive side track sector =>
    change FdcInv False (microdiscAddBadSector _ _ _ _ _).2.fdc
    unfold microdiscAddBadSector microdiscSyncBadMap
    split
    · exact h
    · split
      · exact h
      · dsimp only
        split_ifs
        · exact { h with }
        · exact h
  | reset => exact microdiscReset_fdc h

/-- No two drives share an image. -/
def MicrodiscDistinct (md : Microdisc) : Prop :=
  ∀ d e, (md.diskData d).isSome → md.diskData d = md.diskData e → d = e

instance (md : Microdisc) : Decidable (MicrodiscDistinct md) :=
  inferInstanceAs (Decidable
    (∀ d e, (md.diskData d).isSome → md.diskData d = md.diskData e → d = e))

/-- What has changed in an image since `base` is marked, or about to be. -/
def MicrodiscMarked (base md : Microdisc) : Prop :=
  ∀ d p, MicrodiscImage base d p → md.fdc.heap.load p ≠ base.fdc.heap.load p →
    md.diskDirty d = true ∨ (md.fdc.diskModified = true ∧ md.drive = d)

structure MicrodiscTracked (base md : Microdisc) : Prop where
  fdc : FdcInv False md.fdc
  diskData : md.diskData = base.diskData
  marked : MicrodiscMarked base md

/-- A byte that a call changes is in the selected drive's image, and the flag is raised. -/
theorem MicrodiscStores.changed {md : Microdisc} {fdc : Fdc} (h : MicrodiscStores md fdc) {p : Ptr}
    (hne : fdc.heap.load p ≠ md.fdc.heap.load p) :
    MicrodiscImage md md.drive p ∧ fdc.diskModified = true := by
  refine ⟨?_, ?_⟩
  · by_contra hout
    exact hne (h.stores.load_eq hout)
  · rcases h.modified with ⟨hheap, -⟩ | hset
    · exact absurd (by rw [hheap]) hne
    · exact hset

theorem MicrodiscStores.raised {md : Microdisc} {fdc : Fdc} (h : MicrodiscStores md fdc)
    (hset : md.fdc.diskModified = true) : fdc.diskModified = true := by
  rcases h.modified with ⟨-, heq⟩ | hset'
  · exact heq.trans hset
  · exact hset'

theorem MicrodiscTracked.step {base md : Microdisc} (hdistinct : MicrodiscDistinct base)
    (h : MicrodiscTracked base md) (op : MicrodiscOp) (hbus : MicrodiscBus op)
    (hok : ¬MicrodiscStray md op) : MicrodiscTracked base (microdiscStep md op) := by
  refine ⟨microdiscStep_fdc h.fdc op,
    (microdiscStep_diskData h.fdc op hbus).trans h.diskData, ?_⟩
  -- a byte of the selected drive's image is of no other drive's
  have howner : ∀ d p, MicrodiscImage base d p → MicrodiscImage md md.drive p → md.drive = d := by
    intro d p himage hsel
    unfold MicrodiscImage at hsel
    rw [h.diskData] at hsel
    have himage' : base.diskData d = some p.buf := himage
    exact hdistinct _ _ (by rw [hsel]; rfl) (hsel.trans himage'.symm)
  intro d p himage hne
  cases microdiscStep_bus h.fdc op hbus hok with
  | call a _ hstores hheap hflag hdirty hdrive =>
    rw [hheap] at hne
    rw [hflag, hdirty, hdrive]
    by_cases hsame : (fdcAccess md.fdc a).heap.load p = md.fdc.heap.load p
    · rw [hsame] at hne
      rcases h.marked d p himage hne with hd | ⟨hset, hsel⟩
      · exact .inl hd
      · exact .inr ⟨hstores.raised hset, hsel⟩
    · obtain ⟨hin, hset⟩ := hstores.changed hsame
      exact .inr ⟨hset, howner d p himage hin⟩
  | mark a _ hstores hheap _ _ hdirty _ =>
    rw [hheap] at hne
    rw [hdirty]
    refine .inl ?_
    by_cases hsel : md.drive = d
    · simp [hsel]
    · have hsame : (fdcAccess md.fdc a).heap.load p = md.fdc.heap.load p := by
        by_contra hdiff
        exact hsel (howner d p himage (hstores.changed hdiff).1)
      rw [hsame] at hne
      rcases h.marked d p himage hne with hd | ⟨-, hsel'⟩
      · rw [Function.update_of_ne (Ne.symm hsel), hd]
      · exact absurd hsel' hsel
  | still hheap hflag hdirty hdrive =>
    rw [hheap] at hne
    rw [hflag, hdirty, hdrive]
    exact h.marked d p himage hne
  | select hclear hheap _ hdirty =>
    rw [hheap] at hne
    rw [hdirty]
    rcases h.marked d p himage hne with hd | ⟨hset, -⟩
    · exact .inl hd
    · rw [hclear] at hset
      exact absurd hset (by decide)

/-- Drive `d` has not been written to. -/
structure MicrodiscUntouched (d : Fin 4) (md : Microdisc) : Prop where
  clean : md.diskDirty d = false
  idle : md.drive = d → md.fdc.diskModified = false

theorem MicrodiscUntouched.step {d : Fin 4} {md : Microdisc} (h : MicrodiscUntouched d md)
    (hfdc : FdcInv False md.fdc) (op : MicrodiscOp) (hbus : MicrodiscBus op)
    (hok : ¬MicrodiscStray md op)
    (hno : ¬MicrodiscWrites d md op) : MicrodiscUntouched d (microdiscStep md op) := by
  -- a call made with `d` selected does not raise the flag
  have hquiet : ∀ a, microdiscAccess op = some a → MicrodiscStores md (fdcAccess md.fdc a) →
      md.drive = d → (fdcAccess md.fdc a).diskModified = false := by
    intro a haccess hstores hsel
    by_contra hset
    exact hno ⟨hsel, h.idle hsel, a, haccess, by simpa using hset, hsel ▸ hstores.stores⟩
  cases microdiscStep_bus hfdc op hbus hok with
  | call a haccess hstores hheap hflag hdirty hdrive =>
    refine ⟨hdirty ▸ h.clean, fun hsel => ?_⟩
    rw [hflag]
    exact hquiet a haccess hstores (hdrive ▸ hsel)
  | mark a haccess hstores hheap hraised hflag hdirty hdrive =>
    refine ⟨?_, fun _ => hflag⟩
    have hsel : d ≠ md.drive := by
      rintro rfl
      rw [hquiet a haccess hstores rfl] at hraised
      exact absurd hraised (by decide)
    rw [hdirty, Function.update_of_ne hsel, h.clean]
  | still hheap hflag hdirty hdrive =>
    refine ⟨hdirty ▸ h.clean, fun hsel => ?_⟩
    rw [hflag]
    exact h.idle (hdrive ▸ hsel)
  | select hclear hheap hflag hdirty => exact ⟨hdirty ▸ h.clean, fun _ => hflag⟩

/-- A run of bus operations, none stray. -/
abbrev MicrodiscTidy : List MicrodiscOp → Microdisc → Prop :=
  Machine.Throughout microdiscStep fun md op => MicrodiscBus op ∧ ¬MicrodiscStray md op

theorem microdiscRun_tracked {base : Microdisc} (hbase : FdcInv False base.fdc)
    (hdistinct : MicrodiscDistinct base) {ops : List MicrodiscOp} (hok : MicrodiscTidy ops base) :
    MicrodiscTracked base (microdiscRun base ops) := by
  have hstep : ∀ md op, MicrodiscTracked base md → MicrodiscBus op ∧ ¬MicrodiscStray md op →
      MicrodiscTracked base (microdiscStep md op) := fun _ op h hop =>
    h.step hdistinct op hop.1 hop.2
  exact Machine.Throughout.invariant hstep ops ⟨hbase, rfl, fun _ _ _ hne => absurd rfl hne⟩ hok

theorem microdiscRun_untouched {base : Microdisc} (hbase : FdcInv False base.fdc) {d : Fin 4}
    (h : MicrodiscUntouched d base) {ops : List MicrodiscOp} (hok : MicrodiscTidy ops base)
    (hno : ¬Machine.Sometime microdiscStep (MicrodiscWrites d) ops base) :
    MicrodiscUntouched d (microdiscRun base ops) := by
  let Inv : Microdisc → Prop := fun md => FdcInv False md.fdc ∧ MicrodiscUntouched d md
  have hstep : ∀ md op, Inv md → MicrodiscBus op ∧ ¬MicrodiscStray md op →
      ¬MicrodiscWrites d md op → Inv (microdiscStep md op) := fun _ op h hop hno =>
    ⟨microdiscStep_fdc h.1 op, h.2.step h.1 op hop.1 hop.2 hno⟩
  have hend : Inv (microdiscRun base ops) := Machine.Sometime.never hstep ops ⟨hbase, h⟩ hok hno
  exact hend.2

theorem microdiscRun_fdc (heap : Heap Ptr Byte) (cpuWired : Bool) (ops : List MicrodiscOp) :
    FdcInv False (microdiscRun (microdiscInit heap cpuWired) ops).fdc := by
  let Inv : Microdisc → Prop := fun md => FdcInv False md.fdc
  have hinit : Inv (microdiscInit heap cpuWired) := (microdiscInit_inv heap cpuWired).fdc
  exact List.foldlRecOn ops microdiscStep hinit fun _ h op _ => microdiscStep_fdc h op

/-- From any state of the controller whose drives have their own images: what the run changes in
an image is marked, or about to be; and a drive not marked before is marked for what the run
writes to it. -/
theorem microdisc_dirty (heap : Heap Ptr Byte) (cpuWired : Bool) (setup ops : List MicrodiscOp)
    (hdistinct : MicrodiscDistinct (microdiscRun (microdiscInit heap cpuWired) setup))
    (hok : MicrodiscTidy ops (microdiscRun (microdiscInit heap cpuWired) setup)) :
    let start := microdiscRun (microdiscInit heap cpuWired) setup
    let md := microdiscRun start ops
    MicrodiscMarked start md ∧
    (∀ d, MicrodiscUntouched d start → md.diskDirty d = true →
      Machine.Sometime microdiscStep (MicrodiscWrites d) ops start) := by
  have hfdc := microdiscRun_fdc heap cpuWired setup
  refine ⟨(microdiscRun_tracked hfdc hdistinct hok).marked, fun d hclean hmarked => ?_⟩
  by_contra hno
  rw [(microdiscRun_untouched hfdc hclean hok hno).clean] at hmarked
  exact absurd hmarked (by decide)

def microdiscTwoMedia : List MicrodiscOp :=
  [.setDisk 0 (some 0) 348160 80 17, .setDisk 1 (some 1) 348160 80 17]

/-- The first sector of drive 0 is being written; bytes are on the disk already. -/
def microdiscWriteByte : List MicrodiscOp :=
  [.write 0x0312#16 1#8, .write 0x0310#16 0xA0#8] ++ List.replicate 15 (.ticktock 100#32) ++
    [.write 0x0313#16 0x55#8] ++ List.replicate 7 (.ticktock 100#32)

theorem microdisc_dirty_writeByte :
    let start := microdiscRun (microdiscInit ⟨fun _ => 0, []⟩ true) microdiscTwoMedia
    let md := microdiscRun start microdiscWriteByte
    MicrodiscMarked start md ∧
    (∀ d, MicrodiscUntouched d start → md.diskDirty d = true →
      Machine.Sometime microdiscStep (MicrodiscWrites d) microdiscWriteByte start) :=
  microdisc_dirty _ _ _ _ (by decide) (by decide)

/-- Selecting drive 1 then leaves drive 0 changed and clean. -/
theorem microdiscSelect_loses_mark :
    ¬∀ (heap : Heap Ptr Byte) (cpuWired : Bool) (setup ops : List MicrodiscOp),
      let start := microdiscRun (microdiscInit heap cpuWired) setup
      let md := microdiscRun start ops
      MicrodiscDistinct start → (∀ op ∈ ops, MicrodiscBus op) → MicrodiscMarked start md ∧
        (∀ d, MicrodiscUntouched d start → md.diskDirty d = true →
          Machine.Sometime microdiscStep (MicrodiscWrites d) ops start) := by
  intro hall
  have hmarked := (hall ⟨fun _ => 0, []⟩ true microdiscTwoMedia
    (microdiscWriteByte ++ [.write 0x0314#16 0x20#8]) (by decide) (by decide)).1
  rcases hmarked 0 ⟨0, 0⟩ (by decide +kernel) (by decide +kernel) with hdirty | ⟨-, hdrive⟩
  · exact absurd hdirty (by decide +kernel)
  · exact absurd hdrive (by decide +kernel)

end Phosphoric
