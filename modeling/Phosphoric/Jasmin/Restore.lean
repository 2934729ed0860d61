import Phosphoric.Fdc.Resume
import Phosphoric.Jasmin.Controller

/-!
# Saving and restoring the Jasmin

**Theorem (`jasminRestore_faithful_iff`).** A Jasmin saved after any run and loaded into one with
the same media is the original, and answers every later run of operations alike, exactly if the
WD1793 has the media, damage, tab and side of the selected drive (`JasminPointed`), the sector in
progress is the one its registers name (`FdcAtLookup`), and the CPU's line is already what it was.

The load re-points the WD1793 to the drive and looks the sector up again; the line belongs to the
CPU, and no callback is called for it.

Original and restored Jasmin are `JasminAlike`: equal up to the WD1793, where they are `FdcLike`,
and up to the dirty marks, which no operation reads.
-/

namespace Phosphoric

open Binary

/-! ## The run's invariant -/

structure JasminInv (j : Jasmin) : Prop where
  fdc : FdcResumable False j.fdc
  heard : j.fdc.signals = []
  side : j.side &&& 1#8 = j.side

/-- A Jasmin just set up, in either timing mode. -/
def JasminStart (j : Jasmin) : Prop :=
  ∃ heap wired mode, j = { jasminInit heap wired with
    fdc := { fdcInit heap with timingMode := mode } }

variable {fdc a b : Fdc} {j : Jasmin}

theorem fdcReset_resumable (h : FdcResumable False fdc) : FdcResumable False (fdcReset fdc) := by
  have hnever : ∀ {P : Prop}, (0 : Int) < 0 → P := fun h => absurd h (Int.lt_irrefl 0)
  have hbase : FdcBase (fdcReset fdc) := { h.inv with
    ddStatus := rfl
    diStatus := hnever
    stream := nofun }
  have hints : FdcInts (fdcReset fdc) := { h.kept with
    delayedDrq := isInt_zero
    delayedInt := isInt_zero
    streamDue := isInt_zero
    wtState := rfl
    wtFieldIdx := nofun }
  exact ⟨hbase.inv_of_idle rfl 0#8 rfl (by decide), hints.kept_of_none rfl⟩

theorem FdcResumable.heard (h : FdcResumable False fdc) :
    FdcResumable False { fdc with signals := [] } :=
  ⟨{ h.inv with }, { h.kept with }⟩

theorem FdcResumable.unmodified (h : FdcResumable False fdc) :
    FdcResumable False { fdc with diskModified := false } :=
  ⟨{ h.inv with }, { h.kept with }⟩

theorem FdcResumable.input (h : FdcResumable False fdc) (op : FdcInput) :
    FdcResumable False (fdcInput fdc op) :=
  fdcInput_resumable h op False.elim

theorem driveIrq_frame (j : Jasmin) (level : Bool) :
    (j.driveIrq level).fdc = j.fdc ∧ (j.driveIrq level).side = j.side := by
  unfold Jasmin.driveIrq
  split_ifs <;> exact ⟨rfl, rfl⟩

/-- The callbacks leave the WD1793 and the side alone. -/
theorem jasminSignal_frame (j : Jasmin) (s : FdcSignal) :
    (jasminSignal j s).fdc = j.fdc ∧ (jasminSignal j s).side = j.side := by
  cases s with
  | setDrq => exact driveIrq_frame { j with drq := 0x00#8 } true
  | clrDrq => exact driveIrq_frame { j with drq := 0x80#8 } false
  | setIntrq => exact ⟨rfl, rfl⟩
  | clrIntrq => exact ⟨rfl, rfl⟩

theorem jasminSignals_frame (signals : List FdcSignal) (j : Jasmin) :
    (signals.foldl jasminSignal j).fdc = j.fdc ∧ (signals.foldl jasminSignal j).side = j.side := by
  induction signals generalizing j with
  | nil => exact ⟨rfl, rfl⟩
  | cons s signals ih =>
    obtain ⟨hfdc, hside⟩ := jasminSignal_frame j s
    obtain ⟨hfdc', hside'⟩ := ih (jasminSignal j s)
    exact ⟨hfdc'.trans hfdc, hside'.trans hside⟩

theorem JasminInv.withFdc (h : JasminInv j) (hf : FdcResumable False fdc) :
    JasminInv (j.withFdc fdc) := by
  obtain ⟨hfdc, hside⟩ := jasminSignals_frame fdc.signals.reverse
    { j with fdc := { fdc with signals := [] } }
  have hfdc' : (j.withFdc fdc).fdc = { fdc with signals := [] } := hfdc
  have hside' : (j.withFdc fdc).side = j.side := hside
  refine ⟨?_, ?_, ?_⟩
  · rw [hfdc']; exact hf.heard
  · rw [hfdc']
  · rw [hside']; exact h.side

theorem JasminInv.selectDrive (h : JasminInv j) (drive : Fin 4) :
    JasminInv (jasminSelectDrive j drive) where
  fdc := ((h.fdc.input (.setDisk (j.diskData drive) (j.diskSize drive) (j.diskTracks drive)
    (j.diskSectors drive))).input (.setBadMap (some (j.badMap drive)))).input
    (.setWriteProtect (j.writeProtect drive))
  heard := h.heard
  side := h.side

theorem Byte.zero_and_one : 0#8 &&& 1#8 = (0#8 : Byte) := by decide

theorem Byte.and_one_and (value : Byte) : value &&& 1#8 &&& 1#8 = value &&& 1#8 := by
  rw [BitVec.and_assoc, BitVec.and_self]

theorem JasminInv.driveIrq (h : JasminInv j) (level : Bool) : JasminInv (j.driveIrq level) := by
  unfold Jasmin.driveIrq
  split
  · exact ⟨h.fdc, h.heard, h.side⟩
  · exact h

theorem JasminInv.writeLatch (h : JasminInv j) (value : Byte) (reg : JasminReg) :
    JasminInv (jasminWriteLatch j value reg) := by
  cases reg with
  | side => exact ⟨h.fdc.input (.setSide (value &&& 1#8)), h.heard, Byte.and_one_and value⟩
  | reset =>
    have hreset : JasminInv { j with fdc := fdcReset j.fdc, intrq := 0x80, drq := 0x80 } :=
      ⟨fdcReset_resumable h.fdc, h.heard, h.side⟩
    exact hreset.driveIrq false
  | olay => exact ⟨h.fdc, h.heard, h.side⟩
  | romdis => exact ⟨h.fdc, h.heard, h.side⟩
  | drive new =>
    unfold jasminWriteLatch
    dsimp only
    split
    · exact h.selectDrive new
    · exact h

theorem JasminInv.markDirty (h : JasminInv j) : JasminInv (jasminMarkDirty j) := by
  unfold jasminMarkDirty
  split
  · exact ⟨h.fdc.unmodified, h.heard, h.side⟩
  · exact h

theorem JasminInv.write (h : JasminInv j) (addr : Word) (value : Byte) :
    JasminInv (jasminWrite j addr value) := by
  unfold jasminWrite
  split
  · exact (h.withFdc (h.fdc.input (.access (.write (Word.lo (addr &&& 3#16)) value)))).markDirty
  · split
    · exact h.writeLatch value _
    · exact h

theorem JasminInv.read (h : JasminInv j) (addr : Word) : JasminInv (jasminRead j addr).2 := by
  unfold jasminRead
  split
  · exact h.withFdc (h.fdc.input (.access (.read (Word.lo (addr &&& 3#16)))))
  · split
    · exact h
    · exact h

theorem JasminInv.setDisk (h : JasminInv j) (drive : Byte) (data : Option Nat) (size : Nat)
    (tracks sectorsPerTrack : Byte) :
    JasminInv (jasminSetDisk j drive data size tracks sectorsPerTrack) := by
  unfold jasminSetDisk
  split
  · exact h
  · dsimp only
    split
    · exact ⟨(h.fdc.input (.setDisk data size tracks sectorsPerTrack)).input (.setBadMap _),
        h.heard, h.side⟩
    · exact ⟨h.fdc, h.heard, h.side⟩

theorem JasminInv.setWriteProtect (h : JasminInv j) (drive : Byte) (on : Bool) :
    JasminInv (jasminSetWriteProtect j drive on) := by
  unfold jasminSetWriteProtect
  split
  · exact h
  · dsimp only
    split
    · exact ⟨h.fdc.input (.setWriteProtect on), h.heard, h.side⟩
    · exact ⟨h.fdc, h.heard, h.side⟩

theorem JasminInv.addBadSector (h : JasminInv j) (drive side track sector : Byte) :
    JasminInv (jasminAddBadSector j drive side track sector) := by
  unfold jasminAddBadSector
  split
  · exact h
  · split
    · exact h
    · unfold jasminSyncBadMap
      split
      · exact ⟨h.fdc.input (.setBadMap _), h.heard, h.side⟩
      · exact ⟨h.fdc, h.heard, h.side⟩

theorem JasminInv.step (h : JasminInv j) (op : JasminOp) : JasminInv (jasminStep j op) := by
  cases op with
  | write addr value => exact h.write addr value
  | read addr => exact h.read addr
  | ticktock cycles => exact h.withFdc (h.fdc.input (.access (.ticktock cycles)))
  | setDisk drive data size tracks sectorsPerTrack => exact h.setDisk ..
  | setWriteProtect drive on => exact h.setWriteProtect drive on
  | addBadSector drive side track sector => exact h.addBadSector ..
  | reset => exact ⟨fdcReset_resumable h.fdc, h.heard, Byte.zero_and_one⟩
  | cpuReset => exact ⟨h.fdc, h.heard, h.side⟩
  | autoboot =>
    change JasminInv (jasminAutoboot j)
    have hpaged := h.write 0x03FB 1
    unfold jasminAutoboot
    split
    · exact ⟨hpaged.fdc, hpaged.heard, hpaged.side⟩
    · exact h

theorem jasminRun_inv (hstart : JasminStart j) (ops : List JasminOp) :
    JasminInv (ops.foldl jasminStep j) := by
  have hinit : JasminInv j := by
    obtain ⟨heap, wired, mode, rfl⟩ := hstart
    exact ⟨fdcStart_resumable ⟨heap, mode, rfl⟩, rfl, Byte.zero_and_one⟩
  exact List.foldlRecOn ops jasminStep hinit fun _ h op _ => h.step op

/-! ## Likeness -/

/-- `j'` is `j` up to the dirty marks and what no access of the WD1793 looks at. -/
def JasminAlike (j j' : Jasmin) : Prop :=
  ∃ fdc dirty, j' = { j with fdc := fdc, diskDirty := dirty } ∧ FdcLike j.fdc fdc

variable {j' : Jasmin}

theorem fdcReset_like (h : FdcLike a b) : FdcLike (fdcReset a) (fdcReset b) := by
  obtain ⟨lost, modified, id, ptr, idx, rfl, -, -⟩ := h
  exact FdcAlmost.like_of_none ⟨lost, modified, id, none, 0, rfl⟩ rfl

theorem FdcLike.heard (h : FdcLike a b) :
    FdcLike { a with signals := [] } { b with signals := [] } := by
  obtain ⟨lost, modified, id, ptr, idx, rfl, hptr, hidx⟩ := h
  exact ⟨lost, modified, id, ptr, idx, rfl, hptr, hidx⟩

/-- The dirty mark is one of the things not looked at. -/
theorem FdcLike.modified (h : FdcLike a b) (ma mb : Bool) :
    FdcLike { a with diskModified := ma } { b with diskModified := mb } := by
  obtain ⟨lost, modified, id, ptr, idx, rfl, hptr, hidx⟩ := h
  exact ⟨lost, mb, id, ptr, idx, rfl, hptr, hidx⟩

/-- Media, geometry, damage, tab and side go to both alike. -/
theorem fdcInput_like (h : FdcLike a b) (op : FdcInput) :
    FdcLike (fdcInput a op) (fdcInput b op) := by
  cases op with
  | access access => exact fdcAccess_like h access
  | setSide side =>
    obtain ⟨lost, modified, id, ptr, idx, rfl, hptr, hidx⟩ := h
    exact ⟨lost, modified, id, ptr, idx, rfl, hptr, hidx⟩
  | setDisk data size tracks sectorsPerTrack =>
    obtain ⟨lost, modified, id, ptr, idx, rfl, hptr, hidx⟩ := h
    exact ⟨lost, modified, id, ptr, idx, rfl, hptr, hidx⟩
  | setWriteProtect protect =>
    obtain ⟨lost, modified, id, ptr, idx, rfl, hptr, hidx⟩ := h
    exact ⟨lost, modified, id, ptr, idx, rfl, hptr, hidx⟩
  | setBadMap map =>
    obtain ⟨lost, modified, id, ptr, idx, rfl, hptr, hidx⟩ := h
    exact ⟨lost, modified, id, ptr, idx, rfl, hptr, hidx⟩

theorem JasminAlike.driveIrq (h : JasminAlike j j') (level : Bool) :
    JasminAlike (j.driveIrq level) (j'.driveIrq level) := by
  obtain ⟨fdc, dirty, rfl, hlike⟩ := h
  unfold Jasmin.driveIrq
  dsimp only
  split_ifs <;> exact ⟨fdc, dirty, rfl, hlike⟩

theorem JasminAlike.signal (h : JasminAlike j j') (s : FdcSignal) :
    JasminAlike (jasminSignal j s) (jasminSignal j' s) := by
  obtain ⟨fdc, dirty, rfl, hlike⟩ := h
  have hdrq : ∀ drq : Byte, JasminAlike { j with drq := drq }
      { j with fdc := fdc, diskDirty := dirty, drq := drq } :=
    fun _ => ⟨fdc, dirty, rfl, hlike⟩
  cases s with
  | setDrq => exact (hdrq 0x00#8).driveIrq true
  | clrDrq => exact (hdrq 0x80#8).driveIrq false
  | setIntrq => exact ⟨fdc, dirty, rfl, hlike⟩
  | clrIntrq => exact ⟨fdc, dirty, rfl, hlike⟩

theorem JasminAlike.signals (h : JasminAlike j j') (signals : List FdcSignal) :
    JasminAlike (signals.foldl jasminSignal j) (signals.foldl jasminSignal j') := by
  induction signals generalizing j j' with
  | nil => exact h
  | cons s signals ih => exact ih (h.signal s)

/-- The same callbacks are called. -/
theorem JasminAlike.withFdc (h : JasminAlike j j') (hf : FdcLike a b) :
    JasminAlike (j.withFdc a) (j'.withFdc b) := by
  obtain ⟨hsignals, -, -⟩ := hf.shown
  obtain ⟨fdc, dirty, rfl, -⟩ := h
  unfold Jasmin.withFdc
  rw [← hsignals]
  exact JasminAlike.signals ⟨_, dirty, rfl, hf.heard⟩ _

theorem JasminAlike.like (h : JasminAlike j j') : FdcLike j.fdc j'.fdc := by
  obtain ⟨fdc, dirty, rfl, hlike⟩ := h
  exact hlike

theorem JasminAlike.selectDrive (h : JasminAlike j j') (drive : Fin 4) :
    JasminAlike (jasminSelectDrive j drive) (jasminSelectDrive j' drive) := by
  obtain ⟨fdc, dirty, rfl, hlike⟩ := h
  refine ⟨_, dirty, rfl, ?_⟩
  exact fdcInput_like (fdcInput_like (fdcInput_like hlike
    (.setDisk (j.diskData drive) (j.diskSize drive) (j.diskTracks drive) (j.diskSectors drive)))
    (.setBadMap (some (j.badMap drive)))) (.setWriteProtect (j.writeProtect drive))

theorem JasminAlike.markDirty (h : JasminAlike j j') :
    JasminAlike (jasminMarkDirty j) (jasminMarkDirty j') := by
  obtain ⟨fdc, dirty, rfl, hlike⟩ := h
  unfold jasminMarkDirty
  dsimp only
  split_ifs
  · exact ⟨_, _, rfl, hlike.modified false false⟩
  · exact ⟨_, _, rfl, hlike.modified false fdc.diskModified⟩
  · exact ⟨_, _, rfl, hlike.modified j.fdc.diskModified false⟩
  · exact ⟨_, _, rfl, hlike⟩

theorem JasminAlike.writeLatch (h : JasminAlike j j') (value : Byte) (reg : JasminReg) :
    JasminAlike (jasminWriteLatch j value reg) (jasminWriteLatch j' value reg) := by
  have hselect := h.selectDrive
  have hsame := h
  obtain ⟨fdc, dirty, rfl, hlike⟩ := h
  cases reg with
  | side => exact ⟨_, dirty, rfl, fdcInput_like hlike (.setSide (value &&& 1#8))⟩
  | reset =>
    have hreset : JasminAlike { j with fdc := fdcReset j.fdc, intrq := 0x80, drq := 0x80 }
        { j with fdc := fdcReset fdc, diskDirty := dirty, intrq := 0x80, drq := 0x80 } :=
      ⟨_, dirty, rfl, fdcReset_like hlike⟩
    exact hreset.driveIrq false
  | olay => exact ⟨fdc, dirty, rfl, hlike⟩
  | romdis => exact ⟨fdc, dirty, rfl, hlike⟩
  | drive new =>
    unfold jasminWriteLatch
    dsimp only
    split_ifs
    · exact hselect new
    · exact hsame

theorem JasminAlike.write (h : JasminAlike j j') (addr : Word) (value : Byte) :
    JasminAlike (jasminWrite j addr value) (jasminWrite j' addr value) := by
  unfold jasminWrite
  split_ifs
  · exact (h.withFdc (fdcWrite_like h.like _ value)).markDirty
  · split
    · exact h.writeLatch value _
    · exact h

theorem JasminAlike.read (h : JasminAlike j j') (addr : Word) :
    (jasminRead j addr).1 = (jasminRead j' addr).1 ∧
      JasminAlike (jasminRead j addr).2 (jasminRead j' addr).2 := by
  obtain ⟨hbyte, hlike⟩ := fdcRead_like h.like (Word.lo (addr &&& 3#16))
  have hromdis : j'.romdis = j.romdis := by
    obtain ⟨fdc, dirty, rfl, -⟩ := h
    rfl
  unfold jasminRead
  rw [hromdis]
  split_ifs <;> first | exact ⟨hbyte, h.withFdc hlike⟩ | exact ⟨rfl, h⟩

theorem JasminAlike.setDisk (h : JasminAlike j j') (drive : Byte) (data : Option Nat) (size : Nat)
    (tracks sectorsPerTrack : Byte) :
    JasminAlike (jasminSetDisk j drive data size tracks sectorsPerTrack)
      (jasminSetDisk j' drive data size tracks sectorsPerTrack) := by
  have hsame := h
  obtain ⟨fdc, dirty, rfl, hlike⟩ := h
  unfold jasminSetDisk
  split
  · exact hsame
  · dsimp only
    by_cases hdrive : ‹Fin 4› = j.drive
    · rw [if_pos hdrive, if_pos hdrive]
      exact ⟨_, dirty, rfl, fdcInput_like
        (fdcInput_like hlike (.setDisk data size tracks sectorsPerTrack)) (.setBadMap _)⟩
    · rw [if_neg hdrive, if_neg hdrive]
      exact ⟨fdc, dirty, rfl, hlike⟩

theorem JasminAlike.setWriteProtect (h : JasminAlike j j') (drive : Byte) (on : Bool) :
    JasminAlike (jasminSetWriteProtect j drive on) (jasminSetWriteProtect j' drive on) := by
  have hsame := h
  obtain ⟨fdc, dirty, rfl, hlike⟩ := h
  unfold jasminSetWriteProtect
  split
  · exact hsame
  · dsimp only
    split_ifs
    · exact ⟨_, dirty, rfl, fdcInput_like hlike (.setWriteProtect on)⟩
    · exact ⟨fdc, dirty, rfl, hlike⟩

theorem JasminAlike.addBadSector (h : JasminAlike j j') (drive side track sector : Byte) :
    JasminAlike (jasminAddBadSector j drive side track sector)
      (jasminAddBadSector j' drive side track sector) := by
  have hsame := h
  obtain ⟨fdc, dirty, rfl, hlike⟩ := h
  unfold jasminAddBadSector
  split
  · exact hsame
  · dsimp only
    split
    · exact hsame
    · unfold jasminSyncBadMap
      dsimp only
      split_ifs
      · exact ⟨_, dirty, rfl, fdcInput_like hlike (.setBadMap _)⟩
      · exact ⟨fdc, dirty, rfl, hlike⟩

theorem JasminAlike.autoboot (h : JasminAlike j j') :
    JasminAlike (jasminAutoboot j) (jasminAutoboot j') := by
  have hpaged := h.write 0x03FB 1
  have hsame := h
  obtain ⟨fdc, dirty, rfl, hlike⟩ := h
  unfold jasminAutoboot
  dsimp only
  split_ifs
  · obtain ⟨fdc', dirty', heq, hlike'⟩ := hpaged
    rw [heq]
    exact ⟨fdc', dirty', rfl, hlike'⟩
  · exact hsame

theorem JasminAlike.step (h : JasminAlike j j') (op : JasminOp) :
    JasminAlike (jasminStep j op) (jasminStep j' op) := by
  cases op with
  | write addr value => exact h.write addr value
  | read addr => exact (h.read addr).2
  | ticktock cycles => exact h.withFdc (fdcTicktock_like h.like cycles)
  | setDisk drive data size tracks sectorsPerTrack => exact h.setDisk ..
  | setWriteProtect drive on => exact h.setWriteProtect drive on
  | addBadSector drive side track sector => exact h.addBadSector ..
  | reset =>
    obtain ⟨fdc, dirty, rfl, hlike⟩ := h
    exact ⟨_, dirty, rfl, fdcReset_like hlike⟩
  | cpuReset =>
    obtain ⟨fdc, dirty, rfl, hlike⟩ := h
    exact ⟨fdc, dirty, rfl, hlike⟩
  | autoboot => exact h.autoboot

/-! ## Answers -/

/-- What an operation shows: the byte a read returns, and after it the CPU's line, the paging
latches and the image buffers. -/
structure JasminAnswer where
  byte : Option Byte
  cpuIrq : Bool
  romdis : Bool
  olay : Bool
  heap : Heap Ptr Byte

def jasminByteRead (j : Jasmin) : JasminOp → Option Byte
  | .read addr => some (jasminRead j addr).1
  | _ => none

def jasminAnswer (j : Jasmin) (op : JasminOp) : JasminAnswer × Jasmin :=
  let next := jasminStep j op
  (⟨jasminByteRead j op, next.cpuIrq, next.romdis, next.olay, next.fdc.heap⟩, next)

/-- What a run of operations shows. -/
def jasminAnswers (ops : List JasminOp) (j : Jasmin) : List JasminAnswer :=
  (Machine.runOut jasminAnswer ops j).1

theorem JasminAlike.answer (h : JasminAlike j j') (op : JasminOp) :
    (jasminAnswer j op).1 = (jasminAnswer j' op).1 ∧
      JasminAlike (jasminAnswer j op).2 (jasminAnswer j' op).2 := by
  have hbyte : jasminByteRead j op = jasminByteRead j' op := by
    cases op with
    | read addr => exact congrArg some (h.read addr).1
    | _ => rfl
  have hnext := h.step op
  obtain ⟨-, hheap, -⟩ := hnext.like.shown
  refine ⟨?_, hnext⟩
  obtain ⟨fdc, dirty, heq, -⟩ := hnext
  simp only [jasminAnswer]
  rw [hbyte, hheap, heq]

theorem JasminAlike.answers (h : JasminAlike j j') (ops : List JasminOp) :
    jasminAnswers ops j' = jasminAnswers ops j :=
  (Machine.runOut_simulation (R := JasminAlike) (fun _ _ op hj => hj.answer op) ops j j' h).1.symm

/-! ## Loading what was saved -/

section Readers

variable {α : Type} (rest : List Byte)

theorem jasminReadEntries_bind (entry : List FdcBadSector)
    (k : List FdcBadSector → Reader α) :
    (jasminReadEntries entry.length >>= k)
        ((entry.map jasminSaveEntry).flatten ++ rest) = k entry rest := by
  induction entry generalizing k with
  | nil => rfl
  | cons e entry ih =>
    simp only [List.length_cons, jasminReadEntries, List.map_cons, List.flatten_cons,
      jasminSaveEntry, List.append_assoc, bind_assoc, pure_bind, binRU8_bind]
    exact ih _

theorem jasminReadMap_bind (map : FdcBadMap) (k : FdcBadMap → Reader α) :
    (jasminReadMap >>= k) (jasminSaveMap map ++ rest) = k map rest := by
  have hcount : min (BitVec.ofNat 8 map.entry.length).toNat 16 = map.entry.length := by
    have hle := map.count_le
    rw [BitVec.toNat_ofNat, Nat.mod_eq_of_lt (by omega)]
    omega
  have hmap : (⟨map.entry.take 16, List.length_take_le 16 map.entry⟩ : FdcBadMap) = map := by
    cases map with
    | mk entry hle => simp [List.take_of_length_le hle]
  simp only [jasminReadMap, jasminSaveMap, List.append_assoc, bind_assoc, pure_bind, binRU8_bind,
    hcount, jasminReadEntries_bind, hmap]

end Readers

/-- The section is long enough for `jasmin_load`. -/
theorem jasminSave_length (j : Jasmin) : 1 + fdcStateSize + 7 + 4 ≤ (jasminSave j).length := by
  simp only [jasminSave, jasminSaveMap, binWBool, binWU8, List.flatten_cons, List.flatten_nil,
    List.length_append, bytesLe_length, fdcStateSave_length, List.length_nil]
  omega

/-- What the WD1793 of the restored Jasmin is before it is pointed at the drive. -/
def jasminFdcOver (saved target : Fdc) : Fdc :=
  { saved with
    diskData := target.diskData, diskSize := target.diskSize, tracks := target.tracks
    sectorsPerTrack := target.sectorsPerTrack, diskModified := target.diskModified
    curSectorData := target.curSectorData, curSectorId := target.curSectorId
    wtFieldIdx := saved.wtFieldIdx &&& 3#8, timingMode := target.timingMode
    lostDataCount := target.lostDataCount, writeProtected := target.writeProtected
    bad := target.bad, signals := target.signals, heap := target.heap }

/-- The latches and maps are restored, and the WD1793 is pointed at the drive. -/
def jasminRepointed (saved target : Jasmin) : Jasmin :=
  jasminSelectDrive { target with
    fdc := jasminFdcOver saved.fdc target.fdc, romdis := saved.romdis, olay := saved.olay
    side := saved.side, intrq := saved.intrq, drq := saved.drq
    autobootDone := saved.autobootDone, badMap := saved.badMap } saved.drive

theorem jasminRestore_eq {saved : Jasmin} (h : JasminInv saved) (target : Jasmin) :
    jasminRestore saved target = { jasminRepointed saved target with
      fdc := fdcStateResume { (jasminRepointed saved target).fdc with side := saved.side } } := by
  have hlen := jasminSave_length saved
  have hsize : ¬(jasminSave saved).length < 1 + fdcStateSizeV2 + 7 + 4 := by
    have hle : fdcStateSizeV2 ≤ fdcStateSize := by decide
    omega
  have hsize' : ¬(jasminSave saved).length < 1 + fdcStateSize + 7 + 4 := by omega
  have hversion : jasminFdcSize 2 = some fdcStateSize := rfl
  have hdrive : (jasminDrive (BitVec.ofNat 8 saved.drive.val)).getD 0 = saved.drive := by
    generalize saved.drive = d
    revert d
    decide
  have hmaps : jasminMaps (saved.badMap 0) (saved.badMap 1) (saved.badMap 2) (saved.badMap 3) =
      saved.badMap := by
    funext d
    fin_cases d <;> rfl
  unfold jasminRestore jasminLoad
  rw [if_neg hsize]
  generalize (jasminSave saved).length = size at hsize'
  have hload := fdcStateLoad_bind h.fdc.kept.toFdcInts target.fdc (α := Jasmin)
  simp only [jasminSave, List.flatten_cons, List.flatten_nil, binRU8_bind, hversion, if_neg hsize',
    hload, jasminLoadLatches, binRBool_bind, jasminReadMap_bind, hdrive, hmaps, h.side]
  rfl

/-! ## When the restored Jasmin is the original -/

/-- The same media, timing mode and wiring. -/
structure JasminSameMedia (saved target : Jasmin) : Prop where
  diskData : target.diskData = saved.diskData
  diskSize : target.diskSize = saved.diskSize
  diskTracks : target.diskTracks = saved.diskTracks
  diskSectors : target.diskSectors = saved.diskSectors
  writeProtect : target.writeProtect = saved.writeProtect
  timingMode : target.fdc.timingMode = saved.fdc.timingMode
  cpuWired : target.cpuWired = saved.cpuWired

/-- The section `DSK`, read before, has put the images back. -/
structure JasminReady (saved target : Jasmin) : Prop extends JasminSameMedia saved target where
  heap : target.fdc.heap = saved.fdc.heap

def Jasmin.withImages (j : Jasmin) (heap : Heap Ptr Byte) : Jasmin :=
  { j with fdc := { j.fdc with heap := heap } }

theorem JasminSameMedia.ready {saved target : Jasmin} (h : JasminSameMedia saved target) :
    JasminReady saved (target.withImages saved.fdc.heap) :=
  ⟨⟨h.diskData, h.diskSize, h.diskTracks, h.diskSectors, h.writeProtect, h.timingMode, h.cpuWired⟩,
    rfl⟩

/-- The WD1793 has what is in the selected drive, and the side. -/
structure JasminPointed (j : Jasmin) : Prop where
  diskData : j.fdc.diskData = j.diskData j.drive
  diskSize : j.fdc.diskSize = j.diskSize j.drive
  tracks : j.fdc.tracks = j.diskTracks j.drive
  sectorsPerTrack : j.fdc.sectorsPerTrack = j.diskSectors j.drive
  bad : j.fdc.bad = j.badMap j.drive
  writeProtected : j.fdc.writeProtected = j.writeProtect j.drive
  side : j.fdc.side = j.side

/-- The sector in progress is the one the registers name. -/
structure FdcAtLookup (fdc : Fdc) : Prop where
  sector : fdc.currentop.isSector = true → fdc.curSectorData = fdcFindSector fdc fdc.sector
  address : fdc.currentop = .readAddress → fdc.curSectorData = fdcFindSector fdc 1#8
  field : fdc.currentop = .writeTrack → fdc.wtState = .dataField →
    fdc.curSectorData = fdcFindSector fdc fdc.wtSector

/-- The WD1793's registers, transfer and view of the drive are restored, the latches and the maps,
and every later run is answered alike. -/
structure JasminRestored (saved restored : Jasmin) : Prop where
  fdc : FdcLike saved.fdc restored.fdc
  romdis : restored.romdis = saved.romdis
  olay : restored.olay = saved.olay
  drive : restored.drive = saved.drive
  side : restored.side = saved.side
  intrq : restored.intrq = saved.intrq
  drq : restored.drq = saved.drq
  autobootDone : restored.autobootDone = saved.autobootDone
  badMap : restored.badMap = saved.badMap
  answers : ∀ ops, jasminAnswers ops restored = jasminAnswers ops saved

variable {saved target : Jasmin}

/-- Pointed at the drive, the loaded WD1793 is the saved one up to what is not saved. -/
theorem JasminPointed.repointed (h : JasminPointed saved) (hmedia : JasminReady saved target) :
    { (jasminRepointed saved target).fdc with side := saved.side } = { saved.fdc with
      lostDataCount := target.fdc.lostDataCount, diskModified := target.fdc.diskModified
      curSectorId := target.fdc.curSectorId, curSectorData := target.fdc.curSectorData
      wtFieldIdx := saved.fdc.wtFieldIdx &&& 3#8, signals := target.fdc.signals } := by
  simp only [jasminRepointed, jasminSelectDrive, jasminFdcOver, fdcSetDisk, fdcSetBadMap,
    fdcSetWriteProtect, Option.getD_some, hmedia.diskData, hmedia.diskSize, hmedia.diskTracks,
    hmedia.diskSectors, hmedia.writeProtect, hmedia.timingMode, hmedia.heap, ← h.diskData,
    ← h.diskSize, ← h.tracks, ← h.sectorsPerTrack, ← h.bad, ← h.writeProtected, ← h.side]

/-- The WD1793 of a restored Jasmin that was pointed at its drive. -/
theorem JasminPointed.restored_fdc (h : JasminPointed saved) (hinv : JasminInv saved)
    (hmedia : JasminReady saved target) :
    (jasminRestore saved target).fdc = fdcStateResume { saved.fdc with
      lostDataCount := target.fdc.lostDataCount, diskModified := target.fdc.diskModified
      curSectorId := target.fdc.curSectorId, curSectorData := target.fdc.curSectorData
      wtFieldIdx := saved.fdc.wtFieldIdx &&& 3#8, signals := target.fdc.signals } := by
  rw [jasminRestore_eq hinv]
  exact congrArg fdcStateResume (h.repointed hmedia)

theorem FdcLike.pointer (h : FdcLike a b) (hlive : a.sectorLive = true) :
    b.curSectorData = a.curSectorData := by
  obtain ⟨lost, modified, id, ptr, idx, rfl, hptr, -⟩ := h
  exact hptr hlive

/-- Resuming only looks the sector up. -/
theorem fdcStateResume_frame (fdc : Fdc) :
    ∃ ptr id, fdcStateResume fdc = { fdc with curSectorData := ptr, curSectorId := id } := by
  unfold fdcStateResume
  split
  · exact ⟨_, _, rfl⟩
  · exact ⟨_, _, rfl⟩
  · exact ⟨_, _, rfl⟩
  · exact ⟨_, _, rfl⟩
  · exact ⟨_, _, rfl⟩
  · split_ifs
    · exact ⟨_, _, rfl⟩
    · exact ⟨none, fdc.curSectorId, rfl⟩
  · exact ⟨none, fdc.curSectorId, rfl⟩

/-- A view restored as it was is that of the selected drive. -/
theorem JasminRestored.pointed (h : JasminRestored saved (jasminRestore saved target))
    (hinv : JasminInv saved) (hmedia : JasminReady saved target) : JasminPointed saved := by
  obtain ⟨lost, modified, id, ptr, idx, heq, -, -⟩ := h.fdc
  rw [jasminRestore_eq hinv] at heq
  obtain ⟨ptr', id', hframe⟩ := fdcStateResume_frame
    { (jasminRepointed saved target).fdc with side := saved.side }
  have hview := hframe.symm.trans heq
  have hdisk := congrFun hmedia.diskData saved.drive
  have hsize := congrFun hmedia.diskSize saved.drive
  have htracks := congrFun hmedia.diskTracks saved.drive
  have hsectors := congrFun hmedia.diskSectors saved.drive
  have htab := congrFun hmedia.writeProtect saved.drive
  exact {
    diskData := (congrArg Fdc.diskData hview).symm.trans hdisk
    diskSize := (congrArg Fdc.diskSize hview).symm.trans hsize
    tracks := (congrArg Fdc.tracks hview).symm.trans htracks
    sectorsPerTrack := (congrArg Fdc.sectorsPerTrack hview).symm.trans hsectors
    bad := (congrArg Fdc.bad hview).symm
    writeProtected := (congrArg Fdc.writeProtected hview).symm.trans htab
    side := (congrArg Fdc.side hview).symm }

/-- The pointer of a resumed WD1793 is the one its registers name. -/
theorem JasminRestored.atLookup (h : JasminRestored saved (jasminRestore saved target))
    (hinv : JasminInv saved) (hmedia : JasminReady saved target) : FdcAtLookup saved.fdc := by
  have hpointed := h.pointed hinv hmedia
  have hresume := hpointed.restored_fdc hinv hmedia
  have hptr := h.fdc.pointer
  rw [hresume] at hptr
  refine ⟨fun hop => ?_, fun hop => ?_, fun hop hst => ?_⟩
  · have hlive : saved.fdc.sectorLive = true := sectorLive_of_isSector hop
    rw [← hptr hlive]
    unfold fdcStateResume
    cases hcur : saved.fdc.currentop <;> rw [hcur] at hop <;> first | rfl | cases hop
  · have hlive : saved.fdc.sectorLive = true := by simp [Fdc.sectorLive, hop]
    rw [← hptr hlive]
    simp only [fdcStateResume, hop]
    rfl
  · have hlive : saved.fdc.sectorLive = true := by simp [Fdc.sectorLive, hop, hst]
    rw [← hptr hlive]
    simp only [fdcStateResume, hop, hst]
    rfl

/-- The line of the CPU is the target's. -/
theorem jasminRestore_cpuIrq (hinv : JasminInv saved) (target : Jasmin) :
    (jasminRestore saved target).cpuIrq = target.cpuIrq := by
  rw [jasminRestore_eq hinv]
  rfl

/-- An operation that changes nothing shows the line. -/
theorem JasminRestored.cpuIrq (h : JasminRestored saved (jasminRestore saved target))
    (hinv : JasminInv saved) : target.cpuIrq = saved.cpuIrq := by
  have hanswer := h.answers [.read 0]
  rw [← jasminRestore_cpuIrq hinv target]
  exact congrArg (fun answers => (answers.map JasminAnswer.cpuIrq).headD false) hanswer

theorem FdcAtLookup.kept (h : FdcAtLookup a) (hints : FdcInts a) : FdcKept True a :=
  { hints with
    sector := fun _ => h.sector
    address := fun _ => h.address
    field := fun _ => h.field }

theorem FdcHeard.like (h : FdcHeard a b) (ha : a.signals = []) (hb : b.signals = []) :
    FdcLike a b := by
  have ha' : { a with signals := [] } = a := by rw [← ha]
  have hb' : { b with signals := [] } = b := by rw [← hb]
  rw [FdcHeard, ha', hb'] at h
  exact h

/-- All that an operation looks at is as it was. -/
theorem jasminRestore_alike (hinv : JasminInv saved) (hmedia : JasminReady saved target)
    (hheard : target.fdc.signals = []) (hpointed : JasminPointed saved)
    (hlookup : FdcAtLookup saved.fdc) (hline : target.cpuIrq = saved.cpuIrq) :
    JasminAlike saved (jasminRestore saved target) := by
  have hfdc := hpointed.restored_fdc hinv hmedia
  have hlike : FdcLike saved.fdc (jasminRestore saved target).fdc := by
    have hresumed := fdcStateResume_heard (hlookup.kept hinv.fdc.kept.toFdcInts)
      target.fdc.lostDataCount target.fdc.diskModified target.fdc.curSectorId
      target.fdc.curSectorData target.fdc.signals
    rw [← hfdc] at hresumed
    refine hresumed.like hinv.heard ?_
    obtain ⟨ptr, id, hframe⟩ := fdcStateResume_frame
      { (jasminRepointed saved target).fdc with side := saved.side }
    rw [jasminRestore_eq hinv]
    exact (congrArg Fdc.signals hframe).trans hheard
  refine ⟨(jasminRestore saved target).fdc, target.diskDirty, ?_, hlike⟩
  rw [jasminRestore_eq hinv]
  simp only [jasminRepointed, jasminSelectDrive, hmedia.diskData, hmedia.diskSize,
    hmedia.diskTracks, hmedia.diskSectors, hmedia.writeProtect, hmedia.cpuWired, hline]

theorem JasminAlike.restored {restored : Jasmin} (h : JasminAlike saved restored) :
    JasminRestored saved restored := by
  have hanswers := h.answers
  obtain ⟨fdc, dirty, rfl, hlike⟩ := h
  exact ⟨hlike, rfl, rfl, rfl, rfl, rfl, rfl, rfl, rfl, hanswers⟩

/-- The states a run reaches, saved, and loaded into any other with the same media, its images put
back. -/
theorem jasminRestore_faithful_iff {start start' : Jasmin} (hstart : JasminStart start)
    (hstart' : JasminStart start') (ops ops' : List JasminOp)
    (hmedia : JasminSameMedia (ops.foldl jasminStep start) (ops'.foldl jasminStep start')) :
    JasminRestored (ops.foldl jasminStep start)
        (jasminRestore (ops.foldl jasminStep start) ((ops'.foldl jasminStep start').withImages
          (ops.foldl jasminStep start).fdc.heap)) ↔
      JasminPointed (ops.foldl jasminStep start) ∧
        FdcAtLookup (ops.foldl jasminStep start).fdc ∧
        (ops'.foldl jasminStep start').cpuIrq = (ops.foldl jasminStep start).cpuIrq := by
  have hinv := jasminRun_inv hstart ops
  have hinv' := jasminRun_inv hstart' ops'
  have hready := hmedia.ready
  constructor
  · intro h
    exact ⟨h.pointed hinv hready, h.atLookup hinv hready, h.cpuIrq hinv⟩
  · rintro ⟨hpointed, hlookup, hline⟩
    exact (jasminRestore_alike hinv hready hinv'.heard hpointed hlookup hline).restored

/-- A Jasmin in the FAST model, over a track of two sectors, of ones and of twos. -/
def jasminTwoSectors : Jasmin :=
  { jasminInit ⟨fun p => if p.off < 256 then 1 else 2, []⟩ true with
    fdc := { fdcInit ⟨fun p => if p.off < 256 then 1 else 2, []⟩ with timingMode := .fast } }

/-- The track in drive 0, and a Read Sector that reaches the first byte of a sector. -/
def jasminReading (sector : Byte) : List JasminOp :=
  [.setDisk 0 (some 0) 512 1 2, .write 0x03F6 sector, .write 0x03F4 0x80, .ticktock 60]

/-- Saved at the first byte of one sector, loaded into one at the first byte of the other: both
have the line asserted. -/
theorem jasminRestore_faithful_reading :
    JasminRestored ((jasminReading 1).foldl jasminStep jasminTwoSectors)
      (jasminRestore ((jasminReading 1).foldl jasminStep jasminTwoSectors)
        (((jasminReading 2).foldl jasminStep jasminTwoSectors).withImages
          ((jasminReading 1).foldl jasminStep jasminTwoSectors).fdc.heap)) := by
  have hstart : JasminStart jasminTwoSectors := ⟨_, true, .fast, rfl⟩
  have hmedia : JasminSameMedia ((jasminReading 1).foldl jasminStep jasminTwoSectors)
      ((jasminReading 2).foldl jasminStep jasminTwoSectors) := by
    constructor <;> decide
  refine (jasminRestore_faithful_iff hstart hstart (jasminReading 1) (jasminReading 2) hmedia).mpr
    ⟨by constructor <;> decide, ⟨fun _ => ?_, fun hop => ?_, fun hop => ?_⟩, ?_⟩
  · decide
  · exact absurd hop (by decide)
  · exact absurd hop (by decide)
  · decide

/-- The sector register gets the next sector's number while the first is read: the restored Jasmin
reads the next. -/
theorem jasminRestore_moved :
    ¬∀ (start start' : Jasmin) (ops ops' : List JasminOp), JasminStart start →
      JasminStart start' →
      JasminSameMedia (ops.foldl jasminStep start) (ops'.foldl jasminStep start') →
      JasminRestored (ops.foldl jasminStep start)
        (jasminRestore (ops.foldl jasminStep start) ((ops'.foldl jasminStep start').withImages
          (ops.foldl jasminStep start).fdc.heap)) := by
  intro hall
  have hstart : JasminStart jasminTwoSectors := ⟨_, true, .fast, rfl⟩
  have hmedia : JasminSameMedia
      ((jasminReading 1 ++ [JasminOp.write 0x03F6 2]).foldl jasminStep jasminTwoSectors)
      ((jasminReading 1 ++ [JasminOp.write 0x03F6 2]).foldl jasminStep jasminTwoSectors) := by
    constructor <;> decide
  have hrestored := hall jasminTwoSectors jasminTwoSectors _ _ hstart hstart hmedia
  have hanswers := hrestored.answers [.read 0x03F7]
  exact absurd (congrArg (List.map JasminAnswer.byte) hanswers) (by decide)

end Phosphoric
