import Phosphoric.Fdc.Aims
import Phosphoric.Loci.Drives

/-!
# The LOCI's WD1793 works on the selected drive

**Coherence** (`LociDskCoherent`). The image of the WD1793 is the selected drive's, no image there
is no image here, and the WD1793 holds no pointer into a freed image.

**Safe steps** (`LociDskSafe`). A mount or an unmount frees the image of its drive at once, and the
WD1793 is pointed elsewhere only later, and only when the drive is selected and the mount succeeds.
So a mount of the selected drive must succeed once the old image is gone, and no image may go while
the sector pointer of the last lookup is in it. A web mount that fails after the old image is gone
also leaves its size behind, which the drive shows when it is selected.

**Theorem (`lociDsk_coherent_iff`).** A run from `lociDskInit` is coherent after every step exactly
when every step is safe.
-/

open Function (update update_self update_of_ne)

namespace Phosphoric

open Machine
open Buffers (Owns)

/-! ## Coherence -/

/-- The buffer the sector pointer points into. -/
def Fdc.sectorBuf (fdc : Fdc) : Option Nat := fdc.curSectorData.map Ptr.buf

structure LociDskCoherent (loci : LociDsk) : Prop where
  diskData : loci.fdc.diskData = loci.image loci.selected
  diskSize : loci.fdc.diskSize = loci.imageSize loci.selected
  absent : loci.image loci.selected = none → loci.fdc.diskSize = 0
  dataLive : ∀ b, loci.fdc.diskData = some b → loci.buffers.Live b
  sectorLive : ∀ b, loci.fdc.sectorBuf = some b → loci.buffers.Live b

/-- The old image of the drive can go: the sector pointer is not in it, and the mount succeeds if
the WD1793 works on it. -/
def LociDsk.CanReplace (loci : LociDsk) (d : Fin 4) (succeeds : Prop) : Prop :=
  ∀ b, loci.image d = some b → loci.fdc.sectorBuf ≠ some b ∧ (d = loci.selected → succeeds)

/-- The file can be loaded. -/
def DskHost.Loads (host : DskHost) : Prop := host.sedoric.isSome ∨ host.plain.isSome

def LociDskSafe (loci : LociDsk) : LociDskOp → Prop
  | .mount drive host => ∀ d, lociDrive drive = some d → loci.CanReplace d host.Loads
  | .mountWeb drive host => ∀ d, lociDrive drive = some d → host.isDisk = true →
      loci.CanReplace d (host.calloc = true)
  | .umount drive => ∀ d, lociDrive drive = some d → loci.CanReplace d True
  | .write address value => loci.enabled = true → address = 0x0314#16 →
      lociCtrlDrive value ≠ loci.selected → loci.image (lociCtrlDrive value) = none →
        loci.imageSize (lociCtrlDrive value) = 0
  | _ => True

/-- The invariant of every run: the drives own their images. -/
def LociDskOwns (loci : LociDsk) : Prop := Owns loci.buffers loci.image

/-! ## Calls of the WD1793 -/

/-- What a call of the WD1793, or an access elsewhere, keeps. -/
structure LociDskCalled (loci loci' : LociDsk) : Prop where
  selected : loci'.selected = loci.selected
  image : loci'.image = loci.image
  imageSize : loci'.imageSize = loci.imageSize
  buffers : loci'.buffers = loci.buffers
  aims : FdcAims loci.fdc loci'.fdc

theorem LociDskCalled.refl (loci : LociDsk) : LociDskCalled loci loci :=
  ⟨rfl, rfl, rfl, rfl, .refl loci.fdc⟩

theorem LociDskCalled.owns {loci loci' : LociDsk} (h : LociDskCalled loci loci')
    (howns : LociDskOwns loci) : LociDskOwns loci' := by
  unfold LociDskOwns
  rw [h.buffers, h.image]
  exact howns

theorem LociDskCalled.coherent {loci loci' : LociDsk} (h : LociDskCalled loci loci')
    (hc : LociDskCoherent loci) : LociDskCoherent loci' where
  diskData := by rw [h.aims.diskData, h.image, h.selected, hc.diskData]
  diskSize := by rw [h.aims.diskSize, h.imageSize, h.selected, hc.diskSize]
  absent hnone := by
    rw [h.aims.diskSize]
    exact hc.absent (by rw [← h.image, ← h.selected, hnone])
  dataLive b hb := by
    rw [h.buffers]
    exact hc.dataLive b (h.aims.diskData ▸ hb)
  sectorLive b hb := by
    rw [h.buffers]
    obtain ⟨p, hp, hpb⟩ := Option.map_eq_some_iff.mp hb
    obtain hkept | hfound := h.aims.curSectorData p hp
    · exact hc.sectorLive b (by rw [Fdc.sectorBuf, hkept, Option.map_some, hpb])
    · exact hc.dataLive b (hpb ▸ hfound)

theorem lociFdcSignal_called {base loci : LociDsk} (h : LociDskCalled base loci) (s : FdcSignal) :
    LociDskCalled base (lociFdcSignal loci s) := by
  cases s with
  | setDrq => exact { h with }
  | clrDrq => exact { h with }
  | setIntrq =>
    simp only [lociFdcSignal, LociDsk.busCall]
    split_ifs
    · exact { h with }
    · exact { h with }
    · exact { h with }
  | clrIntrq =>
    simp only [lociFdcSignal, LociDsk.busCall]
    split_ifs
    · exact { h with }
    · exact { h with }

theorem lociWithFdc_called (loci : LociDsk) {fdc : Fdc} (h : FdcAims loci.fdc fdc) :
    LociDskCalled loci (loci.withFdc fdc) := by
  have hstart : LociDskCalled loci { loci with fdc := { fdc with signals := [] } } :=
    ⟨rfl, rfl, rfl, rfl, { h with }⟩
  unfold LociDsk.withFdc
  generalize { loci with fdc := { fdc with signals := [] } } = loci' at hstart
  induction fdc.signals.reverse generalizing loci' with
  | nil => exact hstart
  | cons s signals ih => exact ih _ (lociFdcSignal_called hstart s)

/-! ## An image that goes, an image that comes -/

/-- The image of a drive has gone. -/
structure LociDskReleased (d : Fin 4) (loci loci' : LociDsk) : Prop where
  selected : loci'.selected = loci.selected
  fdc : loci'.fdc = loci.fdc
  image : loci'.image = update loci.image d none
  imageSize : ∀ j, j ≠ d → loci'.imageSize j = loci.imageSize j
  owns : LociDskOwns loci'
  count : loci'.buffers.count = loci.buffers.count
  live : ∀ b, loci.buffers.Live b → (loci'.buffers.Live b ↔ loci.image d ≠ some b)

/-- `lociDskFree` releases the image; so does `lociDskDiscard`. -/
theorem lociDskFree_released {loci : LociDsk} (howns : LociDskOwns loci) (d : Fin 4) :
    LociDskReleased d loci (lociDskFree loci d) := by
  unfold lociDskFree
  cases himage : loci.image d with
  | none =>
    have hsame : update loci.image d none = loci.image := by
      rw [← himage, Function.update_eq_self]
    exact ⟨rfl, rfl, hsame.symm, fun _ _ => rfl, howns, rfl, fun b hb => by simp [himage, hb]⟩
  | some b =>
    refine ⟨rfl, rfl, rfl, fun _ _ => rfl, howns.free himage, Buffers.count_free b, fun c hc => ?_⟩
    rw [himage, ne_eq, Option.some.injEq]
    constructor
    · rintro hlive rfl
      exact Buffers.not_live_free (howns.live himage) hlive
    · intro hne
      exact hc.free fun hcb => hne hcb.symm

theorem lociDskDiscard_released {loci : LociDsk} (howns : LociDskOwns loci) (d : Fin 4) :
    LociDskReleased d loci (lociDskDiscard loci d) := by
  have hfree := lociDskFree_released howns d
  unfold lociDskDiscard
  cases himage : loci.image d with
  | none =>
    unfold lociDskFree at hfree
    simpa only [himage] using hfree
  | some b => exact { hfree with imageSize := fun j hj => update_of_ne hj _ _ }

/-- With the old image gone, the sector pointer points into what is left unless it was in it. -/
theorem sectorLive_iff {d : Fin 4} {loci loci' : LociDsk} (hc : LociDskCoherent loci)
    (hsector : loci'.fdc.sectorBuf = loci.fdc.sectorBuf)
    (hlive : ∀ b, loci.buffers.Live b → (loci'.buffers.Live b ↔ loci.image d ≠ some b)) :
    (∀ b, loci'.fdc.sectorBuf = some b → loci'.buffers.Live b) ↔
      ∀ b, loci.image d = some b → loci.fdc.sectorBuf ≠ some b := by
  rw [hsector]
  constructor
  · intro hall b hb hin
    exact (hlive b (hc.sectorLive b hin)).mp (hall b hin) hb
  · intro hfar b hin
    exact (hlive b (hc.sectorLive b hin)).mpr fun hb => hfar b hb hin

theorem LociDskReleased.sectorLive {d : Fin 4} {loci loci' : LociDsk}
    (h : LociDskReleased d loci loci') (hc : LociDskCoherent loci) :
    (∀ b, loci'.fdc.sectorBuf = some b → loci'.buffers.Live b) ↔
      ∀ b, loci.image d = some b → loci.fdc.sectorBuf ≠ some b :=
  sectorLive_iff hc (by rw [h.fdc]) h.live

/-- An image of another drive than the selected one goes. -/
theorem LociDskReleased.coherent_of_ne {d : Fin 4} {loci loci' : LociDsk}
    (h : LociDskReleased d loci loci') (howns : LociDskOwns loci) (hc : LociDskCoherent loci)
    (hne : d ≠ loci.selected) :
    LociDskCoherent loci' ↔ ∀ b, loci.image d = some b → loci.fdc.sectorBuf ≠ some b := by
  rw [← h.sectorLive hc]
  constructor
  · exact LociDskCoherent.sectorLive
  · intro hlive
    have himage : loci'.image loci'.selected = loci.image loci.selected := by
      rw [h.image, h.selected, update_of_ne hne.symm]
    refine ⟨?_, ?_, ?_, ?_, hlive⟩
    · rw [h.fdc, himage, hc.diskData]
    · rw [h.fdc, h.selected, h.imageSize _ hne.symm, hc.diskSize]
    · rw [h.fdc, himage]
      exact hc.absent
    · intro b hb
      rw [h.fdc, hc.diskData] at hb
      refine (h.live b (howns.live hb)).mpr fun hd => ?_
      exact hne (howns.unique hd hb)

/-- The selected drive's image goes, and the WD1793 is not told. -/
theorem LociDskReleased.coherent_of_selected {d : Fin 4} {loci loci' : LociDsk}
    (h : LociDskReleased d loci loci') (hc : LociDskCoherent loci) (hd : d = loci.selected)
    (hsize : loci.image d = none → loci'.imageSize d = loci.imageSize d) :
    LociDskCoherent loci' ↔ loci.image d = none := by
  subst hd
  have hgone : loci'.image loci'.selected = none := by rw [h.image, h.selected, update_self]
  constructor
  · intro hc'
    rw [← hc.diskData, ← h.fdc, hc'.diskData, hgone]
  · intro hnone
    have hdata : loci'.fdc.diskData = none := by rw [h.fdc, hc.diskData, hnone]
    refine ⟨by rw [hdata, hgone], ?_, fun _ => ?_, ?_, ?_⟩
    · rw [h.fdc, h.selected, hsize hnone, hc.diskSize]
    · rw [h.fdc]
      exact hc.absent hnone
    · intro b hb
      rw [hdata] at hb
      cases hb
    · rw [h.sectorLive hc, hnone]
      exact fun b hb => nomatch hb

/-- A new image is in the drive, and the WD1793 is not told yet. -/
structure LociDskFilled (d : Fin 4) (loci loci' : LociDsk) : Prop where
  selected : loci'.selected = loci.selected
  diskData : loci'.fdc.diskData = loci.fdc.diskData
  diskSize : loci'.fdc.diskSize = loci.fdc.diskSize
  curSectorData : loci'.fdc.curSectorData = loci.fdc.curSectorData
  image : ∃ b, loci'.image = update loci.image d (some b)
  imageSize : ∀ j, j ≠ d → loci'.imageSize j = loci.imageSize j
  owns : LociDskOwns loci'
  live : ∀ b, loci.buffers.Live b → (loci'.buffers.Live b ↔ loci.image d ≠ some b)

theorem LociDskReleased.allocate {d : Fin 4} {loci loci' : LociDsk}
    (h : LociDskReleased d loci loci') (data : List Byte) (size : Nat) :
    LociDskFilled d loci (loci'.allocate d data size) where
  selected := h.selected
  diskData := by rw [← h.fdc]; rfl
  diskSize := by rw [← h.fdc]; rfl
  curSectorData := by rw [← h.fdc]; rfl
  image := ⟨loci'.buffers.malloc.1, by
    change update loci'.image d (some loci'.buffers.malloc.1) = _
    rw [h.image, Function.update_idem]⟩
  imageSize j hj := (update_of_ne hj _ _).trans (h.imageSize j hj)
  owns := h.owns.malloc
  live b hb := by
    have hold : b < loci'.buffers.count := h.count ▸ hb.1
    exact (Buffers.live_malloc_iff hold).trans (h.live b hb)

theorem LociDskFilled.geometry {d : Fin 4} {loci loci' : LociDsk} (h : LociDskFilled d loci loci')
    (tracks sectors : Fin 4 → Byte) (web : Fin 4 → Bool) :
    LociDskFilled d loci { loci' with tracks := tracks, sectors := sectors, web := web } :=
  { h with }

/-- A mount ends with the WD1793 on the selected drive's image. -/
theorem LociDskFilled.coherent {d : Fin 4} {loci loci' : LociDsk} (h : LociDskFilled d loci loci')
    (hc : LociDskCoherent loci) :
    LociDskCoherent (lociDskMounted loci' d) ↔
      ∀ b, loci.image d = some b → loci.fdc.sectorBuf ≠ some b := by
  have hsector : loci'.fdc.sectorBuf = loci.fdc.sectorBuf := by
    rw [Fdc.sectorBuf, h.curSectorData, Fdc.sectorBuf]
  rw [← sectorLive_iff hc hsector h.live]
  obtain ⟨b, himage⟩ := h.image
  unfold lociDskMounted
  dsimp only
  by_cases hsel : loci'.selected = d
  · rw [if_pos hsel]
    have hb : loci'.image loci'.selected = some b := by rw [himage, hsel, update_self]
    constructor
    · exact LociDskCoherent.sectorLive
    · intro hlive
      refine ⟨rfl, rfl, fun hnone => ?_, fun c hdata => ?_, hlive⟩
      · exact absurd (hb.symm.trans hnone) (by simp)
      · exact h.owns.live hdata
  · rw [if_neg hsel]
    have hne : loci.selected ≠ d := h.selected ▸ hsel
    have hsame : loci'.image loci'.selected = loci.image loci.selected := by
      rw [himage, h.selected, update_of_ne hne]
    constructor
    · exact LociDskCoherent.sectorLive
    · intro hlive
      refine ⟨?_, ?_, ?_, ?_, hlive⟩
      · exact h.diskData.trans (hc.diskData.trans hsame.symm)
      · change loci'.fdc.diskSize = loci'.imageSize loci'.selected
        rw [h.diskSize, h.selected, h.imageSize _ hne, hc.diskSize]
      · intro hnone
        exact h.diskSize.trans (hc.absent (hsame.symm.trans hnone))
      · intro c hdata
        exact h.owns.live (hsame.trans (hc.diskData.symm.trans (h.diskData.symm.trans hdata)))

theorem lociDskMounted_owns {loci : LociDsk} (h : LociDskOwns loci) (d : Fin 4) :
    LociDskOwns (lociDskMounted loci d) := by
  unfold lociDskMounted lociApplyDskSelection
  dsimp only
  split_ifs
  · exact h
  · exact h

/-! ## Operations -/

/-- What is shown of each operation: the drives own their images after it, and coherence after it
is `ok` before it. -/
structure LociDskSpec (loci' : LociDsk) (ok : Prop) : Prop where
  owns : LociDskOwns loci'
  coherent : LociDskCoherent loci' ↔ ok

theorem LociDskCalled.spec {loci loci' : LociDsk} (h : LociDskCalled loci loci')
    (howns : LociDskOwns loci) (hc : LociDskCoherent loci) : LociDskSpec loci' True :=
  ⟨h.owns howns, iff_true_intro (h.coherent hc)⟩

theorem LociDskFilled.spec {d : Fin 4} {loci loci' : LociDsk} (h : LociDskFilled d loci loci')
    (hc : LociDskCoherent loci) {succeeds : Prop} (hs : succeeds) :
    LociDskSpec (lociDskMounted loci' d) (loci.CanReplace d succeeds) := by
  refine ⟨lociDskMounted_owns h.owns d, (h.coherent hc).trans ?_⟩
  simp [LociDsk.CanReplace, hs]

theorem LociDskReleased.spec {d : Fin 4} {loci loci' : LociDsk} (h : LociDskReleased d loci loci')
    (howns : LociDskOwns loci) (hc : LociDskCoherent loci)
    (hsize : loci.image d = none → loci'.imageSize d = loci.imageSize d) {succeeds : Prop}
    (hs : ¬succeeds) : LociDskSpec loci' (loci.CanReplace d succeeds) := by
  refine ⟨h.owns, ?_⟩
  by_cases hd : d = loci.selected
  · rw [h.coherent_of_selected hc hd hsize]
    unfold LociDsk.CanReplace
    cases loci.image d with
    | none => simp
    | some b => simp [hd, hs]
  · rw [h.coherent_of_ne howns hc hd]
    simp [LociDsk.CanReplace, hd]

theorem lociDskOpen_spec {loci : LociDsk} (howns : LociDskOwns loci) (hc : LociDskCoherent loci)
    (drive : Byte) (host : DskHost) :
    LociDskSpec (lociDskOpen loci drive host).2 (LociDskSafe loci (.mount drive host)) := by
  simp only [lociDskOpen, LociDskSafe]
  cases hdrive : lociDrive drive with
  | none => simpa using (LociDskCalled.refl loci).spec howns hc
  | some d =>
    have hgone : LociDskReleased d loci
        { lociDskDiscard loci d with web := update (lociDskDiscard loci d).web d false } :=
      { lociDskDiscard_released howns d with }
    simp only [Option.some.injEq, forall_eq']
    cases hsedoric : host.sedoric with
    | some raw =>
      have hloads : host.Loads := .inl (by simp [hsedoric])
      have hfilled := hgone.allocate (sedoricLoad raw).data (sedoricLoad raw).size
      exact (hfilled.geometry _ _ _).spec hc hloads
    | none =>
      cases hplain : host.plain with
      | some raw =>
        have hloads : host.Loads := .inr (by simp [hplain])
        exact (hgone.allocate raw raw.length).spec hc hloads
      | none =>
        have hfails : ¬host.Loads := by simp [DskHost.Loads, hsedoric, hplain]
        refine hgone.spec howns hc (fun hnone => ?_) hfails
        simp only [lociDskDiscard, hnone]

theorem lociDskOpenWeb_spec {loci : LociDsk} (howns : LociDskOwns loci)
    (hc : LociDskCoherent loci) (drive : Byte) (host : DskWebHost) :
    LociDskSpec (lociDskOpenWeb loci drive host).2 (LociDskSafe loci (.mountWeb drive host)) := by
  simp only [lociDskOpenWeb, LociDskSafe]
  cases hdrive : lociDrive drive with
  | none => simpa using (LociDskCalled.refl loci).spec howns hc
  | some d =>
    have hgone := lociDskFree_released howns d
    simp only [Option.some.injEq, forall_eq']
    cases hdisk : host.isDisk with
    | false => simpa using (LociDskCalled.refl loci).spec howns hc
    | true =>
      cases hcalloc : host.calloc with
      | false =>
        have hspec := hgone.spec howns hc (fun hnone => by simp only [lociDskFree, hnone])
          Bool.false_ne_true
        simpa using hspec
      | true =>
        have hfilled := hgone.allocate
          (List.replicate (host.sides * host.tracks * 17 * 256) 0#8)
          (host.sides * host.tracks * 17 * 256)
        simp only [Bool.not_true, Bool.false_eq_true, if_false, forall_const]
        exact (hfilled.geometry _ _ _).spec hc trivial

theorem lociDskClose_spec {loci : LociDsk} (howns : LociDskOwns loci) (hc : LociDskCoherent loci)
    (drive : Byte) :
    LociDskSpec (lociDskClose loci drive) (LociDskSafe loci (.umount drive)) := by
  simp only [lociDskClose, LociDskSafe]
  cases hdrive : lociDrive drive with
  | none => simpa using (LociDskCalled.refl loci).spec howns hc
  | some d =>
    have hgone := lociDskDiscard_released howns d
    have hfar : loci.CanReplace d True ↔
        ∀ b, loci.image d = some b → loci.fdc.sectorBuf ≠ some b := by
      simp [LociDsk.CanReplace]
    simp only [Option.some.injEq, forall_eq']
    rw [hfar]
    by_cases hd : loci.selected = d
    · have hsel : (lociDskDiscard loci d).selected = d := hgone.selected.trans hd
      rw [if_pos hsel]
      have hnone : (lociDskDiscard loci d).image d = none := by rw [hgone.image, update_self]
      have hsize : (lociDskDiscard loci d).imageSize d = 0 := by
        unfold lociDskDiscard
        cases himage : loci.image d with
        | none =>
          have hempty := hc.absent (hd ▸ himage)
          rw [hc.diskSize, hd] at hempty
          exact hempty
        | some b => exact update_self _ _ _
      refine ⟨hgone.owns, ?_⟩
      rw [← hgone.sectorLive hc]
      constructor
      · exact LociDskCoherent.sectorLive
      · intro hlive
        refine ⟨?_, ?_, fun _ => rfl, (fun _ hb => nomatch hb), hlive⟩
        · change none = (lociDskDiscard loci d).image (lociDskDiscard loci d).selected
          rw [hsel, hnone]
        · change 0 = (lociDskDiscard loci d).imageSize (lociDskDiscard loci d).selected
          rw [hsel, hsize]
    · have hsel : (lociDskDiscard loci d).selected ≠ d := hgone.selected ▸ hd
      rw [if_neg hsel]
      refine ⟨hgone.owns, ?_⟩
      have hgone' : LociDskReleased d loci { lociDskDiscard loci d with
          web := update (lociDskDiscard loci d).web d false
          badMap := update (lociDskDiscard loci d).badMap d .empty } := { hgone with }
      exact hgone'.coherent_of_ne howns hc fun h => hd h.symm

theorem lociDskRead_called (loci : LociDsk) (address : Word) :
    LociDskCalled loci (lociDskRead loci address).2 := by
  have hread : ∀ reg, LociDskCalled loci (loci.withFdc (fdcRead loci.fdc reg).2) :=
    fun reg => lociWithFdc_called loci (fdcAccess_aims loci.fdc (.read reg))
  unfold lociDskRead
  split_ifs
  · exact .refl loci
  · exact hread 0
  · exact hread _
  · exact .refl loci
  · exact .refl loci
  · exact .refl loci
  · exact .refl loci
  · exact .refl loci
  · exact .refl loci

theorem lociDskServe_called (loci : LociDsk) (contents : Nat → Byte) :
    LociDskCalled loci (lociDskServe loci contents) := by
  unfold lociDskServe
  split_ifs
  · split
    · exact ⟨rfl, rfl, rfl, rfl, { FdcAims.refl loci.fdc with }⟩
    · exact .refl loci
  · exact .refl loci

theorem lociAddBadSector_called (loci : LociDsk) (drive side track sector : Byte) :
    LociDskCalled loci (lociAddBadSector loci drive side track sector).2 := by
  unfold lociAddBadSector
  split
  · exact .refl loci
  · split
    · exact .refl loci
    · dsimp only
      split_ifs
      · exact ⟨rfl, rfl, rfl, rfl, { FdcAims.refl loci.fdc with }⟩
      · exact { LociDskCalled.refl loci with }

/-- A drive selected is the drive the WD1793 works on. -/
theorem lociApplyDskSelection_spec {loci : LociDsk} (howns : LociDskOwns loci)
    (hsector : ∀ b, loci.fdc.sectorBuf = some b → loci.buffers.Live b) :
    LociDskSpec (lociApplyDskSelection loci)
      (loci.image loci.selected = none → loci.imageSize loci.selected = 0) := by
  refine ⟨howns, LociDskCoherent.absent, fun habsent => ?_⟩
  exact ⟨rfl, rfl, habsent, fun b hb => howns.live hb, hsector⟩

theorem lociBusCall_spec {loci : LociDsk} {ok : Prop} (h : LociDskSpec loci ok)
    (call : LociBusCall) : LociDskSpec (loci.busCall call) ok := by
  unfold LociDsk.busCall
  split_ifs
  · refine ⟨h.owns, ?_⟩
    rw [← h.coherent]
    exact ⟨fun hc => { hc with }, fun hc => { hc with }⟩
  · exact h

theorem lociDskControl_spec {loci : LociDsk} (howns : LociDskOwns loci)
    (hc : LociDskCoherent loci) (value : Byte) :
    LociDskSpec (lociDskControl loci value)
      (lociCtrlDrive value ≠ loci.selected → loci.image (lociCtrlDrive value) = none →
        loci.imageSize (lociCtrlDrive value) = 0) := by
  refine lociBusCall_spec (lociBusCall_spec ?_ _) _
  dsimp only
  by_cases hsel : lociCtrlDrive value = loci.selected
  · rw [if_neg (not_not.mpr hsel)]
    have hkept : LociDskCalled loci { loci with
        ctrl := value
        intena := value &&& 0x01#8 != 0#8
        fdc := { loci.fdc with side := if value &&& 0x10#8 != 0#8 then 1#8 else 0#8 } } :=
      ⟨rfl, rfl, rfl, rfl, { FdcAims.refl loci.fdc with }⟩
    simpa [hsel] using hkept.spec howns hc
  · rw [if_pos hsel]
    simp only [ne_eq, hsel, not_false_eq_true, forall_const]
    exact lociApplyDskSelection_spec howns hc.sectorLive

theorem lociDskWrite_spec {loci : LociDsk} (howns : LociDskOwns loci) (hc : LociDskCoherent loci)
    (address : Word) (value : Byte) :
    LociDskSpec (lociDskWrite loci address value) (LociDskSafe loci (.write address value)) := by
  have hother : ∀ {loci' : LociDsk}, LociDskCalled loci loci' → address ≠ 0x0314#16 →
      LociDskSpec loci' (LociDskSafe loci (.write address value)) := by
    intro loci' hcalled haddr
    simpa [LociDskSafe, haddr] using hcalled.spec howns hc
  unfold lociDskWrite
  split_ifs with hoff hfdc hctrl hdrq hspare0 hspare1
  · have hdisabled : loci.enabled ≠ true := by simpa using hoff
    simpa [LociDskSafe, hdisabled] using (LociDskCalled.refl loci).spec howns hc
  · refine hother (lociWithFdc_called loci (fdcAccess_aims loci.fdc (.write _ value))) ?_
    rintro rfl
    exact absurd hfdc (by decide)
  · subst hctrl
    have henabled : loci.enabled = true := by simpa using hoff
    simpa [LociDskSafe, henabled] using lociDskControl_spec howns hc value
  · exact hother { LociDskCalled.refl loci with } hctrl
  · exact hother { LociDskCalled.refl loci with } hctrl
  · exact hother { LociDskCalled.refl loci with } hctrl
  · exact hother (.refl loci) hctrl

/-- One step: coherence after it is safety before it. -/
theorem lociDskStep_spec {loci : LociDsk} (howns : LociDskOwns loci) (hc : LociDskCoherent loci)
    (op : LociDskOp) : LociDskSpec (lociDskStep loci op) (LociDskSafe loci op) := by
  cases op with
  | write address value => exact lociDskWrite_spec howns hc address value
  | read address => exact (lociDskRead_called loci address).spec howns hc
  | ticktock cycles =>
    exact (lociWithFdc_called loci (fdcAccess_aims loci.fdc (.ticktock cycles))).spec howns hc
  | mount drive host => exact lociDskOpen_spec howns hc drive host
  | mountWeb drive host => exact lociDskOpenWeb_spec howns hc drive host
  | serve contents => exact (lociDskServe_called loci contents).spec howns hc
  | umount drive => exact lociDskClose_spec howns hc drive
  | addBadSector drive side track sector =>
    exact (lociAddBadSector_called loci drive side track sector).spec howns hc

/-! ## Runs -/

/-- A run from `loci_init` is coherent after every step exactly when every step is safe. -/
theorem lociDsk_coherent_iff (heap : Heap Ptr Byte) (enabled wired : Bool)
    (ops : List LociDskOp) :
    Throughout lociDskStep (fun loci op => LociDskCoherent (lociDskStep loci op)) ops
        (lociDskInit heap enabled wired) ↔
      Throughout lociDskStep LociDskSafe ops (lociDskInit heap enabled wired) := by
  have howns : LociDskOwns (lociDskInit heap enabled wired) :=
    ⟨(fun h => nomatch h), fun h => nomatch h⟩
  have hc : LociDskCoherent (lociDskInit heap enabled wired) :=
    ⟨rfl, rfl, fun _ => rfl, (fun _ hb => nomatch hb), fun _ hb => nomatch hb⟩
  have hstep : ∀ loci op, LociDskOwns loci → LociDskCoherent loci →
      LociDskOwns (lociDskStep loci op) :=
    fun _ op howns hc => (lociDskStep_spec howns hc op).owns
  have hnext : ∀ loci op, LociDskOwns loci → LociDskCoherent loci →
      (LociDskCoherent (lociDskStep loci op) ↔ LociDskSafe loci op) :=
    fun _ op howns hc => (lociDskStep_spec howns hc op).coherent
  exact Throughout.next_iff hstep hnext ops howns hc

/-- A host with a file of one byte, and one without the file. -/
def dskHostByte : DskHost := ⟨some [0xE5#8], none, true, []⟩
def dskHostMissing : DskHost := ⟨none, none, true, []⟩

/-- Drive 0 is mounted, and then a missing file is: the WD1793 keeps the freed image. -/
theorem lociDsk_failedRemount :
    let loci := [.mount 0#8 dskHostByte, .mount 0#8 dskHostMissing].foldl lociDskStep
      (lociDskInit ⟨fun _ => 0#8, []⟩ true true)
    loci.image loci.selected = none ∧ loci.fdc.diskData = some 0 ∧ ¬loci.buffers.Live 0 ∧
      ¬LociDskCoherent loci := by
  intro loci
  have hgone : loci.image loci.selected = none := by decide
  have hkept : loci.fdc.diskData = some 0 := by decide
  refine ⟨hgone, hkept, by decide, fun h => ?_⟩
  have hdata := h.diskData
  rw [hgone, hkept] at hdata
  cases hdata

end Phosphoric
