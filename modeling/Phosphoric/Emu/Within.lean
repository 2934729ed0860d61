import Phosphoric.Emu.Sections

/-!
# Sections of a savestate read alone

`utils/binio.h`: the caller checks the section size before reading. The readers of the sections do
so only for the fields that some versions lack, and of the cards most.

**Theorem (`loadKind_own_iff`).** In front of another section, a section is read as if alone exactly
if it has all the bytes that its reader takes (`OstFits`).
-/

namespace Phosphoric

open Binary

variable {σ : Type}

/-! ## What a section must hold -/

/-- A bad-sector map: a count and its entries. -/
def mapSize (data : List Byte) : Nat := 1 + 3 * min (readU8 data).1.toNat 16

def MapsFit : Nat → List Byte → Prop
  | 0, _ => True
  | n + 1, data => mapSize data ≤ data.length ∧ MapsFit n (data.drop (mapSize data))

/-- A disk image: drive, size, geometry and bytes. -/
def imageSize (data : List Byte) : Nat := 8 + (readU32le (data.drop 1)).1.toNat

def ImagesFit : Nat → List Byte → Prop
  | 0, _ => True
  | n + 1, data => imageSize data ≤ data.length ∧ ImagesFit n (data.drop (imageSize data))

/-- The fixed part of a Jasmin is checked, the maps are not. -/
def JasFits (size : Nat) (data : List Byte) : Prop :=
  1 + fdcStateSizeV2 + 7 + 4 ≤ size → 1 ≤ data.length ∧
    ∀ fdcSize, jasminFdcSize (readU8 data).1 = some fdcSize → 1 + fdcSize + 7 + 4 ≤ size →
      fdcSize + 8 ≤ data.length ∧ MapsFit 4 (data.drop (fdcSize + 8))

/-- The section has all the bytes that its reader takes. -/
def OstFits : OstKind → List Byte → Prop
  | .cpu, data => 16 ≤ data.length
  | .mem, data => 65540 ≤ data.length
  | .via, data => 23 ≤ data.length
  | .psg, data => 63 ≤ data.length
  | .vid, data => 2 ≤ data.length
  | .kbd, data => 8 ≤ data.length
  | .fdc, data => 31 ≤ data.length
  | .mdc, data => 8 ≤ data.length
  | .dsk, data => 1 ≤ data.length ∧ ImagesFit (readU8 data).1.toNat (data.drop 1)
  | .bad, data => MapsFit 4 data
  | .tap, data => 13 ≤ data.length
  | .ser, data => 20 ≤ data.length
  | .clk, data => 12 ≤ data.length
  | .jas, data => JasFits data.length data
  | _, _ => True

instance decidableMapsFit : (n : Nat) → (data : List Byte) → Decidable (MapsFit n data)
  | 0, _ => isTrue trivial
  | n + 1, data => @instDecidableAnd _ _ _ (decidableMapsFit n (data.drop (mapSize data)))

instance decidableImagesFit : (n : Nat) → (data : List Byte) → Decidable (ImagesFit n data)
  | 0, _ => isTrue trivial
  | n + 1, data => @instDecidableAnd _ _ _ (decidableImagesFit n (data.drop (imageSize data)))

instance (size : Nat) (data : List Byte) : Decidable (JasFits size data) :=
  inferInstanceAs (Decidable (_ ≤ _ → _ ≤ _ ∧ ∀ fdcSize ∈ jasminFdcSize (readU8 data).1, _ ≤ _ →
    _ ≤ _ ∧ MapsFit _ _))

instance (kind : OstKind) (data : List Byte) : Decidable (OstFits kind data) :=
  match kind with
  | .cpu | .mem | .via | .psg | .vid | .kbd | .fdc | .mdc | .tap | .ser | .clk =>
    inferInstanceAs (Decidable (_ ≤ _))
  | .dsk => inferInstanceAs (Decidable (_ ∧ ImagesFit _ _))
  | .bad => inferInstanceAs (Decidable (MapsFit _ _))
  | .jas => inferInstanceAs (Decidable (JasFits _ _))
  | .info | .spo | .mag | .ung | .mea | .dtl | .unknown => isTrue trivial

/-! ## Sizes of the records -/

instance (cpu : Cpu6502) (size : Nat) :
    Takes (savestateLoadCpu cpu size) (if size ≥ 18 then 18 else 16) := by
  unfold savestateLoadCpu
  exact Takes.cast inferInstance (by split_ifs <;> rfl)

instance (via : ViaSys σ) : Takes (savestateLoadViaRegisters via) 23 := by
  unfold savestateLoadViaRegisters
  exact Takes.cast inferInstance rfl

instance (via : ViaSys σ) (size : Nat) :
    Takes (savestateLoadViaCycle via size) (if size ≥ 35 then 12 else 0) := by
  unfold savestateLoadViaCycle
  infer_instance

instance (via : ViaSys σ) (size : Nat) :
    Takes (savestateLoadViaShift via size) (if size ≥ 40 then 5 else 0) := by
  unfold savestateLoadViaShift
  infer_instance

instance (via : ViaSys σ) (size : Nat) : Takes (savestateLoadVia via size)
    (23 + ((if size ≥ 35 then 12 else 0) + if size ≥ 40 then 5 else 0)) := by
  unfold savestateLoadVia
  infer_instance

set_option synthInstance.maxSize 400 in
instance (fdc : Fdc) : Takes (fdcStateLoadRegisters fdc) 31 := by
  unfold fdcStateLoadRegisters
  exact Takes.cast inferInstance rfl

instance (fdc : Fdc) (size : Nat) :
    Takes (fdcStateLoadTiming fdc size) (if size ≥ fdcStateSizeV1 then 5 else 0) := by
  unfold fdcStateLoadTiming
  infer_instance

instance (fdc : Fdc) (size : Nat) :
    Takes (fdcStateLoadFormat fdc size) (if size ≥ fdcStateSizeV2 then 13 else 0) := by
  unfold fdcStateLoadFormat
  infer_instance

instance (fdc : Fdc) (size : Nat) :
    Takes (fdcStateLoadStream fdc size) (if size ≥ fdcStateSize then 6 else 0) := by
  unfold fdcStateLoadStream
  infer_instance

instance (fdc : Fdc) (size : Nat) : Takes (fdcStateLoad fdc size)
    (31 + ((if size ≥ fdcStateSizeV1 then 5 else 0) +
      ((if size ≥ fdcStateSizeV2 then 13 else 0) + if size ≥ fdcStateSize then 6 else 0))) := by
  unfold fdcStateLoad
  infer_instance

instance (emu : OstEmulator σ) (size : Nat) :
    Takes (emu.loadCpu size) (if size ≥ 18 then 18 else 16) := by
  unfold OstEmulator.loadCpu
  infer_instance

instance (emu : OstEmulator σ) (size : Nat) : Takes (emu.loadVia size)
    (23 + ((if size ≥ 35 then 12 else 0) + if size ≥ 40 then 5 else 0)) := by
  unfold OstEmulator.loadVia
  infer_instance

instance (emu : OstEmulator σ) (size : Nat) : Takes (emu.loadFdc size)
    (31 + ((if size ≥ fdcStateSizeV1 then 5 else 0) +
      ((if size ≥ fdcStateSizeV2 then 13 else 0) + if size ≥ fdcStateSize then 6 else 0))) := by
  unfold OstEmulator.loadFdc
  infer_instance

instance (emu : OstEmulator σ) : Takes emu.loadMem 65540 := by
  unfold OstEmulator.loadMem
  exact Takes.cast inferInstance rfl

instance (emu : OstEmulator σ) : Takes emu.loadPsgFields 63 := by
  unfold OstEmulator.loadPsgFields
  exact Takes.cast inferInstance rfl

instance (emu : OstEmulator σ) (size : Nat) :
    Takes (emu.loadPsg size) (63 + if size ≥ 71 then 8 else 0) := by
  unfold OstEmulator.loadPsg
  exact Takes.cast inferInstance (by split_ifs <;> rfl)

instance (emu : OstEmulator σ) (size : Nat) :
    Takes (emu.loadVid size) (2 + if size ≥ 3 then 1 else 0) := by
  unfold OstEmulator.loadVid
  exact Takes.cast inferInstance (by split_ifs <;> rfl)

instance (emu : OstEmulator σ) : Takes emu.loadKbd 8 := by
  unfold OstEmulator.loadKbd
  infer_instance

instance (emu : OstEmulator σ) (drive : Option (Fin 4)) (dsize : Nat)
    (tracks sectors sides : Byte) :
    Takes (emu.loadImageData drive dsize tracks sectors sides) dsize := by
  unfold OstEmulator.loadImageData
  cases drive with
  | none => exact Takes.cast inferInstance (Nat.add_zero dsize)
  | some d =>
    dsimp only
    cases (emu.ensureDisk d).sizedBuffer d dsize with
    | none => exact Takes.cast inferInstance (Nat.add_zero dsize)
    | some buf => exact Takes.cast inferInstance (Nat.add_zero dsize)

instance (emu : OstEmulator σ) : Takes emu.loadTap 13 := by
  unfold OstEmulator.loadTap
  infer_instance

instance (emu : OstEmulator σ) : Takes emu.loadSer 20 := by
  unfold OstEmulator.loadSer
  exact Takes.cast inferInstance rfl

instance (emu : OstEmulator σ) : Takes emu.loadClk 12 := by
  unfold OstEmulator.loadClk
  infer_instance

instance (emu : OstEmulator σ) (size : Nat) : Takes (emu.loadMeta size) (min size 1023) := by
  unfold OstEmulator.loadMeta
  infer_instance

instance (emu : OstEmulator σ) : Takes emu.loadMdc 8 := by
  unfold OstEmulator.loadMdc
  infer_instance

instance : Takes sp0256LoadFilter 88 := by
  unfold sp0256LoadFilter
  exact Takes.cast inferInstance rfl

instance : Takes sp0256LoadFields (sp0256SaveSize - 1) := by
  unfold sp0256LoadFields
  exact Takes.cast inferInstance rfl

instance : Takes mea8000LoadFilter 16 := by
  unfold mea8000LoadFilter
  infer_instance

instance : Takes mea8000LoadFields (mea8000SaveSize - 1) := by
  unfold mea8000LoadFields
  exact Takes.cast inferInstance rfl

instance {n : Nat} (short : Fin n → Byte) : Takes (hostRead short) n where
  rest bs := by
    unfold hostRead
    split_ifs <;> rfl
  value bs := by
    have hread : Takes (readOver n short) n := inferInstance
    unfold hostRead
    by_cases hlen : n ≤ bs.length
    · rw [if_pos hlen, if_pos (by simpa using hlen)]
      exact hread.value bs
    · rw [if_neg hlen, if_neg (by simpa using hlen)]

/-! ## Counted records -/

theorem binRU8_eq : binRU8 = readU8 := by
  funext bs
  cases bs with
  | nil => rfl
  | cons b bs =>
    rw [binRU8, readU8, readLeAll, if_pos]
    simp

/-- A reader of one bad-sector map. -/
structure ReadsMap {α : Type} (r : Reader α) : Prop where
  bounded : Bounded r fun data => mapSize data ≤ data.length
  rest : ∀ data, (r data).2 = data.drop (mapSize data)

theorem ReadsMap.of_takes {α : Type} {k : Byte → Reader α}
    (hk : ∀ n, Takes (k n) (3 * min n.toNat 16)) : ReadsMap (readU8 >>= k) where
  bounded := by
    have hcount : Takes readU8 1 := inferInstance
    refine (hcount.bounded.bind fun n => (hk n).bounded).congr fun data => ?_
    rw [hcount.rest, List.length_drop, mapSize]
    omega
  rest data := by
    show (k (readU8 data).1 (data.drop 1)).2 = _
    rw [(hk _).rest, List.drop_drop, mapSize]

instance (map : FdcBadMap) (n : Nat) : Takes (OstEmulator.readBadSectors map n) (3 * n) := by
  induction n generalizing map with
  | zero => exact inferInstanceAs (Takes (pure map) 0)
  | succ n ih =>
    unfold OstEmulator.readBadSectors
    exact Takes.cast inferInstance (by rw [Nat.mul_succ]; omega)

instance (n : Nat) : Takes (jasminReadEntries n) (3 * n) := by
  induction n with
  | zero => exact inferInstanceAs (Takes (pure []) 0)
  | succ n ih =>
    unfold jasminReadEntries
    exact Takes.cast inferInstance (by rw [Nat.mul_succ]; omega)

theorem readBadMap_reads : ReadsMap OstEmulator.readBadMap := .of_takes fun _ => inferInstance

theorem jasminReadMap_reads : ReadsMap jasminReadMap := by
  unfold jasminReadMap
  rw [binRU8_eq]
  exact .of_takes fun _ => Takes.cast inferInstance (Nat.add_zero _)

/-- One map, and then as many as `n`. -/
theorem ReadsMap.bind {α β : Type} {r : Reader β} (h : ReadsMap r) {k : β → Reader α} {n : Nat}
    (hk : ∀ b, Bounded (k b) (MapsFit n)) : Bounded (r >>= k) (MapsFit (n + 1)) := by
  refine (h.bounded.bind hk).congr fun data => ?_
  rw [h.rest]
  rfl

theorem loadBad_bounded (emu : OstEmulator σ) : Bounded emu.loadBad (MapsFit 4) := by
  unfold OstEmulator.loadBad
  refine readBadMap_reads.bind fun map0 => ?_
  refine readBadMap_reads.bind fun map1 => ?_
  refine readBadMap_reads.bind fun map2 => ?_
  refine readBadMap_reads.bind fun map3 => ?_
  exact .pure _

theorem loadImage_bounded (emu : OstEmulator σ) :
    Bounded emu.loadImage (fun data => imageSize data ≤ data.length) ∧
      ∀ data, (emu.loadImage data).2 = data.drop (imageSize data) := by
  have hdrive : Takes readU8 1 := inferInstance
  have hsize : Takes readU32le 4 := inferInstance
  have htail : ∀ (drive : Byte) (dsize : BitVec 32), Takes (do
      let dtracks ← readU8
      let dsectors ← readU8
      let dsides ← readU8
      emu.loadImageData (OstEmulator.imageDrive drive dsize) dsize.toNat dtracks dsectors dsides)
      (1 + (1 + (1 + dsize.toNat))) := fun _ _ => inferInstance
  constructor
  · refine (hdrive.bounded.bind fun drive =>
      hsize.bounded.bind fun dsize => (htail drive dsize).bounded).congr fun data => ?_
    simp only [hdrive.rest, hsize.rest, List.length_drop, imageSize]
    omega
  · intro data
    have htaken := (htail (readU8 data).1 (readU32le (readU8 data).2).1).rest
      (readU32le (readU8 data).2).2
    have hread : (emu.loadImage data).2 = _ := htaken
    rw [hread, hsize.rest, hdrive.rest, List.drop_drop, List.drop_drop, imageSize]
    congr 1
    omega

theorem loadImages_bounded (n : Nat) (emu : OstEmulator σ) :
    Bounded (emu.loadImages n) (ImagesFit n) := by
  induction n generalizing emu with
  | zero => exact .pure emu
  | succ n ih =>
    obtain ⟨himage, hrest⟩ := loadImage_bounded emu
    refine (himage.bind fun emu => ih emu).congr fun data => ?_
    rw [hrest]
    rfl

theorem loadDsk_bounded (emu : OstEmulator σ) : Bounded emu.loadDsk (OstFits .dsk) := by
  have hcount : Takes readU8 1 := inferInstance
  refine (hcount.bounded.bind fun n => loadImages_bounded n.toNat emu).congr fun data => ?_
  rw [hcount.rest]
  rfl

theorem jasminLoadLatches_bounded (j : Jasmin) :
    Bounded (jasminLoadLatches j) fun data => 7 ≤ data.length ∧ MapsFit 4 (data.drop 7) := by
  have hbool : Takes binRBool 1 := inferInstance
  have hbyte : Takes binRU8 1 := inferInstance
  have hmaps : ∀ romdis olay drive side intrq drq autobootDone, Bounded (do
      let map0 ← jasminReadMap
      let map1 ← jasminReadMap
      let map2 ← jasminReadMap
      let map3 ← jasminReadMap
      let side := side &&& 1#8
      let j := { j with
        romdis, olay, side, intrq, drq, autobootDone
        badMap := jasminMaps map0 map1 map2 map3 }
      let j := jasminSelectDrive j ((jasminDrive drive).getD 0)
      return { j with fdc := fdcStateResume { j.fdc with side } }) (MapsFit 4) := by
    intro romdis olay drive side intrq drq autobootDone
    refine jasminReadMap_reads.bind fun map0 => ?_
    refine jasminReadMap_reads.bind fun map1 => ?_
    refine jasminReadMap_reads.bind fun map2 => ?_
    refine jasminReadMap_reads.bind fun map3 => ?_
    exact .pure _
  unfold jasminLoadLatches
  refine (hbool.bounded.bind fun romdis => hbool.bounded.bind fun olay =>
    hbyte.bounded.bind fun drive => hbyte.bounded.bind fun side =>
    hbyte.bounded.bind fun intrq => hbyte.bounded.bind fun drq =>
    hbool.bounded.bind fun autobootDone =>
    hmaps romdis olay drive side intrq drq autobootDone).congr fun data => ?_
  simp only [hbool.rest, hbyte.rest, List.drop_drop, List.length_drop]
  constructor
  · rintro ⟨-, -, -, -, -, -, hlast, hfit⟩
    exact ⟨by omega, hfit⟩
  · rintro ⟨hlen, hfit⟩
    exact ⟨by omega, by omega, by omega, by omega, by omega, by omega, by omega, hfit⟩

/-- The version decides how much of the WD1793 there is. -/
theorem jasminFdcSize_takes {version : Byte} {fdcSize : Nat}
    (h : jasminFdcSize version = some fdcSize) (fdc : Fdc) :
    Takes (fdcStateLoad fdc fdcSize) fdcSize := by
  refine Takes.cast inferInstance ?_
  unfold jasminFdcSize at h
  split_ifs at h
  · cases h
    rfl
  · cases h
    rfl

/-- What `jasmin_load` does of the sizes of a version. -/
def jasminLoadSized (j : Jasmin) (size : Nat) : Option Nat → Reader Jasmin
  | none => return j
  | some fdcSize =>
    if size < 1 + fdcSize + 7 + 4 then return j
    else do
      let fdc ← fdcStateLoad j.fdc fdcSize
      jasminLoadLatches { j with fdc }

theorem jasminLoad_bounded (j : Jasmin) (size : Nat) :
    Bounded (jasminLoad j size) (JasFits size) := by
  have hbyte : Takes readU8 1 := inferInstance
  unfold jasminLoad
  rw [binRU8_eq]
  split_ifs with hshort
  · exact (Bounded.pure j).congr fun data => ⟨fun _ h => absurd h (by omega), fun _ => trivial⟩
  · have hversion : ∀ version : Byte, Bounded (jasminLoadSized j size (jasminFdcSize version))
        fun data => ∀ fdcSize, jasminFdcSize version = some fdcSize → 1 + fdcSize + 7 + 4 ≤ size →
          fdcSize + 7 ≤ data.length ∧ MapsFit 4 (data.drop (fdcSize + 7)) := by
      intro version
      cases hsize : jasminFdcSize version with
      | none => exact (Bounded.pure j).congr fun data => ⟨fun _ => nofun, fun _ => trivial⟩
      | some fdcSize =>
        unfold jasminLoadSized
        dsimp only
        split_ifs with hcut
        · refine (Bounded.pure j).congr fun data => ⟨?_, fun _ => trivial⟩
          rintro - _ ⟨⟩ hlong
          omega
        · have hfdc := jasminFdcSize_takes hsize j.fdc
          refine (hfdc.bounded.bind fun fdc =>
            jasminLoadLatches_bounded { j with fdc }).congr fun data => ?_
          rw [hfdc.rest, List.drop_drop, List.length_drop]
          constructor
          · rintro ⟨hlen, hlen', hfit⟩ _ ⟨⟩ -
            exact ⟨by omega, hfit⟩
          · intro h
            obtain ⟨hlen, hfit⟩ := h fdcSize rfl (by omega)
            exact ⟨by omega, by omega, hfit⟩
    refine (hbyte.bounded.bind hversion).congr fun data => ?_
    rw [hbyte.rest, JasFits]
    constructor
    · rintro ⟨hlen, h⟩ -
      refine ⟨hlen, fun fdcSize hsize hlong => ?_⟩
      obtain ⟨hlen', hfit⟩ := h fdcSize hsize hlong
      rw [List.length_drop] at hlen'
      rw [List.drop_drop, show 1 + (fdcSize + 7) = fdcSize + 8 by omega] at hfit
      exact ⟨by omega, hfit⟩
    · intro h
      obtain ⟨hlen, h⟩ := h (by omega)
      refine ⟨hlen, fun fdcSize hsize hlong => ?_⟩
      obtain ⟨hlen', hfit⟩ := h fdcSize hsize hlong
      rw [List.length_drop, List.drop_drop, show 1 + (fdcSize + 7) = fdcSize + 8 by omega]
      exact ⟨by omega, hfit⟩

/-! ## Any section -/

section Own

variable {α : Type} {r : Reader α} {fits : List Byte → Prop} {data after : List Byte}

/-- A reader that is told the size of its section and stays inside it. -/
def Guarded (r : Nat → Reader α) : Prop :=
  ∀ size, ∃ fits, Bounded (r size) fits ∧ ∀ data : List Byte, data.length = size → fits data

/-- A section of another size than `sizeof` is ignored. -/
theorem guarded_of_size (a : α) (sizeof : Nat) (h : Bounded r fits)
    (hfits : ∀ data : List Byte, data.length = sizeof → fits data) :
    Guarded fun size => if size ≠ sizeof then return a else r := by
  intro size
  dsimp only
  split_ifs with hsize
  · exact ⟨_, .pure a, fun _ _ => trivial⟩
  · rw [not_not] at hsize
    exact ⟨fits, h, fun data hlen => hfits data (hlen.trans hsize)⟩

/-- A section of another version is ignored. -/
theorem versioned_bounded {n : Nat} (h : Takes r n) (a : α) :
    Bounded (do
      let version ← binRU8
      if version ≠ 1#8 then return a else r)
      fun data => 1 ≤ data.length ∧ ((binRU8 data).1 = 1#8 → n ≤ (data.drop 1).length) := by
  have hbyte : Takes binRU8 1 := inferInstance
  have hfields : ∀ version : Byte, Bounded (if version ≠ 1#8 then return a else r)
      fun data => version = 1#8 → n ≤ data.length := by
    intro version
    split_ifs with hother
    · exact (Bounded.pure a).congr fun _ => ⟨fun _ heq => absurd heq hother, fun _ => trivial⟩
    · exact h.bounded.congr fun _ => ⟨fun hle _ => hle, fun hle => hle (not_not.mp hother)⟩
  refine (hbyte.bounded.bind hfields).congr fun data => ?_
  rw [hbyte.rest]

theorem sp0256Load_guarded (sp : Sp0256) : Guarded (sp0256Load sp) := by
  refine guarded_of_size sp sp0256SaveSize (versioned_bounded inferInstance sp) fun data hlen => ?_
  rw [List.length_drop, hlen]
  exact ⟨by decide, fun _ => le_rfl⟩

theorem mea8000Load_guarded (m : Mea8000) : Guarded (mea8000Load m) := by
  refine guarded_of_size m mea8000SaveSize (versioned_bounded inferInstance m) fun data hlen => ?_
  rw [List.length_drop, hlen]
  exact ⟨by decide, fun _ => le_rfl⟩

theorem hostCardLoad_guarded (dev : HostCard) : Guarded (hostCardLoad dev) :=
  guarded_of_size dev dev.sizeof ((bounded_of_takes (hostRead dev.bytes)).map _)
    fun _ hlen => hlen.ge

theorem ulaNgLoadRecord_guarded (u : HostUlaNg) : Guarded (ulaNgLoadRecord u) :=
  guarded_of_size u u.sizeof ((bounded_of_takes (hostRead u.reset)).map _) fun _ hlen => hlen.ge

theorem Guarded.own {r : Nat → Reader α} (h : Guarded r) :
    OwnBytes (r data.length) data after := by
  obtain ⟨fits, hbounded, hfits⟩ := h data.length
  exact hbounded.own data after (hfits data rfl)

theorem Guarded.shrinks {r : Nat → Reader α} (h : Guarded r) (size : Nat) (bs : List Byte) :
    (r size bs).2.length ≤ bs.length := by
  obtain ⟨fits, hbounded, -⟩ := h size
  exact hbounded.shrinks bs

/-- No reader goes back. -/
theorem OstEmulator.loadKind_shrinks (emu : OstEmulator σ) (size : Nat) (kind : OstKind)
    (bs : List Byte) : (emu.loadKind size kind bs).2.length ≤ bs.length := by
  cases kind with
  | cpu => exact (bounded_of_takes (emu.loadCpu size)).shrinks bs
  | mem => exact (bounded_of_takes emu.loadMem).shrinks bs
  | via => exact (bounded_of_takes (emu.loadVia size)).shrinks bs
  | psg => exact (bounded_of_takes (emu.loadPsg size)).shrinks bs
  | vid => exact (bounded_of_takes (emu.loadVid size)).shrinks bs
  | kbd => exact (bounded_of_takes emu.loadKbd).shrinks bs
  | fdc => exact (bounded_of_takes (emu.loadFdc size)).shrinks bs
  | mdc => exact (bounded_of_takes emu.loadMdc).shrinks bs
  | dsk => exact (loadDsk_bounded emu).shrinks bs
  | bad => exact (loadBad_bounded emu).shrinks bs
  | tap => exact (bounded_of_takes emu.loadTap).shrinks bs
  | ser => exact (bounded_of_takes emu.loadSer).shrinks bs
  | clk => exact (bounded_of_takes emu.loadClk).shrinks bs
  | info => exact (bounded_of_takes (emu.loadMeta size)).shrinks bs
  | jas => exact ((jasminLoad_bounded emu.jasmin size).map _).shrinks bs
  | spo => exact (sp0256Load_guarded emu.sp0256).shrinks size bs
  | mag => exact (hostCardLoad_guarded emu.mageco).shrinks size bs
  | ung => exact (ulaNgLoadRecord_guarded emu.ulaNg).shrinks size bs
  | mea => exact (mea8000Load_guarded emu.mea8000).shrinks size bs
  | dtl => exact (hostCardLoad_guarded emu.dtl2000).shrinks size bs
  | unknown => exact le_rfl

/-- The readers of the sections stay inside those that fit. -/
theorem OstEmulator.loadKind_own_iff (emu : OstEmulator σ) (kind : OstKind) (hafter : after ≠ []) :
    OwnBytes (emu.loadKind data.length kind) data after ↔ OstFits kind data := by
  cases kind with
  | cpu =>
    refine ((bounded_of_takes (emu.loadCpu data.length)).own_iff hafter).trans ?_
    simp only [OstFits]
    split_ifs <;> omega
  | mem => exact (bounded_of_takes emu.loadMem).own_iff hafter
  | via =>
    refine ((bounded_of_takes (emu.loadVia data.length)).own_iff hafter).trans ?_
    simp only [OstFits]
    split_ifs <;> omega
  | psg =>
    refine ((bounded_of_takes (emu.loadPsg data.length)).own_iff hafter).trans ?_
    simp only [OstFits]
    split_ifs <;> omega
  | vid =>
    refine ((bounded_of_takes (emu.loadVid data.length)).own_iff hafter).trans ?_
    simp only [OstFits]
    split_ifs <;> omega
  | kbd => exact (bounded_of_takes emu.loadKbd).own_iff hafter
  | fdc =>
    refine ((bounded_of_takes (emu.loadFdc data.length)).own_iff hafter).trans ?_
    show 31 + ((if data.length ≥ 36 then 5 else 0) + ((if data.length ≥ 49 then 13 else 0) +
      if data.length ≥ 55 then 6 else 0)) ≤ data.length ↔ 31 ≤ data.length
    split_ifs <;> omega
  | mdc => exact (bounded_of_takes emu.loadMdc).own_iff hafter
  | dsk => exact (loadDsk_bounded emu).own_iff hafter
  | bad => exact (loadBad_bounded emu).own_iff hafter
  | tap => exact (bounded_of_takes emu.loadTap).own_iff hafter
  | ser => exact (bounded_of_takes emu.loadSer).own_iff hafter
  | clk => exact (bounded_of_takes emu.loadClk).own_iff hafter
  | info =>
    have hown := (bounded_of_takes (emu.loadMeta data.length)).own data after (Nat.min_le_left _ _)
    exact iff_of_true hown trivial
  | jas => exact ((jasminLoad_bounded emu.jasmin data.length).map _).own_iff hafter
  | spo => exact iff_of_true ((sp0256Load_guarded emu.sp0256).own.map _) trivial
  | mag => exact iff_of_true ((hostCardLoad_guarded emu.mageco).own.map _) trivial
  | ung => exact iff_of_true ((ulaNgLoadRecord_guarded emu.ulaNg).own.map _) trivial
  | mea => exact iff_of_true ((mea8000Load_guarded emu.mea8000).own.map _) trivial
  | dtl => exact iff_of_true ((hostCardLoad_guarded emu.dtl2000).own.map _) trivial
  | unknown => exact iff_of_true rfl trivial

end Own

end Phosphoric
