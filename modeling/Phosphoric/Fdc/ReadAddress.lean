import Phosphoric.Fdc.Chip

/-!
# Read Address

**Theorem (`fdcReadAddress_idField`).** Six reads of the data register after Read Address, at any
pace and in either timing model, return the identification field of a sector of the track under
the head, and leave the track number in the sector register, exactly if the track has a sector 1
and a sector whose number is that of the track.

The field is made up byte by byte from the live registers. Its first byte goes to the sector
register, and the third byte is read from there: it is the track number, whatever the track holds
(`fdcReadAddress_bytes`).
-/

namespace Phosphoric

/-! ## Six reads -/

/-- Each read is preceded by ticks. -/
def fdcReadBytes : List (List (BitVec 32)) → Fdc → List Byte × Fdc
  | [], fdc => ([], fdc)
  | ticks :: rest, fdc =>
    let (byte, fdc) := fdcRead (ticks.foldl fdcTicktock fdc) 3#8
    let (bytes, fdc) := fdcReadBytes rest fdc
    (byte :: bytes, fdc)

/-- The command `value`, then six reads of the data register. -/
def fdcReadAddressRun (fdc : Fdc) (value : Byte) (ticks : Fin 6 → List (BitVec 32)) :
    List Byte × Fdc :=
  fdcReadBytes (List.ofFn ticks) (fdcWrite fdc 0#8 value)

/-- The bytes identify a sector of the track under the head. -/
structure FdcIdField (fdc : Fdc) (bytes : List Byte) : Prop where
  track : bytes[0]? = some fdc.cTrack
  side : bytes[1]? = some fdc.side
  sector : ∃ sector, bytes[2]? = some sector ∧ 1#8 ≤ sector ∧ sector ≤ fdc.sectorsPerTrack ∧
    ⟨fdc.side, fdc.cTrack, sector⟩ ∉ fdc.bad.entry ∧ (fdcFindSector fdc sector).isSome
  size : bytes[3]? = some 1#8

/-! ## Time -/

/-- What the reads depend on. -/
structure FdcField where
  cTrack : Byte
  side : Byte
  sector : Byte
  data : Byte
  curOffset : Word
  currentop : FdcOp
  found : Bool
  stream : Bool

def Fdc.field (fdc : Fdc) : FdcField :=
  ⟨fdc.cTrack, fdc.side, fdc.sector, fdc.data, fdc.curOffset, fdc.currentop,
    fdc.curSectorData.isSome, fdc.stream⟩

/-- No data passes under the head for this operation. -/
def FdcField.Still (field : FdcField) : Prop :=
  field.stream = false ∧ (field.currentop = .readAddress ∨ field.currentop = .none)

theorem field_fdcTickLost (fdc : Fdc) (cycles : BitVec 32) :
    (fdcTickLost fdc cycles).field = fdc.field := by
  unfold fdcTickLost
  dsimp only
  split_ifs <;> rfl

theorem field_fdcTicktock {fdc : Fdc} (h : fdc.field.Still) (cycles : BitVec 32) :
    (fdcTicktock fdc cycles).field = fdc.field := by
  have hint : ∀ fdc : Fdc, (fdcTickInt fdc cycles).field = fdc.field := by
    intro fdc
    unfold fdcTickInt
    dsimp only
    split_ifs <;> rfl
  have hdrq : ∀ fdc : Fdc, fdc.field.Still → (fdcTickDrq fdc cycles).field = fdc.field := by
    rintro fdc ⟨-, hop⟩
    have hstreamed : fdcStreamed { fdc with
        delayedDrq := 0, status := fdc.ddStatus.getD fdc.status, ddStatus := none } = false := by
      have hop' : fdc.currentop = .readAddress ∨ fdc.currentop = .none := hop
      rcases hop' with hop' | hop' <;> simp [fdcStreamed, hop']
    unfold fdcTickDrq
    dsimp only
    rw [hstreamed]
    split_ifs <;> first | rfl | contradiction
  unfold fdcTicktock
  dsimp only
  generalize hturned : { fdc with
    rotPos := (fdc.rotPos + cycles.toNat) % 2 ^ 32 % fdcRevCycles } = turned
  have hfield : turned.field = fdc.field := by
    rw [← hturned]
    rfl
  have hstill : (fdcTickInt turned cycles).field = fdc.field := (hint turned).trans hfield
  have hdue := (hdrq (fdcTickInt turned cycles) (hstill ▸ h)).trans hstill
  have hstream : (fdcTickDrq (fdcTickInt turned cycles) cycles).stream = false := by
    have heq := congrArg FdcField.stream hdue
    exact heq.trans h.1
  unfold fdcTickStream
  rw [if_neg (by rw [hstream]; decide)]
  exact (field_fdcTickLost _ cycles).trans hdue

theorem field_ticks {fdc : Fdc} (h : fdc.field.Still) (ticks : List (BitVec 32)) :
    (ticks.foldl fdcTicktock fdc).field = fdc.field := by
  induction ticks generalizing fdc with
  | nil => rfl
  | cons cycles ticks ih =>
    have htick := field_fdcTicktock h cycles
    exact (ih (htick ▸ h)).trans htick

/-! ## Reads -/

/-- The field once `k` of the six bytes are read, the last one `data`. -/
def fdcFieldAt (cTrack side sector data : Byte) (k : Nat) : FdcField where
  cTrack := cTrack
  side := side
  sector := if k = 0 then sector else cTrack
  data := data
  curOffset := BitVec.ofNat 16 k
  currentop := if k < 6 then .readAddress else .none
  found := true
  stream := false

theorem field_fdcReadAddressByte {fdc : Fdc} (hfound : fdc.curSectorData.isSome) :
    (fdcReadAddressByte fdc).field =
      { fdc.field with
        sector := if fdc.curOffset == 0#16 then fdc.cTrack else fdc.sector
        data := (fdcAddrField fdc).getD fdc.curOffset.toNat 0
        curOffset := fdc.curOffset + 1#16
        currentop := if fdc.curOffset + 1#16 ≥ 6#16 then .none else fdc.currentop } := by
  obtain ⟨p, hdata⟩ := Option.isSome_iff_exists.mp hfound
  have hid : fdcIdByte fdc = { fdc with
      sector := if fdc.curOffset == 0#16 then fdc.cTrack else fdc.sector
      data := (fdcAddrField fdc).getD fdc.curOffset.toNat 0
      curOffset := fdc.curOffset + 1#16 } := by
    unfold fdcIdByte
    rw [hdata]
  unfold fdcReadAddressByte
  rw [hid]
  by_cases hend : fdc.curOffset + 1#16 ≥ 6#16
  · rw [if_pos hend]
    exact congrArg Fdc.field (if_pos hend)
  · rw [if_neg hend]
    exact congrArg Fdc.field (if_neg hend)

/-- One byte: the third is the sector register, which the first has changed. -/
theorem fdcRead_fieldAt {fdc : Fdc} {t side sector data : Byte} {k : Nat} (hk : k < 6)
    (h : fdc.field = fdcFieldAt t side sector data k) :
    let byte := [t, side, if k = 0 then sector else t, 1#8, 0#8, 0#8].getD k 0
    (fdcRead fdc 3#8).1 = byte ∧
      (fdcRead fdc 3#8).2.field = fdcFieldAt t side sector byte (k + 1) := by
  intro byte
  have hop : fdc.currentop = .readAddress := (congrArg FdcField.currentop h).trans (if_pos hk)
  have hoff : fdc.curOffset = BitVec.ofNat 16 k := congrArg FdcField.curOffset h
  have htrack : fdc.cTrack = t := congrArg FdcField.cTrack h
  have hside : fdc.side = side := congrArg FdcField.side h
  have hsector : fdc.sector = if k = 0 then sector else t := congrArg FdcField.sector h
  have hread : fdcReadData fdc = fdcReadAddressByte fdc := by rw [fdcReadData, hop]
  have hfield : (fdcReadData fdc).field = fdcFieldAt t side sector byte (k + 1) := by
    rw [hread, field_fdcReadAddressByte (congrArg FdcField.found h), h]
    simp only [fdcAddrField, fdcFieldAt, hop, hoff, htrack, hside, hsector, byte]
    interval_cases k <;> rfl
  exact ⟨congrArg FdcField.data hfield, hfield⟩

theorem fdcReadBytes_fieldAt (ticks : List (List (BitVec 32))) {fdc : Fdc}
    {t side sector data : Byte} {k : Nat} (hk : k + ticks.length = 6)
    (h : fdc.field = fdcFieldAt t side sector data k) :
    (fdcReadBytes ticks fdc).1 =
        (List.range' k ticks.length).map
          (fun i => [t, side, if i = 0 then sector else t, 1#8, 0#8, 0#8].getD i 0) ∧
      (0 < k ∨ 0 < ticks.length → (fdcReadBytes ticks fdc).2.sector = t) := by
  induction ticks generalizing fdc data k with
  | nil =>
    refine ⟨rfl, fun hpos => ?_⟩
    have hsector : fdc.sector = if k = 0 then sector else t := congrArg FdcField.sector h
    rwa [if_neg (by simpa using hpos.imp_right (Nat.lt_irrefl 0) |>.resolve_right id |>.ne')]
      at hsector
  | cons wait ticks ih =>
    have hstill : fdc.field.Still := by
      rw [h]
      refine ⟨rfl, ?_⟩
      unfold fdcFieldAt
      dsimp only
      split_ifs
      · exact .inl rfl
      · exact .inr rfl
    have hwait := (field_ticks hstill wait).trans h
    rw [List.length_cons] at hk
    obtain ⟨hbyte, hnext⟩ := fdcRead_fieldAt (by omega) hwait
    obtain ⟨hbytes, hlast⟩ := ih (k := k + 1) (by omega) hnext
    refine ⟨?_, fun _ => hlast (.inl (Nat.succ_pos k))⟩
    rw [List.length_cons, List.range'_succ, List.map_cons]
    exact congrArg₂ List.cons hbyte hbytes

/-! ## The command -/

theorem fdcReadAddress_start {fdc : Fdc} {value : Byte} (h : fdcCommand value = .readAddress) :
    fdcWrite fdc 0#8 value =
      fdcReadAddress { fdc.signal .clrIntrq with stream := false, streamCrc := false } := by
  have hnot : ∀ value : Byte, fdcCommand value = .readAddress →
      (value &&& 0xF0#8 != 0xD0#8) = true := by decide
  have hwrite : fdcWrite fdc 0#8 value = fdcWriteCommand fdc value := rfl
  rw [hwrite, fdcWriteCommand, h, fdcBeginCommand, if_pos (hnot value h)]

theorem fdcReadAddress_found {fdc : Fdc} {value : Byte} (h : fdcCommand value = .readAddress)
    (hfound : (fdcFindSector fdc 1#8).isSome) :
    (fdcWrite fdc 0#8 value).field = fdcFieldAt fdc.cTrack fdc.side fdc.sector fdc.data 0 := by
  obtain ⟨p, hp⟩ := Option.isSome_iff_exists.mp hfound
  obtain ⟨buf, hdisk⟩ : ∃ buf, fdc.diskData = some buf := by
    cases hdisk : fdc.diskData with
    | none => rw [fdcFindSector, hdisk] at hp; contradiction
    | some buf => exact ⟨buf, rfl⟩
  rw [fdcReadAddress_start h]
  generalize hbegin : { fdc.signal .clrIntrq with stream := false, streamCrc := false } = begun
  have hfield : begun.field = { fdc.field with stream := false } := by rw [← hbegin]; rfl
  have hdisk' : { begun with statusType1 := false }.diskData = some buf := by
    rw [← hbegin]
    exact hdisk
  have hp' : fdcFindSector { begun with statusType1 := false, curOffset := 0 } 1#8 = some p := by
    rw [← hbegin]
    exact hp
  have hready : ∀ (fdc : Fdc) (command : Fdc → Fdc), fdc.diskData = some buf →
      fdcNotReady fdc command = command fdc := by
    intro fdc command hdisk
    rw [fdcNotReady, hdisk]
  have hend : (fdcReadAddress begun).field =
      { begun.field with curOffset := 0#16, currentop := .readAddress, found := true } := by
    rw [fdcReadAddress, hready { begun with statusType1 := false } _ hdisk']
    dsimp only [Fdc.lookup]
    rw [hp']
    dsimp only
    cases begun.timingMode <;> rfl
  rw [hend, hfield]
  rfl

/-- Nothing follows a refused command. -/
theorem fdcReadAddress_refused {fdc : Fdc} {value : Byte} (h : fdcCommand value = .readAddress)
    (hnone : fdcFindSector fdc 1#8 = none) :
    (fdcWrite fdc 0#8 value).field.currentop = .none ∧
      (fdcWrite fdc 0#8 value).field.stream = false := by
  rw [fdcReadAddress_start h]
  generalize hbegin : { fdc.signal .clrIntrq with stream := false, streamCrc := false } = begun
  have hstream : begun.stream = false := by rw [← hbegin]
  have hnone' : fdcFindSector { begun with statusType1 := false, curOffset := 0 } 1#8 = none := by
    rw [← hbegin]
    exact hnone
  rw [fdcReadAddress, fdcNotReady]
  split
  · dsimp only [Fdc.lookup]
    rw [hnone']
    have hend : ∀ fdc : Fdc, fdc.stream = false →
        (fdcRecordNotFound fdc).field.currentop = .none ∧
          (fdcRecordNotFound fdc).field.stream = false := by
      intro fdc hstream
      unfold fdcRecordNotFound
      dsimp only
      split <;> exact ⟨rfl, hstream⟩
    exact hend _ hstream
  · exact ⟨rfl, hstream⟩

theorem fdcReadBytes_idle (ticks : List (List (BitVec 32))) {fdc : Fdc}
    (hop : fdc.field.currentop = .none) (hstream : fdc.field.stream = false) :
    ∃ data, (fdcReadBytes ticks fdc).1 = List.replicate ticks.length data := by
  refine ⟨fdc.data, ?_⟩
  induction ticks generalizing fdc with
  | nil => rfl
  | cons wait ticks ih =>
    have hwait := field_ticks ⟨hstream, .inr hop⟩ wait
    have hop' : (wait.foldl fdcTicktock fdc).field.currentop = .none := by rw [hwait]; exact hop
    have hstream' : (wait.foldl fdcTicktock fdc).field.stream = false := by
      rw [hwait]; exact hstream
    have hdata : (wait.foldl fdcTicktock fdc).data = fdc.data := congrArg FdcField.data hwait
    have hread : fdcReadData (wait.foldl fdcTicktock fdc) = wait.foldl fdcTicktock fdc := by
      have hop'' : (wait.foldl fdcTicktock fdc).currentop = .none := hop'
      rw [fdcReadData, hop'']
    have hrest : (fdcReadBytes ticks (wait.foldl fdcTicktock fdc)).1 =
        List.replicate ticks.length (wait.foldl fdcTicktock fdc).data := ih hop' hstream'
    rw [hdata] at hrest
    show (fdcReadData (wait.foldl fdcTicktock fdc)).data ::
      (fdcReadBytes ticks (fdcReadData (wait.foldl fdcTicktock fdc))).1 = _
    rw [hread, hdata, hrest]
    rfl

/-! ## The field -/

/-- What is read, whatever the track holds beside its sector 1. -/
theorem fdcReadAddress_bytes {fdc : Fdc} {value : Byte} (h : fdcCommand value = .readAddress)
    (hfound : (fdcFindSector fdc 1#8).isSome) (ticks : Fin 6 → List (BitVec 32)) :
    (fdcReadAddressRun fdc value ticks).1 = [fdc.cTrack, fdc.side, fdc.cTrack, 1#8, 0#8, 0#8] ∧
      (fdcReadAddressRun fdc value ticks).2.sector = fdc.cTrack := by
  have hlength : (List.ofFn ticks).length = 6 := List.length_ofFn
  obtain ⟨hbytes, hsector⟩ := fdcReadBytes_fieldAt (List.ofFn ticks) (by rw [hlength])
    (fdcReadAddress_found h hfound)
  refine ⟨hbytes.trans ?_, hsector (.inr (by rw [hlength]; decide))⟩
  rw [hlength]
  rfl

/-- A sector found is one the field may name. -/
theorem fdcFindSector_isSome {fdc : Fdc} {sector : Byte}
    (h : (fdcFindSector fdc sector).isSome) :
    1#8 ≤ sector ∧ sector ≤ fdc.sectorsPerTrack ∧
      ⟨fdc.side, fdc.cTrack, sector⟩ ∉ fdc.bad.entry := by
  unfold fdcFindSector at h
  split at h
  · contradiction
  · split_ifs at h with hrange hbad hsize
    · contradiction
    · contradiction
    · contradiction
    · simp only [Bool.or_eq_true, decide_eq_true_eq, beq_iff_eq, not_or] at hrange
      obtain ⟨⟨-, hzero⟩, hlast⟩ := hrange
      exact ⟨by bv_omega, by bv_omega, hbad⟩

theorem fdcReadAddress_idField (fdc : Fdc) {value : Byte} (h : fdcCommand value = .readAddress)
    (ticks : Fin 6 → List (BitVec 32)) :
    let run := fdcReadAddressRun fdc value ticks
    (FdcIdField fdc run.1 ∧ run.2.sector = fdc.cTrack) ↔
      (fdcFindSector fdc 1#8).isSome ∧ (fdcFindSector fdc fdc.cTrack).isSome := by
  intro run
  by_cases hfound : (fdcFindSector fdc 1#8).isSome
  · obtain ⟨hbytes, hsector⟩ := fdcReadAddress_bytes h hfound ticks
    constructor
    · rintro ⟨hfield, -⟩
      obtain ⟨sector, hthird, -, -, -, hexists⟩ := hfield.sector
      rw [show run.1 = _ from hbytes] at hthird
      rw [← Option.some.inj hthird] at hexists
      exact ⟨hfound, hexists⟩
    · rintro ⟨-, hexists⟩
      obtain ⟨hlow, hhigh, hgood⟩ := fdcFindSector_isSome hexists
      refine ⟨?_, hsector⟩
      rw [show run.1 = _ from hbytes]
      exact ⟨rfl, rfl, ⟨fdc.cTrack, rfl, hlow, hhigh, hgood, hexists⟩, rfl⟩
  · -- all six reads return the data register, which would have to be 1: sector 1
    have hnone : fdcFindSector fdc 1#8 = none := by simpa using hfound
    obtain ⟨hop, hstream⟩ := fdcReadAddress_refused h hnone
    obtain ⟨data, hbytes⟩ := fdcReadBytes_idle (List.ofFn ticks) hop hstream
    have hrun : run.1 = List.replicate 6 data := hbytes.trans (by rw [List.length_ofFn])
    constructor
    · rintro ⟨hfield, -⟩
      obtain ⟨sector, hthird, -, -, -, hexists⟩ := hfield.sector
      have hsize := hfield.size
      rw [hrun] at hthird hsize
      rw [← Option.some.inj hthird, Option.some.inj hsize] at hexists
      exact absurd hexists hfound
    · exact fun hboth => absurd hboth.1 hfound

/-- A disk of 80 tracks of 17 sectors, the head on the track. -/
def fdcHeadOn (track : Byte) : Fdc :=
  { fdcInit ⟨fun _ => 0, []⟩ with
    diskData := some 0, diskSize := 348160, track := track, cTrack := track }

/-- On track 1 the field is that of sector 1. -/
theorem fdcReadAddress_idField_track1 :
    fdcCommand 0xC0#8 = .readAddress ∧
      FdcIdField (fdcHeadOn 1) (fdcReadAddressRun (fdcHeadOn 1) 0xC0#8 fun _ => [32]).1 :=
  ⟨rfl, ((fdcReadAddress_idField (fdcHeadOn 1) rfl fun _ => [32]).mpr
    ⟨by decide, by decide⟩).1⟩

/-- On track 0 it is that of a sector 0. -/
theorem fdcReadAddress_sectorZero :
    fdcCommand 0xC0#8 = .readAddress ∧ (fdcFindSector (fdcHeadOn 0) 1#8).isSome ∧
      (fdcReadAddressRun (fdcHeadOn 0) 0xC0#8 fun _ => []).1 = [0, 0, 0, 1, 0, 0] ∧
      ¬FdcIdField (fdcHeadOn 0) (fdcReadAddressRun (fdcHeadOn 0) 0xC0#8 fun _ => []).1 := by
  have hbytes : (fdcReadAddressRun (fdcHeadOn 0) 0xC0#8 fun _ => []).1 = [0, 0, 0, 1, 0, 0] := by
    decide
  refine ⟨rfl, by decide, hbytes, fun hfield => ?_⟩
  obtain ⟨sector, hthird, hlow, -⟩ := hfield.sector
  rw [hbytes] at hthird
  rw [← Option.some.inj hthird] at hlow
  exact absurd hlow (by decide)

end Phosphoric
