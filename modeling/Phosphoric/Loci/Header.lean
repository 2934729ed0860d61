import Phosphoric.Loci.Served
import Phosphoric.Tap.Tape

/-!
# Reading a header through the LOCI

`TAP_READ_HEADER` looks for three synchronization bytes and a marker (`SyncAt`) and returns the
sixteen bytes behind them. The search keeps the last four bytes and compares them from the fifth
byte on (`tapFindSync`): it is a search from the byte behind the counter
(`tapFindSync_start`).

**Theorem (`opTapReadHeader_reads`).** When no mark stands at the counter itself, the operation
reads the header of the first mark behind it, with question marks for what does not print in the
name, and fails when there is none with a whole header.
-/

namespace Phosphoric

variable {loci : Loci} {file l : List Byte} {p : Nat}

/-! ## Marks -/

/-- Three synchronization bytes and the marker. -/
def tapSync : List Byte := [tapSyncByte, tapSyncByte, tapSyncByte, tapMarker]

/-- A mark starts at `p`. -/
def SyncAt (file : List Byte) (p : Nat) : Prop := tapSync <+: file.drop p

instance (file : List Byte) (p : Nat) : Decidable (SyncAt file p) :=
  inferInstanceAs (Decidable (_ <+: _))

/-- `p` is the first mark from `from'` on. -/
structure FirstSync (file : List Byte) (from' p : Nat) : Prop where
  le : from' ≤ p
  sync : SyncAt file p
  first : ∀ q, from' ≤ q → q < p → ¬ SyncAt file q

theorem FirstSync.unique {from' q : Nat} (hp : FirstSync file from' p)
    (hq : FirstSync file from' q) : p = q := by
  rcases Nat.lt_trichotomy p q with hlt | heq | hgt
  · exact absurd hp.sync (hq.first p hp.le hlt)
  · exact heq
  · exact absurd hq.sync (hp.first q hq.le hgt)

/-- A place without a mark is passed over. -/
theorem firstSync_succ {from' : Nat} (hnone : ¬ SyncAt file from') :
    FirstSync file from' p ↔ FirstSync file (from' + 1) p := by
  constructor
  · rintro ⟨hle, hsync, hfirst⟩
    have hne : from' ≠ p := fun h => hnone (h ▸ hsync)
    exact ⟨by omega, hsync, fun q hq => hfirst q (by omega)⟩
  · rintro ⟨hle, hsync, hfirst⟩
    refine ⟨by omega, hsync, fun q hq hlt => ?_⟩
    rcases Nat.eq_or_lt_of_le hq with rfl | hgt
    · exact hnone
    · exact hfirst q hgt hlt

theorem syncAt_length (h : SyncAt file p) : p + 4 ≤ file.length := by
  have hlen := h.length_le
  simp only [tapSync, List.length_cons, List.length_nil, List.length_drop] at hlen
  omega

/-! ## The search -/

/-- With four bytes behind it, the search stands at the window's second byte. -/
theorem tapFindSync_full {a b c d : Byte} {rest : List Byte} {i : Nat}
    (hfile : file.drop i = b :: c :: d :: rest) {e : Nat} {r : List Byte} :
    tapFindSync (a, b, c, d) 4 (i + 3) rest = some (e, r) ↔
      ∃ p, FirstSync file i p ∧ e = p + 4 ∧ r = file.drop (p + 4) := by
  induction rest generalizing a b c d i with
  | nil =>
    refine ⟨fun h => by simp [tapFindSync] at h, ?_⟩
    rintro ⟨p, hp, -⟩
    have hlen := congrArg List.length hfile
    have hsync := syncAt_length hp.sync
    have hle := hp.le
    simp at hlen
    omega
  | cons x rest ih =>
    have hnext : file.drop (i + 1) = c :: d :: x :: rest := by
      rw [← List.drop_drop, hfile]
      rfl
    have hmark : SyncAt file i ↔ (b, c, d, x) = (0x16#8, 0x16#8, 0x16#8, 0x24#8) := by
      rw [SyncAt, hfile]
      simp [tapSync, List.cons_prefix_cons, tapSyncByte, tapMarker, eq_comm]
    simp only [tapFindSync, Nat.lt_irrefl, if_false]
    by_cases hsync : SyncAt file i
    · rw [if_pos (hmark.mp hsync)]
      have hfirst : FirstSync file i i := ⟨le_rfl, hsync, fun q hq hlt => by omega⟩
      have hrest : file.drop (i + 4) = rest := by
        rw [← List.drop_drop, hfile]
        rfl
      constructor
      · intro h
        obtain ⟨rfl, rfl⟩ := Prod.mk.inj (Option.some.inj h)
        exact ⟨i, hfirst, rfl, hrest.symm⟩
      · rintro ⟨p, hp, rfl, rfl⟩
        obtain rfl := hp.unique hfirst
        rw [hrest]
    · rw [if_neg (mt hmark.mpr hsync)]
      simp only [firstSync_succ hsync]
      exact ih hnext

/-- The search from the start of the window begins at the second byte. -/
theorem tapFindSync_start {i e : Nat} {r : List Byte} :
    tapFindSync (0, 0, 0, 0) 0 i (file.drop i) = some (e, r) ↔
      ∃ p, FirstSync file (i + 1) p ∧ e = p + 4 ∧ r = file.drop (p + 4) := by
  have hshort : (file.drop i).length < 4 →
      ¬ ∃ p, FirstSync file (i + 1) p ∧ e = p + 4 ∧ r = file.drop (p + 4) := by
    rintro hlt ⟨p, hp, -⟩
    have hsync := syncAt_length hp.sync
    have hle := hp.le
    simp only [List.length_drop] at hlt
    omega
  rcases hdrop : file.drop i with _ | ⟨a, _ | ⟨b, _ | ⟨c, _ | ⟨d, rest⟩⟩⟩⟩
  · simp [tapFindSync, hshort (by simp [hdrop])]
  · simp [tapFindSync, hshort (by simp [hdrop])]
  · simp [tapFindSync, hshort (by simp [hdrop])]
  · simp [tapFindSync, hshort (by simp [hdrop])]
  · have hnext : file.drop (i + 1) = b :: c :: d :: rest := by
      rw [← List.drop_drop, hdrop]
      rfl
    simp only [tapFindSync, Nat.reduceLT, if_true]
    exact tapFindSync_full hnext

/-! ## The answer -/

/-- The value of the last return, in four registers. -/
def apiAnswer (loci : Loci) : Nat :=
  Binary.natLe [loci.regs lociRegApiA, loci.regs lociRegApiX, loci.regs lociRegApiSreg,
    loci.regs lociRegApiSregHi]

theorem apiAnswer_apiReturnAxsreg (loci : Loci) (val : BitVec 32) :
    apiAnswer (apiReturnAxsreg loci val) = val.toNat := by
  have hregs : apiAnswer (apiReturnAxsreg loci val) =
      Binary.natLe [Word.lo (val.setWidth 16), Word.hi (val.setWidth 16),
        (val >>> 16).setWidth 8, (val >>> 24).setWidth 8] := rfl
  have hlt := val.isLt
  rw [hregs]
  simp only [Binary.natLe, Word.toNat_lo, Word.toNat_hi, BitVec.toNat_setWidth,
    BitVec.toNat_ushiftRight, Nat.shiftRight_eq_div_pow]
  omega

/-- The bytes of a header as the operation returns them: what does not print in the name is a
question mark. -/
def tapHeaderShown (header : List Byte) : List Byte :=
  header.take 9 ++ (header.drop 9).map tapPrintable

/-- The operation has answered with the header of the mark at `p`. -/
structure HeaderRead (loci : Loci) (p : Nat) (header : List Byte) : Prop where
  answer : apiAnswer loci = p
  pushed : loci.xstackPtr + lociTapHeaderSize = lociXstackSize
  bytes : loci.stackBytes loci.xstackPtr lociTapHeaderSize = header
  counter : loci.tap.counter = p + 4 + lociTapHeaderSize

/-- The operation has failed and left the tape as it was. -/
structure HeaderMissing (before after : Loci) : Prop where
  answer : apiAnswer after = 0xFFFFFFFF
  tape : after.tap = before.tap

theorem xstackSync_tap (loci : Loci) : (xstackSync loci).tap = loci.tap := by
  rw [xstackSync_eq]
  rfl

theorem apiReturnAxsreg_tap (loci : Loci) (val : BitVec 32) :
    (apiReturnAxsreg loci val).tap = loci.tap := rfl

theorem setErrno_tap (loci : Loci) (e : Word) : (setErrno loci e).tap = loci.tap := rfl

theorem apiReturnErrno_missing (loci : Loci) (e : Word) :
    HeaderMissing loci (apiReturnErrno loci e) := by
  constructor
  · rw [apiReturnErrno, apiAnswer_apiReturnAxsreg]
    rfl
  · rw [apiReturnErrno, apiReturnAxsreg_tap, setErrno_tap, xstackZero, xstackSync_tap]

theorem xstackPut_xstack {data : List Byte} (hdata : data.length ≤ lociXstackSize) :
    (xstackPut loci data).xstackPtr = lociXstackSize - data.length ∧
      (xstackPut loci data).xstack = (fun i =>
        if lociXstackSize - data.length ≤ i ∧ i < lociXstackSize - data.length + data.length then
          data.getD (i - (lociXstackSize - data.length)) 0#8
        else loci.xstack i) ∧
      (xstackPut loci data).tap = loci.tap := by
  have hroom : lociXstackSize - data.length + data.length ≤ lociXstackSize := by omega
  rw [xstackPut, xstackSync_eq]
  simp only [Loci.storeStack, Loci.checked_of_le hroom]
  exact ⟨rfl, rfl, rfl⟩

/-- What is put on the xstack is there. -/
theorem xstackPut_stackBytes {data : List Byte} (hdata : data.length ≤ lociXstackSize) :
    (xstackPut loci data).stackBytes (lociXstackSize - data.length) data.length = data := by
  refine List.ext_getElem (by simp [Loci.stackBytes]) fun i _ hi => ?_
  simp only [Loci.stackBytes, List.getElem_map, List.getElem_range, (xstackPut_xstack hdata).2.1]
  rw [if_pos ⟨Nat.le_add_right _ _, by omega⟩, Nat.add_sub_cancel_left]
  simp [hi]

/-! ## The operation -/

/-- A tape of less than 4 GiB is mounted. -/
structure TapMounted (loci : Loci) (file : List Byte) : Prop where
  opened : loci.tap.file = some file
  size : loci.tap.size = file.length
  small : file.length < 2 ^ 32

theorem lociTapOpen_mounted {tape : LociTape} {opened : TapeFile}
    (hsmall : opened.bytes.length < 2 ^ 32) :
    TapMounted { loci with tap := (lociTapOpen tape (some opened)).2 } opened.bytes :=
  ⟨rfl, Nat.mod_eq_of_lt hsmall, hsmall⟩

theorem tapHeaderAt_eq_some {tap : LociTape} {syncEnd : Nat} {header : List Byte} :
    tapHeaderAt tap file = some (syncEnd, header) ↔
      ∃ p, FirstSync file (tap.counter + 1) p ∧ p + 4 + lociTapHeaderSize ≤ file.length ∧
        syncEnd = p + 4 ∧
        header = tapHeaderShown ((file.drop (p + 4)).take lociTapHeaderSize) := by
  constructor
  · intro h
    simp only [tapHeaderAt] at h
    split at h
    · cases h
    next e rest hfound =>
      obtain ⟨p, hp, rfl, rfl⟩ := tapFindSync_start.mp hfound
      rw [Option.ite_none_left_eq_some] at h
      obtain ⟨hlength, heq⟩ := h
      obtain ⟨rfl, rfl⟩ := Prod.mk.inj (Option.some.inj heq)
      refine ⟨p, hp, ?_, rfl, rfl⟩
      have hsync := syncAt_length hp.sync
      simp only [List.length_take, List.length_drop] at hlength
      omega
  · rintro ⟨p, hp, hlength, rfl, rfl⟩
    have hfound := tapFindSync_start.mpr ⟨p, hp, rfl, rfl⟩
    simp only [tapHeaderAt, hfound]
    rw [if_neg]
    · rfl
    · simp only [List.length_take, List.length_drop]
      omega

/-- The header of the first mark behind the counter. -/
theorem opTapReadHeader_found (hmounted : TapMounted loci file)
    (hp : FirstSync file (loci.tap.counter + 1) p)
    (hlength : p + 4 + lociTapHeaderSize ≤ file.length) :
    HeaderRead (opTapReadHeader loci) p
      (tapHeaderShown ((file.drop (p + 4)).take lociTapHeaderSize)) := by
  have hheader := tapHeaderAt_eq_some.mpr ⟨p, hp, hlength, rfl, rfl⟩
  have hsmall := hmounted.small
  have hshown := tapHeaderAt_length hheader
  generalize hbytes : tapHeaderShown ((file.drop (p + 4)).take lociTapHeaderSize) = header at *
  have hroom : ¬ loci.tap.size < lociTapHeaderSize + 4 := by
    rw [hmounted.size]
    omega
  simp only [opTapReadHeader, hmounted.opened, if_neg hroom, hheader]
  generalize hzero : xstackZero _ = zeroed
  have htap : zeroed.tap.counter = p + 4 + lociTapHeaderSize := by
    rw [← hzero, xstackZero, xstackSync_tap]
    exact Nat.mod_eq_of_lt (by omega)
  have hdata : header.length ≤ lociXstackSize := by
    rw [hshown]
    decide
  obtain ⟨hptr, hxstack, hputTap⟩ := @xstackPut_xstack zeroed header hdata
  have hstack := @xstackPut_stackBytes zeroed header hdata
  rw [hshown] at hptr hstack
  generalize xstackPut zeroed header = put at *
  have hkept : (apiReturnAxsreg put (BitVec.ofNat 32 (p + 4 - 4))).xstackPtr = put.xstackPtr ∧
      ∀ off n, (apiReturnAxsreg put (BitVec.ofNat 32 (p + 4 - 4))).stackBytes off n =
        put.stackBytes off n := ⟨rfl, fun _ _ => rfl⟩
  constructor
  · rw [apiAnswer_apiReturnAxsreg, Nat.add_sub_cancel, BitVec.toNat_ofNat]
    exact Nat.mod_eq_of_lt (by omega)
  · rw [hkept.1, hptr]
    rfl
  · rw [hkept.2, hkept.1, hptr, hstack]
  · rw [apiReturnAxsreg_tap, hputTap, htap]

theorem opTapReadHeader_missing (hmounted : TapMounted loci file)
    (hnone : ∀ p, FirstSync file (loci.tap.counter + 1) p →
      file.length < p + 4 + lociTapHeaderSize) :
    HeaderMissing loci (opTapReadHeader loci) := by
  have hheader : tapHeaderAt loci.tap file = none := by
    rw [Option.eq_none_iff_forall_ne_some]
    rintro ⟨syncEnd, header⟩ hfound
    obtain ⟨p, hp, hlength, -⟩ := tapHeaderAt_eq_some.mp hfound
    exact absurd hlength (Nat.not_le.mpr (hnone p hp))
  simp only [opTapReadHeader, hmounted.opened, hheader, ite_self]
  exact apiReturnErrno_missing _ _

/-! ## A written header -/

/-- The mark of a written header is the last three of its synchronization bytes. -/
theorem written_firstSync (header : TapHeader) (data : List Byte) (hthree : 3 ≤ header.syncCount) :
    FirstSync (tapHeaderBytes header ++ data) 0 (header.syncCount - 3) := by
  refine ⟨Nat.zero_le _, ?_, fun q _ hlt ⟨rest, hrest⟩ => ?_⟩
  · have hlen : (List.replicate (header.syncCount - 3) tapSyncByte).length =
        header.syncCount - 3 := List.length_replicate
    have hfile : tapHeaderBytes header ++ data =
        List.replicate (header.syncCount - 3) tapSyncByte ++
          (tapSync ++ (tapHeaderBody header ++ 0x00#8 :: data)) := by
      have hcount : header.syncCount = header.syncCount - 3 + 3 := by omega
      rw [tapHeaderBytes, hcount, List.replicate_add]
      simp [tapSync, List.replicate]
    rw [SyncAt, hfile, List.drop_left' hlen]
    exact List.prefix_append _ _
  · -- the marker would be one of the synchronization bytes
    have hmarker : (tapHeaderBytes header ++ data)[q + 3]? = some tapMarker := by
      rw [← List.getElem?_drop, ← hrest]
      rfl
    have hbyte : (tapHeaderBytes header ++ data)[q + 3]? = some tapSyncByte := by
      rw [tapHeaderBytes, List.append_assoc, List.append_assoc,
        List.getElem?_append_left (by simp; omega), List.getElem?_replicate, if_pos (by omega)]
    exact absurd (hmarker.symm.trans hbyte) (by decide)

theorem written_header (header : TapHeader) (data : List Byte) (hthree : 3 ≤ header.syncCount) :
    (tapHeaderBytes header ++ data).drop (header.syncCount - 3 + 4) =
      tapHeaderBody header ++ 0x00#8 :: data := by
  have hlen : (List.replicate header.syncCount tapSyncByte ++ [tapMarker]).length =
      header.syncCount - 3 + 4 := by
    simp
    omega
  have hfile : tapHeaderBytes header ++ data =
      (List.replicate header.syncCount tapSyncByte ++ [tapMarker]) ++
        (tapHeaderBody header ++ 0x00#8 :: data) := by
    simp [tapHeaderBytes]
  rw [hfile, List.drop_left' hlen]

theorem tapWriteHeader_contents (header : TapHeader) :
    (tapWriteHeader tapOpenWrite header).2.contents = tapHeaderBytes header :=
  (tapWriteHeader_eq tapOpenWrite_writes header).2.2

/-! ## Reading a header -/

/-- No mark stands at the counter. -/
theorem opTapReadHeader_reads (hmounted : TapMounted loci file)
    (hstart : ¬ SyncAt file loci.tap.counter) :
    (∀ p, FirstSync file loci.tap.counter p → p + 4 + lociTapHeaderSize ≤ file.length →
      HeaderRead (opTapReadHeader loci) p
        (tapHeaderShown ((file.drop (p + 4)).take lociTapHeaderSize))) ∧
    ((∀ p, FirstSync file loci.tap.counter p → file.length < p + 4 + lociTapHeaderSize) →
      HeaderMissing loci (opTapReadHeader loci)) ∧
    ∀ (header : TapHeader) (data : List Byte),
      file = (tapWriteHeader tapOpenWrite header).2.contents ++ data → loci.tap.counter = 0 →
      3 < header.syncCount → lociTapHeaderSize ≤ (tapHeaderBody header ++ 0x00#8 :: data).length →
      HeaderRead (opTapReadHeader loci) (header.syncCount - 3)
        (tapHeaderShown ((tapHeaderBody header ++ 0x00#8 :: data).take lociTapHeaderSize)) := by
  simp only [firstSync_succ hstart]
  refine ⟨fun p hp => opTapReadHeader_found hmounted hp, opTapReadHeader_missing hmounted,
    fun header data hfile hcounter hthree hlength => ?_⟩
  rw [tapWriteHeader_contents] at hfile
  have hp := written_firstSync header data (Nat.le_of_lt hthree)
  have hbody := written_header header data (Nat.le_of_lt hthree)
  rw [← hfile] at hp hbody
  rw [hcounter] at hstart
  have hwhole := congrArg List.length hbody
  have hsync := syncAt_length hp.sync
  rw [List.length_drop] at hwhole
  rw [← hbody]
  refine opTapReadHeader_found hmounted ?_ (by omega)
  rw [hcounter]
  exact (firstSync_succ hstart).mp hp

/-- Four other bytes, a mark, nine bytes and a name. -/
def namedTape (name : List Byte) : List Byte :=
  [0#8, 0#8, 0#8, 0#8] ++ tapSync ++ [0#8, 0#8, 0#8, 0xC7#8, 0x09#8, 0xFF#8, 0x05#8, 0#8, 0#8] ++
    name ++ [0#8, 0#8, 0#8]

def namedLoci (name : List Byte) : Loci :=
  { lociInit ⟨fun _ => 0#8, []⟩ 0 with
    tap := (lociTapOpen .initial (some ⟨namedTape name, false⟩)).2 }

theorem namedLoci_mounted {name : List Byte} (hsmall : (namedTape name).length < 2 ^ 32) :
    TapMounted (namedLoci name) (namedTape name) := lociTapOpen_mounted hsmall

/-- `MAIN`. -/
def mainName : List Byte := [0x4D#8, 0x41#8, 0x49#8, 0x4E#8]

theorem mainName_read : HeaderRead (opTapReadHeader (namedLoci mainName)) 4
    (tapHeaderShown (((namedTape mainName).drop 8).take lociTapHeaderSize)) :=
  (opTapReadHeader_reads (namedLoci_mounted (by decide)) (by decide)).1 4
    ⟨by decide, by decide, by decide⟩ (by decide)

/-- The name `MA` and two graphics characters. -/
def blockName : List Byte := [0x4D#8, 0x41#8, 0x80#8, 0x81#8]

/-- The header of the first mark is not what is returned. -/
theorem blockName_changed :
    FirstSync (namedTape blockName) (namedLoci blockName).tap.counter 4 ∧
      4 + 4 + lociTapHeaderSize ≤ (namedTape blockName).length ∧
      ¬ HeaderRead (opTapReadHeader (namedLoci blockName)) 4
        (((namedTape blockName).drop 8).take lociTapHeaderSize) := by
  have hfirst : FirstSync (namedTape blockName) 0 4 := ⟨by decide, by decide, by decide⟩
  have hread := opTapReadHeader_found (namedLoci_mounted (by decide))
    ((firstSync_succ (by decide)).mp hfirst) (by decide)
  refine ⟨hfirst, by decide, fun h => ?_⟩
  exact absurd (hread.bytes.symm.trans h.bytes) (by decide)

end Phosphoric
