import Phosphoric.Tap.Readers

/-!
# A tape header cut off

A header is parsed from 32 bytes of the stack, of which the file fills what it has. The layouts with
plausible addresses are only looked for within the file, but the one taken when none is found, nine
bytes, is not; and a name ends at the end of the file as it does at its NUL.

**Theorem (`tapReadHeader_present`).** At every position of every file, with either reader, the
header that is returned with `true` was read from the bytes of the file, to the end of its name,
whatever the stack held, exactly when its name ends in the file.
-/

namespace Phosphoric

/-- A tape at a position it was left at. -/
def tapAt (bytes : List Byte) (fastLoad : Bool) (pos : Nat) : TapFile :=
  { tapOpenRead bytes fastLoad with position := pos, offset := pos }

/-- Where the fields of the header after a position are. -/
def tapHeaderPos (bytes : List Byte) (pos : Nat) : Nat :=
  pos + tapLeader bytes pos + 1 + tapFields (tapLayoutOf (tapRawAt bytes pos))

/-- A header that is in the file: its fields, and its name with its end. -/
structure TapHeaderAt (bytes : List Byte) (p : Nat) (header : TapHeader) : Prop where
  type : bytes[p]? = some header.type
  autoRun : bytes[p + 1]? = some header.autoRun
  endAddr : bytes[p + 2]? = some header.endAddr.hi ∧ bytes[p + 3]? = some header.endAddr.lo
  startAddr : bytes[p + 4]? = some header.startAddr.hi ∧ bytes[p + 5]? = some header.startAddr.lo
  name : header.name.bytes <+: bytes.drop (p + 7)
  ends : header.name.bytes.length = tapNameLen - 1 ∨
    bytes[p + 7 + header.name.bytes.length]? = some 0x00#8

/-- A name ends in the file: at a NUL, or after fifteen bytes. -/
def TapNameEnds (bytes : List Byte) (p : Nat) : Prop :=
  (∃ i < tapNameLen - 1, bytes[p + i]? = some 0x00#8) ∨ p + (tapNameLen - 1) ≤ bytes.length

/-! ## A name -/

/-- The name loop stops before a NUL. -/
theorem tapReadName_raw (stack : Nat → Byte) (raw : List Byte) (n p : Nat) :
    (tapReadName (tapRaw stack raw) raw.length n p).1 =
      ((raw.drop p).take n).takeWhile (· != 0x00#8) := by
  induction n generalizing p with
  | zero => rfl
  | succ n ih =>
    rw [tapReadName]
    by_cases hp : p < raw.length
    · have hraw : tapRaw stack raw p = raw[p] := by simp [tapRaw, hp]
      rw [if_pos hp, List.drop_eq_getElem_cons hp, List.take_succ_cons, List.takeWhile_cons, hraw]
      by_cases hzero : raw[p] = 0x00#8
      · rw [if_pos hzero, hzero]
        rfl
      · rw [if_neg hzero, if_pos (bne_iff_ne.mpr hzero), ← ih (p + 1)]
    · rw [if_neg hp, List.drop_eq_nil_of_le (not_lt.mp hp)]
      rfl

/-- Where such a name ends. -/
theorem takeWhile_take_ends (bytes : List Byte) (n : Nat) :
    let name := (bytes.take n).takeWhile (· != 0x00#8)
    name <+: bytes ∧
      (name.length = n ∨ bytes[name.length]? = some 0x00#8 ↔
        (∃ i < n, bytes[i]? = some 0x00#8) ∨ n ≤ bytes.length) := by
  induction bytes generalizing n with
  | nil =>
    refine ⟨?_, ?_⟩
    · rw [List.take_nil]
      exact List.nil_prefix
    · rw [List.take_nil]
      constructor
      · rintro (h | h)
        · exact .inr (Nat.le_of_eq h.symm)
        · cases h
      · rintro (⟨i, -, h⟩ | h)
        · cases h
        · exact .inl (Nat.le_zero.mp h).symm
  | cons b bytes ih =>
    cases n with
    | zero => exact ⟨List.nil_prefix, iff_of_true (.inl rfl) (.inr (Nat.zero_le _))⟩
    | succ n =>
      obtain ⟨hinitial, hends⟩ := ih n
      rw [List.take_succ_cons, List.takeWhile_cons]
      by_cases hzero : b = 0x00#8
      · subst hzero
        exact ⟨List.nil_prefix, iff_of_true (.inr rfl) (.inl ⟨0, Nat.succ_pos n, rfl⟩)⟩
      · rw [if_pos (bne_iff_ne.mpr hzero)]
        refine ⟨List.cons_prefix_cons.mpr ⟨rfl, hinitial⟩, ?_⟩
        rw [List.length_cons, List.length_cons, Nat.add_right_cancel_iff, List.getElem?_cons_succ,
          Nat.add_le_add_iff_right]
        refine hends.trans (or_congr_left ?_)
        constructor
        · rintro ⟨i, hi, h⟩
          exact ⟨i + 1, Nat.succ_lt_succ hi, h⟩
        · rintro ⟨i, hi, h⟩
          cases i with
          | zero => exact absurd (Option.some.inj h) hzero
          | succ i => exact ⟨i, Nat.lt_of_succ_lt_succ hi, h⟩

/-! ## Up to the marker -/

section Reader

variable {tap : TapFile} {bytes : List Byte} {pos : Nat}

/-- The sync bytes are skipped, to the end of the file if they go on. -/
theorem TapFile.Reads.skipSync_leader (h : tap.Reads bytes pos) {fuel : Nat}
    (hfuel : bytes.length - pos ≤ fuel) (count : Nat) :
    (skipSyncLoop fuel tap count).2.Reads bytes (pos + tapLeader bytes pos) := by
  induction fuel generalizing tap pos count with
  | zero =>
    have hleader : tapLeader bytes pos = 0 := by
      rw [tapLeader, List.drop_eq_nil_of_le (by omega)]
      rfl
    rw [hleader]
    exact h
  | succ fuel ih =>
    by_cases hend : bytes.length ≤ pos
    · have hleader : tapLeader bytes pos = 0 := by
        rw [tapLeader, List.drop_eq_nil_of_le hend]
        rfl
      rw [skipSyncLoop, if_pos (h.eof.mpr hend), hleader]
      exact h
    · have hlt := not_le.mp hend
      have hleader : tapLeader bytes pos =
          if bytes[pos] = tapSyncByte then tapLeader bytes (pos + 1) + 1 else 0 := by
        rw [tapLeader, List.drop_eq_getElem_cons hlt, List.takeWhile_cons]
        by_cases hsync : bytes[pos] = tapSyncByte
        · rw [if_pos hsync, if_pos (beq_iff_eq.mpr hsync)]
          rfl
        · rw [if_neg hsync, if_neg (by rwa [beq_iff_eq])]
          rfl
      rw [hleader]
      by_cases hsync : bytes[pos] = tapSyncByte
      · obtain ⟨tap', hstep, hnext⟩ :=
          h.skipSync_sync (List.getElem?_eq_some_iff.mpr ⟨hlt, hsync⟩) fuel count
        have hpos : pos + (tapLeader bytes (pos + 1) + 1) = pos + 1 + tapLeader bytes (pos + 1) := by
          omega
        rw [if_pos hsync, hstep, hpos]
        exact ih hnext (by omega) (count + 1)
      · rw [if_neg hsync, h.skipSync_stop (List.getElem?_eq_some_iff.mpr ⟨hlt, rfl⟩) hsync]
        exact h

/-- At the end of the file there is no byte. -/
theorem TapFile.Reads.readByte_end (h : tap.Reads bytes pos) (hpos : bytes.length ≤ pos) :
    (Phosphoric.readByte tap).1 = 0x00#8 := by
  obtain ⟨hcontents, hsize, hposition, himage | ⟨hfast, hoffset⟩⟩ := h
  · have hlt : ¬tap.position < tap.size := by omega
    simp only [Phosphoric.readByte, himage, if_neg hlt]
  · have himage : tap.image = none := by simp [TapFile.image, hfast]
    have hnone : tap.contents[tap.offset]? = none := by
      rw [hcontents, hoffset, List.getElem?_eq_none_iff]
      exact hpos
    simp only [Phosphoric.readByte, himage, hnone]

/-- The result of reading a header. -/
theorem TapFile.Reads.readHeader_eq (h : tap.Reads bytes pos) (stack : Nat → Byte)
    (header : TapHeader) :
    (bytes[pos + tapLeader bytes pos]? = some tapMarker →
      (tapReadHeader stack tap header).1 = true ∧
        (tapReadHeader stack tap header).2.1 =
          (tapParse (tapRaw stack (tapRawAt bytes pos)) (tapRawAt bytes pos).length
            (tapLayoutOf (tapRawAt bytes pos)) header).1) ∧
      (bytes[pos + tapLeader bytes pos]? ≠ some tapMarker →
        (tapReadHeader stack tap header).1 = false) := by
  have hsync : (Phosphoric.skipSync tap).2.Reads bytes (pos + tapLeader bytes pos) :=
    h.skipSync_leader (by rw [h.size, h.position]) 0
  unfold tapReadHeader
  dsimp only
  constructor
  · intro hmarker
    obtain ⟨hlt, hget⟩ := List.getElem?_eq_some_iff.mp hmarker
    obtain ⟨hbyte, hreads⟩ := hsync.readByte hlt
    have hraw : (Phosphoric.readBytes 32 (Phosphoric.readByte (Phosphoric.skipSync tap).2).2).1 =
        tapRawAt bytes pos := (hreads.readBytes 32).1
    have hlayout : tapDetect (tapRaw stack (tapRawAt bytes pos)) (tapRawAt bytes pos).length =
        tapLayoutOf (tapRawAt bytes pos) :=
      tapDetect_congr fun i hi => tapRaw_of_lt hi
    rw [if_neg (not_not_intro (hbyte.trans hget)), hraw, hlayout]
    exact ⟨rfl, rfl⟩
  · intro hmarker
    have hbyte : (Phosphoric.readByte (Phosphoric.skipSync tap).2).1 ≠ tapMarker := by
      by_cases hlt : pos + tapLeader bytes pos < bytes.length
      · rw [(hsync.readByte hlt).1]
        intro hget
        exact hmarker (List.getElem?_eq_some_iff.mpr ⟨hlt, hget⟩)
      · rw [hsync.readByte_end (not_lt.mp hlt)]
        decide
    rw [if_pos hbyte]

end Reader

/-! ## The end of the name -/

/-- More fuel changes nothing: the loop comes to its end. -/
theorem skipSyncLoop_fuel (tap : TapFile) (count k : Nat) :
    skipSyncLoop (tap.size - tap.position + k) tap count =
      skipSyncLoop (tap.size - tap.position) tap count := by
  generalize hfuel : tap.size - tap.position = fuel
  induction fuel generalizing tap count with
  | zero =>
    cases k with
    | zero => rfl
    | succ k =>
      have heof : tapEof tap = true := decide_eq_true (Nat.sub_eq_zero_iff_le.mp hfuel)
      rw [Nat.zero_add, skipSyncLoop.eq_2, if_pos heof, skipSyncLoop]
  | succ fuel ih =>
    rw [Nat.add_right_comm, skipSyncLoop, skipSyncLoop]
    by_cases heof : tapEof tap = true
    · rw [if_pos heof, if_pos heof]
    · rw [if_neg heof, if_neg heof]
      cases tap.image with
      | some data =>
        dsimp only
        rw [ih { tap with position := tap.position + 1 } (count + 1) (by dsimp only; omega)]
      | none =>
        cases tap.contents[tap.offset]? with
        | none => rfl
        | some byte =>
          dsimp only
          rw [ih { tap with offset := tap.offset + 1, position := tap.position + 1 } (count + 1)
            (by dsimp only; omega)]

/-- No layout starts after the fourth byte. -/
theorem tapFields_le (raw : Nat → Byte) (rawLen : Nat) : tapFields (tapDetect raw rawLen) ≤ 6 := by
  have hplain : tapFields (0, 9) ≤ 6 := by decide
  unfold tapDetect
  split_ifs
  · exact hplain
  · cases hfind : List.findSome? (tapDetectSkip raw rawLen)
      ([0, 1, 2, 3, 4].takeWhile fun skip => skip + 7 ≤ rawLen) with
    | none => exact hplain
    | some layout =>
      obtain ⟨skip, hskip, hfound⟩ := List.exists_of_findSome?_eq_some hfind
      have hle : ∀ skip ∈ [0, 1, 2, 3, 4], skip ≤ 4 := by decide
      have hskip := hle skip ((List.takeWhile_prefix _).subset hskip)
      unfold tapDetectSkip at hfound
      rw [Option.getD_some, tapFields]
      split_ifs at hfound <;> cases hfound <;> dsimp only <;> split_ifs <;> omega

/-- A header is whole exactly when its name ends in the file. -/
theorem tapParse_present (bytes : List Byte) (pos : Nat) (stack : Nat → Byte)
    (header : TapHeader) :
    TapHeaderAt bytes (tapHeaderPos bytes pos)
        (tapParse (tapRaw stack (tapRawAt bytes pos)) (tapRawAt bytes pos).length
          (tapLayoutOf (tapRawAt bytes pos)) header).1 ↔
      TapNameEnds bytes (tapHeaderPos bytes pos + 7) := by
  have hfields := tapFields_le (tapRaw (fun _ => 0x00#8) (tapRawAt bytes pos))
    (tapRawAt bytes pos).length
  change tapFields (tapLayoutOf (tapRawAt bytes pos)) ≤ 6 at hfields
  have hlen : tapNameLen - 1 = 15 := rfl
  have hraw : ∀ i < 32, (tapRawAt bytes pos)[i]? = bytes[pos + tapLeader bytes pos + 1 + i]? := by
    intro i hi
    rw [tapRawAt, List.getElem?_take_of_lt hi, List.getElem?_drop]
  have hdrop : ((tapRawAt bytes pos).drop
      (tapFields (tapLayoutOf (tapRawAt bytes pos)) + 7)).take (tapNameLen - 1) =
        (bytes.drop (tapHeaderPos bytes pos + 7)).take (tapNameLen - 1) := by
    have hcover : tapNameLen - 1 ≤
        32 - (tapFields (tapLayoutOf (tapRawAt bytes pos)) + 7) := by
      omega
    conv_lhs => arg 2; arg 2; rw [tapRawAt]
    rw [List.drop_take, List.take_take, Nat.min_eq_left hcover, List.drop_drop, tapHeaderPos,
      Nat.add_assoc _ (tapFields _) 7]
  have hname : (tapParse (tapRaw stack (tapRawAt bytes pos)) (tapRawAt bytes pos).length
      (tapLayoutOf (tapRawAt bytes pos)) header).1.name.bytes =
        ((bytes.drop (tapHeaderPos bytes pos + 7)).take (tapNameLen - 1)).takeWhile
          (· != 0x00#8) := by
    rw [← hdrop]
    exact tapReadName_raw stack (tapRawAt bytes pos) (tapNameLen - 1) _
  obtain ⟨hinitial, hends⟩ :=
    takeWhile_take_ends (bytes.drop (tapHeaderPos bytes pos + 7)) (tapNameLen - 1)
  have hat : ∀ i, (bytes.drop (tapHeaderPos bytes pos + 7))[i]? =
      bytes[tapHeaderPos bytes pos + 7 + i]? := fun i => List.getElem?_drop
  have hiff : (TapNameEnds bytes (tapHeaderPos bytes pos + 7)) ↔
      (∃ i < tapNameLen - 1, (bytes.drop (tapHeaderPos bytes pos + 7))[i]? = some 0x00#8) ∨
        tapNameLen - 1 ≤ (bytes.drop (tapHeaderPos bytes pos + 7)).length := by
    simp only [TapNameEnds, hat, List.length_drop]
    refine or_congr_right ?_
    omega
  rw [hiff, ← hends, ← hname, hat]
  rw [← hname] at hinitial
  constructor
  · exact fun h => h.ends
  · intro h
    -- the name ends in the file, so the fields before it are there
    have hin : tapHeaderPos bytes pos + 7 < bytes.length := by
      rcases h with h | h
      · have hle := hinitial.length_le
        rw [h, List.length_drop] at hle
        omega
      · have hlt := (List.getElem?_eq_some_iff.mp h).1
        omega
    have hfield : ∀ i < 6, bytes[tapHeaderPos bytes pos + i]? =
        some (tapRaw stack (tapRawAt bytes pos)
          (tapFields (tapLayoutOf (tapRawAt bytes pos)) + i)) := by
      intro i hi
      have hlt : tapHeaderPos bytes pos + i < bytes.length := by omega
      have hget := hraw (tapFields (tapLayoutOf (tapRawAt bytes pos)) + i) (by omega)
      rw [← Nat.add_assoc] at hget
      change (tapRawAt bytes pos)[_]? = bytes[tapHeaderPos bytes pos + i]? at hget
      rw [tapRaw, List.getD_eq_getElem?_getD, hget, List.getElem?_eq_getElem hlt]
      rfl
    exact {
      type := hfield 0 (by decide)
      autoRun := hfield 1 (by decide)
      endAddr := by
        dsimp only [tapParse]
        rw [Word.hi_mk, Word.lo_mk]
        exact ⟨hfield 2 (by decide), hfield 3 (by decide)⟩
      startAddr := by
        dsimp only [tapParse]
        rw [Word.hi_mk, Word.lo_mk]
        exact ⟨hfield 4 (by decide), hfield 5 (by decide)⟩
      name := hinitial
      ends := h }

theorem tapAt_reads {bytes : List Byte} (hne : bytes ≠ []) (fastLoad : Bool) (pos : Nat) :
    (tapAt bytes fastLoad pos).Reads bytes pos where
  contents := rfl
  size := rfl
  position := rfl
  source := by
    cases fastLoad with
    | false => exact .inr ⟨rfl, rfl⟩
    | true =>
      have hlen : 0 < bytes.length := List.length_pos_iff.mpr hne
      exact .inl (by simp [tapAt, tapOpenRead, TapFile.image, hlen])

/-- The loop over the sync bytes ends, and the header returned is in the file. -/
theorem tapReadHeader_present (bytes : List Byte) (fastLoad : Bool) (pos : Nat) :
    (∀ k count, skipSyncLoop (bytes.length - pos + k) (tapAt bytes fastLoad pos) count =
        skipSyncLoop (bytes.length - pos) (tapAt bytes fastLoad pos) count) ∧
      ((∀ stack header, (tapReadHeader stack (tapAt bytes fastLoad pos) header).1 = false ∨
          TapHeaderAt bytes (tapHeaderPos bytes pos)
            (tapReadHeader stack (tapAt bytes fastLoad pos) header).2.1) ↔
        (bytes[pos + tapLeader bytes pos]? = some tapMarker →
          TapNameEnds bytes (tapHeaderPos bytes pos + 7))) := by
  refine ⟨fun k count => skipSyncLoop_fuel (tapAt bytes fastLoad pos) count k, ?_⟩
  by_cases hempty : bytes = []
  · subst hempty
    refine iff_of_true (fun stack header => .inl ?_) (fun h => by cases h)
    cases fastLoad <;> simp [tapReadHeader, tapAt, tapOpenRead, skipSync, skipSyncLoop, readByte,
      TapFile.image, tapMarker]
  · have hreads := tapAt_reads hempty fastLoad pos
    by_cases hmarker : bytes[pos + tapLeader bytes pos]? = some tapMarker
    · rw [imp_iff_right hmarker]
      constructor
      · intro h
        obtain ⟨hok, hheader⟩ := (hreads.readHeader_eq (fun _ => 0x00#8) tapHeaderZero).1 hmarker
        rcases h (fun _ => 0x00#8) tapHeaderZero with hfalse | hat
        · rw [hok] at hfalse
          cases hfalse
        · rw [hheader] at hat
          exact (tapParse_present bytes pos _ _).mp hat
      · intro h stack header
        rw [((hreads.readHeader_eq stack header).1 hmarker).2]
        exact .inr ((tapParse_present bytes pos stack header).mpr h)
    · exact iff_of_true (fun stack header => .inl ((hreads.readHeader_eq stack header).2 hmarker))
        (fun h => absurd h hmarker)

/-- After a marker that ends the file the fields are what the stack held. -/
theorem tapReadHeader_marker :
    ¬∀ stack header, (tapReadHeader stack (tapAt [tapMarker] false 0) header).1 = false ∨
      TapHeaderAt [tapMarker] (tapHeaderPos [tapMarker] 0)
        (tapReadHeader stack (tapAt [tapMarker] false 0) header).2.1 := by
  intro hall
  rcases hall (fun _ => 0x80#8) tapHeaderZero with h | h
  · revert h
    decide
  · have htype := h.type
    revert htype
    decide

end Phosphoric
