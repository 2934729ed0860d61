import Phosphoric.Lib.Word

/-!
# The TAP tape file

`tap_file_t` of `storage/tap.h` and the functions of `storage/tap.c` that read and write a tape:
opening, the sync leader, single bytes, the header in both directions, and the data after it.

A tape is read in one of two ways: from the memory image `data` (`fast_load`), or byte by byte
through the C stream, whose own offset `offset` the code keeps in step with `position`. Positions
and sizes are `Nat`: no tape comes near the 4 GiB of `uint32_t`. Opening is modelled where it
succeeds, and `fwrite` writes all it is given.

**Theorem (`tapWriteHeader_eq`).** On a tape open for writing, `tapWriteHeader` appends
`tapHeaderBytes`.
-/

namespace Phosphoric

/-- `TAP_SYNC_BYTE`. -/
def tapSyncByte : Byte := 0x16#8

/-- `TAP_MARKER`. -/
def tapMarker : Byte := 0x24#8

/-- `TAP_NAME_LEN`. -/
def tapNameLen : Nat := 16

/-- The string in a NUL-terminated `char name[TAP_NAME_LEN]`. -/
structure TapName where
  bytes : List Byte
  length_lt : bytes.length < tapNameLen
  ne_zero : ∀ b ∈ bytes, b ≠ 0#8
  deriving DecidableEq

/-- `tap_header_t`. -/
structure TapHeader where
  syncLen : Byte
  name : TapName
  type : Byte
  autoRun : Byte
  startAddr : Word
  endAddr : Word
  checksum : Byte
  deriving DecidableEq

/-- `tap_file_t`, with the bytes of the file and the offset of its stream. -/
structure TapFile where
  contents : List Byte
  offset : Nat
  writing : Bool
  position : Nat
  size : Nat
  fastLoad : Bool
  data : Option (List Byte)
  deriving DecidableEq

/-- `tap_open_read` of a file with these bytes. -/
def tapOpenRead (contents : List Byte) (fastLoad : Bool) : TapFile where
  contents := contents
  offset := if fastLoad && 0 < contents.length then contents.length else 0
  writing := false
  position := 0
  size := contents.length
  fastLoad := fastLoad
  data := if fastLoad && 0 < contents.length then some contents else none

/-- `tap_open_write`: the file is truncated. -/
def tapOpenWrite : TapFile where
  contents := []
  offset := 0
  writing := true
  position := 0
  size := 0
  fastLoad := false
  data := none

/-- `tap_eof`. -/
def tapEof (tap : TapFile) : Bool := tap.size ≤ tap.position

/-- `tap_rewind`. -/
def tapRewind (tap : TapFile) : TapFile := { tap with offset := 0, position := 0 }

/-- `tap->fast_load && tap->data`: the memory image the tape is read from. -/
def TapFile.image (tap : TapFile) : Option (List Byte) := if tap.fastLoad then tap.data else none

/-! ## Reading -/

/-- The loop of `skip_sync`. Every round but the last moves `position` towards `size`. -/
def skipSyncLoop : Nat → TapFile → Nat → Nat × TapFile
  | 0, tap, count => (count, tap)
  | fuel + 1, tap, count =>
    if tapEof tap then (count, tap)
    else
      match tap.image with
      | some data =>
        if data.getD tap.position 0#8 = tapSyncByte then
          skipSyncLoop fuel { tap with position := tap.position + 1 } (count + 1)
        else (count, tap)
      | none =>
        match tap.contents[tap.offset]? with
        | none => (count, tap)
        | some byte =>
          if byte = tapSyncByte then
            skipSyncLoop fuel
              { tap with offset := tap.offset + 1, position := tap.position + 1 } (count + 1)
          -- the push-back tests `fast_load` alone
          else if tap.fastLoad then (count, { tap with offset := tap.offset + 1 })
          else (count, tap)

/-- `skip_sync`. -/
def skipSync (tap : TapFile) : Nat × TapFile := skipSyncLoop (tap.size - tap.position) tap 0

/-- `read_byte`. A failed `fread` leaves the position. -/
def readByte (tap : TapFile) : Byte × TapFile :=
  match tap.image with
  | some data =>
    (if tap.position < tap.size then data.getD tap.position 0#8 else 0#8,
      { tap with position := tap.position + 1 })
  | none =>
    match tap.contents[tap.offset]? with
    | none => (0#8, tap)
    | some byte => (byte, { tap with offset := tap.offset + 1, position := tap.position + 1 })

/-- `for (i = 0; i < n && !tap_eof(tap); i++) buffer[i] = read_byte(tap)`. -/
def readBytes : Nat → TapFile → List Byte × TapFile
  | 0, tap => ([], tap)
  | n + 1, tap =>
    if tapEof tap then ([], tap)
    else
      let (b, tap) := readByte tap
      let (bs, tap) := readBytes n tap
      (b :: bs, tap)

/-- `tap_read_data`: the bytes stored in the buffer, whose number it returns. -/
def tapReadData (tap : TapFile) (size : Nat) : List Byte × TapFile := readBytes size tap

/-! ### The layout of a header -/

/-- `t == 0x00 || t == 0x80 || t == 0xC0`. -/
def tapTypeByte (t : Byte) : Bool := t == 0x00#8 || t == 0x80#8 || t == 0xC0#8

/-- `start < end && start >= 0x0100 && end < 0xC000`. -/
def tapPlausible (start stop : Word) : Bool :=
  start < stop && 0x0100#16 ≤ start && stop < 0xC000#16

/-- One round of the padding loop: `(best_off, best_sz)` when it finds a layout. -/
def tapDetectSkip (raw : Nat → Byte) (rawLen skip : Nat) : Option (Nat × Nat) :=
  if !tapTypeByte (raw skip) then none
  else if skip + 7 ≤ rawLen && tapPlausible (.mk (raw (skip + 4)) (raw (skip + 5)))
      (.mk (raw (skip + 2)) (raw (skip + 3))) then some (skip, 7)
  else if 0 < skip && skip + 9 ≤ rawLen && tapPlausible (.mk (raw (skip + 6)) (raw (skip + 7)))
      (.mk (raw (skip + 4)) (raw (skip + 5))) then some (skip, 9)
  else none

/-- `(best_off, best_sz)`: nine bytes without padding, else the first layout the padding loop
finds, else nine bytes without padding after all. -/
def tapDetect (raw : Nat → Byte) (rawLen : Nat) : Nat × Nat :=
  if 9 ≤ rawLen && tapTypeByte (raw 0) &&
      tapPlausible (.mk (raw 6) (raw 7)) (.mk (raw 4) (raw 5)) then (0, 9)
  else
    (([0, 1, 2, 3, 4].takeWhile fun skip => skip + 7 ≤ rawLen).findSome?
      (tapDetectSkip raw rawLen)).getD (0, 9)

/-- The name loop, with `n` bytes of room, from `raw[p]`: the name and where it stops. -/
def tapReadName (raw : Nat → Byte) (rawLen : Nat) : Nat → Nat → List Byte × Nat
  | 0, p => ([], p)
  | n + 1, p =>
    if p < rawLen then
      if raw p = 0#8 then ([], p + 1)
      else
        let (name, p') := tapReadName raw rawLen n (p + 1)
        (raw p :: name, p')
    else ([], p)

theorem tapReadName_length_le (raw : Nat → Byte) (rawLen n p : Nat) :
    (tapReadName raw rawLen n p).1.length ≤ n := by
  induction n generalizing p with
  | zero => simp [tapReadName]
  | succ n ih =>
    simp only [tapReadName]
    split_ifs with hp hz
    · simp
    · simpa using ih (p + 1)
    · simp

theorem tapReadName_ne_zero (raw : Nat → Byte) (rawLen n p : Nat) :
    ∀ b ∈ (tapReadName raw rawLen n p).1, b ≠ 0#8 := by
  induction n generalizing p with
  | zero => simp [tapReadName]
  | succ n ih =>
    simp only [tapReadName]
    split_ifs with hp hz
    · simp
    · intro b hb
      rcases List.mem_cons.mp hb with rfl | hb
      · exact hz
      · exact ih (p + 1) b hb
    · simp

/-- The header parsed from `raw` with layout `(off, sz)`, and the index after the name. -/
def tapParse (raw : Nat → Byte) (rawLen : Nat) (layout : Nat × Nat) (header : TapHeader) :
    TapHeader × Nat :=
  let p := layout.1 + if layout.2 = 9 then 2 else 0
  ({ header with
      type := raw p
      autoRun := raw (p + 1)
      endAddr := .mk (raw (p + 2)) (raw (p + 3))
      startAddr := .mk (raw (p + 4)) (raw (p + 5))
      name :=
        { bytes := (tapReadName raw rawLen (tapNameLen - 1) (p + 7)).1
          length_lt := Nat.lt_succ_of_le (tapReadName_length_le raw rawLen 15 (p + 7))
          ne_zero := tapReadName_ne_zero raw rawLen 15 (p + 7) } },
    (tapReadName raw rawLen (tapNameLen - 1) (p + 7)).2)

/-- `raw[i]`, where what the file did not fill is whatever the stack held. -/
def tapRaw (stack : Nat → Byte) (raw : List Byte) (i : Nat) : Byte := raw.getD i (stack i)

/-- `tap_read_header`: its result, `*header` and the tape. -/
def tapReadHeader (stack : Nat → Byte) (tap : TapFile) (header : TapHeader) :
    Bool × TapHeader × TapFile :=
  let tap := (skipSync tap).2
  let (marker, tap) := readByte tap
  if marker ≠ tapMarker then (false, header, tap)
  else
    let savePos := tap.position
    let (raw, tap) := readBytes 32 tap
    let layout := tapDetect (tapRaw stack raw) raw.length
    let (header, p) := tapParse (tapRaw stack raw) raw.length layout header
    let tap := { tap with position := savePos + p }
    (true, header, if tap.fastLoad then tap else { tap with offset := tap.position })

/-! ## Writing -/

/-- `fwrite` at the stream's offset. -/
def TapFile.fwrite (tap : TapFile) (bytes : List Byte) : TapFile :=
  { tap with
    contents := tap.contents.take tap.offset ++ bytes ++
      tap.contents.drop (tap.offset + bytes.length)
    offset := tap.offset + bytes.length }

/-- `fwrite` and the `tap->position` that counts it. -/
def TapFile.put (tap : TapFile) (bytes : List Byte) : TapFile :=
  { tap.fwrite bytes with position := tap.position + bytes.length }

/-- `header->sync_len ? header->sync_len : 3`. -/
def TapHeader.syncCount (header : TapHeader) : Nat :=
  if header.syncLen = 0#8 then 3 else header.syncLen.toNat

/-- `tap_write_header`. -/
def tapWriteHeader (tap : TapFile) (header : TapHeader) : Bool × TapFile :=
  if !tap.writing then (false, tap)
  else
    let tap := tap.put (List.replicate header.syncCount tapSyncByte)
    let tap := tap.put [tapMarker]
    let tap := tap.put [0x00#8, 0x00#8]
    let tap := tap.put [header.type, header.autoRun]
    let tap := tap.put [header.endAddr.hi, header.endAddr.lo]
    let tap := tap.put [header.startAddr.hi, header.startAddr.lo]
    let tap := tap.put [0x00#8]
    let tap := tap.put (header.name.bytes.take (tapNameLen - 1))
    let tap := tap.put [0x00#8]
    (true, { tap with size := tap.position })

/-- `tap_write_data`. -/
def tapWriteData (tap : TapFile) (bytes : List Byte) : Bool × TapFile :=
  if !tap.writing then (false, tap)
  else
    let tap := tap.put bytes
    (true, { tap with size := tap.position })

/-! ## A tape open for writing -/

/-- The tape stands at the end of what was written. -/
structure TapFile.Writes (tap : TapFile) : Prop where
  writing : tap.writing = true
  offset : tap.offset = tap.contents.length
  position : tap.position = tap.contents.length

theorem tapOpenWrite_writes : tapOpenWrite.Writes := ⟨rfl, rfl, rfl⟩

theorem TapFile.Writes.put_contents {tap : TapFile} (h : tap.Writes) (bytes : List Byte) :
    (tap.put bytes).contents = tap.contents ++ bytes := by
  simp [TapFile.put, TapFile.fwrite, h.offset]

theorem TapFile.Writes.put {tap : TapFile} (h : tap.Writes) (bytes : List Byte) :
    (tap.put bytes).Writes where
  writing := h.writing
  offset := by
    rw [h.put_contents bytes, List.length_append, ← h.offset]
    rfl
  position := by
    rw [h.put_contents bytes, List.length_append, ← h.position]
    rfl

/-- What follows the marker: two reserved bytes, seven of the header, the name. -/
def tapHeaderBody (header : TapHeader) : List Byte :=
  [0x00#8, 0x00#8, header.type, header.autoRun, header.endAddr.hi, header.endAddr.lo,
    header.startAddr.hi, header.startAddr.lo, 0x00#8] ++ header.name.bytes

/-- The bytes of a written header. -/
def tapHeaderBytes (header : TapHeader) : List Byte :=
  List.replicate header.syncCount tapSyncByte ++ tapMarker :: tapHeaderBody header ++ [0x00#8]

theorem tapWriteHeader_eq {tap : TapFile} (h : tap.Writes) (header : TapHeader) :
    (tapWriteHeader tap header).1 = true ∧ (tapWriteHeader tap header).2.Writes ∧
      (tapWriteHeader tap header).2.contents = tap.contents ++ tapHeaderBytes header := by
  have hname : header.name.bytes.take (tapNameLen - 1) = header.name.bytes :=
    List.take_of_length_le (Nat.le_of_lt_succ header.name.length_lt)
  have h₁ := h.put (List.replicate header.syncCount tapSyncByte)
  have h₂ := h₁.put [tapMarker]
  have h₃ := h₂.put [0x00#8, 0x00#8]
  have h₄ := h₃.put [header.type, header.autoRun]
  have h₅ := h₄.put [header.endAddr.hi, header.endAddr.lo]
  have h₆ := h₅.put [header.startAddr.hi, header.startAddr.lo]
  have h₇ := h₆.put [0x00#8]
  have h₈ := h₇.put header.name.bytes
  have h₉ := h₈.put [0x00#8]
  simp only [tapWriteHeader, h.writing, Bool.not_true, Bool.false_eq_true, if_false, hname]
  refine ⟨trivial, ⟨h₉.writing, h₉.offset, h₉.position⟩, ?_⟩
  rw [h₈.put_contents, h₇.put_contents, h₆.put_contents, h₅.put_contents, h₄.put_contents,
    h₃.put_contents, h₂.put_contents, h₁.put_contents, h.put_contents]
  simp [tapHeaderBytes, tapHeaderBody]

theorem tapWriteData_eq {tap : TapFile} (h : tap.Writes) (bytes : List Byte) :
    (tapWriteData tap bytes).2.Writes ∧
      (tapWriteData tap bytes).2.contents = tap.contents ++ bytes := by
  have h₁ := h.put bytes
  simp only [tapWriteData, h.writing, Bool.not_true, Bool.false_eq_true, if_false]
  exact ⟨⟨h₁.writing, h₁.offset, h₁.position⟩, h.put_contents bytes⟩

/-! ## A tape open for reading -/

/-- The tape reads the file `bytes` and stands at `pos`, in one of the two ways. -/
structure TapFile.Reads (tap : TapFile) (bytes : List Byte) (pos : Nat) : Prop where
  contents : tap.contents = bytes
  size : tap.size = bytes.length
  position : tap.position = pos
  source : tap.image = some bytes ∨ tap.fastLoad = false ∧ tap.offset = pos

theorem tapOpenRead_reads {bytes : List Byte} (hne : bytes ≠ []) (fastLoad : Bool) :
    (tapOpenRead bytes fastLoad).Reads bytes 0 where
  contents := rfl
  size := rfl
  position := rfl
  source := by
    have hlen : 0 < bytes.length := List.length_pos_iff.mpr hne
    cases fastLoad
    · exact .inr ⟨rfl, rfl⟩
    · exact .inl (by simp [tapOpenRead, TapFile.image, hlen])

variable {tap : TapFile} {bytes : List Byte} {pos : Nat}

theorem TapFile.Reads.rewind (h : tap.Reads bytes pos) : (tapRewind tap).Reads bytes 0 where
  contents := h.contents
  size := h.size
  position := rfl
  source := by
    rcases h.source with h | ⟨hfast, -⟩
    · exact .inl h
    · exact .inr ⟨hfast, rfl⟩

theorem TapFile.Reads.eof (h : tap.Reads bytes pos) :
    tapEof tap = true ↔ bytes.length ≤ pos := by
  simp [tapEof, h.size, h.position]

/-- One byte further on. -/
theorem TapFile.Reads.readByte (h : tap.Reads bytes pos) (hpos : pos < bytes.length) :
    (readByte tap).1 = bytes[pos] ∧ (readByte tap).2.Reads bytes (pos + 1) := by
  obtain ⟨hc, hs, hp, himg | ⟨hfast, ho⟩⟩ := h
  · have hget : bytes.getD tap.position 0#8 = bytes[pos] := by simp [hp, hpos]
    have hlt : tap.position < tap.size := by rwa [hp, hs]
    simp only [Phosphoric.readByte, himg, hget, hlt, if_true]
    exact ⟨trivial, hc, hs, by rw [← hp], .inl himg⟩
  · have himg : tap.image = none := by simp [TapFile.image, hfast]
    have hbyte : tap.contents[tap.offset]? = some bytes[pos] := by simp [hc, ho, hpos]
    simp only [Phosphoric.readByte, himg, hbyte]
    exact ⟨trivial, hc, hs, by rw [← hp], .inr ⟨hfast, by rw [← ho]⟩⟩

theorem TapFile.Reads.readBytes (h : tap.Reads bytes pos) (n : Nat) :
    (readBytes n tap).1 = (bytes.drop pos).take n ∧
      (readBytes n tap).2.Reads bytes (pos + ((bytes.drop pos).take n).length) := by
  induction n generalizing tap pos with
  | zero => simpa [Phosphoric.readBytes] using h
  | succ n ih =>
    by_cases hend : bytes.length ≤ pos
    · simp [Phosphoric.readBytes, h.eof.mpr hend, List.drop_eq_nil_of_le hend, h]
    · obtain ⟨hbyte, hnext⟩ := h.readByte (not_le.mp hend)
      obtain ⟨hrest, hlast⟩ := ih hnext
      have hne : tapEof tap = false := by
        rw [Bool.eq_false_iff, ne_eq, h.eof]
        exact hend
      have hdrop : (bytes.drop pos).take (n + 1) =
          bytes[pos] :: (bytes.drop (pos + 1)).take n := by
        rw [List.drop_eq_getElem_cons (not_le.mp hend), List.take_succ_cons]
      simp only [Phosphoric.readBytes, hne, Bool.false_eq_true, if_false, hbyte, hrest, hdrop]
      refine ⟨trivial, ?_⟩
      rwa [List.length_cons, Nat.add_comm _ 1, ← Nat.add_assoc]

/-- A round of `skip_sync` on a sync byte. -/
theorem TapFile.Reads.skipSync_sync (h : tap.Reads bytes pos)
    (hbyte : bytes[pos]? = some tapSyncByte) (fuel count : Nat) :
    ∃ tap', skipSyncLoop (fuel + 1) tap count = skipSyncLoop fuel tap' (count + 1) ∧
      tap'.Reads bytes (pos + 1) := by
  obtain ⟨hpos, -⟩ := List.getElem?_eq_some_iff.mp hbyte
  have heof : tapEof tap = false := by
    rw [Bool.eq_false_iff, ne_eq, h.eof]
    exact not_le.mpr hpos
  obtain ⟨hc, hs, hp, himg | ⟨hfast, ho⟩⟩ := h
  · have hget : bytes.getD tap.position 0#8 = tapSyncByte := by simp [hp, hbyte]
    rw [skipSyncLoop, if_neg (by simp [heof]), himg]
    simp only [hget, if_true]
    exact ⟨_, rfl, hc, hs, by rw [← hp], .inl himg⟩
  · have himg : tap.image = none := by simp [TapFile.image, hfast]
    have hget : tap.contents[tap.offset]? = some tapSyncByte := by rw [hc, ho, hbyte]
    rw [skipSyncLoop, if_neg (by simp [heof]), himg]
    simp only [hget, if_true]
    exact ⟨_, rfl, hc, hs, by rw [← hp], .inr ⟨hfast, by rw [← ho]⟩⟩

/-- The round that ends `skip_sync`, on another byte: the stream is pushed back. -/
theorem TapFile.Reads.skipSync_stop (h : tap.Reads bytes pos) {b : Byte}
    (hbyte : bytes[pos]? = some b) (hb : b ≠ tapSyncByte) (fuel count : Nat) :
    skipSyncLoop fuel tap count = (count, tap) := by
  cases fuel with
  | zero => rfl
  | succ fuel =>
    obtain ⟨hc, hs, hp, himg | ⟨hfast, ho⟩⟩ := h
    · have hget : bytes.getD tap.position 0#8 = b := by simp [hp, hbyte]
      rw [skipSyncLoop, himg]
      simp only [hget, hb, if_false, ite_self]
    · have himg : tap.image = none := by simp [TapFile.image, hfast]
      have hget : tap.contents[tap.offset]? = some b := by rw [hc, ho, hbyte]
      rw [skipSyncLoop, himg]
      simp only [hget, hb, hfast, if_false, Bool.false_eq_true, ite_self]

/-- The leader is skipped, up to the first byte that is no sync byte. -/
theorem TapFile.Reads.skipSync {n : Nat} {b : Byte} {tail : List Byte}
    (h : tap.Reads bytes pos) (hb : b ≠ tapSyncByte)
    (hdrop : bytes.drop pos = List.replicate n tapSyncByte ++ b :: tail) :
    (skipSync tap).2.Reads bytes (pos + n) := by
  have hlen : n ≤ tap.size - tap.position := by
    have := congrArg List.length hdrop
    rw [List.length_drop, List.length_append, List.length_replicate] at this
    rw [h.size, h.position]
    omega
  rw [Phosphoric.skipSync]
  -- on the leader, with fuel for each of its bytes
  generalize tap.size - tap.position = fuel at hlen
  generalize 0 = count
  induction n generalizing tap pos fuel count with
  | zero =>
    have hbyte : bytes[pos]? = some b := by
      have := congrArg (·[0]?) hdrop
      simpa using this
    rw [h.skipSync_stop hbyte hb]
    exact h
  | succ n ih =>
    obtain ⟨fuel, rfl⟩ : ∃ f, fuel = f + 1 := ⟨fuel - 1, by omega⟩
    have hbyte : bytes[pos]? = some tapSyncByte := by
      have := congrArg (·[0]?) hdrop
      simpa [List.replicate_succ] using this
    have hdrop' : bytes.drop (pos + 1) = List.replicate n tapSyncByte ++ b :: tail := by
      rw [← List.drop_drop, hdrop, List.replicate_succ]
      rfl
    obtain ⟨tap', hstep, h'⟩ := h.skipSync_sync hbyte fuel count
    rw [hstep, Nat.add_comm n 1, ← Nat.add_assoc]
    exact ih h' hdrop' fuel (by omega) (count + 1)

end Phosphoric
