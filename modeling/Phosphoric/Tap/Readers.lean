import Phosphoric.Lib.Machine
import Phosphoric.Tap.Header

/-!
# Two ways of reading a tape

A tape opened with `fast_load` is read from memory, without it from the stream. Each primitive has
two bodies, and `tap_read_header` puts them together as the bytes tell it to.

At the end of the file `read_byte` moves the position of a tape in memory but not that of the
stream. A header cut off by the end of the file is filled up with what the stack held.

**Specification** (`tapHeaderFrom`). What reading a header at a position of a tape gives: the
result, the header and the next position. It names neither reader.

**Theorem (`tap_readers_agree`).** The two readers answer alike and stand at the same position
after any calls, as long as no header is read at the end of the file or across it.
-/

namespace Phosphoric

/-! ## What a header reads as -/

/-- The sync bytes at a position. -/
def tapLeader (bytes : List Byte) (pos : Nat) : Nat :=
  ((bytes.drop pos).takeWhile (· == tapSyncByte)).length

/-- The bytes `tap_read_header` takes after the marker. -/
def tapRawAt (bytes : List Byte) (pos : Nat) : List Byte :=
  (bytes.drop (pos + tapLeader bytes pos + 1)).take 32

/-- Where the fields start, for a layout. -/
def tapFields (layout : Nat × Nat) : Nat := layout.1 + if layout.2 = 9 then 2 else 0

/-- The layout found in these bytes. -/
def tapLayoutOf (raw : List Byte) : Nat × Nat := tapDetect (tapRaw (fun _ => 0#8) raw) raw.length

/-- A byte follows the sync bytes, and if it is the marker, the fields of the header follow it. -/
def tapHeaderIn (bytes : List Byte) (pos : Nat) : Prop :=
  pos + tapLeader bytes pos < bytes.length ∧
    (bytes.getD (pos + tapLeader bytes pos) 0#8 = tapMarker →
      tapFields (tapLayoutOf (tapRawAt bytes pos)) + 6 ≤ (tapRawAt bytes pos).length)

/-- The result of reading a header, the header and the position after it. -/
def tapHeaderFrom (bytes : List Byte) (pos : Nat) (header : TapHeader) : Bool × TapHeader × Nat :=
  let marker := pos + tapLeader bytes pos
  if bytes.getD marker 0#8 ≠ tapMarker then (false, header, marker + 1)
  else
    let raw := tapRawAt bytes pos
    let parsed := tapParse (tapRaw (fun _ => 0#8) raw) raw.length (tapLayoutOf raw) header
    (true, parsed.1, marker + 1 + parsed.2)

/-! ## Bytes outside the file play no part -/

section Congr

variable {raw raw' : Nat → Byte} {rawLen : Nat}

theorem tapReadName_congr (h : ∀ i < rawLen, raw i = raw' i) (n p : Nat) :
    tapReadName raw rawLen n p = tapReadName raw' rawLen n p := by
  induction n generalizing p with
  | zero => rfl
  | succ n ih =>
    simp only [tapReadName]
    by_cases hp : p < rawLen
    · rw [if_pos hp, if_pos hp, h p hp, ih]
    · rw [if_neg hp, if_neg hp]

theorem tapDetectSkip_congr (h : ∀ i < rawLen, raw i = raw' i) {skip : Nat}
    (hskip : skip + 7 ≤ rawLen) :
    tapDetectSkip raw rawLen skip = tapDetectSkip raw' rawLen skip := by
  have hnine : (decide (0 < skip) && decide (skip + 9 ≤ rawLen) &&
        tapPlausible (.mk (raw (skip + 6)) (raw (skip + 7)))
          (.mk (raw (skip + 4)) (raw (skip + 5)))) =
      (decide (0 < skip) && decide (skip + 9 ≤ rawLen) &&
        tapPlausible (.mk (raw' (skip + 6)) (raw' (skip + 7)))
          (.mk (raw' (skip + 4)) (raw' (skip + 5)))) := by
    by_cases h9 : skip + 9 ≤ rawLen
    · rw [h (skip + 4) (by omega), h (skip + 5) (by omega), h (skip + 6) (by omega),
        h (skip + 7) (by omega)]
    · simp [h9]
  simp only [tapDetectSkip]
  rw [hnine, h skip (by omega), h (skip + 2) (by omega), h (skip + 3) (by omega),
    h (skip + 4) (by omega), h (skip + 5) (by omega)]

theorem tapDetect_congr (h : ∀ i < rawLen, raw i = raw' i) :
    tapDetect raw rawLen = tapDetect raw' rawLen := by
  have hrounds : ([0, 1, 2, 3, 4].takeWhile fun skip => decide (skip + 7 ≤ rawLen)).findSome?
        (tapDetectSkip raw rawLen) =
      ([0, 1, 2, 3, 4].takeWhile fun skip => decide (skip + 7 ≤ rawLen)).findSome?
        (tapDetectSkip raw' rawLen) := by
    have hall : ∀ rounds : List Nat, (∀ skip ∈ rounds, skip + 7 ≤ rawLen) →
        rounds.findSome? (tapDetectSkip raw rawLen) =
          rounds.findSome? (tapDetectSkip raw' rawLen) := by
      intro rounds hrounds
      induction rounds with
      | nil => rfl
      | cons skip rounds ih =>
        rw [List.findSome?_cons, List.findSome?_cons,
          tapDetectSkip_congr h (hrounds skip (by simp)),
          ih fun skip' hmem => hrounds skip' (by simp [hmem])]
    apply hall
    intro skip hmem
    simpa using List.mem_takeWhile_imp hmem
  simp only [tapDetect, hrounds]
  by_cases h9 : 9 ≤ rawLen
  · rw [h 0 (by omega), h 4 (by omega), h 5 (by omega), h 6 (by omega), h 7 (by omega)]
  · simp [h9]

theorem tapParse_congr (h : ∀ i < rawLen, raw i = raw' i) {layout : Nat × Nat}
    (hin : tapFields layout + 6 ≤ rawLen) (header : TapHeader) :
    tapParse raw rawLen layout header = tapParse raw' rawLen layout header := by
  rw [tapFields] at hin
  simp only [tapParse]
  have hname := tapReadName_congr h (tapNameLen - 1)
  simp only [hname, h _ (show layout.1 + (if layout.2 = 9 then 2 else 0) < rawLen by omega),
    h _ (show layout.1 + (if layout.2 = 9 then 2 else 0) + 1 < rawLen by omega),
    h _ (show layout.1 + (if layout.2 = 9 then 2 else 0) + 2 < rawLen by omega),
    h _ (show layout.1 + (if layout.2 = 9 then 2 else 0) + 3 < rawLen by omega),
    h _ (show layout.1 + (if layout.2 = 9 then 2 else 0) + 4 < rawLen by omega),
    h _ (show layout.1 + (if layout.2 = 9 then 2 else 0) + 5 < rawLen by omega)]

end Congr

theorem tapRaw_of_lt {stack : Nat → Byte} {raw : List Byte} {i : Nat} (h : i < raw.length) :
    tapRaw stack raw i = tapRaw (fun _ => 0#8) raw i := by
  simp [tapRaw, h]

/-! ## One reader -/

section Reader

variable {tap : TapFile} {bytes : List Byte} {pos : Nat}

/-- Either reader reads a header as specified. -/
theorem TapFile.Reads.readHeader (h : tap.Reads bytes pos) (hin : tapHeaderIn bytes pos)
    (stack : Nat → Byte) (header : TapHeader) :
    (tapReadHeader stack tap header).1 = (tapHeaderFrom bytes pos header).1 ∧
      (tapReadHeader stack tap header).2.1 = (tapHeaderFrom bytes pos header).2.1 ∧
      (tapReadHeader stack tap header).2.2.Reads bytes (tapHeaderFrom bytes pos header).2.2 := by
  obtain ⟨hlt, hfields⟩ := hin
  have hsplit : bytes.drop pos = List.replicate (tapLeader bytes pos) tapSyncByte ++
      (bytes.drop pos).dropWhile (· == tapSyncByte) := by
    have hsyncs : (bytes.drop pos).takeWhile (· == tapSyncByte) =
        List.replicate (tapLeader bytes pos) tapSyncByte := by
      apply List.eq_replicate_of_mem
      intro b hb
      simpa using List.mem_takeWhile_imp hb
    rw [← hsyncs, List.takeWhile_append_dropWhile]
  -- the byte after the sync bytes is none
  obtain ⟨b, tail, htail⟩ :
      ∃ b tail, (bytes.drop pos).dropWhile (· == tapSyncByte) = b :: tail := by
    cases hcut : (bytes.drop pos).dropWhile (· == tapSyncByte) with
    | nil =>
      have hlen := congrArg List.length hsplit
      rw [hcut, List.append_nil, List.length_drop, List.length_replicate] at hlen
      omega
    | cons b tail => exact ⟨b, tail, rfl⟩
  have hb : b ≠ tapSyncByte := by
    have hhead := List.head?_dropWhile_not (· == tapSyncByte) (bytes.drop pos)
    rw [htail] at hhead
    simpa using hhead
  rw [htail] at hsplit
  have hsync := h.skipSync hb hsplit
  obtain ⟨hmarker, hreads⟩ := hsync.readByte hlt
  have hget : bytes[pos + tapLeader bytes pos] = bytes.getD (pos + tapLeader bytes pos) 0#8 := by
    simp [hlt]
  rw [hget] at hmarker
  simp only [tapReadHeader, tapHeaderFrom, hmarker]
  by_cases hmark : bytes.getD (pos + tapLeader bytes pos) 0#8 = tapMarker
  · obtain ⟨hraw, hlast⟩ := hreads.readBytes 32
    have hraw' : (Phosphoric.readBytes 32 (Phosphoric.readByte (Phosphoric.skipSync tap).2).2).1 =
        tapRawAt bytes pos := hraw
    have hagree : ∀ i < (tapRawAt bytes pos).length,
        tapRaw stack (tapRawAt bytes pos) i = tapRaw (fun _ => 0#8) (tapRawAt bytes pos) i :=
      fun i hi => tapRaw_of_lt hi
    rw [if_neg (not_not_intro hmark), if_neg (not_not_intro hmark)]
    have hparse := tapParse_congr hagree (hfields hmark) header
    have hlayout : tapDetect (tapRaw stack (tapRawAt bytes pos)) (tapRawAt bytes pos).length =
        tapLayoutOf (tapRawAt bytes pos) := tapDetect_congr hagree
    simp only [hraw', hlayout, hparse, hreads.position]
    exact ⟨trivial, trivial, hlast.seek _⟩
  · rw [if_pos hmark, if_pos hmark]
    exact ⟨rfl, rfl, hreads⟩

end Reader

/-! ## Calls -/

/-- The calls on an open tape. The bytes a header is read into start as whatever is on the stack,
in the reader from memory and in the one from the stream. -/
inductive TapCall
  | readHeader (stackFast stackFile : Nat → Byte) (header : TapHeader)
  | readData (size : Nat)
  | rewind
  | eof
  | tell

inductive TapReply
  | header (ok : Bool) (header : TapHeader)
  | data (bytes : List Byte)
  | rewound
  | eof (atEnd : Bool)
  | tell (position : Nat)
  deriving DecidableEq

/-- A call on a tape read from memory, or from the stream. -/
def tapCall (fast : Bool) (tap : TapFile) : TapCall → TapReply × TapFile
  | .readHeader stackFast stackFile header =>
    let read := tapReadHeader (if fast then stackFast else stackFile) tap header
    (.header read.1 read.2.1, read.2.2)
  | .readData size => (.data (tapReadData tap size).1, (tapReadData tap size).2)
  | .rewind => (.rewound, tapRewind tap)
  | .eof => (.eof (tapEof tap), tap)
  | .tell => (.tell tap.position, tap)

/-- A header is read only where there is one to read, or from an empty file. -/
def TapCall.Safe (tap : TapFile) : TapCall → Prop
  | .readHeader .. => tap.contents = [] ∨ tapHeaderIn tap.contents tap.position
  | _ => True

/-- A tape of an empty file, whose reads all fail. -/
structure TapFile.Blank (tap : TapFile) : Prop where
  contents : tap.contents = []
  size : tap.size = 0
  position : tap.position = 0
  image : tap.image = none

/-- Two readers of one file that stand at the same position. -/
def TapTwins (bytes : List Byte) (fast file : TapFile) : Prop :=
  bytes ≠ [] ∧ (∃ pos, fast.Reads bytes pos ∧ file.Reads bytes pos) ∨
    fast.Blank ∧ file.Blank

theorem TapFile.Blank.call {tap : TapFile} (h : tap.Blank) (fast : Bool) (call : TapCall) :
    (tapCall fast tap call).2.Blank ∧
      (tapCall fast tap call).1 = match call with
        | .readHeader _ _ header => .header false header
        | .readData _ => .data []
        | .rewind => .rewound
        | .eof => .eof true
        | .tell => .tell 0 := by
  have hend : tapEof tap = true := by simp [tapEof, h.size]
  cases call with
  | readHeader stackFast stackFile header =>
    have hsync : (skipSync tap).2 = tap := by simp [skipSync, skipSyncLoop, h.size]
    have hbyte : readByte tap = (0#8, tap) := by simp [readByte, h.image, h.contents]
    have hmarker : (0#8 : Byte) ≠ tapMarker := by decide
    simp only [tapCall, tapReadHeader, hsync, hbyte, if_pos hmarker]
    exact ⟨h, trivial⟩
  | readData size =>
    have hread : tapReadData tap size = ([], tap) := by
      cases size with
      | zero => rfl
      | succ size => simp [tapReadData, readBytes, hend]
    simp only [tapCall, hread]
    exact ⟨h, trivial⟩
  | rewind => exact ⟨⟨h.contents, h.size, rfl, h.image⟩, rfl⟩
  | eof => exact ⟨h, congrArg TapReply.eof hend⟩
  | tell => exact ⟨h, congrArg TapReply.tell h.position⟩

/-- A safe call is answered alike. -/
theorem TapTwins.call {bytes : List Byte} {fast file : TapFile} (h : TapTwins bytes fast file)
    {call : TapCall} (hsafe : call.Safe file) :
    (tapCall true fast call).1 = (tapCall false file call).1 ∧
      TapTwins bytes (tapCall true fast call).2 (tapCall false file call).2 := by
  rcases h with ⟨hne, pos, hfast, hfile⟩ | ⟨hfast, hfile⟩
  · cases call with
    | readHeader stackFast stackFile header =>
      rcases hsafe with hempty | hin
      · exact absurd (hfile.contents.symm.trans hempty) hne
      · rw [hfile.contents, hfile.position] at hin
        obtain ⟨hok, hheader, hnext⟩ := hfast.readHeader hin stackFast header
        obtain ⟨hok', hheader', hnext'⟩ := hfile.readHeader hin stackFile header
        refine ⟨?_, .inl ⟨hne, _, hnext, hnext'⟩⟩
        simp only [tapCall, if_true, Bool.false_eq_true, if_false, hok, hheader, hok', hheader']
    | readData size =>
      obtain ⟨hdata, hnext⟩ := hfast.readBytes size
      obtain ⟨hdata', hnext'⟩ := hfile.readBytes size
      exact ⟨congrArg TapReply.data (hdata.trans hdata'.symm), .inl ⟨hne, _, hnext, hnext'⟩⟩
    | rewind => exact ⟨rfl, .inl ⟨hne, 0, hfast.rewind, hfile.rewind⟩⟩
    | eof =>
      refine ⟨congrArg TapReply.eof ?_, .inl ⟨hne, pos, hfast, hfile⟩⟩
      rw [Bool.eq_iff_iff, hfast.eof, hfile.eof]
    | tell =>
      exact ⟨congrArg TapReply.tell (hfast.position.trans hfile.position.symm),
        .inl ⟨hne, pos, hfast, hfile⟩⟩
  · obtain ⟨hnext, hreply⟩ := hfast.call true call
    obtain ⟨hnext', hreply'⟩ := hfile.call false call
    exact ⟨hreply.trans hreply'.symm, .inr ⟨hnext, hnext'⟩⟩

theorem tapOpenRead_twins (bytes : List Byte) :
    TapTwins bytes (tapOpenRead bytes true) (tapOpenRead bytes false) := by
  by_cases hne : bytes = []
  · subst hne
    exact .inr ⟨⟨rfl, rfl, rfl, rfl⟩, ⟨rfl, rfl, rfl, rfl⟩⟩
  · exact .inl ⟨hne, 0, tapOpenRead_reads hne true, tapOpenRead_reads hne false⟩

theorem TapTwins.position {bytes : List Byte} {fast file : TapFile}
    (h : TapTwins bytes fast file) : fast.position = file.position := by
  rcases h with ⟨-, pos, hfast, hfile⟩ | ⟨hfast, hfile⟩
  · exact hfast.position.trans hfile.position.symm
  · exact hfast.position.trans hfile.position.symm

theorem TapTwins.run {bytes : List Byte} (calls : List TapCall) {fast file : TapFile}
    (h : TapTwins bytes fast file)
    (hsafe : Machine.Throughout (fun tap call => (tapCall false tap call).2)
      (fun tap call => call.Safe tap) calls file) :
    (Machine.runOut (tapCall true) calls fast).1 = (Machine.runOut (tapCall false) calls file).1 ∧
      TapTwins bytes (Machine.runOut (tapCall true) calls fast).2
        (Machine.runOut (tapCall false) calls file).2 := by
  induction calls generalizing fast file with
  | nil => exact ⟨rfl, h⟩
  | cons call calls ih =>
    obtain ⟨hreply, hnext⟩ := h.call hsafe.1
    obtain ⟨hreplies, hend⟩ := ih hnext hsafe.2
    simp only [Machine.runOut_cons, hreply, hreplies]
    exact ⟨trivial, hend⟩

/-- The two readers answer alike and end at the same position, in every run whose headers are read
where the file holds one. -/
theorem tap_readers_agree (bytes : List Byte) (calls : List TapCall)
    (hsafe : Machine.Throughout (fun tap call => (tapCall false tap call).2)
      (fun tap call => call.Safe tap) calls (tapOpenRead bytes false)) :
    (Machine.runOut (tapCall true) calls (tapOpenRead bytes true)).1 =
        (Machine.runOut (tapCall false) calls (tapOpenRead bytes false)).1 ∧
      (Machine.runOut (tapCall true) calls (tapOpenRead bytes true)).2.position =
        (Machine.runOut (tapCall false) calls (tapOpenRead bytes false)).2.position := by
  obtain ⟨hreplies, hend⟩ := (tapOpenRead_twins bytes).run calls hsafe
  exact ⟨hreplies, hend.position⟩

/-- A header in which nothing is set. -/
def tapHeaderZero : TapHeader where
  name := ⟨[], by decide, by simp⟩
  syncLen := 0
  type := 0
  autoRun := 0
  startAddr := 0
  endAddr := 0
  checksum := 0

theorem tap_readers_agree_block :
    let bytes := [0x16, 0x16, 0x24, 0, 0, 0x80, 0, 0x05, 0x01, 0x05, 0x00, 0, 0x41, 0, 0xA9, 0x01]
    let calls := [.readHeader (fun _ => 1) (fun _ => 2) tapHeaderZero, .readData 5, .tell]
    (Machine.runOut (tapCall true) calls (tapOpenRead bytes true)).1 =
        (Machine.runOut (tapCall false) calls (tapOpenRead bytes false)).1 ∧
      (Machine.runOut (tapCall true) calls (tapOpenRead bytes true)).2.position =
        (Machine.runOut (tapCall false) calls (tapOpenRead bytes false)).2.position := by
  intro bytes calls
  refine tap_readers_agree bytes calls ⟨.inr ⟨?_, fun _ => ?_⟩, trivial, trivial, trivial⟩
  · decide
  · decide

/-- At the end of the file the position moves in memory only. -/
theorem tap_readers_differ :
    ¬ ∀ (bytes : List Byte) (calls : List TapCall),
      (Machine.runOut (tapCall true) calls (tapOpenRead bytes true)).1 =
          (Machine.runOut (tapCall false) calls (tapOpenRead bytes false)).1 ∧
        (Machine.runOut (tapCall true) calls (tapOpenRead bytes true)).2.position =
          (Machine.runOut (tapCall false) calls (tapOpenRead bytes false)).2.position := by
  intro hall
  have := (hall [0x16] [.readHeader (fun _ => 0) (fun _ => 0) tapHeaderZero]).2
  revert this
  decide

end Phosphoric
