import Phosphoric.Tap.Cassette

/-!
# The cassette round trip

**Theorem (`cassette_roundTrip`).** Sampled from before its first edge to its end, with never more
than 96 cycles between two samples, the generated signal decodes to the leader and the bytes of
the tape, whichever way round the line is wired.

A period of a bit is 416 or 624 cycles, a half-pulse never less than 208. So every half-pulse is
sampled, its edge is seen at most 95 cycles late, and a measured period is off by at most 95: the
threshold of 512 still tells them apart. The period that ends with a bit's own edge tells the bit
before; the last stop bit is never told.
-/

namespace Phosphoric

open Sampling

/-! ## The signal is the bits -/

/-- The bits of a leader and a tape. -/
def tapeBits (bytes : List Byte) : List Bool := bytes.flatMap frameBits

/-- From `c` the generator plays `wave` and is then at `c'`. -/
def Plays (c : Cassette) (wave : List (Bool × Nat)) (c' : Cassette) : Prop :=
  ∀ n, cassetteWave (wave.length + n) c = wave ++ cassetteWave n c' ∧
    cassetteAfter (wave.length + n) c = cassetteAfter n c'

theorem Plays.refl (c : Cassette) : Plays c [] c := by
  intro n
  rw [List.length_nil, Nat.zero_add]
  exact ⟨rfl, rfl⟩

theorem Plays.trans {c c' c'' : Cassette} {wave wave' : List (Bool × Nat)} (h : Plays c wave c')
    (h' : Plays c' wave' c'') : Plays c (wave ++ wave') c'' := by
  intro n
  obtain ⟨hwave, hafter⟩ := h (wave'.length + n)
  obtain ⟨hwave', hafter'⟩ := h' n
  rw [List.length_append, Nat.add_assoc, hwave, hwave', List.append_assoc, hafter, hafter']
  exact ⟨rfl, rfl⟩

/-- A bit is two half-pulses. -/
theorem plays_bit {c : Cassette} (hpos : c.bitPos < casFrameBits) (hhalf : c.half = 0) :
    Plays c (bitWave (c.frame.getLsbD c.bitPos)) { c with bitPos := c.bitPos + 1 } := by
  have hlt : ¬c.bitPos ≥ casFrameBits := by omega
  have hfirst : cassetteStep c = ((false, casHalfOne), { c with half := 1 }) := by
    rw [cassetteStep, if_neg hlt]
    simp [cassetteHalf, hhalf]
  have hsecond : cassetteStep { c with half := 1 } =
      ((true, bitHalf (c.frame.getLsbD c.bitPos)), { c with half := 0, bitPos := c.bitPos + 1 }) := by
    rw [cassetteStep, if_neg hlt]
    simp [cassetteHalf, bitHalf]
  intro n
  change cassetteWave (2 + n) c = _ ∧ cassetteAfter (2 + n) c = _
  rw [Nat.add_comm 2 n, cassetteWave, cassetteWave, cassetteAfter, cassetteAfter, hfirst, hsecond,
    ← hhalf]
  exact ⟨rfl, rfl⟩

/-- The bits left of a frame. -/
theorem plays_bits (m : Nat) {c : Cassette} (hpos : c.bitPos + m = casFrameBits)
    (hhalf : c.half = 0) :
    Plays c (((List.range' c.bitPos m).map c.frame.getLsbD).flatMap bitWave)
      { c with bitPos := casFrameBits } := by
  induction m generalizing c with
  | zero =>
    rw [← hpos]
    exact .refl c
  | succ m ih =>
    have hbit := plays_bit (by omega : c.bitPos < casFrameBits) hhalf
    have hrest := ih (c := { c with bitPos := c.bitPos + 1 }) (by rw [← hpos]; dsimp only; omega) hhalf
    rw [List.range'_succ, List.map_cons, List.flatMap_cons]
    exact hbit.trans hrest

/-- What is left of the tape at the end of a frame. -/
def tapeLeft (c : Cassette) : List Byte :=
  List.replicate c.leaderLeft casSyncByte ++ c.buf.drop c.bytePos

/-- The next byte is the first of those left. -/
theorem cassetteNextByte_left {c : Cassette} {b : Byte} {bytes : List Byte}
    (h : tapeLeft c = b :: bytes) :
    ∃ c', cassetteNextByte c = some (b, c') ∧ tapeLeft c' = bytes ∧ c'.bitPos = c.bitPos := by
  unfold tapeLeft at h
  by_cases hleader : c.leaderLeft > 0
  · obtain ⟨n, hn⟩ := Nat.exists_eq_add_one.mpr hleader
    rw [hn, List.replicate_succ, List.cons_append, List.cons.injEq] at h
    refine ⟨{ c with leaderLeft := c.leaderLeft - 1 }, ?_, ?_, rfl⟩
    · rw [cassetteNextByte, if_pos hleader, h.1]
    · rw [← h.2, tapeLeft, hn, Nat.add_sub_cancel]
  · have hzero : c.leaderLeft = 0 := by omega
    rw [hzero, List.replicate_zero, List.nil_append] at h
    have hget : c.buf[c.bytePos]? = some b := by
      rw [← List.head?_drop, h, List.head?_cons]
    refine ⟨{ c with bytePos := c.bytePos + 1 }, ?_, ?_, rfl⟩
    · rw [cassetteNextByte, if_neg hleader, hget]
    · rw [tapeLeft, hzero, List.replicate_zero, List.nil_append, ← List.tail_drop, h, List.tail_cons]

theorem frame_length (b : Byte) : ((frameBits b).flatMap bitWave).length = 28 := by
  rw [List.length_flatMap, frameBits, List.map_map]
  rfl

/-- A byte is its frame. -/
theorem plays_byte {c c' : Cassette} {b : Byte} (hpos : c.bitPos ≥ casFrameBits)
    (hnext : cassetteNextByte c = some (b, c')) :
    Plays c ((frameBits b).flatMap bitWave)
      { c' with frame := cassetteEncodeFrame b, bitPos := casFrameBits, half := 0 } := by
  let loaded := { c' with frame := cassetteEncodeFrame b, bitPos := 0, half := 0 }
  have hframe : Plays loaded ((frameBits b).flatMap bitWave) { loaded with bitPos := casFrameBits } := by
    rw [frameBits, List.range_eq_range']
    exact plays_bits casFrameBits (c := loaded) rfl rfl
  have hstep : cassetteStep c = cassetteStep loaded := by
    have hlt : ¬loaded.bitPos ≥ casFrameBits := by simp [loaded]
    rw [cassetteStep, if_pos hpos, hnext, cassetteStep, if_neg hlt]
  intro n
  have hplay := hframe n
  have hlen : ((frameBits b).flatMap bitWave).length = 27 + 1 := frame_length b
  rw [hlen, Nat.add_right_comm, cassetteWave, cassetteAfter] at hplay ⊢
  rw [hstep]
  exact hplay

/-- The generator plays the bits of what is left, then the line stays high. -/
theorem plays_tape (bytes : List Byte) {c : Cassette} (hpos : c.bitPos ≥ casFrameBits)
    (h : tapeLeft c = bytes) :
    ∃ c', Plays c ((tapeBits bytes).flatMap bitWave) c' ∧
      cassetteStep c' = ((true, 100000), { c' with finished := true }) := by
  induction bytes generalizing c with
  | nil =>
    refine ⟨c, .refl c, ?_⟩
    obtain ⟨hleader, hdrop⟩ := List.append_eq_nil_iff.mp h
    have hzero : ¬c.leaderLeft > 0 := by
      rw [List.replicate_eq_nil_iff] at hleader
      omega
    have hget : c.buf[c.bytePos]? = none := by
      rw [← List.head?_drop, hdrop, List.head?_nil]
    rw [cassetteStep, if_pos hpos, cassetteNextByte, if_neg hzero, hget]
  | cons b bytes ih =>
    obtain ⟨c', hnext, hleft, -⟩ := cassetteNextByte_left h
    have hbyte := plays_byte hpos hnext
    obtain ⟨c'', htape, hend⟩ := ih
      (c := { c' with frame := cassetteEncodeFrame b, bitPos := casFrameBits, half := 0 })
      le_rfl hleft
    refine ⟨c'', ?_, hend⟩
    rw [tapeBits, List.flatMap_cons, List.flatMap_append]
    exact hbyte.trans htape

/-! ## What the capture has heard -/

/-- The capture has put together the bits `heard`, has `last` as its last level, and `edge` as the
time of the last rising edge, if there was one. -/
structure Heard (heard : List Bool) (last : Bool) (edge : Option Nat) (tc : TapeCapture) : Prop where
  active : tc.active = true
  primed : tc.primed = true
  last : tc.lastPb7 = last
  havePrevEdge : tc.havePrevEdge = edge.isSome
  prevEdgeCyc : ∀ p, edge = some p → tc.prevEdgeCyc = BitVec.ofNat 64 p
  frames : tc.toTapeDeframer = heard.foldl tapeCaptureBit tapeCaptureBegin.toTapeDeframer

variable {heard : List Bool} {edge : Option Nat} {tc : TapeCapture}

theorem heard_begin (level : Bool) (t : Nat) :
    Heard [] level none (tapeCaptureSample tapeCaptureBegin level (BitVec.ofNat 64 t)) :=
  ⟨rfl, rfl, rfl, rfl, nofun, rfl⟩

/-- A sample at the level of the last tells nothing. -/
theorem Heard.same {last : Bool} (h : Heard heard last edge tc) (t : Nat) :
    Heard heard last edge (tapeCaptureSample tc last (BitVec.ofNat 64 t)) := by
  have hnoedge : (!tc.lastPb7 && last) = false := by
    rw [h.last]
    cases last <;> rfl
  have hset : { tc with lastPb7 := last } = tc := by rw [← h.last]
  have htc : tapeCaptureSample tc last (BitVec.ofNat 64 t) = tc := by
    have hactive : ¬(!tc.active) = true := by simp [h.active]
    have hprimed : ¬(!tc.primed) = true := by simp [h.primed]
    rw [tapeCaptureSample, if_neg hactive, if_neg hprimed, hnoedge]
    exact hset
  rwa [htc]

/-- Nor does a falling edge. -/
theorem Heard.fall {last : Bool} (h : Heard heard last edge tc) (t : Nat) :
    Heard heard false edge (tapeCaptureSample tc false (BitVec.ofNat 64 t)) := by
  have htc : tapeCaptureSample tc false (BitVec.ofNat 64 t) = { tc with lastPb7 := false } := by
    simp [tapeCaptureSample, h.active, h.primed]
  rw [htc]
  exact ⟨h.active, h.primed, rfl, h.havePrevEdge, h.prevEdgeCyc, h.frames⟩

/-- The first rising edge starts a period. -/
theorem Heard.rise_first (h : Heard heard false none tc) (t : Nat) :
    Heard heard true (some t) (tapeCaptureSample tc true (BitVec.ofNat 64 t)) := by
  have hprev : tc.havePrevEdge = false := h.havePrevEdge
  have htc : tapeCaptureSample tc true (BitVec.ofNat 64 t) =
      { tc with lastPb7 := true, havePrevEdge := true, prevEdgeCyc := BitVec.ofNat 64 t } := by
    simp [tapeCaptureSample, h.active, h.primed, h.last, hprev]
  rw [htc]
  refine ⟨h.active, h.primed, rfl, rfl, ?_, h.frames⟩
  intro p hp
  rw [Option.some.injEq] at hp
  rw [hp]

/-- Any other rising edge ends a period, which is a bit. -/
theorem Heard.rise {p t : Nat} (h : Heard heard false (some p) tc) (hle : p ≤ t)
    (hlt : t - p < 2 ^ 64) :
    Heard (heard ++ [decide (t - p < 512)]) true (some t)
      (tapeCaptureSample tc true (BitVec.ofNat 64 t)) := by
  have hprev : tc.havePrevEdge = true := h.havePrevEdge
  have hcyc := h.prevEdgeCyc p rfl
  have hperiod : BitVec.ofNat 64 t - BitVec.ofNat 64 p = BitVec.ofNat 64 (t - p) := by
    conv_lhs => rw [← Nat.add_sub_cancel' hle, BitVec.ofNat_add]
    rw [BitVec.add_comm, BitVec.add_sub_cancel]
  have hbit : decide (BitVec.ofNat 64 t - BitVec.ofNat 64 p < casPeriodThresh) =
      decide (t - p < 512) := by
    rw [decide_eq_decide, hperiod, BitVec.lt_def, BitVec.toNat_ofNat, Nat.mod_eq_of_lt hlt]
    rfl
  have htc : tapeCaptureSample tc true (BitVec.ofNat 64 t) =
      { tc with
        lastPb7 := true, prevEdgeCyc := BitVec.ofNat 64 t
        toTapeDeframer := tapeCaptureBit tc.toTapeDeframer (decide (t - p < 512)) } := by
    simp [tapeCaptureSample, h.active, h.primed, h.last, hprev, hcyc, ← hbit]
  rw [htc]
  refine ⟨h.active, h.primed, rfl, hprev, ?_, ?_⟩
  · intro p' hp'
    rw [Option.some.injEq] at hp'
    rw [hp']
  · rw [List.foldl_append, ← h.frames]
    rfl

/-! ## Where the capture is in the signal -/

/-- How far into a bit its rising edge is. -/
def riseAt (inverted : Bool) : Nat := if inverted then 0 else casHalfOne

/-- The next bit begins at `s`, after the bits `done`. The last edge heard is that of the last of
them, at most 95 cycles late, so that all but that one are told. -/
inductive Told (m s : Nat) : List Bool → List Bool → Option Nat → Prop
  | start : Told m s [] [] none
  | bit {done : List Bool} {b : Bool} {p : Nat} : s + m ≤ p + (casHalfOne + bitHalf b) →
      p + (casHalfOne + bitHalf b) ≤ s + m + 95 → Told m s (done ++ [b]) done (some p)

/-- The bit that began at `s`, after the bits `done`, has had its edge: all those are told. -/
structure Rose (m s : Nat) (done heard : List Bool) (edge : Option Nat) : Prop where
  told : heard = done
  edge : ∃ p, edge = some p ∧ s + m ≤ p ∧ p ≤ s + m + 95

/-- The next bit begins. -/
theorem Rose.next {m s : Nat} {done : List Bool} (h : Rose m s done heard edge) (b : Bool) :
    Told m (s + (casHalfOne + bitHalf b)) (done ++ [b]) heard edge := by
  obtain ⟨rfl, p, rfl, hle, hge⟩ := h
  exact .bit (by omega) (by omega)

/-- The edge of a bit tells the bit before: the measured period is off by at most 95. -/
theorem Told.rise {m s t : Nat} {done : List Bool} (h : Told m s done heard edge)
    (htc : Heard heard false edge tc) (hlo : s + m ≤ t) (hhi : t < s + m + 96) :
    ∃ heard' edge', Heard heard' true edge' (tapeCaptureSample tc true (BitVec.ofNat 64 t)) ∧
      Rose m s done heard' edge' := by
  cases h with
  | start => exact ⟨[], some t, htc.rise_first t, rfl, t, rfl, hlo, by omega⟩
  | @bit done b p hle hge =>
    have hhalf : bitHalf b = if b then 208 else 416 := rfl
    have hone : casHalfOne = 208 := rfl
    rw [hhalf, hone] at hle hge
    have hperiod : p ≤ t ∧ t - p < 2 ^ 64 ∧ decide (t - p < 512) = b := by
      cases b
      · rw [if_neg Bool.false_ne_true] at hle hge
        exact ⟨by omega, by omega, decide_eq_false (by omega)⟩
      · rw [if_pos rfl] at hle hge
        exact ⟨by omega, by omega, decide_eq_true (by omega)⟩
    have hrise := htc.rise hperiod.1 hperiod.2.1
    rw [hperiod.2.2] at hrise
    exact ⟨_, _, hrise, rfl, t, rfl, hlo, by omega⟩

/-- The listener: the line's level, turned round by the wiring, at a cycle. -/
def captureLine (inverted : Bool) (tc : TapeCapture) (level : Bool) (t : Nat) : TapeCapture :=
  tapeCaptureSample tc (level ^^ inverted) (BitVec.ofNat 64 t)

/-- The signal of a sequence of bits, and the line's rest. -/
def bitsSignal (bits : List Bool) (n : Nat) : List (Bool × Nat) :=
  bits.flatMap bitWave ++ [(true, n)]

/-- Where the capture is in the signal of `all`, having sampled the first segment listed. -/
inductive Position (inverted : Bool) (all : List Bool) (n : Nat) :
    Nat → List (Bool × Nat) → TapeCapture → Prop
  | idle {s d : Nat} {tc : TapeCapture} : Heard [] (true ^^ inverted) none tc →
      Position inverted all n s ((true, d) :: bitsSignal all n) tc
  | low {s : Nat} {done todo : List Bool} {b : Bool} {heard : List Bool} {edge : Option Nat}
      {tc : TapeCapture} : all = done ++ b :: todo → Heard heard (false ^^ inverted) edge tc →
      (if inverted then Rose 0 s done heard edge else Told casHalfOne s done heard edge) →
      Position inverted all n s
        ((false, casHalfOne) :: (true, bitHalf b) :: bitsSignal todo n) tc
  | high {s : Nat} {done todo : List Bool} {b : Bool} {heard : List Bool} {edge : Option Nat}
      {tc : TapeCapture} : all = done ++ b :: todo → Heard heard (true ^^ inverted) edge tc →
      Rose (riseAt inverted) s done heard edge →
      Position inverted all n (s + casHalfOne) ((true, bitHalf b) :: bitsSignal todo n) tc
  | parked {s : Nat} {edge : Option Nat} {tc : TapeCapture} :
      Heard all.dropLast (true ^^ inverted) edge tc → Position inverted all n s [(true, n)] tc

/-- More samples of a segment change nothing. -/
theorem Position.same {inverted : Bool} {all : List Bool} {n s d : Nat} {level : Bool}
    {signal : List (Bool × Nat)} {tc : TapeCapture} (t : Nat)
    (h : Position inverted all n s ((level, d) :: signal) tc) :
    Position inverted all n s ((level, d) :: signal) (captureLine inverted tc level t) := by
  cases h with
  | idle htc => exact .idle (htc.same t)
  | low hall htc hedge => exact .low hall (htc.same t) hedge
  | high hall htc hedge => exact .high hall (htc.same t) hedge
  | parked htc => exact .parked (htc.same t)

/-- The first sample of a bit. -/
theorem position_low {inverted : Bool} (done : List Bool) {all todo : List Bool} {b : Bool}
    {n s t : Nat} {tc : TapeCapture} (hall : all = done ++ b :: todo) {last : Bool}
    (htc : Heard heard last edge tc) (hlast : inverted → last = false)
    (htold : Told (riseAt inverted) s done heard edge) (hlo : s ≤ t) (hhi : t < s + 96) :
    Position inverted all n s ((false, casHalfOne) :: (true, bitHalf b) :: bitsSignal todo n)
      (captureLine inverted tc false t) := by
  cases inverted with
  | false => exact .low hall (htc.fall t) htold
  | true =>
    rw [hlast rfl] at htc
    obtain ⟨heard', edge', htc', hrose⟩ := htold.rise htc (by omega : s + 0 ≤ t) (by omega)
    exact .low hall htc' hrose

/-- The first sample of the next segment moves the capture there. -/
theorem Position.next {inverted : Bool} {all : List Bool} {n s d d' : Nat} {level level' : Bool}
    {signal : List (Bool × Nat)} {tc : TapeCapture} {t : Nat}
    (h : Position inverted all n s ((level, d) :: (level', d') :: signal) tc) (hlo : s + d ≤ t)
    (hhi : t < s + d + 96) :
    Position inverted all n (s + d) ((level', d') :: signal)
      (captureLine inverted tc level' t) := by
  generalize hsig : (level, d) :: (level', d') :: signal = segs at h
  cases h with
  | @idle _ d₀ _ htc =>
    cases all with
    | nil =>
      obtain ⟨⟨rfl, rfl⟩, ⟨rfl, rfl⟩, rfl⟩ := by simpa [bitsSignal] using hsig
      exact .parked (htc.same t)
    | cons b all =>
      obtain ⟨⟨rfl, rfl⟩, ⟨rfl, rfl⟩, rfl⟩ := by simpa [bitsSignal, bitWave] using hsig
      refine position_low [] rfl htc ?_ .start hlo hhi
      rintro rfl
      rfl
  | @low _ done todo b heard edge _ hall htc hedge =>
    obtain ⟨⟨rfl, rfl⟩, ⟨rfl, rfl⟩, rfl⟩ := by simpa using hsig
    cases inverted with
    | false =>
      obtain ⟨heard', edge', htc', hrose⟩ := hedge.rise htc hlo (by omega)
      exact .high hall htc' hrose
    | true => exact .high hall (htc.fall t) hedge
  | @high s₀ done todo b heard edge _ hall htc hedge =>
    have htold : heard = done := hedge.told
    cases todo with
    | nil =>
      obtain ⟨⟨rfl, rfl⟩, ⟨rfl, rfl⟩, rfl⟩ := by simpa [bitsSignal] using hsig
      have hlast : all.dropLast = heard := by rw [hall, List.dropLast_concat, htold]
      exact .parked (hlast ▸ htc.same t)
    | cons b' todo =>
      obtain ⟨⟨rfl, rfl⟩, ⟨rfl, rfl⟩, rfl⟩ := by simpa [bitsSignal, bitWave] using hsig
      have hnext := hedge.next b
      rw [← Nat.add_assoc] at hnext
      refine position_low (done ++ [b]) ?_ htc ?_ hnext hlo hhi
      · rw [hall, List.append_assoc]
        rfl
      · rintro rfl
        rfl
  | parked htc => simp at hsig

@[simp] theorem duration_bitsSignal (bits : List Bool) (n : Nat) :
    duration (bitsSignal bits n) = duration (bits.flatMap bitWave) + n := by
  simp [bitsSignal]

theorem duration_bitWave (b : Bool) (bits : List Bool) :
    416 ≤ duration ((b :: bits).flatMap bitWave) := by
  have hhalf : bitHalf b ≥ 208 := by cases b <;> decide
  simp only [List.flatMap_cons, duration_append, bitWave, duration_cons, duration_nil, casHalfOne]
  omega

theorem bitsSignal_long {bits : List Bool} {n : Nat} (hn : 96 ≤ n) :
    ∀ seg ∈ bitsSignal bits n, 96 ≤ seg.2 := by
  intro seg hmem
  rcases List.mem_append.mp hmem with hbits | hpark
  · obtain ⟨b, -, hb⟩ := List.mem_flatMap.mp hbits
    cases b <;> simp [bitWave, bitHalf] at hb <;> rcases hb with rfl | rfl <;> decide
  · rw [List.mem_singleton.mp hpark]
    exact hn

/-- Heard to the end, all the bits but the last are told. -/
theorem Position.all_heard {inverted : Bool} {all : List Bool} {n s d : Nat} {level : Bool}
    {signal : List (Bool × Nat)} {tc : TapeCapture}
    (h : Position inverted all n s ((level, d) :: signal) tc) (hend : duration signal < 96 + n) :
    ∃ last edge, Heard all.dropLast last edge tc := by
  cases h with
  | idle htc =>
    cases all with
    | nil => exact ⟨_, _, htc⟩
    | cons b all =>
      have := duration_bitWave b all
      rw [duration_bitsSignal] at hend
      omega
  | @low _ done todo b heard edge _ hall htc hedge =>
    have hhalf : bitHalf b ≥ 208 := by cases b <;> decide
    rw [duration_cons, duration_bitsSignal] at hend
    dsimp only at hend
    omega
  | @high s₀ done todo b heard edge _ hall htc hedge =>
    cases todo with
    | nil =>
      have hlast : all.dropLast = heard := by rw [hall, List.dropLast_concat, hedge.told]
      exact ⟨_, _, hlast ▸ htc⟩
    | cons b' todo =>
      have := duration_bitWave b' todo
      rw [duration_bitsSignal] at hend
      omega
  | parked htc => exact ⟨_, _, htc⟩

/-! ## Frames -/

/-- A data bit enters from the left. -/
def shiftIn (cur : Byte) (bit : Bool) : Byte := (cur >>> 1) ||| if bit then 0x80#8 else 0#8

/-- Data bits short of the eighth. -/
theorem tapeCaptureBit_data (bits : List Bool) {bitcount : Nat} (h : bitcount + bits.length ≤ 7)
    (curByte : Byte) (out : List Byte) :
    bits.foldl tapeCaptureBit ⟨.data, bitcount, curByte, out⟩ =
      ⟨.data, bitcount + bits.length, bits.foldl shiftIn curByte, out⟩ := by
  induction bits generalizing bitcount curByte with
  | nil => rfl
  | cons bit bits ih =>
    rw [List.length_cons] at h
    have hmore : ¬bitcount + 1 ≥ 8 := by omega
    have hbit : tapeCaptureBit ⟨.data, bitcount, curByte, out⟩ bit =
        ⟨.data, bitcount + 1, shiftIn curByte bit, out⟩ := by
      simp [tapeCaptureBit, hmore, shiftIn]
    rw [List.foldl_cons, hbit, ih (by omega), List.length_cons, List.foldl_cons]
    congr 1
    omega

/-- Eight data bits are a byte. -/
theorem tapeCaptureBit_byte (b : Byte) (out : List Byte) :
    ((List.range 8).map b.getLsbD).foldl tapeCaptureBit ⟨.data, 0, 0#8, out⟩ =
      ⟨.parity, 8, b, out ++ [b]⟩ := by
  have hbyte : ∀ b : Byte, ((List.range 8).map b.getLsbD).foldl shiftIn 0#8 = b := by
    decide
  have hb := hbyte b
  rw [List.range_succ, List.map_append, List.foldl_append] at hb ⊢
  rw [tapeCaptureBit_data _ (by simp)]
  change (⟨.parity, 8, shiftIn _ (b.getLsbD 7), out ++ [shiftIn _ (b.getLsbD 7)]⟩ : TapeDeframer) = _
  rw [show shiftIn _ (b.getLsbD 7) = b from hb]

/-- The frame of a byte adds that byte if the capture is hunting, its last stop bit or not. -/
theorem tapeCaptureBit_frame (b : Byte) {tc : TapeDeframer} (h : tc.state = .hunt) :
    (frameBits b).foldl tapeCaptureBit tc = ⟨.hunt, 8, b, tc.out ++ [b]⟩ ∧
      (frameBits b).dropLast.foldl tapeCaptureBit tc = ⟨.hunt, 8, b, tc.out ++ [b]⟩ := by
  obtain ⟨parity, hframe⟩ := frameBits_eq b
  have hstart : tapeCaptureBit tc false = ⟨.data, 0, 0#8, tc.out⟩ := by
    simp [tapeCaptureBit, h]
  have hdrop : (frameBits b).dropLast =
      [false] ++ (List.range 8).map b.getLsbD ++ [parity, true, true, true] := by
    rw [hframe, List.dropLast_append_of_ne_nil (List.cons_ne_nil _ _)]
    rfl
  rw [hdrop, hframe]
  simp only [List.foldl_append, List.foldl_cons, List.foldl_nil, hstart, tapeCaptureBit_byte]
  exact ⟨rfl, rfl⟩

/-- The bits of the bytes, all but the last of them, are those bytes. -/
theorem tapeCaptureBit_tape (bytes : List Byte) {tc : TapeDeframer} (h : tc.state = .hunt) :
    ((tapeBits bytes).dropLast.foldl tapeCaptureBit tc).out = tc.out ++ bytes := by
  induction bytes generalizing tc with
  | nil => exact (List.append_nil _).symm
  | cons b bytes ih =>
    obtain ⟨hall, hdrop⟩ := tapeCaptureBit_frame b h
    rw [tapeBits, List.flatMap_cons]
    cases bytes with
    | nil => rw [List.flatMap_nil, List.append_nil, hdrop]
    | cons b' bytes =>
      have hne : (b' :: bytes).flatMap frameBits ≠ [] := by
        simp [frameBits]
      rw [List.dropLast_append_of_ne_nil hne, List.foldl_append, hall]
      have hrest := @ih ⟨.hunt, 8, b, tc.out ++ [b]⟩ rfl
      rw [tapeBits] at hrest
      rw [hrest, List.append_assoc]
      rfl

/-! ## The round trip -/

/-- The generator, at the start of a leader and a tape. -/
def cassetteStart (leader : Nat) (bytes : List Byte) : Cassette :=
  { cassetteSignalBegin cassetteInit bytes with leaderLeft := leader }

/-- The half-pulses of a leader and a tape. -/
def tapeHalves (leader : Nat) (bytes : List Byte) : Nat := 28 * (leader + bytes.length)

/-- The generator plays the bits of the leader and the tape, then is finished. -/
theorem cassetteWave_start (leader : Nat) (bytes : List Byte) :
    cassetteWave (tapeHalves leader bytes) (cassetteStart leader bytes) =
        (tapeBits (List.replicate leader casSyncByte ++ bytes)).flatMap bitWave ∧
      (cassetteStep (cassetteAfter (tapeHalves leader bytes) (cassetteStart leader bytes))).2.finished
        = true := by
  obtain ⟨c', hplays, hend⟩ := plays_tape _ (c := cassetteStart leader bytes) le_rfl rfl
  have hleft : tapeLeft (cassetteStart leader bytes) = List.replicate leader casSyncByte ++ bytes :=
    rfl
  have hlen : ((tapeBits (tapeLeft (cassetteStart leader bytes))).flatMap bitWave).length =
      tapeHalves leader bytes := by
    have hbyte : ∀ b : Byte, ((frameBits b).flatMap bitWave).length = 28 := frame_length
    rw [hleft, tapeBits, List.flatMap_assoc, List.length_flatMap]
    simp only [hbyte, List.map_const', List.sum_replicate, List.length_append,
      List.length_replicate, tapeHalves, smul_eq_mul]
    exact Nat.mul_comm _ _
  obtain ⟨hwave, hafter⟩ := hplays 0
  rw [hlen, Nat.add_zero] at hwave hafter
  refine ⟨?_, ?_⟩
  · rw [hwave, hleft]
    exact List.append_nil _
  · rw [hafter, cassetteAfter, hend]

/-- From any place in the signal to within a gap of its end. -/
theorem Position.roundTrip {inverted : Bool} {bytes : List Byte} {n s d t : Nat} {level : Bool}
    {signal : List (Bool × Nat)} {tc : TapeCapture} {times : List Nat}
    (h : Position inverted (tapeBits bytes) n s ((level, d) :: signal) tc)
    (hlong : ∀ seg ∈ signal, 96 ≤ seg.2) (hgap : Within 96 (t :: times)) (hin : s ≤ t ∧ t < s + d)
    (hsum : (t :: times).sum < n)
    (hlast : s + d + duration signal ≤ (t :: times).getLast (List.cons_ne_nil t times) + 96 + n)
    (hn : n ≤ s + d + duration signal) :
    (listen (captureLine inverted) true ((level, d) :: signal) s times tc).out = bytes := by
  have hend : ∀ t' ∈ times, t' < s + d + duration signal := by
    intro t' hmem
    have hle := List.single_le_sum (fun x _ => Nat.zero_le x) t' (List.mem_cons_of_mem t hmem)
    omega
  obtain ⟨s', level', d', signal', hpos, hinside, htotal⟩ :=
    listen_segments (Q := Position inverted (tapeBits bytes) n) true
      (fun _ _ _ _ _ t h => h.same t) (fun _ _ _ _ _ _ _ _ h hlo hhi => h.next hlo hhi) times hlong
      hgap hin hend h
  obtain ⟨last, edge, htc⟩ := hpos.all_heard (by omega)
  have hout := tapeCaptureBit_tape bytes (rfl : tapeCaptureBegin.toTapeDeframer.state = .hunt)
  rw [htc.frames, hout]
  rfl

/-- Sampled from before its first rising edge to within a gap of its end, never more than 96 cycles
between two samples, the signal of a leader and a tape decodes to the leader and the tape, upside
down (sampled from before its beginning then) or not. -/
theorem cassette_roundTrip (leader : Nat) (bytes : List Byte) (inverted : Bool)
    (start idle t : Nat) (times : List Nat)
    (hfirst : start ≤ t ∧ t < start + idle + riseAt inverted) (hgap : Within 96 (t :: times))
    (hlast : start + idle +
        duration (cassetteWave (tapeHalves leader bytes) (cassetteStart leader bytes)) ≤
      (t :: times).getLast (List.cons_ne_nil t times) + 96) :
    (listen (captureLine inverted) true
      ((true, idle) :: cassetteWave (tapeHalves leader bytes) (cassetteStart leader bytes)) start
      (t :: times) tapeCaptureBegin).out = List.replicate leader casSyncByte ++ bytes := by
  obtain ⟨hwave, -⟩ := cassetteWave_start leader bytes
  rw [hwave] at hlast ⊢
  generalize List.replicate leader casSyncByte ++ bytes = tape at hlast ⊢
  -- the line's rest, long enough for every sample
  let n := (t :: times).sum + 96
  rw [← listen_append_rest _ _ _ n, List.cons_append]
  change (listen (captureLine inverted) true ((true, idle) :: bitsSignal (tapeBits tape) n) start
    times (captureLine inverted tapeCaptureBegin
      (levelAt true ((true, idle) :: bitsSignal (tapeBits tape) n) (t - start)) t)).out = tape
  have hlong : ∀ seg ∈ bitsSignal (tapeBits tape) n, 96 ≤ seg.2 := bitsSignal_long (by omega)
  by_cases hidle : t < start + idle
  · have hlevel : levelAt true ((true, idle) :: bitsSignal (tapeBits tape) n) (t - start) = true := by
      rw [levelAt, if_pos (by omega)]
    rw [hlevel]
    refine (Position.idle (heard_begin _ t)).roundTrip hlong hgap ⟨hfirst.1, hidle⟩ (by omega) ?_ ?_
    · rw [duration_bitsSignal]
      omega
    · rw [duration_bitsSignal]
      omega
  · -- the first sample is in the first half of the first bit
    have hwired : inverted = false := by
      cases inverted
      · rfl
      · rw [riseAt, if_pos rfl] at hfirst
        omega
    subst hwired
    have hearly : t < start + idle + 208 := hfirst.2
    have hlater : ∀ t' ∈ times, start + idle ≤ t' := by
      intro t' hmem
      have := hgap.le_of_mem hmem
      omega
    have hafter : ¬t - start < idle := by omega
    have ht : t ≤ (t :: times).sum := by simp
    rw [listen_tail _ _ _ hlater, levelAt, if_neg hafter]
    cases hbits : tapeBits tape with
    | nil =>
      have hsignal : bitsSignal [] n = [(true, n)] := rfl
      have hlevel : levelAt true [(true, n)] (t - start - idle) = true := by simp [levelAt]
      have hpos : Position false (tapeBits tape) n (start + idle) [(true, n)]
          (captureLine false tapeCaptureBegin true t) := by
        rw [hbits]
        exact .parked (heard_begin _ t)
      rw [hbits] at hlast
      rw [hsignal, hlevel]
      refine hpos.roundTrip (by simp) hgap ⟨by omega, by omega⟩ (by omega) ?_ ?_
      · rw [duration_nil]
        omega
      · rw [duration_nil]
        omega
    | cons b bits =>
      have hsignal : bitsSignal (b :: bits) n =
          (false, casHalfOne) :: (true, bitHalf b) :: bitsSignal bits n := rfl
      have hlevel : levelAt true (bitsSignal (b :: bits) n) (t - start - idle) = false := by
        have hhalf : t - start - idle < casHalfOne := by
          simp only [casHalfOne]
          omega
        rw [hsignal, levelAt, if_pos hhalf]
      have hpos : Position false (tapeBits tape) n (start + idle)
          ((false, casHalfOne) :: (true, bitHalf b) :: bitsSignal bits n)
          (captureLine false tapeCaptureBegin false t) := by
        rw [hbits]
        exact .low (List.nil_append _).symm (heard_begin _ t) .start
      have htotal := duration_bitsSignal (b :: bits) n
      rw [hbits] at hlast hlong
      rw [hlevel, hsignal]
      rw [hsignal, duration_cons] at htotal
      dsimp only at htotal
      refine hpos.roundTrip (fun seg hmem => hlong seg (List.mem_cons_of_mem _ hmem)) hgap
        ⟨by omega, hearly⟩ (by omega) ?_ ?_
      · omega
      · omega

/-- A sync byte and a marker, upside down, sampled every 96 cycles. -/
theorem cassette_roundTrip_marker :
    (listen (captureLine true) true
      ((true, 100) :: cassetteWave (tapeHalves 1 [0x24#8]) (cassetteStart 1 [0x24#8])) 0
      (0 :: List.range' 96 160 96) tapeCaptureBegin).out = [0x16#8, 0x24#8] :=
  cassette_roundTrip 1 [0x24#8] true 0 100 0 (List.range' 96 160 96) ⟨by decide, by decide⟩
    (by decide +kernel) (by decide +kernel)

end Phosphoric
