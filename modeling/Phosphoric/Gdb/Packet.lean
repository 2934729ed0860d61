import Phosphoric.Cards.Registry

/-!
# Packets of the remote protocol

A packet is `$payload#cs`, the checksum `cs` being two hexadecimal digits (`send_packet` and
`read_packet` of `src/network/gdbstub.c`). The frame is formatted in a buffer of 1100 bytes and the
payload read into another.

**Theorem (`readPacket_gdbFrame`).** A frame of `send_packet`, behind any acknowledgements, is read
back as its payload up to 1095 bytes. At 1096 the buffer has no room for the second digit of the
checksum, and a NUL is sent in its place, so the frame is read back only if that digit is 0.
A longer payload is cut.

**Theorem (`readPacket_wireFrame`).** The frame of a peer with a larger buffer is read back up to
1099 bytes.
-/

namespace Phosphoric

/-! ## Hexadecimal -/

def hexdig (v : Nat) : Byte := (cstr "0123456789abcdef").getD (v % 16) 0

/-- `none` for -1. -/
def hexval (c : Byte) : Option Nat :=
  if 0x30#8 ≤ c ∧ c ≤ 0x39#8 then some (c.toNat - 0x30)
  else if 0x61#8 ≤ c ∧ c ≤ 0x66#8 then some (c.toNat - 0x61 + 10)
  else if 0x41#8 ≤ c ∧ c ≤ 0x46#8 then some (c.toNat - 0x41 + 10)
  else none

def emitByte (b : Byte) : CStr := [hexdig (b >>> 4).toNat, hexdig (b &&& 0x0F#8).toNat]

def gdbChecksum (data : CStr) : Byte :=
  (data.foldl (fun sum c => sum + c.setWidth 32) 0#32).setWidth 8

/-- The checksum two characters spell; what is no digit counts as 0. -/
def wantCs (hi lo : Option Nat) : Byte := BitVec.ofNat 8 (hi.getD 0 <<< 4 ||| lo.getD 0)

theorem wantCs_emitByte (b : Byte) :
    wantCs (hexval (hexdig (b >>> 4).toNat)) (hexval (hexdig (b &&& 0x0F#8).toNat)) = b := by
  revert b
  decide

/-- Without its second digit a checksum loses its low half. -/
theorem wantCs_cut (b : Byte) :
    wantCs (hexval (hexdig (b >>> 4).toNat)) (hexval 0#8) = b ↔ b &&& 0x0F#8 = 0#8 := by
  revert b
  decide

/-! ## Sending -/

/-- `sizeof(frame)`, and of the two buffers of `gdb_stub_stopped`. -/
abbrev gdbBufSize : Nat := 1100

/-- What `send_packet` sends: `n` bytes of the buffer, `n` being the length of the formatted
text. -/
def gdbFrame (payload : CStr) : List Byte :=
  let plen := if payload.length > gdbBufSize - 4 then gdbBufSize - 4 else payload.length
  let cs := gdbChecksum (payload.take plen)
  let text := 0x24#8 :: payload.take plen ++ 0x23#8 :: emitByte cs
  (text.take (gdbBufSize - 1) ++ [0#8]).take text.length

/-- The loop of `send_packet`, with the characters received: the frame is sent up to four times,
until it is acknowledged. -/
def sendPacketTries (noAckMode : Bool) (frame : List Byte) :
    Nat → List Byte → List Byte × List Byte
  | 0, input => ([], input)
  | tries + 1, input =>
    if noAckMode then (frame, input)
    else match input with
    | [] => (frame, [])
    | ack :: input =>
      if ack = 0x2B#8 then (frame, input)
      else
        let (sent, input) := sendPacketTries noAckMode frame tries input
        (frame ++ sent, input)

def sendPacket (noAckMode : Bool) (payload : CStr) (input : List Byte) : List Byte × List Byte :=
  sendPacketTries noAckMode (gdbFrame payload) 4 input

/-- The frame is sent for each character up to the first `+`, and four times at most. -/
theorem sendPacket_sent (payload : CStr) (input : List Byte) :
    sendPacket false payload input =
      let sends := min 4 ((input.takeWhile (· != 0x2B#8)).length + 1)
      ((List.replicate sends (gdbFrame payload)).flatten, input.drop sends) := by
  unfold sendPacket
  generalize gdbFrame payload = frame, 4 = tries
  induction tries generalizing input with
  | zero => simp [sendPacketTries]
  | succ tries ih =>
    cases input with
    | nil => simp [sendPacketTries]
    | cons ack input =>
      rw [sendPacketTries, if_neg Bool.false_ne_true]
      by_cases hack : ack = 0x2B#8
      · simp [hack]
      · simp [hack, ih, List.replicate_succ, Nat.succ_min_succ]

/-- The frame of a peer whose buffer takes it whole. -/
def wireFrame (payload : CStr) : List Byte :=
  0x24#8 :: payload ++ 0x23#8 :: emitByte (gdbChecksum payload)

/-! ## Reading -/

/-- `state`: before `$`, in the payload, before the two digits of the checksum. -/
inductive GdbState
  | waiting | payload | csHi | csLo
  deriving DecidableEq

/-- The variables of `read_packet`. -/
structure GdbReader where
  state : GdbState
  buf : CStr
  csHi : Option Nat

/-- What `read_packet` returns, `none` for -1; an interrupt reads as an empty payload. Then the
acknowledgements sent and what is left to receive. -/
structure GdbReading where
  payload : Option CStr
  acks : List Byte
  rest : List Byte

/-- The loop of `read_packet` over the characters received; at their end the peer disconnects. -/
def readPacketLoop (noAckMode : Bool) (size : Nat) : GdbReader → List Byte → GdbReading
  | _, [] => ⟨none, [], []⟩
  | ⟨.waiting, buf, csHi⟩, c :: input =>
    if c = 0x24#8 then readPacketLoop noAckMode size ⟨.payload, [], csHi⟩ input
    else if c = 0x03#8 then ⟨some [], [], input⟩
    else readPacketLoop noAckMode size ⟨.waiting, buf, csHi⟩ input
  | ⟨.payload, buf, csHi⟩, c :: input =>
    if c = 0x23#8 then readPacketLoop noAckMode size ⟨.csHi, buf, csHi⟩ input
    else if buf.length < size - 1 then
      readPacketLoop noAckMode size ⟨.payload, buf ++ [c], csHi⟩ input
    else readPacketLoop noAckMode size ⟨.payload, buf, csHi⟩ input
  | ⟨.csHi, buf, _⟩, c :: input => readPacketLoop noAckMode size ⟨.csLo, buf, hexval c⟩ input
  | ⟨.csLo, buf, csHi⟩, c :: input =>
    if gdbChecksum buf = wantCs csHi (hexval c) then
      ⟨some buf, if noAckMode then [] else [0x2B#8], input⟩
    else
      let reading := readPacketLoop noAckMode size ⟨.waiting, buf, csHi⟩ input
      { reading with acks := (if noAckMode then [] else [0x2D#8]) ++ reading.acks }

def readPacket (noAckMode : Bool) (size : Nat) (input : List Byte) : GdbReading :=
  readPacketLoop noAckMode size ⟨.waiting, [], some 0⟩ input

/-- A stray `+` or `-`. -/
def IsAck (c : Byte) : Prop := c = 0x2B#8 ∨ c = 0x2D#8

section Reading

variable (noAckMode : Bool) (size : Nat)

theorem readPacketLoop_acks {acks : List Byte} (hacks : ∀ c ∈ acks, IsAck c) (buf : CStr)
    (csHi : Option Nat) (input : List Byte) :
    readPacketLoop noAckMode size ⟨.waiting, buf, csHi⟩ (acks ++ input) =
      readPacketLoop noAckMode size ⟨.waiting, buf, csHi⟩ input := by
  induction acks with
  | nil => rfl
  | cons c acks ih =>
    have hrest := ih fun c hc => hacks c (List.mem_cons_of_mem _ hc)
    rw [List.cons_append, readPacketLoop]
    rcases hacks c List.mem_cons_self with rfl | rfl
    · rw [if_neg (by decide), if_neg (by decide), hrest]
    · rw [if_neg (by decide), if_neg (by decide), hrest]

/-- The buffer takes what fits. -/
theorem readPacketLoop_payload {body : CStr} (hbody : 0x23#8 ∉ body) {buf : CStr}
    (hbuf : buf.length ≤ size - 1) (csHi : Option Nat) (input : List Byte) :
    readPacketLoop noAckMode size ⟨.payload, buf, csHi⟩ (body ++ input) =
      readPacketLoop noAckMode size ⟨.payload, (buf ++ body).take (size - 1), csHi⟩ input := by
  induction body generalizing buf with
  | nil => rw [List.nil_append, List.append_nil, List.take_of_length_le hbuf]
  | cons c body ih =>
    rw [List.mem_cons, not_or] at hbody
    rw [List.cons_append, readPacketLoop, if_neg (Ne.symm hbody.1)]
    by_cases hroom : buf.length < size - 1
    · have hbuf' : (buf ++ [c]).length ≤ size - 1 := by
        rw [List.length_append, List.length_singleton]
        omega
      rw [if_pos hroom, ih hbody.2 hbuf', List.append_assoc, List.singleton_append]
    · have hfull : buf.length = size - 1 := by omega
      rw [if_neg hroom, ih hbody.2 hbuf, ← hfull, List.take_left, List.take_left]

/-- What is read of a frame, and what follows a frame with a bad checksum. -/
theorem readPacket_frame {acks : List Byte} (hacks : ∀ c ∈ acks, IsAck c) {body : CStr}
    (hbody : 0x23#8 ∉ body) (hi lo : Byte) (rest : List Byte) :
    readPacket noAckMode size (acks ++ (0x24#8 :: body ++ [0x23#8, hi, lo]) ++ rest) =
      readPacketLoop noAckMode size ⟨.csLo, body.take (size - 1), hexval hi⟩ (lo :: rest) := by
  have hsplit : acks ++ (0x24#8 :: body ++ [0x23#8, hi, lo]) ++ rest =
      acks ++ 0x24#8 :: (body ++ 0x23#8 :: hi :: lo :: rest) := by simp
  rw [readPacket, hsplit, readPacketLoop_acks noAckMode size hacks, readPacketLoop, if_pos rfl,
    readPacketLoop_payload noAckMode size hbody (Nat.zero_le _), List.nil_append, readPacketLoop,
    if_pos rfl, readPacketLoop]

/-- A packet read has used up some of the characters. -/
theorem readPacketLoop_rest (reader : GdbReader) (input : List Byte)
    (h : (readPacketLoop noAckMode size reader input).payload.isSome) :
    (readPacketLoop noAckMode size reader input).rest.length < input.length := by
  induction input generalizing reader with
  | nil => simp [readPacketLoop] at h
  | cons c input ih =>
    obtain ⟨state, buf, csHi⟩ := reader
    have hlater : ∀ reader, (readPacketLoop noAckMode size reader input).payload.isSome →
        (readPacketLoop noAckMode size reader input).rest.length < (c :: input).length :=
      fun reader h => Nat.lt_succ_of_lt (ih reader h)
    cases state with
    | waiting =>
      rw [readPacketLoop] at h ⊢
      split_ifs at h ⊢ with hstart hint
      · exact hlater _ h
      · exact Nat.lt_succ_self _
      · exact hlater _ h
    | payload =>
      rw [readPacketLoop] at h ⊢
      split_ifs at h ⊢ with hend hroom
      · exact hlater _ h
      · exact hlater _ h
      · exact hlater _ h
    | csHi =>
      rw [readPacketLoop] at h ⊢
      exact hlater _ h
    | csLo =>
      rw [readPacketLoop] at h ⊢
      by_cases hcs : gdbChecksum buf = wantCs csHi (hexval c)
      · rw [if_pos hcs]
        exact Nat.lt_succ_self _
      · rw [if_neg hcs] at h ⊢
        exact hlater ⟨.waiting, buf, csHi⟩ h

/-- The frame, and no more, is read as the payload. -/
def ReadAs (reading : GdbReading) (payload : CStr) (rest : List Byte) : Prop :=
  reading = ⟨some payload, if noAckMode then [] else [0x2B#8], rest⟩

/-- A frame is read as its payload if it fits and its checksum does. -/
theorem readPacket_frame_iff {acks : List Byte} (hacks : ∀ c ∈ acks, IsAck c) {body : CStr}
    (hbody : 0x23#8 ∉ body) (hi lo : Byte) (rest : List Byte) (payload : CStr) :
    ReadAs noAckMode
        (readPacket noAckMode size (acks ++ (0x24#8 :: body ++ [0x23#8, hi, lo]) ++ rest))
        payload rest ↔
      body.take (size - 1) = payload ∧ gdbChecksum payload = wantCs (hexval hi) (hexval lo) := by
  rw [readPacket_frame noAckMode size hacks hbody, ReadAs, readPacketLoop]
  constructor
  · intro h
    by_cases hcs : gdbChecksum (body.take (size - 1)) = wantCs (hexval hi) (hexval lo)
    · rw [if_pos hcs] at h
      have hpayload : body.take (size - 1) = payload :=
        Option.some.inj (congrArg GdbReading.payload h)
      exact ⟨hpayload, hpayload ▸ hcs⟩
    · -- the packet read after a bad checksum ends later
      rw [if_neg hcs] at h
      have hrest : (readPacketLoop noAckMode size
          ⟨.waiting, body.take (size - 1), hexval hi⟩ rest).rest = rest :=
        congrArg GdbReading.rest h
      have hsome : (readPacketLoop noAckMode size
          ⟨.waiting, body.take (size - 1), hexval hi⟩ rest).payload.isSome :=
        Option.isSome_iff_exists.mpr ⟨payload, congrArg GdbReading.payload h⟩
      have hless := readPacketLoop_rest noAckMode size _ rest hsome
      rw [hrest] at hless
      exact absurd hless (Nat.lt_irrefl _)
  · rintro ⟨rfl, hcs⟩
    rw [if_pos hcs]

end Reading

/-! ## Round trips -/

/-- No NUL, and neither of the frame's marks. -/
def PlainText (text : CStr) : Prop := ∀ c ∈ text, c ≠ 0#8 ∧ c ≠ 0x23#8 ∧ c ≠ 0x24#8

instance (text : CStr) : Decidable (PlainText text) := List.decidableBAll _ text

/-- A payload as GDB may send it. -/
structure GdbPayload where
  text : CStr
  plain : PlainText text

theorem GdbPayload.noEnd (payload : GdbPayload) (n : Nat) : 0x23#8 ∉ payload.text.take n :=
  fun hmem => (payload.plain _ (List.mem_of_mem_take hmem)).2.1 rfl

/-- The frame of a larger buffer, cut to this one. -/
theorem gdbFrame_eq (payload : CStr) :
    gdbFrame payload =
      ((wireFrame (payload.take 1096)).take 1099 ++ [0#8]).take
        (wireFrame (payload.take 1096)).length := by
  have hbody : payload.take (if payload.length > gdbBufSize - 4 then gdbBufSize - 4
      else payload.length) = payload.take 1096 := by
    split_ifs with hlong
    · rfl
    · have hshort : payload.length ≤ 1096 := Nat.le_of_not_lt hlong
      rw [List.take_of_length_le (le_refl _), List.take_of_length_le hshort]
  unfold gdbFrame
  dsimp only
  rw [hbody]
  rfl

theorem gdbFrame_whole {payload : CStr} (h : payload.length ≤ 1095) :
    gdbFrame payload = wireFrame payload := by
  have hlen : (wireFrame payload).length = payload.length + 4 := by simp [wireFrame, emitByte]
  have hall : (wireFrame payload).take 1099 = wireFrame payload :=
    List.take_of_length_le (by omega)
  rw [gdbFrame_eq, List.take_of_length_le (show payload.length ≤ 1096 by omega), hall,
    List.take_left]

/-- From 1096 bytes on the frame ends in a NUL. -/
theorem gdbFrame_cut {payload : CStr} (h : 1096 ≤ payload.length) :
    gdbFrame payload = 0x24#8 :: payload.take 1096 ++
      [0x23#8, hexdig (gdbChecksum (payload.take 1096) >>> 4).toNat, 0#8] := by
  have hbody : (payload.take 1096).length = 1096 := by
    rw [List.length_take]
    omega
  rw [gdbFrame_eq]
  generalize payload.take 1096 = body at hbody ⊢
  have hsplit : wireFrame body =
      (0x24#8 :: body ++ [0x23#8, hexdig (gdbChecksum body >>> 4).toNat]) ++
        [hexdig (gdbChecksum body &&& 0x0F#8).toNat] := by
    simp [wireFrame, emitByte]
  have hkept : (0x24#8 :: body ++ [0x23#8, hexdig (gdbChecksum body >>> 4).toNat]).length =
      1099 := by
    simp [hbody]
  have hlen : (wireFrame body).length = 1100 := by simp [wireFrame, emitByte, hbody]
  rw [hlen, hsplit, List.take_left' hkept,
    List.take_of_length_le (by rw [List.length_append, hkept]; rfl)]
  simp

theorem readPacket_wireFrame (noAckMode : Bool) (payload : GdbPayload) {acks : List Byte}
    (hacks : ∀ c ∈ acks, IsAck c) (rest : List Byte) :
    ReadAs noAckMode (readPacket noAckMode gdbBufSize (acks ++ wireFrame payload.text ++ rest))
        payload.text rest ↔ payload.text.length ≤ 1099 := by
  have hbody : 0x23#8 ∉ payload.text := by
    have hnot := payload.noEnd payload.text.length
    rwa [List.take_of_length_le (le_refl _)] at hnot
  have hframe := readPacket_frame_iff noAckMode gdbBufSize hacks hbody
    (hexdig (gdbChecksum payload.text >>> 4).toNat)
    (hexdig (gdbChecksum payload.text &&& 0x0F#8).toNat) rest payload.text
  refine hframe.trans ?_
  rw [wantCs_emitByte, and_iff_left rfl, List.take_eq_self_iff]
  exact Iff.rfl

theorem readPacket_gdbFrame (noAckMode : Bool) (payload : GdbPayload) {acks : List Byte}
    (hacks : ∀ c ∈ acks, IsAck c) (rest : List Byte) :
    ReadAs noAckMode (readPacket noAckMode gdbBufSize (acks ++ gdbFrame payload.text ++ rest))
        payload.text rest ↔
      payload.text.length ≤ 1095 ∨
        payload.text.length = 1096 ∧ gdbChecksum payload.text &&& 0x0F#8 = 0#8 := by
  by_cases hfits : payload.text.length ≤ 1095
  · rw [gdbFrame_whole hfits, readPacket_wireFrame noAckMode payload hacks]
    exact ⟨fun _ => .inl hfits, fun _ => by omega⟩
  · have hlong : 1096 ≤ payload.text.length := by omega
    rw [gdbFrame_cut hlong, readPacket_frame_iff noAckMode gdbBufSize hacks (payload.noEnd 1096)]
    have hkept : (payload.text.take 1096).take (gdbBufSize - 1) = payload.text.take 1096 := by
      rw [List.take_take]
      rfl
    rw [hkept, List.take_eq_self_iff]
    constructor
    · rintro ⟨hlen, hcs⟩
      rw [List.take_of_length_le hlen] at hcs
      exact .inr ⟨by omega, (wantCs_cut _).mp hcs.symm⟩
    · rintro (hshort | ⟨hlen, hcs⟩)
      · exact absurd hshort hfits
      · rw [List.take_of_length_le hlen.le]
        exact ⟨hlen.le, ((wantCs_cut _).mpr hcs).symm⟩

end Phosphoric
