import Phosphoric.Loci.Tape

/-!
# The bits of the tape

The bit interface delivers the frames of the bytes the byte interface would play. The two share the
position: a byte played in the middle of a frame is one the bits never show, and past the end of the
file both go on with zeros.

**Theorem (`tap_bits_bytes`).** From the start of the tape, while no other command moves it, the
bits decode to the leader and the bytes of the file, each once, and so do the bytes played.
-/

namespace Phosphoric

/-! ## Commands and what they deliver -/

/-- A command written, or the motor line. -/
inductive TapOp
  | cmd (value : Byte)
  | motor (on : Bool)

variable (stored : Bool)

def tapStep (tape : LociTape) : TapOp → LociTape
  | .cmd value => lociTapWrite tape 0x0315#16 value stored
  | .motor on => lociTapMotor tape on stored

/-- The command carried out: the one written, or the one that waited for the motor. -/
def tapDone (tape : LociTape) : TapOp → Option Byte
  | .cmd value =>
    if (value = lociTapCmdPlay ∨ value = lociTapCmdReadBit ∨ value = lociTapCmdRec) ∧ !tape.motorOn
    then none else some value
  | .motor on => if on && tape.cmd != 0#8 then some tape.cmd else none

/-- The bits READ_BIT delivers. -/
def tapBits : LociTape → List TapOp → List Bool
  | _, [] => []
  | tape, op :: ops =>
    if tapDone tape op = some lociTapCmdReadBit then
      (tapStep stored tape op).data.getLsbD 0 :: tapBits (tapStep stored tape op) ops
    else tapBits (tapStep stored tape op) ops

/-- The bytes PLAY delivers. -/
def tapBytes : LociTape → List TapOp → List Byte
  | _, [] => []
  | tape, op :: ops =>
    if tapDone tape op = some lociTapCmdPlay then
      (tapStep stored tape op).data :: tapBytes (tapStep stored tape op) ops
    else tapBytes (tapStep stored tape op) ops

/-- The commands that take a byte or move the tape. -/
def tapMoves : List Byte :=
  [lociTapCmdPlay, lociTapCmdRec, lociTapCmdRew, lociTapCmdReadBit, lociTapCmdFfw]

/-- Of these, only `cmd` is carried out. Others may wait and be replaced. -/
def TapOnly (cmd : Byte) : LociTape → List TapOp → Prop
  | _, [] => True
  | tape, op :: ops =>
    (∀ c, tapDone tape op = some c → c ∈ tapMoves → c = cmd) ∧
      TapOnly cmd (tapStep stored tape op) ops

/-! ## The stream of the tape -/

/-- The byte at a position: the leader, the file, then zeros. -/
def tapByteAt (file : List Byte) (p : Nat) : Byte :=
  if p < 8 then 0x16#8 else file.getD (p - 8) 0#8

/-- The first bytes of the tape. -/
def tapStream (file : List Byte) (n : Nat) : List Byte :=
  (List.replicate 8 0x16#8 ++ file ++ List.replicate n 0#8).take n

theorem tapStream_eq (file : List Byte) (n : Nat) :
    tapStream file n = (List.range n).map (tapByteAt file) := by
  apply List.ext_getElem?
  intro i
  by_cases hi : i < n
  · rw [List.getElem?_map, List.getElem?_range hi, tapStream, List.getElem?_take_of_lt hi,
      Option.map_some, tapByteAt]
    by_cases hlead : i < 8
    · rw [if_pos hlead, List.append_assoc, List.getElem?_append_left (by simpa using hlead),
        List.getElem?_replicate, if_pos hlead]
    · rw [if_neg hlead, List.append_assoc, List.getElem?_append_right (by simpa using hlead),
        List.length_replicate, List.getD_eq_getElem?_getD]
      by_cases hfile : i - 8 < file.length
      · rw [List.getElem?_append_left hfile, List.getElem?_eq_getElem hfile]
        rfl
      · rw [List.getElem?_append_right (Nat.le_of_not_lt hfile), List.getElem?_replicate,
          if_pos (by omega), List.getElem?_eq_none (Nat.le_of_not_lt hfile)]
        rfl
  · have hstream : (tapStream file n).length ≤ i := by
      rw [tapStream, List.length_take]
      omega
    have hrange : ((List.range n).map (tapByteAt file)).length ≤ i := by
      rw [List.length_map, List.length_range]
      omega
    rw [List.getElem?_eq_none hstream, List.getElem?_eq_none hrange]

/-- The tape has given its first `p` bytes. -/
structure TapAt (file : List Byte) (p : Nat) (tape : LociTape) : Prop where
  mounted : tape.file = some file
  lead : tape.leadIn = min p 8
  counter : tape.counter = min (p - 8) file.length

/-- The next byte is the one at the position. -/
theorem TapAt.next {file : List Byte} {p : Nat} {tape : LociTape} (h : TapAt file p tape)
    (hshort : file.length < 2 ^ 32) :
    (tapNextByte tape).1 = tapByteAt file p ∧ TapAt file (p + 1) (tapNextByte tape).2 ∧
      (tapNextByte tape).2.motorOn = tape.motorOn ∧ (tapNextByte tape).2.cmd = tape.cmd ∧
      (tapNextByte tape).2.bitCounter = tape.bitCounter := by
  have hlead := h.lead
  have hcounter := h.counter
  have hbyte : tapNextByte tape = tapReadByteHost tape file := by
    rw [tapNextByte, h.mounted]
  rw [hbyte, tapReadByteHost, tapByteAt]
  by_cases hp : p < 8
  · rw [if_pos (by omega), if_pos hp]
    exact ⟨rfl, ⟨h.mounted, by simp only; omega, by simp only; omega⟩, rfl, rfl, rfl⟩
  · rw [if_neg (by omega), if_neg hp]
    by_cases hin : p - 8 < file.length
    · have hget : file[tape.counter]? = some file[p - 8] := by
        rw [hcounter, Nat.min_eq_left (Nat.le_of_lt hin), List.getElem?_eq_getElem hin]
      rw [hget]
      refine ⟨?_, ⟨h.mounted, ?_, ?_⟩, rfl, rfl, rfl⟩
      · rw [List.getD_eq_getElem?_getD, List.getElem?_eq_getElem hin]
        rfl
      · simp only
        omega
      · simp only
        omega
    · have hget : file[tape.counter]? = none := List.getElem?_eq_none (by omega)
      rw [hget]
      refine ⟨?_, ⟨h.mounted, ?_, ?_⟩, rfl, rfl, rfl⟩
      · rw [List.getD_eq_getElem?_getD, List.getElem?_eq_none (Nat.le_of_not_lt hin)]
        rfl
      · simp only
        omega
      · simp only
        omega

/-! ## Steps -/

/-- The tape has not moved, within its frame neither. -/
structure TapSame (tape tape' : LociTape) : Prop where
  file : tape'.file = tape.file
  lead : tape'.leadIn = tape.leadIn
  counter : tape'.counter = tape.counter
  bit : tape'.bitCounter = tape.bitCounter
  encoded : tape'.encoded = tape.encoded

theorem TapSame.trans {a b c : LociTape} (h : TapSame a b) (h' : TapSame b c) : TapSame a c where
  file := h'.file.trans h.file
  lead := h'.lead.trans h.lead
  counter := h'.counter.trans h.counter
  bit := h'.bit.trans h.bit
  encoded := h'.encoded.trans h.encoded

theorem TapSame.tapAt {file : List Byte} {p : Nat} {tape tape' : LociTape} (h : TapSame tape tape')
    (hat : TapAt file p tape) : TapAt file p tape' where
  mounted := h.file.trans hat.mounted
  lead := h.lead.trans hat.lead
  counter := h.counter.trans hat.counter

/-- A command that does not wait: a byte is played, a bit is read, or the tape stays where it is. -/
theorem tapExecCmd_cases (tape : LociTape) {c : Byte} (hmotor : tape.motorOn = true) :
    (c = lociTapCmdPlay → tapExecCmd tape c stored = tapPlay tape) ∧
      (c = lociTapCmdReadBit → tapExecCmd tape c stored = tapReadBit tape) ∧
      (c ∉ tapMoves → TapSame tape (tapExecCmd tape c stored)) := by
  refine ⟨?_, ?_, fun hc => ?_⟩
  · rintro rfl
    simp [tapExecCmd, hmotor]
  · rintro rfl
    simp [tapExecCmd, hmotor]
  · simp only [tapMoves, List.mem_cons, List.not_mem_nil, or_false, not_or] at hc
    simp only [tapExecCmd, hc, if_false]
    exact ⟨rfl, rfl, rfl, rfl, rfl⟩

/-- What a step does to the tape. -/
theorem tapStep_cases (tape : LociTape) (op : TapOp) :
    (tapDone tape op = none → TapSame tape (tapStep stored tape op)) ∧
      ∀ c, tapDone tape op = some c →
        (c ∉ tapMoves → TapSame tape (tapStep stored tape op)) ∧
        ∃ tape', TapSame tape tape' ∧
          (c = lociTapCmdPlay → tapStep stored tape op = tapPlay tape') ∧
          (c = lociTapCmdReadBit → tapStep stored tape op = tapReadBit tape') := by
  cases op with
  | cmd value =>
    have hstep : tapStep stored tape (.cmd value) =
        tapExecCmd { tape with cmd := value } value stored := rfl
    have hsame : TapSame tape { tape with cmd := value } := ⟨rfl, rfl, rfl, rfl, rfl⟩
    rw [hstep]
    by_cases hmotor : tape.motorOn = true
    · have hdone : tapDone tape (.cmd value) = some value := by
        simp [tapDone, hmotor]
      obtain ⟨hplay, hread, hother⟩ := tapExecCmd_cases stored { tape with cmd := value }
        (c := value) hmotor
      refine ⟨fun h => absurd (hdone.symm.trans h) (Option.some_ne_none _), fun c hc => ?_⟩
      obtain rfl : value = c := Option.some.inj (hdone.symm.trans hc)
      exact ⟨fun h => hsame.trans (hother h), _, hsame, hplay, hread⟩
    · by_cases hwaits : value = lociTapCmdPlay ∨ value = lociTapCmdReadBit ∨ value = lociTapCmdRec
      · -- the command waits for the motor
        have hdone : tapDone tape (.cmd value) = none := by
          rw [tapDone]
          exact if_pos ⟨hwaits, by simp [hmotor]⟩
        refine ⟨fun _ => ?_, fun c hc => absurd (hdone.symm.trans hc) (Option.some_ne_none c).symm⟩
        have hidle : tapExecCmd { tape with cmd := value } value stored =
            { tape with cmd := value } := by
          rcases hwaits with rfl | rfl | rfl <;> simp [tapExecCmd, hmotor]
        rw [hidle]
        exact hsame
      · have hdone : tapDone tape (.cmd value) = some value := by
          rw [tapDone]
          exact if_neg fun h => hwaits h.1
        refine ⟨fun h => absurd (hdone.symm.trans h) (Option.some_ne_none _), fun c hc => ?_⟩
        obtain rfl : value = c := Option.some.inj (hdone.symm.trans hc)
        rw [not_or, not_or] at hwaits
        refine ⟨fun h => ?_, _, hsame, fun h => absurd h hwaits.1, fun h => absurd h hwaits.2.1⟩
        simp only [tapMoves, List.mem_cons, List.not_mem_nil, or_false, not_or] at h
        simp only [tapExecCmd, h, if_false]
        exact ⟨rfl, rfl, rfl, rfl, rfl⟩
  | motor on =>
    have hstep : tapStep stored tape (.motor on) =
        if on && tape.cmd != 0#8 then tapExecCmd { tape with motorOn := on } tape.cmd stored
        else { tape with motorOn := on } := rfl
    have hsame : TapSame tape { tape with motorOn := on } := ⟨rfl, rfl, rfl, rfl, rfl⟩
    rw [hstep]
    by_cases hruns : (on && tape.cmd != 0#8) = true
    · have hdone : tapDone tape (.motor on) = some tape.cmd := by
        simp only [tapDone, if_pos hruns]
      have hon : on = true := (Bool.and_eq_true _ _ ▸ hruns).1
      obtain ⟨hplay, hread, hother⟩ := tapExecCmd_cases stored { tape with motorOn := on }
        (c := tape.cmd) hon
      rw [if_pos hruns]
      refine ⟨fun h => absurd (hdone.symm.trans h) (Option.some_ne_none _), fun c hc => ?_⟩
      obtain rfl : tape.cmd = c := Option.some.inj (hdone.symm.trans hc)
      exact ⟨fun h => hsame.trans (hother h), _, hsame, hplay, hread⟩
    · have hdone : tapDone tape (.motor on) = none := by
        simp only [tapDone, if_neg hruns]
      rw [if_neg hruns]
      exact ⟨fun _ => hsame, fun c hc =>
        absurd (hdone.symm.trans hc) (Option.some_ne_none c).symm⟩

/-! ## Frames -/

/-- The bits of a frame, in the order they are delivered. -/
def tapFrameBits (byte : Byte) : List Bool := (List.range 14).map (tapEncodeFrame byte).getLsbD

/-- The bits from a position of the tape on. -/
def tapFileBits (file : List Byte) (p n : Nat) : List Bool :=
  (List.range' p n).flatMap fun i => tapFrameBits (tapByteAt file i)

/-- The frames of 14 bits: `none` for a start bit that is 1, a stop bit that is 0, or an even
parity. What is left over is a frame that has not ended. -/
def tapDecode : List Bool → Option (List Byte)
  | start :: b0 :: b1 :: b2 :: b3 :: b4 :: b5 :: b6 :: b7 :: parity :: s0 :: s1 :: s2 :: s3 :: rest =>
    if start || !(s0 && s1 && s2 && s3) ||
        !(parity ^^ b0 ^^ b1 ^^ b2 ^^ b3 ^^ b4 ^^ b5 ^^ b6 ^^ b7) then none
    else
      (tapDecode rest).map ((BitVec.ofBoolListLE [b0, b1, b2, b3, b4, b5, b6, b7] : Byte) :: ·)
  | _ => some []

/-- A frame decodes to its byte. -/
theorem tapDecode_frame (byte : Byte) (rest : List Bool) :
    tapDecode (tapFrameBits byte ++ rest) = (tapDecode rest).map (byte :: ·) := by
  have hframe : ∀ byte : Byte, ((tapEncodeFrame byte).getLsbD 0 ||
        !((tapEncodeFrame byte).getLsbD 10 && (tapEncodeFrame byte).getLsbD 11 &&
          (tapEncodeFrame byte).getLsbD 12 && (tapEncodeFrame byte).getLsbD 13) ||
        !((tapEncodeFrame byte).getLsbD 9 ^^ (tapEncodeFrame byte).getLsbD 1 ^^
          (tapEncodeFrame byte).getLsbD 2 ^^ (tapEncodeFrame byte).getLsbD 3 ^^
          (tapEncodeFrame byte).getLsbD 4 ^^ (tapEncodeFrame byte).getLsbD 5 ^^
          (tapEncodeFrame byte).getLsbD 6 ^^ (tapEncodeFrame byte).getLsbD 7 ^^
          (tapEncodeFrame byte).getLsbD 8)) = false ∧
      (BitVec.ofBoolListLE [(tapEncodeFrame byte).getLsbD 1, (tapEncodeFrame byte).getLsbD 2,
        (tapEncodeFrame byte).getLsbD 3, (tapEncodeFrame byte).getLsbD 4,
        (tapEncodeFrame byte).getLsbD 5, (tapEncodeFrame byte).getLsbD 6,
        (tapEncodeFrame byte).getLsbD 7, (tapEncodeFrame byte).getLsbD 8] : Byte) = byte := by
    decide
  obtain ⟨hgood, hbyte⟩ := hframe byte
  exact (if_neg (by rw [hgood]; decide)).trans
    (congrArg (fun b => (tapDecode rest).map (b :: ·)) hbyte)

theorem tapDecode_short {bits : List Bool} (h : bits.length < 14) : tapDecode bits = some [] := by
  unfold tapDecode
  split
  next =>
    simp only [List.length_cons] at h
    omega
  next => rfl

/-- The bits of a prefix of the tape decode to its whole frames. -/
theorem tapDecode_initial (file : List Byte) (n : Nat) {p : Nat} {bits : List Bool}
    (h : bits <+: tapFileBits file p n) :
    tapDecode bits = some ((List.range' p (bits.length / 14)).map (tapByteAt file)) := by
  induction n generalizing p bits with
  | zero =>
    obtain rfl := List.prefix_nil.mp h
    rfl
  | succ n ih =>
    have hcons : tapFileBits file p (n + 1) =
        tapFrameBits (tapByteAt file p) ++ tapFileBits file (p + 1) n := rfl
    have hlen : (tapFrameBits (tapByteAt file p)).length = 14 := rfl
    by_cases hshort : bits.length < 14
    · rw [tapDecode_short hshort, Nat.div_eq_of_lt hshort]
      rfl
    · -- the first frame is whole
      rw [hcons] at h
      have hframe : tapFrameBits (tapByteAt file p) <+: bits :=
        List.prefix_of_prefix_length_le (List.prefix_append ..) h
          (hlen.trans_le (Nat.le_of_not_lt hshort))
      obtain ⟨rest, rfl⟩ := hframe
      have hrest := ih ((List.prefix_append_right_inj _).mp h)
      have hcount : (tapFrameBits (tapByteAt file p) ++ rest).length / 14 =
          rest.length / 14 + 1 := by
        rw [List.length_append, hlen, Nat.add_comm, Nat.add_div_right _ (by decide)]
      rw [tapDecode_frame, hrest, hcount, List.range'_succ]
      rfl

/-- The tape has given its first `p` bytes, and the bits `rest` of the last are still to come. -/
structure TapFrame (file : List Byte) (p : Nat) (tape : LociTape) (rest : List Bool) : Prop where
  tapAt : TapAt file p tape
  small : tape.bitCounter < 14
  left : rest = if tape.bitCounter = 0 then []
    else ((List.range 14).map tape.encoded.getLsbD).drop tape.bitCounter

theorem TapFrame.same {file : List Byte} {p : Nat} {tape tape' : LociTape} {rest : List Bool}
    (h : TapFrame file p tape rest) (hsame : TapSame tape tape') : TapFrame file p tape' rest where
  tapAt := hsame.tapAt h.tapAt
  small := hsame.bit.symm ▸ h.small
  left := by rw [hsame.bit, hsame.encoded, ← h.left]

theorem tapFileBits_initial (file : List Byte) (p n : Nat) :
    tapFileBits file p n <+: tapFileBits file p (n + 1) := by
  rw [tapFileBits, tapFileBits, List.range'_1_concat, List.flatMap_append]
  exact List.prefix_append ..

/-- Reading a bit delivers the next of the frame, the first of a new one where none is open. -/
theorem TapFrame.readBit {file : List Byte} (hshort : file.length < 2 ^ 32) {p : Nat}
    {tape : LociTape} {rest : List Bool} (h : TapFrame file p tape rest) :
    ∃ p' rest', TapFrame file p' (tapReadBit tape) rest' ∧
      ∀ n, (tapReadBit tape).data.getLsbD 0 :: (rest' ++ tapFileBits file p' n) <+:
        rest ++ tapFileBits file p (n + 1) := by
  have hbit : ∀ b : Bool, (if b then 1#8 else 0#8 : Byte).getLsbD 0 = b := by decide
  by_cases hzero : tape.bitCounter = 0
  · obtain ⟨hbyte, hat, -, -, hbc⟩ := h.tapAt.next hshort
    have hread : tapReadBit tape =
        { (tapNextByte tape).2 with
          encoded := tapEncodeFrame (tapByteAt file p)
          data := if (tapEncodeFrame (tapByteAt file p)).getLsbD 0 then 1#8 else 0#8
          bitCounter := 1
          cmd := 0 } := by
      simp only [tapReadBit, hbyte, hbc, hzero]
      rfl
    have hrest : rest = [] := by rw [h.left, if_pos hzero]
    refine ⟨p + 1, (tapFrameBits (tapByteAt file p)).drop 1, ?_, fun n => ?_⟩
    · rw [hread]
      exact ⟨⟨hat.mounted, hat.lead, hat.counter⟩, (by decide : 1 < 14), rfl⟩
    · rw [hread, hrest, hbit]
      exact List.prefix_rfl
  · have hread : tapReadBit tape =
        { tape with
          data := if tape.encoded.getLsbD tape.bitCounter then 1#8 else 0#8
          bitCounter := if tape.bitCounter + 1 ≥ 14 then 0 else tape.bitCounter + 1
          cmd := 0 } := by
      simp only [tapReadBit, if_neg hzero]
    have hlen : ((List.range 14).map tape.encoded.getLsbD).length = 14 := rfl
    have hcons : ((List.range 14).map tape.encoded.getLsbD).drop tape.bitCounter =
        tape.encoded.getLsbD tape.bitCounter ::
          ((List.range 14).map tape.encoded.getLsbD).drop (tape.bitCounter + 1) := by
      rw [List.drop_eq_getElem_cons (hlen.symm ▸ h.small), List.getElem_map, List.getElem_range]
    have hrest := h.left
    rw [if_neg hzero, hcons] at hrest
    refine ⟨p, ((List.range 14).map tape.encoded.getLsbD).drop (tape.bitCounter + 1), ?_,
      fun n => ?_⟩
    · rw [hread]
      have hsmall := h.small
      refine ⟨⟨h.tapAt.mounted, h.tapAt.lead, h.tapAt.counter⟩, ?_, ?_⟩
      · dsimp only
        split_ifs <;> omega
      · dsimp only
        by_cases hlast : tape.bitCounter + 1 ≥ 14
        · rw [if_pos hlast, if_pos rfl, List.drop_eq_nil_of_le (hlen.trans_le hlast)]
        · rw [if_neg hlast, if_neg (Nat.succ_ne_zero _)]
    · rw [hread, hrest, hbit, List.cons_append]
      exact List.cons_prefix_cons.mpr ⟨rfl, (List.prefix_append_right_inj _).mpr
        (tapFileBits_initial file p n)⟩

/-- The bits delivered are the next of the tape, by induction on the steps. -/
theorem tapBits_initial {file : List Byte} (hshort : file.length < 2 ^ 32) (ops : List TapOp)
    {p : Nat} {tape : LociTape} {rest : List Bool} (h : TapFrame file p tape rest)
    (honly : TapOnly stored lociTapCmdReadBit tape ops) :
    tapBits stored tape ops <+: rest ++ tapFileBits file p ops.length := by
  induction ops generalizing p tape rest with
  | nil => exact List.nil_prefix
  | cons op ops ih =>
    obtain ⟨hop, hops⟩ := honly
    obtain ⟨hidle, hcases⟩ := tapStep_cases stored tape op
    have hmore : rest ++ tapFileBits file p ops.length <+:
        rest ++ tapFileBits file p (op :: ops).length :=
      (List.prefix_append_right_inj _).mpr (tapFileBits_initial file p ops.length)
    rw [tapBits]
    cases hdone : tapDone tape op with
    | none =>
      rw [if_neg (Option.some_ne_none _).symm]
      exact (ih (h.same (hidle hdone)) hops).trans hmore
    | some c =>
      obtain ⟨hother, tape', hsame, -, hread⟩ := hcases c hdone
      by_cases hc : c = lociTapCmdReadBit
      · obtain ⟨p', rest', hframe, hnext⟩ := (h.same hsame).readBit hshort
        rw [hc, if_pos rfl]
        rw [hread hc] at hops ⊢
        exact (List.cons_prefix_cons.mpr ⟨rfl, ih hframe hops⟩).trans (hnext ops.length)
      · rw [if_neg (fun h => hc (Option.some.inj h))]
        have hstay := hother fun hmoves => hc (hop c hdone hmoves)
        exact (ih (h.same hstay) hops).trans hmore

/-- The bytes played are the next of the tape. -/
theorem tapBytes_stream {file : List Byte} (hshort : file.length < 2 ^ 32) (ops : List TapOp)
    {p : Nat} {tape : LociTape} (h : TapAt file p tape)
    (honly : TapOnly stored lociTapCmdPlay tape ops) :
    tapBytes stored tape ops =
      (List.range' p (tapBytes stored tape ops).length).map (tapByteAt file) := by
  induction ops generalizing p tape with
  | nil => rfl
  | cons op ops ih =>
    obtain ⟨hop, hops⟩ := honly
    obtain ⟨hidle, hcases⟩ := tapStep_cases stored tape op
    rw [tapBytes]
    cases hdone : tapDone tape op with
    | none =>
      rw [if_neg (Option.some_ne_none _).symm]
      exact ih ((hidle hdone).tapAt h) hops
    | some c =>
      obtain ⟨hother, tape', hsame, hplay, -⟩ := hcases c hdone
      by_cases hc : c = lociTapCmdPlay
      · obtain ⟨hbyte, hat, -⟩ := (hsame.tapAt h).next hshort
        have hplayed : TapAt file (p + 1) (tapPlay tape') := ⟨hat.mounted, hat.lead, hat.counter⟩
        have hdata : (tapPlay tape').data = tapByteAt file p := hbyte
        rw [hc, if_pos rfl]
        rw [hplay hc] at hops ⊢
        rw [hdata, List.length_cons, List.range'_succ, List.map_cons, ← ih hplayed hops]
      · rw [if_neg (fun h => hc (Option.some.inj h))]
        exact ih ((hother fun hmoves => hc (hop c hdone hmoves)).tapAt h) hops

/-- The start of the tape. -/
structure TapAtStart (file : List Byte) (tape : LociTape) : Prop where
  mounted : tape.file = some file
  counter : tape.counter = 0
  lead : tape.leadIn = 0
  bit : tape.bitCounter = 0

/-- A mount and a rewind go to the start. -/
theorem tapAtStart_open (tape : LociTape) (file : TapeFile) :
    TapAtStart file.bytes (lociTapOpen tape (some file)).2 := ⟨rfl, rfl, rfl, rfl⟩

/-- The bits and the bytes of the tape, from its start on. -/
theorem tap_bits_bytes {file : List Byte} (hshort : file.length < 2 ^ 32) {tape : LociTape}
    (hstart : TapAtStart file tape) :
    (∀ ops, TapOnly stored lociTapCmdReadBit tape ops →
      tapDecode (tapBits stored tape ops) =
        some (tapStream file ((tapBits stored tape ops).length / 14))) ∧
      ∀ ops, TapOnly stored lociTapCmdPlay tape ops →
        tapBytes stored tape ops = tapStream file (tapBytes stored tape ops).length := by
  have hat : TapAt file 0 tape := by
    refine ⟨hstart.mounted, hstart.lead, ?_⟩
    rw [hstart.counter]
    exact (Nat.zero_min _).symm
  have hframe : TapFrame file 0 tape [] := by
    refine ⟨hat, ?_, ?_⟩
    · rw [hstart.bit]
      decide
    · rw [if_pos hstart.bit]
  constructor
  · intro ops honly
    rw [tapStream_eq, List.range_eq_range']
    exact tapDecode_initial file ops.length (tapBits_initial stored hshort ops hframe honly)
  · intro ops honly
    rw [tapStream_eq, List.range_eq_range']
    exact tapBytes_stream stored hshort ops hat honly

/-- A tape of one byte, just mounted. -/
def tapMounted : LociTape := (lociTapOpen LociTape.initial (some ⟨[0x41#8], false⟩)).2

theorem tap_bits_bytes_mounted :
    (∀ ops, TapOnly false lociTapCmdReadBit tapMounted ops →
      tapDecode (tapBits false tapMounted ops) =
        some (tapStream [0x41#8] ((tapBits false tapMounted ops).length / 14))) ∧
      ∀ ops, TapOnly false lociTapCmdPlay tapMounted ops →
        tapBytes false tapMounted ops =
          tapStream [0x41#8] (tapBytes false tapMounted ops).length :=
  tap_bits_bytes false (by decide) (tapAtStart_open LociTape.initial ⟨[0x41#8], false⟩)

/-- A bit, eight bytes, and the bits of two frames less one. -/
def tapInterleaved : List TapOp :=
  .motor true :: .cmd lociTapCmdReadBit ::
    (List.replicate 8 (.cmd lociTapCmdPlay) ++ List.replicate 27 (.cmd lociTapCmdReadBit))

set_option maxRecDepth 4096 in
/-- The second frame is not the second byte of the tape: those were played. -/
theorem tap_bits_played :
    TapAtStart [0x41#8] tapMounted ∧
      tapDecode (tapBits false tapMounted tapInterleaved) = some [0x16#8, 0x00#8] ∧
      tapBytes false tapMounted [.motor true, .cmd lociTapCmdPlay, .cmd lociTapCmdPlay] =
        [0x16#8, 0x16#8] := by
  refine ⟨tapAtStart_open LociTape.initial ⟨[0x41#8], false⟩, ?_, ?_⟩
  · decide
  · decide

end Phosphoric
