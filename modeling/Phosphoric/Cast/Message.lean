import Phosphoric.Cast.Scan
import Mathlib.Tactic.IntervalCases

/-!
# Cast messages built and scanned

`castv2_encode_varint`, the field encoders and `castv2_build_message` of `src/network/castv2.c`.
Each writes after what is written already: `bytes` is what it has written when it returns.

**Theorem (`castv2BuildMessage_sound_iff`).** A message built is scanned back to its payload, and a
buffer too small is not written past, exactly if the length of each string that is copied is an
`int`, of the payload the whole length and of the others the low half.

`(int)strlen(str)` of a string of 2^31 bytes is negative, passes the checks against the buffer's size,
and is the `size_t` of the copy (`castv2BuildMessage_overrun`).
-/

namespace Phosphoric

/-! ## Encoders -/

/-- How an encoder leaves off: with -1, with the number of bytes written, or with a copy past the
buffer's end. -/
inductive PbOutcome
  | error | done | overrun
  deriving DecidableEq

structure PbOut where
  bytes : List Byte
  outcome : PbOutcome
  deriving DecidableEq

/-- `if (n < 0) return -1; pos += n;` -/
def PbOut.andThen (out : PbOut) (next : Nat → PbOut) : PbOut :=
  if out.outcome = .done then
    let rest := next out.bytes.length
    ⟨out.bytes ++ rest.bytes, rest.outcome⟩
  else out

/-- The byte of a group of seven bits. -/
def castv2Group (value : BitVec 64) : Byte :=
  (value &&& 0x7F#64).setWidth 8 ||| if value >>> 7 = 0#64 then 0#8 else 0x80#8

/-- The loop of `castv2_encode_varint`. 64 bits are ten groups of seven. -/
def castv2EncodeLoop (bufSize : Int) : Nat → Nat → BitVec 64 → PbOut
  | 0, _, _ => ⟨[], .done⟩
  | rounds + 1, pos, value =>
    if bufSize ≤ pos then ⟨[], .error⟩
    else if value >>> 7 = 0#64 then ⟨[castv2Group value], .done⟩
    else
      let rest := castv2EncodeLoop bufSize rounds (pos + 1) (value >>> 7)
      ⟨castv2Group value :: rest.bytes, rest.outcome⟩

/-- `castv2_encode_varint`. -/
def castv2EncodeVarint (bufSize : Int) (value : BitVec 64) : PbOut :=
  castv2EncodeLoop bufSize 10 0 value

/-- `pb_encode_varint_field`. -/
def pbEncodeVarintField (bufSize : Int) (fieldNum : Nat) (value : BitVec 64) : PbOut :=
  if bufSize < 2 then ⟨[], .error⟩
  else
    (castv2EncodeVarint bufSize (.ofNat 64 (fieldNum <<< 3))).andThen fun n =>
      castv2EncodeVarint (bufSize - n) value

/-- `memcpy` of `(size_t)slen` bytes. -/
def pbCopy (room slen : Int) (str : List Byte) : PbOut :=
  let count := (BitVec.ofInt 64 slen).toNat
  if count ≤ room then ⟨str.take count, .done⟩ else ⟨[], .overrun⟩

/-- `pb_encode_string`, once it has the length. -/
def pbEncodeSized (bufSize : Int) (fieldNum : Nat) (str : List Byte) (slen : Int) : PbOut :=
  if bufSize < int32 (2 + slen) then ⟨[], .error⟩
  else
    (castv2EncodeVarint bufSize (.ofNat 64 (fieldNum <<< 3 ||| 2))).andThen fun n =>
      (castv2EncodeVarint (bufSize - n) (.ofInt 64 slen)).andThen fun m =>
        if int32 (n + m + slen) > bufSize then ⟨[], .error⟩
        else pbCopy (bufSize - (n + m)) slen str

/-- `pb_encode_string`. -/
def pbEncodeString (bufSize : Int) (fieldNum : Nat) (str : List Byte) : PbOut :=
  pbEncodeSized bufSize fieldNum str (int32 str.length)

/-! ## Messages -/

/-- A field of a message. -/
inductive PbField
  | varint (fieldNum : Nat) (value : BitVec 64)
  | string (fieldNum : Nat) (str : List Byte)

def PbField.encode (bufSize : Int) : PbField → PbOut
  | .varint fieldNum value => pbEncodeVarintField bufSize fieldNum value
  | .string fieldNum str => pbEncodeString bufSize fieldNum str

theorem PbField.encode_string (bufSize : Int) (fieldNum : Nat) (str : List Byte) :
    (PbField.string fieldNum str).encode bufSize = pbEncodeString bufSize fieldNum str := rfl

/-- Field after field, each into what is left of the buffer. -/
def pbEncodeAll (bufSize : Int) : List PbField → PbOut
  | [] => ⟨[], .done⟩
  | field :: rest => (field.encode bufSize).andThen fun n => pbEncodeAll (bufSize - n) rest

/-- The fields of `castv2_build_message`. -/
def castv2Fields (sourceId destId ns payload : List Byte) : List PbField :=
  [.varint 1 0, .string 2 sourceId, .string 3 destId, .string 4 ns, .varint 5 0, .string 6 payload]

/-- What `castv2_build_message` writes behind the framing header. -/
def castv2Body (bufSize : Int) (sourceId destId ns payload : List Byte) : PbOut :=
  pbEncodeAll (bufSize - 4) (castv2Fields sourceId destId ns payload)

/-- The four bytes of the framing header. -/
def castv2Header (msgLen : BitVec 32) : List Byte :=
  [(msgLen >>> 24).setWidth 8, (msgLen >>> 16).setWidth 8, (msgLen >>> 8).setWidth 8,
    msgLen.setWidth 8]

/-- `castv2_build_message`; `none` for -1. -/
def castv2BuildMessage (bufSize : Int) (sourceId destId ns payload : List Byte) :
    Option (List Byte) :=
  let body := castv2Body bufSize sourceId destId ns payload
  if body.outcome = .done then
    some (castv2Header (.ofNat 32 body.bytes.length) ++ body.bytes)
  else none

/-! ## Varints back -/

section Varints

theorem castv2_low (value : BitVec 64) : (value &&& 0x7F#64).toNat = value.toNat % 128 := by
  rw [BitVec.toNat_and]
  exact Nat.and_two_pow_sub_one_eq_mod value.toNat 7

theorem castv2_low_byte (value : BitVec 64) :
    ((value &&& 0x7F#64).setWidth 8).toNat = value.toNat % 128 := by
  rw [BitVec.toNat_setWidth, castv2_low]
  omega

/-- A group carries its seven bits. -/
theorem castv2Group_value (value : BitVec 64) :
    (castv2Group value &&& 0x7F#8).setWidth 64 = value &&& 0x7F#64 := by
  have hmask : ∀ b : Byte, b.toNat < 128 → (b ||| 0#8) &&& 0x7F#8 = b ∧
      (b ||| 0x80#8) &&& 0x7F#8 = b := by decide
  obtain ⟨hlast, hmore⟩ := hmask ((value &&& 0x7F#64).setWidth 8)
    (by rw [castv2_low_byte]; exact Nat.mod_lt _ (by decide))
  have hgroup : castv2Group value &&& 0x7F#8 = (value &&& 0x7F#64).setWidth 8 := by
    unfold castv2Group
    split_ifs
    · exact hlast
    · exact hmore
  apply BitVec.eq_of_toNat_eq
  rw [hgroup, BitVec.toNat_setWidth, castv2_low_byte, castv2_low]
  omega

/-- The last group is the one without its high bit. -/
theorem castv2Group_last (value : BitVec 64) :
    castv2Group value &&& 0x80#8 = 0#8 ↔ value >>> 7 = 0#64 := by
  have hflag : ∀ b : Byte, b.toNat < 128 → (b ||| 0#8) &&& 0x80#8 = 0#8 ∧
      (b ||| 0x80#8) &&& 0x80#8 ≠ 0#8 := by decide
  obtain ⟨hlast, hmore⟩ := hflag ((value &&& 0x7F#64).setWidth 8)
    (by rw [castv2_low_byte]; exact Nat.mod_lt _ (by decide))
  unfold castv2Group
  split_ifs with h
  · exact iff_of_true hlast h
  · exact iff_of_false hmore h

theorem castv2_rest (value : BitVec 64) : (value >>> 7).toNat = value.toNat / 128 := by
  rw [BitVec.toNat_ushiftRight, Nat.shiftRight_eq_div_pow]

theorem castv2_groups (value : BitVec 64) :
    (value &&& 0x7F#64) ||| ((value >>> 7) <<< 7) = value := by
  apply BitVec.eq_of_toNat_eq
  have hlt : value.toNat / 128 * 2 ^ 7 < 2 ^ 64 := by
    have hvalue := value.isLt
    omega
  have hsum := Nat.two_pow_add_eq_or_of_lt (i := 7) (Nat.mod_lt value.toNat (by decide))
    (value.toNat / 128)
  rw [BitVec.toNat_or, BitVec.toNat_shiftLeft, castv2_rest, castv2_low, Nat.shiftLeft_eq,
    Nat.mod_eq_of_lt hlt, Nat.or_comm, Nat.mul_comm, ← hsum]
  exact Nat.div_add_mod value.toNat 128

/-- The buffer has the bytes from its start on. -/
def Holds (buf : Nat → Byte) (bytes : List Byte) : Prop :=
  ∀ i (h : i < bytes.length), buf i = bytes[i]

theorem Holds.append {buf : Nat → Byte} {bytes bytes' : List Byte}
    (h : Holds buf (bytes ++ bytes')) :
    Holds buf bytes ∧ Holds (fun i => buf (bytes.length + i)) bytes' := by
  constructor
  · intro i hi
    rw [h i (by rw [List.length_append]; omega), List.getElem_append_left hi]
  · intro i hi
    have hlen : bytes.length + i < (bytes ++ bytes').length := by
      rw [List.length_append]
      omega
    show buf (bytes.length + i) = bytes'[i]
    rw [h _ hlen, List.getElem_append_right (by omega)]
    simp only [Nat.add_sub_cancel_left]

theorem Holds.cons {buf : Nat → Byte} {byte : Byte} {bytes : List Byte}
    (h : Holds buf (byte :: bytes)) : buf 0 = byte ∧ Holds (fun i => buf (i + 1)) bytes :=
  ⟨h 0 (Nat.succ_pos _), fun i hi => h (i + 1) (Nat.succ_lt_succ hi)⟩

/-- The groups decoded, behind `pos` groups whose value is `low`. -/
theorem castv2DecodeLoop_encode {bufSize size : Int} (buf : Nat → Byte) (rounds : Nat) {pos : Nat}
    (hrounds : rounds + pos = 10) {value : BitVec 64} (hvalue : value.toNat * 2 ^ (7 * pos) < 2 ^ 64)
    (hmore : pos = 0 ∨ value ≠ 0#64) (low : BitVec 64)
    (hdone : (castv2EncodeLoop bufSize rounds pos value).outcome = .done)
    (hholds : Holds (fun i => buf (pos + i)) (castv2EncodeLoop bufSize rounds pos value).bytes)
    (hsize : ((pos + (castv2EncodeLoop bufSize rounds pos value).bytes.length : Nat) : Int) ≤ size) :
    castv2DecodeLoop buf size rounds pos low =
      (pos + (castv2EncodeLoop bufSize rounds pos value).bytes.length,
        some (low ||| value <<< (7 * pos))) := by
  induction rounds generalizing pos value low with
  | zero =>
    obtain rfl | hmore := hmore
    · omega
    · have hpos : pos = 10 := by omega
      subst hpos
      have hzero : value.toNat = 0 := by omega
      exact absurd (BitVec.eq_of_toNat_eq hzero) hmore
  | succ rounds ih =>
    unfold castv2EncodeLoop at hdone hholds hsize ⊢
    by_cases hroom : bufSize ≤ pos
    · rw [if_pos hroom] at hdone
      nomatch hdone
    · rw [if_neg hroom] at hdone hholds hsize ⊢
      unfold castv2DecodeLoop
      by_cases hlast : value >>> 7 = 0#64
      · rw [if_pos hlast] at hholds hsize ⊢
        have hbyte : buf pos = castv2Group value := hholds.cons.1
        have hbelow : (pos : Int) < size := by
          rw [List.length_singleton] at hsize
          omega
        have hall : value &&& 0x7F#64 = value := by
          have hgroups := castv2_groups value
          rwa [hlast, BitVec.zero_shiftLeft, BitVec.or_zero] at hgroups
        rw [if_pos hbelow, hbyte]
        dsimp only
        rw [if_pos ((castv2Group_last value).mpr hlast), castv2Group_value, hall,
          List.length_singleton]
      · rw [if_neg hlast] at hdone hholds hsize ⊢
        dsimp only at hdone hholds hsize ⊢
        rw [List.length_cons] at hsize ⊢
        have hbelow : (pos : Int) < size := by omega
        have hbyte : buf pos = castv2Group value := hholds.cons.1
        have hrest : Holds (fun i => buf (pos + 1 + i))
            (castv2EncodeLoop bufSize rounds (pos + 1) (value >>> 7)).bytes := by
          intro i hi
          have hi' := hholds.cons.2 i hi
          show buf (pos + 1 + i) = _
          rw [show pos + 1 + i = pos + (i + 1) by omega]
          exact hi'
        have hless : (value >>> 7).toNat * 2 ^ (7 * (pos + 1)) < 2 ^ 64 := by
          rw [castv2_rest, show 7 * (pos + 1) = 7 + 7 * pos by omega, Nat.pow_add, ← Nat.mul_assoc]
          exact (Nat.mul_le_mul_right _ (Nat.div_mul_le_self _ _)).trans_lt hvalue
        have hshift : ((value &&& 0x7F#64) <<< (7 * pos)) ||| ((value >>> 7) <<< (7 * (pos + 1))) =
            value <<< (7 * pos) := by
          rw [show 7 * (pos + 1) = 7 + 7 * pos by omega, BitVec.shiftLeft_add,
            ← BitVec.shiftLeft_or_distrib, castv2_groups]
        rw [if_pos hbelow, hbyte, if_neg (mt (castv2Group_last value).mp hlast), castv2Group_value,
          ih (by omega) hless (.inr hlast) _ hdone hrest (by omega), BitVec.or_assoc, hshift]
        congr 1
        omega

/-- What is encoded is decoded, from the same bytes. -/
theorem castv2DecodeVarint_encode {bufSize size : Int} {value : BitVec 64}
    (hdone : (castv2EncodeVarint bufSize value).outcome = .done) {buf : Nat → Byte}
    (hholds : Holds buf (castv2EncodeVarint bufSize value).bytes)
    (hsize : (castv2EncodeVarint bufSize value).bytes.length ≤ size) :
    castv2DecodeVarint buf size = ((castv2EncodeVarint bufSize value).bytes.length, some value) := by
  have hvalue : value.toNat * 2 ^ (7 * 0) < 2 ^ 64 := by
    simpa using value.isLt
  have hfrom : Holds (fun i => buf (0 + i)) (castv2EncodeVarint bufSize value).bytes := by
    simpa using hholds
  have hend : ((0 + (castv2EncodeVarint bufSize value).bytes.length : Nat) : Int) ≤ size := by
    rwa [Nat.zero_add]
  have hloop := castv2DecodeLoop_encode buf 10 rfl hvalue (.inl rfl) 0#64 hdone hfrom hend
  rw [Nat.zero_add, BitVec.zero_or, Nat.mul_zero, BitVec.shiftLeft_zero] at hloop
  exact hloop

end Varints

/-! ## What the encoders write -/

section Encoders

variable {bufSize : Int}

theorem PbOut.andThen_done {out : PbOut} {next : Nat → PbOut} :
    (out.andThen next).outcome = .done ↔
      out.outcome = .done ∧ (next out.bytes.length).outcome = .done := by
  unfold PbOut.andThen
  split_ifs with h
  · exact (and_iff_right h).symm
  · exact iff_of_false h fun hand => h hand.1

theorem PbOut.andThen_bytes {out : PbOut} {next : Nat → PbOut} (h : out.outcome = .done) :
    (out.andThen next).bytes = out.bytes ++ (next out.bytes.length).bytes := by
  unfold PbOut.andThen
  rw [if_pos h]

theorem PbOut.andThen_outcome {out : PbOut} {next : Nat → PbOut} (h : out.outcome = .done) :
    (out.andThen next).outcome = (next out.bytes.length).outcome := by
  unfold PbOut.andThen
  rw [if_pos h]

theorem PbOut.andThen_stop {out : PbOut} {next : Nat → PbOut} (h : out.outcome ≠ .done) :
    out.andThen next = out := if_neg h

/-- Nothing is written past the end of the buffer. -/
def PbOut.Within (bufSize : Int) (out : PbOut) : Prop := (out.bytes.length : Int) ≤ max 0 bufSize

theorem PbOut.within_nil (bufSize : Int) (outcome : PbOutcome) :
    PbOut.Within bufSize ⟨[], outcome⟩ := le_max_left 0 bufSize

theorem PbOut.Within.andThen {out : PbOut} {next : Nat → PbOut} (h : out.Within bufSize)
    (hnext : ∀ n : Nat, (next n).Within (bufSize - n)) : (out.andThen next).Within bufSize := by
  by_cases hdone : out.outcome = .done
  · have hrest := hnext out.bytes.length
    unfold PbOut.Within at *
    rw [PbOut.andThen_bytes hdone, List.length_append]
    omega
  · rw [PbOut.andThen_stop hdone]
    exact h

theorem castv2EncodeLoop_within (rounds pos : Nat) (value : BitVec 64) :
    (pos + (castv2EncodeLoop bufSize rounds pos value).bytes.length : Int) ≤
      max (pos : Int) bufSize := by
  induction rounds generalizing pos value with
  | zero => exact (Int.add_zero _).le.trans (le_max_left _ _)
  | succ rounds ih =>
    unfold castv2EncodeLoop
    split_ifs with hroom hlast
    · exact (Int.add_zero _).le.trans (le_max_left _ _)
    · rw [List.length_singleton]
      omega
    · have hrest := ih (pos + 1) (value >>> 7)
      dsimp only
      rw [List.length_cons]
      omega

theorem castv2EncodeVarint_within (value : BitVec 64) :
    (castv2EncodeVarint bufSize value).Within bufSize := by
  have hloop := @castv2EncodeLoop_within bufSize 10 0 value
  unfold PbOut.Within castv2EncodeVarint
  omega

theorem castv2EncodeLoop_outcome (rounds pos : Nat) (value : BitVec 64) :
    (castv2EncodeLoop bufSize rounds pos value).outcome ≠ .overrun := by
  induction rounds generalizing pos value with
  | zero => exact nofun
  | succ rounds ih =>
    unfold castv2EncodeLoop
    split_ifs
    · exact nofun
    · exact nofun
    · exact ih _ _

theorem castv2EncodeVarint_outcome (value : BitVec 64) :
    (castv2EncodeVarint bufSize value).outcome ≠ .overrun := castv2EncodeLoop_outcome 10 0 value

theorem castv2EncodeVarint_ne_nil {value : BitVec 64}
    (h : (castv2EncodeVarint bufSize value).outcome = .done) :
    1 ≤ (castv2EncodeVarint bufSize value).bytes.length := by
  unfold castv2EncodeVarint castv2EncodeLoop at h ⊢
  split_ifs at h ⊢
  · exact le_rfl
  · dsimp only
    rw [List.length_cons]
    omega

/-- A value of `k` groups takes `k` bytes at most. -/
theorem castv2EncodeLoop_length (rounds pos : Nat) {k : Nat} (hk : 1 ≤ k) {value : BitVec 64}
    (hvalue : value.toNat < 128 ^ k) :
    (castv2EncodeLoop bufSize rounds pos value).bytes.length ≤ k := by
  induction rounds generalizing pos k value with
  | zero => exact Nat.zero_le k
  | succ rounds ih =>
    unfold castv2EncodeLoop
    split_ifs with hroom hlast
    · exact Nat.zero_le k
    · exact hk
    · have hrest := castv2_rest value
      have hmore : 128 ≤ value.toNat := by
        by_contra hless
        refine hlast (BitVec.eq_of_toNat_eq ?_)
        rw [hrest]
        exact Nat.div_eq_of_lt (by omega)
      obtain ⟨j, rfl⟩ : ∃ j, k = j + 1 := ⟨k - 1, by omega⟩
      have hj : 1 ≤ j := by
        by_contra hj
        have hzero : j = 0 := by omega
        subst hzero
        omega
      have hshort := ih (pos + 1) hj 
        (by rw [hrest]; exact Nat.div_lt_of_lt_mul (by rwa [Nat.pow_succ'] at hvalue))
      dsimp only
      rw [List.length_cons]
      omega

theorem PbField.encode_within (field : PbField) : (field.encode bufSize).Within bufSize := by
  cases field with
  | varint fieldNum value =>
    unfold PbField.encode pbEncodeVarintField
    split_ifs
    · exact PbOut.within_nil _ _
    · exact (castv2EncodeVarint_within _).andThen fun n => castv2EncodeVarint_within _
  | string fieldNum str =>
    unfold PbField.encode
    dsimp only
    unfold pbEncodeString pbEncodeSized
    split_ifs
    · exact PbOut.within_nil _ _
    refine (castv2EncodeVarint_within _).andThen fun n => ?_
    refine (castv2EncodeVarint_within _).andThen fun m => ?_
    split_ifs
    · exact PbOut.within_nil _ _
    · unfold pbCopy
      dsimp only
      split_ifs with hroom
      · have hlen := List.length_take_le (BitVec.ofInt 64 (int32 str.length)).toNat str
        unfold PbOut.Within
        dsimp only
        omega
      · exact PbOut.within_nil _ _

theorem pbEncodeAll_within (fields : List PbField) :
    (pbEncodeAll bufSize fields).Within bufSize := by
  induction fields generalizing bufSize with
  | nil => exact PbOut.within_nil _ _
  | cons field rest ih => exact field.encode_within.andThen fun n => ih

/-- The low half of the length, and it is an `int` with room for a tag and a length. -/
def ShortStr (str : List Byte) : Prop := str.length % 2 ^ 32 < 2 ^ 31 - 2

theorem int32_length (str : List Byte) (h : str.length % 2 ^ 32 < 2 ^ 31) :
    int32 str.length = (str.length % 2 ^ 32 : Nat) := by
  unfold int32
  rw [Int.bmod_def]
  push_cast
  rw [if_pos (by omega)]

theorem int32_length_neg (str : List Byte) (h : 2 ^ 31 ≤ str.length % 2 ^ 32) :
    int32 str.length = (str.length % 2 ^ 32 : Nat) - 2 ^ 32 := by
  unfold int32
  rw [Int.bmod_def]
  push_cast
  rw [if_neg (by omega)]

theorem int32_length_bounds (str : List Byte) :
    -2 ^ 31 ≤ int32 str.length ∧ int32 str.length < 2 ^ 31 := by
  by_cases h : str.length % 2 ^ 32 < 2 ^ 31
  · rw [int32_length str h]
    omega
  · rw [int32_length_neg str (by omega)]
    omega

theorem shortStr_iff (str : List Byte) :
    ShortStr str ↔ 0 ≤ int32 str.length ∧ int32 str.length < 2 ^ 31 - 2 := by
  unfold ShortStr
  by_cases h : str.length % 2 ^ 32 < 2 ^ 31
  · rw [int32_length str h]
    omega
  · rw [int32_length_neg str (by omega)]
    omega

/-- The `size_t` of a length that is not negative. -/
theorem ofInt_toNat {slen : Int} (hlo : 0 ≤ slen) (hhi : slen < 2 ^ 31) :
    ((BitVec.ofInt 64 slen).toNat : Int) = slen := by
  rw [BitVec.toNat_ofInt]
  omega

/-- The `size_t` of a negative one. -/
theorem ofInt_toNat_neg {slen : Int} (hlo : -2 ^ 31 ≤ slen) (hhi : slen < 0) :
    2 ^ 31 ≤ ((BitVec.ofInt 64 slen).toNat : Int) := by
  have hint : (BitVec.ofInt 64 slen).toInt = slen := by
    rw [BitVec.toInt_ofInt]
    apply Int.bmod_eq_of_le <;> omega
  by_contra hsmall
  rw [BitVec.toInt_eq_toNat_of_lt (by omega)] at hint
  omega

/-- A length that fits an `int` of room is not negative, and is the low half. -/
theorem copied_length {str : List Byte} {room : Int} (hroom : room < 2 ^ 31)
    (hcount : ((BitVec.ofInt 64 (int32 str.length)).toNat : Int) ≤ room) :
    (BitVec.ofInt 64 (int32 str.length)).toNat = str.length % 2 ^ 32 ∧
      ((BitVec.ofInt 64 (int32 str.length)).setWidth 32).toInt = (str.length % 2 ^ 32 : Nat) := by
  obtain ⟨hlo, hhi⟩ := int32_length_bounds str
  have hpositive : 0 ≤ int32 str.length := by
    by_contra hneg
    have hhuge := ofInt_toNat_neg hlo (by omega)
    omega
  have hexact := ofInt_toNat hpositive hhi
  have hlow : (BitVec.ofInt 64 (int32 str.length)).toNat = str.length % 2 ^ 32 := by
    by_cases hsmall : str.length % 2 ^ 32 < 2 ^ 31
    · rw [int32_length str hsmall] at hexact ⊢
      omega
    · rw [int32_length_neg str (by omega)] at hpositive
      omega
  refine ⟨hlow, ?_⟩
  have hnat : ((BitVec.ofInt 64 (int32 str.length)).setWidth 32).toNat = str.length % 2 ^ 32 := by
    rw [BitVec.toNat_setWidth, hlow]
    omega
  rw [BitVec.toInt_eq_toNat_of_lt (by omega), hnat]

/-- What was encoded of a string that was not refused: a tag, a length and the bytes. -/
structure StringWritten (bufSize : Int) (fieldNum : Nat) (str : List Byte) (slen : Int)
    (n m : Nat) : Prop where
  check : int32 (2 + slen) ≤ bufSize
  tag : (castv2EncodeVarint bufSize (.ofNat 64 (fieldNum <<< 3 ||| 2))).outcome = .done
  tagLength : (castv2EncodeVarint bufSize (.ofNat 64 (fieldNum <<< 3 ||| 2))).bytes.length = n
  length : (castv2EncodeVarint (bufSize - n) (.ofInt 64 slen)).outcome = .done
  lengthLength : (castv2EncodeVarint (bufSize - n) (.ofInt 64 slen)).bytes.length = m
  room : int32 (n + m + slen) ≤ bufSize
  one : 1 ≤ n ∧ 1 ≤ m
  fits : (n + m : Int) ≤ bufSize
  encoded : pbEncodeSized bufSize fieldNum str slen =
    ⟨(castv2EncodeVarint bufSize (.ofNat 64 (fieldNum <<< 3 ||| 2))).bytes ++
      ((castv2EncodeVarint (bufSize - n) (.ofInt 64 slen)).bytes ++
        (pbCopy (bufSize - (n + m)) slen str).bytes),
      (pbCopy (bufSize - (n + m)) slen str).outcome⟩

/-- An encoder that goes on has not failed. -/
theorem PbOut.andThen_ne_error {value : BitVec 64} {next : Nat → PbOut}
    (h : ((castv2EncodeVarint bufSize value).andThen next).outcome ≠ .error) :
    (castv2EncodeVarint bufSize value).outcome = .done := by
  by_contra hstop
  rw [PbOut.andThen_stop hstop] at h
  cases hout : (castv2EncodeVarint bufSize value).outcome with
  | error => exact h hout
  | done => exact hstop hout
  | overrun => exact castv2EncodeVarint_outcome _ hout

theorem stringWritten {fieldNum : Nat} {str : List Byte} {slen : Int}
    (h : (pbEncodeSized bufSize fieldNum str slen).outcome ≠ .error) :
    ∃ n m, StringWritten bufSize fieldNum str slen n m := by
  unfold pbEncodeSized at h
  by_cases hcheck : bufSize < int32 (2 + slen)
  · rw [if_pos hcheck] at h
    exact absurd rfl h
  rw [if_neg hcheck] at h
  have htag := PbOut.andThen_ne_error h
  rw [PbOut.andThen_outcome htag] at h
  have hlen := PbOut.andThen_ne_error h
  rw [PbOut.andThen_outcome hlen] at h
  have hn1 := castv2EncodeVarint_ne_nil htag
  have hm1 := castv2EncodeVarint_ne_nil hlen
  have htagWithin := @castv2EncodeVarint_within bufSize (.ofNat 64 (fieldNum <<< 3 ||| 2))
  generalize hn : (castv2EncodeVarint bufSize (.ofNat 64 (fieldNum <<< 3 ||| 2))).bytes.length = n
    at *
  have hlenWithin := @castv2EncodeVarint_within (bufSize - n) (.ofInt 64 slen)
  generalize hm : (castv2EncodeVarint (bufSize - n) (.ofInt 64 slen)).bytes.length = m at *
  by_cases hroom : int32 (n + m + slen) > bufSize
  · rw [if_pos hroom] at h
    exact absurd rfl h
  unfold PbOut.Within at htagWithin hlenWithin
  rw [hn] at htagWithin
  rw [hm] at hlenWithin
  refine ⟨n, m, by omega, htag, hn, hlen, hm, by omega, ⟨hn1, hm1⟩, by omega, ?_⟩
  unfold pbEncodeSized
  rw [if_neg hcheck]
  unfold PbOut.andThen
  simp only [htag, hn, hlen, hm, if_true, if_neg hroom]

/-- A string that is not refused is copied past the end exactly if it is not short. -/
theorem pbEncodeString_overrun (hsize : bufSize ≤ 2 ^ 31 - 5) {fieldNum : Nat} (hnum : fieldNum < 16)
    (str : List Byte) :
    (pbEncodeString bufSize fieldNum str).outcome ≠ .overrun ↔
      ((pbEncodeString bufSize fieldNum str).outcome ≠ .error → ShortStr str) := by
  by_cases herror : (pbEncodeString bufSize fieldNum str).outcome = .error
  · exact iff_of_true (by rw [herror]; exact nofun) fun h => absurd herror h
  rw [forall_prop_of_true herror]
  unfold pbEncodeString at herror ⊢
  obtain ⟨n, m, h⟩ := stringWritten herror
  have hcheck := h.check
  obtain ⟨hlo, hhi⟩ := int32_length_bounds str
  have hone := h.one
  have hfits := h.fits
  have hroom := h.room
  rw [h.encoded, shortStr_iff]
  dsimp only
  unfold pbCopy
  dsimp only
  constructor
  · intro hcopy
    split_ifs at hcopy with hcount
    · by_cases hneg : int32 str.length < 0
      · have hhuge := ofInt_toNat_neg hlo hneg
        omega
      · have hexact := ofInt_toNat (by omega) hhi
        omega
    · exact absurd rfl hcopy
  · rintro ⟨hpos, hshort⟩
    rw [int32_eq (by omega) (by omega)] at hcheck
    have hexact := ofInt_toNat hpos hhi
    have hn : n ≤ 1 := by
      rw [← h.tagLength]
      refine castv2EncodeLoop_length 10 0 le_rfl ?_
      interval_cases fieldNum <;> decide
    have hm : m ≤ 5 := by
      rw [← h.lengthLength]
      exact castv2EncodeLoop_length 10 0 (by decide) (by omega)
    rw [int32_eq (by omega) (by omega)] at hroom
    rw [if_pos (by omega)]
    exact nofun

/-! ## Strings of a good length -/

def PbField.num : PbField → Nat
  | .varint fieldNum _ => fieldNum
  | .string fieldNum _ => fieldNum

def PbField.Short : PbField → Prop
  | .varint _ _ => True
  | .string _ str => ShortStr str

/-- The low half of the payload's length is all of it. -/
def PbField.Whole : PbField → Prop
  | .varint _ _ => True
  | .string fieldNum str => fieldNum = 6 → str.length < 2 ^ 32

/-- Every field that is come to, and not refused for want of room, is as `ok` says. -/
def PbEach (ok : PbField → Prop) (bufSize : Int) : List PbField → Prop
  | [] => True
  | field :: rest =>
    ((field.encode bufSize).outcome ≠ .error → ok field) ∧
      ((field.encode bufSize).outcome = .done →
        PbEach ok (bufSize - (field.encode bufSize).bytes.length) rest)

theorem PbField.encode_overrun (hsize : bufSize ≤ 2 ^ 31 - 5) {field : PbField}
    (hnum : field.num < 16) : (field.encode bufSize).outcome ≠ .overrun ↔
      ((field.encode bufSize).outcome ≠ .error → field.Short) := by
  cases field with
  | varint fieldNum value =>
    refine iff_of_true ?_ fun _ => trivial
    unfold PbField.encode
    dsimp only
    unfold pbEncodeVarintField
    split_ifs
    · exact nofun
    · by_cases htag : (castv2EncodeVarint bufSize (.ofNat 64 (fieldNum <<< 3))).outcome = .done
      · rw [PbOut.andThen_outcome htag]
        exact castv2EncodeVarint_outcome _
      · rw [PbOut.andThen_stop htag]
        exact castv2EncodeVarint_outcome _
  | string fieldNum str => exact pbEncodeString_overrun hsize hnum str

/-- No copy goes past the buffer exactly if the strings come to are short. -/
theorem pbEncodeAll_overrun (fields : List PbField) (hsize : bufSize ≤ 2 ^ 31 - 5)
    (hnum : ∀ field ∈ fields, field.num < 16) :
    (pbEncodeAll bufSize fields).outcome ≠ .overrun ↔ PbEach PbField.Short bufSize fields := by
  induction fields generalizing bufSize with
  | nil => exact iff_of_true nofun trivial
  | cons field rest ih =>
    obtain ⟨hfield, hrest⟩ := List.forall_mem_cons.mp hnum
    have hencode := PbField.encode_overrun hsize hfield
    unfold pbEncodeAll PbEach
    by_cases hdone : (field.encode bufSize).outcome = .done
    · have hfirst := hencode.mp (by rw [hdone]; exact nofun)
      rw [PbOut.andThen_outcome hdone, and_iff_right hfirst, forall_prop_of_true hdone]
      exact ih (by omega) hrest
    · rw [PbOut.andThen_stop hdone, hencode]
      exact (and_iff_left fun h => absurd h hdone).symm

theorem pbEach_and (ok ok' : PbField → Prop) (fields : List PbField) :
    PbEach (fun field => ok field ∧ ok' field) bufSize fields ↔
      PbEach ok bufSize fields ∧ PbEach ok' bufSize fields := by
  induction fields generalizing bufSize with
  | nil => exact (and_self_iff).symm
  | cons field rest ih =>
    unfold PbEach
    rw [forall_and, ih, forall_and]
    exact and_and_and_comm

theorem pbEncodeAll_cons (field : PbField) (rest : List PbField) :
    pbEncodeAll bufSize (field :: rest) =
      (field.encode bufSize).andThen fun n => pbEncodeAll (bufSize - n) rest := rfl

theorem pbEach_cons {ok : PbField → Prop} (field : PbField) (rest : List PbField) :
    PbEach ok bufSize (field :: rest) ↔
      ((field.encode bufSize).outcome ≠ .error → ok field) ∧
        ((field.encode bufSize).outcome = .done →
          PbEach ok (bufSize - (field.encode bufSize).bytes.length) rest) := Iff.rfl

/-- What only the last field may fail to be. -/
theorem pbEach_last {ok : PbField → Prop} (init : List PbField) (last : PbField)
    (hinit : ∀ field ∈ init, ok field)
    (hrun : (pbEncodeAll bufSize (init ++ [last])).outcome ≠ .overrun) :
    PbEach ok bufSize (init ++ [last]) ↔
      ((pbEncodeAll bufSize (init ++ [last])).outcome = .done → ok last) := by
  induction init generalizing bufSize with
  | nil =>
    rw [List.nil_append, pbEncodeAll_cons] at hrun ⊢
    rw [pbEach_cons]
    by_cases hdone : (last.encode bufSize).outcome = .done
    · rw [PbOut.andThen_outcome hdone] at hrun ⊢
      rw [hdone]
      exact ⟨fun h _ => h.1 nofun, fun h => ⟨fun _ => h rfl, fun _ => trivial⟩⟩
    · rw [PbOut.andThen_stop hdone] at hrun ⊢
      have herror : (last.encode bufSize).outcome = .error := by
        cases hout : (last.encode bufSize).outcome with
        | error => rfl
        | done => exact absurd hout hdone
        | overrun => exact absurd hout hrun
      rw [herror]
      exact iff_of_true ⟨fun h => absurd rfl h, nofun⟩ nofun
  | cons field rest ih =>
    obtain ⟨hfield, hrest⟩ := List.forall_mem_cons.mp hinit
    rw [List.cons_append, pbEncodeAll_cons] at hrun ⊢
    rw [pbEach_cons]
    by_cases hdone : (field.encode bufSize).outcome = .done
    · rw [PbOut.andThen_outcome hdone] at hrun ⊢
      rw [and_iff_right fun _ => hfield, forall_prop_of_true hdone]
      exact ih hrest hrun
    · rw [PbOut.andThen_stop hdone]
      exact iff_of_true ⟨fun _ => hfield, fun h => absurd h hdone⟩ fun h => absurd h hdone

theorem PbOut.andThen_assoc (out : PbOut) (next next' : Nat → PbOut) :
    (out.andThen next).andThen next' =
      out.andThen fun n => (next n).andThen fun m => next' (n + m) := by
  by_cases hdone : out.outcome = .done
  · unfold PbOut.andThen
    rw [if_pos hdone, if_pos hdone]
    dsimp only
    split_ifs
    · rw [List.append_assoc, List.length_append]
    · rfl
  · rw [PbOut.andThen_stop hdone, PbOut.andThen_stop hdone, PbOut.andThen_stop hdone]

theorem pbEncodeAll_append (xs ys : List PbField) : pbEncodeAll bufSize (xs ++ ys) =
    (pbEncodeAll bufSize xs).andThen fun n => pbEncodeAll (bufSize - n) ys := by
  induction xs generalizing bufSize with
  | nil => simp [pbEncodeAll, PbOut.andThen]
  | cons field rest ih =>
    rw [List.cons_append, pbEncodeAll_cons, pbEncodeAll_cons, PbOut.andThen_assoc]
    refine congrArg _ (funext fun n => ?_)
    rw [ih]
    refine congrArg _ (funext fun m => ?_)
    rw [Nat.cast_add, sub_add_eq_sub_sub]

/-- What is encoded with a last field. -/
theorem pbEncodeAll_concat {init : List PbField} {last : PbField}
    (hdone : (pbEncodeAll bufSize (init ++ [last])).outcome = .done) :
    ∃ n, (pbEncodeAll bufSize init).outcome = .done ∧ (pbEncodeAll bufSize init).bytes.length = n ∧
      (last.encode (bufSize - n)).outcome = .done ∧ (pbEncodeAll bufSize (init ++ [last])).bytes =
        (pbEncodeAll bufSize init).bytes ++ (last.encode (bufSize - n)).bytes := by
  rw [pbEncodeAll_append] at hdone ⊢
  obtain ⟨hinit, hlast⟩ := PbOut.andThen_done.mp hdone
  rw [pbEncodeAll_cons] at hlast
  have hstring := (PbOut.andThen_done.mp hlast).1
  refine ⟨_, hinit, rfl, hstring, ?_⟩
  rw [PbOut.andThen_bytes hinit, pbEncodeAll_cons, PbOut.andThen_bytes hstring]
  exact congrArg _ (List.append_nil _)

end Encoders

/-! ## Scanning what was encoded -/

section Scanned

variable {msg : Int → Byte} {total size pos bufSize : Int}

theorem castv2Varint_encode {value : BitVec 64} (hpos : 0 ≤ pos) (htotal : total < 2 ^ 31)
    (hdone : (castv2EncodeVarint bufSize value).outcome = .done)
    (hholds : Holds (fun i => msg (pos + i)) (castv2EncodeVarint bufSize value).bytes)
    (hend : pos + (castv2EncodeVarint bufSize value).bytes.length ≤ total) :
    castv2Varint msg total pos =
      ((castv2EncodeVarint bufSize value).bytes.length, some value) := by
  unfold castv2Varint
  rw [int32_eq (by omega) (by omega)]
  exact castv2DecodeVarint_encode hdone hholds (by omega)

/-- What is encoded is at the offset it was written to. -/
theorem Holds.at {bytes bytes' : List Byte} (h : Holds (fun i => msg (pos + i)) (bytes ++ bytes')) :
    Holds (fun i => msg (pos + i)) bytes ∧
      Holds (fun i => msg (pos + bytes.length + i)) bytes' := by
  obtain ⟨hfirst, hrest⟩ := h.append
  refine ⟨hfirst, fun i hi => ?_⟩
  have hi' := hrest i hi
  push_cast at hi'
  rwa [← add_assoc] at hi'

theorem castv2Field_varint {fieldNum : Nat} {value : BitVec 64} (hpos : 0 ≤ pos)
    (htotal : total < 2 ^ 31) (hwire : BitVec.ofNat 64 (fieldNum <<< 3) &&& 7#64 = 0#64)
    (hdone : (pbEncodeVarintField bufSize fieldNum value).outcome = .done)
    (hholds : Holds (fun i => msg (pos + i)) (pbEncodeVarintField bufSize fieldNum value).bytes)
    (hend : pos + (pbEncodeVarintField bufSize fieldNum value).bytes.length ≤ total) :
    (castv2Field msg total size pos).2 =
      some ⟨none, pos + (pbEncodeVarintField bufSize fieldNum value).bytes.length⟩ := by
  unfold pbEncodeVarintField at hdone hholds hend ⊢
  split_ifs at hdone hholds hend ⊢
  obtain ⟨htag, hvalue⟩ := PbOut.andThen_done.mp hdone
  rw [PbOut.andThen_bytes htag] at hholds hend ⊢
  rw [List.length_append] at hend ⊢
  push_cast at hend ⊢
  obtain ⟨htagHolds, hvalueHolds⟩ := hholds.at
  have hone := castv2EncodeVarint_ne_nil htag
  have htagRead := castv2Varint_encode hpos htotal htag htagHolds (by omega)
  have hvalueRead := castv2Varint_encode (by omega) htotal hvalue hvalueHolds (by omega)
  unfold castv2Field
  rw [if_pos (by omega), htagRead]
  dsimp only
  rw [int32_eq (by omega) (by omega), if_pos hwire, hvalueRead]
  dsimp only
  rw [int32_eq (by omega) (by omega), Option.map_some, add_assoc]

/-- A string passed: its bytes lie at `start`. -/
theorem castv2Field_string {fieldNum : Nat} {str : List Byte} (hpos : 0 ≤ pos)
    (htotal : total < 2 ^ 31) (hsize : bufSize < 2 ^ 31)
    (hwire : BitVec.ofNat 64 (fieldNum <<< 3 ||| 2) &&& 7#64 = 2#64)
    (hdone : (pbEncodeString bufSize fieldNum str).outcome = .done)
    (hholds : Holds (fun i => msg (pos + i)) (pbEncodeString bufSize fieldNum str).bytes)
    (hend : pos + (pbEncodeString bufSize fieldNum str).bytes.length ≤ total) :
    ∃ start : Int, Holds (fun i => msg (start + i)) (str.take (str.length % 2 ^ 32)) ∧
      (castv2Field msg total size pos).2 =
        some ⟨if (BitVec.ofNat 64 (fieldNum <<< 3 ||| 2) >>> 3).setWidth 32 = 6#32 ∧
            ((str.length % 2 ^ 32 : Nat) : Int) < size - 1
          then some (start, str.length % 2 ^ 32) else none,
          pos + (pbEncodeString bufSize fieldNum str).bytes.length⟩ := by
  unfold pbEncodeString at hdone hholds hend ⊢
  obtain ⟨n, m, h⟩ := stringWritten (by rw [hdone]; exact nofun)
  have hfits := h.fits
  have hone := h.one
  rw [h.encoded] at hdone hholds hend ⊢
  dsimp only at hdone hholds hend ⊢
  unfold pbCopy at hdone hholds hend ⊢
  dsimp only at hdone hholds hend ⊢
  have hcount : ((BitVec.ofInt 64 (int32 str.length)).toNat : Int) ≤ bufSize - (n + m) := by
    by_contra hcount
    rw [if_neg hcount] at hdone
    nomatch hdone
  rw [if_pos hcount] at hholds hend ⊢
  dsimp only at hholds hend ⊢
  obtain ⟨hlow, hint⟩ := copied_length (by omega) hcount
  have htake : (str.take (str.length % 2 ^ 32)).length = str.length % 2 ^ 32 :=
    List.length_take_of_le (Nat.mod_le _ _)
  rw [hlow] at hholds hend hcount ⊢
  rw [List.length_append, List.length_append, h.tagLength, h.lengthLength, htake] at hend ⊢
  rw [Nat.cast_add, Nat.cast_add] at hend
  obtain ⟨htagHolds, hholds⟩ := hholds.at
  obtain ⟨hlenHolds, hstrHolds⟩ := hholds.at
  rw [h.tagLength] at hlenHolds hstrHolds
  rw [h.lengthLength] at hstrHolds
  have htagRead := castv2Varint_encode hpos htotal h.tag htagHolds (by rw [h.tagLength]; omega)
  have hlenRead := castv2Varint_encode (by omega) htotal h.length hlenHolds
    (by rw [h.lengthLength]; omega)
  rw [h.tagLength] at htagRead
  rw [h.lengthLength] at hlenRead
  refine ⟨pos + n + m, hstrHolds, ?_⟩
  unfold castv2Field
  rw [if_pos (by omega), htagRead]
  dsimp only
  rw [int32_eq (by omega) (by omega), if_neg (by rw [hwire]; decide), if_pos hwire]
  unfold castv2Delimited
  rw [hlenRead]
  dsimp only
  have hcopies : castv2Copies size (.ofNat 64 (fieldNum <<< 3 ||| 2))
      (.ofInt 64 (int32 str.length)) ↔
        (BitVec.ofNat 64 (fieldNum <<< 3 ||| 2) >>> 3).setWidth 32 = 6#32 ∧
          ((str.length % 2 ^ 32 : Nat) : Int) < size - 1 := by
    unfold castv2Copies
    rw [hint]
  have hstart : int32 (pos + n + m) = pos + n + m := int32_eq (by omega) (by omega)
  have hnext : int32 (pos + n + m + (str.length % 2 ^ 32 : Nat)) =
      pos + ((n + (m + str.length % 2 ^ 32) : Nat) : Int) := by
    rw [int32_eq (by omega) (by omega)]
    push_cast
    omega
  rw [hint, hstart, hnext, hlow]
  by_cases hcopied : (BitVec.ofNat 64 (fieldNum <<< 3 ||| 2) >>> 3).setWidth 32 = 6#32 ∧
      ((str.length % 2 ^ 32 : Nat) : Int) < size - 1
  · rw [if_pos (hcopies.mpr hcopied), if_pos hcopied]
  · rw [if_neg (mt hcopies.mp hcopied), if_neg hcopied]

/-- A field whose tag the scan knows, and passes without a copy. -/
def PbField.Passed : PbField → Prop
  | .varint fieldNum _ => BitVec.ofNat 64 (fieldNum <<< 3) &&& 7#64 = 0#64
  | .string fieldNum _ => BitVec.ofNat 64 (fieldNum <<< 3 ||| 2) &&& 7#64 = 2#64 ∧
      (BitVec.ofNat 64 (fieldNum <<< 3 ||| 2) >>> 3).setWidth 32 ≠ 6#32

/-- The scan passes fields that it does not copy. -/
theorem castv2Scan_passed (fields : List PbField) (hfields : ∀ field ∈ fields, field.Passed)
    (hpos : 0 ≤ pos) (htotal : total < 2 ^ 31) (hsize : bufSize < 2 ^ 31)
    (hdone : (pbEncodeAll bufSize fields).outcome = .done)
    (hholds : Holds (fun i => msg (pos + i)) (pbEncodeAll bufSize fields).bytes)
    (hend : pos + (pbEncodeAll bufSize fields).bytes.length ≤ total) (rounds : Nat)
    (payload : Nat → Byte) :
    castv2Scan msg total size (fields.length + rounds) pos payload =
      castv2Scan msg total size rounds (pos + (pbEncodeAll bufSize fields).bytes.length) payload := by
  induction fields generalizing pos bufSize with
  | nil =>
    rw [List.length_nil, Nat.zero_add]
    exact congrArg (fun pos => castv2Scan msg total size rounds pos payload) (add_zero pos).symm
  | cons field rest ih =>
    obtain ⟨hfield, hrest⟩ := List.forall_mem_cons.mp hfields
    rw [pbEncodeAll_cons] at hdone hholds hend ⊢
    obtain ⟨hfirst, hafter⟩ := PbOut.andThen_done.mp hdone
    rw [PbOut.andThen_bytes hfirst] at hholds hend ⊢
    rw [List.length_append] at hend ⊢
    push_cast at hend ⊢
    obtain ⟨hfirstHolds, hafterHolds⟩ := hholds.at
    have hpassed : (castv2Field msg total size pos).2 =
        some ⟨none, pos + (field.encode bufSize).bytes.length⟩ := by
      have hfirstEnd : pos + (field.encode bufSize).bytes.length ≤ total := by omega
      cases field with
      | varint fieldNum value =>
        exact castv2Field_varint hpos htotal hfield hfirst hfirstHolds hfirstEnd
      | string fieldNum str =>
        obtain ⟨start, -, hscan⟩ := @castv2Field_string _ _ size _ _ _ _ hpos htotal hsize hfield.1
          hfirst hfirstHolds hfirstEnd
        rw [hscan, if_neg fun hcopied => hfield.2 hcopied.1]
        rfl
    rw [List.length_cons, Nat.add_right_comm]
    have hround : castv2Scan msg total size (rest.length + rounds + 1) pos payload =
        castv2Scan msg total size (rest.length + rounds)
          (pos + (field.encode bufSize).bytes.length) payload := by
      rw [castv2Scan, hpassed]
      rfl
    rw [hround, ih hrest (by omega) (by omega) hafter hafterHolds (by omega), add_assoc]

/-- The scan of a message that ends with a payload gets the low half of its length of it. -/
theorem castv2Scan_payload (fields : List PbField) (hfields : ∀ field ∈ fields, field.Passed)
    {payload : List Byte} (htotal : total < 2 ^ 31) (hsize : bufSize < 2 ^ 31)
    (hdone : (pbEncodeAll bufSize (fields ++ [.string 6 payload])).outcome = .done)
    (hholds : Holds (fun i => msg i) (pbEncodeAll bufSize (fields ++ [.string 6 payload])).bytes)
    (hend : ((pbEncodeAll bufSize (fields ++ [.string 6 payload])).bytes.length : Int) = total)
    (hroom : ((payload.length % 2 ^ 32 : Nat) : Int) < size - 1) (before : Nat → Byte) :
    ∃ buf, castv2Scan msg total size (fields.length + 2) 0 before = some buf ∧
      Holds buf (payload.take (payload.length % 2 ^ 32) ++ [0]) := by
  obtain ⟨n, hinit, hn, hstring, hbytes⟩ := pbEncodeAll_concat hdone
  rw [PbField.encode_string] at hstring hbytes
  rw [hbytes] at hholds hend
  have hfrom : Holds (fun i => msg (0 + i)) _ := fun i hi =>
    (congrArg msg (zero_add _)).trans (hholds i hi)
  obtain ⟨hinitHolds, hlastHolds⟩ := hfrom.at
  rw [hn] at hlastHolds
  rw [List.length_append, hn, Nat.cast_add] at hend
  have hpassed := @castv2Scan_passed _ _ size _ _ fields hfields le_rfl htotal hsize hinit
    hinitHolds (by rw [hn]; omega) 2 before
  rw [hn] at hpassed
  have htake : (payload.take (payload.length % 2 ^ 32)).length = payload.length % 2 ^ 32 :=
    List.length_take_of_le (Nat.mod_le _ _)
  obtain ⟨start, hcopied, hfield⟩ := @castv2Field_string _ _ size (0 + n) _ _ _ (by omega)
    htotal (by omega) (by decide) hstring hlastHolds (by omega)
  rw [if_pos ⟨by decide, hroom⟩] at hfield
  generalize payload.length % 2 ^ 32 = count at *
  have hnext : 0 + (n : Int) + (pbEncodeString (bufSize - n) 6 payload).bytes.length = total := by
    omega
  rw [hnext] at hfield
  refine ⟨Castv2Field.store msg ⟨some (start, count), total⟩ before, ?_, ?_⟩
  · have hleave : (castv2Field msg total size total).2 = none := by
      unfold castv2Field
      rw [if_neg (lt_irrefl total)]
    refine hpassed.trans ?_
    rw [castv2Scan, hfield]
    dsimp only
    rw [castv2Scan, hleave]
  · intro i hi
    rw [List.length_append, htake, List.length_singleton] at hi
    unfold Castv2Field.store
    dsimp only
    by_cases hlt : i < count
    · rw [List.getElem_append_left (by omega), if_pos hlt]
      exact hcopied i (by omega)
    · have heq : i = count := by omega
      subst heq
      rw [if_neg hlt, if_pos rfl, List.getElem_append_right (by omega), List.getElem_singleton]

/-- More rounds change nothing. -/
theorem castv2Scan_more {rounds : Nat} {payload buf : Nat → Byte}
    (h : castv2Scan msg total size rounds pos payload = some buf) (more : Nat) :
    castv2Scan msg total size (rounds + more) pos payload = some buf := by
  induction rounds generalizing pos payload with
  | zero => nomatch h
  | succ rounds ih =>
    rw [Nat.add_right_comm]
    unfold castv2Scan at h ⊢
    cases hfield : (castv2Field msg total size pos).2 with
    | none =>
      rw [hfield] at h
      exact h
    | some field =>
      rw [hfield] at h
      exact ih h

theorem castv2Scan_det {rounds rounds' : Nat} {payload buf buf' : Nat → Byte}
    (h : castv2Scan msg total size rounds pos payload = some buf)
    (h' : castv2Scan msg total size rounds' pos payload = some buf') : buf = buf' := by
  have hmore := castv2Scan_more h rounds'
  rw [Nat.add_comm, castv2Scan_more h' rounds] at hmore
  exact (Option.some.inj hmore).symm

/-- The memory that has the bytes from offset 0 on. -/
def memOf (bytes : List Byte) (i : Int) : Byte := bytes.getD i.toNat 0#8

theorem memOf_holds (bytes : List Byte) : Holds (fun i => memOf bytes i) bytes := by
  intro i hi
  show bytes.getD i 0#8 = bytes[i]
  rw [List.getD_eq_getElem?_getD, List.getElem?_eq_getElem hi, Option.getD_some]

/-- Bytes of a string with no NUL in it, cut, are not the string. -/
theorem Holds.cut {buf : Nat → Byte} {payload : List Byte} {count : Nat}
    (hcut : Holds buf (payload.take count ++ [0])) (hwhole : Holds buf (payload ++ [0]))
    (hnul : 0#8 ∉ payload) : payload.length ≤ count := by
  by_contra hlt
  have htake : (payload.take count).length = count := List.length_take_of_le (by omega)
  have hzero := hcut count (by rw [List.length_append, htake, List.length_singleton]; omega)
  have hbyte := hwhole count (by rw [List.length_append]; omega)
  rw [List.getElem_append_right (by omega), List.getElem_singleton] at hzero
  rw [List.getElem_append_left (by omega), hzero] at hbyte
  have hmem : payload[count] ∈ payload := List.getElem_mem _
  rw [← hbyte] at hmem
  exact hnul hmem

/-- The scan gives the payload exactly if the low half of its length is all of it. -/
theorem castv2Scan_whole_iff (fields : List PbField) (hfields : ∀ field ∈ fields, field.Passed)
    {payload : List Byte} (hsize : bufSize < 2 ^ 31)
    (hdone : (pbEncodeAll bufSize (fields ++ [.string 6 payload])).outcome = .done)
    (hnul : 0#8 ∉ payload) :
    (∀ (msg : Int → Byte) (before : Nat → Byte) (size : Int),
      Holds (fun i => msg i) (pbEncodeAll bufSize (fields ++ [.string 6 payload])).bytes →
      ((payload.length % 2 ^ 32 : Nat) : Int) < size - 1 → ∃ rounds buf,
        castv2Scan msg (pbEncodeAll bufSize (fields ++ [.string 6 payload])).bytes.length size
          rounds 0 before = some buf ∧ Holds buf (payload ++ [0])) ↔ payload.length < 2 ^ 32 := by
  have hwithin : (pbEncodeAll bufSize (fields ++ [.string 6 payload])).Within bufSize :=
    pbEncodeAll_within _
  have htotal : ((pbEncodeAll bufSize (fields ++ [.string 6 payload])).bytes.length : Int) <
      2 ^ 31 := by
    unfold PbOut.Within at hwithin
    omega
  constructor
  · intro hall
    obtain ⟨rounds, buf, hscan, hwhole⟩ := hall (memOf _) (fun _ => 0#8)
      ((payload.length % 2 ^ 32 : Nat) + 2) (memOf_holds _) (by omega)
    obtain ⟨buf', hscan', hcut⟩ := @castv2Scan_payload _ _
      ((payload.length % 2 ^ 32 : Nat) + 2) _ fields hfields _ htotal hsize hdone (memOf_holds _) rfl
      (by omega) fun _ => 0#8
    rw [castv2Scan_det hscan' hscan] at hcut
    have hle := hcut.cut hwhole hnul
    omega
  · intro hshort msg before size hholds hroom
    obtain ⟨buf, hscan, hcut⟩ := castv2Scan_payload fields hfields htotal hsize hdone hholds rfl
      hroom before
    rw [Nat.mod_eq_of_lt hshort, List.take_length] at hcut
    exact ⟨_, buf, hscan, hcut⟩

end Scanned

/-! ## Messages built and scanned -/

/-- The fields before the payload. -/
def castv2Envelope (sourceId destId ns : List Byte) : List PbField :=
  [.varint 1 0, .string 2 sourceId, .string 3 destId, .string 4 ns, .varint 5 0]

section Message

variable {bufSize : Int} {sourceId destId ns payload : List Byte}

theorem castv2Fields_eq : castv2Fields sourceId destId ns payload =
    castv2Envelope sourceId destId ns ++ [.string 6 payload] := rfl

theorem castv2Envelope_passed : ∀ field ∈ castv2Envelope sourceId destId ns, field.Passed := by
  simp [castv2Envelope, PbField.Passed]

theorem castv2Fields_num :
    ∀ field ∈ castv2Fields sourceId destId ns payload, field.num < 16 := by
  simp [castv2Fields, PbField.num]

/-- The number big-endian bytes stand for. -/
def natBe (bytes : List Byte) : Nat := bytes.foldl (fun n b => 256 * n + b.toNat) 0

theorem natBe_castv2Header (msgLen : BitVec 32) : natBe (castv2Header msgLen) = msgLen.toNat := by
  have hlt := msgLen.isLt
  simp only [natBe, castv2Header, List.foldl_cons, List.foldl_nil, BitVec.toNat_setWidth,
    BitVec.toNat_ushiftRight, Nat.shiftRight_eq_div_pow]
  omega

/-- What the claim of a message is: nothing is written past the buffer, and what is built has its
length in front and is scanned back to the payload, into a buffer with room for it. -/
structure Castv2Sound (bufSize : Int) (sourceId destId ns payload : List Byte) : Prop where
  copies : (castv2Body bufSize sourceId destId ns payload).outcome ≠ .overrun
  inside : (castv2Body bufSize sourceId destId ns payload).bytes = [] ∨
    4 + (castv2Body bufSize sourceId destId ns payload).bytes.length ≤ bufSize
  built : ∀ message ∈ castv2BuildMessage bufSize sourceId destId ns payload,
    (message.length : Int) ≤ bufSize ∧ natBe (message.take 4) = message.length - 4 ∧
      ∀ (msg : Int → Byte) (before : Nat → Byte) (size : Int),
        Holds (fun i => msg i) (message.drop 4) →
        ((payload.length % 2 ^ 32 : Nat) : Int) < size - 1 →
        ∃ rounds buf, castv2Scan msg (message.length - 4 : Nat) size rounds 0 before = some buf ∧
          Holds buf (payload ++ [0])

theorem castv2BuildMessage_some {message : List Byte}
    (h : message ∈ castv2BuildMessage bufSize sourceId destId ns payload) :
    (castv2Body bufSize sourceId destId ns payload).outcome = .done ∧
      message = castv2Header
        (.ofNat 32 (castv2Body bufSize sourceId destId ns payload).bytes.length) ++
          (castv2Body bufSize sourceId destId ns payload).bytes := by
  unfold castv2BuildMessage at h
  dsimp only at h
  split_ifs at h with hdone
  · exact ⟨hdone, (Option.some.inj h).symm⟩
  · nomatch h

/-- A message built leaves room for its first field. -/
theorem castv2Body_room (hdone : (castv2Body bufSize sourceId destId ns payload).outcome = .done) :
    6 ≤ bufSize := by
  unfold castv2Body castv2Fields at hdone
  rw [pbEncodeAll_cons] at hdone
  have hfirst : (pbEncodeVarintField (bufSize - 4) 1 0).outcome = .done :=
    (PbOut.andThen_done.mp hdone).1
  unfold pbEncodeVarintField at hfirst
  split_ifs at hfirst with hroom
  omega

theorem castv2Sound_iff (hsize : bufSize < 2 ^ 31) :
    Castv2Sound bufSize sourceId destId ns payload ↔
      (castv2Body bufSize sourceId destId ns payload).outcome ≠ .overrun ∧
        ((castv2Body bufSize sourceId destId ns payload).outcome = .done →
          ∀ (msg : Int → Byte) (before : Nat → Byte) (size : Int),
            Holds (fun i => msg i) (castv2Body bufSize sourceId destId ns payload).bytes →
            ((payload.length % 2 ^ 32 : Nat) : Int) < size - 1 → ∃ rounds buf,
              castv2Scan msg (castv2Body bufSize sourceId destId ns payload).bytes.length size
                rounds 0 before = some buf ∧ Holds buf (payload ++ [0])) := by
  have hwithin : (castv2Body bufSize sourceId destId ns payload).Within (bufSize - 4) :=
    pbEncodeAll_within _
  unfold PbOut.Within at hwithin
  have hheader : ∀ msgLen, (castv2Header msgLen).length = 4 := fun _ => rfl
  constructor
  · intro h
    refine ⟨h.copies, fun hdone msg before size hholds hroom => ?_⟩
    obtain ⟨-, -, hscan⟩ := h.built _ (by
      unfold castv2BuildMessage
      dsimp only
      rw [if_pos hdone]
      rfl)
    rw [List.drop_left' (hheader _), List.length_append, hheader, Nat.add_sub_cancel_left] at hscan
    exact hscan msg before size hholds hroom
  · rintro ⟨hcopies, hscan⟩
    refine ⟨hcopies, ?_, ?_⟩
    · by_cases hnil : (castv2Body bufSize sourceId destId ns payload).bytes = []
      · exact .inl hnil
      · have hpos := List.length_pos_of_ne_nil hnil
        exact .inr (by omega)
    · intro message hmessage
      obtain ⟨hdone, rfl⟩ := castv2BuildMessage_some hmessage
      have hroom := castv2Body_room hdone
      rw [List.take_left' (hheader _), List.drop_left' (hheader _), natBe_castv2Header,
        List.length_append, hheader, Nat.add_sub_cancel_left]
      refine ⟨by push_cast; omega, ?_, hscan hdone⟩
      rw [BitVec.toNat_ofNat]
      exact Nat.mod_eq_of_lt (by omega)

/-- A string that may be copied. -/
def PbField.Narrow (field : PbField) : Prop := field.Short ∧ field.Whole

/-- Every 64-bit value is decoded from the bytes it is encoded to. A message is sound exactly if
each string that is not refused for want of room is short, and the payload whole. -/
theorem castv2BuildMessage_sound_iff (hsize : bufSize < 2 ^ 31) (hnul : 0#8 ∉ payload) :
    (∀ (room size : Int) (value : BitVec 64), (castv2EncodeVarint room value).outcome = .done →
      ∀ buf, Holds buf (castv2EncodeVarint room value).bytes →
        (castv2EncodeVarint room value).bytes.length ≤ size →
        castv2DecodeVarint buf size = ((castv2EncodeVarint room value).bytes.length, some value)) ∧
    (Castv2Sound bufSize sourceId destId ns payload ↔
      PbEach PbField.Narrow (bufSize - 4) (castv2Fields sourceId destId ns payload)) := by
  refine ⟨fun room size value hdone buf => castv2DecodeVarint_encode hdone, ?_⟩
  have heach := @pbEach_and (bufSize - 4) PbField.Short PbField.Whole
    (castv2Fields sourceId destId ns payload)
  have hoverrun := @pbEncodeAll_overrun (bufSize - 4)
    (castv2Fields sourceId destId ns payload) (by omega) castv2Fields_num
  rw [castv2Sound_iff hsize]
  refine Iff.trans ?_ heach.symm
  rw [← hoverrun]
  refine and_congr_right fun hrun => ?_
  have hwhole : ∀ field ∈ castv2Envelope sourceId destId ns, field.Whole := by
    simp [castv2Envelope, PbField.Whole]
  rw [castv2Fields_eq, pbEach_last _ _ hwhole (by rwa [← castv2Fields_eq])]
  refine forall_congr' fun hdone => ?_
  exact (castv2Scan_whole_iff _ castv2Envelope_passed (by omega) hdone hnul).trans
    ⟨fun h _ => h, fun h => h rfl⟩

/-- A PING, in a buffer of 100 bytes. -/
theorem castv2BuildMessage_sound_iff_ping :
    (∀ (room size : Int) (value : BitVec 64), (castv2EncodeVarint room value).outcome = .done →
      ∀ buf, Holds buf (castv2EncodeVarint room value).bytes →
        (castv2EncodeVarint room value).bytes.length ≤ size →
        castv2DecodeVarint buf size = ((castv2EncodeVarint room value).bytes.length, some value)) ∧
    (Castv2Sound 100 [0x73] [0x72] [0x6E] [0x7B, 0x7D] ↔
      PbEach PbField.Narrow (100 - 4) (castv2Fields [0x73] [0x72] [0x6E] [0x7B, 0x7D])) :=
  castv2BuildMessage_sound_iff (by decide) (by decide)

/-- A source of 2^31 bytes is not refused for want of room. -/
theorem pbEncodeString_long :
    (pbEncodeString 94 2 (List.replicate (2 ^ 31) 1#8)).outcome ≠ .error := by
  have hlen : int32 ((List.replicate (2 ^ 31) 1#8).length : Int) = -2 ^ 31 := by
    rw [List.length_replicate]
    decide
  have htag : castv2EncodeVarint 94 (.ofNat 64 (2 <<< 3 ||| 2)) = ⟨[0x12], .done⟩ := by decide
  have hsize : castv2EncodeVarint (94 - (1 : Nat)) (.ofInt 64 (-2 ^ 31)) =
      ⟨[0x80, 0x80, 0x80, 0x80, 0xF8, 0xFF, 0xFF, 0xFF, 0xFF, 0x01], .done⟩ := by decide
  unfold pbEncodeString pbEncodeSized
  rw [hlen, if_neg (by decide), PbOut.andThen_outcome (by rw [htag]), htag,
    List.length_singleton, PbOut.andThen_outcome (by rw [hsize]), hsize, if_neg (by decide)]
  unfold pbCopy
  dsimp only
  split_ifs <;> exact nofun

theorem castv2BuildMessage_overrun :
    ¬∀ (bufSize : Int) (sourceId destId ns payload : List Byte), bufSize < 2 ^ 31 →
      0#8 ∉ payload → Castv2Sound bufSize sourceId destId ns payload := by
  intro hall
  have hsound := hall 100 (List.replicate (2 ^ 31) 1#8) [] [] [] (by decide) (List.not_mem_nil)
  have heach := (pbEncodeAll_overrun _ (by decide) castv2Fields_num).mp hsound.copies
  unfold castv2Fields at heach
  have hfirst : (PbField.varint 1 0).encode (100 - 4) = ⟨[0x08, 0x00], .done⟩ := by decide
  rw [pbEach_cons, hfirst] at heach
  have hshort := ((pbEach_cons _ _).mp (heach.2 rfl)).1 pbEncodeString_long
  have hfalse : ¬ShortStr (List.replicate (2 ^ 31) 1#8) := by
    unfold ShortStr
    rw [List.length_replicate]
    decide
  exact hfalse hshort

end Message

end Phosphoric
