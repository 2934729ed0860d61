import Mathlib.Data.List.TakeWhile
import Phosphoric.Tap.Tape

/-!
# A written tape header read back

`tapReadHeader` guesses the layout of a header from its bytes. For a header of `tapWriteHeader`,
whose layout is nine bytes without padding, the guess is right when the addresses are plausible
(`$0100 ≤ start < end < $C000`), and else when no other layout gives plausible addresses. After a
name of fifteen bytes, the longest, the reader stops on the NUL that ends it.

**Theorem (`tapReadHeader_iff`).** A header read back is the one written, with the tape on the
first byte after it, exactly when its name is shorter than fifteen bytes and no other layout is
mistaken for its own.
-/

namespace Phosphoric

/-! ## The guess -/

/-- The name and the bytes after it, taken for a start address, go with the end address
`stop`. -/
def tapNamePlausible (stop : Word) : List Byte → Bool
  | b₀ :: b₁ :: _ :: _ => tapPlausible (.mk b₀ b₁) stop
  | _ => false

/-- Another layout gives the bytes of a written header plausible addresses: seven bytes without
padding, seven and nine after one byte, and nine after three. -/
def TapMistaken (header : TapHeader) (rest : List Byte) : Prop :=
  tapPlausible header.endAddr (.mk header.type header.autoRun) ∨
  tapPlausible (.mk header.endAddr.lo header.startAddr.hi)
    (.mk header.autoRun header.endAddr.hi) ∨
  tapPlausible (.mk header.startAddr.lo 0x00#8) (.mk header.endAddr.lo header.startAddr.hi) ∨
  tapTypeByte header.autoRun ∧
    tapNamePlausible (.mk header.startAddr.lo 0x00#8) (header.name.bytes ++ 0x00#8 :: rest)

instance (header : TapHeader) (rest : List Byte) : Decidable (TapMistaken header rest) :=
  inferInstanceAs (Decidable (_ ∨ _ ∨ _ ∨ _ ∧ _))

/-- A start address in page 0 is not plausible. -/
theorem tapPlausible_start_zero (lo : Byte) (stop : Word) :
    tapPlausible (.mk 0x00#8 lo) stop = false := by
  have hlt := lo.isLt
  have hnat : (Word.mk 0x00#8 lo).toNat = lo.toNat := by simp [Word.toNat_mk]
  rw [Bool.eq_false_iff]
  simp only [tapPlausible, ne_eq, Bool.and_eq_true, decide_eq_true_eq, BitVec.lt_def,
    BitVec.le_def, BitVec.toNat_ofNat, hnat]
  omega

/-- Nor is an end address there. -/
theorem tapPlausible_stop_zero (lo : Byte) (start : Word) :
    tapPlausible start (.mk 0x00#8 lo) = false := by
  have hlt := lo.isLt
  have hnat : (Word.mk 0x00#8 lo).toNat = lo.toNat := by simp [Word.toNat_mk]
  rw [Bool.eq_false_iff]
  simp only [tapPlausible, ne_eq, Bool.and_eq_true, decide_eq_true_eq, BitVec.lt_def,
    BitVec.le_def, BitVec.toNat_ofNat, hnat]
  omega

section Detect

variable (raw : Nat → Byte) (rawLen : Nat)

/-- What a round of the padding loop passes over. -/
theorem tapDetectSkip_eq_none (skip : Nat) :
    tapDetectSkip raw rawLen skip = none ↔
      (tapTypeByte (raw skip) →
        ¬ (skip + 7 ≤ rawLen ∧ tapPlausible (.mk (raw (skip + 4)) (raw (skip + 5)))
          (.mk (raw (skip + 2)) (raw (skip + 3)))) ∧
        ¬ (0 < skip ∧ skip + 9 ≤ rawLen ∧ tapPlausible (.mk (raw (skip + 6)) (raw (skip + 7)))
          (.mk (raw (skip + 4)) (raw (skip + 5))))) := by
  simp only [tapDetectSkip]
  split_ifs with ht h7 h9
  · exact iff_of_true rfl fun h => absurd h (by simpa using ht)
  · simp only [Bool.and_eq_true, decide_eq_true_eq] at h7
    exact iff_of_false nofun fun h => (h (by simpa using ht)).1 h7
  · simp only [Bool.and_eq_true, decide_eq_true_eq] at h9
    exact iff_of_false nofun fun h => (h (by simpa using ht)).2 ⟨h9.1.1, h9.1.2, h9.2⟩
  · simp only [Bool.and_eq_true, decide_eq_true_eq] at h7 h9
    exact iff_of_true rfl fun _ => ⟨h7, fun h => h9 ⟨⟨h.1, h.2.1⟩, h.2.2⟩⟩

/-- What a round finds is not nine bytes without padding. -/
theorem tapDetectSkip_ne {skip : Nat} {layout : Nat × Nat}
    (h : tapDetectSkip raw rawLen skip = some layout) : layout ≠ (0, 9) := by
  simp only [tapDetectSkip] at h
  split_ifs at h with ht h7 h9
  · cases h
    simp
  · cases h
    simp only [Bool.and_eq_true, decide_eq_true_eq] at h9
    simp only [ne_eq, Prod.mk.injEq, and_true]
    omega

/-- What a round finds has plausible addresses. -/
theorem tapDetectSkip_plausible {skip : Nat} {layout : Nat × Nat}
    (h : tapDetectSkip raw rawLen skip = some layout) (header : TapHeader) :
    tapPlausible (tapParse raw rawLen layout header).1.startAddr
      (tapParse raw rawLen layout header).1.endAddr := by
  simp only [tapDetectSkip] at h
  split_ifs at h with ht h7 h9
  · cases h
    simp only [Bool.and_eq_true] at h7
    exact h7.2
  · cases h
    simp only [Bool.and_eq_true] at h9
    exact h9.2

/-- The plain layout, or one found by the padding loop. -/
theorem tapDetect_cases :
    tapDetect raw rawLen = (0, 9) ∨
      ∃ skip, tapDetectSkip raw rawLen skip = some (tapDetect raw rawLen) := by
  simp only [tapDetect]
  split_ifs with h
  · exact .inl rfl
  · cases hfind : List.findSome? (tapDetectSkip raw rawLen)
      ([0, 1, 2, 3, 4].takeWhile fun skip => skip + 7 ≤ rawLen) with
    | none => exact .inl rfl
    | some layout =>
      obtain ⟨skip, -, hskip⟩ := List.exists_of_findSome?_eq_some hfind
      exact .inr ⟨skip, hskip⟩

/-- The rounds the padding loop makes on ten bytes or more. -/
theorem mem_tapDetect_rounds (hlen : 10 ≤ rawLen) (skip : Nat) :
    (skip ∈ [0, 1, 2, 3, 4].takeWhile fun skip => decide (skip + 7 ≤ rawLen)) ↔
      skip ≤ 4 ∧ skip + 7 ≤ rawLen := by
  rcases hlen.eq_or_lt with rfl | hlt
  · simp only [List.takeWhile, Nat.reduceAdd, Nat.reduceLeDiff, decide_true, decide_false,
      List.mem_cons, List.not_mem_nil, or_false]
    omega
  · rw [List.takeWhile_eq_self_iff.mpr fun s hs => by
      simp only [List.mem_cons, List.not_mem_nil, or_false] at hs
      simp only [decide_eq_true_eq]
      omega]
    simp only [List.mem_cons, List.not_mem_nil, or_false]
    omega

/-- The layout is the plain one exactly when its addresses are plausible or the padding loop
finds nothing. -/
theorem tapDetect_eq_iff (hlen : 10 ≤ rawLen) (ht : tapTypeByte (raw 0)) :
    tapDetect raw rawLen = (0, 9) ↔
      tapPlausible (.mk (raw 6) (raw 7)) (.mk (raw 4) (raw 5)) ∨
      ∀ skip ≤ 4, skip + 7 ≤ rawLen → tapDetectSkip raw rawLen skip = none := by
  have hlen9 : 9 ≤ rawLen := by omega
  simp only [tapDetect, hlen9, ht, decide_true, Bool.true_and]
  split_ifs with h
  · exact iff_of_true rfl (.inl h)
  · rw [or_iff_right h]
    constructor
    · intro hd skip hskip hle
      cases hfind : List.findSome? (tapDetectSkip raw rawLen)
          ([0, 1, 2, 3, 4].takeWhile fun skip => decide (skip + 7 ≤ rawLen)) with
      | none =>
        exact List.findSome?_eq_none_iff.mp hfind skip
          ((mem_tapDetect_rounds rawLen hlen skip).mpr ⟨hskip, hle⟩)
      | some layout =>
        obtain ⟨skip', -, hskip'⟩ := List.exists_of_findSome?_eq_some hfind
        rw [hfind] at hd
        exact absurd hd (tapDetectSkip_ne raw rawLen hskip')
    · intro hnone
      have hfind : List.findSome? (tapDetectSkip raw rawLen)
          ([0, 1, 2, 3, 4].takeWhile fun skip => decide (skip + 7 ≤ rawLen)) = none := by
        rw [List.findSome?_eq_none_iff]
        intro skip hmem
        obtain ⟨hskip, hle⟩ := (mem_tapDetect_rounds rawLen hlen skip).mp hmem
        exact hnone skip hskip hle
      rw [hfind]
      rfl

end Detect

/-! ## The guess on a written header -/

/-- The bytes `tapReadHeader` keeps of a written header. -/
def tapHeaderRaw (header : TapHeader) (rest : List Byte) : List Byte :=
  (tapHeaderBody header ++ 0x00#8 :: rest).take 32

/-- The name and what follows it, which start at the tenth byte. -/
theorem tapHeaderRaw_eq (header : TapHeader) (rest : List Byte) :
    tapHeaderRaw header rest =
      [0x00#8, 0x00#8, header.type, header.autoRun, header.endAddr.hi, header.endAddr.lo,
        header.startAddr.hi, header.startAddr.lo, 0x00#8] ++
      (header.name.bytes ++ 0x00#8 :: rest).take 23 := by
  rw [tapHeaderRaw, tapHeaderBody, List.append_assoc, List.take_append]
  rfl

theorem tapHeaderRaw_length (header : TapHeader) (rest : List Byte) :
    (tapHeaderRaw header rest).length =
      9 + min 23 (header.name.bytes.length + 1 + rest.length) := by
  simp only [tapHeaderRaw_eq, List.length_append, List.length_take, List.length_cons,
    List.length_nil]
  omega

section Written

variable (stack : Nat → Byte) (header : TapHeader) (rest : List Byte)

/-- `raw[i]` of a written header. -/
def tapWritten : Nat → Byte := tapRaw stack (tapHeaderRaw header rest)

/-- `raw_len` of a written header. -/
def tapWrittenLen : Nat := (tapHeaderRaw header rest).length

theorem tapWrittenLen_ge : 10 ≤ tapWrittenLen header rest := by
  rw [tapWrittenLen, tapHeaderRaw_length]
  omega

/-- The round without padding takes the type and the autorun flag for the end address. -/
theorem tapDetectSkip_written_zero :
    tapDetectSkip (tapWritten stack header rest) (tapWrittenLen header rest) 0 = none ↔
      ¬ tapPlausible header.endAddr (.mk header.type header.autoRun) := by
  have hlen := tapWrittenLen_ge header rest
  have hend : Word.mk header.endAddr.hi header.endAddr.lo = header.endAddr := Word.mk_hi_lo _
  have h7 : tapPlausible
      (.mk (tapWritten stack header rest (0 + 4)) (tapWritten stack header rest (0 + 5)))
      (.mk (tapWritten stack header rest (0 + 2)) (tapWritten stack header rest (0 + 3))) =
      tapPlausible (.mk header.endAddr.hi header.endAddr.lo)
        (.mk header.type header.autoRun) := rfl
  have ht : tapTypeByte (tapWritten stack header rest 0) = true := rfl
  rw [tapDetectSkip_eq_none, h7, hend]
  simp [ht, show 0 + 7 ≤ tapWrittenLen header rest by omega]

/-- The round after one byte: seven bytes, then nine. -/
theorem tapDetectSkip_written_one :
    tapDetectSkip (tapWritten stack header rest) (tapWrittenLen header rest) 1 = none ↔
      ¬ tapPlausible (.mk header.endAddr.lo header.startAddr.hi)
          (.mk header.autoRun header.endAddr.hi) ∧
        ¬ tapPlausible (.mk header.startAddr.lo 0x00#8)
          (.mk header.endAddr.lo header.startAddr.hi) := by
  have hlen := tapWrittenLen_ge header rest
  have ht : tapTypeByte (tapWritten stack header rest 1) = true := rfl
  rw [tapDetectSkip_eq_none]
  simp only [ht, show 1 + 7 ≤ tapWrittenLen header rest by omega,
    show 1 + 9 ≤ tapWrittenLen header rest by omega, Nat.one_pos, true_and, true_imp_iff]
  rfl

/-- The round after two bytes tries the right addresses, and the start address with one in
page 0. -/
theorem tapDetectSkip_written_two (hp : ¬ tapPlausible header.startAddr header.endAddr) :
    tapDetectSkip (tapWritten stack header rest) (tapWrittenLen header rest) 2 = none := by
  have h7 : tapPlausible
      (.mk (tapWritten stack header rest (2 + 4)) (tapWritten stack header rest (2 + 5)))
      (.mk (tapWritten stack header rest (2 + 2)) (tapWritten stack header rest (2 + 3))) =
      tapPlausible header.startAddr header.endAddr :=
    congrArg₂ tapPlausible (Word.mk_hi_lo header.startAddr) (Word.mk_hi_lo header.endAddr)
  have h9 : ¬ tapPlausible
      (.mk (tapWritten stack header rest (2 + 6)) (tapWritten stack header rest (2 + 7)))
      (.mk (tapWritten stack header rest (2 + 4)) (tapWritten stack header rest (2 + 5))) := by
    have hz : tapWritten stack header rest (2 + 6) = 0x00#8 := rfl
    rw [hz, tapPlausible_start_zero]
    exact Bool.false_ne_true
  rw [tapDetectSkip_eq_none, h7]
  exact fun _ => ⟨fun h => hp h.2, fun h => h9 h.2.2⟩

/-- The round after three bytes: seven bytes, as the one after one byte tried, then nine, with
the name for a start address. -/
theorem tapDetectSkip_written_three
    (hc : ¬ tapPlausible (.mk header.startAddr.lo 0x00#8)
      (.mk header.endAddr.lo header.startAddr.hi)) :
    tapDetectSkip (tapWritten stack header rest) (tapWrittenLen header rest) 3 = none ↔
      ¬ (tapTypeByte header.autoRun ∧
        tapNamePlausible (.mk header.startAddr.lo 0x00#8)
          (header.name.bytes ++ 0x00#8 :: rest)) := by
  have hname : (3 + 9 ≤ tapWrittenLen header rest ∧ tapPlausible
      (.mk (tapWritten stack header rest (3 + 6)) (tapWritten stack header rest (3 + 7)))
      (.mk (tapWritten stack header rest (3 + 4)) (tapWritten stack header rest (3 + 5)))) ↔
      tapNamePlausible (.mk header.startAddr.lo 0x00#8)
        (header.name.bytes ++ 0x00#8 :: rest) := by
    simp only [tapWrittenLen, tapWritten, tapHeaderRaw_eq]
    generalize header.name.bytes ++ 0x00#8 :: rest = text
    rcases text with _ | ⟨b₀, _ | ⟨b₁, _ | ⟨b₂, tail⟩⟩⟩
    · simp [tapNamePlausible]
    · simp [tapNamePlausible]
    · simp [tapNamePlausible]
    · simp [tapNamePlausible, tapRaw]
  have h7 : ¬ tapPlausible
      (.mk (tapWritten stack header rest (3 + 4)) (tapWritten stack header rest (3 + 5)))
      (.mk (tapWritten stack header rest (3 + 2)) (tapWritten stack header rest (3 + 3))) := hc
  have ht : tapTypeByte (tapWritten stack header rest 3) = tapTypeByte header.autoRun := rfl
  rw [tapDetectSkip_eq_none, ht]
  constructor
  · rintro h ⟨hauto, hn⟩
    exact (h hauto).2 ⟨by omega, hname.mpr hn⟩
  · intro h hauto
    exact ⟨fun h' => h7 h'.2, fun h' => h ⟨hauto, hname.mp h'.2⟩⟩

/-- The round after four bytes takes addresses in page 0 both times. -/
theorem tapDetectSkip_written_four :
    tapDetectSkip (tapWritten stack header rest) (tapWrittenLen header rest) 4 = none := by
  have hz : tapWritten stack header rest (4 + 4) = 0x00#8 := rfl
  rw [tapDetectSkip_eq_none, hz, tapPlausible_start_zero, tapPlausible_stop_zero]
  simp

/-- The guess on a written header. -/
theorem tapDetect_written :
    tapDetect (tapWritten stack header rest) (tapWrittenLen header rest) = (0, 9) ↔
      tapPlausible header.startAddr header.endAddr ∨ ¬ TapMistaken header rest := by
  have hlen := tapWrittenLen_ge header rest
  have htrue : tapPlausible
      (.mk (tapWritten stack header rest 6) (tapWritten stack header rest 7))
      (.mk (tapWritten stack header rest 4) (tapWritten stack header rest 5)) =
      tapPlausible header.startAddr header.endAddr :=
    congrArg₂ tapPlausible (Word.mk_hi_lo header.startAddr) (Word.mk_hi_lo header.endAddr)
  rw [tapDetect_eq_iff _ _ hlen rfl, htrue]
  by_cases hp : tapPlausible header.startAddr header.endAddr
  · exact iff_of_true (.inl hp) (.inl hp)
  rw [or_iff_right hp, or_iff_right hp]
  constructor
  · intro hall hmis
    have h1 := (tapDetectSkip_written_one stack header rest).mp
      (hall 1 (by omega) (by omega))
    rcases hmis with ha | hb | hc | hd
    · exact (tapDetectSkip_written_zero stack header rest).mp (hall 0 (by omega) (by omega)) ha
    · exact h1.1 hb
    · exact h1.2 hc
    · exact (tapDetectSkip_written_three stack header rest h1.2).mp
        (hall 3 (by omega) (by omega)) hd
  · intro hnot skip hskip _
    simp only [TapMistaken, not_or] at hnot
    obtain ⟨ha, hb, hc, hd⟩ := hnot
    interval_cases skip
    · exact (tapDetectSkip_written_zero stack header rest).mpr ha
    · exact (tapDetectSkip_written_one stack header rest).mpr ⟨hb, hc⟩
    · exact tapDetectSkip_written_two stack header rest hp
    · exact (tapDetectSkip_written_three stack header rest hc).mpr hd
    · exact tapDetectSkip_written_four stack header rest

/-- A wrong guess gives plausible addresses, which then are not those written. -/
theorem tapDetect_of_addresses (out : TapHeader)
    (hstart : (tapParse (tapWritten stack header rest) (tapWrittenLen header rest)
      (tapDetect (tapWritten stack header rest) (tapWrittenLen header rest)) out).1.startAddr =
        header.startAddr)
    (hstop : (tapParse (tapWritten stack header rest) (tapWrittenLen header rest)
      (tapDetect (tapWritten stack header rest) (tapWrittenLen header rest)) out).1.endAddr =
        header.endAddr) :
    tapDetect (tapWritten stack header rest) (tapWrittenLen header rest) = (0, 9) := by
  rcases tapDetect_cases (tapWritten stack header rest) (tapWrittenLen header rest) with
    hd | ⟨skip, hskip⟩
  · exact hd
  · have hp := tapDetectSkip_plausible _ _ hskip out
    rw [hstart, hstop] at hp
    exact (tapDetect_written stack header rest).mpr (.inl hp)

end Written

/-! ## The name -/

/-- The name loop reads up to a NUL it has room for. -/
theorem tapReadName_eq {raw : Nat → Byte} {rawLen : Nat} {name : List Byte}
    (hname : ∀ b ∈ name, b ≠ 0#8) {n p : Nat} (hn : name.length ≤ n)
    (hp : p + name.length < rawLen) (hraw : ∀ i (hi : i < name.length), raw (p + i) = name[i])
    (hend : raw (p + name.length) = 0#8) :
    tapReadName raw rawLen n p =
      (name, p + name.length + if name.length < n then 1 else 0) := by
  induction name generalizing n p with
  | nil =>
    cases n with
    | zero => rfl
    | succ n =>
      simp only [List.length_nil, Nat.add_zero] at hp hend
      simp [tapReadName, hp, hend]
  | cons b name ih =>
    obtain ⟨n, rfl⟩ : ∃ m, n = m + 1 := ⟨n - 1, by simp at hn; omega⟩
    have hb : raw p = b := hraw 0 (by simp)
    have hne : b ≠ 0#8 := hname b (by simp)
    have hrest : tapReadName raw rawLen n (p + 1) =
        (name, p + 1 + name.length + if name.length < n then 1 else 0) := by
      apply ih (fun c hc => hname c (by simp [hc])) (by simpa using hn)
      · rw [List.length_cons] at hp
        omega
      · intro i hi
        have hget := hraw (i + 1) (Nat.succ_lt_succ hi)
        rwa [List.getElem_cons_succ, Nat.add_comm i 1, ← Nat.add_assoc] at hget
      · rw [List.length_cons, Nat.add_comm name.length 1, ← Nat.add_assoc] at hend
        exact hend
    have hlt : p < rawLen := by omega
    simp only [tapReadName, hlt, if_true, hb, hne, if_false, hrest, List.length_cons,
      Nat.succ_lt_succ_iff, Prod.mk.injEq, true_and]
    omega

section Parse

variable (stack : Nat → Byte) (header : TapHeader) (rest : List Byte)

/-- The tenth byte of a written header on is the name and what follows it. -/
theorem tapWritten_name {i : Nat} (hi : i < 23) {b : Byte}
    (hb : (header.name.bytes ++ 0x00#8 :: rest)[i]? = some b) :
    tapWritten stack header rest (9 + i) = b := by
  have hget : (tapHeaderRaw header rest)[9 + i]? = some b := by
    rw [tapHeaderRaw_eq, List.getElem?_append_right (by simp), List.getElem?_take_of_lt]
    · simpa using hb
    · simpa using hi
  simp [tapWritten, tapRaw, hget]

/-- The header parsed with the right layout, and where the reader stops: on the NUL of a name of
fifteen bytes, after it else. -/
theorem tapParse_written (out : TapHeader) :
    tapParse (tapWritten stack header rest) (tapWrittenLen header rest) (0, 9) out =
      ({ header with syncLen := out.syncLen, checksum := out.checksum },
        9 + header.name.bytes.length + if header.name.bytes.length < 15 then 1 else 0) := by
  have hlt : header.name.bytes.length < 16 := header.name.length_lt
  have hraw : ∀ i (hi : i < header.name.bytes.length),
      tapWritten stack header rest (9 + i) = header.name.bytes[i] := by
    intro i hi
    apply tapWritten_name stack header rest (by omega)
    rw [List.getElem?_append_left hi, List.getElem?_eq_getElem hi]
  have hend : tapWritten stack header rest (9 + header.name.bytes.length) = 0#8 := by
    apply tapWritten_name stack header rest (by omega)
    simp
  have hlen : 9 + header.name.bytes.length < tapWrittenLen header rest := by
    rw [tapWrittenLen, tapHeaderRaw_length]
    omega
  have hname : tapReadName (tapWritten stack header rest) (tapWrittenLen header rest) 15 9 =
      (header.name.bytes,
        9 + header.name.bytes.length + if header.name.bytes.length < 15 then 1 else 0) :=
    tapReadName_eq header.name.ne_zero (by omega) hlen hraw hend
  have hstop : Word.mk (tapWritten stack header rest 4) (tapWritten stack header rest 5) =
      header.endAddr := Word.mk_hi_lo header.endAddr
  have hstart : Word.mk (tapWritten stack header rest 6) (tapWritten stack header rest 7) =
      header.startAddr := Word.mk_hi_lo header.startAddr
  have htype : tapWritten stack header rest 2 = header.type := rfl
  have hauto : tapWritten stack header rest 3 = header.autoRun := rfl
  simp only [tapParse, tapNameLen, if_true, Nat.zero_add, Nat.reduceAdd, Nat.reduceSub, hname,
    hstop, hstart, htype, hauto]

end Parse

/-! ## Writing and reading -/

/-- What reading a written header back means: `true`, the same fields, and the tape at `pos`, the
position after the header, where the next byte is read. -/
structure TapReadBack (header : TapHeader) (bytes : List Byte) (pos : Nat)
    (r : Bool × TapHeader × TapFile) : Prop where
  ok : r.1 = true
  type : r.2.1.type = header.type
  autoRun : r.2.1.autoRun = header.autoRun
  startAddr : r.2.1.startAddr = header.startAddr
  endAddr : r.2.1.endAddr = header.endAddr
  name : r.2.1.name = header.name
  reads : r.2.2.Reads bytes pos

/-- The reader on a written header, at any place of a tape. -/
theorem tapReadHeader_written {tap : TapFile} {before : List Byte} {header : TapHeader}
    {rest : List Byte}
    (h : tap.Reads (before ++ tapHeaderBytes header ++ rest) before.length)
    (stack : Nat → Byte) (out : TapHeader) :
    ∃ tap' : TapFile, tap'.Reads (before ++ tapHeaderBytes header ++ rest)
        (before.length + header.syncCount + 1 + (tapHeaderRaw header rest).length) ∧
      tapReadHeader stack tap out =
        let parsed := tapParse (tapWritten stack header rest) (tapWrittenLen header rest)
          (tapDetect (tapWritten stack header rest) (tapWrittenLen header rest)) out
        let pos := before.length + header.syncCount + 1 + parsed.2
        (true, parsed.1,
          if tap'.fastLoad then { tap' with position := pos }
          else { tap' with position := pos, offset := pos }) := by
  have hbytes : before ++ tapHeaderBytes header ++ rest = before ++
      (List.replicate header.syncCount tapSyncByte ++
        tapMarker :: (tapHeaderBody header ++ 0x00#8 :: rest)) := by
    simp [tapHeaderBytes]
  have hsync := h.skipSync (by decide : tapMarker ≠ tapSyncByte)
    (by rw [hbytes, List.drop_left])
  have hmarkerPos : before.length + header.syncCount <
      (before ++ tapHeaderBytes header ++ rest).length := by
    rw [hbytes]
    simp
  obtain ⟨hmarker, hreads⟩ := hsync.readByte hmarkerPos
  have hget : (before ++ tapHeaderBytes header ++ rest)[before.length + header.syncCount] =
      tapMarker := by
    simp only [hbytes]
    rw [List.getElem_append_right (by omega), List.getElem_append_right (by simp)]
    simp
  have hdrop : (before ++ tapHeaderBytes header ++ rest).drop
      (before.length + header.syncCount + 1) = tapHeaderBody header ++ 0x00#8 :: rest := by
    rw [hbytes, ← List.drop_drop, ← List.drop_drop, List.drop_left]
    simp
  obtain ⟨hraw, hlast⟩ := hreads.readBytes 32
  rw [hdrop] at hraw hlast
  refine ⟨_, hlast, ?_⟩
  rw [hget] at hmarker
  simp only [tapReadHeader, hmarker, ne_eq, not_true_eq_false, if_false, hraw,
    hreads.position]
  rfl

/-- Moving a tape that reads. -/
theorem TapFile.Reads.seek {tap : TapFile} {bytes : List Byte} {pos : Nat}
    (h : tap.Reads bytes pos) (pos' : Nat) :
    (if tap.fastLoad then { tap with position := pos' }
      else { tap with position := pos', offset := pos' } : TapFile).Reads bytes pos' := by
  obtain ⟨hc, hs, -, himg | ⟨hfast, -⟩⟩ := h
  · have hfast : tap.fastLoad = true := by
      by_contra hf
      simp [TapFile.image, hf] at himg
    rw [if_pos hfast]
    exact ⟨hc, hs, rfl, .inl himg⟩
  · rw [if_neg (by simp [hfast])]
    exact ⟨hc, hs, rfl, .inr ⟨hfast, rfl⟩⟩

theorem tapHeaderBytes_length (header : TapHeader) :
    (tapHeaderBytes header).length = header.syncCount + 11 + header.name.bytes.length := by
  simp only [tapHeaderBytes, tapHeaderBody, List.length_append, List.length_replicate,
    List.length_cons, List.length_nil]
  omega

/-- A header written at the end of a tape and read back from the tape's bytes, in either way of
reading, whatever follows it. -/
theorem tapReadHeader_iff {writer reader : TapFile} {header : TapHeader} {rest : List Byte}
    (hw : writer.Writes)
    (hr : reader.Reads ((tapWriteHeader writer header).2.contents ++ rest) writer.position)
    (stack : Nat → Byte) (out : TapHeader) :
    TapReadBack header ((tapWriteHeader writer header).2.contents ++ rest)
        (tapWriteHeader writer header).2.position (tapReadHeader stack reader out) ↔
      header.name.bytes.length < 15 ∧
        (tapPlausible header.startAddr header.endAddr ∨ ¬ TapMistaken header rest) := by
  obtain ⟨-, hwrites, hcontents⟩ := tapWriteHeader_eq hw header
  rw [hwrites.position, hcontents]
  rw [hcontents, hw.position] at hr
  obtain ⟨tap, hreads, heq⟩ := tapReadHeader_written hr stack out
  rw [heq, ← tapDetect_written stack header rest]
  constructor
  · intro hback
    have hdetect := tapDetect_of_addresses stack header rest out hback.startAddr hback.endAddr
    refine ⟨?_, hdetect⟩
    have hpos := hback.reads.position
    simp only [hdetect, tapParse_written, List.length_append, tapHeaderBytes_length] at hpos
    by_contra hlen
    rw [if_neg hlen] at hpos
    split_ifs at hpos <;> simp only at hpos <;> omega
  · rintro ⟨hlen, hdetect⟩
    simp only [hdetect, tapParse_written, if_pos hlen]
    have hpos : writer.contents.length + header.syncCount + 1 +
        (9 + header.name.bytes.length + 1) =
        (writer.contents ++ tapHeaderBytes header).length := by
      rw [List.length_append, tapHeaderBytes_length]
      omega
    rw [hpos]
    exact ⟨rfl, rfl, rfl, rfl, rfl, rfl, hreads.seek _⟩

/-- A machine-code header of these addresses and name. -/
def tapMachineHeader (startAddr endAddr : Word) (name : TapName) : TapHeader where
  syncLen := 0x03#8
  name := name
  type := 0x80#8
  autoRun := 0x00#8
  startAddr := startAddr
  endAddr := endAddr
  checksum := 0x00#8

/-- `"HI"` at `$0600..$09FF`, with data after it, read from the stream. -/
theorem tapReadHeader_iff_hi :
    let header := tapMachineHeader 0x0600#16 0x09FF#16 ⟨[0x48#8, 0x49#8], by decide, by decide⟩
    TapReadBack header ((tapWriteHeader tapOpenWrite header).2.contents ++ [0xA9#8, 0x60#8])
      (tapWriteHeader tapOpenWrite header).2.position
      (tapReadHeader (fun _ => 0#8)
        (tapOpenRead ((tapWriteHeader tapOpenWrite header).2.contents ++ [0xA9#8, 0x60#8]) false)
        header) := by
  intro header
  exact (tapReadHeader_iff tapOpenWrite_writes (tapOpenRead_reads (by decide) false)
    (fun _ => 0#8) header).mpr (by decide)

/-- A name of fifteen letters leaves the tape on the NUL after it, and the header of one byte at
`$0600` is read as seven bytes, its type as the high byte of an end address. -/
theorem tapReadHeader_not_readBack :
    let readBack := fun header => TapReadBack header (tapWriteHeader tapOpenWrite header).2.contents
      (tapWriteHeader tapOpenWrite header).2.position
      (tapReadHeader (fun _ => 0#8)
        (tapOpenRead (tapWriteHeader tapOpenWrite header).2.contents true) header)
    ¬ readBack (tapMachineHeader 0x0600#16 0x09FF#16
        ⟨List.replicate 15 0x41#8, by decide, by decide⟩) ∧
      ¬ readBack (tapMachineHeader 0x0600#16 0x0600#16 ⟨[0x41#8], by decide, by decide⟩) := by
  refine ⟨fun h => ?_, fun h => ?_⟩
  · exact absurd h.reads.position (by decide)
  · exact absurd h.type (by decide)

end Phosphoric
