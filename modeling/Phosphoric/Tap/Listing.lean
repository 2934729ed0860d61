import Mathlib.Data.List.DropRight
import Phosphoric.Tap.Basic

/-!
# A BASIC listing on a tape

`tapFromBasic` reads a listing in pieces of at most 1023 bytes, `fgets` cutting what is longer, and
appends each that starts with a number other than 0 to the program, behind a link to the next line
and the number in 16 bits. It stops once it is within 256 bytes of the end of its buffer, and says
nothing of what it leaves: a piece may be longer than that, and goes past the end.

**Theorem (`tapFromBasic_whole`).** Nothing is stored outside the buffer, and a program that is
written has every line of the listing, exactly when no line that starts before the margin ends past
the buffer, and the pieces are the lines, up to the margin, which is not before the last of them.

**Theorem (`tapFromBasic_chain`).** Of a listing that fits the buffer the links make the lines of
the listing, in order, with their numbers, between the addresses of the header, under the second of
these conditions.
-/

namespace Phosphoric

/-! ## The listing -/

/-- `sizeof(line)`, and of `tok_buf`. -/
def basicLineMax : Nat := 1024

/-- `BASIC_START_ADDR`. -/
def basicStartAddr : Nat := 0x0501

/-- `BASIC_MAX_SIZE`. -/
def basicMaxSize : Nat := 32768

/-- From here on no line is added. -/
def basicMargin : Nat := basicMaxSize - 256

/-- `fgets` of at most `n` bytes, and what is left of the file. -/
def basicFgets : Nat → List Byte → List Byte × List Byte
  | 0, bytes => ([], bytes)
  | _ + 1, [] => ([], [])
  | n + 1, b :: bytes =>
    if b = 0x0A#8 then ([b], bytes)
    else (b :: (basicFgets n bytes).1, (basicFgets n bytes).2)

/-- What `fgets` returns until the end of the file, in at most `fuel` calls. -/
def basicPieces : Nat → List Byte → List (List Byte)
  | 0, _ => []
  | _ + 1, [] => []
  | fuel + 1, bytes =>
    (basicFgets (basicLineMax - 1) bytes).1 ::
      basicPieces fuel (basicFgets (basicLineMax - 1) bytes).2

/-- A call reads a byte or more. -/
def basicRead (text : List Byte) : List (List Byte) := basicPieces text.length text

/-- The digits of a line number. -/
def basicDigit (c : Byte) : Bool := 0x30#8 ≤ c && c ≤ 0x39#8

/-- `linenum = linenum * 10 + (*p - '0')`, an `int` that wraps. -/
def basicLinenum (digits : CStr) : BitVec 32 :=
  digits.foldl (fun linenum c => linenum * 10 + (c - 0x30#8).setWidth 32) 0

/-- The line number and the text of a piece. -/
def basicParse (piece : List Byte) : Option (BitVec 32 × CStr) :=
  -- the string in `line`, without the newline
  let line := (piece.takeWhile (· != 0x00#8)).rdropWhile fun c => c == 0x0A#8 || c == 0x0D#8
  if line = [] then none
  else
    let p := line.dropWhile (· == 0x20#8)
    let linenum := basicLinenum (p.takeWhile basicDigit)
    let p := p.dropWhile basicDigit
    if linenum = 0 then none
    else some (linenum, if p.head? = some 0x20#8 then p.tail else p)

/-! ## The program -/

/-- Bytes stored at `pos`, after the bytes of `mem` before it; none outside the buffer. -/
def basicStore (mem bytes : List Byte) : Option (List Byte) :=
  if mem.length + bytes.length ≤ basicMaxSize then some (mem ++ bytes) else none

/-- One line, and the link to what follows it. -/
def basicAddLine (mem : List Byte) (linenum : BitVec 32) (src : CStr) : Option (List Byte) := do
  let lineStart := mem.length
  let mem ← basicStore mem [0x00#8, 0x00#8]
  let mem ← basicStore mem [linenum.setWidth 8, (linenum.sshiftRight 8).setWidth 8]
  let mem ← basicStore mem (basicTokenizeLine src basicLineMax).1
  let mem ← basicStore mem [0x00#8]
  let nextAddr : Word := BitVec.ofNat 16 (basicStartAddr + mem.length)
  some ((mem.set lineStart nextAddr.lo).set (lineStart + 1) nextAddr.hi)

/-- The loop over the pieces. -/
def basicLoop : List (List Byte) → List Byte → Option (List Byte)
  | [], mem => some mem
  | piece :: pieces, mem =>
    match basicParse piece with
    | none => basicLoop pieces mem
    | some (linenum, src) => do
      let mem ← basicAddLine mem linenum src
      if basicMargin ≤ mem.length then some mem else basicLoop pieces mem

/-- The name on the tape: that of the file, without what follows its last dot, in upper case. -/
def basicName (basicFile : CStr) : TapName where
  bytes :=
    let base := (basicFile.takeWhile (· != 0x00#8)).rtakeWhile (· != 0x2F#8)
    let name := base.take (tapNameLen - 1)
    let name := if 0x2E#8 ∈ name then (name.rdropWhile (· != 0x2E#8)).dropLast else name
    name.map basicUpper
  length_lt := by
    have htake (base : CStr) : (base.take (tapNameLen - 1)).length < tapNameLen := by
      rw [List.length_take]
      exact Nat.lt_of_le_of_lt (Nat.min_le_left _ _) (by decide)
    dsimp only
    rw [List.length_map]
    split_ifs
    · rw [List.length_dropLast]
      exact Nat.lt_of_le_of_lt ((Nat.sub_le _ _).trans (List.rdropWhile_prefix _ _).length_le)
        (htake _)
    · exact htake _
  ne_zero := by
    intro b hb
    obtain ⟨c, hc, rfl⟩ := List.mem_map.mp hb
    have hupper : ∀ c : Byte, c ≠ 0x00#8 → basicUpper c ≠ 0x00#8 := by decide
    refine hupper c ?_
    have hname : ∀ (path : CStr), c ∈ ((path.takeWhile (· != 0x00#8)).rtakeWhile
        (· != 0x2F#8)).take (tapNameLen - 1) → c ≠ 0x00#8 := by
      intro path hmem
      have hpath := (List.rtakeWhile_suffix _ _).subset (List.mem_of_mem_take hmem)
      simpa using List.mem_takeWhile_imp hpath
    split_ifs at hc
    · exact hname _ ((List.rdropWhile_prefix _ _).subset (List.mem_of_mem_dropLast hc))
    · exact hname _ hc

/-- The header of a program of `size` bytes. -/
def basicHeader (basicFile : CStr) (autoRun : Bool) (size : Nat) : TapHeader where
  syncLen := 3#8
  name := basicName basicFile
  type := 0x00#8
  autoRun := if autoRun then 0x80#8 else 0x00#8
  startAddr := BitVec.ofNat 16 basicStartAddr
  endAddr := BitVec.ofNat 16 (basicStartAddr + size - 1)
  checksum := 0#8

/-- What comes of a call: a store outside the buffer, `false`, or `true` with the file written. -/
inductive BasicOutcome
  | outside
  | failed
  | written (file : List Byte)

/-- `tap_from_basic`, of a file that can be opened or not. -/
def tapFromBasic (source : Option (List Byte)) (memory opens : Bool) (basicFile : CStr)
    (autoRun : Bool) : BasicOutcome :=
  match source with
  | none => .failed
  | some text =>
    if !memory then .failed
    else
      match basicLoop (basicRead text) [] >>= fun mem => basicStore mem [0x00#8, 0x00#8] with
      | none => .outside
      | some mem =>
        if !opens then .failed
        else
          let tap := (tapWriteHeader tapOpenWrite (basicHeader basicFile autoRun mem.length)).2
          .written (tapWriteData tap mem).2.contents

/-! ## Lines -/

/-- A line: its number and its tokens. -/
abbrev BasicLine := Nat × List Byte

/-- All the tokens of a text. -/
def basicTokens (src : CStr) : List Byte := (basicTokenizeLine src (src.length + 2)).1

/-- What a program needs for some lines. -/
def basicSize (lines : List BasicLine) : Nat := (lines.map fun line => line.2.length + 5).sum

/-- The line of a text that starts with a number. -/
def basicLine (text : CStr) : Option BasicLine :=
  let p := (text.rdropWhile (· == 0x0D#8)).dropWhile (· == 0x20#8)
  let digits := p.takeWhile basicDigit
  let p := p.dropWhile basicDigit
  if digits = [] then none
  else some (digits.foldl (fun number c => number * 10 + (c - 0x30#8).toNat) 0,
    basicTokens (if p.head? = some 0x20#8 then p.tail else p))

/-- The lines of a listing. -/
def basicListing (text : List Byte) : List BasicLine := (text.splitOn 0x0A#8).filterMap basicLine

/-- The lines of the pieces that are read. -/
def basicPieceLines (text : List Byte) : List BasicLine :=
  ((basicRead text).filterMap basicParse).map fun line =>
    ((line.1.setWidth 16).toNat, (basicTokenizeLine line.2 basicLineMax).1)

/-- A line that starts before the margin leaves room for the end of the program. -/
def BasicFits (lines : List BasicLine) : Prop :=
  ∀ init line rest, lines = init ++ line :: rest → basicSize init < basicMargin →
    basicSize init + (line.2.length + 5) + 2 ≤ basicMaxSize

/-- The pieces read are the lines of the listing, up to the margin, and all of these start before
it. -/
structure BasicKept (text : List Byte) : Prop where
  starts : ∀ init line rest, basicListing text = init ++ line :: rest → basicSize init < basicMargin
  lines : basicPieceLines text = basicListing text ∨
    basicMargin ≤ basicSize (basicListing text) ∧ basicListing text <+: basicPieceLines text

/-! ## What the loop stores -/

/-- The bytes of a line at `pos`. -/
def basicLineBytes (pos : Nat) (line : BasicLine) : List Byte :=
  let nextAddr : Word := BitVec.ofNat 16 (basicStartAddr + (pos + (line.2.length + 5)))
  let number : Word := BitVec.ofNat 16 line.1
  [nextAddr.lo, nextAddr.hi, number.lo, number.hi] ++ (line.2 ++ [0x00#8])

@[simp] theorem basicLineBytes_length (pos : Nat) (line : BasicLine) :
    (basicLineBytes pos line).length = line.2.length + 5 := by
  simp only [basicLineBytes, List.length_append, List.length_cons, List.length_nil]
  omega

/-- The bytes of some lines from `pos` on. -/
def basicLayout : Nat → List BasicLine → List Byte
  | _, [] => []
  | pos, line :: lines =>
    basicLineBytes pos line ++ basicLayout (pos + (line.2.length + 5)) lines

theorem basicSize_cons (line : BasicLine) (lines : List BasicLine) :
    basicSize (line :: lines) = line.2.length + 5 + basicSize lines := by
  rw [basicSize, List.map_cons, List.sum_cons]
  rfl

@[simp] theorem basicLayout_length (pos : Nat) (lines : List BasicLine) :
    (basicLayout pos lines).length = basicSize lines := by
  induction lines generalizing pos with
  | nil => rfl
  | cons line lines ih =>
    rw [basicLayout, List.length_append, basicLineBytes_length, ih, basicSize_cons]

/-- The line of a piece. -/
def basicStored (line : BitVec 32 × CStr) : BasicLine :=
  ((line.1.setWidth 16).toNat, (basicTokenizeLine line.2 basicLineMax).1)

/-- Two stores are one. -/
theorem basicStore_bind (mem a b : List Byte) (f : List Byte → Option (List Byte)) :
    ((basicStore mem a).bind fun mem => (basicStore mem b).bind f) =
      (basicStore mem (a ++ b)).bind f := by
  unfold basicStore
  rw [List.length_append]
  by_cases hab : mem.length + (a.length + b.length) ≤ basicMaxSize
  · have ha : mem.length + a.length ≤ basicMaxSize := by omega
    have hb : (mem ++ a).length + b.length ≤ basicMaxSize := by
      rw [List.length_append]
      omega
    rw [if_pos ha, Option.bind_some, if_pos hb, if_pos hab, List.append_assoc]
  · rw [if_neg hab]
    by_cases ha : mem.length + a.length ≤ basicMaxSize
    · have hb : ¬(mem ++ a).length + b.length ≤ basicMaxSize := by
        rw [List.length_append]
        omega
      rw [if_pos ha, Option.bind_some, if_neg hb]
    · rw [if_neg ha]
      rfl

theorem linenum_hi (linenum : BitVec 32) :
    Word.hi (linenum.setWidth 16) = (linenum.sshiftRight 8).setWidth 8 := by
  ext i hi
  simp only [Word.hi, BitVec.getElem_setWidth, BitVec.getLsbD_ushiftRight, BitVec.getLsbD_setWidth,
    BitVec.getLsbD_sshiftRight]
  have hlo : decide (8 + i < 16) = true := by simpa using by omega
  have hin : ¬32 ≤ i := by omega
  have hin' : 8 + i < 32 := by omega
  simp [hlo, hin, hin']

/-- What one line appends. -/
theorem basicAddLine_eq (mem : List Byte) (line : BitVec 32 × CStr) :
    basicAddLine mem line.1 line.2 =
      if mem.length + ((basicStored line).2.length + 5) ≤ basicMaxSize then
        some (mem ++ basicLineBytes mem.length (basicStored line))
      else none := by
  have hnumber : BitVec.ofNat 16 (basicStored line).1 = line.1.setWidth 16 :=
    BitVec.ofNat_toNat 16 _
  have hlo : Word.lo (line.1.setWidth 16) = line.1.setWidth 8 :=
    BitVec.setWidth_setWidth_of_le _ (by decide)
  generalize hafter : [line.1.setWidth 8, (line.1.sshiftRight 8).setWidth 8] ++
    ((basicStored line).2 ++ [0x00#8]) = after
  have hlen : after.length = (basicStored line).2.length + 3 := by
    rw [← hafter]
    simp only [List.length_append, List.length_cons, List.length_nil]
    omega
  have hstore : basicAddLine mem line.1 line.2 =
      (basicStore mem ([0x00#8, 0x00#8] ++ after)).bind fun mem' =>
        let nextAddr : Word := BitVec.ofNat 16 (basicStartAddr + mem'.length)
        some ((mem'.set mem.length nextAddr.lo).set (mem.length + 1) nextAddr.hi) := by
    rw [← hafter]
    simp only [← basicStore_bind]
    rfl
  rw [hstore, basicStore, List.length_append, hlen]
  have hsum : mem.length + ([0x00#8, 0x00#8].length + ((basicStored line).2.length + 3)) =
      mem.length + ((basicStored line).2.length + 5) := by
    rw [List.length_cons, List.length_cons, List.length_nil]
    omega
  rw [hsum]
  split_ifs with hfits
  · have hpos : (mem ++ ([0x00#8, 0x00#8] ++ after)).length =
        mem.length + ((basicStored line).2.length + 5) := by
      rw [List.length_append, List.length_append, hlen, hsum]
    rw [Option.bind_some, hpos]
    dsimp only
    rw [List.set_append_right _ _ le_rfl, Nat.sub_self]
    dsimp only [List.cons_append, List.nil_append, List.set_cons_zero]
    rw [List.set_append_right _ _ (Nat.le_add_right mem.length 1), Nat.add_sub_cancel_left,
      basicLineBytes, hnumber, hlo, linenum_hi, ← hafter]
    rfl
  · rfl

/-- The lines added until the margin. -/
def basicTaken : Nat → List BasicLine → List BasicLine
  | _, [] => []
  | pos, line :: lines =>
    line :: if basicMargin ≤ pos + (line.2.length + 5) then []
      else basicTaken (pos + (line.2.length + 5)) lines

/-- The program the loop stores, if it is within the buffer. -/
theorem basicLoop_eq (pieces : List (List Byte)) (mem : List Byte)
    (hmem : mem.length ≤ basicMaxSize) :
    let taken := basicTaken mem.length ((pieces.filterMap basicParse).map basicStored)
    basicLoop pieces mem =
      if mem.length + basicSize taken ≤ basicMaxSize then
        some (mem ++ basicLayout mem.length taken)
      else none := by
  induction pieces generalizing mem with
  | nil =>
    have hnil : mem.length + basicSize [] ≤ basicMaxSize := hmem
    exact (congrArg some (List.append_nil mem).symm).trans (if_pos hnil).symm
  | cons piece pieces ih =>
    cases hparse : basicParse piece with
    | none =>
      have hloop : basicLoop (piece :: pieces) mem = basicLoop pieces mem := by
        rw [basicLoop, hparse]
      rw [List.filterMap_cons_none hparse, hloop]
      exact ih mem hmem
    | some line =>
      have hloop : basicLoop (piece :: pieces) mem =
          (basicAddLine mem line.1 line.2).bind fun mem =>
            if basicMargin ≤ mem.length then some mem else basicLoop pieces mem := by
        rw [basicLoop, hparse]
        rfl
      rw [List.filterMap_cons_some hparse, List.map_cons, basicTaken, hloop, basicAddLine_eq]
      dsimp only
      rw [basicSize_cons, basicLayout, ← List.append_assoc]
      by_cases hfits : mem.length + ((basicStored line).2.length + 5) ≤ basicMaxSize
      · have hpos : (mem ++ basicLineBytes mem.length (basicStored line)).length =
            mem.length + ((basicStored line).2.length + 5) := by
          rw [List.length_append, basicLineBytes_length]
        rw [if_pos hfits, Option.bind_some, hpos]
        by_cases hmargin : basicMargin ≤ mem.length + ((basicStored line).2.length + 5)
        · rw [if_pos hmargin, if_pos hmargin, if_pos (show mem.length + ((basicStored line).2.length +
            5 + basicSize []) ≤ basicMaxSize from hfits), basicLayout, List.append_nil]
        · rw [if_neg hmargin, if_neg hmargin]
          have hrest := ih _ (hpos.le.trans hfits)
          dsimp only at hrest
          rw [hrest, hpos, Nat.add_assoc]
      · rw [if_neg hfits, if_neg (by omega)]
        rfl

/-! ## The lines taken -/

section Taken

variable {pos : Nat} (hpos : pos < basicMargin)

include hpos

/-- The lines taken are those that start before the margin. -/
theorem basicTaken_fits (lines : List BasicLine) :
    pos + basicSize (basicTaken pos lines) + 2 ≤ basicMaxSize ↔
      ∀ init line rest, lines = init ++ line :: rest → pos + basicSize init < basicMargin →
        pos + basicSize init + (line.2.length + 5) + 2 ≤ basicMaxSize := by
  have hmargin : basicMargin + 256 = basicMaxSize := rfl
  induction lines generalizing pos with
  | nil =>
    refine iff_of_true ?_ fun init line rest h => ?_
    · have hnil : basicSize (basicTaken pos []) = 0 := rfl
      omega
    · exact absurd h (List.append_ne_nil_of_right_ne_nil init (List.cons_ne_nil line rest)).symm
  | cons line lines ih =>
    have hnil : basicSize [] = 0 := rfl
    rw [basicTaken, basicSize_cons]
    by_cases hlast : basicMargin ≤ pos + (line.2.length + 5)
    · rw [if_pos hlast, hnil]
      constructor
      · intro h init line' rest heq hinit
        cases init with
        | nil =>
          cases heq
          omega
        | cons first init =>
          cases heq
          rw [basicSize_cons] at hinit
          omega
      · intro h
        have hline := h [] line lines rfl (by omega)
        omega
    · rw [if_neg hlast, ← Nat.add_assoc pos (line.2.length + 5)]
      refine (ih (Nat.lt_of_not_le hlast)).trans ?_
      constructor
      · intro h init line' rest heq hinit
        cases init with
        | nil =>
          cases heq
          omega
        | cons first init =>
          cases heq
          rw [basicSize_cons, ← Nat.add_assoc pos (_ + 5)] at hinit ⊢
          exact h init line' rest rfl hinit
      · intro h init line' rest heq hinit
        have hline := h (line :: init) line' rest (by rw [heq]; rfl)
        rw [basicSize_cons, ← Nat.add_assoc pos (_ + 5)] at hline
        exact hline hinit

/-- When the lines taken are given ones. -/
theorem basicTaken_eq_iff (lines listing : List BasicLine) :
    basicTaken pos lines = listing ↔
      (∀ init line rest, listing = init ++ line :: rest → pos + basicSize init < basicMargin) ∧
        (lines = listing ∨ basicMargin ≤ pos + basicSize listing ∧ listing <+: lines) := by
  induction lines generalizing pos listing with
  | nil =>
    rw [basicTaken]
    constructor
    · rintro rfl
      refine ⟨fun init line rest h => ?_, .inl rfl⟩
      exact absurd h (List.append_ne_nil_of_right_ne_nil init (List.cons_ne_nil line rest)).symm
    · rintro ⟨-, rfl | ⟨-, hinitial⟩⟩
      · rfl
      · exact (List.prefix_nil.mp hinitial).symm
  | cons line lines ih =>
    have hnil : basicSize [] = 0 := rfl
    rw [basicTaken]
    constructor
    · rintro rfl
      by_cases hlast : basicMargin ≤ pos + (line.2.length + 5)
      · rw [if_pos hlast]
        refine ⟨fun init line' rest h => ?_, .inr ⟨?_, List.prefix_append [line] lines⟩⟩
        · cases init with
          | nil => exact hpos
          | cons first init => simp at h
        · rw [basicSize_cons, hnil]
          exact hlast
      · rw [if_neg hlast]
        obtain ⟨hstarts, hlines⟩ := (ih (Nat.lt_of_not_le hlast) _).mp rfl
        refine ⟨fun init line' rest h => ?_, ?_⟩
        · cases init with
          | nil => exact hpos
          | cons first init =>
            obtain ⟨rfl, hrest⟩ := List.cons.inj h
            rw [basicSize_cons, ← Nat.add_assoc pos (_ + 5)]
            exact hstarts init line' rest hrest
        · rcases hlines with heq | ⟨hsize, hinitial⟩
          · exact .inl (congrArg _ heq)
          · rw [basicSize_cons, ← Nat.add_assoc pos (_ + 5)]
            exact .inr ⟨hsize, List.cons_prefix_cons.mpr ⟨rfl, hinitial⟩⟩
    · rintro ⟨hstarts, hlines⟩
      obtain ⟨rest, rfl⟩ : ∃ rest, listing = line :: rest := by
        rcases hlines with rfl | ⟨hsize, hinitial⟩
        · exact ⟨lines, rfl⟩
        · cases listing with
          | nil => omega
          | cons first rest => exact ⟨rest, by rw [(List.cons_prefix_cons.mp hinitial).1]⟩
      have hrest : lines = rest ∨
          basicMargin ≤ pos + (line.2.length + 5) + basicSize rest ∧ rest <+: lines := by
        rcases hlines with heq | ⟨hsize, hinitial⟩
        · exact .inl (List.cons.inj heq).2
        · rw [basicSize_cons, ← Nat.add_assoc pos (_ + 5)] at hsize
          exact .inr ⟨hsize, (List.cons_prefix_cons.mp hinitial).2⟩
      have hstarts' : ∀ init line' rest', rest = init ++ line' :: rest' →
          pos + (line.2.length + 5) + basicSize init < basicMargin := by
        intro init line' rest' h
        have hstart := hstarts (line :: init) line' rest' (by rw [h]; rfl)
        rwa [basicSize_cons, ← Nat.add_assoc pos (_ + 5)] at hstart
      by_cases hlast : basicMargin ≤ pos + (line.2.length + 5)
      · rw [if_pos hlast]
        cases rest with
        | nil => rfl
        | cons next rest =>
          have hstart := hstarts' [] next rest rfl
          omega
      · rw [if_neg hlast]
        exact congrArg _ ((ih (Nat.lt_of_not_le hlast) rest).mpr ⟨hstarts', hrest⟩)

end Taken

/-- The program of some lines. -/
def basicProgram (lines : List BasicLine) : List Byte := basicLayout 0 lines ++ [0x00#8, 0x00#8]

theorem basicProgram_length (lines : List BasicLine) :
    (basicProgram lines).length = basicSize lines + 2 := by
  rw [basicProgram, List.length_append, basicLayout_length]
  rfl

/-- The file of a program. -/
def basicFileBytes (basicFile : CStr) (autoRun : Bool) (program : List Byte) : List Byte :=
  tapHeaderBytes (basicHeader basicFile autoRun program.length) ++ program

/-- What comes of a call. -/
theorem tapFromBasic_eq (text : List Byte) (opens : Bool) (basicFile : CStr) (autoRun : Bool) :
    let taken := basicTaken 0 (basicPieceLines text)
    tapFromBasic (some text) true opens basicFile autoRun =
      if basicSize taken + 2 ≤ basicMaxSize then
        if opens then .written (basicFileBytes basicFile autoRun (basicProgram taken)) else .failed
      else .outside := by
  intro taken
  have hloop := basicLoop_eq (basicRead text) [] (Nat.zero_le _)
  have hwrite (mem : List Byte) :
      (tapWriteData (tapWriteHeader tapOpenWrite (basicHeader basicFile autoRun mem.length)).2
        mem).2.contents = basicFileBytes basicFile autoRun mem := by
    obtain ⟨-, hwrites, hheader⟩ :=
      tapWriteHeader_eq tapOpenWrite_writes (basicHeader basicFile autoRun mem.length)
    rw [(tapWriteData_eq hwrites mem).2, hheader]
    rfl
  have hprogram : (basicLoop (basicRead text) [] >>= fun mem => basicStore mem [0x00#8, 0x00#8]) =
      if basicSize taken + 2 ≤ basicMaxSize then some (basicProgram taken) else none := by
    rw [hloop]
    change (if 0 + basicSize taken ≤ basicMaxSize then some ([] ++ basicLayout 0 taken)
      else none).bind (fun mem => basicStore mem [0x00#8, 0x00#8]) = _
    rw [Nat.zero_add, List.nil_append]
    by_cases hsize : basicSize taken + 2 ≤ basicMaxSize
    · have hlen : (basicLayout 0 taken).length + [0x00#8, 0x00#8].length ≤ basicMaxSize := by
        rw [basicLayout_length]
        exact hsize
      rw [if_pos (by omega), if_pos hsize, Option.bind_some, basicStore, if_pos hlen]
      rfl
    · have hlen : ¬(basicLayout 0 taken).length + [0x00#8, 0x00#8].length ≤ basicMaxSize := by
        rw [basicLayout_length]
        exact hsize
      rw [if_neg hsize]
      split_ifs
      · exact if_neg hlen
      · rfl
  have hmemory : ¬(!true) = true := Bool.false_ne_true
  unfold tapFromBasic
  dsimp only
  rw [if_neg hmemory, hprogram]
  by_cases hsize : basicSize taken + 2 ≤ basicMaxSize
  · rw [if_pos hsize, if_pos hsize]
    cases opens with
    | false => rfl
    | true => exact congrArg BasicOutcome.written (hwrite _)
  · rw [if_neg hsize, if_neg hsize]

/-! ## Following the links -/

/-- The word at an address of a program. -/
def basicWord (program : List Byte) (addr : Nat) : Option Word := do
  let lo ← program[addr - basicStartAddr]?
  let hi ← program[addr - basicStartAddr + 1]?
  some (.mk hi lo)

/-- The links from `addr` on make these lines, and the zero link that ends them ends before `stop`.
A line has its number after the link, and a zero byte, the first after that, just before the
next. -/
inductive BasicChain (program : List Byte) : Nat → List BasicLine → Nat → Prop
  | nil {addr : Nat} : basicWord program addr = some 0#16 → BasicChain program addr [] (addr + 2)
  | cons {addr stop : Nat} {next number : Word} {tokens : List Byte} {lines : List BasicLine} :
    basicWord program addr = some next → next ≠ 0#16 →
    basicWord program (addr + 2) = some number → 0x00#8 ∉ tokens →
    next.toNat = addr + (tokens.length + 5) →
    tokens ++ [0x00#8] <+: program.drop (addr + 4 - basicStartAddr) →
    BasicChain program next.toNat lines stop →
    BasicChain program addr ((number.toNat, tokens) :: lines) stop

/-- The links make one list of lines. -/
theorem BasicChain.unique {program : List Byte} {addr stop stop' : Nat}
    {lines lines' : List BasicLine} (h : BasicChain program addr lines stop)
    (h' : BasicChain program addr lines' stop') : lines = lines' := by
  induction h generalizing lines' with
  | nil hzero =>
    cases h' with
    | nil => rfl
    | cons hlink hne => exact absurd (Option.some.inj (hlink.symm.trans hzero)) hne
  | @cons addr stop next number tokens lines hlink hne hnumber _ hnext hbytes _ ih =>
    cases h' with
    | nil hzero => exact absurd (Option.some.inj (hlink.symm.trans hzero)) hne
    | @cons _ _ next' number' tokens' _ hlink' _ hnumber' _ hnext' hbytes' hrest' =>
      obtain rfl := Option.some.inj (hlink.symm.trans hlink')
      obtain rfl := Option.some.inj (hnumber.symm.trans hnumber')
      have hlen : (tokens ++ [0x00#8]).length = (tokens' ++ [0x00#8]).length := by
        rw [List.length_append, List.length_append]
        omega
      have heq := (List.prefix_of_prefix_length_le hbytes hbytes' hlen.le).eq_of_length hlen
      rw [List.append_cancel_right heq, ih hrest']

/-- A line that can be stored. -/
def BasicLine.Stored (line : BasicLine) : Prop := line.1 < 65536 ∧ 0x00#8 ∉ line.2

theorem basicWord_append (before after : List Byte) (lo hi : Byte) :
    basicWord (before ++ lo :: hi :: after) (basicStartAddr + before.length) = some (.mk hi lo) := by
  unfold basicWord
  rw [Nat.add_sub_cancel_left, List.getElem?_append_right le_rfl,
    List.getElem?_append_right (Nat.le_add_right _ 1), Nat.sub_self, Nat.add_sub_cancel_left]
  rfl

/-- The links of a program make its lines. -/
theorem basicLayout_chain (before : List Byte) (lines : List BasicLine)
    (hlines : ∀ line ∈ lines, line.Stored)
    (hsize : before.length + basicSize lines + 2 ≤ basicMaxSize) :
    BasicChain (before ++ (basicLayout before.length lines ++ [0x00#8, 0x00#8]))
      (basicStartAddr + before.length) lines
      (basicStartAddr + (before.length + basicSize lines + 2)) := by
  have hmax : basicMaxSize = 32768 := rfl
  have hstart : basicStartAddr = 0x0501 := rfl
  induction lines generalizing before with
  | nil => exact .nil (basicWord_append before [] _ _)
  | cons line lines ih =>
    obtain ⟨number, tokens⟩ := line
    obtain ⟨hnumber, hzero⟩ := hlines _ (.head _)
    dsimp only at hnumber hzero
    rw [basicSize_cons] at hsize ⊢
    dsimp only at hsize ⊢
    have hlink : (BitVec.ofNat 16 (basicStartAddr + (before.length + (tokens.length + 5)))).toNat =
        basicStartAddr + (before.length + (tokens.length + 5)) := by
      rw [BitVec.toNat_ofNat]
      omega
    have hnat : (BitVec.ofNat 16 number).toNat = number := by
      rw [BitVec.toNat_ofNat]
      omega
    generalize hnext : BitVec.ofNat 16 (basicStartAddr + (before.length + (tokens.length + 5))) =
      next at hlink
    generalize hword : BitVec.ofNat 16 number = word at hnat
    generalize hafter : basicLayout (before.length + (tokens.length + 5)) lines ++
      [0x00#8, 0x00#8] = after
    have hbytes : before ++ (basicLayout before.length ((number, tokens) :: lines) ++
        [0x00#8, 0x00#8]) = before ++ Word.lo next :: Word.hi next :: Word.lo word ::
          Word.hi word :: (tokens ++ [0x00#8] ++ after) := by
      rw [basicLayout, basicLineBytes, hnext, hword, List.append_assoc _ (basicLayout _ _), hafter]
      simp only [List.append_assoc, List.cons_append, List.nil_append]
    have hrest := ih (before ++ basicLineBytes before.length (number, tokens))
      (fun line hline => hlines line (.tail _ hline)) (by
        rw [List.length_append, basicLineBytes_length]
        dsimp only
        omega)
    have hfold : before ++ basicLineBytes before.length (number, tokens) ++
        (basicLayout (before.length + (tokens.length + 5)) lines ++ [0x00#8, 0x00#8]) =
          before ++ (basicLayout before.length ((number, tokens) :: lines) ++
            [0x00#8, 0x00#8]) := by
      rw [basicLayout, List.append_assoc, List.append_assoc]
    rw [List.length_append, basicLineBytes_length] at hrest
    dsimp only at hrest
    rw [hfold, hbytes, ← hlink, Nat.add_assoc before.length (tokens.length + 5)] at hrest
    have hnumberWord : basicWord (before ++ Word.lo next :: Word.hi next :: Word.lo word ::
        Word.hi word :: (tokens ++ [0x00#8] ++ after)) (basicStartAddr + before.length + 2) =
          some word := by
      have h := basicWord_append (before ++ [Word.lo next, Word.hi next])
        (tokens ++ [0x00#8] ++ after) (Word.lo word) (Word.hi word)
      rwa [List.append_assoc, List.length_append, ← Nat.add_assoc, Word.mk_hi_lo] at h
    have hdrop : (before ++ Word.lo next :: Word.hi next :: Word.lo word :: Word.hi word ::
        (tokens ++ [0x00#8] ++ after)).drop (basicStartAddr + before.length + 4 - basicStartAddr) =
          tokens ++ [0x00#8] ++ after := by
      rw [Nat.add_assoc, Nat.add_sub_cancel_left, List.drop_append,
        List.drop_eq_nil_of_le (Nat.le_add_right _ 4), Nat.add_sub_cancel_left]
      rfl
    rw [hbytes]
    conv => arg 3; rw [← hnat]
    refine .cons ?_ ?_ hnumberWord hzero (by omega) ?_ hrest
    · rw [basicWord_append, Word.mk_hi_lo]
    · rintro rfl
      rw [BitVec.toNat_ofNat] at hlink
      omega
    · rw [hdrop]
      exact List.prefix_append _ _

/-! ## The whole listing -/

theorem basicParse_ne_zero {piece : List Byte} {line : BitVec 32 × CStr}
    (h : basicParse piece = some line) : 0x00#8 ∉ line.2 := by
  intro hzero
  have hstring : 0x00#8 ∈ piece.takeWhile (· != 0x00#8) := by
    unfold basicParse at h
    dsimp only at h
    split_ifs at h <;> cases h <;> dsimp only at hzero
    · exact (List.rdropWhile_prefix _ _).subset ((List.dropWhile_suffix _).subset
        ((List.dropWhile_suffix _).subset (List.mem_of_mem_tail hzero)))
    · exact (List.rdropWhile_prefix _ _).subset ((List.dropWhile_suffix _).subset
        ((List.dropWhile_suffix _).subset hzero))
  simpa using List.mem_takeWhile_imp hstring

theorem basicPieceLines_stored (text : List Byte) :
    ∀ line ∈ basicPieceLines text, BasicLine.Stored line := by
  intro line hline
  obtain ⟨parsed, hparsed, rfl⟩ := List.mem_map.mp hline
  obtain ⟨piece, -, hpiece⟩ := List.mem_filterMap.mp hparsed
  exact ⟨BitVec.isLt _, basicTokenizeLoop_ne_zero _ _ _ (basicParse_ne_zero hpiece)⟩

theorem basicTaken_initial (pos : Nat) (lines : List BasicLine) :
    basicTaken pos lines <+: lines := by
  induction lines generalizing pos with
  | nil => exact List.nil_prefix
  | cons line lines ih =>
    rw [basicTaken, List.cons_prefix_cons]
    refine ⟨rfl, ?_⟩
    split_ifs
    · exact List.nil_prefix
    · exact ih _

/-- The links of what is written make the lines taken. -/
theorem basicProgram_chain {lines : List BasicLine} (hlines : ∀ line ∈ lines, line.Stored)
    (hsize : basicSize lines + 2 ≤ basicMaxSize) :
    BasicChain (basicProgram lines) basicStartAddr lines
      (basicStartAddr + (basicProgram lines).length) := by
  have h := basicLayout_chain [] lines hlines (by rw [List.length_nil]; omega)
  rw [List.length_nil, Nat.zero_add] at h
  rwa [basicProgram_length]

/-- The program can be told from its header. -/
theorem basicFileBytes_inj {basicFile : CStr} {autoRun : Bool} {program program' : List Byte}
    (h : basicFileBytes basicFile autoRun program = basicFileBytes basicFile autoRun program') :
    program = program' := by
  have hlen (size : Nat) : (tapHeaderBytes (basicHeader basicFile autoRun size)).length =
      (basicName basicFile).bytes.length + 14 := by
    simp only [tapHeaderBytes, tapHeaderBody, List.length_append, List.length_cons,
      List.length_nil, List.length_replicate]
    change 3 + (0 + 1 + 1 + 1 + 1 + 1 + 1 + 1 + 1 + 1 +
      (basicName basicFile).bytes.length + 1) + (0 + 1) = _
    omega
  exact (List.append_inj h ((hlen _).trans (hlen _).symm)).2

/-- A file with the program of a listing, whole and well formed: its links make the lines of the
listing, in order, from one address of its header to the other. -/
def BasicWhole (text : List Byte) (basicFile : CStr) (autoRun : Bool) (file : List Byte) : Prop :=
  ∃ program, let header := basicHeader basicFile autoRun program.length
    file = tapHeaderBytes header ++ program ∧
      header.startAddr.toNat = basicStartAddr ∧
      header.endAddr.toNat + 1 = basicStartAddr + program.length ∧
      BasicChain program header.startAddr.toNat (basicListing text) (header.endAddr.toNat + 1)

/-- The program of some lines is whole when these are all the lines. -/
theorem basicWhole_iff {text : List Byte} {basicFile : CStr} {autoRun : Bool}
    {lines : List BasicLine} (hlines : ∀ line ∈ lines, line.Stored)
    (hsize : basicSize lines + 2 ≤ basicMaxSize) :
    BasicWhole text basicFile autoRun (basicFileBytes basicFile autoRun (basicProgram lines)) ↔
      lines = basicListing text := by
  have hmax : basicMaxSize = 32768 := rfl
  have hstart : basicStartAddr = 0x0501 := rfl
  constructor
  · rintro ⟨program, hfile, haddr, -, hchain⟩
    obtain rfl := basicFileBytes_inj hfile
    rw [haddr] at hchain
    exact (basicProgram_chain hlines hsize).unique hchain
  · rintro rfl
    have hlen := basicProgram_length (basicListing text)
    have haddr : (BitVec.ofNat 16 basicStartAddr).toNat = basicStartAddr := rfl
    have hend : (BitVec.ofNat 16 (basicStartAddr + (basicProgram (basicListing text)).length -
        1)).toNat + 1 = basicStartAddr + (basicProgram (basicListing text)).length := by
      rw [BitVec.toNat_ofNat]
      omega
    refine ⟨_, rfl, haddr, hend, ?_⟩
    dsimp only [basicHeader]
    rw [haddr, hend]
    exact basicProgram_chain hlines hsize

/-- What a call may come to: `false`, or the whole listing. -/
def BasicOutcome.Whole (text : List Byte) (basicFile : CStr) (autoRun : Bool) :
    BasicOutcome → Prop
  | .outside => False
  | .failed => True
  | .written file => BasicWhole text basicFile autoRun file

/-- What is written is whole when the lines taken are those of the listing. -/
theorem tapFromBasic_taken (text : List Byte) (opens : Bool) (basicFile : CStr) (autoRun : Bool) :
    (tapFromBasic (some text) true opens basicFile autoRun).Whole text basicFile autoRun ↔
      BasicFits (basicPieceLines text) ∧ (opens = false ∨ BasicKept text) := by
  have hmargin : 0 < basicMargin := by decide
  have hfits := basicTaken_fits hmargin (basicPieceLines text)
  have hkept := basicTaken_eq_iff hmargin (basicPieceLines text) (basicListing text)
  have hlines : ∀ line ∈ basicTaken 0 (basicPieceLines text), BasicLine.Stored line :=
    fun line hline =>
      basicPieceLines_stored text line ((basicTaken_initial 0 _).subset hline)
  simp only [Nat.zero_add] at hfits hkept
  have hlist : BasicKept text ↔ basicTaken 0 (basicPieceLines text) = basicListing text := by
    rw [hkept]
    exact ⟨fun h => ⟨h.starts, h.lines⟩, fun h => ⟨h.1, h.2⟩⟩
  have heq := tapFromBasic_eq text opens basicFile autoRun
  dsimp only at heq
  rw [heq, hlist, BasicFits, ← hfits]
  by_cases hsize : basicSize (basicTaken 0 (basicPieceLines text)) + 2 ≤ basicMaxSize
  · rw [if_pos hsize, and_iff_right hsize]
    cases opens with
    | false => exact iff_of_true trivial (.inl rfl)
    | true =>
      rw [or_iff_right Bool.noConfusion]
      exact basicWhole_iff hlines hsize
  · rw [if_neg hsize]
    exact iff_of_false id fun h => hsize h.1

/-- A call stores nothing outside the buffer, and fails or writes the whole listing. -/
theorem tapFromBasic_whole (text : List Byte) (readable memory opens : Bool) (basicFile : CStr)
    (autoRun : Bool) :
    (tapFromBasic (if readable then some text else none) memory opens basicFile autoRun).Whole
        text basicFile autoRun ↔
      readable = false ∨ memory = false ∨
        BasicFits (basicPieceLines text) ∧ (opens = false ∨ BasicKept text) := by
  cases readable with
  | false => exact iff_of_true trivial (.inl rfl)
  | true =>
    rw [if_pos rfl, or_iff_right Bool.noConfusion]
    cases memory with
    | false => exact iff_of_true trivial (.inl rfl)
    | true =>
      rw [or_iff_right Bool.noConfusion]
      exact tapFromBasic_taken text opens basicFile autoRun

/-- A listing that is kept is written, if it fits the buffer. -/
theorem tapFromBasic_kept {text : List Byte} (basicFile : CStr) (autoRun : Bool)
    (hfits : basicSize (basicListing text) + 2 ≤ basicMaxSize) (hkept : BasicKept text) :
    ∃ file, tapFromBasic (some text) true true basicFile autoRun = .written file ∧
      BasicWhole text basicFile autoRun file := by
  have hmargin : 0 < basicMargin := by decide
  have hlines : basicTaken 0 (basicPieceLines text) = basicListing text := by
    rw [basicTaken_eq_iff hmargin]
    simp only [Nat.zero_add]
    exact ⟨hkept.starts, hkept.lines⟩
  have hrun := tapFromBasic_eq text true basicFile autoRun
  dsimp only at hrun
  rw [hlines, if_pos hfits, if_pos rfl] at hrun
  have hpieces := (basicTaken_fits hmargin (basicPieceLines text)).mp (by
    rw [hlines]
    omega)
  simp only [Nat.zero_add] at hpieces
  have hwhole := (tapFromBasic_taken text true basicFile autoRun).mpr ⟨hpieces, .inr hkept⟩
  rw [hrun] at hwhole
  exact ⟨_, hrun, hwhole⟩

/-- A listing that fits the buffer is written whole. -/
theorem tapFromBasic_chain (text : List Byte) (basicFile : CStr) (autoRun : Bool)
    (hfits : basicSize (basicListing text) + 2 ≤ basicMaxSize) :
    (∃ file, tapFromBasic (some text) true true basicFile autoRun = .written file ∧
      BasicWhole text basicFile autoRun file) ↔ BasicKept text := by
  constructor
  · rintro ⟨file, hfile, hwhole⟩
    have htaken := tapFromBasic_taken text true basicFile autoRun
    rw [or_iff_right Bool.noConfusion, hfile] at htaken
    exact (htaken.mp hwhole).2
  · exact tapFromBasic_kept basicFile autoRun hfits

/-! ## Lines that are read as they are -/

theorem basicFgets_line {n : Nat} {line : CStr} (rest : List Byte) (hline : 0x0A#8 ∉ line)
    (hlen : line.length < n) :
    basicFgets n (line ++ 0x0A#8 :: rest) = (line ++ [0x0A#8], rest) := by
  induction line generalizing n with
  | nil =>
    obtain ⟨n, rfl⟩ := Nat.exists_eq_succ_of_ne_zero (Nat.ne_of_gt hlen)
    rfl
  | cons b line ih =>
    obtain ⟨n, rfl⟩ := Nat.exists_eq_succ_of_ne_zero (Nat.ne_of_gt (Nat.zero_lt_of_lt hlen))
    rw [List.mem_cons, not_or] at hline
    rw [List.cons_append, basicFgets, if_neg (Ne.symm hline.1),
      ih hline.2 (Nat.lt_of_succ_lt_succ hlen)]
    rfl

/-- A call of `fgets` leaves less. -/
theorem basicFgets_rest {n : Nat} {bytes : List Byte} (hn : n ≠ 0) (hbytes : bytes ≠ []) :
    (basicFgets n bytes).2.length < bytes.length := by
  have hle : ∀ (n : Nat) (bytes : List Byte), (basicFgets n bytes).2.length ≤ bytes.length := by
    intro n bytes
    induction bytes generalizing n with
    | nil => cases n <;> exact le_rfl
    | cons b bytes ih =>
      cases n with
      | zero => exact le_rfl
      | succ n =>
        rw [basicFgets]
        split_ifs
        · exact Nat.le_succ _
        · exact (ih n).trans (Nat.le_succ _)
  obtain ⟨n, rfl⟩ := Nat.exists_eq_succ_of_ne_zero hn
  cases bytes with
  | nil => exact absurd rfl hbytes
  | cons b bytes =>
    rw [basicFgets]
    split_ifs
    · exact Nat.lt_succ_self _
    · exact Nat.lt_succ_of_le (hle n bytes)

theorem basicPieces_succ (fuel : Nat) {bytes : List Byte} (h : bytes ≠ []) :
    basicPieces (fuel + 1) bytes = (basicFgets (basicLineMax - 1) bytes).1 ::
      basicPieces fuel (basicFgets (basicLineMax - 1) bytes).2 := by
  cases bytes with
  | nil => exact absurd rfl h
  | cons b bytes => rfl

theorem basicPieces_fuel {fuel : Nat} {bytes : List Byte} (h : bytes.length ≤ fuel) :
    basicPieces fuel bytes = basicRead bytes := by
  have hmax : basicLineMax - 1 ≠ 0 := by decide
  suffices heq : ∀ fuel fuel' bytes, bytes.length ≤ fuel → bytes.length ≤ fuel' →
      basicPieces fuel bytes = basicPieces fuel' bytes from heq _ _ _ h le_rfl
  intro fuel
  induction fuel with
  | zero =>
    intro fuel' bytes hfuel hfuel'
    obtain rfl := List.eq_nil_of_length_eq_zero (Nat.le_zero.mp hfuel)
    cases fuel' <;> rfl
  | succ fuel ih =>
    intro fuel' bytes hfuel hfuel'
    cases bytes with
    | nil => cases fuel' <;> rfl
    | cons b bytes =>
      obtain ⟨fuel', rfl⟩ := Nat.exists_eq_succ_of_ne_zero
        (Nat.ne_of_gt ((Nat.succ_pos _).trans_le hfuel'))
      have hrest := basicFgets_rest hmax (List.cons_ne_nil b bytes)
      rw [basicPieces_succ fuel (List.cons_ne_nil b bytes),
        basicPieces_succ fuel' (List.cons_ne_nil b bytes), ih fuel' _ (by omega) (by omega)]

/-- A line of at most 1022 bytes is one piece. -/
theorem basicRead_line {line : CStr} (rest : List Byte) (hline : 0x0A#8 ∉ line)
    (hlen : line.length < basicLineMax - 1) :
    basicRead (line ++ 0x0A#8 :: rest) = (line ++ [0x0A#8]) :: basicRead rest := by
  have hfgets := basicFgets_line rest hline hlen
  obtain ⟨fuel, hfuel⟩ : ∃ fuel, (line ++ 0x0A#8 :: rest).length = fuel + 1 :=
    ⟨line.length + rest.length, by rw [List.length_append, List.length_cons]; omega⟩
  have hrest : rest.length ≤ fuel := by
    rw [List.length_append, List.length_cons] at hfuel
    omega
  have hne : line ++ 0x0A#8 :: rest ≠ [] :=
    List.append_ne_nil_of_right_ne_nil line (List.cons_ne_nil 0x0A#8 rest)
  rw [basicRead, hfuel, basicPieces_succ fuel hne, hfgets, basicPieces_fuel hrest]

/-- The longest line that is one piece, with a string. -/
def basicLongLine : CStr := 0x31#8 :: 0x22#8 :: List.replicate 1020 0x78#8

/-- Lines of this length one after the other. -/
theorem basicPieceLines_long (n : Nat) :
    basicPieceLines (List.replicate n (basicLongLine ++ [0x0A#8])).flatten =
      List.replicate n (1, 0x22#8 :: List.replicate 1020 0x78#8) := by
  have hlong : 0x0A#8 ∉ basicLongLine ∧ basicLongLine.length < basicLineMax - 1 ∧
      (basicParse (basicLongLine ++ [0x0A#8])).map basicStored =
        some (1, 0x22#8 :: List.replicate 1020 0x78#8) := by
    decide +kernel
  obtain ⟨hline, hlen, hparse⟩ := hlong
  obtain ⟨parsed, hparsed, hstored⟩ := Option.map_eq_some_iff.mp hparse
  induction n with
  | zero => rfl
  | succ n ih =>
    have hread := basicRead_line (List.replicate n (basicLongLine ++ [0x0A#8])).flatten hline hlen
    rw [List.replicate_succ, List.flatten_cons, List.append_assoc, List.singleton_append,
      basicPieceLines, hread, List.filterMap_cons_some hparsed, List.map_cons]
    exact congrArg₂ List.cons hstored ih

/-- Thirty-two of them overflow the buffer. -/
theorem tapFromBasic_overflow :
    tapFromBasic (some (List.replicate 32 (basicLongLine ++ [0x0A#8])).flatten) true true
      (cstr "long.bas") false = .outside := by
  have hlines := basicPieceLines_long 32
  have hmany : basicTaken 0 (List.replicate 32 (1, 0x22#8 :: List.replicate 1020 0x78#8)) =
        List.replicate 32 (1, 0x22#8 :: List.replicate 1020 0x78#8) ∧
      ¬basicSize (List.replicate 32 (1, 0x22#8 :: List.replicate 1020 0x78#8)) + 2 ≤
        basicMaxSize := by
    decide +kernel
  obtain ⟨htaken, hsize⟩ := hmany
  have hrun := tapFromBasic_eq (List.replicate 32 (basicLongLine ++ [0x0A#8])).flatten true
    (cstr "long.bas") false
  dsimp only at hrun
  rw [hrun, hlines, htaken, if_neg hsize]

/-- Line 0 is left out. -/
theorem tapFromBasic_line_zero :
    basicListing (cstr "0 CLS\n") = [(0, [0x94#8])] ∧
      tapFromBasic (some (cstr "0 CLS\n")) true true (cstr "zero.bas") false =
        .written (basicFileBytes (cstr "zero.bas") false [0x00#8, 0x00#8]) ∧
      ¬BasicWhole (cstr "0 CLS\n") (cstr "zero.bas") false
        (basicFileBytes (cstr "zero.bas") false [0x00#8, 0x00#8]) := by
  have hlisting : basicListing (cstr "0 CLS\n") = [(0, [0x94#8])] := by decide +kernel
  have htaken : basicTaken 0 (basicPieceLines (cstr "0 CLS\n")) = [] := by decide
  have hrun := tapFromBasic_eq (cstr "0 CLS\n") true (cstr "zero.bas") false
  dsimp only at hrun
  rw [htaken] at hrun
  refine ⟨hlisting, hrun, fun hwhole => ?_⟩
  have hlines := (basicWhole_iff (by simp) (by decide)).mp
    (show BasicWhole _ _ _ (basicFileBytes _ _ (basicProgram [])) from hwhole)
  rw [hlisting] at hlines
  cases hlines

/-- A listing of one line, on a tape. -/
theorem tapFromBasic_chain_cls :
    basicSize (basicListing (cstr "10 CLS\n")) + 2 ≤ basicMaxSize ∧
      ((∃ file, tapFromBasic (some (cstr "10 CLS\n")) true true (cstr "cls.bas") false =
        .written file ∧ BasicWhole (cstr "10 CLS\n") (cstr "cls.bas") false file) ↔
          BasicKept (cstr "10 CLS\n")) := by
  have hsize : basicSize (basicListing (cstr "10 CLS\n")) + 2 ≤ basicMaxSize := by decide +kernel
  exact ⟨hsize, tapFromBasic_chain _ _ false hsize⟩

end Phosphoric
