import Mathlib.Data.List.TakeWhile
import Phosphoric.Cpu.Legacy
import Phosphoric.Debugger.Condition

/-!
# The inline assembler and the disassembler

`dbg_assemble_one` reads back what `cpu_disassemble` prints: the addressing mode is guessed from
the shape of the operand and the number of its digits, the opcode is the first in the table with
that mnemonic and mode. Two things get lost. The first implied NOP of the table is not the
documented one, and the offset of a branch is not taken modulo 64 K.

**Theorem (`reassembles_iff`).** A documented instruction in RAM is assembled back exactly when it
is not NOP and, if it is a branch, its target does not wrap.
-/

namespace Phosphoric

open Function (update)

/-! ## Printing -/

/-- A digit of `%X`. -/
def hexUpper (n : Nat) : Byte :=
  if n < 10 then BitVec.ofNat 8 (0x30 + n) else BitVec.ofNat 8 (0x37 + n)

/-- `%02X`. -/
def hex2 (b : Byte) : CStr := [hexUpper (b.toNat / 16), hexUpper (b.toNat % 16)]

/-- `%04X`. -/
def hex4 (w : Word) : CStr := hex2 (Word.hi w) ++ hex2 (Word.lo w)

def addrModeFmt (mode : AddressingMode) (lo hi : Byte) : CStr :=
  let addr16 := Word.mk hi lo
  match mode with
  | .implicit => []
  | .accumulator => cstr "A"
  | .immediate => cstr "#$" ++ hex2 lo
  | .zeroPage => cstr "$" ++ hex2 lo
  | .zeroPageX => cstr "$" ++ hex2 lo ++ cstr ",X"
  | .zeroPageY => cstr "$" ++ hex2 lo ++ cstr ",Y"
  | .relative | .absolute => cstr "$" ++ hex4 addr16
  | .absoluteX => cstr "$" ++ hex4 addr16 ++ cstr ",X"
  | .absoluteY => cstr "$" ++ hex4 addr16 ++ cstr ",Y"
  | .indirect => cstr "($" ++ hex4 addr16 ++ cstr ")"
  | .indexedIndirect => cstr "($" ++ hex2 lo ++ cstr ",X)"
  | .indirectIndexed => cstr "($" ++ hex2 lo ++ cstr "),Y"

/-! ## Assembling -/

/-- `toupper`. -/
def asmUpper (c : Byte) : Byte := if 0x61#8 ≤ c ∧ c ≤ 0x7A#8 then c - 0x20#8 else c

/-- The first entry with the mnemonic and the mode. -/
def asmFindOpcode (mnem : CStr) (mode : AddressingMode) : Option Nat :=
  opcodeTableEntries.findIdx? fun info => info.mode == mode && strcaseEq (cstr info.name) mnem

def asmHasMode (mnem : CStr) (mode : AddressingMode) : Bool := (asmFindOpcode mnem mode).isSome

def isxdigit (c : Byte) : Bool := (digitOf 16 c).isSome

/-- The value, and whether it is written as a word. -/
def asmParseValue (tbl : SymbolTable) (s : CStr) : Option (Word × Bool) :=
  if s = [] then none
  else
    match symbolResolve tbl s with
    | some sv => some (sv, decide (sv > 0xFF#16))
    | none =>
      let p := if s.head? == some 0x24#8 then s.tail else s
      if p.isEmpty || !p.all isxdigit then none
      else
        match strtoul 16 p with
        | some v =>
          if v > 0xFFFF then none
          else some (BitVec.ofNat 16 v, decide (p.length > 2) || decide (v > 0xFF))
        | none => none

/-- What is assembled. -/
inductive AsmForm
  | branch (off : Int)
  | mode (mode : AddressingMode) (value : Word)
  deriving DecidableEq

/-- Without an operand, or with the accumulator for one. -/
def asmBare (mnem op : CStr) : Option AsmForm :=
  if op = [] ∧ asmHasMode mnem .implicit then some (.mode .implicit 0)
  else if asmHasMode mnem .accumulator then some (.mode .accumulator 0)
  else if asmHasMode mnem .implicit then some (.mode .implicit 0)
  else none

/-- The text between the parentheses, and the mode. -/
def asmInner (op : CStr) : Option (CStr × AddressingMode) :=
  let oi := op.length
  if 4 ≤ oi ∧ op.drop (oi - 3) = cstr ",X)" then
    some ((op.drop 1).take (oi - 4), .indexedIndirect)
  else if 4 ≤ oi ∧ op.drop (oi - 3) = cstr "),Y" then
    some ((op.drop 1).take (oi - 4), .indirectIndexed)
  else if op.getLast? = some 0x29#8 then some ((op.drop 1).take (oi - 2), .indirect)
  else none

/-- Plain and indexed operands. The operand of a branch is its target. -/
def asmPlain (tbl : SymbolTable) (addr : Word) (mnem op : CStr) : Option AsmForm :=
  let oi := op.length
  let idxX := 2 ≤ oi ∧ op.drop (oi - 2) = cstr ",X"
  let idxY := 2 ≤ oi ∧ op.drop (oi - 2) = cstr ",Y"
  match asmParseValue tbl (if idxX ∨ idxY then op.take (oi - 2) else op) with
  | none => none
  | some (value, isWord) =>
    let zp := decide (value ≤ 0xFF#16) && !isWord
    if idxX then
      some (.mode (if zp && asmHasMode mnem .zeroPageX then .zeroPageX else .absoluteX) value)
    else if idxY then
      some (.mode (if zp && asmHasMode mnem .zeroPageY then .zeroPageY else .absoluteY) value)
    else if asmHasMode mnem .relative then
      let off : Int := value.toNat - (addr.toNat + 2)
      if off < -128 ∨ off > 127 then none else some (.branch off)
    else some (.mode (if zp && asmHasMode mnem .zeroPage then .zeroPage else .absolute) value)

/-- The addressing mode of an operand, and its value. -/
def asmForm (tbl : SymbolTable) (addr : Word) (mnem op : CStr) : Option AsmForm :=
  if op = [] ∨ op = cstr "A" then asmBare mnem op
  else if op.head? = some 0x23#8 then
    match asmParseValue tbl op.tail with
    | some (value, _) => if value > 0xFF#16 then none else some (.mode .immediate value)
    | none => none
  else if op.head? = some 0x28#8 then
    match asmInner op with
    | some (inner, mode) => (asmParseValue tbl inner).map fun value => .mode mode value.1
    | none => none
  else asmPlain tbl addr mnem op

/-- The operand without its blanks, in upper case. -/
def asmOperand (operand : CStr) : CStr :=
  ((operand.filter fun c => !isspace c).take 39).map asmUpper

section Memory

variable {σ : Type} (io : MemoryIo σ) (loci : LociEmu σ)

/-- The length of the instruction, 0 on an error. -/
def dbgAssembleOne (tbl : SymbolTable) (addr : Word) (mnemIn operandIn : CStr)
    (sys : MemorySys σ) : Nat × MemorySys σ :=
  let mnem := (mnemIn.take 7).map asmUpper
  if mnem = [] then (0, sys)
  else
    match asmForm tbl addr mnem (asmOperand operandIn) with
    | none => (0, sys)
    | some (.branch off) =>
      let rb := BitVec.ofNat 8 ((asmFindOpcode mnem .relative).getD 0xFF)
      let sys := memoryWrite io loci addr rb sys
      (2, memoryWrite io loci (addr + 1#16) (BitVec.ofInt 8 off) sys)
    | some (.mode mode value) =>
      match asmFindOpcode mnem mode with
      | none => (0, sys)
      | some ob =>
        let size := (opcodeTable (BitVec.ofNat 8 ob)).size
        let sys := memoryWrite io loci addr (BitVec.ofNat 8 ob) sys
        let sys := if 2 ≤ size then memoryWrite io loci (addr + 1#16) (Word.lo value) sys else sys
        let sys := if 3 ≤ size then memoryWrite io loci (addr + 2#16) (Word.hi value) sys else sys
        (size, sys)

/-- `cpu_disassemble`: the length, the text and the memory after the reads. -/
def cpuDisassembleText (address : Word) (sys : MemorySys σ) : Nat × CStr × MemorySys σ :=
  let (opcode, sys) := memoryRead io loci address sys
  let info := opcodeTable opcode
  let (lo, sys) := if 2 ≤ info.size then memoryRead io loci (address + 1#16) sys else (0#8, sys)
  let (hi, sys) := if 3 ≤ info.size then memoryRead io loci (address + 2#16) sys else (0#8, sys)
  let target := address + 2#16 + lo.signExtend 16
  let operand :=
    if info.mode = .relative then addrModeFmt info.mode (Word.lo target) (Word.hi target)
    else addrModeFmt info.mode lo hi
  (info.size, cstr info.name ++ cstr " " ++ operand, sys)

end Memory

/-! ## Hexadecimal -/

/-- A character the assembler keeps as it is. -/
def AsmKept (c : Byte) : Prop := isspace c = false ∧ asmUpper c = c

instance (c : Byte) : Decidable (AsmKept c) := inferInstanceAs (Decidable (_ ∧ _))

theorem hexUpper_digit : ∀ n < 16, digitOf 16 (hexUpper n) = some n ∧ AsmKept (hexUpper n) ∧
    hexUpper n ≠ 0x2C#8 ∧ hexUpper n ≠ 0x28#8 ∧ hexUpper n ≠ 0x2D#8 ∧ hexUpper n ≠ 0x2B#8 ∧
    lowerAscii (hexUpper n) ≠ 0x78#8 := by
  decide

/-- The value of digits, the highest first. -/
def hexValue (ds : List Nat) : Nat := ds.foldl (fun n d => n * 16 + d) 0

theorem strtoul_hex {ds : List Nat} (hds : ∀ d ∈ ds, d < 16) (hne : ds ≠ [])
    (hsmall : hexValue ds < 2 ^ 64) : strtoul 16 (ds.map hexUpper) = some (hexValue ds) := by
  have hdigits : (((ds.map hexUpper).map (digitOf 16)).takeWhile Option.isSome).map
      (fun d => d.getD 0) = ds := by
    have hsome : (ds.map hexUpper).map (digitOf 16) = ds.map some := by
      rw [List.map_map]
      exact List.map_congr_left fun d hd => (hexUpper_digit d (hds d hd)).1
    rw [hsome, List.takeWhile_eq_self_iff.mpr (by simp), List.map_map]
    exact List.map_id' ds
  obtain ⟨d, rest, rfl⟩ := List.exists_cons_of_ne_nil hne
  have hhead := hexUpper_digit d (hds d List.mem_cons_self)
  have hskip : dbgSkipWs ((d :: rest).map hexUpper) = (d :: rest).map hexUpper :=
    List.dropWhile_cons_of_neg (by simp [hhead.2.1.1])
  have hneg : ((hexUpper d :: rest.map hexUpper).head? == some 0x2D#8) = false := by
    simp [hhead.2.2.2.2.1]
  have hplus : ((hexUpper d :: rest.map hexUpper).head? == some 0x2B#8) = false := by
    simp [hhead.2.2.2.2.2.1]
  unfold strtoul
  rw [hskip]
  simp only [List.map_cons, hneg, hplus, Bool.or_false, Bool.false_eq_true, if_false]
  rw [List.map_cons] at hdigits
  have hdone : (if ((((hexUpper d :: rest.map hexUpper).map (digitOf 16)).takeWhile
      Option.isSome).map fun d => d.getD 0).isEmpty = true then none
      else if 2 ^ 64 ≤ hexValue ((((hexUpper d :: rest.map hexUpper).map (digitOf 16)).takeWhile
        Option.isSome).map fun d => d.getD 0) then some (2 ^ 64 - 1)
      else some (hexValue ((((hexUpper d :: rest.map hexUpper).map (digitOf 16)).takeWhile
        Option.isSome).map fun d => d.getD 0))) = some (hexValue (d :: rest)) := by
    rw [hdigits, if_neg (by simp)]
    exact if_neg (Nat.not_le.mpr hsmall)
  split
  next x c rest' heq =>
    -- no digit is the x of a prefix
    have hmem : x ∈ rest.map hexUpper := by
      rw [(List.cons.inj heq).2]
      exact List.mem_cons_self
    obtain ⟨n, hn, rfl⟩ := List.mem_map.mp hmem
    have hx := (hexUpper_digit n (hds n (List.mem_cons_of_mem d hn))).2.2.2.2.2.2
    have hno : ¬ (16 == 16 && lowerAscii (hexUpper n) == 0x78#8 &&
        (digitOf 16 c).isSome) = true := by
      simp [hx]
    simp only [if_neg hno]
    exact hdone
  · exact hdone

theorem hex2_eq (b : Byte) : hex2 b = [b.toNat / 16, b.toNat % 16].map hexUpper := rfl

theorem hex4_eq (w : Word) : hex4 w = [(Word.hi w).toNat / 16, (Word.hi w).toNat % 16,
    (Word.lo w).toNat / 16, (Word.lo w).toNat % 16].map hexUpper := rfl

theorem hex2_value (b : Byte) : hexValue [b.toNat / 16, b.toNat % 16] = b.toNat := by
  simp only [hexValue, List.foldl_cons, List.foldl_nil]
  omega

theorem hex4_value (w : Word) : hexValue [(Word.hi w).toNat / 16, (Word.hi w).toNat % 16,
    (Word.lo w).toNat / 16, (Word.lo w).toNat % 16] = w.toNat := by
  simp only [hexValue, List.foldl_cons, List.foldl_nil, Word.toNat_hi, Word.toNat_lo]
  omega

/-- A number of up to four digits, with no symbols loaded. -/
theorem asmParseValue_hex {tbl : SymbolTable} (htbl : tbl.entries = []) {ds : List Nat}
    (hds : ∀ d ∈ ds, d < 16) (hne : ds ≠ []) (hsmall : hexValue ds ≤ 0xFFFF) :
    asmParseValue tbl (0x24#8 :: ds.map hexUpper) = some (BitVec.ofNat 16 (hexValue ds),
      decide (ds.length > 2) || decide (hexValue ds > 0xFF)) := by
  have hsymbol : ∀ s, symbolResolve tbl s = none := by
    intro s
    simp [symbolResolve, htbl]
  have hxdigits : (ds.map hexUpper).all isxdigit = true := by
    rw [List.all_eq_true]
    intro c hc
    obtain ⟨d, hd, rfl⟩ := List.mem_map.mp hc
    simp [isxdigit, (hexUpper_digit d (hds d hd)).1]
  simp only [asmParseValue, hsymbol, reduceCtorEq, if_false, List.head?_cons, beq_self_eq_true,
    if_true, List.tail_cons, hxdigits, strtoul_hex hds hne (by omega)]
  rw [if_neg (by simpa using hne), if_neg (by omega), List.length_map]

theorem asmParseValue_hex2 {tbl : SymbolTable} (htbl : tbl.entries = []) (b : Byte) :
    asmParseValue tbl (0x24#8 :: hex2 b) = some (b.setWidth 16, false) := by
  have hb := b.isLt
  rw [hex2_eq, asmParseValue_hex htbl (by simp; omega) (by simp) (by rw [hex2_value]; omega),
    hex2_value]
  simp [BitVec.ofNat_toNat]
  omega

theorem asmParseValue_hex4 {tbl : SymbolTable} (htbl : tbl.entries = []) (w : Word) :
    asmParseValue tbl (0x24#8 :: hex4 w) = some (w, true) := by
  have hw := w.isLt
  have hlo := (Word.lo w).isLt
  have hhi := (Word.hi w).isLt
  rw [hex4_eq, asmParseValue_hex htbl (by simp; omega) (by simp) (by rw [hex4_value]; omega),
    hex4_value]
  simp [BitVec.ofNat_toNat]

/-! ## Operands -/

theorem hex2_kept (b : Byte) : ∀ c ∈ hex2 b, AsmKept c := by
  have hb := b.isLt
  rw [hex2_eq]
  intro c hc
  obtain ⟨d, hd, rfl⟩ := List.mem_map.mp hc
  refine (hexUpper_digit d ?_).2.1
  simp only [List.mem_cons, List.not_mem_nil, or_false] at hd
  omega

theorem asmOperand_kept {text : CStr} (hlen : text.length ≤ 39) (hkept : ∀ c ∈ text, AsmKept c) :
    asmOperand text = text := by
  rw [asmOperand, List.filter_eq_self.mpr fun c hc => by simp [(hkept c hc).1],
    List.take_of_length_le hlen]
  exact (List.map_congr_left fun c hc => (hkept c hc).2).trans (List.map_id text)

/-- What is printed is made of digits and of characters the assembler keeps. -/
theorem asmOperand_fmt (mode : AddressingMode) (lo hi : Byte) :
    asmOperand (addrModeFmt mode lo hi) = addrModeFmt mode lo hi := by
  have hlo := hex2_kept lo
  have hword : ∀ c ∈ hex4 (Word.mk hi lo), AsmKept c := fun c hc =>
    (List.mem_append.mp hc).elim (hex2_kept _ c) (hex2_kept _ c)
  have hdollar : ∀ c ∈ cstr "$", AsmKept c := by decide
  have happ : ∀ {s t : CStr}, (∀ c ∈ s, AsmKept c) → (∀ c ∈ t, AsmKept c) →
      ∀ c ∈ s ++ t, AsmKept c := fun hs ht c hc =>
    (List.mem_append.mp hc).elim (hs c) (ht c)
  refine asmOperand_kept (by cases mode <;> exact Nat.le_of_ble_eq_true rfl) ?_
  cases mode with
  | implicit => exact fun c hc => nomatch hc
  | accumulator => exact (by decide : ∀ c ∈ cstr "A", AsmKept c)
  | immediate => exact happ (by decide) hlo
  | zeroPage => exact happ hdollar hlo
  | zeroPageX | zeroPageY => exact happ (happ hdollar hlo) (by decide)
  | relative | absolute => exact happ hdollar hword
  | absoluteX | absoluteY => exact happ (happ hdollar hword) (by decide)
  | indirect => exact happ (happ (by decide) hword) (by decide)
  | indexedIndirect | indirectIndexed => exact happ (happ (by decide) hlo) (by decide)

/-- What follows the number of an operand is its index. -/
theorem asmPlain_eq {tbl : SymbolTable} {addr : Word} {mnem op number index : CStr}
    {value : Word} {isWord : Bool} (hop : op = number ++ index)
    (hnumber : asmParseValue tbl number = some (value, isWord))
    (hindex : index = [] ∧ op.drop (op.length - 2) ≠ cstr ",X" ∧
        op.drop (op.length - 2) ≠ cstr ",Y" ∨ index = cstr ",X" ∨ index = cstr ",Y") :
    asmPlain tbl addr mnem op =
      (let zp := decide (value ≤ 0xFF#16) && !isWord
      if index = cstr ",X" then
        some (.mode (if zp && asmHasMode mnem .zeroPageX then .zeroPageX else .absoluteX) value)
      else if index = cstr ",Y" then
        some (.mode (if zp && asmHasMode mnem .zeroPageY then .zeroPageY else .absoluteY) value)
      else if asmHasMode mnem .relative then
        let off : Int := value.toNat - (addr.toNat + 2)
        if off < -128 ∨ off > 127 then none else some (.branch off)
      else
        some (.mode (if zp && asmHasMode mnem .zeroPage then .zeroPage else .absolute) value)) := by
  have hlast : index.length = 2 → op.drop (op.length - 2) = index ∧
      op.take (op.length - 2) = number ∧ 2 ≤ op.length := by
    intro hlen
    have hsub : op.length - 2 = number.length := by
      rw [hop, List.length_append, hlen, Nat.add_sub_cancel]
    rw [hsub, hop, List.drop_left, List.take_left, List.length_append, hlen]
    exact ⟨rfl, rfl, Nat.le_add_left _ _⟩
  have hne : cstr ",Y" ≠ cstr ",X" := by decide
  have hnil : ([] : CStr) ≠ cstr ",X" ∧ ([] : CStr) ≠ cstr ",Y" := by decide
  unfold asmPlain
  rcases hindex with ⟨rfl, hx, hy⟩ | rfl | rfl
  · obtain rfl : op = number := hop.trans (List.append_nil number)
    simp only [hx, hy, and_false, or_self, if_false, hnumber, hnil.1, hnil.2]
  · obtain ⟨hdrop, htake, hlen⟩ := hlast rfl
    simp only [hdrop, htake, hlen, true_and, true_or, if_true, hnumber]
  · obtain ⟨hdrop, htake, hlen⟩ := hlast rfl
    simp only [hdrop, htake, hlen, true_and, or_true, if_true, hnumber, hne, if_false]

/-- The value an operand is printed for. -/
def operandValue (mode : AddressingMode) (lo hi : Byte) : Word :=
  match mode with
  | .implicit | .accumulator => 0#16
  | .relative | .absolute | .absoluteX | .absoluteY | .indirect => Word.mk hi lo
  | _ => lo.setWidth 16

theorem hexUpper_ne {n : Nat} (hn : n < 16) (rest s : CStr) :
    hexUpper n :: rest ≠ 0x2C#8 :: s :=
  fun h => (hexUpper_digit n hn).2.2.1 (List.cons.inj h).1

/-- No index is seen in the last two digits of a number. -/
theorem hex2_index (b : Byte) : hex2 b ≠ cstr ",X" ∧ hex2 b ≠ cstr ",Y" := by
  have hb := b.isLt
  exact ⟨hexUpper_ne (by omega) _ _, hexUpper_ne (by omega) _ _⟩

/-- The text between the parentheses of an indirect operand. -/
theorem asmInner_eq (s : CStr) :
    asmInner (0x28#8 :: s ++ cstr ",X)") = some (s, .indexedIndirect) ∧
      asmInner (0x28#8 :: s ++ cstr "),Y") = some (s, .indirectIndexed) := by
  have htail : ∀ t : CStr, t.length = 3 →
      4 ≤ (0x28#8 :: s ++ t).length ∧
      (0x28#8 :: s ++ t).drop ((0x28#8 :: s ++ t).length - 3) = t ∧
      ((0x28#8 :: s ++ t).drop 1).take ((0x28#8 :: s ++ t).length - 4) = s := by
    intro t ht
    have hlen : (0x28#8 :: s ++ t).length = s.length + 4 := by simp [ht]
    have hcut : s.length + 4 - 3 = (0x28#8 :: s).length := rfl
    rw [hlen, hcut, List.drop_left]
    exact ⟨Nat.le_add_left _ _, rfl, List.take_left⟩
  obtain ⟨hlen, hdrop, htake⟩ := htail (cstr ",X)") rfl
  obtain ⟨hlen', hdrop', htake'⟩ := htail (cstr "),Y") rfl
  have hne : cstr "),Y" ≠ cstr ",X)" := by decide
  constructor
  · simp only [asmInner, hlen, hdrop, htake, true_and, if_true]
  · simp only [asmInner, hlen', hdrop', htake', hne, true_and, and_false, if_true, if_false]

theorem asmInner_word (w : Word) :
    asmInner (cstr "($" ++ hex4 w ++ cstr ")") = some (cstr "$" ++ hex4 w, .indirect) := by
  have hlo := (Word.lo w).isLt
  have hdrop : (cstr "($" ++ hex4 w ++ cstr ")").drop
      ((cstr "($" ++ hex4 w ++ cstr ")").length - 3) = hex2 (Word.lo w) ++ cstr ")" := rfl
  have hx : hex2 (Word.lo w) ++ cstr ")" ≠ cstr ",X)" := hexUpper_ne (by omega) _ _
  have hy : hex2 (Word.lo w) ++ cstr ")" ≠ cstr "),Y" := by
    intro h
    have hlast : some 0x29#8 = some 0x59#8 := congrArg List.getLast? h
    exact absurd hlast (by decide)
  simp only [asmInner, hdrop, hx, hy, and_false, if_false]
  rfl

/-- The shape of an operand shows in its first character. -/
theorem asmForm_cons (tbl : SymbolTable) (addr : Word) (mnem rest : CStr) {c : Byte}
    (hc : c ≠ 0x41#8) :
    asmForm tbl addr mnem (c :: rest) =
      if c = 0x23#8 then
        match asmParseValue tbl rest with
        | some (value, _) => if value > 0xFF#16 then none else some (.mode .immediate value)
        | none => none
      else if c = 0x28#8 then
        match asmInner (c :: rest) with
        | some (inner, mode) => (asmParseValue tbl inner).map fun value => .mode mode value.1
        | none => none
      else asmPlain tbl addr mnem (c :: rest) := by
  have hbare : ¬ (c :: rest = [] ∨ c :: rest = cstr "A") := by
    rintro (h | h)
    · cases h
    · exact hc (List.cons.inj h).1
  rw [asmForm, if_neg hbare]
  simp only [List.head?_cons, List.tail_cons, Option.some.injEq]

/-- The form of a printed operand, but for branches: its own mode, and its value. -/
theorem asmForm_fmt {tbl : SymbolTable} (htbl : tbl.entries = []) {mnem : CStr}
    {mode : AddressingMode} (hself : asmHasMode mnem mode = true)
    (hrel : asmHasMode mnem .relative = false) (addr : Word) (lo hi : Byte) :
    asmForm tbl addr mnem (addrModeFmt mode lo hi) =
      some (.mode mode (operandValue mode lo hi)) := by
  have hsmall : (lo.setWidth 16 : Word) ≤ 0xFF#16 := by
    have := lo.isLt
    rw [BitVec.le_def, BitVec.toNat_setWidth]
    simp
    omega
  have h2 := asmParseValue_hex2 htbl lo
  have h4 := asmParseValue_hex4 htbl (Word.mk hi lo)
  have hx : cstr ",Y" ≠ cstr ",X" := by decide
  have hnil : ([] : CStr) ≠ cstr ",X" ∧ ([] : CStr) ≠ cstr ",Y" := by decide
  have hplain : ∀ rest : CStr, asmForm tbl addr mnem (0x24#8 :: rest) =
      asmPlain tbl addr mnem (0x24#8 :: rest) := fun rest =>
    (asmForm_cons tbl addr mnem rest (by decide)).trans
      ((if_neg (by decide)).trans (if_neg (by decide)))
  have hparen : ∀ rest : CStr, asmForm tbl addr mnem (0x28#8 :: rest) =
      match asmInner (0x28#8 :: rest) with
      | some (inner, mode) => (asmParseValue tbl inner).map fun value => .mode mode value.1
      | none => none := fun rest =>
    (asmForm_cons tbl addr mnem rest (by decide)).trans
      ((if_neg (by decide)).trans (if_pos rfl))
  cases mode with
  | implicit =>
    exact (if_pos (.inl rfl)).trans (if_pos ⟨rfl, hself⟩)
  | accumulator =>
    exact (if_pos (.inr rfl)).trans ((if_neg fun h =>
      absurd h.1 (by decide : ¬ cstr "A" = [])).trans (if_pos hself))
  | immediate =>
    refine (@asmForm_cons tbl addr mnem (0x24#8 :: hex2 lo) 0x23#8 (by decide)).trans ?_
    rw [if_pos rfl, h2]
    exact if_neg (BitVec.not_lt.mpr hsmall)
  | zeroPage =>
    refine (hplain (hex2 lo)).trans ?_
    rw [asmPlain_eq (List.append_nil _).symm h2
      (.inl ⟨rfl, (hex2_index lo).1, (hex2_index lo).2⟩)]
    simp [hnil, hrel, hsmall, hself, operandValue]
  | zeroPageX =>
    refine (hplain (hex2 lo ++ cstr ",X")).trans ?_
    rw [@asmPlain_eq _ _ _ (0x24#8 :: (hex2 lo ++ cstr ",X")) (0x24#8 :: hex2 lo) (cstr ",X") _ _
      rfl h2 (.inr (.inl rfl))]
    simp [hsmall, hself, operandValue]
  | zeroPageY =>
    refine (hplain (hex2 lo ++ cstr ",Y")).trans ?_
    rw [@asmPlain_eq _ _ _ (0x24#8 :: (hex2 lo ++ cstr ",Y")) (0x24#8 :: hex2 lo) (cstr ",Y") _ _
      rfl h2 (.inr (.inr rfl))]
    simp [hx, hsmall, hself, operandValue]
  | relative => rw [hself] at hrel; cases hrel
  | absolute =>
    refine (hplain (hex4 (Word.mk hi lo))).trans ?_
    rw [asmPlain_eq (List.append_nil _).symm h4
      (.inl ⟨rfl, (hex2_index _).1, (hex2_index _).2⟩)]
    simp [hnil, hrel, operandValue]
  | absoluteX =>
    refine (hplain (hex4 (Word.mk hi lo) ++ cstr ",X")).trans ?_
    rw [@asmPlain_eq _ _ _ (0x24#8 :: (hex4 (Word.mk hi lo) ++ cstr ",X"))
      (0x24#8 :: hex4 (Word.mk hi lo)) (cstr ",X") _ _ rfl h4 (.inr (.inl rfl))]
    simp [operandValue]
  | absoluteY =>
    refine (hplain (hex4 (Word.mk hi lo) ++ cstr ",Y")).trans ?_
    rw [@asmPlain_eq _ _ _ (0x24#8 :: (hex4 (Word.mk hi lo) ++ cstr ",Y"))
      (0x24#8 :: hex4 (Word.mk hi lo)) (cstr ",Y") _ _ rfl h4 (.inr (.inr rfl))]
    simp [hx, operandValue]
  | indirect =>
    refine (hparen (cstr "$" ++ hex4 (Word.mk hi lo) ++ cstr ")")).trans ?_
    have hinner : asmInner (0x28#8 :: (cstr "$" ++ hex4 (Word.mk hi lo) ++ cstr ")")) =
        some (0x24#8 :: hex4 (Word.mk hi lo), .indirect) := asmInner_word (Word.mk hi lo)
    rw [hinner]
    exact congrArg (Option.map _) h4
  | indexedIndirect =>
    refine (hparen (0x24#8 :: hex2 lo ++ cstr ",X)")).trans ?_
    have hinner : asmInner (0x28#8 :: (0x24#8 :: hex2 lo ++ cstr ",X)")) =
        some (0x24#8 :: hex2 lo, .indexedIndirect) := (asmInner_eq (0x24#8 :: hex2 lo)).1
    rw [hinner]
    exact congrArg (Option.map _) h2
  | indirectIndexed =>
    refine (hparen (0x24#8 :: hex2 lo ++ cstr "),Y")).trans ?_
    have hinner : asmInner (0x28#8 :: (0x24#8 :: hex2 lo ++ cstr "),Y")) =
        some (0x24#8 :: hex2 lo, .indirectIndexed) := (asmInner_eq (0x24#8 :: hex2 lo)).2
    rw [hinner]
    exact congrArg (Option.map _) h2

/-- The operand of a branch is its target, the offset is not taken modulo 64 K. -/
theorem asmForm_branch {tbl : SymbolTable} (htbl : tbl.entries = []) {mnem : CStr}
    (hrel : asmHasMode mnem .relative = true) (addr target : Word) :
    asmForm tbl addr mnem (cstr "$" ++ hex4 target) =
      (let off : Int := target.toNat - (addr.toNat + 2)
      if off < -128 ∨ off > 127 then none else some (.branch off)) := by
  have hnil : ([] : CStr) ≠ cstr ",X" ∧ ([] : CStr) ≠ cstr ",Y" := by decide
  have hcons : asmForm tbl addr mnem (cstr "$" ++ hex4 target) =
      asmPlain tbl addr mnem (0x24#8 :: hex4 target) :=
    (@asmForm_cons tbl addr mnem (hex4 target) 0x24#8 (by decide)).trans
      ((if_neg (by decide)).trans (if_neg (by decide)))
  rw [hcons, asmPlain_eq (List.append_nil _).symm (asmParseValue_hex4 htbl target)
    (.inl ⟨rfl, (hex2_index _).1, (hex2_index _).2⟩)]
  simp only [hnil, hrel, if_true, if_false]

/-! ## The table -/

/-- The 151 opcodes of the 6502. -/
def documentedOpcodes : List Nat :=
  [0x00, 0x01, 0x05, 0x06, 0x08, 0x09, 0x0A, 0x0D, 0x0E, 0x10, 0x11, 0x15, 0x16, 0x18, 0x19, 0x1D,
    0x1E, 0x20, 0x21, 0x24, 0x25, 0x26, 0x28, 0x29, 0x2A, 0x2C, 0x2D, 0x2E, 0x30, 0x31, 0x35, 0x36,
    0x38, 0x39, 0x3D, 0x3E, 0x40, 0x41, 0x45, 0x46, 0x48, 0x49, 0x4A, 0x4C, 0x4D, 0x4E, 0x50, 0x51,
    0x55, 0x56, 0x58, 0x59, 0x5D, 0x5E, 0x60, 0x61, 0x65, 0x66, 0x68, 0x69, 0x6A, 0x6C, 0x6D, 0x6E,
    0x70, 0x71, 0x75, 0x76, 0x78, 0x79, 0x7D, 0x7E, 0x81, 0x84, 0x85, 0x86, 0x88, 0x8A, 0x8C, 0x8D,
    0x8E, 0x90, 0x91, 0x94, 0x95, 0x96, 0x98, 0x99, 0x9A, 0x9D, 0xA0, 0xA1, 0xA2, 0xA4, 0xA5, 0xA6,
    0xA8, 0xA9, 0xAA, 0xAC, 0xAD, 0xAE, 0xB0, 0xB1, 0xB4, 0xB5, 0xB6, 0xB8, 0xB9, 0xBA, 0xBC, 0xBD,
    0xBE, 0xC0, 0xC1, 0xC4, 0xC5, 0xC6, 0xC8, 0xC9, 0xCA, 0xCC, 0xCD, 0xCE, 0xD0, 0xD1, 0xD5, 0xD6,
    0xD8, 0xD9, 0xDD, 0xDE, 0xE0, 0xE1, 0xE4, 0xE5, 0xE6, 0xE8, 0xE9, 0xEA, 0xEC, 0xED, 0xEE, 0xF0,
    0xF1, 0xF5, 0xF6, 0xF8, 0xF9, 0xFD, 0xFE]

/-- The length of an instruction with the mode. -/
def AddressingMode.length : AddressingMode → Nat
  | .implicit | .accumulator => 1
  | .absolute | .absoluteX | .absoluteY | .indirect => 3
  | _ => 2

/-- Of the documented opcodes only NOP is not the first with its mnemonic and mode. -/
theorem documented_listed : documentedOpcodes.all (fun n =>
    let info := opcodeTable (BitVec.ofNat 8 n)
    let name := cstr info.name
    asmFindOpcode name info.mode == some (if n = 0xEA then 0x1A else n) &&
      (name.take 7).map asmUpper == name && name.all (· != 0x20#8) && name != [] &&
      (info.mode == .relative || !asmHasMode name .relative) &&
      info.size == info.mode.length) = true := by
  decide +kernel

/-- What the table has of an opcode. -/
structure Listed (op : Byte) : Prop where
  first : asmFindOpcode (cstr (opcodeTable op).name) (opcodeTable op).mode =
    some (if op = 0xEA#8 then 0x1A else op.toNat)
  upper : ((cstr (opcodeTable op).name).take 7).map asmUpper = cstr (opcodeTable op).name
  word : ∀ c ∈ cstr (opcodeTable op).name, c ≠ 0x20#8
  named : cstr (opcodeTable op).name ≠ []
  branch : (opcodeTable op).mode ≠ .relative →
    asmHasMode (cstr (opcodeTable op).name) .relative = false
  size : (opcodeTable op).size = (opcodeTable op).mode.length

theorem Listed.of_documented {op : Byte} (hop : op.toNat ∈ documentedOpcodes) : Listed op := by
  have hlisted := List.all_eq_true.mp documented_listed op.toNat hop
  simp only [BitVec.ofNat_toNat, BitVec.setWidth_eq, Bool.and_eq_true, Bool.or_eq_true,
    beq_iff_eq, bne_iff_ne, List.all_eq_true, Bool.not_eq_true'] at hlisted
  obtain ⟨⟨⟨⟨⟨hfirst, hupper⟩, hword⟩, hnamed⟩, hbranch⟩, hsize⟩ := hlisted
  refine ⟨hfirst.trans ?_, hupper, hword, hnamed, hbranch.resolve_left, hsize⟩
  have hnop : op.toNat = 0xEA ↔ op = 0xEA#8 := BitVec.toNat_inj (y := 0xEA#8)
  simp only [hnop]

/-! ## Instructions in RAM -/

/-- An address of the RAM. -/
def InRam (a : Word) : Prop := a < 0xC000#16 ∧ ¬ ioPage a

instance (a : Word) : Decidable (InRam a) := inferInstanceAs (Decidable (_ ∧ _))

/-- The byte read there. -/
def ramByte (mem : Memory) (a : Word) : Byte :=
  let val := mem.ram (ramIndex a)
  if mem.stuck0 ||| mem.stuck1 != 0#8 then (val &&& ~~~mem.stuck0) ||| mem.stuck1 else val

/-- The bytes of an instruction. -/
def instrBytes (mem : Memory) (addr : Word) (size : Nat) : List Byte :=
  (List.range size).map fun i => ramByte mem (addr + BitVec.ofNat 16 i)

variable {σ : Type} (io : MemoryIo σ) (loci : LociEmu σ)

/-- The instruction at `addr` is printed, and the mnemonic and the operand assembled there: the
length is its length, its bytes are written and no others. -/
def Reassembles (tbl : SymbolTable) (addr : Word) (sys : MemorySys σ) : Prop :=
  let (size, text, printed) := cpuDisassembleText io loci addr sys
  let mnem := text.takeWhile (· != 0x20#8)
  let (length, after) := dbgAssembleOne io loci tbl addr mnem (text.drop (mnem.length + 1)) printed
  length = size ∧
    (∀ i < size, after.ram (ramIndex (addr + BitVec.ofNat 16 i)) =
      ramByte sys.toMemory (addr + BitVec.ofNat 16 i)) ∧
    ∀ j, (∀ i < size, j ≠ ramIndex (addr + BitVec.ofNat 16 i)) → after.ram j = sys.ram j

/-- Bytes written one after the other. -/
def memoryWriteBytes (addr : Word) : List Byte → MemorySys σ → MemorySys σ
  | [], sys => sys
  | b :: bytes, sys => memoryWriteBytes (addr + 1#16) bytes (memoryWrite io loci addr b sys)

theorem memoryRead_ram {a : Word} (ha : InRam a) (sys : MemorySys σ) :
    memoryRead io loci a sys = memServe io a (ramByte sys.toMemory a) sys :=
  (memoryRead_outside io loci ha.2 sys).trans (if_pos ha.1)

/-- A read changes the latch and the traces. -/
theorem memServe_ram (a : Word) (val : Byte) (sys : MemorySys σ) :
    (memServe io a val sys).2.ram = sys.ram ∧
      ∀ b, ramByte (memServe io a val sys).2.toMemory b = ramByte sys.toMemory b := by
  simp only [memServe, memNotify, if_true]
  constructor
  · split_ifs <;> rfl
  · intro b
    split_ifs <;> rfl

theorem memoryWrite_ram {a : Word} (ha : InRam a) (val : Byte) (sys : MemorySys σ) :
    (memoryWrite io loci a val sys).ram = update sys.ram (ramIndex a) val := by
  have hram : (memNotify io a val .write sys).ram = sys.ram :=
    congrArg Memory.ram (memNotify_write io a val sys)
  simp only [memoryWrite, if_neg ha.2, if_pos ha.1, hram]

theorem ramIndex_inj {a b : Word} (ha : InRam a) (hb : InRam b) (h : ramIndex a = ramIndex b) :
    a = b := by
  have ha' : a.toNat < 0xC000 := ha.1
  have hb' : b.toNat < 0xC000 := hb.1
  have hval : a.toNat % 0xC000 = b.toNat % 0xC000 := congrArg Fin.val h
  rw [Nat.mod_eq_of_lt ha', Nat.mod_eq_of_lt hb'] at hval
  exact BitVec.eq_of_toNat_eq hval

theorem addr_add_succ (addr : Word) (i : Nat) :
    addr + BitVec.ofNat 16 (i + 1) = addr + 1#16 + BitVec.ofNat 16 i := by
  rw [BitVec.add_assoc, BitVec.ofNat_add, BitVec.add_comm (BitVec.ofNat 16 i)]

/-- What is written is there afterwards, and nothing else has changed. -/
theorem memoryWriteBytes_ram : ∀ (bytes : List Byte) {addr : Word} (sys : MemorySys σ),
    bytes.length ≤ 3 → (∀ i < bytes.length, InRam (addr + BitVec.ofNat 16 i)) →
    (∀ i b, bytes[i]? = some b →
      (memoryWriteBytes io loci addr bytes sys).ram (ramIndex (addr + BitVec.ofNat 16 i)) = b) ∧
    ∀ j, (∀ i < bytes.length, j ≠ ramIndex (addr + BitVec.ofNat 16 i)) →
      (memoryWriteBytes io loci addr bytes sys).ram j = sys.ram j := by
  intro bytes
  induction bytes with
  | nil =>
    intro addr sys _ _
    exact ⟨fun i b hb => (nomatch hb), fun j _ => rfl⟩
  | cons b bytes ih =>
    intro addr sys hlen hram
    rw [List.length_cons] at hlen hram
    have hzero : addr + BitVec.ofNat 16 0 = addr := BitVec.add_zero addr
    have haddr : InRam addr := by
      have := hram 0 (Nat.succ_pos _)
      rwa [hzero] at this
    have htail : ∀ i < bytes.length, InRam (addr + 1#16 + BitVec.ofNat 16 i) := by
      intro i hi
      rw [← addr_add_succ]
      exact hram (i + 1) (Nat.succ_lt_succ hi)
    obtain ⟨hwritten, hkept⟩ := ih (memoryWrite io loci addr b sys) (by omega) htail
    rw [memoryWrite_ram io loci haddr] at hkept
    constructor
    · intro i c hc
      cases i with
      | zero =>
        rw [List.getElem?_cons_zero, Option.some.injEq] at hc
        rw [hzero]
        refine (hkept _ fun i hi heq => ?_).trans ((Function.update_self ..).trans hc)
        -- the later addresses are others
        have hsame := congrArg BitVec.toNat (ramIndex_inj haddr (htail i hi) heq)
        rw [← addr_add_succ, BitVec.toNat_add, BitVec.toNat_ofNat] at hsame
        omega
      | succ i =>
        rw [addr_add_succ]
        exact hwritten i c hc
    · intro j hj
      have hne : j ≠ ramIndex addr := by
        have := hj 0 (Nat.succ_pos _)
        rwa [hzero] at this
      refine (hkept j fun i hi => ?_).trans (Function.update_of_ne hne ..)
      have := hj (i + 1) (Nat.succ_lt_succ hi)
      rwa [addr_add_succ] at this

/-! ## Printed and assembled -/

/-- The text printed for an opcode and its operand bytes. -/
def disasmText (addr : Word) (info : OpcodeInfo) (lo hi : Byte) : CStr :=
  let target := addr + 2#16 + lo.signExtend 16
  cstr info.name ++ cstr " " ++
    if info.mode = .relative then addrModeFmt info.mode (Word.lo target) (Word.hi target)
    else addrModeFmt info.mode lo hi

/-- The bytes after the opcode, those the instruction does not have 0. -/
def loByte (mem : Memory) (addr : Word) (size : Nat) : Byte :=
  if 2 ≤ size then ramByte mem (addr + 1#16) else 0#8

def hiByte (mem : Memory) (addr : Word) (size : Nat) : Byte :=
  if 3 ≤ size then ramByte mem (addr + 2#16) else 0#8

theorem memoryRead_optional {p : Prop} [Decidable p] {a : Word} (ha : p → InRam a)
    (sys : MemorySys σ) : ∃ sys' : MemorySys σ,
    (if p then memoryRead io loci a sys else (0#8, sys)) =
      (if p then ramByte sys.toMemory a else 0#8, sys') ∧
      sys'.ram = sys.ram ∧ ∀ b, ramByte sys'.toMemory b = ramByte sys.toMemory b := by
  by_cases hp : p
  · simp only [if_pos hp, memoryRead_ram io loci (ha hp)]
    exact ⟨_, rfl, memServe_ram io a _ sys⟩
  · simp only [if_neg hp]
    exact ⟨sys, rfl, rfl, fun b => rfl⟩

/-- Printing an instruction in RAM reads its bytes. -/
theorem cpuDisassembleText_ram {addr : Word} {sys : MemorySys σ}
    (hpos : 1 ≤ (opcodeTable (ramByte sys.toMemory addr)).size)
    (hram : ∀ i < (opcodeTable (ramByte sys.toMemory addr)).size,
      InRam (addr + BitVec.ofNat 16 i)) :
    ∃ printed : MemorySys σ, printed.ram = sys.ram ∧
      cpuDisassembleText io loci addr sys =
        let info := opcodeTable (ramByte sys.toMemory addr)
        (info.size, disasmText addr info (loByte sys.toMemory addr info.size)
          (hiByte sys.toMemory addr info.size), printed) := by
  have haddr : InRam addr := by
    have := hram 0 hpos
    rwa [BitVec.add_zero addr] at this
  generalize hinfo : opcodeTable (ramByte sys.toMemory addr) = info at hram hpos
  obtain ⟨hram₀, hbyte₀⟩ := memServe_ram io addr (ramByte sys.toMemory addr) sys
  obtain ⟨sys₁, hlo, hram₁, hbyte₁⟩ := memoryRead_optional io loci (p := 2 ≤ info.size)
    (a := addr + 1#16) (fun h => hram 1 h) (memServe io addr (ramByte sys.toMemory addr) sys).2
  obtain ⟨sys₂, hhi, hram₂, -⟩ := memoryRead_optional io loci (p := 3 ≤ info.size)
    (a := addr + 2#16) (fun h => hram 2 h) sys₁
  refine ⟨sys₂, hram₂.trans (hram₁.trans hram₀), ?_⟩
  simp only [hbyte₁, hbyte₀] at hlo hhi
  simp only [cpuDisassembleText, memoryRead_ram io loci haddr, memServe_fst, hinfo, hlo, hhi]
  rfl

/-- The mnemonic is the text up to the space, the operand is the rest. -/
theorem disasmText_split {op : Byte} (hop : Listed op) (operand : CStr) :
    let text := cstr (opcodeTable op).name ++ cstr " " ++ operand
    text.takeWhile (· != 0x20#8) = cstr (opcodeTable op).name ∧
      text.drop ((cstr (opcodeTable op).name).length + 1) = operand := by
  have hall : (cstr (opcodeTable op).name).takeWhile (· != 0x20#8) =
      cstr (opcodeTable op).name :=
    List.takeWhile_eq_self_iff.mpr fun c hc => bne_iff_ne.mpr (hop.word c hc)
  constructor
  · rw [List.append_assoc, List.takeWhile_append, hall, if_pos rfl]
    exact List.append_nil _
  · have hcut : (cstr (opcodeTable op).name).length + 1 =
        (cstr (opcodeTable op).name ++ cstr " ").length :=
      (@List.length_append _ _ (cstr " ")).symm
    rw [hcut, List.drop_left]

/-- An instruction is assembled to an opcode and its operand bytes. -/
theorem dbgAssembleOne_mode {tbl : SymbolTable} {addr value : Word} {mnem operand : CStr}
    {mode : AddressingMode} {ob : Nat} (hupper : (mnem.take 7).map asmUpper = mnem)
    (hnamed : mnem ≠ [])
    (hform : asmForm tbl addr mnem (asmOperand operand) = some (.mode mode value))
    (hfind : asmFindOpcode mnem mode = some ob)
    (hsize : (opcodeTable (BitVec.ofNat 8 ob)).size = mode.length) (sys : MemorySys σ) :
    dbgAssembleOne io loci tbl addr mnem operand sys =
      (mode.length, memoryWriteBytes io loci addr
        ([BitVec.ofNat 8 ob, Word.lo value, Word.hi value].take mode.length) sys) := by
  have htwo : addr + 1#16 + 1#16 = addr + 2#16 := BitVec.add_assoc addr 1#16 1#16
  simp only [dbgAssembleOne, hupper, if_neg hnamed, hform, hfind, hsize]
  cases mode <;> simp [AddressingMode.length, memoryWriteBytes, htwo]

/-- The length, and the bytes, decide. -/
theorem reassembles_bytes {tbl : SymbolTable} {addr : Word} {sys printed : MemorySys σ}
    {size : Nat} {text : CStr} {bytes : List Byte} (hlen : bytes.length = size) (hsize : size ≤ 3)
    (hram : ∀ i < size, InRam (addr + BitVec.ofNat 16 i))
    (htext : cpuDisassembleText io loci addr sys = (size, text, printed))
    (hprinted : printed.ram = sys.ram)
    (hasm : dbgAssembleOne io loci tbl addr (text.takeWhile (· != 0x20#8))
      (text.drop ((text.takeWhile (· != 0x20#8)).length + 1)) printed =
        (size, memoryWriteBytes io loci addr bytes printed)) :
    Reassembles io loci tbl addr sys ↔ bytes = instrBytes sys.toMemory addr size := by
  subst hlen
  obtain ⟨hwritten, hkept⟩ := memoryWriteBytes_ram io loci bytes printed hsize hram
  have hbytes : instrBytes sys.toMemory addr bytes.length =
      (List.range bytes.length).map fun i => ramByte sys.toMemory (addr + BitVec.ofNat 16 i) := rfl
  simp only [Reassembles, htext, hasm, true_and, ← hprinted]
  constructor
  · rintro ⟨hsame, -⟩
    refine List.ext_getElem (by simp [hbytes]) fun i hi _ => ?_
    have hb := hwritten i bytes[i] (List.getElem?_eq_getElem hi)
    simp only [hbytes, List.getElem_map, List.getElem_range]
    exact hb.symm.trans (hsame i hi)
  · intro hsame
    refine ⟨fun i hi => hwritten i _ ?_, hkept⟩
    rw [hsame, hbytes, List.getElem?_map, List.getElem?_range hi]
    rfl

/-- The operand bytes of what is printed are those of the instruction. -/
theorem take_operand_iff {mode : AddressingMode} (hrel : mode ≠ .relative) (mem : Memory)
    (addr : Word) (ob : Byte) :
    (let value := operandValue mode (loByte mem addr mode.length) (hiByte mem addr mode.length)
    [ob, Word.lo value, Word.hi value].take mode.length = instrBytes mem addr mode.length) ↔
      ob = ramByte mem addr := by
  have hone : instrBytes mem addr 1 = [ramByte mem addr] := by
    simp [instrBytes, List.range_succ]
  have htwo : instrBytes mem addr 2 = [ramByte mem addr, ramByte mem (addr + 1#16)] := by
    simp [instrBytes, List.range_succ]
  have hthree : instrBytes mem addr 3 =
      [ramByte mem addr, ramByte mem (addr + 1#16), ramByte mem (addr + 2#16)] := by
    simp [instrBytes, List.range_succ]
  have hlo : Word.lo ((ramByte mem (addr + 1#16)).setWidth 16) = ramByte mem (addr + 1#16) := by
    simp [Word.lo]
  cases mode with
  | relative => exact absurd rfl hrel
  | implicit | accumulator => simp [AddressingMode.length, hone]
  | absolute | absoluteX | absoluteY | indirect =>
    simp [AddressingMode.length, hthree, operandValue, loByte, hiByte]
  | _ => simp [AddressingMode.length, htwo, operandValue, loByte, hlo]

/-- An instruction that is no branch is written back unless it is NOP. -/
theorem reassembles_mode {tbl : SymbolTable} (htbl : tbl.entries = []) {addr : Word}
    {sys : MemorySys σ} (hop : Listed (ramByte sys.toMemory addr))
    (hrel : (opcodeTable (ramByte sys.toMemory addr)).mode ≠ .relative)
    (hram : ∀ i < (opcodeTable (ramByte sys.toMemory addr)).size,
      InRam (addr + BitVec.ofNat 16 i)) :
    Reassembles io loci tbl addr sys ↔ ramByte sys.toMemory addr ≠ 0xEA#8 := by
  generalize hbyte : ramByte sys.toMemory addr = op at hop hrel hram
  have hself : asmHasMode (cstr (opcodeTable op).name) (opcodeTable op).mode = true := by
    rw [asmHasMode, hop.first]
    rfl
  have hsize := hop.size
  have hpos : 1 ≤ (opcodeTable op).size := by
    rw [hsize]
    cases (opcodeTable op).mode <;> decide
  have hthree : (opcodeTable op).size ≤ 3 := by
    rw [hsize]
    cases (opcodeTable op).mode <;> decide
  obtain ⟨printed, hprinted, htext⟩ := cpuDisassembleText_ram io loci (hbyte.symm ▸ hpos)
    (hbyte.symm ▸ hram)
  simp only [hbyte] at htext
  set lo := loByte sys.toMemory addr (opcodeTable op).size with hlo
  set hi := hiByte sys.toMemory addr (opcodeTable op).size with hhi
  obtain ⟨hmnem, hoperand⟩ := disasmText_split hop (addrModeFmt (opcodeTable op).mode lo hi)
  have hdisasm : disasmText addr (opcodeTable op) lo hi =
      cstr (opcodeTable op).name ++ cstr " " ++ addrModeFmt (opcodeTable op).mode lo hi := by
    simp only [disasmText, if_neg hrel]
  have hform : asmForm tbl addr (cstr (opcodeTable op).name)
      (asmOperand (addrModeFmt (opcodeTable op).mode lo hi)) =
        some (.mode (opcodeTable op).mode (operandValue (opcodeTable op).mode lo hi)) := by
    rw [asmOperand_fmt]
    exact asmForm_fmt htbl hself (hop.branch hrel) addr lo hi
  -- the opcode found has the same length
  have hfound : (opcodeTable (BitVec.ofNat 8 (if op = 0xEA#8 then 0x1A else op.toNat))).size =
      (opcodeTable op).mode.length := by
    split
    next h => rw [h]; rfl
    next => rw [BitVec.ofNat_toNat, BitVec.setWidth_eq, hsize]
  have hasm := dbgAssembleOne_mode io loci hop.upper hop.named hform hop.first hfound printed
  rw [hdisasm] at htext
  have hlen : ([BitVec.ofNat 8 (if op = 0xEA#8 then 0x1A else op.toNat),
      Word.lo (operandValue (opcodeTable op).mode lo hi),
      Word.hi (operandValue (opcodeTable op).mode lo hi)].take
        (opcodeTable op).mode.length).length = (opcodeTable op).size := by
    rw [List.length_take, hsize]
    exact Nat.min_eq_left (hsize ▸ hthree)
  rw [reassembles_bytes io loci hlen hthree hram htext hprinted
    (by rw [hmnem, hoperand, hasm, hsize]), hlo, hhi, hsize,
    take_operand_iff hrel sys.toMemory addr, hbyte]
  split
  next h => simp [h]
  next h => simp [h, BitVec.ofNat_toNat]

/-- The target of a branch, modulo 64 K. -/
theorem branchTarget (addr : Word) (lo : Byte) :
    ((addr + 2#16 + lo.signExtend 16).toNat : Int) = (addr.toNat + 2 + lo.toInt) % 0x10000 := by
  have haddr := addr.isLt
  have hoff : ((lo.signExtend 16).toNat : Int) = lo.toInt % 0x10000 := by
    rw [BitVec.signExtend, BitVec.toNat_ofInt]
    exact Int.toNat_of_nonneg (Int.emod_nonneg _ (by decide))
  rw [BitVec.toNat_add, BitVec.toNat_add]
  push_cast
  rw [hoff]
  simp

/-- A branch is written back unless its target lies before address 0. -/
theorem reassembles_branch {tbl : SymbolTable} (htbl : tbl.entries = []) {addr : Word}
    {sys : MemorySys σ} (hop : Listed (ramByte sys.toMemory addr))
    (hrel : (opcodeTable (ramByte sys.toMemory addr)).mode = .relative)
    (hram : ∀ i < (opcodeTable (ramByte sys.toMemory addr)).size,
      InRam (addr + BitVec.ofNat 16 i)) :
    Reassembles io loci tbl addr sys ↔
      0 ≤ (addr.toNat : Int) + 2 + (ramByte sys.toMemory (addr + 1#16)).toInt := by
  generalize hbyte : ramByte sys.toMemory addr = op at hop hrel hram
  have hself : asmHasMode (cstr (opcodeTable op).name) .relative = true := by
    rw [asmHasMode, ← hrel, hop.first]
    rfl
  have hsize : (opcodeTable op).size = 2 := by
    rw [hop.size, hrel]
    rfl
  obtain ⟨printed, hprinted, htext⟩ := cpuDisassembleText_ram io loci
    (hbyte.symm ▸ hsize.symm ▸ Nat.le_succ 1) (hbyte.symm ▸ hram)
  simp only [hbyte, hsize] at htext
  have hlo : loByte sys.toMemory addr 2 = ramByte sys.toMemory (addr + 1#16) := rfl
  rw [hlo] at htext
  have haddr : addr.toNat < 0xC000 := by
    have := (hram 0 (hsize ▸ Nat.succ_pos 1)).1
    rwa [BitVec.add_zero addr] at this
  rw [hsize] at hram
  generalize hlo' : ramByte sys.toMemory (addr + 1#16) = lo at htext hlo
  have htarget := branchTarget addr lo
  have hmin : -128 ≤ lo.toInt := BitVec.le_toInt lo
  have hmax : lo.toInt < 128 := BitVec.toInt_lt
  set target := addr + 2#16 + lo.signExtend 16 with htargetDef
  have hdisasm : ∀ hi, disasmText addr (opcodeTable op) lo hi =
      cstr (opcodeTable op).name ++ cstr " " ++ (cstr "$" ++ hex4 target) := by
    intro hi
    simp only [disasmText, hrel, if_true, addrModeFmt, ← htargetDef, Word.mk_hi_lo]
  obtain ⟨hmnem, hoperand⟩ := disasmText_split hop (cstr "$" ++ hex4 target)
  have hkept : asmOperand (cstr "$" ++ hex4 target) = cstr "$" ++ hex4 target := by
    have := asmOperand_fmt .relative (Word.lo target) (Word.hi target)
    rwa [addrModeFmt, Word.mk_hi_lo] at this
  have hform := asmForm_branch htbl hself addr target
  rw [hdisasm] at htext
  by_cases hwrap : 0 ≤ (addr.toNat : Int) + 2 + lo.toInt
  · -- the offset is the operand byte
    have hoff : (target.toNat : Int) - (addr.toNat + 2) = lo.toInt := by omega
    rw [hoff] at hform
    have hrange : ¬ (lo.toInt < -128 ∨ lo.toInt > 127) := by omega
    simp only [if_neg hrange] at hform
    have hnop : op ≠ 0xEA#8 := by
      rintro rfl
      exact absurd hrel (by decide)
    have hfind : asmFindOpcode (cstr (opcodeTable op).name) .relative = some op.toNat := by
      rw [← hrel, hop.first, if_neg hnop]
    have hasm : dbgAssembleOne io loci tbl addr (cstr (opcodeTable op).name)
        (cstr "$" ++ hex4 target) printed =
          (2, memoryWriteBytes io loci addr [op, lo] printed) := by
      simp only [dbgAssembleOne, hop.upper, if_neg hop.named, hkept, hform, hfind,
        Option.getD_some, BitVec.ofNat_toNat, BitVec.setWidth_eq, BitVec.ofInt_toInt,
        memoryWriteBytes]
    have hbytes : instrBytes sys.toMemory addr 2 = [op, lo] := by
      simp [instrBytes, List.range_succ, hbyte, hlo']
    have hlen : [op, lo].length = 2 := rfl
    rw [reassembles_bytes io loci hlen (Nat.le_succ 2) hram htext hprinted
      (by rw [hmnem, hoperand, hasm]), hbytes]
    exact iff_of_true rfl hwrap
  · -- the offset is out of range
    have hoff : (target.toNat : Int) - (addr.toNat + 2) > 127 := by omega
    simp only [hoff, or_true, if_true] at hform
    have hasm : dbgAssembleOne io loci tbl addr (cstr (opcodeTable op).name)
        (cstr "$" ++ hex4 target) printed = (0, printed) := by
      simp only [dbgAssembleOne, hop.upper, if_neg hop.named, hkept, hform]
    simp only [hwrap, iff_false]
    intro hback
    simp only [Reassembles, htext, hmnem, hoperand, hasm] at hback
    exact absurd hback.1 (by decide)

/-- The documented instructions written back as they were. -/
theorem reassembles_iff {tbl : SymbolTable} (htbl : tbl.entries = []) {addr : Word}
    {sys : MemorySys σ} (hdoc : (ramByte sys.toMemory addr).toNat ∈ documentedOpcodes)
    (hram : ∀ i < (opcodeTable (ramByte sys.toMemory addr)).size,
      InRam (addr + BitVec.ofNat 16 i)) :
    Reassembles io loci tbl addr sys ↔
      ramByte sys.toMemory addr ≠ 0xEA#8 ∧
        ((opcodeTable (ramByte sys.toMemory addr)).mode = .relative →
          0 ≤ (addr.toNat : Int) + 2 + (ramByte sys.toMemory (addr + 1#16)).toInt) := by
  have hop := Listed.of_documented hdoc
  by_cases hrel : (opcodeTable (ramByte sys.toMemory addr)).mode = .relative
  · have hnop : ramByte sys.toMemory addr ≠ 0xEA#8 := by
      intro h
      rw [h] at hrel
      exact absurd hrel (by decide)
    rw [reassembles_branch io loci htbl hop hrel hram]
    exact ⟨fun h => ⟨hnop, fun _ => h⟩, fun h => h.2 hrel⟩
  · rw [reassembles_mode io loci htbl hop hrel hram]
    exact ⟨fun h => ⟨h, fun hmode => absurd hmode hrel⟩, fun h => h.1⟩

/-- RAM with one byte all over. -/
def assemblerFilled (b : Byte) : MemorySys Unit := { memoryShortOverlay with ram := fun _ => b }

def noSymbols : SymbolTable := ⟨[], fun _ => false⟩

/-- `BPL $0412` at `$0400`. -/
theorem reassembles_bpl :
    Reassembles memoryIoNone (lociEmuStub Unit) noSymbols 0x0400#16 (assemblerFilled 0x10#8) := by
  have hbyte : ramByte (assemblerFilled 0x10#8).toMemory 0x0400#16 = 0x10#8 := rfl
  refine (reassembles_iff memoryIoNone (lociEmuStub Unit) rfl ?_ ?_).mpr ?_
  · rw [hbyte]
    decide
  · rw [hbyte]
    decide
  · rw [hbyte]
    decide

/-- A NOP at `$0400` is assembled to `$1A`; `BCC $FF92` at `$0000` is refused. -/
theorem not_reassembles_nop_bcc :
    ¬ Reassembles memoryIoNone (lociEmuStub Unit) noSymbols 0x0400#16 (assemblerFilled 0xEA#8) ∧
      ¬ Reassembles memoryIoNone (lociEmuStub Unit) noSymbols 0x0000#16
        (assemblerFilled 0x90#8) := by
  have hnop : ramByte (assemblerFilled 0xEA#8).toMemory 0x0400#16 = 0xEA#8 := rfl
  have hbcc : ramByte (assemblerFilled 0x90#8).toMemory 0x0000#16 = 0x90#8 := rfl
  have hlisted : Listed 0xEA#8 ∧ Listed 0x90#8 :=
    ⟨.of_documented (by decide), .of_documented (by decide)⟩
  constructor
  · rw [reassembles_mode memoryIoNone (lociEmuStub Unit) rfl (hnop.symm ▸ hlisted.1)
      (hnop.symm ▸ by decide) (hnop.symm ▸ by decide)]
    exact fun h => h hnop
  · rw [reassembles_branch memoryIoNone (lociEmuStub Unit) rfl (hbcc.symm ▸ hlisted.2)
      (hbcc.symm ▸ by decide) (hbcc.symm ▸ by decide)]
    decide

end Phosphoric
