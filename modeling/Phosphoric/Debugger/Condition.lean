import Phosphoric.Cards.Argv
import Phosphoric.Cpu.Core
import Phosphoric.Memory.Peek

/-!
# Breakpoint conditions

A condition is up to four comparisons of a register or of a byte of memory with a number, joined
by `&&` and `||` (`src/debugger.c`). The text is parsed once, when the breakpoint is set, and the
terms are evaluated at each stop. Memory is read with `memory_peek`, which some devices notice, so
evaluation threads the memory.

**Specification** (`BpCondexpr.holds`). The truth values of the terms, joined from the left without
precedence.

**Theorem (`evalCondexpr_fst`).** The loop of `eval_condexpr` answers as specified.
-/

namespace Phosphoric

/-! ## The machine as the debugger sees it -/

/-- An entry of `symbol_table_t`. -/
structure Symbol where
  name : CStr
  addr : Word
  group : Byte

/-- `symbol_table_t`. -/
structure SymbolTable where
  entries : List Symbol
  groupDisabled : Byte → Bool

/-- `emulator_t`, as far as conditions look at it. -/
structure DebugTarget (σ : Type) where
  cpu : CpuRegs
  pc : Word
  memory : MemorySys σ

/-! ## Numbers and symbols -/

def isspace (b : Byte) : Bool := b == 0x20#8 || (0x09#8 ≤ b && b ≤ 0x0D#8)

def isalnum (b : Byte) : Bool :=
  (0x30#8 ≤ b && b ≤ 0x39#8) || (0x61#8 ≤ lowerAscii b && lowerAscii b ≤ 0x7A#8)

/-- `dbg_skip_ws`. -/
def dbgSkipWs (s : CStr) : CStr := s.dropWhile isspace

/-- What follows a word, where the text starts with it. -/
def afterWord (word s : CStr) : Option CStr :=
  if word.isPrefixOf s then some (s.drop word.length) else none

/-- The digit a character is, up to base 16. -/
def digitOf (base : Nat) (b : Byte) : Option Nat :=
  let d := if 0x30#8 ≤ b ∧ b ≤ 0x39#8 then b.toNat - 0x30
    else if 0x61#8 ≤ lowerAscii b ∧ lowerAscii b ≤ 0x66#8 then (lowerAscii b).toNat - 0x61 + 10
    else base
  if d < base then some d else none

/-- `strtoul(s, &end, base)`; `none` where `end == s`. -/
def strtoul (base : Nat) (s : CStr) : Option Nat :=
  let s := dbgSkipWs s
  let neg := s.head? == some 0x2D#8
  let s := if neg || s.head? == some 0x2B#8 then s.tail else s
  let s :=
    match s with
    | 0x30#8 :: x :: d :: rest =>
      if base == 16 && lowerAscii x == 0x78#8 && (digitOf 16 d).isSome then d :: rest else s
    | _ => s
  let digits := ((s.map (digitOf base)).takeWhile Option.isSome).map fun d => d.getD 0
  let n := digits.foldl (fun n d => n * base + d) 0
  if digits.isEmpty then none
  else if 2 ^ 64 ≤ n then some (2 ^ 64 - 1)
  else if neg then some ((2 ^ 64 - n) % 2 ^ 64)
  else some n

/-- `symbol_resolve`. -/
def symbolResolve (tbl : SymbolTable) (name : CStr) : Option Word :=
  if name = [] then none
  else
    let name := if name.head? == some 0x2E#8 || name.head? == some 0x5F#8 then name.tail else name
    (tbl.entries.find? fun e => !tbl.groupDisabled e.group && strcaseEq e.name name).map Symbol.addr

/-- The text after a `$` or `0x`, or after a `%`, and its base. -/
def numBase (default : Nat) (s : CStr) : Nat × CStr :=
  match afterWord (cstr "$") s, afterWord (cstr "0x") s <|> afterWord (cstr "0X") s,
    afterWord (cstr "%") s with
  | some rest, _, _ => (16, rest)
  | none, some rest, _ => (16, rest)
  | none, none, some rest => (2, rest)
  | none, none, none => (default, s)

/-- `dbg_parse_addr`: a symbol, else a number, in hexadecimal by default. -/
def dbgParseAddr (tbl : SymbolTable) (s : CStr) : Option Word :=
  if s = [] then none
  else match symbolResolve tbl s with
  | some addr => some addr
  | none =>
    let (base, digits) := numBase 16 s
    match strtoul base digits with
    | some v => if v ≤ 0xFFFF then some (.ofNat 16 v) else none
    | none => none

/-- `parse_num_literal`: decimal by default. -/
def parseNumLiteral (s : CStr) : Option (BitVec 32) :=
  let (base, digits) := numBase 10 s
  (strtoul base digits).map (BitVec.ofNat 32)

/-! ## Conditions -/

/-- `bp_operand_t`, of a parsed condition. -/
inductive BpOperand
  | a | x | y | sp | p | pc | mem
  deriving DecidableEq, Repr

/-- `bp_op_t`. -/
inductive BpOp
  | eq | ne | lt | le | gt | ge
  deriving DecidableEq, Repr

/-- `bp_conn_t`. -/
inductive BpConn
  | and | or
  deriving DecidableEq, Repr

/-- `bp_condition_t`. -/
structure BpCondition where
  operand : BpOperand
  /-- For the operand `mem`. -/
  memAddr : Word
  op : BpOp
  value : BitVec 32
  deriving DecidableEq, Repr

/-- `BP_MAX_TERMS`. -/
abbrev bpMaxTerms : Nat := 4

/-- `bp_condexpr_t`, as parsed: a term, and each further one with the connector before it. -/
structure BpCondexpr where
  first : BpCondition
  rest : List (BpConn × BpCondition)
  size : rest.length ≤ bpMaxTerms - 1
  deriving DecidableEq

/-! ## Parsing -/

/-- `sizeof(buf) - 1` of the buffers for an address and for a number. -/
abbrev bpTokenMax : Nat := 47

/-- The operand of a comparison, with its address. -/
def parseOperand (tbl : SymbolTable) (p : CStr) : Option (BpOperand × Word × CStr) :=
  let reg (name : CStr) (operand : BpOperand) : Option (BpOperand × Word × CStr) :=
    match afterWord name p with
    | some rest => if (rest.head?.map isalnum).getD false then none else some (operand, 0#16, rest)
    | none => none
  match afterWord (cstr "M[") p with
  | some a =>
    let addr := (a.take bpTokenMax).takeWhile (· != 0x5D#8)
    match a.drop addr.length with
    | 0x5D#8 :: rest => (dbgParseAddr tbl addr).map fun w => (.mem, w, rest)
    | _ => none
  | none =>
    reg (cstr "PC") .pc <|> reg (cstr "SP") .sp <|> reg (cstr "A") .a <|> reg (cstr "X") .x <|>
      reg (cstr "Y") .y <|> reg (cstr "P") .p

def parseOperator (p : CStr) : Option (BpOp × CStr) :=
  let op (word : CStr) (op : BpOp) : Option (BpOp × CStr) := (afterWord word p).map (op, ·)
  op (cstr "==") .eq <|> op (cstr "!=") .ne <|> op (cstr "<=") .le <|> op (cstr ">=") .ge <|>
    op (cstr "<") .lt <|> op (cstr ">") .gt

/-- The number on the right: a symbol, bare hexadecimal digits with a letter among them, or a
literal. -/
def parseRhs (tbl : SymbolTable) (rhs : CStr) : Option (BitVec 32) :=
  match symbolResolve tbl rhs with
  | some v16 => some (v16.setWidth 32)
  | none =>
    if (numBase 10 rhs).1 = 10 ∧ rhs.any fun b => 0x61#8 ≤ lowerAscii b && lowerAscii b ≤ 0x66#8 then
      (strtoul 16 rhs).map (BitVec.ofNat 32)
    else parseNumLiteral rhs

/-- `parse_one_cond`: a comparison and the text after it. -/
def parseOneCond (tbl : SymbolTable) (text : CStr) : Option (BpCondition × CStr) := do
  let (operand, memAddr, p) ← parseOperand tbl (dbgSkipWs text)
  let (op, p) ← parseOperator (dbgSkipWs p)
  let p := dbgSkipWs p
  let rhs := (p.take bpTokenMax).takeWhile fun b => !isspace b && b != 0x26#8 && b != 0x7C#8
  if rhs = [] then none
  else
    let value ← parseRhs tbl rhs
    some ({ operand, memAddr, op, value }, p.drop rhs.length)

/-- The connector a text starts with. -/
def parseConn (p : CStr) : Option (BpConn × CStr) :=
  (afterWord (cstr "&&") p).map (.and, ·) <|> (afterWord (cstr "||") p).map (.or, ·)

/-- The loop of `dbg_parse_condexpr` after a term, with room for `n` more. -/
def parseTerms (tbl : SymbolTable) :
    (n : Nat) → CStr → Option { rest : List (BpConn × BpCondition) // rest.length ≤ n }
  | _, [] => some ⟨[], Nat.zero_le _⟩
  | 0, _ => none
  | n + 1, p => do
    let (conn, p) ← parseConn p
    let (cond, p) ← parseOneCond tbl (dbgSkipWs p)
    let ⟨rest, size⟩ ← parseTerms tbl n (dbgSkipWs p)
    some ⟨(conn, cond) :: rest, Nat.succ_le_succ size⟩

/-- `dbg_parse_condexpr`. -/
def dbgParseCondexpr (tbl : SymbolTable) (text : CStr) : Option BpCondexpr := do
  let (first, p) ← parseOneCond tbl text
  let ⟨rest, size⟩ ← parseTerms tbl (bpMaxTerms - 1) (dbgSkipWs p)
  some { first, rest, size }

example : (dbgParseCondexpr ⟨[], fun _ => false⟩ (cstr "A==1F && M[$300] > %101")).map
      (fun e => (e.first, e.rest)) =
    some (⟨.a, 0, .eq, 0x1F⟩, [(.and, ⟨.mem, 0x300, .gt, 5⟩)]) := by decide

/-! ## Evaluation -/

section Eval

variable {σ : Type} (io : MemoryIo σ) (loci : LociEmu σ)

def BpOp.eval (lhs rhs : BitVec 32) : BpOp → Bool
  | .eq => lhs == rhs
  | .ne => lhs != rhs
  | .lt => lhs < rhs
  | .le => lhs ≤ rhs
  | .gt => lhs > rhs
  | .ge => lhs ≥ rhs

/-- The left side of a comparison, and the machine after the look at it. -/
def evalOperand (c : BpCondition) (emu : DebugTarget σ) : BitVec 32 × DebugTarget σ :=
  match c.operand with
  | .a => (emu.cpu.a.setWidth 32, emu)
  | .x => (emu.cpu.x.setWidth 32, emu)
  | .y => (emu.cpu.y.setWidth 32, emu)
  | .sp => (emu.cpu.sp.setWidth 32, emu)
  | .p => (emu.cpu.p.setWidth 32, emu)
  | .pc => (emu.pc.setWidth 32, emu)
  | .mem =>
    let (val, memory) := memoryPeek io loci c.memAddr emu.memory
    (val.setWidth 32, { emu with memory := memory })

/-- `eval_cond`. -/
def evalCond (c : BpCondition) (emu : DebugTarget σ) : Bool × DebugTarget σ :=
  let (lhs, emu) := evalOperand io loci c emu
  (c.op.eval lhs c.value, emu)

/-- The loop of `eval_condexpr`: every term is evaluated, whatever the result so far. -/
def evalTerms (result : Bool) :
    List (BpConn × BpCondition) → DebugTarget σ → Bool × DebugTarget σ
  | [], emu => (result, emu)
  | (conn, term) :: rest, emu =>
    let (t, emu) := evalCond io loci term emu
    evalTerms (match conn with | .and => result && t | .or => result || t) rest emu

/-- `eval_condexpr`. -/
def evalCondexpr (e : BpCondexpr) (emu : DebugTarget σ) : Bool × DebugTarget σ :=
  let (result, emu) := evalCond io loci e.first emu
  evalTerms io loci result e.rest emu

/-- What a connector makes of two truth values. -/
def BpConn.join : BpConn → Bool → Bool → Bool
  | .and => (· && ·)
  | .or => (· || ·)

/-- The truth values of terms looked at one after the other. -/
def termValues : List BpCondition → DebugTarget σ → List Bool
  | [], _ => []
  | term :: terms, emu =>
    (evalCond io loci term emu).1 :: termValues terms (evalCond io loci term emu).2

/-- A truth value joined with others from the left. -/
def joinLeft (first : Bool) (conns : List BpConn) (values : List Bool) : Bool :=
  (conns.zip values).foldl (fun result ct => ct.1.join result ct.2) first

/-- The condition, as specified. -/
def BpCondexpr.holds (e : BpCondexpr) (emu : DebugTarget σ) : Bool :=
  joinLeft (evalCond io loci e.first emu).1 (e.rest.map Prod.fst)
    (termValues io loci (e.rest.map Prod.snd) (evalCond io loci e.first emu).2)

theorem evalTerms_fst (rest : List (BpConn × BpCondition)) (result : Bool) (emu : DebugTarget σ) :
    (evalTerms io loci result rest emu).1 =
      joinLeft result (rest.map Prod.fst) (termValues io loci (rest.map Prod.snd) emu) := by
  induction rest generalizing result emu with
  | nil => rfl
  | cons head rest ih =>
    obtain ⟨conn, term⟩ := head
    rw [evalTerms, ih]
    cases conn <;> rfl

/-- The loop of `eval_condexpr` joins the terms from the left. -/
theorem evalCondexpr_fst (e : BpCondexpr) (emu : DebugTarget σ) :
    (evalCondexpr io loci e emu).1 = e.holds io loci emu :=
  evalTerms_fst io loci e.rest _ _

@[simp] theorem evalOperand_pc (c : BpCondition) (emu : DebugTarget σ) :
    (evalOperand io loci c emu).2.pc = emu.pc := by
  rw [evalOperand]
  cases c.operand <;> rfl

@[simp] theorem evalCond_pc (c : BpCondition) (emu : DebugTarget σ) :
    (evalCond io loci c emu).2.pc = emu.pc :=
  evalOperand_pc io loci c emu

theorem evalTerms_pc (rest : List (BpConn × BpCondition)) (result : Bool) (emu : DebugTarget σ) :
    (evalTerms io loci result rest emu).2.pc = emu.pc := by
  induction rest generalizing result emu with
  | nil => rfl
  | cons head rest ih =>
    obtain ⟨conn, term⟩ := head
    rw [evalTerms, ih, evalCond_pc]

/-- Evaluating a condition does not move the program counter. -/
@[simp] theorem evalCondexpr_pc (e : BpCondexpr) (emu : DebugTarget σ) :
    (evalCondexpr io loci e emu).2.pc = emu.pc := by
  rw [evalCondexpr, evalTerms_pc, evalCond_pc]

end Eval

end Phosphoric
