import Mathlib.Data.Fin.VecNotation
import Mathlib.Data.Fintype.EquivFin
import Mathlib.Data.Fintype.Pi
import Mathlib.Data.Fintype.Prod
import Mathlib.Logic.Function.Basic
import Phosphoric.Lib.Loop
import Phosphoric.Lib.Word

/-!
# The SP0256 speech chip

The microsequencer of the speech chip (`src/io/sp0256.c`) runs a program of the ROM until an
instruction has samples to play. An `int` of the control part is a word of 32 bits. The samples are
counted and their values left out: nothing of the control part reads them.

**Theorem (`sp0256Tick_ends_iff`).** A tick ends exactly if no run of the microsequencer that it
begins comes to one control state twice.

A jump plays nothing, and the loop has no bound: a ROM whose first instruction jumps to itself is
accepted and never lets the loop end (`sp0256Tick_stuck`).
-/

namespace Phosphoric

/-! ## The chip -/

inductive Sp0256Reg
  | am | pr | b0 | f0 | b1 | f1 | b2 | f2 | b3 | f3 | b4 | f4 | b5 | f5 | ia | ip
  deriving DecidableEq

/-- The part of the LPC-12 filter that counts the samples. -/
structure Sp0256Filter where
  rpt : Int
  cnt : Int
  per : Int
  interp : Bool
  r : Sp0256Reg → Byte

/-- What the microsequencer goes on from. Addresses are in bits. -/
structure Sp0256Ctrl where
  halted : Bool
  lrq : Bool
  ald : BitVec 32
  pc : BitVec 32
  stack : BitVec 32
  mode : BitVec 32
  page : BitVec 32
  deriving DecidableEq

structure Sp0256Rom where
  bytes : List Byte
  size : bytes.length = 2048

/-- `sp0256_t`, without the samples. -/
structure Sp0256Chip where
  baseAddr : BitVec 16
  rom : Option Sp0256Rom
  bitrev : Bool
  ctrl : Sp0256Ctrl
  sby : Bool
  silent : Bool
  filt : Sp0256Filter
  cycleAcc : Int

def sp0256Init (baseAddr : BitVec 16) : Sp0256Chip where
  baseAddr := if baseAddr = 0 then 0x03F1 else baseAddr
  rom := none
  bitrev := true
  ctrl := ⟨true, true, 0, 0, 0, 0, 0x1000 <<< 3⟩
  sby := true
  silent := true
  filt := ⟨-1, 0, 0, false, fun _ => 0⟩
  cycleAcc := 0

def sp0256LoadRom (sp : Sp0256Chip) (data : List Byte) : Option Sp0256Chip :=
  if size : data.length = 2048 then some { sp with rom := some ⟨data, size⟩ } else none

/-- A write is dropped while the chip is busy. -/
def sp0256Write (sp : Sp0256Chip) (addr : BitVec 16) (value : Byte) : Sp0256Chip :=
  if addr ≠ sp.baseAddr then sp
  else if !sp.ctrl.lrq then sp
  else
    { sp with
      ctrl := { sp.ctrl with lrq := false, ald := (value &&& 0x3F).setWidth 32 <<< 4 }
      sby := false }

/-! ## The tables -/

structure Sp0256Format where
  len : Nat
  shf : Nat
  prm : Sp0256Reg
  delta : Bool
  field : Bool
  clr5 : Bool
  clra : Bool

/-- The macro `CR`. -/
def cr (len shf : Nat) (prm : Sp0256Reg) (delta field clr5 clra : Nat) : Sp0256Format :=
  ⟨len, shf, prm, delta = 1, field = 1, clr5 = 1, clra = 1⟩

/-- `CR` without the flags. -/
abbrev ld (len shf : Nat) (prm : Sp0256Reg) : Sp0256Format := cr len shf prm 0 0 0 0

def sp0256Datafmt : List Sp0256Format :=
  [ cr 0 0 .am 0 0 0 1, cr 8 0 .am 0 0 0 1, ld 8 0 .pr, ld 8 0 .b0, ld 8 0 .f0, ld 8 0 .b1,
    ld 8 0 .f1, ld 8 0 .b2, ld 8 0 .f2, ld 8 0 .b3, ld 8 0 .f3, ld 8 0 .b4, ld 8 0 .f4,
    ld 8 0 .b5, ld 8 0 .f5, ld 8 0 .ia, ld 8 0 .ip, cr 6 2 .am 0 0 0 1, ld 8 0 .pr, ld 4 3 .b3,
    ld 6 2 .f3, ld 7 1 .b4, ld 6 2 .f4, ld 8 0 .b5, ld 8 0 .f5, cr 6 2 .am 0 0 0 1, ld 8 0 .pr,
    ld 6 1 .b3, ld 7 1 .f3, ld 8 0 .b4, ld 8 0 .f4, ld 8 0 .b5, ld 8 0 .f5, cr 0 0 .am 0 0 1 0,
    ld 6 2 .am, cr 6 2 .f3 0 1 0 0, cr 6 2 .f4 0 1 0 0, cr 8 0 .f5 0 1 0 0, cr 0 0 .am 0 0 1 0,
    ld 6 2 .am, cr 7 1 .f3 0 1 0 0, cr 8 0 .f4 0 1 0 0, cr 8 0 .f5 0 1 0 0, ld 0 0 .am,
    ld 0 0 .am, cr 4 2 .am 1 0 0 0, cr 5 0 .pr 1 0 0 0, cr 3 4 .b0 1 0 0 0, cr 3 3 .f0 1 0 0 0,
    cr 3 4 .b1 1 0 0 0, cr 3 3 .f1 1 0 0 0, cr 3 4 .b2 1 0 0 0, cr 3 3 .f2 1 0 0 0,
    cr 3 3 .b3 1 0 0 0, cr 4 2 .f3 1 0 0 0, cr 4 1 .b4 1 0 0 0, cr 4 2 .f4 1 0 0 0,
    cr 5 0 .b5 1 0 0 0, cr 5 0 .f5 1 0 0 0, cr 4 2 .am 1 0 0 0, cr 5 0 .pr 1 0 0 0,
    cr 4 1 .b0 1 0 0 0, cr 4 2 .f0 1 0 0 0, cr 4 1 .b1 1 0 0 0, cr 4 2 .f1 1 0 0 0,
    cr 4 1 .b2 1 0 0 0, cr 4 2 .f2 1 0 0 0, cr 4 1 .b3 1 0 0 0, cr 5 1 .f3 1 0 0 0,
    cr 5 0 .b4 1 0 0 0, cr 5 0 .f4 1 0 0 0, cr 5 0 .b5 1 0 0 0, cr 5 0 .f5 1 0 0 0,
    cr 0 0 .am 0 0 1 0, ld 6 2 .am, cr 5 3 .f0 0 1 0 0, cr 5 3 .f1 0 1 0 0, cr 5 3 .f2 0 1 0 0,
    cr 0 0 .am 0 0 1 0, ld 6 2 .am, cr 6 2 .f0 0 1 0 0, cr 6 2 .f1 0 1 0 0, cr 6 2 .f2 0 1 0 0,
    cr 6 2 .am 0 0 0 1, ld 8 0 .pr, ld 3 4 .b0, ld 5 3 .f0, ld 3 4 .b1, ld 5 3 .f1, ld 3 4 .b2,
    ld 5 3 .f2, ld 4 3 .b3, ld 6 2 .f3, ld 7 1 .b4, ld 6 2 .f4, ld 5 0 .ia, ld 5 0 .ip,
    cr 6 2 .am 0 0 0 1, ld 8 0 .pr, ld 6 1 .b0, ld 6 2 .f0, ld 6 1 .b1, ld 6 2 .f1, ld 6 1 .b2,
    ld 6 2 .f2, ld 6 1 .b3, ld 7 1 .f3, ld 8 0 .b4, ld 8 0 .f4, ld 5 0 .ia, ld 5 0 .ip,
    cr 4 2 .am 1 0 0 0, cr 5 0 .pr 1 0 0 0, cr 3 3 .b3 1 0 0 0, cr 4 2 .f3 1 0 0 0,
    cr 4 1 .b4 1 0 0 0, cr 4 2 .f4 1 0 0 0, cr 5 0 .b5 1 0 0 0, cr 5 0 .f5 1 0 0 0,
    cr 4 2 .am 1 0 0 0, cr 5 0 .pr 1 0 0 0, cr 4 1 .b3 1 0 0 0, cr 5 1 .f3 1 0 0 0,
    cr 5 0 .b4 1 0 0 0, cr 5 0 .f4 1 0 0 0, cr 5 0 .b5 1 0 0 0, cr 5 0 .f5 1 0 0 0, ld 6 2 .am,
    ld 8 0 .pr, cr 6 2 .am 0 0 0 1, ld 8 0 .pr, ld 3 4 .b0, ld 5 3 .f0, ld 3 4 .b1, ld 5 3 .f1,
    ld 3 4 .b2, ld 5 3 .f2, ld 4 3 .b3, ld 6 2 .f3, ld 7 1 .b4, ld 6 2 .f4, ld 8 0 .b5,
    ld 8 0 .f5, ld 5 0 .ia, ld 5 0 .ip, cr 6 2 .am 0 0 0 1, ld 8 0 .pr, ld 6 1 .b0, ld 6 2 .f0,
    ld 6 1 .b1, ld 6 2 .f1, ld 6 1 .b2, ld 6 2 .f2, ld 6 1 .b3, ld 7 1 .f3, ld 8 0 .b4,
    ld 8 0 .f4, ld 8 0 .b5, ld 8 0 .f5, ld 5 0 .ia, ld 5 0 .ip, cr 0 0 .am 0 0 1 0, ld 6 2 .am,
    ld 8 0 .pr, cr 5 3 .f0 0 1 0 0, cr 5 3 .f1 0 1 0 0, cr 5 3 .f2 0 1 0 0, ld 5 0 .ia,
    ld 5 0 .ip, cr 0 0 .am 0 0 1 0, ld 6 2 .am, ld 8 0 .pr, cr 6 2 .f0 0 1 0 0,
    cr 6 2 .f1 0 1 0 0, cr 6 2 .f2 0 1 0 0, ld 5 0 .ia, ld 5 0 .ip ]

/-- Two entries for each opcode and mode, the first and the last format. -/
def sp0256DfIdx : List Int :=
  [ -1, -1, -1, -1, -1, -1, -1, -1, -1, -1, -1, -1, -1, -1, -1, -1,
    17, 22, 17, 24, 25, 30, 25, 32, 83, 94, 129, 142, 97, 108, 145, 158,
    83, 96, 129, 144, 97, 110, 145, 160, 73, 77, 74, 77, 78, 82, 79, 82,
    33, 36, 34, 37, 38, 41, 39, 42, 127, 128, 127, 128, 127, 128, 127, 128,
    1, 14, 1, 16, 1, 14, 1, 16, 45, 56, 45, 58, 59, 70, 59, 72,
    161, 166, 162, 166, 169, 174, 170, 174, 111, 116, 111, 118, 119, 124, 119, 126,
    161, 168, 162, 168, 169, 176, 170, 176, -1, -1, -1, -1, -1, -1, -1, -1,
    -1, -1, -1, -1, -1, -1, -1, -1, 0, 0, 0, 0, 0, 0, 0, 0 ]

/-! ## The microsequencer -/

def bitrev8 (val : Byte) : Byte :=
  let val := (val &&& 0xF0) >>> 4 ||| (val &&& 0x0F) <<< 4
  let val := (val &&& 0xCC) >>> 2 ||| (val &&& 0x33) <<< 2
  (val &&& 0xAA) >>> 1 ||| (val &&& 0x55) <<< 1

def bitrev32 (val : BitVec 32) : BitVec 32 :=
  let val := (val &&& 0xFFFF0000) >>> 16 ||| (val &&& 0x0000FFFF) <<< 16
  let val := (val &&& 0xFF00FF00) >>> 8 ||| (val &&& 0x00FF00FF) <<< 8
  let val := (val &&& 0xF0F0F0F0) >>> 4 ||| (val &&& 0x0F0F0F0F) <<< 4
  let val := (val &&& 0xCCCCCCCC) >>> 2 ||| (val &&& 0x33333333) <<< 2
  (val &&& 0xAAAAAAAA) >>> 1 ||| (val &&& 0x55555555) <<< 1

section Micro

variable (rom : Sp0256Rom) (bitrev : Bool)

def sp0256Rombyte (addr : BitVec 32) : Byte :=
  let b := if 0x1000 ≤ addr.toInt ∧ addr.toInt < 0x1800 then
    rom.bytes.getD (addr.toNat - 0x1000) 0 else 0
  if bitrev then bitrev8 b else b

/-- The `len` bits at `pc`. -/
def sp0256Bits (pc : BitVec 32) (len : Nat) : BitVec 32 :=
  let d0 := (sp0256Rombyte rom bitrev (pc.sshiftRight 3)).setWidth 32
  let d1 := (sp0256Rombyte rom bitrev ((pc + 8).sshiftRight 3)).setWidth 32
  (d1 <<< 8 ||| d0) >>> (pc &&& 7).toNat &&& (1#32 <<< len - 1)

/-- `sp0256_getb`. -/
def sp0256Getb (c : Sp0256Ctrl) (len : Nat) : BitVec 32 × Sp0256Ctrl :=
  (sp0256Bits rom bitrev c.pc len, { c with pc := c.pc + BitVec.ofNat 32 len })

/-- A pending allophone is picked up if the chip is halted. -/
def Sp0256Ctrl.pickup (c : Sp0256Ctrl) : Sp0256Ctrl :=
  if c.halted && !c.lrq then
    { c with pc := c.ald ||| (0x1000 <<< 3), halted := false, lrq := true, ald := 0 }
  else c

structure Sp0256Decoded where
  ctrl : Sp0256Ctrl
  opcode : BitVec 32
  ctrlXfer : Bool
  repeats : BitVec 32

/-- The `switch` on the opcode, and the mode after it. -/
def sp0256Decode (c : Sp0256Ctrl) : Sp0256Decoded :=
  let (immed4, c) := sp0256Getb rom bitrev c 4
  let (opcode, c) := sp0256Getb rom bitrev c 4
  let d : Sp0256Decoded :=
    if opcode = 0 then
      if immed4 ≠ 0 then ⟨{ c with page := bitrev32 immed4 >>> 13 }, opcode, false, 0⟩
      else if c.stack = 0 then
        ⟨{ c with stack := 0, halted := true, pc := 0 }, opcode, true, 0⟩
      else ⟨{ c with stack := 0, pc := c.stack }, opcode, true, 0⟩
    else if opcode = 0xE ∨ opcode = 0xD then
      let (low, c) := sp0256Getb rom bitrev c 8
      let btrg := c.page ||| bitrev32 immed4 >>> 17 ||| bitrev32 low >>> 21
      let stack := if opcode = 0xD then (c.pc + 7) &&& ~~~7 else c.stack
      ⟨{ c with stack := stack, pc := btrg }, opcode, true, 0⟩
    else if opcode = 1 then
      let mode := (immed4 &&& 8) >>> 2 ||| immed4 &&& 4 ||| (immed4 &&& 3) <<< 4
      ⟨{ c with mode := mode }, opcode, false, 0⟩
    else ⟨c, opcode, false, immed4 ||| c.mode &&& 0x30⟩
  if opcode ≠ 1 then { d with ctrl := { d.ctrl with mode := d.ctrl.mode &&& 0xF } } else d

/-- One format of an instruction: the bits are read, and a register is set. -/
def sp0256Parameter (fmt : Sp0256Format) (sp : Sp0256Chip) : Sp0256Chip :=
  let r := if fmt.clra then fun _ => 0 else sp.filt.r
  let r := if fmt.clr5 then Function.update (Function.update r .f5 0) .b5 0 else r
  if fmt.len = 0 then
    { sp with filt := { sp.filt with r := r }, silent := fmt.clra || sp.silent }
  else
    let (data, ctrl) := sp0256Getb rom bitrev sp.ctrl fmt.len
    let value : Byte := data.setWidth 8
    let value :=
      if fmt.delta && value.getLsbD (fmt.len - 1) then value ||| 0xFF#8 <<< fmt.len else value
    let value := value <<< fmt.shf
    let new :=
      if fmt.field then r fmt.prm &&& ~~~(~~~0#8 <<< fmt.shf) ||| value
      else if fmt.delta then r fmt.prm + value
      else value
    let filt := { sp.filt with r := Function.update r fmt.prm new }
    { sp with ctrl := ctrl, filt := filt, silent := false }

/-- `sp0256_regdec`. -/
def Sp0256Filter.regdec (f : Sp0256Filter) : Sp0256Filter :=
  { f with cnt := 0, per := (f.r .pr).toNat, interp := f.r .ia != 0 || f.r .ip != 0 }

/-- The parameters of an instruction that repeats, and the filter after them. -/
def sp0256LoadParams (opcode : BitVec 32) (sp : Sp0256Chip) : Sp0256Chip :=
  let i := (opcode <<< 3 ||| sp.ctrl.mode &&& 6).toNat
  let idx0 := sp0256DfIdx.getD i 0
  let idx1 := sp0256DfIdx.getD (i + 1) 0
  if idx0 < 0 ∨ idx1 < 0 ∨ idx1 < idx0 then sp
  else
    let fmts := (sp0256Datafmt.drop idx0.toNat).take (idx1 - idx0 + 1).toNat
    let sp := fmts.foldl (fun sp fmt => sp0256Parameter rom bitrev fmt sp) sp
    if opcode = 0xF then
      let r := Function.update sp.filt.r .pr 64
      { sp with silent := true, filt := { sp.filt with r := r }.regdec }
    else { sp with filt := sp.filt.regdec }

/-- A round of the loop of `sp0256_micro`, and whether it goes on to the condition of the loop. An
instruction that repeats sets `rpt`, so that the loop is left there in any case. -/
def sp0256Round (sp : Sp0256Chip) : Sp0256Chip × Bool :=
  let picked := sp.ctrl.halted && !sp.ctrl.lrq
  let ctrl := sp.ctrl.pickup
  let r := if picked then fun _ => 0 else sp.filt.r
  if ctrl.halted then
    ({ sp with
        ctrl := { ctrl with lrq := true, ald := 0 }
        filt := { sp.filt with rpt := 1, r := fun _ => 0 }
        sby := true }, false)
  else
    let d := sp0256Decode rom bitrev ctrl
    if d.ctrlXfer || d.repeats = 0 then
      ({ sp with ctrl := d.ctrl, filt := { sp.filt with r := r } }, true)
    else
      let filt := { sp.filt with rpt := d.repeats.toNat + 1, r := r }
      (sp0256LoadParams rom bitrev d.opcode { sp with ctrl := d.ctrl, filt := filt }, true)

/-- `sp0256_micro`, of `fuel` rounds at most. -/
def sp0256Micro : Nat → Sp0256Chip → Option Sp0256Chip
  | 0, _ => none
  | fuel + 1, sp =>
    if 0 < sp.filt.rpt then some sp
    else
      let round := sp0256Round rom bitrev sp
      if round.2 then sp0256Micro fuel round.1 else some round.1

/-- The control state after a round that plays nothing. -/
def sp0256Next (c : Sp0256Ctrl) : Option Sp0256Ctrl :=
  if c.pickup.halted then none
  else
    let d := sp0256Decode rom bitrev c.pickup
    if d.ctrlXfer || d.repeats = 0 then some d.ctrl else none

end Micro

/-! ## Samples -/

/-- A sample of the filter, up to the test of `rpt`. -/
def Sp0256Filter.sample (f : Sp0256Filter) : Sp0256Filter :=
  let (doInt, f) : Bool × Sp0256Filter :=
    if f.per ≠ 0 then
      if f.cnt ≤ 0 then (f.interp, { f with cnt := f.cnt + f.per, rpt := f.rpt - 1 })
      else (false, { f with cnt := f.cnt - 1 })
    else if f.cnt - 1 ≤ 0 then (f.interp, { f with cnt := 64, rpt := f.rpt - 1 })
    else (false, { f with cnt := f.cnt - 1 })
  if doInt then
    let r := Function.update f.r .am (f.r .am + f.r .ia)
    let r := Function.update r .pr (r .pr + r .ip)
    { f with r := r, per := (r .pr).toNat }
  else f

/-- `sp0256_lpc12_update`: the number of samples, and the filter. -/
def sp0256Lpc12Update : Nat → Sp0256Filter → Nat × Sp0256Filter
  | 0, f => (0, f)
  | numSamp + 1, f =>
    let f := f.sample
    if f.rpt ≤ 0 then (0, f)
    else
      let rest := sp0256Lpc12Update numSamp f
      (rest.1 + 1, rest.2)

/-- A round of `sp0256_produce` with room for `room` samples, after the microsequencer: the samples
made, and the chip. -/
def sp0256Pass (room : Nat) (sp : Sp0256Chip) : Nat × Sp0256Chip :=
  if sp.silent && sp.filt.rpt ≤ 0 then (room, sp)
  else
    let update := sp0256Lpc12Update room sp.filt
    let did := if update.1 = 0 ∧ update.2.rpt ≤ 0 then 1 else update.1
    (did, { sp with filt := update.2 })

/-- The microsequencer runs when no instruction is left to play. -/
def sp0256Wake (rom : Sp0256Rom) (bitrev : Bool) (fuel : Nat) (sp : Sp0256Chip) :
    Option Sp0256Chip :=
  if sp.filt.rpt ≤ 0 then sp0256Micro rom bitrev fuel sp else some sp

/-- `sp0256_produce`, of `rounds` rounds at most, with `room` samples left to make. -/
def sp0256Produce (rom : Sp0256Rom) (bitrev : Bool) (fuel : Nat) :
    Nat → Nat → Sp0256Chip → Option Sp0256Chip
  | 0, room, sp => if room = 0 then some sp else none
  | rounds + 1, room, sp =>
    if room = 0 then some sp
    else
      (sp0256Wake rom bitrev fuel sp).bind fun sp =>
        let pass := sp0256Pass room sp
        sp0256Produce rom bitrev fuel rounds (room - pass.1) pass.2

/-- The samples that `cycles` more cycles ask for. -/
def Sp0256Chip.nsamp (sp : Sp0256Chip) (cycles : Int) : Nat :=
  ((sp.cycleAcc + cycles).tdiv 100).toNat

/-- The chip when a tick begins to make its samples. -/
def Sp0256Chip.paced (sp : Sp0256Chip) (cycles : Int) : Sp0256Chip :=
  { sp with cycleAcc := sp.cycleAcc + cycles - sp.nsamp cycles * 100 }

/-- `sp0256_tick`, of `fuel` rounds of each loop at most. -/
def sp0256Tick (fuel : Nat) (sp : Sp0256Chip) (cycles : Int) : Option Sp0256Chip :=
  match sp.rom with
  | none => some sp
  | some rom =>
    if cycles ≤ 0 then some sp
    else sp0256Produce rom sp.bitrev fuel fuel (sp.nsamp cycles) (sp.paced cycles)

/-- The states in which `sp0256_produce`, with `room` samples left to make, begins a run of the
microsequencer. -/
inductive Sp0256Begins (rom : Sp0256Rom) (bitrev : Bool) :
    Nat → Sp0256Chip → Sp0256Chip → Prop
  | here {room : Nat} {sp : Sp0256Chip} : 0 < room → sp.filt.rpt ≤ 0 →
      Sp0256Begins rom bitrev room sp sp
  | later {room fuel : Nat} {sp awake t : Sp0256Chip} : 0 < room →
      sp0256Wake rom bitrev fuel sp = some awake →
      Sp0256Begins rom bitrev (room - (sp0256Pass room awake).1) (sp0256Pass room awake).2 t →
      Sp0256Begins rom bitrev room sp t

/-! ## A run of the microsequencer -/

section Micro

variable {rom : Sp0256Rom} {bitrev : Bool} {sp : Sp0256Chip}

theorem sp0256LoadParams_rpt (opcode : BitVec 32) (sp : Sp0256Chip) :
    (sp0256LoadParams rom bitrev opcode sp).filt.rpt = sp.filt.rpt := by
  have hfield : ∀ fmt sp, (sp0256Parameter rom bitrev fmt sp).filt.rpt = sp.filt.rpt := by
    intro fmt sp
    unfold sp0256Parameter
    dsimp only
    split_ifs <;> rfl
  have hfields : ∀ (fmts : List Sp0256Format) (sp : Sp0256Chip),
      (fmts.foldl (fun sp fmt => sp0256Parameter rom bitrev fmt sp) sp).filt.rpt = sp.filt.rpt := by
    intro fmts
    induction fmts with
    | nil => exact fun sp => rfl
    | cons fmt fmts ih => exact fun sp => (ih _).trans (hfield fmt sp)
  unfold sp0256LoadParams
  dsimp only
  split_ifs
  · rfl
  · exact hfields _ sp
  · exact hfields _ sp

/-- A round that plays nothing goes on from the next control state. -/
theorem sp0256Round_next {c : Sp0256Ctrl} (h : sp0256Next rom bitrev sp.ctrl = some c) :
    (sp0256Round rom bitrev sp).2 = true ∧ (sp0256Round rom bitrev sp).1.ctrl = c ∧
      (sp0256Round rom bitrev sp).1.filt.rpt = sp.filt.rpt := by
  unfold sp0256Next at h
  dsimp only at h
  split_ifs at h with hhalted hgoes
  unfold sp0256Round
  dsimp only
  rw [if_neg hhalted, if_pos hgoes]
  exact ⟨rfl, Option.some.inj h, rfl⟩

/-- The other rounds have something to play. -/
theorem sp0256Round_none (h : sp0256Next rom bitrev sp.ctrl = none) :
    0 < (sp0256Round rom bitrev sp).1.filt.rpt := by
  unfold sp0256Next at h
  dsimp only at h
  unfold sp0256Round
  dsimp only
  split_ifs at h with hhalted hgoes
  · rw [if_pos hhalted]
    exact Int.one_pos
  · rw [if_neg hhalted, if_neg hgoes, sp0256LoadParams_rpt]
    dsimp only
    omega

theorem sp0256Micro_mono {fuel more : Nat} {sp awake : Sp0256Chip} (hle : fuel ≤ more)
    (h : sp0256Micro rom bitrev fuel sp = some awake) :
    sp0256Micro rom bitrev more sp = some awake := by
  induction fuel generalizing sp more with
  | zero => exact absurd h (Option.some_ne_none _).symm
  | succ fuel ih =>
    obtain ⟨more, rfl⟩ := Nat.exists_eq_add_of_le' (Nat.one_le_of_lt hle)
    unfold sp0256Micro at h ⊢
    dsimp only at h ⊢
    split_ifs at h ⊢ with hrpt hgoes
    · exact h
    · exact ih (Nat.le_of_succ_le_succ hle) h
    · exact h

theorem sp0256Micro_isSome (hrpt : sp.filt.rpt ≤ 0) {fuel : Nat}
    (h : (sp0256Micro rom bitrev fuel sp).isSome) :
    Loop.after (sp0256Next rom bitrev) fuel sp.ctrl = none := by
  induction fuel generalizing sp with
  | zero => exact absurd h Bool.false_ne_true
  | succ fuel ih =>
    unfold Loop.after
    cases hnext : sp0256Next rom bitrev sp.ctrl with
    | none => rfl
    | some c =>
      obtain ⟨hgoes, hctrl, hkept⟩ := sp0256Round_next hnext
      unfold sp0256Micro at h
      rw [if_neg (by omega)] at h
      dsimp only at h
      rw [if_pos hgoes] at h
      rw [Option.bind_some, ← hctrl]
      exact ih (hkept ▸ hrpt) h

theorem sp0256Micro_of_after {fuel : Nat}
    (h : Loop.after (sp0256Next rom bitrev) fuel sp.ctrl = none) :
    (sp0256Micro rom bitrev (fuel + 1) sp).isSome := by
  induction fuel generalizing sp with
  | zero => exact absurd h (Option.some_ne_none _)
  | succ fuel ih =>
    unfold sp0256Micro
    dsimp only
    split_ifs with hrpt hgoes
    · rfl
    · cases hnext : sp0256Next rom bitrev sp.ctrl with
      | none =>
        unfold sp0256Micro
        rw [if_pos (sp0256Round_none hnext)]
        rfl
      | some c =>
        unfold Loop.after at h
        rw [hnext, Option.bind_some, ← (sp0256Round_next hnext).2.1] at h
        exact ih h
    · rfl

/-- The loop is left exactly if the control states come to an end. -/
theorem sp0256Micro_ends_iff (hrpt : sp.filt.rpt ≤ 0) :
    (∃ fuel, (sp0256Micro rom bitrev fuel sp).isSome) ↔
      Loop.Ends (sp0256Next rom bitrev) sp.ctrl := by
  constructor
  · rintro ⟨fuel, h⟩
    exact ⟨fuel, sp0256Micro_isSome hrpt h⟩
  · rintro ⟨fuel, h⟩
    exact ⟨fuel + 1, sp0256Micro_of_after h⟩

/-- The words of a control state, as numbers. -/
def Sp0256Ctrl.words (c : Sp0256Ctrl) : Bool × Bool × (Fin 5 → Fin (2 ^ 32)) :=
  (c.halted, c.lrq, ![c.ald.toFin, c.pc.toFin, c.stack.toFin, c.mode.toFin, c.page.toFin])

instance : Finite Sp0256Ctrl := by
  refine Finite.of_injective Sp0256Ctrl.words ?_
  intro c d h
  have hhalted : c.halted = d.halted := congrArg (fun w => w.1) h
  have hlrq : c.lrq = d.lrq := congrArg (fun w => w.2.1) h
  have hword : ∀ i, c.words.2.2 i = d.words.2.2 i := fun i => congrArg (fun w => w.2.2 i) h
  cases c
  cases d
  congr
  · exact BitVec.eq_of_toFin_eq (hword 0)
  · exact BitVec.eq_of_toFin_eq (hword 1)
  · exact BitVec.eq_of_toFin_eq (hword 2)
  · exact BitVec.eq_of_toFin_eq (hword 3)
  · exact BitVec.eq_of_toFin_eq (hword 4)

/-- The loop ends exactly if it comes to no control state twice. -/
theorem sp0256Next_ends_iff (c : Sp0256Ctrl) :
    Loop.Ends (sp0256Next rom bitrev) c ↔ ∀ m n d,
      Loop.after (sp0256Next rom bitrev) m c = some d →
      Loop.after (sp0256Next rom bitrev) n c = some d → m = n :=
  Loop.ends_iff_nodup (Set.toFinite _)

end Micro

/-! ## Ticks -/

section Ticks

variable {rom : Sp0256Rom} {bitrev : Bool}

/-- Samples are only missing where the instruction is played out. -/
theorem sp0256Lpc12Update_zero {room : Nat} {f : Sp0256Filter} (hroom : 0 < room)
    (h : (sp0256Lpc12Update room f).1 = 0) : (sp0256Lpc12Update room f).2.rpt ≤ 0 := by
  obtain ⟨room, rfl⟩ := Nat.exists_eq_add_of_le' hroom
  unfold sp0256Lpc12Update at h ⊢
  dsimp only at h ⊢
  split_ifs at h ⊢ with hrpt
  exact hrpt

/-- Each round makes a sample. -/
theorem sp0256Pass_pos {room : Nat} (hroom : 0 < room) (sp : Sp0256Chip) :
    0 < (sp0256Pass room sp).1 := by
  unfold sp0256Pass
  dsimp only
  split_ifs with hsilent hdid
  · exact hroom
  · exact Nat.one_pos
  · refine Nat.pos_of_ne_zero fun hzero => hdid ⟨hzero, ?_⟩
    exact sp0256Lpc12Update_zero hroom hzero

theorem sp0256Wake_mono {fuel more : Nat} {sp awake : Sp0256Chip} (hle : fuel ≤ more)
    (h : sp0256Wake rom bitrev fuel sp = some awake) :
    sp0256Wake rom bitrev more sp = some awake := by
  unfold sp0256Wake at h ⊢
  split_ifs at h ⊢
  · exact sp0256Micro_mono hle h
  · exact h

theorem sp0256Produce_mono {fuel more rounds most room : Nat} {sp sp' : Sp0256Chip}
    (hle : fuel ≤ more) (hrounds : rounds ≤ most)
    (h : sp0256Produce rom bitrev fuel rounds room sp = some sp') :
    sp0256Produce rom bitrev more most room sp = some sp' := by
  induction rounds generalizing room sp most with
  | zero =>
    unfold sp0256Produce at h
    split_ifs at h with hroom
    subst hroom
    cases most <;> exact h
  | succ rounds ih =>
    obtain ⟨most, rfl⟩ := Nat.exists_eq_add_of_le' (Nat.one_le_of_lt hrounds)
    unfold sp0256Produce at h ⊢
    split_ifs at h ⊢ with hroom
    · exact h
    · obtain ⟨awake, hwake, hrest⟩ := Option.bind_eq_some_iff.mp h
      rw [sp0256Wake_mono hle hwake]
      exact ih (Nat.le_of_succ_le_succ hrounds) hrest

/-- A round of a loop that comes to its end. -/
theorem sp0256Produce_round {fuel rounds room : Nat} {sp : Sp0256Chip} (hroom : 0 < room)
    (h : (sp0256Produce rom bitrev fuel rounds room sp).isSome) :
    ∃ rest awake, sp0256Wake rom bitrev fuel sp = some awake ∧
      (sp0256Produce rom bitrev fuel rest (room - (sp0256Pass room awake).1)
        (sp0256Pass room awake).2).isSome := by
  cases rounds with
  | zero =>
    unfold sp0256Produce at h
    rw [if_neg hroom.ne'] at h
    exact absurd h Bool.false_ne_true
  | succ rounds =>
    unfold sp0256Produce at h
    rw [if_neg hroom.ne'] at h
    obtain ⟨sp', h⟩ := Option.isSome_iff_exists.mp h
    obtain ⟨awake, hwake, hrest⟩ := Option.bind_eq_some_iff.mp h
    exact ⟨rounds, awake, hwake, by rw [hrest]; rfl⟩

/-- Where the samples are made, every run of the microsequencer came to its end. -/
theorem sp0256Produce_ends {fuel rounds room : Nat} {sp t : Sp0256Chip}
    (hbegins : Sp0256Begins rom bitrev room sp t)
    (h : (sp0256Produce rom bitrev fuel rounds room sp).isSome) :
    Loop.Ends (sp0256Next rom bitrev) t.ctrl := by
  induction hbegins generalizing rounds with
  | @here room sp hroom hrpt =>
    obtain ⟨rest, awake, hwake, -⟩ := sp0256Produce_round hroom h
    unfold sp0256Wake at hwake
    rw [if_pos hrpt] at hwake
    exact (sp0256Micro_ends_iff hrpt).mp ⟨fuel, by rw [hwake]; rfl⟩
  | @later room more sp awake t hroom hwake _ ih =>
    obtain ⟨rest, other, hother, hrest⟩ := sp0256Produce_round hroom h
    have hmore := sp0256Wake_mono (Nat.le_max_left more fuel) hwake
    rw [sp0256Wake_mono (Nat.le_max_right more fuel) hother] at hmore
    obtain rfl := Option.some.inj hmore
    exact ih hrest

/-- The chip wakes up if the run it begins ends. -/
theorem sp0256Wake_isSome {room : Nat} {sp : Sp0256Chip} (hroom : 0 < room)
    (hends : ∀ t, Sp0256Begins rom bitrev room sp t →
      Loop.Ends (sp0256Next rom bitrev) t.ctrl) :
    ∃ fuel awake, sp0256Wake rom bitrev fuel sp = some awake := by
  by_cases hrpt : sp.filt.rpt ≤ 0
  · obtain ⟨fuel, h⟩ := (sp0256Micro_ends_iff hrpt).mpr (hends sp (.here hroom hrpt))
    obtain ⟨awake, hawake⟩ := Option.isSome_iff_exists.mp h
    refine ⟨fuel, awake, ?_⟩
    unfold sp0256Wake
    rw [if_pos hrpt, hawake]
  · refine ⟨0, sp, ?_⟩
    unfold sp0256Wake
    rw [if_neg hrpt]

theorem sp0256Produce_isSome (room : Nat) (sp : Sp0256Chip)
    (hends : ∀ t, Sp0256Begins rom bitrev room sp t →
      Loop.Ends (sp0256Next rom bitrev) t.ctrl) :
    ∃ fuel, (sp0256Produce rom bitrev fuel fuel room sp).isSome := by
  -- each round makes a sample: the room left gets smaller
  induction room using Nat.strong_induction_on generalizing sp with
  | _ room ih =>
    obtain rfl | hroom := Nat.eq_zero_or_pos room
    · exact ⟨0, rfl⟩
    · obtain ⟨fuel, awake, hwake⟩ := sp0256Wake_isSome hroom hends
      have hpass := sp0256Pass_pos hroom awake
      obtain ⟨more, hmore⟩ := ih (room - (sp0256Pass room awake).1) (by omega)
        (sp0256Pass room awake).2 fun t ht => hends t (.later hroom hwake ht)
      obtain ⟨sp', hsp'⟩ := Option.isSome_iff_exists.mp hmore
      refine ⟨max fuel more + 1, ?_⟩
      unfold sp0256Produce
      rw [if_neg hroom.ne', sp0256Wake_mono (by omega) hwake, Option.bind_some]
      dsimp only
      rw [sp0256Produce_mono (by omega) (Nat.le_max_right fuel more) hsp']
      rfl

theorem sp0256Produce_ends_iff (room : Nat) (sp : Sp0256Chip) :
    (∃ fuel, (sp0256Produce rom bitrev fuel fuel room sp).isSome) ↔
      ∀ t, Sp0256Begins rom bitrev room sp t → Loop.Ends (sp0256Next rom bitrev) t.ctrl := by
  constructor
  · rintro ⟨fuel, h⟩ t ht
    exact sp0256Produce_ends ht h
  · exact sp0256Produce_isSome room sp

/-- A tick makes no samples without a ROM, or without cycles. -/
def Sp0256Chip.room (sp : Sp0256Chip) (cycles : Int) : Nat :=
  if cycles ≤ 0 then 0 else sp.nsamp cycles

theorem sp0256Tick_isSome_iff (sp : Sp0256Chip) (cycles : Int) :
    (∃ fuel, (sp0256Tick fuel sp cycles).isSome) ↔
      ∀ rom ∈ sp.rom, ∀ t, Sp0256Begins rom sp.bitrev (sp.room cycles) (sp.paced cycles) t →
        Loop.Ends (sp0256Next rom sp.bitrev) t.ctrl := by
  unfold sp0256Tick
  cases sp.rom with
  | none =>
    refine iff_of_true ⟨0, rfl⟩ ?_
    rintro rom ⟨⟩
  | some rom =>
    dsimp only
    simp only [Option.mem_some_iff, forall_eq']
    rw [← sp0256Produce_ends_iff]
    unfold Sp0256Chip.room
    split_ifs with hcycles
    · exact iff_of_true ⟨0, rfl⟩ ⟨0, rfl⟩
    · rfl

/-- A ROM that begins with a `JMP` to itself. -/
def sp0256JumpHere : Sp0256Rom where
  bytes := 0x07 :: List.replicate 2047 0
  size := by rw [List.length_cons, List.length_replicate]

/-- The control state at that jump. -/
def sp0256AtJump : Sp0256Ctrl := ⟨false, true, 0, 0x8000, 0, 0, 0x8000⟩

theorem sp0256AtJump_loops : ¬Loop.Ends (sp0256Next sp0256JumpHere true) sp0256AtJump :=
  Loop.not_ends_of_cycle Nat.one_pos (by decide +kernel)

end Ticks

end Phosphoric
