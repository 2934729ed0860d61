import Phosphoric.Lib.Sampling
import Phosphoric.Lib.Word

/-!
# The cassette signal

The generator and the capture of `src/io/cassette.c`. The generator turns a leader of sync bytes
and a tape into half-pulses of the tape line; the capture times the rising edges of a sampled line
and puts the bytes together again.

Where the code grows its output buffer, memory is taken to be there.
-/

namespace Phosphoric

abbrev casFrameBits : Nat := 14
abbrev casHalfOne : Nat := 208
abbrev casHalfLong : Nat := 416
abbrev casLeaderSyncs : Nat := 64
abbrev casSyncByte : Byte := 0x16#8
abbrev casPeriodThresh : BitVec 64 := 512#64

/-! ## The generator -/

/-- `cassette_t`. `len` is the length of `buf`. -/
structure Cassette where
  signalMode : Bool
  motorOn : Bool
  buf : List Byte
  bytePos : Nat
  bitPos : Nat
  frame : Word
  half : Nat
  leaderLeft : Nat
  cycToEdge : Int
  cb1Level : Bool
  finished : Bool
  started : Bool
  deriving DecidableEq

/-- Start bit, data bits from the least significant, a parity bit making the ones odd, four stop
bits. -/
def cassetteEncodeFrame (byte : Byte) : Word :=
  let ones := (List.range 8).foldl (fun ones i => ones + if byte.getLsbD i then 1 else 0) 0
  let parity : Word := if ones % 2 = 1 then 0#16 else 1#16
  let frame := (byte.setWidth 16 <<< 1) &&& 0x01FE#16
  frame ||| (parity <<< 9) ||| 0x3C00#16

def cassetteInit : Cassette where
  signalMode := false
  motorOn := false
  buf := []
  bytePos := 0
  bitPos := casFrameBits
  frame := 0#16
  half := 0
  leaderLeft := 0
  cycToEdge := 0
  cb1Level := true
  finished := false
  started := false

def cassetteRewind (c : Cassette) : Cassette :=
  { c with
    bytePos := 0, bitPos := casFrameBits, half := 0, leaderLeft := casLeaderSyncs
    cycToEdge := 0, cb1Level := true, finished := false }

def cassetteSignalBegin (c : Cassette) (buf : List Byte) : Cassette :=
  cassetteRewind { c with signalMode := true, buf := buf }

/-- The next byte to frame: the leader's, then the tape's. -/
def cassetteNextByte (c : Cassette) : Option (Byte × Cassette) :=
  if c.leaderLeft > 0 then some (casSyncByte, { c with leaderLeft := c.leaderLeft - 1 })
  else
    match c.buf[c.bytePos]? with
    | some b => some (b, { c with bytePos := c.bytePos + 1 })
    | none => none

/-- One half-pulse of the current bit: the first is low and short, the second high, its length
the bit. -/
def cassetteHalf (c : Cassette) : (Bool × Nat) × Cassette :=
  let bit := c.frame.getLsbD c.bitPos
  let out := if c.half = 0 then (false, casHalfOne)
    else (true, if bit then casHalfOne else casHalfLong)
  (out, if c.half + 1 ≥ 2 then { c with half := 0, bitPos := c.bitPos + 1 }
    else { c with half := c.half + 1 })

/-- The level of the next half-pulse, and how long it lasts. -/
def cassetteStep (c : Cassette) : (Bool × Nat) × Cassette :=
  if c.bitPos ≥ casFrameBits then
    match cassetteNextByte c with
    | some (b, c) => cassetteHalf { c with frame := cassetteEncodeFrame b, bitPos := 0, half := 0 }
    | none => ((true, 100000), { c with finished := true })
  else cassetteHalf c

/-- The half-pulses of so many steps. -/
def cassetteWave : Nat → Cassette → List (Bool × Nat)
  | 0, _ => []
  | n + 1, c => (cassetteStep c).1 :: cassetteWave n (cassetteStep c).2

/-- The generator after so many steps. -/
def cassetteAfter : Nat → Cassette → Cassette
  | 0, c => c
  | n + 1, c => cassetteAfter n (cassetteStep c).2

/-! ## The capture -/

/-- `tc->state`. -/
inductive TapeFraming
  | hunt | data | parity
  deriving DecidableEq, Repr

/-- The part of `tape_capture_t` that re-assembles frames. -/
structure TapeDeframer where
  state : TapeFraming
  bitcount : Nat
  curByte : Byte
  out : List Byte
  deriving DecidableEq

/-- `tape_capture_t`. -/
structure TapeCapture extends TapeDeframer where
  active : Bool
  primed : Bool
  lastPb7 : Bool
  havePrevEdge : Bool
  prevEdgeCyc : BitVec 64
  deriving DecidableEq

def tapeCaptureBegin : TapeCapture where
  state := .hunt
  bitcount := 0
  curByte := 0#8
  out := []
  active := true
  primed := false
  lastPb7 := false
  havePrevEdge := false
  prevEdgeCyc := 0#64

/-- One decoded bit: hunt the start bit, take eight data bits, burn the parity. -/
def tapeCaptureBit (tc : TapeDeframer) (bit : Bool) : TapeDeframer :=
  match tc.state with
  | .hunt => if !bit then { tc with state := .data, bitcount := 0, curByte := 0#8 } else tc
  | .data =>
    let curByte := (tc.curByte >>> 1) ||| if bit then 0x80#8 else 0#8
    if tc.bitcount + 1 ≥ 8 then
      { tc with
        state := .parity, bitcount := tc.bitcount + 1, curByte := curByte
        out := tc.out ++ [curByte] }
    else { tc with bitcount := tc.bitcount + 1, curByte := curByte }
  | .parity => { tc with state := .hunt }

/-- A sample of the line. The first only seeds the level; then the time between two rising edges
is a bit. -/
def tapeCaptureSample (tc : TapeCapture) (pb7 : Bool) (cyc : BitVec 64) : TapeCapture :=
  if !tc.active then tc
  else if !tc.primed then { tc with primed := true, lastPb7 := pb7 }
  else
    let edge := !tc.lastPb7 && pb7
    let tc := { tc with lastPb7 := pb7 }
    if !edge then tc
    else if !tc.havePrevEdge then { tc with havePrevEdge := true, prevEdgeCyc := cyc }
    else
      let period := cyc - tc.prevEdgeCyc
      { tc with
        prevEdgeCyc := cyc
        toTapeDeframer := tapeCaptureBit tc.toTapeDeframer (period < casPeriodThresh) }

/-! ## Bits and frames -/

/-- The bits of a byte's frame, in the order they are played. -/
def frameBits (byte : Byte) : List Bool :=
  (List.range casFrameBits).map (cassetteEncodeFrame byte).getLsbD

/-- How long the second half of a bit lasts. -/
def bitHalf (bit : Bool) : Nat := if bit then casHalfOne else casHalfLong

/-- The two half-pulses of a bit. -/
def bitWave (bit : Bool) : List (Bool × Nat) := [(false, casHalfOne), (true, bitHalf bit)]

theorem frameBits_eq (byte : Byte) :
    ∃ parity, frameBits byte =
      [false] ++ (List.range 8).map byte.getLsbD ++ [parity, true, true, true, true] := by
  refine ⟨(cassetteEncodeFrame byte).getLsbD 9, ?_⟩
  have h : ∀ byte : Byte, frameBits byte =
      [false] ++ (List.range 8).map byte.getLsbD ++
        [(cassetteEncodeFrame byte).getLsbD 9, true, true, true, true] := by
    decide
  exact h byte

end Phosphoric
