import Mathlib.Data.List.Sort
import Phosphoric.Lib.Word

/-!
# Standard MIDI files

`src/io/smf.c`: the parser of a file of tracks into the messages that go on the wire.

A parser has the bytes up to the end it is checked against, the file's or the track's, and leaves
those it has not read. A read past them is an error of its own, `outside`, and so is a loop that
does not come to its end, `endless`: that neither happens is a theorem about the whole parser.

The records of all tracks are sorted by their ticks. The time stamps, floating-point numbers made
from the ticks and the tempo, are left out.
-/

namespace Phosphoric.Smf

/-! ## Readers -/

/-- What ends the parser: a file that is refused, or one of the two things it must not do. -/
inductive SmfError
  | malformed | outside | endless
  deriving DecidableEq, Repr

/-- `d[(*pos)++]`. -/
def rdByte : List Byte → Except SmfError (Byte × List Byte)
  | [] => .error .outside
  | b :: rest => .ok (b, rest)

/-- `n` bytes copied or compared. -/
def rdBytes (n : Nat) (rest : List Byte) : Except SmfError (List Byte × List Byte) :=
  if n ≤ rest.length then .ok (rest.take n, rest.drop n) else .error .outside

/-- The number of some bytes, the highest first. -/
def beNat (bytes : List Byte) : Nat := bytes.foldl (fun v b => v * 256 + b.toNat) 0

/-- `rd_u32`, and `rd_u16`. -/
def rdBe (n : Nat) (rest : List Byte) : Except SmfError (Nat × List Byte) :=
  if rest.length < n then .error .malformed
  else do
    let (bytes, rest) ← rdBytes n rest
    return (beNat bytes, rest)

/-- `rd_vlq`, at most `n` bytes being left of the four. -/
def rdVlq : Nat → Nat → List Byte → Except SmfError (Nat × List Byte)
  | 0, _, _ => .error .malformed
  | n + 1, v, rest =>
    if rest = [] then .error .malformed
    else do
      let (b, rest) ← rdByte rest
      let v := v * 2 ^ 7 + b.toNat % 2 ^ 7
      if b < 0x80#8 then return (v, rest) else rdVlq n v rest

/-- `MThd`. -/
def headerMagic : List Byte := [0x4D#8, 0x54#8, 0x68#8, 0x64#8]

/-- `MTrk`. -/
def trackMagic : List Byte := [0x4D#8, 0x54#8, 0x72#8, 0x6B#8]

/-- `channel_msg_data`: the data bytes of a channel message. -/
def channelMsgData (status : Byte) : Option Nat :=
  let kind := status &&& 0xF0#8
  if kind = 0x80#8 ∨ kind = 0x90#8 ∨ kind = 0xA0#8 ∨ kind = 0xB0#8 ∨ kind = 0xE0#8 then some 2
  else if kind = 0xC0#8 ∨ kind = 0xD0#8 then some 1
  else none

/-! ## Tracks -/

/-- `rec_t`. -/
structure SmfRec where
  tick : Nat
  seq : Nat
  isTempo : Bool
  tempoUs : Nat
  off : Nat
  len : Nat
  deriving DecidableEq, Repr

/-- What `parse_track` reads and changes, the file apart. -/
structure SmfState where
  tick : Nat
  running : Byte
  pool : List Byte
  recs : List SmfRec
  seq : Nat
  deriving DecidableEq

namespace SmfState

variable (st : SmfState)

/-- A message put into the pool, and its record. Offsets have 32 bits, lengths 16. -/
def message (tick : Nat) (wire : List Byte) : SmfState :=
  { st with
    tick, pool := st.pool ++ wire, seq := (st.seq + 1) % 2 ^ 32
    recs := st.recs ++ [{
      tick, seq := st.seq, isTempo := false, tempoUs := 0, off := st.pool.length % 2 ^ 32,
      len := wire.length % 2 ^ 16 }] }

/-- The record of a tempo. -/
def tempo (tick tempoUs : Nat) : SmfState :=
  { st with
    tick, seq := (st.seq + 1) % 2 ^ 32
    recs := st.recs ++ [{
      tick, seq := st.seq, isTempo := true, tempoUs, off := 0, len := 0 }] }

/-- The `n` bytes of data of a message, checked against the end and put into the state. -/
def withData (n : Nat) (rest : List Byte) (f : List Byte → SmfState) :
    Except SmfError (SmfState × List Byte) :=
  if rest.length < n then .error .malformed
  else do
    let (data, after) ← rdBytes n rest
    return (f data, after)

/-- A meta event, `FF` being read: only a tempo leaves a record. -/
def parseMeta (tick : Nat) (rest : List Byte) : Except SmfError (SmfState × List Byte) :=
  if rest = [] then .error .malformed
  else do
    let (mtype, rest) ← rdByte rest
    let (mlen, rest) ← rdVlq 4 0 rest
    withData mlen rest fun data =>
      { if mtype = 0x51#8 ∧ mlen = 3 then st.tempo tick (beNat data) else { st with tick } with
        running := 0x00#8 }

/-- A system-exclusive message or an escape, its first byte `b` being read. -/
def parseSysex (tick : Nat) (b : Byte) (rest : List Byte) :
    Except SmfError (SmfState × List Byte) := do
  let (slen, rest) ← rdVlq 4 0 rest
  withData slen rest fun data => { st.message tick (b :: data) with running := 0x00#8 }

/-- The data of a channel message. -/
def parseData (tick : Nat) (status : Byte) (rest : List Byte) :
    Except SmfError (SmfState × List Byte) :=
  match channelMsgData status with
  | none => .error .malformed
  | some ndata =>
    withData ndata rest fun data => { st.message tick (status :: data) with running := status }

/-- A turn of the loop of `parse_track`. A byte below `80` is data, under the running status. -/
def parseEvent (rest : List Byte) : Except SmfError (SmfState × List Byte) := do
  let (delta, rest) ← rdVlq 4 0 rest
  let tick := (st.tick + delta) % 2 ^ 32
  if rest = [] then .error .malformed
  else
    let (b, after) ← rdByte rest
    if b = 0xFF#8 then st.parseMeta tick after
    else if b = 0xF0#8 ∨ b = 0xF7#8 then st.parseSysex tick b after
    else if 0x80#8 ≤ b then st.parseData tick b after
    else if st.running = 0x00#8 then .error .malformed
    else st.parseData tick st.running rest

/-- The loop of `parse_track`, over what is left of the track. -/
def parseEvents : Nat → SmfState → List Byte → Except SmfError SmfState
  | _, st, [] => .ok st
  | 0, _, _ :: _ => .error .endless
  | fuel + 1, st, b :: rest => do
    let (st, rest) ← st.parseEvent (b :: rest)
    parseEvents fuel st rest

/-- `parse_track`. A turn reads a byte at least. -/
def parseTrack (body : List Byte) : Except SmfError SmfState :=
  parseEvents body.length { st with tick := 0, running := 0x00#8 } body

/-- The loop of `smf_parse` over the tracks, `n` of them still to come. -/
def parseTracks : Nat → SmfState → List Byte → Except SmfError SmfState
  | 0, st, _ => .ok st
  | n + 1, st, rest =>
    if rest.length < 8 then .ok st
    else do
      let (magic, rest) ← rdBytes 4 rest
      if magic ≠ trackMagic then .error .malformed
      else
        let (tlen, rest) ← rdBe 4 rest
        if rest.length < tlen then .error .malformed
        else
          let (body, rest) ← rdBytes tlen rest
          let st ← st.parseTrack body
          parseTracks n st rest

end SmfState

/-! ## The file -/

/-- `rec_cmp`: not after. -/
def RecLe (a b : SmfRec) : Prop := a.tick < b.tick ∨ a.tick = b.tick ∧ a.seq ≤ b.seq

instance : DecidableRel RecLe := fun a b =>
  inferInstanceAs (Decidable (a.tick < b.tick ∨ a.tick = b.tick ∧ a.seq ≤ b.seq))

/-- `smf_event_t`, with its tick for the time that is computed from it. -/
structure SmfEvent where
  tick : Nat
  off : Nat
  len : Nat
  deriving DecidableEq, Repr

/-- `smf_t`. -/
structure Song where
  events : List SmfEvent
  pool : List Byte
  format : Nat
  ntracks : Nat
  deriving DecidableEq

/-- The wire event of a record. -/
def SmfRec.event (r : SmfRec) : Option SmfEvent :=
  if r.isTempo then none else some { tick := r.tick, off := r.off, len := r.len }

/-- An SMPTE division gives no length of a tick. -/
def BadDivision (division : Nat) : Prop :=
  2 ^ 15 ≤ division ∧ (-(BitVec.ofNat 8 (division / 256)).toInt ≤ 0 ∨ division % 256 = 0)

instance (division : Nat) : Decidable (BadDivision division) :=
  inferInstanceAs (Decidable (_ ∧ _))

/-- What a file has before its first track. -/
def SmfState.start : SmfState := { tick := 0, running := 0x00#8, pool := [], recs := [], seq := 0 }

/-- `smf_parse`. The place of the first track is a number of 32 bits. Of `qsort` no more is used than
that it sorts: no two records have one number. -/
def smfParse (data : List Byte) : Except SmfError Song :=
  if data.length < 14 then .error .malformed
  else do
    let (magic, rest) ← rdBytes 4 data
    if magic ≠ headerMagic then .error .malformed
    else
      let (hlen, rest) ← rdBe 4 rest
      let (format, rest) ← rdBe 2 rest
      let (ntracks, rest) ← rdBe 2 rest
      let (division, _) ← rdBe 2 rest
      let st ← SmfState.parseTracks ntracks .start (data.drop ((8 + hlen) % 2 ^ 32))
      if BadDivision division then .error .malformed
      else
        let recs := st.recs.insertionSort RecLe
        return { events := recs.filterMap SmfRec.event, pool := st.pool, format, ntracks }

end Phosphoric.Smf
