import Phosphoric.Serial.Modem

/-!
# The Digitelec modem

The `digitelec_*` functions of `src/io/serial_backend.c`. The line is a TCP connection, dialled when
DTR rises and hung up when it falls. `digitelec_recv` reads into a ring of 512 bytes until the
socket has no more, drives CTS by the level of the ring, and takes one byte out.

**The peer.** Its side of the connection is a list of bytes it may end at any point. It acts between
calls and between the reads of one call: a call of `digitelec_recv` is as many steps as it makes
reads.

**Theorem (`digitelec_keeps_iff`).** Every step of a run keeps what the peer sent, in order, and CTS
within its marks, exactly in the runs where

- the end of the stream, or a write that fails, meets nothing left to hand out, and
- no call finds the ring one byte above the low mark with CTS off.

The end of the stream empties the ring: bytes and a close that arrive together are lost
(`digitelec_loses`). The ring never overflows.
-/

open Function (update)

namespace Phosphoric

/-- A flag is not both off and on. -/
theorem off_on {b : Bool} {p : Prop} (hoff : b = false) (hon : b = true) : p :=
  absurd (hoff.symm.trans hon) Bool.false_ne_true

/-! ## The ring -/

/-- The size of `rx_buf`. -/
abbrev digitelecBufsz : Nat := 512

/-- `rx_buf`, `rx_head`, `rx_tail` and `rx_count`. -/
structure DigitelecRx where
  buf : Nat → Byte
  head : Nat
  tail : Nat
  count : Nat

namespace DigitelecRx

variable (rx : DigitelecRx)

def push (byte : Byte) : DigitelecRx :=
  { rx with
    buf := update rx.buf rx.head byte
    head := (rx.head + 1) % digitelecBufsz
    count := rx.count + 1 }

def pushAll (bytes : List Byte) : DigitelecRx := bytes.foldl push rx

def pop : Option Byte × DigitelecRx :=
  if 0 < rx.count then
    (some (rx.buf rx.tail),
      { rx with tail := (rx.tail + 1) % digitelecBufsz, count := rx.count - 1 })
  else (none, rx)

def clear : DigitelecRx := { rx with head := 0, tail := 0, count := 0 }

/-- The bytes, the next to be taken out first. -/
def contents : List Byte :=
  (List.range rx.count).map fun i => rx.buf ((rx.tail + i) % digitelecBufsz)

/-- The indices and the count agree, and the count is within the array. -/
structure Valid : Prop where
  tail_lt : rx.tail < digitelecBufsz
  count_le : rx.count ≤ digitelecBufsz
  head_eq : rx.head = (rx.tail + rx.count) % digitelecBufsz

/-- The ring it is. -/
def ring (h : rx.Valid) : RingBuffer Byte where
  buf := rx.buf
  size := digitelecBufsz
  head := rx.head
  tail := rx.tail
  count := rx.count
  tail_lt := h.tail_lt
  count_le := h.count_le
  head_eq := h.head_eq

variable {rx}

theorem length_contents : rx.contents.length = rx.count := by
  rw [contents, List.length_map, List.length_range]

theorem clear_valid : rx.clear.Valid := ⟨Nat.zero_lt_succ 511, Nat.zero_le _, rfl⟩

theorem push_spec (h : rx.Valid) (hroom : rx.count < digitelecBufsz) (byte : Byte) :
    (rx.push byte).Valid ∧ (rx.push byte).contents = rx.contents ++ [byte] := by
  have hvalid : (rx.push byte).Valid := by
    refine ⟨h.tail_lt, hroom, ?_⟩
    show (rx.head + 1) % digitelecBufsz = (rx.tail + (rx.count + 1)) % digitelecBufsz
    rw [h.head_eq, Nat.mod_add_mod, Nat.add_assoc]
  have hpush : (rx.ring h).push byte = some ((rx.push byte).ring hvalid) := dif_pos hroom
  exact ⟨hvalid, RingBuffer.contents_push _ hpush⟩

theorem pushAll_spec (bytes : List Byte) (h : rx.Valid)
    (hroom : rx.count + bytes.length ≤ digitelecBufsz) :
    (rx.pushAll bytes).Valid ∧ (rx.pushAll bytes).contents = rx.contents ++ bytes := by
  induction bytes generalizing rx with
  | nil => exact ⟨h, (List.append_nil _).symm⟩
  | cons byte bytes ih =>
    rw [List.length_cons] at hroom
    obtain ⟨hvalid, hpush⟩ := push_spec h (by omega) byte
    obtain ⟨hvalid', hrest⟩ := ih hvalid (show rx.count + 1 + bytes.length ≤ _ by omega)
    refine ⟨hvalid', hrest.trans ?_⟩
    rw [hpush, List.append_assoc, List.singleton_append]

theorem pop_spec (h : rx.Valid) :
    rx.pop.2.Valid ∧ rx.pop.1.toList ++ rx.pop.2.contents = rx.contents := by
  by_cases hany : 0 < rx.count
  · have hpop : rx.pop = (some (rx.buf rx.tail), rx.pop.2) := by
      rw [pop, if_pos hany]
    have hvalid : rx.pop.2.Valid := by
      rw [pop, if_pos hany]
      refine ⟨Nat.mod_lt _ (by decide), (Nat.sub_le _ 1).trans h.count_le, ?_⟩
      show rx.head = ((rx.tail + 1) % digitelecBufsz + (rx.count - 1)) % digitelecBufsz
      rw [h.head_eq, Nat.mod_add_mod]
      congr 1
      omega
    have hring : (rx.ring h).pop = some (rx.buf rx.tail, rx.pop.2.ring hvalid) := by
      have hrest : rx.pop.2 =
          { rx with tail := (rx.tail + 1) % digitelecBufsz, count := rx.count - 1 } := by
        rw [pop, if_pos hany]
      refine (dif_pos hany).trans ?_
      unfold ring
      simp only [hrest]
    refine ⟨hvalid, ?_⟩
    rw [hpop]
    exact (RingBuffer.contents_pop _ hring).symm
  · have hpop : rx.pop = (none, rx) := if_neg hany
    rw [hpop]
    exact ⟨h, rfl⟩

theorem pop_count : rx.pop.2.count = rx.count - 1 ∧ rx.pop.1.toList.length = min rx.count 1 := by
  unfold pop
  split_ifs with hany
  · exact ⟨rfl, (Nat.min_eq_right hany).symm⟩
  · have hzero : rx.count = 0 := Nat.eq_zero_of_not_pos hany
    rw [hzero]
    exact ⟨rfl, rfl⟩

end DigitelecRx

/-! ## The modem -/

/-- The peer's side of a connection: what has been read of it, what has not, and whether it has
closed. -/
structure PeerStream where
  taken : List Byte
  line : List Byte
  ended : Bool

/-- All the peer has sent. -/
def PeerStream.sent (peer : PeerStream) : List Byte := peer.taken ++ peer.line

/-- What a peer does at one moment: it sends bytes, and may close after them. -/
structure PeerAct where
  bytes : List Byte
  close : Bool

/-- A peer that has closed sends no more. -/
def PeerStream.hear (act : PeerAct) (peer : PeerStream) : PeerStream :=
  if peer.ended then peer else { peer with line := peer.line ++ act.bytes, ended := act.close }

/-- `read` of at most `n` bytes: no bytes at the end of the stream, `none` where it would block. -/
def PeerStream.read (n : Nat) (peer : PeerStream) : Option (List Byte × PeerStream) :=
  if peer.line = [] then if peer.ended then some ([], peer) else none
  else
    let bytes := peer.line.take n
    some (bytes, { peer with taken := peer.taken ++ bytes, line := peer.line.drop n })

/-- `state.digitelec`, the lines of the card's ACIA (`dtr` is bit `ACIA_CMD_DTR` of its command
register), and the peer of the last connection. -/
structure Digitelec where
  rx : DigitelecRx
  carrier : Bool
  /-- `sockfd >= 0`. -/
  socket : Bool
  dtrWasOn : Bool
  ctsActive : Bool
  dtr : Bool
  dcd : Bool
  cts : Bool
  peer : PeerStream

/-- `cts_high_water`, as `digitelec_open` sets it. -/
abbrev ctsHighWater : Nat := 400

/-- `cts_low_water`. -/
abbrev ctsLowWater : Nat := 256

/-- `digitelec_open`, with what the array and the command register hold. -/
def digitelecOpen (buf : Nat → Byte) (dtr : Bool) : Digitelec where
  rx := { buf := buf, head := 0, tail := 0, count := 0 }
  carrier := false
  socket := false
  dtrWasOn := false
  ctsActive := true
  dtr := dtr
  dcd := false
  cts := true
  peer := { taken := [], line := [], ended := false }

/-- `digitelec_connect`, where the host answers. -/
def digitelecConnect (m : Digitelec) : Digitelec :=
  { m with
    socket := true, carrier := true, dcd := true
    peer := { taken := [], line := [], ended := false } }

/-- `digitelec_disconnect`. -/
def digitelecDisconnect (m : Digitelec) : Digitelec :=
  { m with
    socket := false, carrier := false, rx := m.rx.clear, dcd := false, cts := true
    ctsActive := true }

/-- `digitelec_check_dtr`, `answers` being whether the host does. -/
def digitelecCheckDtr (answers : Bool) (m : Digitelec) : Digitelec :=
  let checked :=
    if m.dtr && !m.dtrWasOn then
      if !m.carrier && answers then digitelecConnect m else m
    else if !m.dtr && m.dtrWasOn then
      if m.carrier then digitelecDisconnect m else m
    else m
  { checked with dtrWasOn := m.dtr }

/-- `digitelec_send`: whether it takes the byte, and what goes to the socket. -/
def digitelecSend (byte : Byte) (answers : Bool) (write : SocketWrite) (m : Digitelec) :
    (Bool × List Byte) × Digitelec :=
  let m := digitelecCheckDtr answers m
  if m.carrier && m.socket then
    if write = .failed then ((false, []), digitelecDisconnect m)
    else ((true, write.taken [byte]), m)
  else ((false, []), m)

/-- `digitelec_poll`. -/
def digitelecPoll (answers : Bool) (m : Digitelec) : Bool × Digitelec :=
  let m := digitelecCheckDtr answers m
  (decide (0 < m.rx.count) ||
    m.carrier && m.socket && (decide (m.peer.line ≠ []) || m.peer.ended), m)

/-- A round of the loop of `digitelec_recv`, and whether the loop goes on. -/
def digitelecRead (m : Digitelec) : Bool × Digitelec :=
  if m.rx.count < digitelecBufsz then
    match m.peer.read (min (digitelecBufsz - m.rx.count) 64) with
    | some ([], _) => (false, digitelecDisconnect m)
    | some (bytes, peer) => (true, { m with rx := m.rx.pushAll bytes, peer := peer })
    | none => (false, m)
  else (false, m)

/-- The flow control of `digitelec_recv`. -/
def digitelecFlow (m : Digitelec) : Digitelec :=
  if m.ctsActive && decide (ctsHighWater ≤ m.rx.count) then
    { m with ctsActive := false, cts := false }
  else if !m.ctsActive && decide (m.rx.count ≤ ctsLowWater) then
    { m with ctsActive := true, cts := true }
  else m

/-! ## Runs -/

/-- A modem at work: `receiving` inside the loop of `digitelec_recv`. Of the connection, `handed` is
what `digitelec_recv` has returned, and `dropped` whether the program has cleared DTR. -/
structure DigitelecRun where
  modem : Digitelec
  receiving : Bool
  handed : List Byte
  dropped : Bool

/-- What the peer, the program and `digitelec_recv` do; `read` is a round of the loop, and what
follows the last. -/
inductive DigitelecOp
  | peer (act : PeerAct)
  | dtr (on : Bool)
  | send (byte : Byte) (answers : Bool) (write : SocketWrite)
  | poll (answers : Bool)
  | recv
  | read

/-- Before any connection. -/
def DigitelecRun.open (buf : Nat → Byte) (dtr : Bool) : DigitelecRun where
  modem := digitelecOpen buf dtr
  receiving := false
  handed := []
  dropped := true

/-- The check of DTR dials, and is answered. -/
def Digitelec.dials (answers : Bool) (m : Digitelec) : Bool :=
  m.dtr && !m.dtrWasOn && !m.carrier && answers

namespace DigitelecRun

/-- A new connection has handed out nothing. -/
def dialled (answers : Bool) (s : DigitelecRun) : DigitelecRun :=
  if s.modem.dials answers then { s with handed := [], dropped := false } else s

/-- The byte `digitelec_recv` takes out of the ring. -/
def pop (s : DigitelecRun) : DigitelecRun :=
  { s with
    receiving := false
    modem := { s.modem with rx := s.modem.rx.pop.2 }
    handed := s.handed ++ s.modem.rx.pop.1.toList }

def step (s : DigitelecRun) : DigitelecOp → DigitelecRun
  | .peer act =>
    if s.modem.socket then { s with modem := { s.modem with peer := s.modem.peer.hear act } } else s
  | .dtr on =>
    if s.receiving then s
    else { s with modem := { s.modem with dtr := on }, dropped := s.dropped || !on }
  | .send byte answers write =>
    if s.receiving then s
    else { s.dialled answers with modem := (digitelecSend byte answers write s.modem).2 }
  | .poll answers =>
    if s.receiving then s
    else { s.dialled answers with modem := (digitelecPoll answers s.modem).2 }
  | .recv =>
    if s.receiving then s
    else if s.modem.carrier && s.modem.socket then { s with receiving := true } else s.pop
  | .read =>
    if s.receiving then
      if (digitelecRead s.modem).1 then { s with modem := (digitelecRead s.modem).2 }
      else pop { s with modem := digitelecFlow (digitelecRead s.modem).2 }
    else s

/-- What is read and not handed out, and what can still be read. -/
def owed (s : DigitelecRun) : List Byte :=
  s.modem.rx.contents ++ if s.modem.socket then s.modem.peer.line else []

/-- What a step has to meet: the ring keeps to its array, what was handed out and what is owed are
what the peer sent while DTR is on, a call that ends hands out a byte that is owed, and CTS
goes off where the level has reached the high mark and on where it is down to the low one. A call
looks at the level before it takes its byte out. -/
structure StepKeeps (s s' : DigitelecRun) : Prop where
  bound : s'.modem.rx.count ≤ digitelecBufsz
  keeps : s'.dropped = false → s'.handed ++ s'.owed = s'.modem.peer.sent
  gives : s.receiving = true → s'.receiving = false → s.dropped = false → s.owed ≠ [] →
    s'.handed.length = s.handed.length + 1
  off : s.modem.cts = true → s'.modem.cts = false → ctsHighWater ≤ s'.modem.rx.count + 1
  on : s.modem.cts = false → s'.modem.cts = true → s'.modem.rx.count ≤ ctsLowWater
  below : s'.receiving = false → s'.modem.cts = true → s'.modem.rx.count < ctsHighWater
  above : s'.receiving = false → s'.modem.cts = false → ctsLowWater < s'.modem.rx.count

/-- The step meets no end of the connection with something owed, and no call ends one byte above the
low mark with CTS off. -/
def StepFits (s : DigitelecRun) : DigitelecOp → Prop
  | .send _ _ write =>
    s.receiving = false → s.dropped = false → write = .failed → s.owed = []
  | .read =>
    s.receiving = true → s.modem.peer.line = [] → s.modem.rx.count < digitelecBufsz →
      if s.modem.peer.ended then s.dropped = false → s.modem.rx.count = 0
      else s.modem.cts = false → s.modem.rx.count ≠ ctsLowWater + 1
  | _ => True

/-! ## What a step does -/

/-- What every step keeps. -/
structure Inv (s : DigitelecRun) : Prop where
  valid : s.modem.rx.Valid
  socket : s.modem.socket = s.modem.carrier
  cts : s.modem.cts = s.modem.ctsActive
  idle : s.modem.carrier = false → s.modem.rx.count = 0 ∧ s.modem.cts = true
  receiving : s.receiving = true → s.modem.carrier = true
  dtr : s.dropped = false → s.modem.dtr = true

/-- What a step that keeps its bytes and CTS keeps. -/
structure Good (s : DigitelecRun) : Prop where
  keeps : s.dropped = false → s.handed ++ s.owed = s.modem.peer.sent
  below : s.receiving = false → s.modem.cts = true → s.modem.rx.count < ctsHighWater
  above : s.receiving = false → s.modem.cts = false → ctsLowWater < s.modem.rx.count

variable {s s' : DigitelecRun}

theorem StepKeeps.good (h : StepKeeps s s') : Good s' := ⟨h.keeps, h.below, h.above⟩

theorem Inv.owed_idle (h : s.Inv) (hidle : s.modem.carrier = false) : s.owed = [] := by
  have hcontents : s.modem.rx.contents = [] := by
    rw [← List.length_eq_zero_iff, DigitelecRx.length_contents, (h.idle hidle).1]
  rw [owed, hcontents, h.socket, hidle]
  rfl

/-- A step in which the ring, CTS and the end of a call play no part. -/
theorem Good.stepKeeps (hinv : s'.Inv) (h : s'.Good) (hcts : s'.modem.cts = s.modem.cts)
    (hcall : s.receiving = true → s'.receiving = true) : StepKeeps s s' := by
  refine ⟨hinv.valid.count_le, h.keeps, ?_, ?_, ?_, h.below, h.above⟩
  · intro hreceiving hended
    exact off_on hended (hcall hreceiving)
  · intro hon hoff
    exact off_on hoff (hcts.trans hon)
  · intro hoff hon
    exact off_on (hcts.trans hoff) hon

/-- The end of the connection. -/
def hungUp (s : DigitelecRun) : DigitelecRun :=
  { s with modem := digitelecDisconnect s.modem }

theorem hungUp_owed (s : DigitelecRun) : s.hungUp.owed = [] := List.append_nil []

theorem Inv.hungUp (h : s.Inv) (hidle : s.receiving = false) : s.hungUp.Inv where
  valid := DigitelecRx.clear_valid
  socket := rfl
  cts := rfl
  idle _ := ⟨rfl, rfl⟩
  receiving hreceiving := off_on hidle hreceiving
  dtr := h.dtr

/-- Outside a call, the end of the connection loses what is owed. -/
theorem hungUp_keeps_iff
    (hkeeps : s.dropped = false → s.handed ++ s.owed = s.modem.peer.sent) (t : DigitelecRun)
    (ht : t.receiving = false) :
    StepKeeps t s.hungUp ↔ (s.dropped = false → s.owed = []) := by
  constructor
  · intro h hdropped
    have hafter := h.keeps hdropped
    rw [hungUp_owed, List.append_nil] at hafter
    exact List.append_right_eq_self.mp ((hkeeps hdropped).trans hafter.symm)
  · intro hempty
    refine ⟨Nat.zero_le _, ?_, ?_, ?_, ?_, ?_, ?_⟩
    · intro hdropped
      rw [hungUp_owed, ← hempty hdropped]
      exact hkeeps hdropped
    · exact fun hreceiving => off_on ht hreceiving
    · exact fun _ hoff => absurd hoff.symm Bool.false_ne_true
    · exact fun _ _ => Nat.zero_le _
    · exact fun _ _ => Nat.zero_lt_succ 399
    · exact fun _ hoff => absurd hoff.symm Bool.false_ne_true

/-! ### The check of DTR -/

/-- The check of DTR, with what it means for the connection. -/
def checked (answers : Bool) (s : DigitelecRun) : DigitelecRun :=
  { s.dialled answers with modem := digitelecCheckDtr answers s.modem }

/-- The check dials, hangs up, or does neither. -/
theorem checked_cases (answers : Bool) (s : DigitelecRun) :
    (s.modem.dials answers = true ∧ s.modem.dtr = true ∧ s.modem.carrier = false ∧
      s.checked answers =
        { s with
          modem := { digitelecConnect s.modem with dtrWasOn := s.modem.dtr }
          handed := [], dropped := false }) ∨
    (s.modem.dtr = false ∧ s.modem.carrier = true ∧ s.checked answers =
      { s.hungUp with modem := { s.hungUp.modem with dtrWasOn := s.modem.dtr } }) ∨
    s.checked answers = { s with modem := { s.modem with dtrWasOn := s.modem.dtr } } := by
  unfold checked dialled digitelecCheckDtr Digitelec.dials hungUp
  cases hdtr : s.modem.dtr <;> cases hwas : s.modem.dtrWasOn <;>
    cases hcarrier : s.modem.carrier <;> cases answers <;> simp

theorem checked_receiving (answers : Bool) (s : DigitelecRun) :
    (s.checked answers).receiving = s.receiving := by
  obtain ⟨-, -, -, hchecked⟩ | ⟨-, -, hchecked⟩ | hchecked := checked_cases answers s <;>
    rw [hchecked]
  rfl

/-- The check keeps the bytes of a connection whose DTR is on. -/
theorem checked_keeps (h : s.Inv) (hgood : s.Good) (hidle : s.receiving = false)
    (answers : Bool) :
    (s.checked answers).Inv ∧ StepKeeps s (s.checked answers) := by
  obtain ⟨-, hdtr, hcarrier, hchecked⟩ | ⟨hdtr, -, hchecked⟩ | hchecked := checked_cases answers s
  · obtain ⟨hcount, hon⟩ := h.idle hcarrier
    have hinv : (s.checked answers).Inv := by
      rw [hchecked]
      exact ⟨h.valid, rfl, h.cts, nofun, fun _ => rfl, fun _ => hdtr⟩
    refine ⟨hinv, Good.stepKeeps hinv ?_ (by rw [hchecked]; rfl)
      fun hreceiving => off_on hidle hreceiving⟩
    rw [hchecked]
    refine ⟨?_, hgood.below, hgood.above⟩
    intro _
    have hcontents : s.modem.rx.contents = [] := by
      rw [← List.length_eq_zero_iff, DigitelecRx.length_contents, hcount]
    show [] ++ (s.modem.rx.contents ++ []) = []
    rw [hcontents]
    rfl
  · have hdropped : s.dropped = true := by
      cases hdropped : s.dropped with
      | true => rfl
      | false => exact off_on hdtr (h.dtr hdropped)
    have hinv := h.hungUp hidle
    have hkeeps := (hungUp_keeps_iff hgood.keeps s hidle).mpr fun hon =>
      off_on hon hdropped
    rw [hchecked]
    exact ⟨⟨hinv.valid, hinv.socket, hinv.cts, hinv.idle, hinv.receiving, hinv.dtr⟩,
      ⟨hkeeps.bound, hkeeps.keeps, hkeeps.gives, hkeeps.off, hkeeps.on, hkeeps.below,
        hkeeps.above⟩⟩
  · have hinv : (s.checked answers).Inv := by
      rw [hchecked]
      exact ⟨h.valid, h.socket, h.cts, h.idle, h.receiving, h.dtr⟩
    refine ⟨hinv, Good.stepKeeps hinv ?_ (by rw [hchecked]) ?_⟩
    · rw [hchecked]
      exact ⟨hgood.keeps, hgood.below, hgood.above⟩
    · exact (checked_receiving answers s).trans

/-! ### Calls -/

theorem step_send (hidle : s.receiving = false) (byte : Byte) (answers : Bool)
    (write : SocketWrite) :
    s.step (.send byte answers write) =
      if (s.checked answers).modem.carrier && (s.checked answers).modem.socket &&
          decide (write = .failed) then (s.checked answers).hungUp
      else s.checked answers := by
  have hstep : s.step (.send byte answers write) =
      { s.dialled answers with modem := (digitelecSend byte answers write s.modem).2 } :=
    if_neg (by rw [hidle]; exact Bool.false_ne_true)
  rw [hstep]
  unfold digitelecSend checked hungUp
  dsimp only
  by_cases hline : ((digitelecCheckDtr answers s.modem).carrier &&
      (digitelecCheckDtr answers s.modem).socket) = true
  · by_cases hwrite : write = .failed
    · rw [if_pos hline, if_pos hwrite, hline, decide_eq_true hwrite]
      rfl
    · rw [if_pos hline, if_neg hwrite, hline, decide_eq_false hwrite]
      rfl
  · rw [if_neg hline, Bool.eq_false_iff.mpr hline]
    rfl

theorem send_inv (h : s.Inv) (hgood : s.Good) (hidle : s.receiving = false) (byte : Byte)
    (answers : Bool) (write : SocketWrite) : (s.step (.send byte answers write)).Inv := by
  have hchecked := (checked_keeps h hgood hidle answers).1
  rw [step_send hidle]
  split_ifs
  · exact hchecked.hungUp ((checked_receiving answers s).trans hidle)
  · exact hchecked

theorem send_keeps_iff (h : s.Inv) (hgood : s.Good) (hidle : s.receiving = false) (byte : Byte)
    (answers : Bool) (write : SocketWrite) :
    StepKeeps s (s.step (.send byte answers write)) ↔
      (s.dropped = false → write = .failed → s.owed = []) := by
  obtain ⟨hinv, hkeeps⟩ := checked_keeps h hgood hidle answers
  have hcut := hungUp_keeps_iff hkeeps.keeps s hidle
  rw [step_send hidle]
  obtain ⟨-, -, hcarrier, hchecked⟩ | ⟨hdtr, -, hchecked⟩ | hchecked := checked_cases answers s
  · -- a new connection, and nothing owed on the last
    have hnothing := h.owed_idle hcarrier
    refine iff_of_true ?_ fun _ _ => hnothing
    split_ifs
    · refine hcut.mpr fun _ => ?_
      have hcontents := (List.append_eq_nil_iff.mp hnothing).1
      rw [hchecked]
      show s.modem.rx.contents ++ [] = []
      rw [hcontents]
      rfl
    · exact hkeeps
  · have hdown : (s.checked answers).modem.carrier = false := by rw [hchecked]; rfl
    rw [if_neg (by rw [hdown]; exact Bool.false_ne_true)]
    refine iff_of_true hkeeps fun hdropped => ?_
    exact off_on hdtr (h.dtr hdropped)
  · have hsame : (s.checked answers).modem.carrier = s.modem.carrier := by rw [hchecked]
    have howed : (s.checked answers).owed = s.owed := by rw [hchecked]; rfl
    have hdropped : (s.checked answers).dropped = s.dropped := by rw [hchecked]
    rw [howed, hdropped] at hcut
    rw [hinv.socket, Bool.and_self, hsame]
    cases hcarrier : s.modem.carrier with
    | false => exact iff_of_true hkeeps fun _ _ => h.owed_idle hcarrier
    | true =>
      by_cases hwrite : write = .failed
      · subst hwrite
        rw [if_pos (by decide)]
        exact hcut.trans ⟨fun hempty hon _ => hempty hon, fun hempty hon => hempty hon rfl⟩
      · rw [decide_eq_false hwrite]
        exact iff_of_true hkeeps fun _ hfailed => absurd hfailed hwrite

/-- The peer's doings change what it has sent and what is owed alike. -/
theorem peer_keeps (h : s.Inv) (hgood : s.Good) (act : PeerAct) :
    (s.step (.peer act)).Inv ∧ StepKeeps s (s.step (.peer act)) := by
  have hinv : (s.step (.peer act)).Inv := by
    unfold step
    dsimp only
    split_ifs
    · exact ⟨h.valid, h.socket, h.cts, h.idle, h.receiving, h.dtr⟩
    · exact h
  refine ⟨hinv, Good.stepKeeps hinv ?_ ?_ ?_⟩
  · unfold step
    dsimp only
    split_ifs with hsocket
    · refine ⟨?_, hgood.below, hgood.above⟩
      intro hdropped
      have hkeeps := hgood.keeps hdropped
      unfold owed PeerStream.sent at hkeeps ⊢
      unfold PeerStream.hear
      rw [if_pos hsocket] at hkeeps ⊢
      cases hended : s.modem.peer.ended with
      | true => exact hkeeps
      | false =>
        show s.handed ++ (s.modem.rx.contents ++ (s.modem.peer.line ++ act.bytes)) =
          s.modem.peer.taken ++ (s.modem.peer.line ++ act.bytes)
        rw [← List.append_assoc s.modem.rx.contents, ← List.append_assoc s.handed, hkeeps,
          List.append_assoc]
    · exact hgood
  · unfold step
    dsimp only
    split_ifs <;> rfl
  · unfold step
    dsimp only
    split_ifs <;> exact id

/-- The end of a call: what `pop` hands out was owed. -/
theorem pop_keeps (s : DigitelecRun) (hvalid : s.modem.rx.Valid) :
    s.pop.handed ++ s.pop.owed = s.handed ++ s.owed := by
  show (s.handed ++ s.modem.rx.pop.1.toList) ++ (s.modem.rx.pop.2.contents ++ _) =
    s.handed ++ (s.modem.rx.contents ++ _)
  rw [← (DigitelecRx.pop_spec hvalid).2, List.append_assoc, List.append_assoc]
  rfl

theorem Inv.pop (h : s.Inv) : s.pop.Inv where
  valid := (DigitelecRx.pop_spec h.valid).1
  socket := h.socket
  cts := h.cts
  idle hidle := by
    obtain ⟨hcount, hon⟩ := h.idle hidle
    refine ⟨?_, hon⟩
    show s.modem.rx.pop.2.count = 0
    rw [DigitelecRx.pop_count.1, hcount]
  receiving := nofun
  dtr := h.dtr

/-- A call without a connection hands out nothing; on one it goes to its loop. -/
theorem recv_keeps (h : s.Inv) (hgood : s.Good) :
    (s.step .recv).Inv ∧ StepKeeps s (s.step .recv) := by
  unfold step
  dsimp only
  split_ifs with hreceiving hline
  · exact ⟨h, Good.stepKeeps h hgood rfl id⟩
  · have hinv : DigitelecRun.Inv { s with receiving := true } :=
      ⟨h.valid, h.socket, h.cts, h.idle, fun _ => (Bool.and_eq_true_iff.mp hline).1, h.dtr⟩
    exact ⟨hinv, Good.stepKeeps hinv ⟨hgood.keeps, nofun, nofun⟩ rfl fun _ => rfl⟩
  · rw [h.socket, Bool.and_self, Bool.not_eq_true] at hline
    obtain ⟨hcount, hon⟩ := h.idle hline
    refine ⟨h.pop, Good.stepKeeps h.pop ⟨?_, ?_, ?_⟩ rfl ?_⟩
    · exact fun hdropped => (pop_keeps s h.valid).trans (hgood.keeps hdropped)
    · intro _ _
      rw [(h.pop.idle hline).1]
      decide
    · intro _ hoff
      exact off_on hoff hon
    · exact fun hcall => absurd hcall hreceiving

end DigitelecRun

/-! ### The loop -/

/-- A round reads bytes, meets the end of the stream, or ends the loop. -/
theorem digitelecRead_cases (m : Digitelec) :
    (∃ bytes rest, bytes ≠ [] ∧ m.rx.count + bytes.length ≤ digitelecBufsz ∧
      m.peer.line = bytes ++ rest ∧ digitelecRead m = (true,
        { m with
          rx := m.rx.pushAll bytes
          peer := { m.peer with taken := m.peer.taken ++ bytes, line := rest } })) ∨
    (m.peer.line = [] ∧ m.rx.count < digitelecBufsz ∧ m.peer.ended = true ∧
      digitelecRead m = (false, digitelecDisconnect m)) ∨
    ((m.rx.count < digitelecBufsz → m.peer.line = [] ∧ m.peer.ended = false) ∧
      digitelecRead m = (false, m)) := by
  unfold digitelecRead PeerStream.read
  by_cases hroom : m.rx.count < digitelecBufsz
  · rw [if_pos hroom]
    by_cases hline : m.peer.line = []
    · rw [if_pos hline]
      cases hended : m.peer.ended with
      | true => exact .inr (.inl ⟨hline, hroom, rfl, rfl⟩)
      | false => exact .inr (.inr ⟨fun _ => ⟨hline, rfl⟩, rfl⟩)
    · rw [if_neg hline]
      generalize hn : min (digitelecBufsz - m.rx.count) 64 = n
      have hbytes : m.peer.line.take n ≠ [] := by
        rw [← List.length_pos_iff, List.length_take]
        have hlength := List.length_pos_iff.mpr hline
        omega
      have hlength := List.length_take_le n m.peer.line
      refine .inl ⟨m.peer.line.take n, m.peer.line.drop n, hbytes, by omega,
        (List.take_append_drop n _).symm, ?_⟩
      dsimp only
      split
      · rename_i hnil
        exact absurd (Prod.mk.inj (Option.some.inj hnil)).1 hbytes
      · rename_i hsome
        obtain ⟨rfl, rfl⟩ := Prod.mk.inj (Option.some.inj hsome)
        rfl
      · rename_i hnone
        cases hnone
  · rw [if_neg hroom]
    exact .inr (.inr ⟨fun hlt => absurd hlt hroom, rfl⟩)

/-- The flow control takes CTS off at the high mark, puts it on at the low one, or leaves it. -/
theorem digitelecFlow_cases (m : Digitelec) :
    (m.ctsActive = true ∧ ctsHighWater ≤ m.rx.count ∧
      digitelecFlow m = { m with ctsActive := false, cts := false }) ∨
    (m.ctsActive = false ∧ m.rx.count ≤ ctsLowWater ∧
      digitelecFlow m = { m with ctsActive := true, cts := true }) ∨
    ((m.ctsActive = true → m.rx.count < ctsHighWater) ∧
      (m.ctsActive = false → ctsLowWater < m.rx.count) ∧ digitelecFlow m = m) := by
  unfold digitelecFlow
  cases m.ctsActive with
  | true =>
    by_cases hhigh : ctsHighWater ≤ m.rx.count
    · exact .inl ⟨rfl, hhigh, if_pos (decide_eq_true hhigh)⟩
    · refine .inr (.inr ⟨fun _ => Nat.not_le.mp hhigh, nofun, ?_⟩)
      rw [decide_eq_false hhigh]
      rfl
  | false =>
    by_cases hlow : m.rx.count ≤ ctsLowWater
    · exact .inr (.inl ⟨rfl, hlow, if_pos (decide_eq_true hlow)⟩)
    · refine .inr (.inr ⟨nofun, fun _ => Nat.not_le.mp hlow, ?_⟩)
      rw [decide_eq_false hlow]
      rfl

namespace DigitelecRun

variable {s : DigitelecRun}

/-- The flow control, in a run. -/
def flow (s : DigitelecRun) : DigitelecRun := { s with modem := digitelecFlow s.modem }

theorem flow_same (s : DigitelecRun) :
    s.flow.modem.rx = s.modem.rx ∧ s.flow.owed = s.owed ∧
      s.flow.modem.peer.sent = s.modem.peer.sent := by
  unfold flow owed
  obtain ⟨-, -, hflow⟩ | ⟨-, -, hflow⟩ | ⟨-, -, hflow⟩ := digitelecFlow_cases s.modem <;>
    rw [hflow] <;> exact ⟨rfl, rfl, rfl⟩

theorem Inv.flow (h : s.Inv) (hcarrier : s.modem.carrier = true) : s.flow.Inv := by
  have hidle : s.modem.carrier = false → ∀ p : Prop, p := fun hoff =>
    off_on hoff hcarrier
  unfold DigitelecRun.flow
  obtain ⟨-, -, hflow⟩ | ⟨-, -, hflow⟩ | ⟨-, -, hflow⟩ := digitelecFlow_cases s.modem <;>
    rw [hflow]
  · exact ⟨h.valid, h.socket, rfl, fun hoff => hidle hoff _, h.receiving, h.dtr⟩
  · exact ⟨h.valid, h.socket, rfl, fun hoff => hidle hoff _, h.receiving, h.dtr⟩
  · exact ⟨h.valid, h.socket, h.cts, h.idle, h.receiving, h.dtr⟩

/-- The end of a call on a connection that stands: CTS is within its marks but where the byte taken
out was the one above the low mark. -/
theorem finish_keeps_iff (h : s.Inv) (hgood : s.Good) (hcarrier : s.modem.carrier = true)
    (hread : s.modem.rx.count < digitelecBufsz → s.modem.peer.line = []) :
    StepKeeps s s.flow.pop ↔
      (s.modem.cts = false → s.modem.rx.count ≠ ctsLowWater + 1) := by
  obtain ⟨hrx, howed, hsent⟩ := flow_same s
  have hinv := h.flow hcarrier
  have hcount : s.flow.pop.modem.rx.count = s.modem.rx.count - 1 := by
    rw [← hrx]
    exact DigitelecRx.pop_count.1
  have hkeeps : s.flow.pop.handed ++ s.flow.pop.owed = s.handed ++ s.owed := by
    rw [pop_keeps s.flow hinv.valid, howed]
    rfl
  have hgives : s.owed ≠ [] → s.flow.pop.handed.length = s.handed.length + 1 := by
    intro hany
    have hpos : 0 < s.modem.rx.count := by
      by_contra hzero
      have hempty : s.modem.rx.contents = [] := by
        rw [← List.length_eq_zero_iff, DigitelecRx.length_contents]
        exact Nat.eq_zero_of_not_pos hzero
      have hroom : s.modem.rx.count < digitelecBufsz :=
        (Nat.eq_zero_of_not_pos hzero).trans_lt (by decide)
      refine hany ?_
      rw [owed, hempty, hread hroom, ite_self]
      rfl
    show (s.handed ++ s.flow.modem.rx.pop.1.toList).length = _
    rw [List.length_append, DigitelecRx.pop_count.2, hrx, Nat.min_eq_right hpos]
  have hbound := h.valid.count_le
  have hmarks : ctsHighWater = 400 ∧ ctsLowWater = 256 := ⟨rfl, rfl⟩
  have hcts : s.flow.pop.modem.cts = s.flow.modem.cts := rfl
  have hfits : StepKeeps s s.flow.pop ↔
      (s.modem.cts = true → s.flow.modem.cts = false → ctsHighWater ≤ s.modem.rx.count - 1 + 1) ∧
      (s.modem.cts = false → s.flow.modem.cts = true → s.modem.rx.count - 1 ≤ ctsLowWater) ∧
      (s.flow.modem.cts = true → s.modem.rx.count - 1 < ctsHighWater) ∧
      (s.flow.modem.cts = false → ctsLowWater < s.modem.rx.count - 1) := by
    constructor
    · intro hstep
      have hoff := hstep.off
      have hon := hstep.on
      have hbelow := hstep.below rfl
      have habove := hstep.above rfl
      rw [hcount, hcts] at hoff hon hbelow habove
      exact ⟨hoff, hon, hbelow, habove⟩
    · rintro ⟨hoff, hon, hbelow, habove⟩
      refine ⟨?_, ?_, fun _ _ _ => hgives, ?_, ?_, fun _ => ?_, fun _ => ?_⟩
      · rw [hcount]
        omega
      · intro hdropped
        rw [hkeeps]
        exact (hgood.keeps hdropped).trans hsent.symm
      · rwa [hcount, hcts]
      · rwa [hcount, hcts]
      · rwa [hcount, hcts]
      · rwa [hcount, hcts]
  rw [hfits, h.cts]
  unfold DigitelecRun.flow
  obtain ⟨hactive, hlevel, hflow⟩ | ⟨hactive, hlevel, hflow⟩ | ⟨hhigh, hlow, hflow⟩ :=
    digitelecFlow_cases s.modem <;> rw [hflow]
  · rw [hactive]
    simp only [Bool.true_eq_false, false_imp_iff, iff_true, Bool.false_eq_true, true_and,
      forall_const]
    omega
  · rw [hactive]
    simp only [Bool.false_eq_true, Bool.true_eq_false, false_imp_iff, true_and, forall_const,
      and_true]
    omega
  · dsimp only
    rw [h.cts]
    cases hactive : s.modem.ctsActive with
    | true =>
      have hlevel := hhigh hactive
      simp only [Bool.true_eq_false, false_imp_iff, forall_const, true_and, and_true, iff_true]
      omega
    | false =>
      have hlevel := hlow hactive
      simp only [Bool.false_eq_true, false_imp_iff, forall_const, true_and]
      omega

theorem step_read (hcall : s.receiving = true) {more : Bool} {m : Digitelec}
    (hread : digitelecRead s.modem = (more, m)) :
    s.step .read = if more then { s with modem := m } else flow { s with modem := m } |>.pop := by
  unfold step flow
  dsimp only
  rw [if_pos hcall, hread]

theorem read_inv (h : s.Inv) (hcall : s.receiving = true) : (s.step .read).Inv := by
  have hcarrier := h.receiving hcall
  obtain ⟨bytes, rest, -, hroom, -, hread⟩ | ⟨-, -, -, hread⟩ | ⟨-, hread⟩ :=
    digitelecRead_cases s.modem
  · rw [step_read hcall hread]
    exact ⟨(DigitelecRx.pushAll_spec bytes h.valid hroom).1, h.socket, h.cts,
      fun hoff => off_on hoff hcarrier, h.receiving, h.dtr⟩
  · rw [step_read hcall hread]
    exact ⟨DigitelecRx.clear_valid, rfl, rfl, fun _ => ⟨rfl, rfl⟩, nofun, h.dtr⟩
  · rw [step_read hcall hread]
    exact (h.flow hcarrier).pop

theorem read_keeps_iff (h : s.Inv) (hgood : s.Good) (hcall : s.receiving = true) :
    StepKeeps s (s.step .read) ↔ s.StepFits .read := by
  have hcarrier := h.receiving hcall
  have hinv := read_inv h hcall
  obtain ⟨bytes, rest, hbytes, hroom, hline, hread⟩ | ⟨hline, hroom, hended, hread⟩ |
      ⟨hend, hread⟩ := digitelecRead_cases s.modem
  · -- what is read goes from the line to the ring
    rw [step_read hcall hread] at hinv ⊢
    have hsocket : s.modem.socket = true := h.socket.trans hcarrier
    have hcontents := (DigitelecRx.pushAll_spec bytes h.valid hroom).2
    refine iff_of_true (Good.stepKeeps hinv ⟨?_, ?_, ?_⟩ rfl fun _ => hcall) ?_
    · intro hdropped
      have hkeeps := hgood.keeps hdropped
      unfold owed PeerStream.sent at hkeeps ⊢
      rw [if_pos hsocket, hline] at hkeeps
      show s.handed ++ ((s.modem.rx.pushAll bytes).contents ++
        if s.modem.socket = true then rest else []) = (s.modem.peer.taken ++ bytes) ++ rest
      rw [if_pos hsocket, hcontents, List.append_assoc, hkeeps, List.append_assoc]
    · exact fun hidle => off_on hidle hcall
    · exact fun hidle => off_on hidle hcall
    · intro _ hnil
      rw [hline] at hnil
      exact absurd (List.append_eq_nil_iff.mp hnil).1 hbytes
  · -- the end of the stream empties the ring
    have hlost : s.owed = [] ↔ s.modem.rx.count = 0 := by
      rw [owed, hline, ite_self, List.append_nil, ← List.length_eq_zero_iff,
        DigitelecRx.length_contents]
    have hafter : (s.step .read).owed = [] := by
      rw [step_read hcall hread]
      rfl
    have hhanded : (s.step .read).handed = s.handed := by
      rw [step_read hcall hread]
      exact List.append_nil _
    have hsent : (s.step .read).modem.peer.sent = s.modem.peer.sent := by
      rw [step_read hcall hread]
      rfl
    have hdropped : (s.step .read).dropped = s.dropped := by
      rw [step_read hcall hread]
      rfl
    have hlevel : (s.step .read).modem.rx.count = 0 ∧ (s.step .read).modem.cts = true := by
      rw [step_read hcall hread]
      exact ⟨rfl, rfl⟩
    have hfits : s.StepFits .read ↔ (s.dropped = false → s.modem.rx.count = 0) := by
      unfold StepFits
      dsimp only
      rw [hended, if_pos rfl]
      exact ⟨fun hall => hall hcall hline hroom, fun hall _ _ _ => hall⟩
    rw [hfits]
    constructor
    · intro hstep hon
      have hkept := hstep.keeps (hdropped.trans hon)
      rw [hhanded, hafter, hsent, List.append_nil] at hkept
      exact hlost.mp (List.append_right_eq_self.mp ((hgood.keeps hon).trans hkept.symm))
    · intro hempty
      refine ⟨hinv.valid.count_le, ?_, ?_, ?_, ?_, ?_, ?_⟩
      · intro hon
        rw [hdropped] at hon
        have hkept := hgood.keeps hon
        rwa [hlost.mpr (hempty hon), ← hhanded, ← hsent, ← hafter] at hkept
      · exact fun _ _ hon hany => absurd (hlost.mpr (hempty hon)) hany
      · exact fun _ hoff => off_on hoff hlevel.2
      · intro _ _
        rw [hlevel.1]
        exact Nat.zero_le _
      · intro _ _
        rw [hlevel.1]
        decide
      · exact fun _ hoff => off_on hoff hlevel.2
  · rw [step_read hcall hread]
    refine (finish_keeps_iff h hgood hcarrier fun hroom => (hend hroom).1).trans ?_
    unfold StepFits
    dsimp only
    constructor
    · intro hlevel _ _ hroom
      rw [(hend hroom).2]
      exact hlevel
    · intro hfits hoff
      by_cases hroom : s.modem.rx.count < digitelecBufsz
      · have hlevel := hfits hcall (hend hroom).1 hroom
        rw [(hend hroom).2] at hlevel
        exact hlevel hoff
      · intro hcount
        rw [hcount] at hroom
        exact hroom (by decide)

end DigitelecRun

/-! ## Every run -/

namespace DigitelecRun

theorem dtr_keeps {s : DigitelecRun} (h : s.Inv) (hgood : s.Good) (on : Bool) :
    (s.step (.dtr on)).Inv ∧ StepKeeps s (s.step (.dtr on)) := by
  have hdropped : (s.dropped || !on) = false → s.dropped = false ∧ on = true := by
    cases on <;> simp
  unfold step
  dsimp only
  split_ifs
  · exact ⟨h, Good.stepKeeps h hgood rfl id⟩
  · have hinv : DigitelecRun.Inv
        { s with modem := { s.modem with dtr := on }, dropped := s.dropped || !on } :=
      ⟨h.valid, h.socket, h.cts, h.idle, h.receiving, fun hkept => (hdropped hkept).2⟩
    refine ⟨hinv, Good.stepKeeps hinv ⟨?_, hgood.below, hgood.above⟩ rfl id⟩
    exact fun hkept => hgood.keeps (hdropped hkept).1

/-- A step keeps its bytes and CTS exactly if it fits. -/
theorem step_keeps_iff {s : DigitelecRun} (h : s.Inv) (hgood : s.Good) (op : DigitelecOp) :
    (s.step op).Inv ∧ (StepKeeps s (s.step op) ↔ s.StepFits op) := by
  cases op with
  | peer act =>
    obtain ⟨hinv, hkeeps⟩ := peer_keeps h hgood act
    exact ⟨hinv, iff_of_true hkeeps trivial⟩
  | dtr on =>
    obtain ⟨hinv, hkeeps⟩ := dtr_keeps h hgood on
    exact ⟨hinv, iff_of_true hkeeps trivial⟩
  | send byte answers write =>
    cases hcall : s.receiving with
    | true =>
      have hsame : s.step (.send byte answers write) = s := if_pos hcall
      rw [hsame]
      refine ⟨h, iff_of_true (Good.stepKeeps h hgood rfl id) fun hidle => ?_⟩
      exact off_on hidle hcall
    | false =>
      refine ⟨send_inv h hgood hcall byte answers write,
        (send_keeps_iff h hgood hcall byte answers write).trans ?_⟩
      exact ⟨fun hfits _ => hfits, fun hfits => hfits hcall⟩
  | poll answers =>
    cases hcall : s.receiving with
    | true =>
      have hsame : s.step (.poll answers) = s := if_pos hcall
      rw [hsame]
      exact ⟨h, iff_of_true (Good.stepKeeps h hgood rfl id) trivial⟩
    | false =>
      have hchecked : s.step (.poll answers) = s.checked answers :=
        if_neg (by rw [hcall]; exact Bool.false_ne_true)
      obtain ⟨hinv, hkeeps⟩ := checked_keeps h hgood hcall answers
      rw [hchecked]
      exact ⟨hinv, iff_of_true hkeeps trivial⟩
  | recv =>
    obtain ⟨hinv, hkeeps⟩ := recv_keeps h hgood
    exact ⟨hinv, iff_of_true hkeeps trivial⟩
  | read =>
    cases hcall : s.receiving with
    | true => exact ⟨read_inv h hcall, read_keeps_iff h hgood hcall⟩
    | false =>
      have hsame : s.step .read = s := if_neg (by rw [hcall]; exact Bool.false_ne_true)
      rw [hsame]
      refine ⟨h, iff_of_true (Good.stepKeeps h hgood rfl id) fun hcall' => ?_⟩
      exact off_on hcall hcall'

theorem run_keeps_iff (ops : List DigitelecOp) {s : DigitelecRun} (h : s.Inv) (hgood : s.Good) :
    Machine.Throughout step (fun s op => StepKeeps s (s.step op)) ops s ↔
      Machine.Throughout step StepFits ops s := by
  induction ops generalizing s with
  | nil => exact Iff.rfl
  | cons op ops ih =>
    obtain ⟨hinv, hstep⟩ := step_keeps_iff h hgood op
    constructor
    · rintro ⟨hkeeps, hrest⟩
      exact ⟨hstep.mp hkeeps, (ih hinv hkeeps.good).mp hrest⟩
    · rintro ⟨hfits, hrest⟩
      have hkeeps := hstep.mpr hfits
      exact ⟨hkeeps, (ih hinv hkeeps.good).mpr hrest⟩

end DigitelecRun

/-- From the start of the modem, whatever the peer and the program do: every step keeps to the ring,
to what the peer sent and to the marks of CTS exactly if every step fits. -/
theorem digitelec_keeps_iff (buf : Nat → Byte) (dtr : Bool) (ops : List DigitelecOp) :
    Machine.Throughout DigitelecRun.step (fun s op => DigitelecRun.StepKeeps s (s.step op)) ops
        (DigitelecRun.open buf dtr) ↔
      Machine.Throughout DigitelecRun.step DigitelecRun.StepFits ops
        (DigitelecRun.open buf dtr) := by
  have hinv : (DigitelecRun.open buf dtr).Inv :=
    ⟨⟨Nat.zero_lt_succ 511, Nat.zero_le _, rfl⟩, rfl, rfl, fun _ => ⟨rfl, rfl⟩, nofun, nofun⟩
  have hgood : (DigitelecRun.open buf dtr).Good :=
    ⟨nofun, fun _ _ => Nat.zero_lt_succ 399, nofun⟩
  exact DigitelecRun.run_keeps_iff ops hinv hgood

/-- The program dials, the peer sends a byte and closes, and the program receives. -/
def digitelecFarewell : List DigitelecOp :=
  [.dtr true, .poll true, .peer { bytes := [0x41#8], close := true }, .recv, .read, .read]

/-- The byte is in the ring when the end of the stream empties it. -/
theorem digitelec_loses :
    ¬∀ ops, Machine.Throughout DigitelecRun.step
      (fun s op => DigitelecRun.StepKeeps s (s.step op)) ops
      (DigitelecRun.open (fun _ => 0#8) false) := by
  intro hall
  obtain ⟨-, -, -, -, -, hread, -⟩ := hall digitelecFarewell
  have hlost := hread.keeps (by decide)
  exact absurd hlost (by decide)

end Phosphoric
