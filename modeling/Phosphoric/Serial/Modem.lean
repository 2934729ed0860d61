import Phosphoric.Cards.Registry
import Phosphoric.Lib.Machine
import Phosphoric.Lib.RingBuffer

/-!
# The Hayes modem in data mode

`modem_send` and `modem_recv` of `src/io/serial_backend.c` on an open connection. A `+` after a
silence is held back, and the third in a row leaves data mode. What the socket reads goes through
a ring from which a call takes one byte.

A byte is lost when the ring is full, when the socket would block, and when a third `+` turns out
not to be followed by a silence.

**Theorem (`modem_keeps`).** In every run without these, the bytes handed out are those read and
the modem's own, and the bytes sent are written, but for those held back and those of an escape.
-/

namespace Phosphoric

/-! ## State -/

/-- `SERIAL_MODEM_BUFSZ`. -/
abbrev serialModemBufsz : Nat := 65536

/-- The receive ring. -/
structure ModemRx extends RingBuffer Byte where
  size_eq : size = serialModemBufsz

/-- `state.modem`, as far as data mode goes. -/
structure Modem where
  rx : ModemRx
  /-- `mode == 1`. -/
  dataMode : Bool
  /-- `sockfd >= 0`. -/
  socket : Bool
  plusCount : Nat
  lastDataTime : Nat
  cmdLen : Nat

/-- What `read` of up to 256 bytes gives. -/
inductive SocketRead
  | bytes (first : Byte) (rest : List Byte) (size : rest.length < 256)
  | closed
  | wouldBlock

/-- What `write` makes of its bytes: how many it takes, or an error. -/
inductive SocketWrite
  | accepted (n : Nat)
  | wouldBlock
  | failed
  deriving DecidableEq, Repr

/-- What the socket takes of the bytes written to it. -/
def SocketWrite.taken (bytes : List Byte) : SocketWrite → List Byte
  | .accepted n => bytes.take n
  | _ => []

/-- What a call does: the byte it hands out, what arrives for the program, the byte it takes with
the number of polls since the one before, and the bytes the socket takes. -/
structure ModemOut where
  handed : List Byte
  arrived : List Byte
  sent : List (Byte × Nat)
  written : List Byte

/-! ## The ring -/

theorem RingBuffer.push_size {α : Type} {r r' : RingBuffer α} {a : α} (h : r.push a = some r') :
    r'.size = r.size := by
  unfold RingBuffer.push at h
  split_ifs at h
  cases h
  rfl

theorem RingBuffer.pop_size {α : Type} {r r' : RingBuffer α} {a : α} (h : r.pop = some (a, r')) :
    r'.size = r.size := by
  unfold RingBuffer.pop at h
  split_ifs at h
  cases h
  rfl

/-- `modem_rx_push`. -/
def modemRxPush (byte : Byte) (rx : ModemRx) : ModemRx :=
  match h : rx.push byte with
  | some r => ⟨r, (RingBuffer.push_size h).trans rx.size_eq⟩
  | none => rx

/-- `modem_rx_pop`. -/
def modemRxPop (rx : ModemRx) : Option Byte × ModemRx :=
  match h : rx.pop with
  | some (byte, r) => (some byte, ⟨r, (RingBuffer.pop_size h).trans rx.size_eq⟩)
  | none => (none, rx)

/-- Bytes pushed one after the other; `modem_rx_push_str`. -/
def modemRxPushAll (bytes : List Byte) (rx : ModemRx) : ModemRx :=
  bytes.foldl (fun rx byte => modemRxPush byte rx) rx

/-! ## Calls -/

@[irreducible] def modemOk : List Byte := cstr "\r\nOK\r\n"

@[irreducible] def modemNoCarrier : List Byte := cstr "\r\nNO CARRIER\r\n"

/-- The polls without a byte that make a silence. -/
abbrev modemGuard : Nat := 50

/-- A `+` that may belong to an escape. -/
def Modem.escapes (m : Modem) (byte : Byte) : Bool :=
  byte == 0x2B#8 && (decide (0 < m.plusCount) || decide (modemGuard ≤ m.lastDataTime))

/-- The connection is lost. -/
def modemDrop (m : Modem) : Modem :=
  { m with socket := false, dataMode := false, rx := modemRxPushAll modemNoCarrier m.rx }

/-- `modem_send` in data mode, `flush` and `write` being what the socket makes of the `+` held
back and of the byte. -/
def modemSend (byte : Byte) (flush write : SocketWrite) (m : Modem) : ModemOut × Modem :=
  let sent := [(byte, m.lastDataTime)]
  if m.escapes byte then
    let m := { m with plusCount := m.plusCount + 1, lastDataTime := 0 }
    if 3 ≤ m.plusCount then
      ({ handed := [], arrived := modemOk, sent := sent, written := [] },
        { m with
          dataMode := false, plusCount := 0, cmdLen := 0, rx := modemRxPushAll modemOk m.rx })
    else ({ handed := [], arrived := [], sent := sent, written := [] }, m)
  else
    let flushed :=
      if m.socket then flush.taken (List.replicate (min m.plusCount 3) 0x2B#8) else []
    let m := { m with plusCount := 0, lastDataTime := 0 }
    if m.socket then
      if write = .failed then
        ({ handed := [], arrived := modemNoCarrier, sent := [], written := flushed }, modemDrop m)
      else
        ({ handed := [], arrived := [], sent := sent, written := flushed ++ write.taken [byte] }, m)
    else ({ handed := [], arrived := [], sent := sent, written := flushed }, m)

/-- The bulk read of `modem_recv` in data mode: what arrives, and the modem after it. -/
def modemFill (read : SocketRead) (m : Modem) : List Byte × Modem :=
  match read with
  | .bytes first rest _ => (first :: rest, { m with rx := modemRxPushAll (first :: rest) m.rx })
  | .closed => (modemNoCarrier, modemDrop m)
  | .wouldBlock => ([], m)

/-- `modem_recv`, `read` being what the socket gives in data mode. -/
def modemRecv (read : SocketRead) (m : Modem) : ModemOut × Modem :=
  let m := { m with lastDataTime := m.lastDataTime + 1 }
  let filled := if m.dataMode && m.socket then modemFill read m else ([], m)
  let popped := modemRxPop filled.2.rx
  ({ handed := popped.1.toList, arrived := filled.1, sent := [], written := [] },
    { filled.2 with rx := popped.2 })

inductive ModemOp
  | send (byte : Byte) (flush write : SocketWrite)
  | recv (read : SocketRead)

def modemStep (m : Modem) : ModemOp → ModemOut × Modem
  | .send byte flush write => modemSend byte flush write m
  | .recv read => modemRecv read m

/-! ## What a run keeps -/

/-- So many bytes fit in the ring. -/
def Modem.fits (m : Modem) (n : Nat) : Prop := m.rx.count + n ≤ serialModemBufsz

/-- A call in data mode that loses nothing: what arrives fits in the ring, and the socket takes
what is written. -/
def ModemOp.Fits (m : Modem) : ModemOp → Prop
  | .recv read => m.dataMode = true ∧ m.socket = true ∧ match read with
    | .bytes first rest _ => m.fits (first :: rest).length
    | .closed => m.fits modemNoCarrier.length
    | .wouldBlock => True
  | .send byte flush write => m.dataMode = true ∧ m.socket = true ∧
    if m.escapes byte then 3 ≤ m.plusCount + 1 → m.fits modemOk.length
    else (0 < m.plusCount → flush = .accepted m.plusCount) ∧
      (write = .accepted 1 ∨ write = .failed ∧ m.fits modemNoCarrier.length)

/-- The modem has left data mode by an escape. -/
def Modem.escaped (m : Modem) : Prop := m.dataMode = false ∧ m.socket = true

/-- The bytes sent are written, but for `+` after a silence that are held back, or that are the
three of an escape followed by a silence. -/
def ModemWrites (sent : List (Byte × Nat)) (written : List Byte) (plusCount silence : Nat) : Prop :=
  ∃ before held : List (Byte × Nat), sent = before ++ held ∧ written = before.map Prod.fst ∧
    (∀ p ∈ held, p.1 = 0x2B#8) ∧ (∀ p ∈ held.head?, modemGuard ≤ p.2) ∧
    (held.length = plusCount ∨ held.length = 3 ∧ modemGuard ≤ silence)

theorem modemRxPush_contents {rx : ModemRx} (byte : Byte) (h : rx.count + 1 ≤ serialModemBufsz) :
    (modemRxPush byte rx).contents = rx.contents ++ [byte] := by
  have hroom : (rx.push byte).isSome := by
    rw [RingBuffer.push_isSome, rx.size_eq]
    omega
  obtain ⟨r, hr⟩ := Option.isSome_iff_exists.mp hroom
  have hpush : (modemRxPush byte rx).toRingBuffer = r := by
    unfold modemRxPush
    split
    · rename_i r' hr'
      exact Option.some.inj (hr'.symm.trans hr)
    · rename_i hr'
      exact absurd (hr'.symm.trans hr) (by simp)
  rw [hpush]
  exact RingBuffer.contents_push _ hr

/-- Where they fit, bytes pushed come after what was there. -/
theorem modemRxPushAll_contents (bytes : List Byte) {rx : ModemRx}
    (h : rx.count + bytes.length ≤ serialModemBufsz) :
    (modemRxPushAll bytes rx).contents = rx.contents ++ bytes := by
  induction bytes generalizing rx with
  | nil => exact (List.append_nil _).symm
  | cons byte bytes ih =>
    rw [List.length_cons] at h
    have hpush := modemRxPush_contents byte (show rx.count + 1 ≤ serialModemBufsz by omega)
    have hcount : (modemRxPush byte rx).count = rx.count + 1 := by
      rw [← RingBuffer.length_contents, hpush, List.length_append, RingBuffer.length_contents,
        List.length_singleton]
    have hrest := @ih (modemRxPush byte rx) (by omega)
    calc (modemRxPushAll bytes (modemRxPush byte rx)).contents
        = (modemRxPush byte rx).contents ++ bytes := hrest
      _ = rx.contents ++ byte :: bytes := by rw [hpush, List.append_assoc, List.singleton_append]

theorem modemRxPop_contents (rx : ModemRx) :
    (modemRxPop rx).1.toList ++ (modemRxPop rx).2.contents = rx.contents := by
  unfold modemRxPop
  split
  · rename_i byte r h
    exact (RingBuffer.contents_pop _ h).symm
  · rfl

/-- A read that fits puts in the ring what arrives, and leaves what is held back. -/
theorem modemFill_contents {read : SocketRead} {m : Modem} (h : (ModemOp.recv read).Fits m) :
    (modemFill read m).2.rx.contents = m.rx.contents ++ (modemFill read m).1 ∧
      (modemFill read m).2.plusCount = m.plusCount := by
  obtain ⟨-, -, hroom⟩ := h
  cases read with
  | bytes first rest size => exact ⟨modemRxPushAll_contents (first :: rest) hroom, rfl⟩
  | closed => exact ⟨modemRxPushAll_contents modemNoCarrier hroom, rfl⟩
  | wouldBlock => exact ⟨(List.append_nil _).symm, rfl⟩

section Send

variable {m : Modem} {byte : Byte} {flush write : SocketWrite}

theorem modemSend_held (hescape : m.escapes byte) (h : ¬3 ≤ m.plusCount + 1) :
    modemSend byte flush write m =
      ({ handed := [], arrived := [], sent := [(byte, m.lastDataTime)], written := [] },
        { m with plusCount := m.plusCount + 1, lastDataTime := 0 }) := by
  rw [modemSend, if_pos hescape]
  exact if_neg h

theorem modemSend_escape (hescape : m.escapes byte) (h : 3 ≤ m.plusCount + 1) :
    modemSend byte flush write m =
      ({ handed := [], arrived := modemOk, sent := [(byte, m.lastDataTime)], written := [] },
        { m with
          lastDataTime := 0, dataMode := false, plusCount := 0, cmdLen := 0
          rx := modemRxPushAll modemOk m.rx }) := by
  rw [modemSend, if_pos hescape]
  exact if_pos h

/-- What the socket takes of the `+` held back. -/
def modemFlushed (flush : SocketWrite) (m : Modem) : List Byte :=
  flush.taken (List.replicate (min m.plusCount 3) 0x2B#8)

theorem modemSend_failed (hescape : ¬m.escapes byte) (hsocket : m.socket = true) :
    modemSend byte flush .failed m =
      ({ handed := [], arrived := modemNoCarrier, sent := [], written := modemFlushed flush m },
        modemDrop { m with plusCount := 0, lastDataTime := 0 }) := by
  simp only [modemSend, if_neg hescape, hsocket, if_true, modemFlushed]

theorem modemSend_data (hescape : ¬m.escapes byte) (hsocket : m.socket = true) (n : Nat) :
    modemSend byte flush (.accepted n) m =
      ({ handed := [], arrived := [], sent := [(byte, m.lastDataTime)]
         written := modemFlushed flush m ++ [byte].take n },
        { m with plusCount := 0, lastDataTime := 0 }) := by
  simp only [modemSend, if_neg hescape, hsocket, if_true, modemFlushed, SocketWrite.taken]
  rfl

end Send

/-- A call that fits hands out and keeps in the ring what was there and what arrives. -/
theorem modemStep_contents {m : Modem} {op : ModemOp} (h : op.Fits m) :
    (modemStep m op).1.handed ++ (modemStep m op).2.rx.contents =
      m.rx.contents ++ (modemStep m op).1.arrived := by
  cases op with
  | recv read =>
    have hfill := modemFill_contents (m := { m with lastDataTime := m.lastDataTime + 1 }) h
    have hopen : (m.dataMode && m.socket) = true := by rw [h.1, h.2.1]; rfl
    simp only [modemStep, modemRecv, hopen, if_true]
    rw [modemRxPop_contents, hfill.1]
  | send byte flush write =>
    obtain ⟨hdata, hsocket, hroom⟩ := h
    by_cases hescape : m.escapes byte
    · rw [if_pos hescape] at hroom
      by_cases hthird : 3 ≤ m.plusCount + 1
      · rw [modemStep, modemSend_escape hescape hthird]
        exact modemRxPushAll_contents modemOk (hroom hthird)
      · rw [modemStep, modemSend_held hescape hthird]
        exact (List.append_nil _).symm
    · rw [if_neg hescape] at hroom
      rcases hroom.2 with rfl | ⟨rfl, hfits⟩
      · rw [modemStep, modemSend_data hescape hsocket]
        exact (List.append_nil _).symm
      · rw [modemStep, modemSend_failed hescape hsocket]
        exact modemRxPushAll_contents modemNoCarrier hfits

/-- The bytes sent before a call that fits are written but for those held back. -/
def ModemHolds (sent : List (Byte × Nat)) (written : List Byte) (m : Modem) : Prop :=
  ∃ before held : List (Byte × Nat), sent = before ++ held ∧ written = before.map Prod.fst ∧
    (∀ p ∈ held, p.1 = 0x2B#8) ∧ (∀ p ∈ held.head?, modemGuard ≤ p.2) ∧
    (held.length = m.plusCount ∧ m.plusCount < 3 ∨ held.length = 3 ∧ m.escaped)

theorem modemStep_holds {sent : List (Byte × Nat)} {written : List Byte} {m : Modem}
    (h : ModemHolds sent written m) {op : ModemOp} (hfits : op.Fits m) :
    ModemHolds (sent ++ (modemStep m op).1.sent) (written ++ (modemStep m op).1.written)
      (modemStep m op).2 := by
  obtain ⟨before, held, hsent, hwritten, hplus, hguard, hlength⟩ := h
  have hdata : m.dataMode = true := by cases op <;> exact hfits.1
  have hsocket : m.socket = true := by cases op <;> exact hfits.2.1
  have hcount : held.length = m.plusCount ∧ m.plusCount < 3 := by
    rcases hlength with hlength | ⟨-, hescaped, -⟩
    · exact hlength
    · rw [hdata] at hescaped
      cases hescaped
  cases op with
  | recv read =>
    have hfill := modemFill_contents (m := { m with lastDataTime := m.lastDataTime + 1 }) hfits
    have hopen : (m.dataMode && m.socket) = true := by rw [hdata, hsocket]; rfl
    simp only [modemStep, modemRecv, hopen, if_true, List.append_nil]
    refine ⟨before, held, hsent, hwritten, hplus, hguard, .inl ?_⟩
    dsimp only
    rwa [hfill.2]
  | send byte flush write =>
    by_cases hescape : m.escapes byte
    · -- one more `+` is held back
      have hbyte : byte = 0x2B#8 ∧ (0 < m.plusCount ∨ modemGuard ≤ m.lastDataTime) := by
        simpa [Modem.escapes] using hescape
      have hplus' : ∀ p ∈ held ++ [(byte, m.lastDataTime)], p.1 = 0x2B#8 := by
        intro p hp
        rcases List.mem_append.mp hp with hp | hp
        · exact hplus p hp
        · rw [List.mem_singleton.mp hp]
          exact hbyte.1
      have hguard' : ∀ p ∈ (held ++ [(byte, m.lastDataTime)]).head?, modemGuard ≤ p.2 := by
        cases held with
        | nil =>
          rcases hbyte.2 with hpos | hquiet
          · rw [← hcount.1] at hpos
            exact absurd hpos (Nat.lt_irrefl 0)
          · simpa using hquiet
        | cons first rest => simpa using hguard
      have hlength' : (held ++ [(byte, m.lastDataTime)]).length = m.plusCount + 1 := by
        rw [List.length_append, List.length_singleton, hcount.1]
      have hsent' : sent ++ [(byte, m.lastDataTime)] =
          before ++ (held ++ [(byte, m.lastDataTime)]) := by rw [hsent, List.append_assoc]
      by_cases hthird : 3 ≤ m.plusCount + 1
      · rw [modemStep, modemSend_escape hescape hthird]
        refine ⟨before, _, hsent', ?_, hplus', hguard', .inr ⟨?_, rfl, hsocket⟩⟩
        · rw [hwritten, List.append_nil]
        · omega
      · rw [modemStep, modemSend_held hescape hthird]
        refine ⟨before, _, hsent', ?_, hplus', hguard', .inl ⟨hlength', Nat.not_le.mp hthird⟩⟩
        rw [hwritten, List.append_nil]
    · -- what is held back is flushed before the byte
      have hroom := hfits.2.2
      rw [if_neg hescape] at hroom
      have hflush : modemFlushed flush m = held.map Prod.fst := by
        have hheld : held.map Prod.fst = List.replicate m.plusCount 0x2B#8 := by
          rw [← hcount.1, List.eq_replicate_iff]
          refine ⟨List.length_map .., ?_⟩
          intro b hb
          obtain ⟨p, hp, rfl⟩ := List.mem_map.mp hb
          exact hplus p hp
        rw [modemFlushed, Nat.min_eq_left (by omega), hheld]
        rcases Nat.eq_zero_or_pos m.plusCount with hzero | hpos
        · rw [hzero]
          cases flush <;> simp [SocketWrite.taken]
        · rw [hroom.1 hpos]
          simp [SocketWrite.taken]
      rcases hroom.2 with rfl | ⟨rfl, -⟩
      · rw [modemStep, modemSend_data hescape hsocket, hflush]
        refine ⟨before ++ held ++ [(byte, m.lastDataTime)], [], ?_, ?_, by simp, by simp,
          .inl ⟨rfl, Nat.zero_lt_succ 2⟩⟩
        · rw [hsent, List.append_nil]
        · simp [hwritten]
      · rw [modemStep, modemSend_failed hescape hsocket, hflush]
        refine ⟨before ++ held, [], ?_, ?_, by simp, by simp, .inl ⟨rfl, Nat.zero_lt_succ 2⟩⟩
        · rw [hsent]
        · rw [hwritten, List.map_append]

/-! ## Runs -/

/-- The calls of a run in data mode lose nothing. -/
def ModemFits (ops : List ModemOp) (m : Modem) : Prop :=
  Machine.Throughout (fun m op => (modemStep m op).2) (fun m op => op.Fits m) ops m

theorem modemRun_keeps (ops : List ModemOp) {sent : List (Byte × Nat)} {written : List Byte}
    {m : Modem} (h : ModemHolds sent written m) (hfits : ModemFits ops m) :
    (Machine.runOut modemStep ops m).1.flatMap ModemOut.handed ++
          (Machine.runOut modemStep ops m).2.rx.contents =
        m.rx.contents ++ (Machine.runOut modemStep ops m).1.flatMap ModemOut.arrived ∧
      ModemHolds (sent ++ (Machine.runOut modemStep ops m).1.flatMap ModemOut.sent)
        (written ++ (Machine.runOut modemStep ops m).1.flatMap ModemOut.written)
        (Machine.runOut modemStep ops m).2 := by
  induction ops generalizing sent written m with
  | nil => simpa using h
  | cons op ops ih =>
    have hstep := modemStep_contents hfits.1
    obtain ⟨hrun, hholds⟩ := ih (modemStep_holds h hfits.1) hfits.2
    simp only [Machine.runOut_cons, List.flatMap_cons]
    constructor
    · rw [List.append_assoc, hrun, ← List.append_assoc, hstep, List.append_assoc]
    · rwa [List.append_assoc, List.append_assoc] at hholds

/-- In every run of calls in data mode in which the ring has room, the socket takes what is
written and an escape is followed by a silence: what is handed out and what is in the ring are what
was there and what arrived, in order, and the bytes sent are written once, in order, but for the
`+` held back and the three of the escape. -/
theorem modem_keeps {m : Modem} (hstart : m.plusCount = 0) (ops : List ModemOp)
    (hfits : ModemFits ops m) (silence : Nat)
    (hquiet : (Machine.runOut modemStep ops m).2.escaped → modemGuard ≤ silence) :
    (Machine.runOut modemStep ops m).1.flatMap ModemOut.handed ++
          (Machine.runOut modemStep ops m).2.rx.contents =
        m.rx.contents ++ (Machine.runOut modemStep ops m).1.flatMap ModemOut.arrived ∧
      ModemWrites ((Machine.runOut modemStep ops m).1.flatMap ModemOut.sent)
        ((Machine.runOut modemStep ops m).1.flatMap ModemOut.written)
        (Machine.runOut modemStep ops m).2.plusCount silence := by
  have hholds : ModemHolds [] [] m :=
    ⟨[], [], rfl, rfl, by simp, by simp, .inl ⟨hstart.symm, by omega⟩⟩
  obtain ⟨hcontents, before, held, hsent, hwritten, hplus, hguard, hlength⟩ :=
    modemRun_keeps ops hholds hfits
  refine ⟨hcontents, before, held, hsent, hwritten, hplus, hguard, ?_⟩
  rcases hlength with hlength | ⟨hthree, hescaped⟩
  · exact .inl hlength.1
  · exact .inr ⟨hthree, hquiet hescaped⟩

/-- A modem just connected. -/
def modemConnected : Modem where
  rx := { RingBuffer.empty (fun _ => 0) serialModemBufsz (by decide) with size_eq := rfl }
  dataMode := true
  socket := true
  plusCount := 0
  lastDataTime := 60
  cmdLen := 0

/-- A held `+` is written with the byte after it. -/
theorem modem_keeps_plus :
    (Machine.runOut modemStep [.send 0x2B .wouldBlock .wouldBlock,
        .recv (.bytes 0x48 [] (by decide)), .send 0x41 (.accepted 1) (.accepted 1)]
        modemConnected).1.flatMap ModemOut.written = [0x2B, 0x41] ∧
      ModemWrites [(0x2B, 60), (0x41, 1)] [0x2B, 0x41] 0 0 := by
  have hfits : ModemFits [.send 0x2B .wouldBlock .wouldBlock,
      .recv (.bytes 0x48 [] (by decide)), .send 0x41 (.accepted 1) (.accepted 1)]
      modemConnected := by
    refine ⟨⟨rfl, rfl, ?_⟩, ⟨rfl, rfl, ?_⟩, ⟨rfl, rfl, ?_⟩, trivial⟩
    · exact fun hthird => absurd hthird (by decide)
    · exact Nat.le_of_ble_eq_true rfl
    · exact ⟨fun _ => rfl, .inl rfl⟩
  have hkeeps := @modem_keeps modemConnected rfl _ hfits 0 fun hescaped => nomatch hescaped.1
  exact ⟨rfl, hkeeps.2⟩

/-- A byte for which the socket would block is taken and not written. -/
theorem modem_loses :
    ¬ ∀ (m : Modem) (ops : List ModemOp) (silence : Nat), m.plusCount = 0 →
      Machine.Throughout (fun m op => (modemStep m op).2)
        (fun m _ => m.dataMode = true ∧ m.socket = true) ops m →
      (Machine.runOut modemStep ops m).1.flatMap ModemOut.handed ++
            (Machine.runOut modemStep ops m).2.rx.contents =
          m.rx.contents ++ (Machine.runOut modemStep ops m).1.flatMap ModemOut.arrived ∧
        ModemWrites ((Machine.runOut modemStep ops m).1.flatMap ModemOut.sent)
          ((Machine.runOut modemStep ops m).1.flatMap ModemOut.written)
          (Machine.runOut modemStep ops m).2.plusCount silence := by
  intro hall
  obtain ⟨-, before, held, hsent, hwritten, hplus, -, -⟩ :=
    hall modemConnected [.send 0x41 (.accepted 0) .wouldBlock] 0 rfl ⟨⟨rfl, rfl⟩, trivial⟩
  have hbefore : before = [] := List.map_eq_nil_iff.mp hwritten.symm
  rw [hbefore, List.nil_append] at hsent
  have hmem : ((0x41 : Byte), 60) ∈ held := hsent ▸ List.mem_singleton.mpr rfl
  have := hplus _ hmem
  revert this
  decide

end Phosphoric
