import Mathlib.Data.List.TakeWhile
import Phosphoric.Serial.Modem
import Phosphoric.Serial.TelnetTrip

/-!
# The escape of the PicoWiFi modem

`picowifi_send` in data mode, with the polls that `picowifi_recv` counts. An escape character that
comes after 50 polls without a byte is held back, and the third in a row ends data mode.

**Theorem (`picowifiSend_escape_iff`).** In a run of data mode the modem leaves it exactly for three
escape characters in a row of which the first has its guard, and what it does not hold back is on
the line, if and only if the second and the third of such a row have a guard of their own and the
connection takes what is written. `modem_send` asks for the first guard only.
-/

namespace Phosphoric

/-! ## Sending -/

/-- The results `pw_result` gives here. -/
inductive PwResult
  | ok | noCarrier
  deriving DecidableEq, Repr

/-- The part of `picowifi_t` that data mode uses, with the bytes the line took and the results
given. -/
structure PicowifiData where
  /-- `mode == 1`. -/
  dataMode : Bool
  /-- `sockfd >= 0`. -/
  socket : Bool
  sessionTelnet : SessionTelnet
  escChar : Int
  plusCount : Nat
  silence : Nat
  cmdLen : Nat
  line : List Byte
  results : List PwResult

namespace PicowifiData

/-- The line takes what it makes of some bytes. -/
def taking (bytes : List Byte) (pw : PicowifiData) : PicowifiData :=
  { pw with line := pw.line ++ bytes }

/-- The escape characters held back are given to the line; the answers are not looked at. -/
def flushed (flush : Nat → SocketWrite) (pw : PicowifiData) : List Byte :=
  (List.range (min pw.plusCount 3)).flatMap fun i =>
    (flush i).taken (pwTnOutByte pw.sessionTelnet (BitVec.ofInt 8 pw.escChar))

/-- An escape character with its guard. -/
def escapes (byte : Byte) (pw : PicowifiData) : Bool :=
  decide (pw.escChar < 128) && decide ((byte.toNat : Int) = pw.escChar) &&
    decide (modemGuard ≤ pw.silence)

/-- `picowifi_send` in data mode, `flush` and `write` being what the connection makes of the
characters held back and of the byte. -/
def send (byte : Byte) (flush : Nat → SocketWrite) (write : SocketWrite) (pw : PicowifiData) :
    PicowifiData :=
  if pw.escapes byte then
    let pw := { pw with plusCount := pw.plusCount + 1, silence := 0 }
    if 3 ≤ pw.plusCount then
      { pw with
        dataMode := false, plusCount := 0, cmdLen := 0, results := pw.results ++ [.ok] }
    else pw
  else if pw.socket then
    let out := pwTnOutByte pw.sessionTelnet byte
    let pw := { pw.taking (pw.flushed flush) with plusCount := 0, silence := 0 }
    if write = .failed then
      { pw with
        socket := false, dataMode := false, results := pw.results ++ [.noCarrier] }
    else pw.taking (write.taken out)
  else { pw with plusCount := 0, silence := 0 }

/-- A poll. -/
def poll (pw : PicowifiData) : PicowifiData := { pw with silence := pw.silence + 1 }

/-- Data mode as a connection starts it. -/
def online (sessionTelnet : SessionTelnet) (escChar : Int) (silence : Nat) : PicowifiData where
  dataMode := true
  socket := true
  sessionTelnet := sessionTelnet
  escChar := escChar
  plusCount := 0
  silence := silence
  cmdLen := 0
  line := []
  results := []

end PicowifiData

/-! ## Runs -/

/-- The modem, the bytes sent with the polls before each, the last one first, and the polls since. -/
structure PicowifiRun where
  pw : PicowifiData
  sent : List (Byte × Nat)
  polls : Nat

inductive PicowifiOp
  | send (byte : Byte) (flush : Nat → SocketWrite) (write : SocketWrite)
  | poll

namespace PicowifiRun

/-- A run ends with data mode. -/
def step (s : PicowifiRun) (op : PicowifiOp) : PicowifiRun :=
  if s.pw.dataMode then
    match op with
    | .send byte flush write =>
      { pw := s.pw.send byte flush write, sent := (byte, s.polls) :: s.sent, polls := 0 }
    | .poll => { s with pw := s.pw.poll, polls := s.polls + 1 }
  else s

/-- The run of a connection; `silence` polls came before it. -/
def start (sessionTelnet : SessionTelnet) (escChar : Int) (silence : Nat) : PicowifiRun where
  pw := .online sessionTelnet escChar silence
  sent := []
  polls := silence

end PicowifiRun

/-- A byte is the escape character. -/
def IsEscape (escChar : Int) (sent : Byte × Nat) : Prop := (sent.1.toNat : Int) = escChar

/-- A byte was sent after 50 polls without one. -/
def IsGuarded (sent : Byte × Nat) : Prop := modemGuard ≤ sent.2

instance (escChar : Int) (sent : Byte × Nat) : Decidable (IsEscape escChar sent) :=
  inferInstanceAs (Decidable (_ = _))

instance (sent : Byte × Nat) : Decidable (IsGuarded sent) := inferInstanceAs (Decidable (_ ≤ _))

/-- The last three bytes are escape characters, and the first of them has its guard. -/
def Escaped (escChar : Int) : List (Byte × Nat) → Prop
  | third :: second :: first :: _ =>
    IsEscape escChar third ∧ IsEscape escChar second ∧ IsEscape escChar first ∧ IsGuarded first
  | _ => False

/-- What the line should have of the bytes sent, but for the last `held`. -/
def picowifiLine (mode : SessionTelnet) (held : Nat) (sent : List (Byte × Nat)) : List Byte :=
  (sent.drop held).reverse.flatMap fun b => pwTnOutByte mode b.1

/-- Data mode is left for an escape sequence and for nothing else, and every byte is on the line
once and in order but for those of the sequence or for one or two that may start one. -/
structure PicowifiRun.Good (s : PicowifiRun) : Prop where
  escaped : s.pw.dataMode = false ↔ Escaped s.pw.escChar s.sent
  results : s.pw.results = if s.pw.dataMode then [] else [.ok]
  held : s.pw.dataMode = true → s.pw.plusCount ≤ 2 ∧
    (∀ b ∈ s.sent.take s.pw.plusCount, IsEscape s.pw.escChar b) ∧
    ∀ b ∈ (s.sent.take s.pw.plusCount).getLast?, IsGuarded b
  line : s.pw.line =
    picowifiLine s.pw.sessionTelnet (if s.pw.dataMode then s.pw.plusCount else 3) s.sent

/-- An operation of data mode where the connection takes what is written, and an escape sequence
has the three guards. -/
def PicowifiRun.Guarded (s : PicowifiRun) : PicowifiOp → Prop
  | .send byte flush write => s.pw.dataMode = true →
    (s.pw.escapes byte = false →
      (∀ i < s.pw.plusCount,
        (flush i).taken (pwTnOutByte s.pw.sessionTelnet (BitVec.ofInt 8 s.pw.escChar)) =
          pwTnOutByte s.pw.sessionTelnet (BitVec.ofInt 8 s.pw.escChar)) ∧
      write.taken (pwTnOutByte s.pw.sessionTelnet byte) = pwTnOutByte s.pw.sessionTelnet byte) ∧
    (Escaped s.pw.escChar ((byte, s.polls) :: s.sent) →
      ∀ b ∈ ((byte, s.polls) :: s.sent).take 2, IsGuarded b)
  | .poll => True

/-! ## The invariant -/

/-- An escape character with its guard. -/
def isHeld (escChar : Int) (b : Byte × Nat) : Bool :=
  decide (IsEscape escChar b) && decide (IsGuarded b)

theorem isHeld_iff {escChar : Int} {b : Byte × Nat} :
    isHeld escChar b = true ↔ IsEscape escChar b ∧ IsGuarded b := by
  simp [isHeld]

/-- The modem counts the escape characters with guards that came last. -/
structure PicowifiRun.Inv (s : PicowifiRun) : Prop where
  escChar : s.pw.escChar < 128
  socket : s.pw.dataMode = true → s.pw.socket = true
  silence : s.pw.dataMode = true → s.pw.silence = s.polls
  count : s.pw.dataMode = true →
    s.pw.plusCount = (s.sent.takeWhile (isHeld s.pw.escChar)).length

/-- Three escape characters with their guards are an escape sequence, and one with the three
guards. -/
theorem three_held_iff (escChar : Int) (sent : List (Byte × Nat)) :
    3 ≤ (sent.takeWhile (isHeld escChar)).length ↔
      Escaped escChar sent ∧ ∀ b ∈ sent.take 2, IsGuarded b := by
  rcases sent with _ | ⟨third, _ | ⟨second, _ | ⟨first, rest⟩⟩⟩
  · simp [Escaped]
  · have hle : ([third].takeWhile (isHeld escChar)).length ≤ 1 := (List.takeWhile_sublist _).length_le
    exact iff_of_false (by omega) fun h => h.1
  · have hle : ([third, second].takeWhile (isHeld escChar)).length ≤ 2 :=
      (List.takeWhile_sublist _).length_le
    exact iff_of_false (by omega) fun h => h.1
  · cases h3 : isHeld escChar third
    · have hno := (Bool.eq_false_iff.mp h3 ∘ isHeld_iff.mpr)
      simp only [List.takeWhile_cons, h3, Escaped]
      refine iff_of_false (by simp) ?_
      rintro ⟨⟨he, -⟩, hguards⟩
      exact hno ⟨he, hguards third (by simp)⟩
    cases h2 : isHeld escChar second
    · have hno := (Bool.eq_false_iff.mp h2 ∘ isHeld_iff.mpr)
      simp only [List.takeWhile_cons, h3, h2, Escaped]
      refine iff_of_false (by simp) ?_
      rintro ⟨⟨-, he, -⟩, hguards⟩
      exact hno ⟨he, hguards second (by simp)⟩
    cases h1 : isHeld escChar first
    · have hno := (Bool.eq_false_iff.mp h1 ∘ isHeld_iff.mpr)
      simp only [List.takeWhile_cons, h3, h2, h1, Escaped]
      refine iff_of_false (by simp) ?_
      rintro ⟨⟨-, -, hfirst⟩, -⟩
      exact hno hfirst
    · have hthird := isHeld_iff.mp h3
      have hsecond := isHeld_iff.mp h2
      have hfirst := isHeld_iff.mp h1
      refine iff_of_true (by simp [h3, h2, h1]) ?_
      refine ⟨⟨hthird.1, hsecond.1, hfirst.1, hfirst.2⟩, ?_⟩
      simp [hthird.2, hsecond.2]

/-- The characters counted are escape characters with guards. -/
theorem take_held {escChar : Int} {sent : List (Byte × Nat)} {b : Byte × Nat}
    (hb : b ∈ sent.take (sent.takeWhile (isHeld escChar)).length) :
    IsEscape escChar b ∧ IsGuarded b := by
  have htake : sent.take (sent.takeWhile (isHeld escChar)).length =
      sent.takeWhile (isHeld escChar) :=
    (List.prefix_iff_eq_take.mp (List.takeWhile_prefix _)).symm
  rw [htake] at hb
  exact isHeld_iff.mp (List.mem_takeWhile_imp hb)

/-! ## What the connection takes -/

theorem taken_length (bytes : List Byte) (write : SocketWrite) :
    (write.taken bytes).length ≤ bytes.length := by
  cases write with
  | accepted n => exact List.length_take_le' n bytes
  | wouldBlock => exact Nat.zero_le _
  | failed => exact Nat.zero_le _

/-- Pieces no longer than what they should be make it up only if they are it. -/
theorem append_eq_of_length_le {a a' b b' : List Byte} (ha : a'.length ≤ a.length)
    (hb : b'.length ≤ b.length) : a' ++ b' = a ++ b ↔ a' = a ∧ b' = b := by
  constructor
  · intro h
    have hlen := congrArg List.length h
    rw [List.length_append, List.length_append] at hlen
    exact List.append_inj h (by omega)
  · rintro ⟨rfl, rfl⟩
    rfl

theorem range_taken_length (out : List Byte) (flush : Nat → SocketWrite) (n : Nat) :
    ((List.range n).flatMap fun i => (flush i).taken out).length ≤
      ((List.range n).flatMap fun _ => out).length := by
  induction n with
  | zero => exact le_rfl
  | succ n ih =>
    simp only [List.range_succ, List.flatMap_append, List.length_append, List.flatMap_singleton]
    exact Nat.add_le_add ih (taken_length out (flush n))

theorem range_taken_iff (out : List Byte) (flush : Nat → SocketWrite) (n : Nat) :
    ((List.range n).flatMap fun i => (flush i).taken out) = ((List.range n).flatMap fun _ => out) ↔
      ∀ i < n, (flush i).taken out = out := by
  induction n with
  | zero => simp
  | succ n ih =>
    simp only [List.range_succ, List.flatMap_append, List.flatMap_singleton]
    rw [append_eq_of_length_le (range_taken_length out flush n) (taken_length out (flush n)), ih]
    constructor
    · rintro ⟨hbefore, hlast⟩ i hi
      obtain hlt | rfl := Nat.lt_succ_iff_lt_or_eq.mp hi
      · exact hbefore i hlt
      · exact hlast
    · intro h
      exact ⟨fun i hi => h i (Nat.lt_succ_of_lt hi), h n (Nat.lt_succ_self n)⟩

theorem pwTnOutByte_ne_nil (mode : SessionTelnet) (b : Byte) : pwTnOutByte mode b ≠ [] := by
  unfold pwTnOutByte
  split_ifs <;> exact List.cons_ne_nil _ _

/-- The escape characters held back, as the line should take them. -/
theorem held_line {escChar : Int} {held : List (Byte × Nat)} (mode : SessionTelnet)
    (h : ∀ b ∈ held, IsEscape escChar b) :
    (held.reverse.flatMap fun b => pwTnOutByte mode b.1) =
      (List.range held.length).flatMap fun _ => pwTnOutByte mode (BitVec.ofInt 8 escChar) := by
  induction held with
  | nil => rfl
  | cons b held ih =>
    have hb : BitVec.ofInt 8 escChar = b.1 := by
      rw [← (h b (by simp) : (b.1.toNat : Int) = escChar)]
      rw [BitVec.ofInt_natCast, BitVec.ofNat_toNat, BitVec.setWidth_eq]
    rw [List.reverse_cons, List.flatMap_append, List.length_cons, List.range_succ,
      List.flatMap_append, ih fun b hb => h b (by simp [hb]), List.flatMap_singleton,
      List.flatMap_singleton, hb]

/-- The line when nothing is held back. -/
theorem picowifiLine_split {escChar : Int} {sent : List (Byte × Nat)} (mode : SessionTelnet)
    {k : Nat} (hk : k ≤ sent.length) (h : ∀ b ∈ sent.take k, IsEscape escChar b)
    (b : Byte × Nat) : picowifiLine mode 0 (b :: sent) = picowifiLine mode k sent ++
      (((List.range k).flatMap fun _ => pwTnOutByte mode (BitVec.ofInt 8 escChar)) ++
        pwTnOutByte mode b.1) := by
  have hsplit : picowifiLine mode 0 sent = picowifiLine mode k sent ++
      (sent.take k).reverse.flatMap fun b => pwTnOutByte mode b.1 := by
    unfold picowifiLine
    rw [List.drop_zero, ← List.flatMap_append, ← List.reverse_append, List.take_append_drop]
  have hlen : (sent.take k).length = k := by
    rw [List.length_take]
    omega
  have hcons : picowifiLine mode 0 (b :: sent) = picowifiLine mode 0 sent ++
      pwTnOutByte mode b.1 := by
    unfold picowifiLine
    rw [List.drop_zero, List.drop_zero, List.reverse_cons, List.flatMap_append,
      List.flatMap_singleton]
  rw [hcons, hsplit, held_line mode h, hlen, List.append_assoc]

/-! ## Steps -/

namespace PicowifiRun

variable {s : PicowifiRun}

/-- A byte that is held back, or that ends the escape. -/
theorem send_held (hinv : s.Inv) (hgood : s.Good) (hmode : s.pw.dataMode = true) (byte : Byte)
    (flush : Nat → SocketWrite) (write : SocketWrite) (hheld : s.pw.escapes byte = true) :
    let s' := s.step (.send byte flush write)
    s'.Inv ∧ (s'.Good ↔ s.Guarded (.send byte flush write)) := by
  intro s'
  have hsilence := hinv.silence hmode
  have hcount := hinv.count hmode
  obtain ⟨hle, hescape, hfirst⟩ := hgood.held hmode
  have hline := hgood.line
  have hresults := hgood.results
  rw [if_pos hmode] at hline hresults
  have hnew : isHeld s.pw.escChar (byte, s.polls) = true := by
    simp only [PicowifiData.escapes, Bool.and_eq_true, decide_eq_true_eq, hsilence] at hheld
    exact isHeld_iff.mpr ⟨hheld.1.2, hheld.2⟩
  have hrun : (((byte, s.polls) :: s.sent).takeWhile (isHeld s.pw.escChar)).length =
      s.pw.plusCount + 1 := by
    rw [List.takeWhile_cons, if_pos hnew, List.length_cons, hcount]
  have hthree := three_held_iff s.pw.escChar ((byte, s.polls) :: s.sent)
  rw [hrun] at hthree
  have hguarded : s.Guarded (.send byte flush write) ↔
      (Escaped s.pw.escChar ((byte, s.polls) :: s.sent) →
        ∀ b ∈ ((byte, s.polls) :: s.sent).take 2, IsGuarded b) := by
    constructor
    · intro h
      exact (h hmode).2
    · intro h _
      exact ⟨fun hfree => absurd (hheld.symm.trans hfree) (by decide), h⟩
  rw [hguarded]
  by_cases hfull : 3 ≤ s.pw.plusCount + 1
  · have hs' : s' =
        { pw := { s.pw with
            dataMode := false, plusCount := 0, silence := 0, cmdLen := 0
            results := s.pw.results ++ [.ok] }
          sent := (byte, s.polls) :: s.sent
          polls := 0 } := by
      show s.step _ = _
      simp only [step, hmode, if_true, PicowifiData.send, hheld, hfull]
    have hescaped := hthree.mp hfull
    have htwo : s.pw.plusCount = 2 := by omega
    rw [hs']
    refine ⟨⟨hinv.escChar, nofun, nofun, nofun⟩, iff_of_true ?_ fun _ => hescaped.2⟩
    refine ⟨iff_of_true rfl hescaped.1, ?_, nofun, ?_⟩
    · show s.pw.results ++ [.ok] = [.ok]
      rw [hresults]
      rfl
    · show s.pw.line = picowifiLine s.pw.sessionTelnet 3 ((byte, s.polls) :: s.sent)
      rw [hline, htwo]
      rfl
  · have hs' : s' =
        { pw := { s.pw with plusCount := s.pw.plusCount + 1, silence := 0 }
          sent := (byte, s.polls) :: s.sent
          polls := 0 } := by
      show s.step _ = _
      simp only [step, hmode, if_true, PicowifiData.send, hheld, hfull, if_false]
    have hpartial := fun h => hfull (hthree.mpr h)
    rw [hs']
    refine ⟨⟨hinv.escChar, fun _ => hinv.socket hmode, fun _ => rfl, fun _ => hrun.symm⟩, ?_⟩
    constructor
    · intro h hescaped
      have hoff : s.pw.dataMode = false := h.escaped.mpr hescaped
      exact absurd (hmode.symm.trans hoff) (by decide)
    · intro h
      have hnot : ¬Escaped s.pw.escChar ((byte, s.polls) :: s.sent) :=
        fun hescaped => hpartial ⟨hescaped, h hescaped⟩
      have htake : ((byte, s.polls) :: s.sent).take (s.pw.plusCount + 1) =
          ((byte, s.polls) :: s.sent).take
            (((byte, s.polls) :: s.sent).takeWhile (isHeld s.pw.escChar)).length := by
        rw [hrun]
      refine ⟨iff_of_false (by simp [hmode]) hnot, ?_, fun _ => ⟨?_, ?_, ?_⟩, ?_⟩
      · show s.pw.results = if s.pw.dataMode then [] else [.ok]
        rw [if_pos hmode, hresults]
      · show s.pw.plusCount + 1 ≤ 2
        omega
      · intro b hb
        rw [htake] at hb
        exact (take_held hb).1
      · intro b hb
        rw [htake] at hb
        exact (take_held (List.mem_of_getLast? hb)).2
      · show s.pw.line = picowifiLine s.pw.sessionTelnet
          (if s.pw.dataMode then s.pw.plusCount + 1 else 3) ((byte, s.polls) :: s.sent)
        rw [if_pos hmode, hline]
        rfl

/-- A byte that is not held back. -/
theorem send_free (hinv : s.Inv) (hgood : s.Good) (hmode : s.pw.dataMode = true) (byte : Byte)
    (flush : Nat → SocketWrite) (write : SocketWrite) (hfree : s.pw.escapes byte = false) :
    let s' := s.step (.send byte flush write)
    s'.Inv ∧ (s'.Good ↔ s.Guarded (.send byte flush write)) := by
  intro s'
  have hsilence := hinv.silence hmode
  have hcount := hinv.count hmode
  have hsocket := hinv.socket hmode
  obtain ⟨hle, hescape, hfirst⟩ := hgood.held hmode
  have hline := hgood.line
  have hresults := hgood.results
  rw [if_pos hmode] at hline hresults
  have hnew : isHeld s.pw.escChar (byte, s.polls) = false := by
    refine Bool.eq_false_iff.mpr fun hheld => ?_
    obtain ⟨he, hg⟩ := isHeld_iff.mp hheld
    refine absurd hfree ?_
    simp only [PicowifiData.escapes, hsilence, Bool.not_eq_false, Bool.and_eq_true,
      decide_eq_true_eq]
    exact ⟨⟨hinv.escChar, he⟩, hg⟩
  have hrun : ((byte, s.polls) :: s.sent).takeWhile (isHeld s.pw.escChar) = [] := by
    rw [List.takeWhile_cons, hnew]
    rfl
  have hthree := three_held_iff s.pw.escChar ((byte, s.polls) :: s.sent)
  rw [hrun] at hthree
  have hpartial : ¬(Escaped s.pw.escChar ((byte, s.polls) :: s.sent) ∧
      ∀ b ∈ ((byte, s.polls) :: s.sent).take 2, IsGuarded b) :=
    fun h => absurd (hthree.mpr h) (by decide)
  have hkle : s.pw.plusCount ≤ s.sent.length := by
    rw [hcount]
    exact (List.takeWhile_sublist _).length_le
  have hsplit := picowifiLine_split s.pw.sessionTelnet hkle hescape (byte, s.polls)
  have hflushed : s.pw.flushed flush = (List.range s.pw.plusCount).flatMap fun i =>
      (flush i).taken (pwTnOutByte s.pw.sessionTelnet (BitVec.ofInt 8 s.pw.escChar)) := by
    unfold PicowifiData.flushed
    rw [show min s.pw.plusCount 3 = s.pw.plusCount by omega]
  have hwhole : s.pw.line ++ s.pw.flushed flush ++
        write.taken (pwTnOutByte s.pw.sessionTelnet byte) =
      picowifiLine s.pw.sessionTelnet 0 ((byte, s.polls) :: s.sent) ↔
        (∀ i < s.pw.plusCount,
          (flush i).taken (pwTnOutByte s.pw.sessionTelnet (BitVec.ofInt 8 s.pw.escChar)) =
            pwTnOutByte s.pw.sessionTelnet (BitVec.ofInt 8 s.pw.escChar)) ∧
        write.taken (pwTnOutByte s.pw.sessionTelnet byte) =
          pwTnOutByte s.pw.sessionTelnet byte := by
    rw [hsplit, hline, hflushed, List.append_assoc, List.append_cancel_left_eq,
      append_eq_of_length_le (range_taken_length _ flush _) (taken_length _ write),
      range_taken_iff]
  by_cases hfailed : write = .failed
  · have hs' : s' =
        { pw := { s.pw with
            line := s.pw.line ++ s.pw.flushed flush, plusCount := 0, silence := 0
            socket := false, dataMode := false, results := s.pw.results ++ [.noCarrier] }
          sent := (byte, s.polls) :: s.sent
          polls := 0 } := by
      show s.step _ = _
      simp [step, hmode, PicowifiData.send, hfree, hsocket, hfailed, PicowifiData.taking]
    rw [hs']
    refine ⟨⟨hinv.escChar, nofun, nofun, nofun⟩, iff_of_false ?_ ?_⟩
    · intro h
      have hwrong : s.pw.results ++ [.noCarrier] = [.ok] := h.results
      rw [hresults] at hwrong
      exact absurd hwrong (by decide)
    · intro h
      have htaken := ((h hmode).1 hfree).2
      rw [hfailed] at htaken
      exact pwTnOutByte_ne_nil _ _ htaken.symm
  · have hs' : s' =
        { pw := { s.pw with
            line := s.pw.line ++ s.pw.flushed flush ++
              write.taken (pwTnOutByte s.pw.sessionTelnet byte)
            plusCount := 0, silence := 0 }
          sent := (byte, s.polls) :: s.sent
          polls := 0 } := by
      show s.step _ = _
      simp [step, hmode, PicowifiData.send, hfree, hsocket, hfailed, PicowifiData.taking]
    rw [hs']
    refine ⟨⟨hinv.escChar, fun _ => hsocket, fun _ => rfl, fun _ => ?_⟩, ?_⟩
    · show 0 = (((byte, s.polls) :: s.sent).takeWhile (isHeld s.pw.escChar)).length
      rw [hrun]
      rfl
    constructor
    · intro h _
      have hlineGood : s.pw.line ++ s.pw.flushed flush ++
            write.taken (pwTnOutByte s.pw.sessionTelnet byte) =
          picowifiLine s.pw.sessionTelnet (if s.pw.dataMode then 0 else 3)
            ((byte, s.polls) :: s.sent) := h.line
      rw [if_pos hmode] at hlineGood
      refine ⟨fun _ => hwhole.mp hlineGood, fun hescaped => ?_⟩
      have hoff : s.pw.dataMode = false := h.escaped.mpr hescaped
      exact absurd (hmode.symm.trans hoff) (by decide)
    · intro h
      obtain ⟨hwrites, hguards⟩ := h hmode
      have hnot : ¬Escaped s.pw.escChar ((byte, s.polls) :: s.sent) :=
        fun hescaped => hpartial ⟨hescaped, hguards hescaped⟩
      refine ⟨iff_of_false (by simp [hmode]) hnot, ?_, fun _ => ⟨Nat.zero_le _, ?_, ?_⟩, ?_⟩
      · show s.pw.results = if s.pw.dataMode then [] else [.ok]
        rw [if_pos hmode, hresults]
      · simp
      · simp
      · show s.pw.line ++ s.pw.flushed flush ++
            write.taken (pwTnOutByte s.pw.sessionTelnet byte) =
          picowifiLine s.pw.sessionTelnet (if s.pw.dataMode then 0 else 3)
            ((byte, s.polls) :: s.sent)
        rw [if_pos hmode]
        exact hwhole.mpr (hwrites hfree)

theorem poll_good (hinv : s.Inv) (hgood : s.Good) :
    (s.step .poll).Inv ∧ (s.step .poll).Good := by
  unfold step
  split_ifs with hmode
  · refine ⟨⟨hinv.escChar, hinv.socket, fun h => ?_, hinv.count⟩, hgood.escaped, hgood.results,
      hgood.held, hgood.line⟩
    exact congrArg (· + 1) (hinv.silence h)
  · exact ⟨hinv, hgood⟩

theorem step_good (hinv : s.Inv) (hgood : s.Good) (op : PicowifiOp) :
    (s.step op).Inv ∧ ((s.step op).Good ↔ s.Guarded op) := by
  cases op with
  | poll =>
    have h := poll_good hinv hgood
    exact ⟨h.1, iff_of_true h.2 trivial⟩
  | send byte flush write =>
    cases hmode : s.pw.dataMode with
    | false =>
      have hs : s.step (.send byte flush write) = s := by
        unfold step
        rw [if_neg (by simp [hmode])]
      rw [hs]
      refine ⟨hinv, iff_of_true hgood fun hon => ?_⟩
      exact absurd (hmode.symm.trans hon) (by decide)
    | true =>
      cases hheld : s.pw.escapes byte with
      | true => exact send_held hinv hgood hmode byte flush write hheld
      | false => exact send_free hinv hgood hmode byte flush write hheld

theorem start_good {escChar : Int} (hesc : escChar < 128) (sessionTelnet : SessionTelnet)
    (silence : Nat) :
    (start sessionTelnet escChar silence).Inv ∧ (start sessionTelnet escChar silence).Good := by
  refine ⟨⟨hesc, fun _ => rfl, fun _ => rfl, fun _ => rfl⟩, ?_⟩
  refine ⟨iff_of_false nofun id, rfl, fun _ => ⟨Nat.zero_le _, ?_, ?_⟩, rfl⟩
  · exact fun b hb => absurd hb List.not_mem_nil
  · exact fun b hb => absurd hb (by simp [start, PicowifiData.online])

end PicowifiRun

/-- Data mode is left for the escape and for nothing else, and the line has every other byte,
exactly in the runs whose escape sequences have three guards and whose writes are taken whole. -/
theorem picowifiSend_escape_iff (sessionTelnet : SessionTelnet) (escChar : Int)
    (hesc : escChar < 128) (silence : Nat) (ops : List PicowifiOp) :
    Machine.Throughout PicowifiRun.step (fun s op => (s.step op).Good) ops
        (.start sessionTelnet escChar silence) ↔
      Machine.Throughout PicowifiRun.step PicowifiRun.Guarded ops
        (.start sessionTelnet escChar silence) := by
  have hstart := PicowifiRun.start_good hesc sessionTelnet silence
  have hnext : ∀ (s : PicowifiRun) (op : PicowifiOp), s.Inv → s.Good →
      ((s.step op).Good ↔ s.Guarded op) :=
    fun _ op hinv hgood => (PicowifiRun.step_good hinv hgood op).2
  exact Machine.Throughout.next_iff
    (fun _ op hinv hgood => (PicowifiRun.step_good hinv hgood op).1) hnext ops hstart.1 hstart.2

/-- Three `+` in one go after a silence are written to the line. -/
theorem picowifiSend_three_plus :
    ¬ ∀ (sessionTelnet : SessionTelnet) (escChar : Int), escChar < 128 →
      ∀ (silence : Nat) (ops : List PicowifiOp),
        Machine.Throughout PicowifiRun.step (fun s op => (s.step op).Good) ops
          (.start sessionTelnet escChar silence) := by
  intro h
  let plus : PicowifiOp := .send 0x2B (fun _ => .accepted 1) (.accepted 1)
  have hlast := (h .none 43 (by decide) 50 [plus, plus, plus]).2.2.1.escaped
  exact absurd (hlast.mpr ⟨rfl, rfl, rfl, le_rfl⟩) (by decide)

theorem picowifiSend_escape_iff_letter :
    Machine.Throughout PicowifiRun.step (fun s op => (s.step op).Good)
        [.send 0x41 (fun _ => .accepted 1) (.accepted 1)] (.start .none 43 0) ↔
      Machine.Throughout PicowifiRun.step PicowifiRun.Guarded
        [.send 0x41 (fun _ => .accepted 1) (.accepted 1)] (.start .none 43 0) :=
  picowifiSend_escape_iff .none 43 (by decide) 0 _

end Phosphoric
