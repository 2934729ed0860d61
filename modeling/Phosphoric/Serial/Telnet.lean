import Phosphoric.Lib.Word

/-!
# Telnet between two PicoWiFi modems

The telnet decoder of `src/io/serial_picowifi.c` and two modems connected back to back, each
decoding what the other writes byte by byte, in any interleaving.

A command is answered from a table, with no memory of what was agreed before. A WILL is answered
by a DO and a DO by a WILL for the options a modem has, and a subnegotiation that tells a terminal
type or speed by one that tells it again: these exchanges never end.

**Measure.** The cost of a line is what the decoder at its end will make of it: a unit for each
byte, and for each command the cost of its answer. A delivery removes its byte and replaces the
cost of an answer by the answer.

**Theorem (`telnet_quiesces`).** Without a command that is answered for ever on the lines at the
start, the number of deliveries is bounded.
-/

namespace Phosphoric

/-! ## Codes -/

abbrev tnSe : Byte := 240
abbrev tnAyt : Byte := 246
abbrev tnSb : Byte := 250
abbrev tnWill : Byte := 251
abbrev tnWont : Byte := 252
abbrev tnDo : Byte := 253
abbrev tnDont : Byte := 254
abbrev tnIac : Byte := 255

abbrev tnoBinary : Byte := 0
abbrev tnoEcho : Byte := 1
abbrev tnoSupGa : Byte := 3
abbrev tnoLoc : Byte := 23
abbrev tnoTtype : Byte := 24
abbrev tnoNaws : Byte := 31
abbrev tnoTspeed : Byte := 32
abbrev tnoLflow : Byte := 33
abbrev tnoLinemode : Byte := 34
abbrev tnoXdisploc : Byte := 35
abbrev tnoNewEnviron : Byte := 39

/-! ## A modem -/

/-- `session_telnet`. -/
inductive SessionTelnet
  | none | real | fake
  deriving DecidableEq, Repr

/-- `tn_state`, with `tn_verb` and `tn_sb_opt` where they are in use. -/
inductive TnState
  | normal
  | iac
  | verb (v : Byte)
  | sb (opt : Option Byte)
  | sbIac (opt : Option Byte)
  deriving DecidableEq, Repr

/-- The part of `picowifi_t` the telnet decoder uses. -/
structure TelnetModem where
  sessionTelnet : SessionTelnet
  tnState : TnState
  tnPrevCr : Bool
  ttyType : List Byte
  ttyW : Int
  ttyH : Int
  ttyLoc : List Byte
  baud : Int
  /-- What waits in the receive ring. -/
  rx : List Byte

abbrev pwRxBufsz : Nat := 65536

def pwRxPush (pw : TelnetModem) (b : Byte) : TelnetModem :=
  if pw.rx.length ≥ pwRxBufsz then pw else { pw with rx := pw.rx ++ [b] }

def tnText (text : String) : List Byte := text.toList.map fun c => BitVec.ofNat 8 c.toNat

/-- What `%d` prints. -/
def decimal (n : Int) : List Byte := tnText (toString n)

/-- The options a DO is answered for by WILL alone. -/
def tnWilling (opt : Byte) : Bool :=
  opt == tnoBinary || opt == tnoEcho || opt == tnoSupGa || opt == tnoTtype || opt == tnoTspeed

/-- The options a WILL is refused for. -/
def tnRefused (opt : Byte) : Bool :=
  opt == tnoLinemode || opt == tnoNaws || opt == tnoLflow || opt == tnoNewEnviron ||
    opt == tnoXdisploc

/-- `pw_tn_negotiate`: the bytes written in answer. -/
def pwTnNegotiate (pw : TelnetModem) (verb opt : Byte) : List Byte :=
  if verb = tnDo then
    if tnWilling opt then [tnIac, tnWill, opt]
    else if opt = tnoLoc then
      [tnIac, tnWill, opt] ++ [tnIac, tnSb, tnoLoc] ++ pw.ttyLoc ++ [tnIac, tnSe]
    else if opt = tnoNaws then
      [tnIac, tnWill, opt] ++ [tnIac, tnSb, tnoNaws, 0, BitVec.ofInt 8 pw.ttyW, 0,
        BitVec.ofInt 8 pw.ttyH, tnIac, tnSe]
    else [tnIac, tnWont, opt]
  else if verb = tnWill then
    if tnRefused opt then [tnIac, tnDont, opt] else [tnIac, tnDo, opt]
  else []

/-- `pw_tn_subneg`. -/
def pwTnSubneg (pw : TelnetModem) (opt : Option Byte) : List Byte :=
  if opt = some tnoTtype then [tnIac, tnSb, tnoTtype, 0] ++ pw.ttyType ++ [tnIac, tnSe]
  else if opt = some tnoTspeed then
    [tnIac, tnSb, tnoTspeed, 0] ++ (decimal pw.baud ++ [0x2C#8] ++ decimal pw.baud) ++
      [tnIac, tnSe]
  else []

/-- `"\r\n[Yes]\r\n"`. -/
def tnYes : List Byte := [0x0D, 0x0A, 0x5B, 0x59, 0x65, 0x73, 0x5D, 0x0D, 0x0A]

/-- `pw_tn_rx_byte`: the modem after a byte from the line, and what it writes to it. -/
def pwTnRxByte (pw : TelnetModem) (b : Byte) : TelnetModem × List Byte :=
  match pw.tnState with
  | .normal =>
    if b = tnIac then ({ pw with tnState := .iac }, [])
    else if pw.sessionTelnet = .real ∧ pw.tnPrevCr ∧ b = 0 then
      ({ pw with tnPrevCr := false }, [])
    else ({ pwRxPush pw b with tnPrevCr := b = 0x0D#8 }, [])
  | .iac =>
    if b = tnIac then ({ pwRxPush pw 0xFF#8 with tnPrevCr := false, tnState := .normal }, [])
    else if b = tnWill ∨ b = tnWont ∨ b = tnDo ∨ b = tnDont then
      ({ pw with tnState := .verb b }, [])
    else if b = tnSb then ({ pw with tnState := .sb none }, [])
    else if b = tnAyt then ({ pw with tnState := .normal }, tnYes)
    else ({ pw with tnState := .normal }, [])
  | .verb v => ({ pw with tnState := .normal }, pwTnNegotiate pw v b)
  | .sb opt =>
    if b = tnIac then ({ pw with tnState := .sbIac opt }, [])
    else ({ pw with tnState := .sb (opt.or (some b)) }, [])
  | .sbIac opt =>
    if b = tnSe then ({ pw with tnState := .normal }, pwTnSubneg pw opt)
    else ({ pw with tnState := .sb opt }, [])

/-! ## Two modems -/

/-- Two modems and the bytes on their way to each. -/
structure TelnetLink where
  a : TelnetModem
  b : TelnetModem
  toA : List Byte
  toB : List Byte

inductive Side
  | a | b
  deriving DecidableEq, Repr

/-- The next byte is delivered to a side; `none` when there is none on the way. -/
def TelnetLink.deliver (l : TelnetLink) : Side → Option TelnetLink
  | .a =>
    match l.toA with
    | [] => none
    | x :: rest =>
      some { l with
        a := (pwTnRxByte l.a x).1, toA := rest, toB := l.toB ++ (pwTnRxByte l.a x).2 }
  | .b =>
    match l.toB with
    | [] => none
    | x :: rest =>
      some { l with
        b := (pwTnRxByte l.b x).1, toB := rest, toA := l.toA ++ (pwTnRxByte l.b x).2 }

/-- The link after a series of deliveries; `none` when one of them finds nothing. -/
def TelnetLink.run (l : TelnetLink) (sides : List Side) : Option TelnetLink :=
  sides.foldlM TelnetLink.deliver l

/-- The exchange ends: there is a bound on the deliveries, whatever their order. -/
def TelnetLink.Quiesces (l : TelnetLink) : Prop :=
  ∃ n, ∀ sides l', l.run sides = some l' → sides.length ≤ n

inductive TnVerb
  | will | wont | enable | disable
  deriving DecidableEq, Repr

def TnVerb.byte : TnVerb → Byte
  | .will => tnWill
  | .wont => tnWont
  | .enable => tnDo
  | .disable => tnDont

/-- What is injected at the start. -/
inductive TnItem
  | data (b : Byte)
  | negotiate (verb : TnVerb) (opt : Byte)
  | subneg (opt : Byte) (payload : List Byte)

/-- The bytes of data on a line. -/
def tnEscape (data : List Byte) : List Byte :=
  data.flatMap fun b => if b = tnIac then [tnIac, tnIac] else [b]

def TnItem.encode : TnItem → List Byte
  | .data b => tnEscape [b]
  | .negotiate verb opt => [tnIac, verb.byte, opt]
  | .subneg opt payload => [tnIac, tnSb] ++ tnEscape (opt :: payload) ++ [tnIac, tnSe]

def tnLine (items : List TnItem) : List Byte := items.flatMap TnItem.encode

/-- Two modems with items injected on both lines. -/
def telnetLink (a b : TelnetModem) (toA toB : List TnItem) : TelnetLink where
  a := { a with tnState := .normal, tnPrevCr := false }
  b := { b with tnState := .normal, tnPrevCr := false }
  toA := tnLine toA
  toB := tnLine toB

/-! ## Commands answered for ever -/

/-- The options a WILL and a DO are exchanged for without end. -/
def tnEchoing (opt : Byte) : Bool := tnWilling opt || opt == tnoLoc

/-- The options whose subnegotiation is answered by one of the same option. -/
def tnRepeating (opt : Option Byte) : Bool := opt == some tnoTtype || opt == some tnoTspeed

/-- The option a subnegotiation is taken for: its first byte that is not doubled. -/
def tnSubnegOption (bytes : List Byte) : Option Byte := bytes.find? (· ≠ tnIac)

/-- The item starts no exchange without end. -/
def TnItem.Settles : TnItem → Prop
  | .data _ => True
  | .negotiate verb opt => verb = .will ∨ verb = .enable → tnEchoing opt = false
  | .subneg opt payload => tnRepeating (tnSubnegOption (opt :: payload)) = false

/-! ## The measure -/

/-- The decoder's state after a byte. -/
def tnNext : TnState → Byte → TnState
  | .normal, b => if b = tnIac then .iac else .normal
  | .iac, b =>
    if b = tnIac then .normal
    else if b = tnWill ∨ b = tnWont ∨ b = tnDo ∨ b = tnDont then .verb b
    else if b = tnSb then .sb none
    else .normal
  | .verb _, _ => .normal
  | .sb opt, b => if b = tnIac then .sbIac opt else .sb (opt.or (some b))
  | .sbIac opt, b => if b = tnSe then .normal else .sb opt

/-- The cost of the answer to a command. -/
def tnPrice (verb opt : Byte) : Nat :=
  if verb = tnDo then if opt = tnoNaws then 15 else 3
  else if verb = tnWill then if tnRefused opt then 3 else 6
  else 0

/-- The cost of what a byte makes the decoder write. -/
def tnAnswer : TnState → Byte → Nat
  | .verb v, b => tnPrice v b
  | .iac, b => if b = tnAyt then 9 else 0
  | _, _ => 0

/-- The cost of a line. -/
def tnCost : TnState → List Byte → Nat
  | _, [] => 0
  | st, b :: bs => 1 + tnAnswer st b + tnCost (tnNext st b) bs

/-- A byte completes no command that is answered for ever. -/
def tnCalm : TnState → Byte → Bool
  | .verb v, b => !((v == tnWill || v == tnDo) && tnEchoing b)
  | .sbIac opt, b => !(b == tnSe && tnRepeating opt)
  | _, _ => true

/-- Between items, or in a subnegotiation whose end was lost. -/
def TnState.Settled : TnState → Prop
  | .normal => True
  | .sb opt => tnRepeating opt = false
  | .sbIac opt => tnRepeating opt = false
  | _ => False

/-- The line has only commands whose exchanges end, and ends between items. -/
def TnQuiet : TnState → List Byte → Prop
  | st, [] => st.Settled
  | st, b :: bs => tnCalm st b = true ∧ TnQuiet (tnNext st b) bs

def tnRun (st : TnState) (bs : List Byte) : TnState := bs.foldl tnNext st

theorem pwTnRxByte_state (pw : TelnetModem) (b : Byte) :
    (pwTnRxByte pw b).1.tnState = tnNext pw.tnState b := by
  have hpush : ∀ c, (pwRxPush pw c).tnState = pw.tnState := by
    intro c
    rw [pwRxPush]
    split <;> rfl
  cases hst : pw.tnState with
  | normal =>
    simp only [pwTnRxByte, hst, tnNext]
    split
    · rfl
    split
    · rfl
    · exact (hpush b).trans hst
  | iac =>
    simp only [pwTnRxByte, hst, tnNext]
    split
    · rfl
    split
    · rfl
    split
    · rfl
    split <;> rfl
  | verb v => simp only [pwTnRxByte, hst, tnNext]
  | sb opt =>
    simp only [pwTnRxByte, hst, tnNext]
    split <;> rfl
  | sbIac opt =>
    simp only [pwTnRxByte, hst, tnNext]
    split <;> rfl

theorem tnCost_append (st : TnState) (xs ys : List Byte) :
    tnCost st (xs ++ ys) = tnCost st xs + tnCost (tnRun st xs) ys := by
  induction xs generalizing st with
  | nil => simp [tnCost, tnRun]
  | cons x xs ih =>
    rw [List.cons_append, tnCost, tnCost, ih, tnRun, tnRun, List.foldl_cons]
    omega

theorem tnQuiet_append {st : TnState} {xs ys : List Byte} (hxs : TnQuiet st xs)
    (hys : TnQuiet (tnRun st xs) ys) : TnQuiet st (xs ++ ys) := by
  induction xs generalizing st with
  | nil => exact hys
  | cons x xs ih => exact ⟨hxs.1, ih hxs.2 hys⟩

theorem TnQuiet.settled {st : TnState} {xs : List Byte} (h : TnQuiet st xs) :
    (tnRun st xs).Settled := by
  induction xs generalizing st with
  | nil => exact h
  | cons x xs ih => exact ih h.2

/-! ## Answers -/

theorem tnRepeating_or {opt : Option Byte} {b : Byte} (hopt : tnRepeating opt = false)
    (hb : tnRepeating (some b) = false) : tnRepeating (opt.or (some b)) = false := by
  cases opt with
  | none => exact hb
  | some c => exact hopt

/-- A byte inside a subnegotiation. -/
theorem tnNext_sb {opt : Option Byte} {b : Byte} (hopt : tnRepeating opt = false)
    (hb : tnRepeating (some b) = false) :
    ∃ opt', tnRepeating opt' = false ∧ (tnNext (.sb opt) b = .sb opt' ∨
      tnNext (.sb opt) b = .sbIac opt') := by
  by_cases hiac : b = tnIac
  · exact ⟨opt, hopt, .inr (if_pos hiac)⟩
  · exact ⟨opt.or (some b), tnRepeating_or hopt hb, .inl (if_neg hiac)⟩

theorem tnSettled_next {opt : Option Byte} {b : Byte} (hopt : tnRepeating opt = false)
    (hb : tnRepeating (some b) = false) : (tnNext (.sb opt) b).Settled := by
  obtain ⟨opt', hopt', h | h⟩ := tnNext_sb hopt hb
  · rw [h]
    exact hopt'
  · rw [h]
    exact hopt'

/-- A command on a line that is between items or in an unended subnegotiation. -/
theorem tnQuiet_command {st : TnState} {v x : Byte} (hst : st.Settled)
    (hv : v = tnWill ∨ v = tnWont ∨ v = tnDo ∨ v = tnDont)
    (hcalm : tnCalm (.verb v) x = true) (hx : tnRepeating (some x) = false) :
    TnQuiet st [tnIac, v, x] ∧ tnCost st [tnIac, v, x] ≤ 3 + tnPrice v x := by
  have hfacts : v ≠ tnIac ∧ v ≠ tnSe ∧ tnRepeating (some v) = false := by
    rcases hv with rfl | rfl | rfl | rfl <;> decide
  obtain ⟨hiac, hse, hrep⟩ := hfacts
  cases st with
  | normal =>
    have h1 : tnNext .normal tnIac = .iac := rfl
    have h2 : tnNext .iac v = .verb v := by simp only [tnNext, if_neg hiac, if_pos hv]
    have hayt : v ≠ tnAyt := by rcases hv with rfl | rfl | rfl | rfl <;> decide
    refine ⟨⟨rfl, ?_⟩, ?_⟩
    · rw [h1]
      refine ⟨rfl, ?_⟩
      rw [h2]
      exact ⟨hcalm, trivial⟩
    · simp only [tnCost, h1, h2, tnAnswer, if_neg hayt]
      omega
  | sb opt =>
    have h1 : tnNext (.sb opt) tnIac = .sbIac opt := rfl
    have h2 : tnNext (.sbIac opt) v = .sb opt := if_neg hse
    have hcalm2 : tnCalm (.sbIac opt) v = true := by
      simp only [tnCalm, beq_false_of_ne hse, Bool.false_and, Bool.not_false]
    refine ⟨⟨rfl, ?_⟩, ?_⟩
    · rw [h1]
      refine ⟨hcalm2, ?_⟩
      rw [h2]
      exact ⟨rfl, tnSettled_next hst hx⟩
    · simp only [tnCost, h1, h2, tnAnswer]
      omega
  | sbIac opt =>
    have h1 : tnNext (.sbIac opt) tnIac = .sb opt := rfl
    have h2 : tnNext (.sb opt) v = .sb (opt.or (some v)) := if_neg hiac
    refine ⟨⟨by simp [tnCalm], ?_⟩, ?_⟩
    · rw [h1]
      refine ⟨rfl, ?_⟩
      rw [h2]
      exact ⟨rfl, tnSettled_next (tnRepeating_or hst hrep) hx⟩
    · simp only [tnCost, h1, h2, tnAnswer]
      omega
  | iac => exact hst.elim
  | verb v' => exact hst.elim

/-- Text without IAC costs its length. -/
theorem tnQuiet_yes {st : TnState} (hst : st.Settled) :
    TnQuiet st tnYes ∧ tnCost st tnYes ≤ 9 := by
  cases st with
  | normal => exact ⟨by simp [TnQuiet, tnYes, tnNext, tnCalm, TnState.Settled], by decide⟩
  | sb opt =>
    cases opt with
    | none => exact ⟨by simp [TnQuiet, tnYes, tnNext, tnCalm, TnState.Settled]; decide, by decide⟩
    | some o =>
      exact ⟨by simpa [TnQuiet, tnYes, tnNext, tnCalm, TnState.Settled] using hst,
        by simp [tnCost, tnYes, tnNext, tnAnswer]⟩
  | sbIac opt =>
    cases opt with
    | none => exact ⟨by simp [TnQuiet, tnYes, tnNext, tnCalm, TnState.Settled]; decide, by decide⟩
    | some o =>
      exact ⟨by simpa [TnQuiet, tnYes, tnNext, tnCalm, TnState.Settled] using hst,
        by simp [tnCost, tnYes, tnNext, tnAnswer]⟩
  | iac => exact hst.elim
  | verb v => exact hst.elim

/-- The rest of a subnegotiation with an option, whatever the two numbers in it. -/
theorem tnQuiet_naws_tail {o : Byte} (ho : tnRepeating (some o) = false) (w h : Byte) :
    TnQuiet (.sb (some o)) [0, w, 0, h, tnIac, tnSe] ∧
      tnCost (.sb (some o)) [0, w, 0, h, tnIac, tnSe] ≤ 6 := by
  have hcalm : ∀ b, tnCalm (.sbIac (some o)) b = true := by
    intro b
    simp [tnCalm, ho]
  have hend : ∀ b, (tnNext (.sb (some o)) b = .sb (some o) ∨
      tnNext (.sb (some o)) b = .sbIac (some o)) := by
    intro b
    by_cases hiac : b = tnIac
    · exact .inr (if_pos hiac)
    · exact .inl (if_neg hiac)
  have hzero : tnNext (.sb (some o)) 0 = .sb (some o) ∧
      tnNext (.sbIac (some o)) 0 = .sb (some o) := ⟨rfl, rfl⟩
  have hlast : TnQuiet (tnNext (.sb (some o)) h) [tnIac, tnSe] ∧
      tnCost (tnNext (.sb (some o)) h) [tnIac, tnSe] ≤ 2 := by
    rcases hend h with heq | heq
    · rw [heq]
      exact ⟨⟨rfl, hcalm _, trivial⟩, Nat.le_refl _⟩
    · rw [heq]
      exact ⟨⟨hcalm _, rfl, ho⟩, Nat.le_refl _⟩
  have hmid : tnNext (tnNext (.sb (some o)) w) 0 = .sb (some o) ∧
      tnCalm (tnNext (.sb (some o)) w) 0 = true ∧ tnAnswer (tnNext (.sb (some o)) w) 0 = 0 := by
    rcases hend w with heq | heq
    · rw [heq]
      exact ⟨rfl, rfl, rfl⟩
    · rw [heq]
      exact ⟨rfl, hcalm _, rfl⟩
  refine ⟨⟨rfl, ?_⟩, ?_⟩
  · rw [hzero.1]
    refine ⟨rfl, hmid.2.1, ?_⟩
    rw [hmid.1]
    exact ⟨rfl, hlast.1⟩
  · have hcost := hlast.2
    have hsb : ∀ b, tnAnswer (.sb (some o)) b = 0 := fun _ => rfl
    simp only [tnCost, hzero.1, hmid.1, hmid.2.2, hsb] at hcost ⊢
    omega

/-- The size of the window, as the modem tells it after its WILL. A height of 255 runs into the
end of the subnegotiation. -/
theorem tnQuiet_naws {st : TnState} (hst : st.Settled) (w h : Byte) :
    TnQuiet st [tnIac, tnSb, tnoNaws, 0, w, 0, h, tnIac, tnSe] ∧
      tnCost st [tnIac, tnSb, tnoNaws, 0, w, 0, h, tnIac, tnSe] ≤ 9 := by
  have hstart : ∃ o, tnRepeating (some o) = false ∧
      tnNext (tnNext (tnNext st tnIac) tnSb) tnoNaws = .sb (some o) ∧
      tnCalm st tnIac = true ∧ tnCalm (tnNext st tnIac) tnSb = true ∧
      tnCalm (tnNext (tnNext st tnIac) tnSb) tnoNaws = true ∧ tnAnswer st tnIac = 0 ∧
      tnAnswer (tnNext st tnIac) tnSb = 0 ∧
      tnAnswer (tnNext (tnNext st tnIac) tnSb) tnoNaws = 0 := by
    cases st with
    | normal => exact ⟨tnoNaws, rfl, rfl, rfl, rfl, rfl, rfl, rfl, rfl⟩
    | sb opt =>
      cases opt with
      | none => exact ⟨tnoNaws, rfl, rfl, rfl, rfl, rfl, rfl, rfl, rfl⟩
      | some o => exact ⟨o, hst, rfl, rfl, rfl, rfl, rfl, rfl, rfl⟩
    | sbIac opt =>
      cases opt with
      | none => exact ⟨tnSb, rfl, rfl, rfl, rfl, rfl, rfl, rfl, rfl⟩
      | some o => exact ⟨o, hst, rfl, rfl, rfl, rfl, rfl, rfl, rfl⟩
    | iac => exact hst.elim
    | verb v => exact hst.elim
  obtain ⟨o, ho, hnext, hc1, hc2, hc3, ha1, ha2, ha3⟩ := hstart
  obtain ⟨hquiet, hcost⟩ := tnQuiet_naws_tail ho w h
  refine ⟨⟨hc1, hc2, hc3, ?_⟩, ?_⟩
  · rw [hnext]
    exact hquiet
  · rw [tnCost, tnCost, tnCost, hnext, ha1, ha2, ha3]
    omega

/-- The answer to a byte costs at most its price. -/
theorem tnQuiet_answer {st st' : TnState} {pw : TelnetModem} {b : Byte} (hpw : pw.tnState = st')
    (hcalm : tnCalm st' b = true) (hst : st.Settled) :
    TnQuiet st (pwTnRxByte pw b).2 ∧ tnCost st (pwTnRxByte pw b).2 ≤ tnAnswer st' b := by
  have hnil : TnQuiet st [] ∧ tnCost st [] ≤ 0 := ⟨hst, Nat.le_refl _⟩
  cases st' with
  | normal =>
    simp only [pwTnRxByte, hpw]
    split
    · exact hnil
    split <;> exact hnil
  | iac =>
    simp only [pwTnRxByte, hpw, tnAnswer]
    by_cases hayt : b = tnAyt
    · subst hayt
      exact tnQuiet_yes hst
    · rw [if_neg hayt]
      split
      · exact hnil
      split
      · exact hnil
      split
      · exact hnil
      · exact hnil
  | verb v =>
    simp only [pwTnRxByte, hpw, tnAnswer, tnPrice, pwTnNegotiate]
    by_cases hdo : v = tnDo
    · subst hdo
      have hecho : tnEchoing b = false := by simpa [tnCalm] using hcalm
      obtain ⟨hwilling, hloc⟩ : tnWilling b = false ∧ (b == tnoLoc) = false := by
        simpa [tnEchoing] using hecho
      rw [if_pos rfl, if_pos rfl, hwilling, if_neg (by simp), if_neg (by simpa using hloc)]
      by_cases hnaws : b = tnoNaws
      · subst hnaws
        rw [if_pos rfl, if_pos rfl]
        obtain ⟨hq1, hc1⟩ := @tnQuiet_command st tnWill tnoNaws hst (.inl rfl) rfl rfl
        obtain ⟨hq2, hc2⟩ := tnQuiet_naws hq1.settled (BitVec.ofInt 8 pw.ttyW)
          (BitVec.ofInt 8 pw.ttyH)
        have hprice : tnPrice tnWill tnoNaws = 3 := rfl
        refine ⟨tnQuiet_append hq1 hq2, ?_⟩
        rw [tnCost_append]
        omega
      · rw [if_neg hnaws, if_neg hnaws]
        have hrep : tnRepeating (some b) = false := by
          revert hwilling
          revert b
          decide
        exact tnQuiet_command hst (.inr (.inl rfl)) rfl hrep
    · rw [if_neg hdo, if_neg hdo]
      by_cases hwill : v = tnWill
      · subst hwill
        have hecho : tnEchoing b = false := by simpa [tnCalm] using hcalm
        rw [if_pos rfl, if_pos rfl]
        by_cases hrefused : tnRefused b = true
        · rw [if_pos hrefused, if_pos hrefused]
          have hrep : tnRepeating (some b) = false := by
            revert hecho
            revert b
            decide
          exact tnQuiet_command hst (.inr (.inr (.inr rfl))) rfl hrep
        · rw [if_neg hrefused, if_neg hrefused]
          have hrep : tnRepeating (some b) = false := by
            revert hecho
            revert b
            decide
          have hprice : tnPrice tnDo b = 3 := by
            have hnaws : b ≠ tnoNaws := by
              rintro rfl
              exact hrefused rfl
            rw [tnPrice, if_pos rfl, if_neg hnaws]
          obtain ⟨hq, hc⟩ := tnQuiet_command hst (.inr (.inr (.inl rfl)))
            (show tnCalm (.verb tnDo) b = true by simp [tnCalm, hecho]) hrep
          exact ⟨hq, by omega⟩
      · rw [if_neg hwill, if_neg hwill]
        exact hnil
  | sb opt =>
    simp only [pwTnRxByte, hpw]
    split <;> exact hnil
  | sbIac opt =>
    simp only [pwTnRxByte, hpw]
    split
    · rename_i hse
      subst hse
      obtain ⟨httype, htspeed⟩ : opt ≠ some tnoTtype ∧ opt ≠ some tnoTspeed := by
        simpa [tnCalm, tnRepeating] using hcalm
      rw [pwTnSubneg, if_neg httype, if_neg htspeed]
      exact hnil
    · exact hnil

/-! ## Runs -/

namespace TelnetLink

/-- Both lines have only commands whose exchanges end. -/
def Quiet (l : TelnetLink) : Prop := TnQuiet l.a.tnState l.toA ∧ TnQuiet l.b.tnState l.toB

def cost (l : TelnetLink) : Nat := tnCost l.a.tnState l.toA + tnCost l.b.tnState l.toB

/-- A delivery takes at least its byte from the cost. -/
theorem deliver_cost {l l' : TelnetLink} {side : Side} (h : l.Quiet)
    (hstep : l.deliver side = some l') : l'.Quiet ∧ l'.cost < l.cost := by
  obtain ⟨ha, hb⟩ := h
  cases side with
  | a =>
    cases hline : l.toA with
    | nil => simp [deliver, hline] at hstep
    | cons x rest =>
      simp only [deliver, hline, Option.some.injEq] at hstep
      subst hstep
      rw [hline] at ha
      obtain ⟨hq, hc⟩ := tnQuiet_answer rfl ha.1 hb.settled
      refine ⟨⟨?_, tnQuiet_append hb hq⟩, ?_⟩
      · rw [pwTnRxByte_state]
        exact ha.2
      · simp only [cost, hline, tnCost, pwTnRxByte_state, tnCost_append]
        omega
  | b =>
    cases hline : l.toB with
    | nil => simp [deliver, hline] at hstep
    | cons x rest =>
      simp only [deliver, hline, Option.some.injEq] at hstep
      subst hstep
      rw [hline] at hb
      obtain ⟨hq, hc⟩ := tnQuiet_answer rfl hb.1 ha.settled
      refine ⟨⟨tnQuiet_append ha hq, ?_⟩, ?_⟩
      · rw [pwTnRxByte_state]
        exact hb.2
      · simp only [cost, hline, tnCost, pwTnRxByte_state, tnCost_append]
        omega

theorem run_cost {sides : List Side} {l l' : TelnetLink} (h : l.Quiet)
    (hrun : l.run sides = some l') : l'.Quiet ∧ sides.length + l'.cost ≤ l.cost := by
  induction sides generalizing l with
  | nil =>
    cases hrun
    exact ⟨h, by simp⟩
  | cons side sides ih =>
    rw [run, List.foldlM_cons] at hrun
    cases hstep : l.deliver side with
    | none => simp [hstep] at hrun
    | some l₁ =>
      obtain ⟨hq, hc⟩ := deliver_cost h hstep
      obtain ⟨hq', hc'⟩ := ih hq (by simpa [hstep, run] using hrun)
      refine ⟨hq', ?_⟩
      rw [List.length_cons]
      omega

end TelnetLink

/-! ## Injected items -/

theorem tnQuiet_escape {opt : Option Byte} (data : List Byte) :
    ∀ bs, (tnRepeating (opt.or (tnSubnegOption data)) = false →
      TnQuiet (.sb (opt.or (tnSubnegOption data))) bs → TnQuiet (.sb opt) (tnEscape data ++ bs)) := by
  induction data generalizing opt with
  | nil =>
    intro bs _ hbs
    simpa [tnSubnegOption, tnEscape] using hbs
  | cons b data ih =>
    intro bs hrep hbs
    by_cases hiac : b = tnIac
    · have hopt : tnSubnegOption (b :: data) = tnSubnegOption data := by
        simp [tnSubnegOption, hiac]
      rw [hopt] at hrep hbs
      have hescape : tnEscape (b :: data) = tnIac :: tnIac :: tnEscape data := by
        simp [tnEscape, hiac]
      rw [hescape]
      exact ⟨rfl, rfl, ih bs hrep hbs⟩
    · have hopt : tnSubnegOption (b :: data) = some b := by
        simp [tnSubnegOption, show b ≠ 255#8 from hiac]
      have hescape : tnEscape (b :: data) = b :: tnEscape data := by
        simp [tnEscape, show b ≠ 255#8 from hiac]
      rw [hopt] at hrep hbs
      have hor : (opt.or (some b)).or (tnSubnegOption data) = opt.or (some b) := by
        cases opt <;> rfl
      have hnext : tnNext (.sb opt) b = .sb (opt.or (some b)) := if_neg hiac
      rw [hescape]
      refine ⟨rfl, ?_⟩
      rw [hnext]
      exact ih bs (by rwa [hor]) (by rwa [hor])

theorem TnItem.Settles.quiet {item : TnItem} (h : item.Settles) {bs : List Byte}
    (hbs : TnQuiet .normal bs) : TnQuiet .normal (item.encode ++ bs) := by
  cases item with
  | data b =>
    by_cases hiac : b = tnIac
    · subst hiac
      exact ⟨rfl, rfl, hbs⟩
    · have hnext : tnNext .normal b = .normal := if_neg hiac
      have hencode : (TnItem.data b).encode = [b] := by
        simp [TnItem.encode, tnEscape, show b ≠ 255#8 from hiac]
      rw [hencode]
      refine ⟨rfl, ?_⟩
      rw [hnext]
      exact hbs
  | negotiate verb opt =>
    have hcalm : tnCalm (.verb verb.byte) opt = true := by
      cases verb with
      | will =>
        have := h (.inl rfl)
        simp [tnCalm, this]
      | enable =>
        have := h (.inr rfl)
        simp [tnCalm, this]
      | wont => rfl
      | disable => rfl
    have hnext : tnNext .iac verb.byte = .verb verb.byte := by cases verb <;> rfl
    refine ⟨rfl, rfl, ?_⟩
    show TnQuiet (tnNext .iac verb.byte) (opt :: bs)
    rw [hnext]
    exact ⟨hcalm, hbs⟩
  | subneg opt payload =>
    have hrep : tnRepeating (tnSubnegOption (opt :: payload)) = false := h
    have hescape := @tnQuiet_escape none (opt :: payload) ([tnIac, tnSe] ++ bs)
    simp only [Option.none_or] at hescape
    have htail : TnQuiet (.sb (tnSubnegOption (opt :: payload))) ([tnIac, tnSe] ++ bs) := by
      refine ⟨rfl, ?_, hbs⟩
      show tnCalm (.sbIac _) tnSe = true
      simp [tnCalm, hrep]
    have hwhole : (TnItem.subneg opt payload).encode ++ bs =
        [tnIac, tnSb] ++ (tnEscape (opt :: payload) ++ ([tnIac, tnSe] ++ bs)) := by
      simp [TnItem.encode]
    rw [hwhole]
    exact ⟨rfl, rfl, hescape hrep htail⟩

theorem tnQuiet_line {items : List TnItem} (h : ∀ item ∈ items, item.Settles) :
    TnQuiet .normal (tnLine items) := by
  induction items with
  | nil => trivial
  | cons item items ih =>
    rw [tnLine, List.flatMap_cons]
    exact (h item (by simp)).quiet (ih fun item' hin => h item' (by simp [hin]))

/-- Where no command injected is answered for ever, the exchange ends: the deliveries are bounded,
in whatever order they are made. -/
theorem telnet_quiesces (a b : TelnetModem) (toA toB : List TnItem)
    (hA : ∀ item ∈ toA, item.Settles) (hB : ∀ item ∈ toB, item.Settles) :
    (telnetLink a b toA toB).Quiesces := by
  have hquiet : (telnetLink a b toA toB).Quiet := ⟨tnQuiet_line hA, tnQuiet_line hB⟩
  refine ⟨(telnetLink a b toA toB).cost, fun sides l' hrun => ?_⟩
  have := (TelnetLink.run_cost hquiet hrun).2
  omega

/-- A modem with its settings as `picowifi_create` leaves them. -/
def telnetModemInit : TelnetModem where
  sessionTelnet := .real
  tnState := .normal
  tnPrevCr := false
  ttyType := tnText "ansi"
  ttyW := 80
  ttyH := 24
  ttyLoc := tnText "Computer Room"
  baud := 9600
  rx := []

theorem telnet_quiesces_window :
    (telnetLink telnetModemInit telnetModemInit [.negotiate .enable tnoNaws]
      [.data 0x41, .subneg tnoNaws [0, 80, 0, 24]]).Quiesces := by
  refine telnet_quiesces _ _ _ _ ?_ ?_
  · rintro item hin
    obtain rfl := List.mem_singleton.mp hin
    exact fun _ => rfl
  · intro item hin
    rcases List.mem_cons.mp hin with rfl | hin
    · trivial
    · obtain rfl := List.mem_singleton.mp hin
      rfl

/-- One round of an exchange about binary transmission brings the link back to where it was. -/
theorem telnet_binary_round :
    (telnetLink telnetModemInit telnetModemInit [.negotiate .enable tnoBinary] []).run
        [.a, .a, .a, .b, .b, .b] =
      some (telnetLink telnetModemInit telnetModemInit [.negotiate .enable tnoBinary] []) := rfl

theorem telnet_binary_endless :
    ¬ ∀ (a b : TelnetModem) (toA toB : List TnItem), (telnetLink a b toA toB).Quiesces := by
  intro hall
  obtain ⟨n, hn⟩ := hall telnetModemInit telnetModemInit [.negotiate .enable tnoBinary] []
  have hround : ∀ k, (telnetLink telnetModemInit telnetModemInit
      [.negotiate .enable tnoBinary] []).run
        (List.replicate k [Side.a, .a, .a, .b, .b, .b]).flatten =
      some (telnetLink telnetModemInit telnetModemInit [.negotiate .enable tnoBinary] []) := by
    intro k
    induction k with
    | zero => rfl
    | succ k ih =>
      have hfirst := telnet_binary_round
      rw [TelnetLink.run] at hfirst ih ⊢
      rw [List.replicate_succ, List.flatten_cons, List.foldlM_append, hfirst]
      exact ih
  have hlen := hn _ _ (hround (n + 1))
  simp only [List.length_flatten, List.map_replicate, List.sum_replicate] at hlen
  simp at hlen
  omega

end Phosphoric
