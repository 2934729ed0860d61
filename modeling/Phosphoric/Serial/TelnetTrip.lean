import Phosphoric.Serial.Telnet

/-!
# Through a telnet connection

What `pw_tn_out_byte` writes, read back by `picowifi_recv` of a modem in the same telnet mode, with
commands between the bytes, in whatever chunks the socket gives.

**Theorem (`picowifiRecv_exact_iff`).** The bytes sent are the bytes received, and the decoder ends
between commands, if the commands are kept apart by the decoder. These are all but some
subnegotiations of option 255: the byte after SB is taken for an IAC before it is taken for an
option, where a WILL or a DO takes any option (`picowifiRecv_option255`).
-/

namespace Phosphoric

/-! ## Sending -/

/-- `pw_tn_out_byte`. -/
def pwTnOutByte (mode : SessionTelnet) (b : Byte) : List Byte :=
  if mode ≠ .none ∧ b = tnIac then [tnIac, tnIac]
  else if mode = .real ∧ b = 0x0D#8 then [0x0D, 0x00]
  else [b]

/-- A byte sent, or a command between bytes. The option of a subnegotiation is a byte as it is. -/
inductive TnUnit
  | data (b : Byte)
  | command (code : Byte)
  | negotiate (verb : TnVerb) (opt : Byte)
  | subneg (opt : Byte) (content : List Byte)

def TnUnit.encode (mode : SessionTelnet) : TnUnit → List Byte
  | .data b => pwTnOutByte mode b
  | .command code => [tnIac, code]
  | .negotiate verb opt => [tnIac, verb.byte, opt]
  | .subneg opt content => [tnIac, tnSb, opt] ++ (tnEscape content ++ [tnIac, tnSe])

def TnUnit.bytes : TnUnit → List Byte
  | .data b => [b]
  | _ => []

/-- A command of two bytes is none of the longer ones. -/
def TnUnit.WellFormed : TnUnit → Prop
  | .command code => code ≠ tnIac ∧ code ≠ tnSb ∧
      ¬(code = tnWill ∨ code = tnWont ∨ code = tnDo ∨ code = tnDont)
  | _ => True

/-- The decoder comes out of a subnegotiation of option 255 where it ends: its first byte that is no
IAC is not SE, or is the last. -/
def TnUnit.Kept : TnUnit → Prop
  | .subneg opt content => opt = tnIac →
      content.dropWhile (· == tnIac) ≠ [] ∧
        ((content.dropWhile (· == tnIac)).head? = some tnSe →
          (content.dropWhile (· == tnIac)).length = 1)
  | _ => True

def tnSent (mode : SessionTelnet) (units : List TnUnit) : List Byte :=
  units.flatMap (TnUnit.encode mode)

def tnBytes (units : List TnUnit) : List Byte := units.flatMap TnUnit.bytes

/-! ## Receiving -/

/-- A modem in a call, what the peer has sent and it has not read, and what the machine has got. -/
structure PicowifiCall where
  modem : TelnetModem
  line : List Byte
  got : List Byte

/-- A byte read from the socket. -/
def picowifiByte (pw : TelnetModem) (b : Byte) : TelnetModem :=
  if pw.sessionTelnet ≠ .none then (pwTnRxByte pw b).1 else pwRxPush pw b

/-- `pw_rx_pop`. -/
def PicowifiCall.pop (call : PicowifiCall) : PicowifiCall :=
  match call.modem.rx with
  | [] => call
  | b :: rx => { call with modem := { call.modem with rx }, got := call.got ++ [b] }

/-- `picowifi_recv`, when the socket has `n` bytes ready. -/
def picowifiRecv (call : PicowifiCall) (n : Nat) : PicowifiCall :=
  let room := pwRxBufsz - call.modem.rx.length
  let count := min n (min room 256)
  PicowifiCall.pop { call with
    modem := (call.line.take count).foldl picowifiByte call.modem
    line := call.line.drop count }

/-- A call just made. -/
structure TelnetModem.Fresh (pw : TelnetModem) (mode : SessionTelnet) : Prop where
  mode : pw.sessionTelnet = mode
  state : pw.tnState = .normal
  cr : pw.tnPrevCr = false
  room : pw.rx.length ≤ pwRxBufsz

/-- However the line is read, the bytes pass and no command is left open. -/
def TnExact (mode : SessionTelnet) (line bytes : List Byte) : Prop :=
  ∀ pw : TelnetModem, pw.Fresh mode → ∀ reads : List Nat,
    let call := reads.foldl picowifiRecv ⟨pw, line, []⟩
    call.line = [] → call.got ++ call.modem.rx = pw.rx ++ bytes ∧ call.modem.tnState = .normal

/-! ## The decoder alone -/

/-- What the decoder remembers. -/
structure TnDecoder where
  state : TnState
  cr : Bool

/-- What a byte makes of the decoder, and what is pushed. -/
def tnStep (mode : SessionTelnet) (d : TnDecoder) (b : Byte) : TnDecoder × List Byte :=
  match d.state with
  | .normal =>
    if b = tnIac then ({ d with state := .iac }, [])
    else if mode = .real ∧ d.cr ∧ b = 0 then ({ d with cr := false }, [])
    else ({ d with cr := b = 0x0D#8 }, [b])
  | .iac =>
    if b = tnIac then (⟨.normal, false⟩, [0xFF#8]) else ({ d with state := tnNext .iac b }, [])
  | .verb v => ({ d with state := tnNext (.verb v) b }, [])
  | .sb opt => ({ d with state := tnNext (.sb opt) b }, [])
  | .sbIac opt => ({ d with state := tnNext (.sbIac opt) b }, [])

def tnFeed (mode : SessionTelnet) : TnDecoder → List Byte → TnDecoder × List Byte
  | d, [] => (d, [])
  | d, b :: bs =>
    let rest := tnFeed mode (tnStep mode d b).1 bs
    (rest.1, (tnStep mode d b).2 ++ rest.2)

section Decoder

variable {mode : SessionTelnet}

theorem tnFeed_append (d : TnDecoder) (xs ys : List Byte) :
    tnFeed mode d (xs ++ ys) = ((tnFeed mode (tnFeed mode d xs).1 ys).1,
      (tnFeed mode d xs).2 ++ (tnFeed mode (tnFeed mode d xs).1 ys).2) := by
  induction xs generalizing d with
  | nil => rfl
  | cons x xs ih =>
    rw [List.cons_append, tnFeed, ih, tnFeed, List.append_assoc]

/-- Bytes after which the decoder is as before, with nothing pushed. -/
def TnSilent (mode : SessionTelnet) (bytes : List Byte) : Prop :=
  ∀ cr, tnFeed mode ⟨.normal, cr⟩ bytes = (⟨.normal, cr⟩, [])

theorem tnFeed_cons {d d' : TnDecoder} {b : Byte} (h : tnStep mode d b = (d', [])) (bs : List Byte) :
    tnFeed mode d (b :: bs) = tnFeed mode d' bs := by
  rw [tnFeed, h]
  rfl

theorem tnEscape_iac {b : Byte} (hb : b = tnIac) (content : List Byte) :
    tnEscape (b :: content) = tnIac :: tnIac :: tnEscape content := by
  simp [tnEscape, hb]

theorem tnEscape_letter {b : Byte} (hb : b ≠ tnIac) (content : List Byte) :
    tnEscape (b :: content) = b :: tnEscape content := by
  simp [tnEscape, show b ≠ 255#8 from hb]

/-- The rest of a subnegotiation. -/
theorem tnFeed_sb (content : List Byte) (opt : Option Byte) (cr : Bool) :
    tnFeed mode ⟨.sb opt, cr⟩ (tnEscape content ++ [tnIac, tnSe]) = (⟨.normal, cr⟩, []) := by
  induction content generalizing opt with
  | nil => rfl
  | cons b content ih =>
    by_cases hiac : b = tnIac
    · rw [tnEscape_iac hiac]
      exact ih opt
    · have hstep : tnStep mode ⟨.sb opt, cr⟩ b = (⟨.sb (opt.or (some b)), cr⟩, []) := by
        simp only [tnStep, tnNext]
        rw [if_neg hiac]
      rw [tnEscape_letter hiac, List.cons_append, tnFeed_cons hstep]
      exact ih _

/-- The rest of a subnegotiation whose option is taken for an IAC. -/
theorem tnFeed_sbIac (content : List Byte) (cr : Bool)
    (hrest : content.dropWhile (· == tnIac) ≠ [])
    (hse : (content.dropWhile (· == tnIac)).head? = some tnSe →
      (content.dropWhile (· == tnIac)).length = 1) :
    tnFeed mode ⟨.sbIac none, cr⟩ (tnEscape content ++ [tnIac, tnSe]) = (⟨.normal, cr⟩, []) := by
  induction content with
  | nil => exact absurd rfl hrest
  | cons b content ih =>
    by_cases hiac : b = tnIac
    · have hdrop : (b :: content).dropWhile (· == tnIac) = content.dropWhile (· == tnIac) := by
        rw [List.dropWhile_cons_of_pos (by simpa using hiac)]
      rw [hdrop] at hrest hse
      rw [tnEscape_iac hiac]
      exact ih hrest hse
    · have hdrop : (b :: content).dropWhile (· == tnIac) = b :: content := by
        rw [List.dropWhile_cons_of_neg (by simpa using hiac)]
      rw [hdrop] at hse
      rw [tnEscape_letter hiac, List.cons_append]
      by_cases hend : b = tnSe
      · subst hend
        have hnil : content = [] := by
          have hlen := hse rfl
          rw [List.length_cons] at hlen
          exact List.length_eq_zero_iff.mp (by omega)
        subst hnil
        rfl
      · have hstep : tnStep mode ⟨.sbIac none, cr⟩ b = (⟨.sb none, cr⟩, []) := by
          simp only [tnStep, tnNext]
          rw [if_neg hend]
        rw [tnFeed_cons hstep]
        exact tnFeed_sb content none cr

/-- A command that is kept apart is silent. -/
theorem TnUnit.Kept.silent {unit : TnUnit} (hwell : unit.WellFormed) (hkept : unit.Kept)
    (hcommand : unit.bytes = []) : TnSilent mode (unit.encode mode) := by
  intro cr
  cases unit with
  | data b => nomatch hcommand
  | command code =>
    obtain ⟨hiac, hsb, hverb⟩ := hwell
    have hstep : tnStep mode ⟨.iac, cr⟩ code = (⟨.normal, cr⟩, []) := by
      simp only [tnStep, tnNext]
      rw [if_neg hiac, if_neg hiac, if_neg hverb, if_neg hsb]
    exact tnFeed_cons hstep []
  | negotiate verb opt => cases verb <;> rfl
  | subneg opt content =>
    by_cases hopt : opt = tnIac
    · subst hopt
      obtain ⟨hrest, hse⟩ := hkept rfl
      exact tnFeed_sbIac content cr hrest hse
    · have hstep : tnStep mode ⟨.sb none, cr⟩ opt = (⟨.sb (some opt), cr⟩, []) := by
        simp only [tnStep, tnNext]
        rw [if_neg hopt]
        rfl
      exact (tnFeed_cons hstep _).trans (tnFeed_sb content (some opt) cr)

/-- A byte sent is pushed; in the real mode no CR is left in memory. -/
theorem tnFeed_data (hmode : mode ≠ .none) {cr : Bool} (hcr : mode = .real → cr = false) (b : Byte) :
    ∃ cr', (mode = .real → cr' = false) ∧
      tnFeed mode ⟨.normal, cr⟩ (pwTnOutByte mode b) = (⟨.normal, cr'⟩, [b]) := by
  unfold pwTnOutByte
  by_cases hiac : b = tnIac
  · subst hiac
    rw [if_pos ⟨hmode, rfl⟩]
    exact ⟨false, fun _ => rfl, rfl⟩
  rw [if_neg fun h => hiac h.2]
  by_cases hreal : mode = .real
  · subst hreal
    have hoff := hcr rfl
    subst hoff
    by_cases hret : b = 0x0D#8
    · subst hret
      exact ⟨false, fun _ => rfl, rfl⟩
    · rw [if_neg fun h => hret h.2]
      refine ⟨false, fun _ => rfl, ?_⟩
      simp [tnFeed, tnStep, show b ≠ 255#8 from hiac, hret]
  · rw [if_neg fun h => hreal h.1]
    refine ⟨b = 0x0D#8, fun h => absurd h hreal, ?_⟩
    simp [tnFeed, tnStep, show b ≠ 255#8 from hiac, hreal]

/-- The decoder inverts the encoder. -/
theorem tnFeed_sent (hmode : mode ≠ .none) (units : List TnUnit)
    (hwell : ∀ unit ∈ units, unit.WellFormed) (hkept : ∀ unit ∈ units, unit.Kept) {cr : Bool}
    (hcr : mode = .real → cr = false) :
    (tnFeed mode ⟨.normal, cr⟩ (tnSent mode units)).1.state = .normal ∧
      (tnFeed mode ⟨.normal, cr⟩ (tnSent mode units)).2 = tnBytes units := by
  induction units generalizing cr with
  | nil => exact ⟨rfl, rfl⟩
  | cons unit units ih =>
    obtain ⟨hunit, hwell⟩ := List.forall_mem_cons.mp hwell
    obtain ⟨hunitKept, hkept⟩ := List.forall_mem_cons.mp hkept
    obtain ⟨cr', hcr', hfirst⟩ : ∃ cr', (mode = .real → cr' = false) ∧
        tnFeed mode ⟨.normal, cr⟩ (unit.encode mode) = (⟨.normal, cr'⟩, unit.bytes) := by
      cases unit with
      | data b => exact tnFeed_data hmode hcr b
      | _ => exact ⟨cr, hcr, hunitKept.silent hunit rfl cr⟩
    have hrest := ih hwell hkept hcr'
    unfold tnSent tnBytes at hrest ⊢
    rw [List.flatMap_cons, List.flatMap_cons, tnFeed_append, hfirst]
    exact ⟨hrest.1, congrArg _ hrest.2⟩

end Decoder

/-! ## The ring -/

def TelnetModem.decoder (pw : TelnetModem) : TnDecoder := ⟨pw.tnState, pw.tnPrevCr⟩

/-- What a modem makes of bytes of the line: with no telnet, themselves. -/
def tnThrough (mode : SessionTelnet) (d : TnDecoder) (bs : List Byte) : TnDecoder × List Byte :=
  if mode = .none then (d, bs) else tnFeed mode d bs

section Ring

variable {mode : SessionTelnet} {pw : TelnetModem}

theorem tnThrough_append (d : TnDecoder) (xs ys : List Byte) :
    tnThrough mode d (xs ++ ys) = ((tnThrough mode (tnThrough mode d xs).1 ys).1,
      (tnThrough mode d xs).2 ++ (tnThrough mode (tnThrough mode d xs).1 ys).2) := by
  unfold tnThrough
  split_ifs
  · rfl
  · exact tnFeed_append d xs ys

/-- At most a byte is pushed for a byte. -/
theorem tnStep_length (d : TnDecoder) (b : Byte) : (tnStep mode d b).2.length ≤ 1 := by
  unfold tnStep
  cases d.state with
  | normal =>
    dsimp only
    split_ifs <;> simp
  | iac =>
    dsimp only
    split_ifs <;> simp
  | _ => exact Nat.zero_le 1

theorem pwRxPush_eq (hroom : pw.rx.length < pwRxBufsz) (b : Byte) :
    pwRxPush pw b = { pw with rx := pw.rx ++ [b] } := if_neg (by omega)

/-- A byte read, with room in the ring. -/
theorem picowifiByte_through (hmode : pw.sessionTelnet = mode) (hroom : pw.rx.length < pwRxBufsz)
    (b : Byte) :
    (picowifiByte pw b).decoder = (tnThrough mode pw.decoder [b]).1 ∧
      (picowifiByte pw b).rx = pw.rx ++ (tnThrough mode pw.decoder [b]).2 ∧
      (picowifiByte pw b).sessionTelnet = mode ∧
      (tnThrough mode pw.decoder [b]).2.length ≤ 1 := by
  subst hmode
  unfold picowifiByte tnThrough
  by_cases hnone : pw.sessionTelnet = .none
  · rw [if_pos hnone, if_neg (not_not.mpr hnone), pwRxPush_eq hroom]
    exact ⟨rfl, rfl, rfl, Nat.le_refl 1⟩
  · have hlength := @tnStep_length pw.sessionTelnet pw.decoder b
    rw [if_neg hnone, if_pos hnone, tnFeed, tnFeed, List.append_nil]
    unfold pwTnRxByte tnStep TelnetModem.decoder at *
    cases hst : pw.tnState with
    | normal =>
      rw [hst] at hlength
      dsimp only at hlength ⊢
      rw [pwRxPush_eq hroom]
      split_ifs at hlength ⊢ <;> simp [hst]
    | iac =>
      dsimp only
      rw [pwRxPush_eq hroom]
      simp only [tnNext]
      split_ifs <;> simp
    | verb v => simp [tnNext]
    | sb opt =>
      simp only [tnNext]
      split_ifs <;> simp
    | sbIac opt =>
      simp only [tnNext]
      split_ifs <;> simp

/-- A chunk that fits the ring. -/
theorem picowifiBytes_through (bs : List Byte) {pw : TelnetModem} (hmode : pw.sessionTelnet = mode)
    (hroom : pw.rx.length + bs.length ≤ pwRxBufsz) :
    (bs.foldl picowifiByte pw).decoder = (tnThrough mode pw.decoder bs).1 ∧
      (bs.foldl picowifiByte pw).rx = pw.rx ++ (tnThrough mode pw.decoder bs).2 ∧
      (bs.foldl picowifiByte pw).sessionTelnet = mode ∧
      (bs.foldl picowifiByte pw).rx.length ≤ pw.rx.length + bs.length := by
  induction bs generalizing pw with
  | nil =>
    have hnil : tnThrough mode pw.decoder [] = (pw.decoder, []) := by
      unfold tnThrough
      split_ifs <;> rfl
    rw [hnil]
    exact ⟨rfl, (List.append_nil _).symm, hmode, Nat.le_refl _⟩
  | cons b bs ih =>
    rw [List.length_cons] at hroom
    obtain ⟨hdecoder, hrx, hmode', hone⟩ := picowifiByte_through hmode (by omega) b
    have hlen := congrArg List.length hrx
    rw [List.length_append] at hlen
    obtain ⟨hd, hr, hm, hl⟩ := ih hmode' (by omega)
    have hsplit := @tnThrough_append mode pw.decoder [b] bs
    rw [List.singleton_append] at hsplit
    rw [List.foldl_cons, hsplit]
    refine ⟨?_, ?_, hm, ?_⟩
    · rw [hd, hdecoder]
    · rw [hr, hdecoder, hrx, List.append_assoc]
    · rw [List.length_cons]
      omega

/-- Where a call is, `read` of the line behind it. -/
structure PicowifiCall.At (pw : TelnetModem) (mode : SessionTelnet) (line : List Byte)
    (call : PicowifiCall) (read : List Byte) : Prop where
  line : line = read ++ call.line
  session : call.modem.sessionTelnet = mode
  decoder : call.modem.decoder = (tnThrough mode pw.decoder read).1
  rx : call.got ++ call.modem.rx = pw.rx ++ (tnThrough mode pw.decoder read).2
  room : call.modem.rx.length ≤ pwRxBufsz

theorem PicowifiCall.At.pop {line read : List Byte} {call : PicowifiCall}
    (h : call.At pw mode line read) : call.pop.At pw mode line read := by
  unfold PicowifiCall.pop
  cases hrx : call.modem.rx with
  | nil => exact h
  | cons b rx =>
    have hroom := h.room
    have hgot := h.rx
    rw [hrx] at hroom hgot
    refine ⟨h.line, h.session, h.decoder, ?_, ?_⟩
    · rw [← hgot]
      simp
    · rw [List.length_cons] at hroom
      exact Nat.le_of_succ_le hroom

theorem PicowifiCall.At.recv {line read : List Byte} {call : PicowifiCall}
    (h : call.At pw mode line read) (n : Nat) :
    ∃ read', (picowifiRecv call n).At pw mode line read' := by
  unfold picowifiRecv
  dsimp only
  have hroom := h.room
  have hless : min n (min (pwRxBufsz - call.modem.rx.length) 256) ≤
      pwRxBufsz - call.modem.rx.length := by omega
  generalize min n (min (pwRxBufsz - call.modem.rx.length) 256) = count at *
  have htake : (call.line.take count).length ≤ count := List.length_take_le _ _
  obtain ⟨hd, hr, hm, hl⟩ := picowifiBytes_through (call.line.take count) h.session (by omega)
  have hfull : ((call.line.take count).foldl picowifiByte call.modem).rx.length ≤ pwRxBufsz := by
    omega
  refine ⟨read ++ call.line.take count, PicowifiCall.At.pop ⟨?_, hm, ?_, ?_, hfull⟩⟩
  · rw [List.append_assoc, List.take_append_drop]
    exact h.line
  · rw [tnThrough_append, hd, h.decoder]
  · rw [tnThrough_append]
    dsimp only
    rw [← List.append_assoc, ← h.rx, hr, h.decoder, List.append_assoc]

/-- A run of `picowifi_recv`. -/
theorem picowifiRecv_run (hfresh : pw.Fresh mode) (line : List Byte) (reads : List Nat) :
    ∃ read, (reads.foldl picowifiRecv ⟨pw, line, []⟩).At pw mode line read := by
  have hstart : PicowifiCall.At pw mode line ⟨pw, line, []⟩ [] := by
    have hnil : tnThrough mode pw.decoder [] = (pw.decoder, []) := by
      unfold tnThrough
      split_ifs <;> rfl
    exact ⟨rfl, hfresh.mode, by rw [hnil], by rw [hnil]; simp, hfresh.room⟩
  induction reads using List.reverseRecOn with
  | nil => exact ⟨[], hstart⟩
  | append_singleton reads n ih =>
    obtain ⟨read, hread⟩ := ih
    rw [List.foldl_append]
    exact hread.recv n

theorem TelnetModem.Fresh.decoder (hfresh : pw.Fresh mode) : pw.decoder = ⟨.normal, false⟩ := by
  unfold TelnetModem.decoder
  rw [hfresh.state, hfresh.cr]

/-- A line read to its end is what the decoder alone makes of it. -/
theorem picowifiRecv_end (hfresh : pw.Fresh mode) {line : List Byte} {reads : List Nat}
    (hend : (reads.foldl picowifiRecv ⟨pw, line, []⟩).line = []) :
    (reads.foldl picowifiRecv ⟨pw, line, []⟩).got ++
        (reads.foldl picowifiRecv ⟨pw, line, []⟩).modem.rx =
          pw.rx ++ (tnThrough mode ⟨.normal, false⟩ line).2 ∧
      (reads.foldl picowifiRecv ⟨pw, line, []⟩).modem.tnState =
        (tnThrough mode ⟨.normal, false⟩ line).1.state := by
  obtain ⟨read, h⟩ := picowifiRecv_run hfresh line reads
  have hread : read = line := by
    have hline := h.line
    rw [hend, List.append_nil] at hline
    exact hline.symm
  subst hread
  have hrx := h.rx
  have hdecoder := h.decoder
  rw [hfresh.decoder] at hrx hdecoder
  exact ⟨hrx, congrArg TnDecoder.state hdecoder⟩

/-- Reading byte by byte comes to the end of the line. -/
theorem picowifiRecv_ends (line : List Byte) (call : PicowifiCall) (hline : call.line = line)
    (hrx : call.modem.rx = []) (hmode : call.modem.sessionTelnet = mode) :
    ((List.replicate line.length 1).foldl picowifiRecv call).line = [] := by
  induction line generalizing call with
  | nil => exact hline
  | cons b line ih =>
    rw [List.length_cons, List.replicate_succ, List.foldl_cons]
    have hcount : min 1 (min (pwRxBufsz - call.modem.rx.length) 256) = 1 := by
      rw [hrx]
      decide
    obtain ⟨-, hr, hm, hone⟩ := picowifiByte_through hmode (by rw [hrx]; decide) b
    rw [hrx, List.nil_append] at hr
    have hrecv : picowifiRecv call 1 =
        PicowifiCall.pop { call with modem := picowifiByte call.modem b, line := line } := by
      unfold picowifiRecv
      dsimp only
      rw [hcount, hline]
      rfl
    rw [hrecv]
    have hpop : (PicowifiCall.pop { call with modem := picowifiByte call.modem b, line := line }).line
          = line ∧
        (PicowifiCall.pop { call with modem := picowifiByte call.modem b, line := line }).modem.rx
          = [] ∧ (PicowifiCall.pop { call with
            modem := picowifiByte call.modem b, line := line }).modem.sessionTelnet = mode := by
      rw [← hr] at hone
      unfold PicowifiCall.pop
      dsimp only
      cases hbyte : (picowifiByte call.modem b).rx with
      | nil => exact ⟨rfl, hbyte, hm⟩
      | cons c rest =>
        rw [hbyte, List.length_cons] at hone
        have hnil : rest = [] := List.length_eq_zero_iff.mp (by omega)
        subst hnil
        exact ⟨rfl, rfl, hm⟩
    exact ih _ hpop.1 hpop.2.1 hpop.2.2

/-- The bytes of a line pass exactly if the decoder pushes them, and ends between commands. -/
theorem tnExact_iff (line bytes : List Byte) : TnExact mode line bytes ↔
    (tnThrough mode ⟨.normal, false⟩ line).2 = bytes ∧
      (tnThrough mode ⟨.normal, false⟩ line).1.state = .normal := by
  constructor
  · intro h
    have hfresh : TelnetModem.Fresh { telnetModemInit with sessionTelnet := mode } mode :=
      ⟨rfl, rfl, rfl, Nat.zero_le _⟩
    have hend := picowifiRecv_ends line ⟨{ telnetModemInit with sessionTelnet := mode }, line, []⟩
      rfl rfl rfl
    obtain ⟨hrx, hstate⟩ := picowifiRecv_end hfresh hend
    obtain ⟨hbytes, hnormal⟩ := h _ hfresh _ hend
    rw [hbytes] at hrx
    rw [hnormal] at hstate
    exact ⟨(List.append_cancel_left hrx).symm, hstate.symm⟩
  · rintro ⟨hbytes, hnormal⟩ pw hfresh reads call hend
    obtain ⟨hrx, hstate⟩ := picowifiRecv_end hfresh hend
    rw [hbytes] at hrx
    rw [hnormal] at hstate
    exact ⟨hrx, hstate⟩

end Ring

/-! ## Commands between bytes -/

section Commands

variable {mode : SessionTelnet}

/-- Where the decoder comes out in silence of a subnegotiation whose option it takes for an IAC. -/
theorem tnFeed_sbIac_kept (content : List Byte)
    (hstate : (tnFeed mode ⟨.sbIac none, false⟩
      (tnEscape content ++ [tnIac, tnSe])).1.state = .normal)
    (hsilent : (tnFeed mode ⟨.sbIac none, false⟩ (tnEscape content ++ [tnIac, tnSe])).2 = []) :
    content.dropWhile (· == tnIac) ≠ [] ∧
      ((content.dropWhile (· == tnIac)).head? = some tnSe →
        (content.dropWhile (· == tnIac)).length = 1) := by
  induction content with
  | nil => nomatch hstate
  | cons b content ih =>
    by_cases hiac : b = tnIac
    · rw [tnEscape_iac hiac] at hstate hsilent
      rw [List.dropWhile_cons_of_pos (by simpa using hiac)]
      exact ih hstate hsilent
    · rw [tnEscape_letter hiac, List.cons_append] at hsilent
      rw [List.dropWhile_cons_of_neg (by simpa using hiac)]
      refine ⟨List.cons_ne_nil _ _, fun hhead => ?_⟩
      obtain rfl := Option.some.inj hhead
      have hend : tnStep mode ⟨.sbIac none, false⟩ tnSe = (⟨.normal, false⟩, []) := rfl
      rw [tnFeed_cons hend] at hsilent
      -- whatever comes after the end is pushed
      cases content with
      | nil => rfl
      | cons c content =>
        by_cases hc : c = tnIac
        · rw [tnEscape_iac hc] at hsilent
          nomatch hsilent
        · have hpush : tnStep mode ⟨.normal, false⟩ c = (⟨.normal, c = 0x0D#8⟩, [c]) := by
            simp [tnStep, show c ≠ 255#8 from hc]
          rw [tnEscape_letter hc, List.cons_append, tnFeed, hpush] at hsilent
          nomatch hsilent

theorem tnExact_sent (hmode : mode ≠ .none) (units : List TnUnit)
    (hwell : ∀ unit ∈ units, unit.WellFormed) (hkept : ∀ unit ∈ units, unit.Kept) :
    TnExact mode (tnSent mode units) (tnBytes units) := by
  rw [tnExact_iff, tnThrough, if_neg hmode]
  exact (tnFeed_sent hmode units hwell hkept fun _ => rfl).symm

theorem tnExact_none (line : List Byte) : TnExact .none line line :=
  (tnExact_iff line line).mpr ⟨rfl, rfl⟩

/-- A command does no harm between any bytes exactly if it is kept apart. -/
theorem tnExact_command_iff (hmode : mode ≠ .none) {unit : TnUnit} (hwell : unit.WellFormed)
    (hcommand : unit.bytes = []) :
    (∀ before after : List Byte, TnExact mode
      (tnSent mode (before.map TnUnit.data ++ unit :: after.map TnUnit.data)) (before ++ after)) ↔
      unit.Kept := by
  constructor
  · intro h
    have hone := h [] []
    rw [List.map_nil, List.nil_append, tnExact_iff, tnThrough, if_neg hmode] at hone
    obtain ⟨hsilent, hstate⟩ := hone
    rw [show tnSent mode [unit] = unit.encode mode from List.flatMap_singleton _ _] at hsilent hstate
    cases unit with
    | subneg opt content =>
      rintro rfl
      exact tnFeed_sbIac_kept content hstate hsilent
    | _ => trivial
  · intro hkept before after
    have hbytes : ∀ bs : List Byte, tnBytes (bs.map TnUnit.data) = bs := by
      intro bs
      induction bs with
      | nil => rfl
      | cons b bs ih => exact congrArg (b :: ·) ih
    have hall : tnBytes (before.map TnUnit.data ++ unit :: after.map TnUnit.data) =
        before ++ after := by
      unfold tnBytes at hbytes ⊢
      rw [List.flatMap_append, List.flatMap_cons, hbytes, hbytes, hcommand, List.nil_append]
    have hunits : ∀ u ∈ before.map TnUnit.data ++ unit :: after.map TnUnit.data,
        u.WellFormed ∧ u.Kept := by
      intro u hu
      obtain hu | hu := List.mem_append.mp hu
      · obtain ⟨b, -, rfl⟩ := List.mem_map.mp hu
        exact ⟨trivial, trivial⟩
      · obtain rfl | hu := List.mem_cons.mp hu
        · exact ⟨hwell, hkept⟩
        · obtain ⟨b, -, rfl⟩ := List.mem_map.mp hu
          exact ⟨trivial, trivial⟩
    rw [← hall]
    exact tnExact_sent hmode _ (fun u hu => (hunits u hu).1) fun u hu => (hunits u hu).2

/-- Bytes sent with commands between them that are kept apart are received, in any chunks; a command
may stand between any bytes exactly if it is kept apart; with no telnet every byte passes. -/
theorem picowifiRecv_exact_iff (mode : SessionTelnet) :
    (mode ≠ .none → ∀ units : List TnUnit, (∀ unit ∈ units, unit.WellFormed) →
      (∀ unit ∈ units, unit.Kept) → TnExact mode (tnSent mode units) (tnBytes units)) ∧
    (mode ≠ .none → ∀ unit : TnUnit, unit.WellFormed → unit.bytes = [] →
      ((∀ before after : List Byte, TnExact mode
        (tnSent mode (before.map TnUnit.data ++ unit :: after.map TnUnit.data))
          (before ++ after)) ↔ unit.Kept)) ∧
    (mode = .none → ∀ bytes : List Byte, TnExact mode (bytes.flatMap (pwTnOutByte mode)) bytes) := by
  refine ⟨fun hmode units => tnExact_sent hmode units, fun hmode unit => tnExact_command_iff hmode,
    fun hnone bytes => ?_⟩
  subst hnone
  have hsame : bytes.flatMap (pwTnOutByte .none) = bytes := by
    induction bytes with
    | nil => rfl
    | cons b bytes ih =>
      rw [List.flatMap_cons, ih]
      rfl
  rw [hsame]
  exact tnExact_none bytes

/-- IAC SB 255 IAC SE, with nothing in it, is still open at its end. -/
theorem picowifiRecv_option255 :
    ¬∀ mode ≠ SessionTelnet.none, ∀ units : List TnUnit, (∀ unit ∈ units, unit.WellFormed) →
      TnExact mode (tnSent mode units) (tnBytes units) := by
  intro hall
  have hexact := hall .real nofun [.subneg tnIac [], .data 0x41] (by simp [TnUnit.WellFormed])
  obtain ⟨-, hstate⟩ := (tnExact_iff _ _).mp hexact
  nomatch hstate

end Commands

end Phosphoric
