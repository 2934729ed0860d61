import Phosphoric.Lib.Machine
import Phosphoric.Lib.Word

/-!
# The PicoWiFi modem's CA

The TLS settings of `src/io/serial_picowifi.c`: whether to verify (`AT$CV`), and the CA, which is
uploaded line by line into the buffer in use (`AT$CA=`), deleted (`AT$CA-`), and read from a file
when the modem is opened.

`AT$CV1` is refused without a CA and `AT$CA-` stops verifying, but the NVRAM, an empty upload and
one that does not fit can leave the modem verifying without a CA: it then dials unverified.

**Specification** (`caDone`). The text of an upload: its lines up to the one that is a sole `.`.

**Theorem (`pw_verifies`).** In every run without these, a modem that verifies has a CA, the one
last uploaded or that of the file, and its secure dials verify with it.
-/

namespace Phosphoric

open Function (update update_self update_of_ne)

/-! ## State -/

/-- `sizeof(ca_cert) - 1`. -/
abbrev caCertMax : Nat := 8191

/-- The TLS settings of `picowifi_t`. -/
structure PicoWifiTls where
  tlsVerify : Bool
  caCert : Nat → Byte
  caCertLen : Nat
  caCapture : Bool
  caStageLen : Nat
  caLineBeg : Nat

/-- The CA loaded. -/
def PicoWifiTls.ca (pw : PicoWifiTls) : List Byte := (List.range pw.caCertLen).map pw.caCert

/-- `picowifi_open`: factory defaults, `nvram` being what the NVRAM file says of `tls_verify`, and
the CA file, as far as it fits. -/
def picowifiOpen (nvram : Option Bool) (caFile : Option (List Byte)) : PicoWifiTls :=
  let file := (caFile.getD []).take caCertMax
  { tlsVerify := nvram.getD false
    caCert := fun i => file.getD i 0#8
    caCertLen := file.length
    caCapture := false
    caStageLen := 0
    caLineBeg := 0 }

/-! ## Commands -/

/-- The commands of `pw_dispatch_one`, as far as they change the TLS settings: `$CV0`, `$CV1`,
`$CA-`, `$CA=`, `&F`, and the rest. -/
inductive PwCmd
  | cv0 | cv1 | caDelete | caUpload | factory | other
  deriving DecidableEq, Repr

/-- `pw_dispatch_one`. -/
def pwDispatchOne (pw : PicoWifiTls) : PwCmd → PicoWifiTls
  | .cv0 => { pw with tlsVerify := false }
  | .cv1 => if pw.caCertLen = 0 then pw else { pw with tlsVerify := true }
  | .caDelete =>
    -- no CA, verification impossible
    { pw with caCertLen := 0, caCert := update pw.caCert 0 0#8, tlsVerify := false }
  | .caUpload => { pw with caCapture := true, caStageLen := 0, caLineBeg := 0 }
  | .factory => { pw with tlsVerify := false }
  | .other => pw

/-- The line being uploaded is a sole `.`. -/
def PicoWifiTls.lineIsDot (pw : PicoWifiTls) : Bool :=
  pw.caStageLen - pw.caLineBeg == 1 && pw.caCert pw.caLineBeg == 0x2E#8

/-- The upload part of `picowifi_send`. -/
def picowifiCapture (pw : PicoWifiTls) (byte : Byte) : PicoWifiTls :=
  if byte = 0x0D#8 then pw
  else if byte = 0x0A#8 then
    if pw.lineIsDot then
      -- the terminator line is dropped
      { pw with
        caCertLen := pw.caLineBeg, caCert := update pw.caCert pw.caLineBeg 0#8
        caCapture := false }
    else if pw.caStageLen < caCertMax then
      { pw with
        caCert := update pw.caCert pw.caStageLen 0x0A#8
        caStageLen := pw.caStageLen + 1
        caLineBeg := pw.caStageLen + 1 }
    else { pw with caCapture := false, caCertLen := 0 }
  else if pw.caStageLen < caCertMax then
    { pw with
      caCert := update pw.caCert pw.caStageLen byte
      caStageLen := pw.caStageLen + 1 }
  else pw

/-! ## Dials -/

/-- What a secure dial asks of OpenSSL. -/
structure TlsSetup where
  verify : Bool
  ca : List Byte
  deriving DecidableEq, Repr

/-- `pw_tls_wrap`, up to the handshake; `certificates` are those OpenSSL reads in a PEM text. A CA
without any is refused. -/
def pwTlsWrap {Cert : Type} (certificates : List Byte → List Cert) (pw : PicoWifiTls) :
    Option TlsSetup :=
  if pw.tlsVerify && decide (0 < pw.caCertLen) then
    if (certificates pw.ca).isEmpty then none else some { verify := true, ca := pw.ca }
  else some { verify := false, ca := [] }

/-! ## Uploads -/

/-- The bytes of an upload without the carriage returns. -/
def caText (raw : List Byte) : List Byte := raw.filter (· != 0x0D#8)

/-- The text of the upload, where its last line is the terminator. -/
def caDone (raw : List Byte) : Option (List Byte) :=
  match (caText raw).reverse with
  | 0x0A#8 :: 0x2E#8 :: rest =>
    if rest.head?.getD 0x0A#8 = 0x0A#8 then some rest.reverse else none
  | _ => none

/-! ## Runs -/

/-- The modem, the bytes of the upload in progress, and the CA as specified: that of the file, or
of the last upload. -/
structure PwRun where
  pw : PicoWifiTls
  raw : List Byte
  source : List Byte

inductive PwOp
  | command (cmd : PwCmd)
  | send (byte : Byte)

def pwStep (run : PwRun) : PwOp → PwRun
  | .command cmd =>
    { run with
      pw := pwDispatchOne run.pw cmd
      raw := if cmd = .caUpload then [] else run.raw }
  | .send byte =>
    if run.pw.caCapture then
      { pw := picowifiCapture run.pw byte
        raw := run.raw ++ [byte]
        source := (caDone (run.raw ++ [byte])).getD run.source }
    else run

def pwStart (nvram : Option Bool) (caFile : Option (List Byte)) : PwRun where
  pw := picowifiOpen nvram caFile
  raw := []
  source := caFile.getD []

/-- Commands run outside uploads, or on the line that starts one, before its first byte. -/
def PwRun.commands (run : PwRun) : Prop := run.pw.caCapture = false ∨ run.raw = []

/-- What the modem can be given in a state. -/
def PwOp.Runs (run : PwRun) : PwOp → Prop
  | .command _ => run.commands
  | .send _ => True

/-- A byte that keeps the modem from verifying without a CA: a line that is the terminator ends an
upload that is not empty, or the modem does not verify; a line that does not fit ends an upload when
the modem does not verify; and what does not fit is not the rest of a line that starts with `.`. -/
def PwOp.Keeps (run : PwRun) : PwOp → Prop
  | .command _ => True
  | .send byte => run.pw.caCapture = true →
    if byte = 0x0A#8 then
      if run.pw.lineIsDot then 0 < run.pw.caLineBeg ∨ run.pw.tlsVerify = false
      else run.pw.caStageLen < caCertMax ∨ run.pw.tlsVerify = false
    else byte = 0x0D#8 ∨ run.pw.caStageLen < caCertMax ∨ run.pw.lineIsDot = false

/-- A modem opened with a CA if it is to verify, and a CA file that fits. -/
def PwOpens (nvram : Option Bool) (caFile : Option (List Byte)) : Prop :=
  (nvram = some true → caFile.getD [] ≠ []) ∧ (caFile.getD []).length ≤ caCertMax

/-! ## The upload and its text -/

/-- The text staged: whole lines, then the line at the end. -/
structure CaStaged (pw : PicoWifiTls) (text done line : List Byte) : Prop where
  split : text = done ++ line
  whole : done.getLast?.getD 0x0A#8 = 0x0A#8
  beg : pw.caLineBeg = done.length
  len : pw.caStageLen = text.length
  cert : ∀ i < text.length, pw.caCert i = text.getD i 0#8

theorem caText_append (raw : List Byte) {byte : Byte} (h : byte ≠ 0x0D#8) :
    caText (raw ++ [byte]) = caText raw ++ [byte] := by
  simp [caText, h]

theorem caText_append_cr (raw : List Byte) : caText (raw ++ [0x0D#8]) = caText raw := by
  simp [caText]

/-- A byte staged after the text. -/
theorem CaStaged.push {pw : PicoWifiTls} {text done line : List Byte}
    (h : CaStaged pw text done line) (byte : Byte) : ∀ i < (text ++ [byte]).length,
      update pw.caCert pw.caStageLen byte i = (text ++ [byte]).getD i 0#8 := by
  intro i hi
  rw [List.length_append, List.length_singleton] at hi
  rcases Nat.lt_succ_iff_lt_or_eq.mp hi with hlt | rfl
  · rw [update_of_ne (by rw [h.len]; omega), h.cert i hlt]
    simp [List.getElem?_append_left hlt]
  · rw [h.len, update_self]
    simp

/-- Where the line staged is a sole `.`, the line at the end of the text is. -/
theorem CaStaged.dot {pw : PicoWifiTls} {text done line : List Byte}
    (h : CaStaged pw text done line) (hdot : pw.lineIsDot = true) : line = [0x2E#8] := by
  rw [PicoWifiTls.lineIsDot, Bool.and_eq_true, beq_iff_eq, beq_iff_eq] at hdot
  obtain ⟨hone, hcert⟩ := hdot
  rw [h.len, h.beg, h.split, List.length_append, Nat.add_sub_cancel_left] at hone
  obtain ⟨b, rfl⟩ := List.length_eq_one_iff.mp hone
  rw [h.beg, h.cert _ (by rw [h.split, List.length_append, List.length_singleton]; omega),
    h.split] at hcert
  simpa using hcert

/-- The terminator completes the upload with the lines before it. -/
theorem caDone_of_dot {raw done : List Byte} (h : caText raw = done ++ [0x2E#8])
    (hwhole : done.getLast?.getD 0x0A#8 = 0x0A#8) : caDone (raw ++ [0x0A#8]) = some done := by
  have hrev : (caText (raw ++ [0x0A#8])).reverse = 0x0A#8 :: 0x2E#8 :: done.reverse := by
    rw [caText_append raw (by decide), h]
    simp
  rw [caDone, hrev]
  simp only
  rw [List.head?_reverse, if_pos hwhole, List.reverse_reverse]

/-! ## The invariant -/

structure PwInv (run : PwRun) : Prop where
  /-- A modem that verifies has a CA. -/
  verify : run.pw.tlsVerify = true → 0 < run.pw.caCertLen
  /-- Outside uploads the CA is the one specified. -/
  source : run.commands → 0 < run.pw.caCertLen → run.pw.ca = run.source
  /-- An upload has its text staged, or has overflowed the buffer. -/
  upload : run.pw.caCapture = true →
    (∃ done line, CaStaged run.pw (caText run.raw) done line) ∨
      run.raw ≠ [] ∧ ¬run.pw.caStageLen < caCertMax ∧ run.pw.lineIsDot = false

theorem pwStart_inv {nvram : Option Bool} {caFile : Option (List Byte)}
    (h : PwOpens nvram caFile) : PwInv (pwStart nvram caFile) := by
  obtain ⟨hverify, hfits⟩ := h
  have hfile : (caFile.getD []).take caCertMax = caFile.getD [] := List.take_of_length_le hfits
  refine ⟨?_, ?_, fun hcapture => nomatch hcapture⟩
  · intro hnvram
    have hsome : nvram = some true := by
      cases nvram with
      | none => cases hnvram
      | some v => exact congrArg some hnvram
    show 0 < ((caFile.getD []).take caCertMax).length
    rw [hfile]
    exact List.length_pos_iff.mpr (hverify hsome)
  · intro _ _
    show (List.range ((caFile.getD []).take caCertMax).length).map
      (fun i => ((caFile.getD []).take caCertMax).getD i 0#8) = caFile.getD []
    rw [hfile]
    apply List.ext_getElem
    · simp
    · intro i hi hi'
      simp [hi']

theorem PwInv.command {run : PwRun} (h : PwInv run) (cmd : PwCmd) (hruns : run.commands) :
    PwInv (pwStep run (.command cmd)) := by
  have hupload : run.pw.caCapture = true → run.raw = [] ∧ run.pw.caStageLen = 0 ∧
      ∃ done line, CaStaged run.pw (caText run.raw) done line := by
    intro hcapture
    have hraw : run.raw = [] := by
      rcases hruns with hnone | hraw
      · rw [hcapture] at hnone
        cases hnone
      · exact hraw
    rcases h.upload hcapture with ⟨done, line, hstaged⟩ | ⟨hne, -⟩
    · have hlen := hstaged.len
      rw [hraw] at hlen
      exact ⟨hraw, hlen, done, line, hstaged⟩
    · exact absurd hraw hne
  cases cmd with
  | cv0 =>
    refine ⟨(nomatch ·), h.source, fun hcapture => ?_⟩
    obtain ⟨-, -, done, line, hstaged⟩ := hupload hcapture
    exact .inl ⟨done, line, { hstaged with }⟩
  | cv1 =>
    by_cases hlen : run.pw.caCertLen = 0
    · have hsame : pwStep run (.command .cv1) = run := by simp [pwStep, pwDispatchOne, hlen]
      rwa [hsame]
    · have hstep : pwStep run (.command .cv1) =
          { run with pw := { run.pw with tlsVerify := true } } := by
        simp [pwStep, pwDispatchOne, hlen]
      rw [hstep]
      refine ⟨fun _ => Nat.pos_of_ne_zero hlen, h.source, fun hcapture => ?_⟩
      obtain ⟨-, -, done, line, hstaged⟩ := hupload hcapture
      exact .inl ⟨done, line, { hstaged with }⟩
  | caDelete =>
    refine ⟨(nomatch ·), fun _ hlen => absurd hlen (Nat.lt_irrefl 0),
      fun hcapture => ?_⟩
    obtain ⟨hraw, hlen, done, line, hstaged⟩ := hupload hcapture
    refine .inl ⟨done, line, hstaged.split, hstaged.whole, hstaged.beg, hstaged.len, ?_⟩
    have hzero : (caText run.raw).length = 0 := hstaged.len.symm.trans hlen
    intro i (hi : i < (caText run.raw).length)
    omega
  | caUpload =>
    refine ⟨h.verify, fun _ => h.source hruns, fun _ => .inl ⟨[], [], rfl, rfl, rfl, rfl, ?_⟩⟩
    intro i hi
    exact absurd hi (Nat.not_lt_zero i)
  | factory =>
    refine ⟨(nomatch ·), h.source, fun hcapture => ?_⟩
    obtain ⟨-, -, done, line, hstaged⟩ := hupload hcapture
    exact .inl ⟨done, line, { hstaged with }⟩
  | other => exact h

theorem PwInv.send {run : PwRun} (h : PwInv run) (byte : Byte)
    (hkeeps : (PwOp.send byte).Keeps run) : PwInv (pwStep run (.send byte)) := by
  by_cases hcapture : run.pw.caCapture = true
  · have hnot : ∀ {pw : PicoWifiTls} {source : List Byte}, pw.caCapture = true →
        ¬(PwRun.mk pw (run.raw ++ [byte]) source).commands := by
      intro pw source hpw hcommands
      rcases hcommands with hnone | hraw
      · exact absurd (hpw.symm.trans hnone) (by decide)
      · simp at hraw
    have hkeeps := hkeeps hcapture
    simp only [pwStep, if_pos hcapture]
    by_cases hcr : byte = 0x0D#8
    · -- a carriage return is not staged
      subst hcr
      simp only [picowifiCapture, if_true]
      refine ⟨h.verify, fun hcommands => absurd hcommands (hnot hcapture), fun _ => ?_⟩
      simp only [caText_append_cr]
      rcases h.upload hcapture with hstaged | ⟨-, hfull, hdot⟩
      · exact .inl hstaged
      · exact .inr ⟨by simp, hfull, hdot⟩
    · by_cases hlf : byte = 0x0A#8
      · subst hlf
        rw [if_pos rfl] at hkeeps
        simp only [picowifiCapture, if_neg hcr, if_true]
        by_cases hdot : run.pw.lineIsDot = true
        · -- the terminator
          rw [if_pos hdot] at hkeeps ⊢
          rcases h.upload hcapture with ⟨done, line, hstaged⟩ | ⟨-, -, hdot'⟩
          · have htext : caText run.raw = done ++ [0x2E#8] := by
              rw [hstaged.split, hstaged.dot hdot]
            rw [caDone_of_dot htext hstaged.whole]
            refine ⟨?_, fun _ _ => ?_, fun hnone => nomatch hnone⟩
            · intro hverify
              rcases hkeeps with hpos | hnot
              · exact hpos
              · exact absurd (hverify.symm.trans hnot) (by decide)
            · show (List.range run.pw.caLineBeg).map (update run.pw.caCert run.pw.caLineBeg 0#8) = done
              rw [hstaged.beg]
              apply List.ext_getElem
              · simp
              · intro i hi hi'
                rw [List.getElem_map, List.getElem_range, update_of_ne (Nat.ne_of_lt hi'),
                  hstaged.cert i (by rw [htext, List.length_append]; omega), htext]
                simp [List.getElem?_append_left hi', hi']
          · exact absurd (hdot.symm.trans hdot') (by decide)
        · rw [if_neg hdot] at hkeeps ⊢
          by_cases hroom : run.pw.caStageLen < caCertMax
          · -- a whole line
            rw [if_pos hroom]
            refine ⟨h.verify, fun hcommands => absurd hcommands (hnot hcapture), fun _ => .inl ?_⟩
            rcases h.upload hcapture with ⟨done, line, hstaged⟩ | ⟨-, hfull, -⟩
            · refine ⟨caText run.raw ++ [0x0A#8], [], ?_, by simp, ?_, ?_, ?_⟩
              · rw [List.append_nil]
                exact caText_append _ hcr
              · simp [hstaged.len]
              · simp [caText_append _ hcr, hstaged.len]
              · simp only [caText_append _ hcr]
                exact hstaged.push 0x0A#8
            · exact absurd hroom hfull
          · -- the upload does not fit
            rw [if_neg hroom]
            refine ⟨fun hverify => ?_, fun _ hlen => absurd hlen (Nat.lt_irrefl 0),
              fun hnone => nomatch hnone⟩
            rcases hkeeps with hroom' | hnot
            · exact absurd hroom' hroom
            · exact absurd (hverify.symm.trans hnot) (by decide)
      · rw [if_neg hlf] at hkeeps
        simp only [picowifiCapture, if_neg hcr, if_neg hlf]
        by_cases hroom : run.pw.caStageLen < caCertMax
        · -- a byte of the line
          rw [if_pos hroom]
          refine ⟨h.verify, fun hcommands => absurd hcommands (hnot hcapture), fun _ => .inl ?_⟩
          rcases h.upload hcapture with ⟨done, line, hstaged⟩ | ⟨-, hfull, -⟩
          · refine ⟨done, line ++ [byte], ?_, hstaged.whole, hstaged.beg, ?_, ?_⟩
            · rw [← List.append_assoc, ← hstaged.split]
              exact caText_append _ hcr
            · simp [caText_append _ hcr, hstaged.len]
            · simp only [caText_append _ hcr]
              exact hstaged.push byte
          · exact absurd hroom hfull
        · -- a byte that does not fit
          rw [if_neg hroom]
          refine ⟨h.verify, fun hcommands => absurd hcommands (hnot hcapture), fun _ => .inr ?_⟩
          rcases hkeeps with hcr' | hroom' | hdot
          · exact absurd hcr' hcr
          · exact absurd hroom' hroom
          · exact ⟨by simp, hroom, hdot⟩
  · simp only [pwStep, if_neg hcapture]
    exact h

/-- The steps of a run that the modem can take and that keep it from verifying without a CA. -/
def PwRun.ok (run : PwRun) (op : PwOp) : Prop := op.Runs run ∧ op.Keeps run

theorem PwInv.step (run : PwRun) (op : PwOp) (h : PwInv run) (hok : run.ok op) :
    PwInv (pwStep run op) := by
  cases op with
  | command cmd => exact h.command cmd hok.1
  | send byte => exact h.send byte hok.2

/-- In every run that does not leave the modem verifying without a CA, wherever it takes commands:
if it verifies, it has a CA, the one specified, and a secure dial is refused or verifies with it. -/
theorem pw_verifies {nvram : Option Bool} {caFile : Option (List Byte)}
    (hopen : PwOpens nvram caFile) (ops : List PwOp)
    (hok : Machine.Throughout pwStep PwRun.ok ops (pwStart nvram caFile))
    (hcommands : (ops.foldl pwStep (pwStart nvram caFile)).commands)
    (hverify : (ops.foldl pwStep (pwStart nvram caFile)).pw.tlsVerify = true) :
    0 < (ops.foldl pwStep (pwStart nvram caFile)).pw.caCertLen ∧
      ∀ {Cert : Type} (certificates : List Byte → List Cert) (setup : TlsSetup),
        pwTlsWrap certificates (ops.foldl pwStep (pwStart nvram caFile)).pw = some setup →
        setup = { verify := true, ca := (ops.foldl pwStep (pwStart nvram caFile)).source } := by
  have hinv : PwInv (ops.foldl pwStep (pwStart nvram caFile)) :=
    Machine.Throughout.invariant PwInv.step ops (pwStart_inv hopen) hok
  have hlen := hinv.verify hverify
  refine ⟨hlen, ?_⟩
  intro Cert certificates setup hsetup
  rw [pwTlsWrap, hverify, Bool.true_and, decide_eq_true hlen, if_pos rfl] at hsetup
  split_ifs at hsetup
  rw [← hinv.source hcommands hlen]
  exact (Option.some.inj hsetup).symm

/-- A CA uploaded, and verification turned on. -/
theorem pw_verifies_upload :
    let ops : List PwOp := [.command .caUpload, .send 0x41, .send 0x0A, .send 0x2E, .send 0x0A,
      .command .cv1]
    pwTlsWrap (fun _ => [()]) (ops.foldl pwStep (pwStart none none)).pw =
      some { verify := true, ca := [0x41, 0x0A] } := by
  intro ops
  have hok : Machine.Throughout pwStep PwRun.ok ops (pwStart none none) := by
    refine ⟨⟨.inl rfl, trivial⟩, ⟨trivial, fun _ => ?_⟩, ⟨trivial, fun _ => ?_⟩,
      ⟨trivial, fun _ => ?_⟩, ⟨trivial, fun _ => ?_⟩, ⟨.inl rfl, trivial⟩, trivial⟩ <;> decide
  obtain ⟨setup, hsetup⟩ : ∃ setup, pwTlsWrap (fun _ => [()])
      (ops.foldl pwStep (pwStart none none)).pw = some setup := ⟨_, rfl⟩
  have hopen : PwOpens none none := ⟨(nomatch ·), by decide⟩
  have hverified := (pw_verifies hopen ops hok (.inl rfl) rfl).2 _ _ hsetup
  exact hsetup.trans (congrArg some hverified)

/-- Opened with verification on and no CA, the modem dials unverified. -/
theorem pw_unverified :
    ¬ ∀ (nvram : Option Bool) (caFile : Option (List Byte)) (ops : List PwOp),
      Machine.Throughout pwStep (fun run op => op.Runs run) ops (pwStart nvram caFile) →
      (ops.foldl pwStep (pwStart nvram caFile)).pw.tlsVerify = true →
        0 < (ops.foldl pwStep (pwStart nvram caFile)).pw.caCertLen := by
  intro hall
  have := hall (some true) none [] trivial rfl
  revert this
  decide

end Phosphoric
