import Phosphoric.Serial.TelnetTrip

/-!
# What the PicoWiFi modem writes in telnet mode

The line gets the bytes of the program (`pw_tn_out_byte`), the answers to commands
(`pw_tn_negotiate`, `pw_tn_subneg`) and the answer to Are You There, from the two ends of the modem
in any order.

**Theorem (`tnWrites_formed`).** With no 255 in the settings the line is made of bytes sent, whole
commands and whole answers, and a decoder gets the bytes of the program in order, with `[Yes]` on a
line of its own where the modem was asked if it is there.
-/

namespace Phosphoric

/-! ## The line -/

/-- A byte of the program, or a byte of the line. -/
inductive TnEvent
  | send (b : Byte)
  | line (b : Byte)

/-- The modem after an event, and what it writes to the line. -/
def TelnetModem.write (pw : TelnetModem) : TnEvent → TelnetModem × List Byte
  | .send b => (pw, pwTnOutByte pw.sessionTelnet b)
  | .line b => pwTnRxByte pw b

/-- What a run writes. -/
def tnWrites (pw : TelnetModem) : List TnEvent → List Byte
  | [] => []
  | e :: es => (pw.write e).2 ++ tnWrites (pw.write e).1 es

/-- The data of an event: the byte sent, or the answer to Are You There. -/
def TelnetModem.data (pw : TelnetModem) : TnEvent → List Byte
  | .send b => [b]
  | .line b => if pw.tnState = .iac ∧ b = tnAyt then tnYes else []

/-- The data of a run. -/
def tnData (pw : TelnetModem) : List TnEvent → List Byte
  | [] => []
  | e :: es => pw.data e ++ tnData (pw.write e).1 es

/-- A piece of what is written. -/
inductive TnPiece
  | unit (u : TnUnit)
  | yes

def TnPiece.encode (mode : SessionTelnet) : TnPiece → List Byte
  | .unit u => u.encode mode
  | .yes => tnYes

def TnPiece.bytes : TnPiece → List Byte
  | .unit u => u.bytes
  | .yes => tnYes

/-- A 16-bit number, its high byte first. -/
def tnBe16 (n : Int) : List Byte := [BitVec.ofInt 8 (n / 256), BitVec.ofInt 8 n]

/-- A unit is well formed, its content is doubled where it has to be, and a window size is the one
that is set. -/
structure TelnetModem.Forms (pw : TelnetModem) (unit : TnUnit) : Prop where
  wellFormed : unit.WellFormed
  kept : unit.Kept
  naws : ∀ content, unit = .subneg tnoNaws content → content = tnBe16 pw.ttyW ++ tnBe16 pw.ttyH

/-- Settings that need no doubling: no 255 in the texts, and a size of at most 254. -/
structure TelnetModem.Undoubled (pw : TelnetModem) : Prop where
  ttyType : ∀ b ∈ pw.ttyType, b ≠ tnIac
  ttyLoc : ∀ b ∈ pw.ttyLoc, b ≠ tnIac
  width : 0 ≤ pw.ttyW ∧ pw.ttyW < 255
  height : 0 ≤ pw.ttyH ∧ pw.ttyH < 255

/-! ## Content -/

theorem tnEscape_plain {content : List Byte} (h : ∀ b ∈ content, b ≠ tnIac) :
    tnEscape content = content := by
  induction content with
  | nil => rfl
  | cons b content ih =>
    obtain ⟨hb, hcontent⟩ := List.forall_mem_cons.mp h
    rw [tnEscape_letter hb, ih hcontent]

/-- A number is printed with digits and a sign. -/
theorem decimal_plain (n : Int) : ∀ b ∈ decimal n, b ≠ tnIac := by
  have hchar : ∀ c : Char, c = '-' ∨ c.isDigit = true → BitVec.ofNat 8 c.toNat ≠ tnIac := by
    intro c hc
    have hlt : c.toNat < 128 := by
      obtain rfl | hdigit := hc
      · decide
      · have hrange : 48 ≤ c.toNat ∧ c.toNat ≤ 57 := by
          simpa [Char.isDigit, UInt32.le_iff_toNat_le] using hdigit
        omega
    intro heq
    have hnat := congrArg BitVec.toNat heq
    rw [BitVec.toNat_ofNat, Nat.mod_eq_of_lt (by omega)] at hnat
    have hiac : (tnIac : Byte).toNat = 255 := rfl
    omega
  have hdigits : ∀ m : Nat, ∀ c ∈ (Nat.repr m).toList, c.isDigit = true := by
    intro m c hc
    rw [Nat.toList_repr] at hc
    exact Nat.isDigit_of_mem_toDigits (by decide) (by decide) hc
  intro b hb
  obtain ⟨c, hc, rfl⟩ := List.mem_map.mp hb
  refine hchar c ?_
  rw [Int.toString_eq_repr, Int.repr_eq_if] at hc
  split_ifs at hc
  · exact Or.inr (hdigits _ c hc)
  · rw [String.toList_append, List.mem_append] at hc
    obtain hc | hc := hc
    · exact Or.inl (by simpa using hc)
    · exact Or.inr (hdigits _ c hc)

/-- A size below 255 is two bytes, none of them 255. -/
theorem tnBe16_small {n : Int} (h : 0 ≤ n ∧ n < 255) :
    tnBe16 n = [0, BitVec.ofInt 8 n] ∧ BitVec.ofInt 8 n ≠ tnIac := by
  obtain ⟨m, rfl⟩ := Int.eq_ofNat_of_zero_le h.1
  have hm : m < 255 := by omega
  refine ⟨?_, fun heq => ?_⟩
  · rw [tnBe16, show (m : Int) / 256 = 0 by omega]
    rfl
  · have hnat := congrArg BitVec.toNat heq
    rw [BitVec.ofInt_natCast, BitVec.toNat_ofNat, Nat.mod_eq_of_lt (by omega)] at hnat
    have hiac : (tnIac : Byte).toNat = 255 := rfl
    omega

/-! ## What an event writes -/

/-- The settings are kept. -/
theorem pwTnRxByte_settings (pw : TelnetModem) (b : Byte) :
    let pw' := (pwTnRxByte pw b).1
    pw'.sessionTelnet = pw.sessionTelnet ∧ pw'.ttyType = pw.ttyType ∧ pw'.ttyLoc = pw.ttyLoc ∧
      pw'.ttyW = pw.ttyW ∧ pw'.ttyH = pw.ttyH := by
  have hpush : ∀ c, (pwRxPush pw c).sessionTelnet = pw.sessionTelnet ∧
      (pwRxPush pw c).ttyType = pw.ttyType ∧ (pwRxPush pw c).ttyLoc = pw.ttyLoc ∧
        (pwRxPush pw c).ttyW = pw.ttyW ∧ (pwRxPush pw c).ttyH = pw.ttyH := by
    intro c
    rw [pwRxPush]
    split_ifs <;> exact ⟨rfl, rfl, rfl, rfl, rfl⟩
  have hsame : pw.sessionTelnet = pw.sessionTelnet ∧ pw.ttyType = pw.ttyType ∧
      pw.ttyLoc = pw.ttyLoc ∧ pw.ttyW = pw.ttyW ∧ pw.ttyH = pw.ttyH := ⟨rfl, rfl, rfl, rfl, rfl⟩
  unfold pwTnRxByte
  cases pw.tnState with
  | normal =>
    dsimp only
    split_ifs
    · exact hsame
    · exact hsame
    · exact hpush b
  | iac =>
    dsimp only
    split_ifs
    · exact hpush 0xFF#8
    · exact hsame
    · exact hsame
    · exact hsame
    · exact hsame
  | verb v => exact hsame
  | sb opt =>
    dsimp only
    split_ifs
    · exact hsame
    · exact hsame
  | sbIac opt =>
    dsimp only
    split_ifs
    · exact hsame
    · exact hsame

/-- What is written is made of pieces. -/
def TelnetModem.Pieces (pw : TelnetModem) (bytes data : List Byte) : Prop :=
  ∃ pieces : List TnPiece, bytes = pieces.flatMap (TnPiece.encode pw.sessionTelnet) ∧
    data = pieces.flatMap TnPiece.bytes ∧ ∀ unit, .unit unit ∈ pieces → pw.Forms unit

section Pieces

variable {pw : TelnetModem}

theorem pieces_nil : pw.Pieces [] [] := ⟨[], rfl, rfl, fun _ h => absurd h List.not_mem_nil⟩

theorem TelnetModem.Pieces.append {bytes data bytes' data' : List Byte} (h : pw.Pieces bytes data)
    (h' : pw.Pieces bytes' data') : pw.Pieces (bytes ++ bytes') (data ++ data') := by
  obtain ⟨pieces, rfl, rfl, hforms⟩ := h
  obtain ⟨pieces', rfl, rfl, hforms'⟩ := h'
  refine ⟨pieces ++ pieces', List.flatMap_append.symm, List.flatMap_append.symm, ?_⟩
  intro unit hunit
  obtain hunit | hunit := List.mem_append.mp hunit
  · exact hforms unit hunit
  · exact hforms' unit hunit

theorem pieces_unit (unit : TnUnit) (h : pw.Forms unit) :
    pw.Pieces (unit.encode pw.sessionTelnet) unit.bytes := by
  refine ⟨[.unit unit], (List.append_nil _).symm, (List.append_nil _).symm, ?_⟩
  intro unit' hunit
  obtain rfl := TnPiece.unit.inj (List.mem_singleton.mp hunit)
  exact h

/-- A command of three bytes. -/
theorem pieces_verb (verb : TnVerb) (opt : Byte) : pw.Pieces [tnIac, verb.byte, opt] [] :=
  pieces_unit (.negotiate verb opt) ⟨trivial, trivial, by rintro _ ⟨⟩⟩

/-- A subnegotiation of an option but 255, whose content has no 255. -/
theorem pieces_subneg (opt : Byte) (hopt : opt ≠ tnIac) (content : List Byte)
    (hplain : ∀ b ∈ content, b ≠ tnIac)
    (hnaws : opt = tnoNaws → content = tnBe16 pw.ttyW ++ tnBe16 pw.ttyH) :
    pw.Pieces ([tnIac, tnSb, opt] ++ (content ++ [tnIac, tnSe])) [] := by
  have hforms : pw.Forms (.subneg opt content) := by
    refine ⟨trivial, fun h => absurd h hopt, ?_⟩
    rintro _ heq
    obtain ⟨h, rfl⟩ := TnUnit.subneg.inj heq
    exact hnaws h
  have hunit : pw.Pieces ([tnIac, tnSb, opt] ++ (tnEscape content ++ [tnIac, tnSe])) [] :=
    pieces_unit _ hforms
  rw [tnEscape_plain hplain] at hunit
  exact hunit

theorem negotiate_pieces (h : pw.Undoubled) (verb opt : Byte) :
    pw.Pieces (pwTnNegotiate pw verb opt) [] := by
  unfold pwTnNegotiate
  split_ifs with hdo hwilling hloc hnaws hwill hrefused
  · exact pieces_verb .will opt
  · subst hloc
    have hsub : pw.Pieces ([tnIac, tnSb, tnoLoc] ++ (pw.ttyLoc ++ [tnIac, tnSe])) [] :=
      pieces_subneg tnoLoc (by decide) pw.ttyLoc h.ttyLoc fun heq => absurd heq (by decide)
    have hwill : pw.Pieces [tnIac, tnWill, tnoLoc] [] := pieces_verb .will tnoLoc
    have hboth := hwill.append hsub
    simpa using hboth
  · subst hnaws
    obtain ⟨hw, hwiac⟩ := tnBe16_small h.width
    obtain ⟨hh, hhiac⟩ := tnBe16_small h.height
    have hplain : ∀ b ∈ tnBe16 pw.ttyW ++ tnBe16 pw.ttyH, b ≠ tnIac := by
      rw [hw, hh]
      intro b hb
      simp only [List.cons_append, List.nil_append, List.mem_cons, List.not_mem_nil,
        or_false] at hb
      obtain rfl | rfl | rfl | rfl := hb
      · decide
      · exact hwiac
      · decide
      · exact hhiac
    have hsub := pieces_subneg tnoNaws (by decide) _ hplain fun _ => rfl
    rw [hw, hh] at hsub
    have hwill : pw.Pieces [tnIac, tnWill, tnoNaws] [] := pieces_verb .will tnoNaws
    have hboth := hwill.append hsub
    simpa using hboth
  · exact pieces_verb .wont opt
  · exact pieces_verb .disable opt
  · exact pieces_verb .enable opt
  · exact pieces_nil

theorem subneg_pieces (h : pw.Undoubled) (opt : Option Byte) :
    pw.Pieces (pwTnSubneg pw opt) [] := by
  unfold pwTnSubneg
  split_ifs
  · have hsub : pw.Pieces ([tnIac, tnSb, tnoTtype] ++ ((0 :: pw.ttyType) ++ [tnIac, tnSe])) [] :=
      pieces_subneg tnoTtype (by decide) _ (List.forall_mem_cons.mpr ⟨by decide, h.ttyType⟩)
        fun heq => absurd heq (by decide)
    simpa using hsub
  · have hplain : ∀ b ∈ (0 : Byte) :: (decimal pw.baud ++ [0x2C#8] ++ decimal pw.baud),
        b ≠ tnIac := by
      intro b hb
      simp only [List.mem_cons, List.mem_append, List.not_mem_nil, or_false] at hb
      obtain rfl | (hb | rfl) | hb := hb
      · decide
      · exact decimal_plain _ b hb
      · decide
      · exact decimal_plain _ b hb
    have hsub : pw.Pieces ([tnIac, tnSb, tnoTspeed] ++
        ((0 :: (decimal pw.baud ++ [0x2C#8] ++ decimal pw.baud)) ++ [tnIac, tnSe])) [] :=
      pieces_subneg tnoTspeed (by decide) _ hplain fun heq => absurd heq (by decide)
    simpa using hsub
  · exact pieces_nil

theorem write_pieces (h : pw.Undoubled) (e : TnEvent) : pw.Pieces (pw.write e).2 (pw.data e) := by
  cases e with
  | send b => exact pieces_unit (.data b) ⟨trivial, trivial, by rintro _ ⟨⟩⟩
  | line b =>
    have hdata : ¬(pw.tnState = .iac ∧ b = tnAyt) → pw.data (.line b) = [] := fun h => if_neg h
    show pw.Pieces (pwTnRxByte pw b).2 (pw.data (.line b))
    unfold pwTnRxByte
    cases hst : pw.tnState with
    | normal =>
      rw [hdata (by rw [hst]; rintro ⟨⟨⟩, -⟩)]
      dsimp only
      split_ifs <;> exact pieces_nil
    | iac =>
      by_cases hayt : b = tnAyt
      · have hyes : pw.data (.line b) = tnYes := if_pos ⟨hst, hayt⟩
        rw [hyes, hayt]
        exact ⟨[.yes], rfl, rfl, fun unit hunit =>
          absurd (List.mem_singleton.mp hunit) (by rintro ⟨⟩)⟩
      · rw [hdata fun hboth => hayt hboth.2, if_neg hayt]
        dsimp only
        split_ifs <;> exact pieces_nil
    | verb v =>
      rw [hdata (by rw [hst]; rintro ⟨⟨⟩, -⟩)]
      exact negotiate_pieces h v b
    | sb opt =>
      rw [hdata (by rw [hst]; rintro ⟨⟨⟩, -⟩)]
      dsimp only
      split_ifs <;> exact pieces_nil
    | sbIac opt =>
      rw [hdata (by rw [hst]; rintro ⟨⟨⟩, -⟩)]
      dsimp only
      split_ifs
      · exact subneg_pieces h opt
      · exact pieces_nil

/-- The pieces and the settings go on with the modem. -/
theorem TelnetModem.Pieces.of_settings {pw' : TelnetModem} {bytes data : List Byte}
    (h : pw'.Pieces bytes data) (hmode : pw'.sessionTelnet = pw.sessionTelnet)
    (hw : pw'.ttyW = pw.ttyW) (hh : pw'.ttyH = pw.ttyH) : pw.Pieces bytes data := by
  obtain ⟨pieces, hbytes, hdata, hforms⟩ := h
  rw [hmode] at hbytes
  refine ⟨pieces, hbytes, hdata, fun unit hunit => ?_⟩
  obtain ⟨hwell, hkept, hnaws⟩ := hforms unit hunit
  rw [hw, hh] at hnaws
  exact ⟨hwell, hkept, hnaws⟩

theorem tnWrites_pieces (events : List TnEvent) {pw : TelnetModem} (h : pw.Undoubled) :
    pw.Pieces (tnWrites pw events) (tnData pw events) := by
  induction events generalizing pw with
  | nil => exact pieces_nil
  | cons e events ih =>
    have hsame : (pw.write e).1.sessionTelnet = pw.sessionTelnet ∧
        (pw.write e).1.ttyType = pw.ttyType ∧ (pw.write e).1.ttyLoc = pw.ttyLoc ∧
          (pw.write e).1.ttyW = pw.ttyW ∧ (pw.write e).1.ttyH = pw.ttyH := by
      cases e with
      | send b => exact ⟨rfl, rfl, rfl, rfl, rfl⟩
      | line b => exact pwTnRxByte_settings pw b
    obtain ⟨hmode, htype, hloc, hw, hh⟩ := hsame
    have hundoubled : (pw.write e).1.Undoubled := by
      refine ⟨?_, ?_, ?_, ?_⟩
      · rw [htype]
        exact h.ttyType
      · rw [hloc]
        exact h.ttyLoc
      · rw [hw]
        exact h.width
      · rw [hh]
        exact h.height
    exact (write_pieces h e).append ((ih hundoubled).of_settings hmode hw hh)

end Pieces

/-! ## The other end -/

/-- A decoder gets the data of the pieces. -/
theorem tnFeed_pieces {mode : SessionTelnet} (hmode : mode ≠ .none) (pieces : List TnPiece)
    (hwell : ∀ unit, .unit unit ∈ pieces → unit.WellFormed ∧ unit.Kept) {cr : Bool}
    (hcr : mode = .real → cr = false) :
    (tnFeed mode ⟨.normal, cr⟩ (pieces.flatMap (TnPiece.encode mode))).1.state = .normal ∧
      (tnFeed mode ⟨.normal, cr⟩ (pieces.flatMap (TnPiece.encode mode))).2 =
        pieces.flatMap TnPiece.bytes := by
  induction pieces generalizing cr with
  | nil => exact ⟨rfl, rfl⟩
  | cons piece pieces ih =>
    obtain ⟨cr', hcr', hfirst⟩ : ∃ cr', (mode = .real → cr' = false) ∧
        tnFeed mode ⟨.normal, cr⟩ (piece.encode mode) = (⟨.normal, cr'⟩, piece.bytes) := by
      cases piece with
      | yes =>
        refine ⟨false, fun _ => rfl, ?_⟩
        cases mode <;> cases cr <;> rfl
      | unit unit =>
        obtain ⟨hunit, hkept⟩ := hwell unit List.mem_cons_self
        cases unit with
        | data b => exact tnFeed_data hmode hcr b
        | _ => exact ⟨cr, hcr, hkept.silent hunit rfl cr⟩
    have hrest := ih (fun unit hunit => hwell unit (List.mem_cons_of_mem _ hunit)) hcr'
    rw [List.flatMap_cons, List.flatMap_cons, tnFeed_append, hfirst]
    exact ⟨hrest.1, congrArg _ hrest.2⟩

/-- The line is well formed and a decoder gets the data from it. -/
def TelnetModem.Formed (pw : TelnetModem) (bytes data : List Byte) : Prop :=
  pw.Pieces bytes data ∧ (tnFeed pw.sessionTelnet ⟨.normal, false⟩ bytes).1.state = .normal ∧
    (tnFeed pw.sessionTelnet ⟨.normal, false⟩ bytes).2 = data

/-- With settings that need no doubling, what is written is well formed and gives the bytes of the
program, with the answers to Are You There where they were asked for. -/
theorem tnWrites_formed {pw : TelnetModem} (hmode : pw.sessionTelnet ≠ .none) (h : pw.Undoubled)
    (events : List TnEvent) : pw.Formed (tnWrites pw events) (tnData pw events) := by
  have hpieces := tnWrites_pieces events h
  refine ⟨hpieces, ?_⟩
  obtain ⟨pieces, hbytes, hdata, hforms⟩ := hpieces
  rw [hbytes, hdata]
  exact tnFeed_pieces hmode pieces
    (fun unit hunit => ⟨(hforms unit hunit).wellFormed, (hforms unit hunit).kept⟩) fun _ => rfl

/-- The bytes of the program in a run. -/
def tnProgram (events : List TnEvent) : List Byte :=
  events.flatMap fun
    | .send b => [b]
    | .line _ => []

theorem telnetModemInit_undoubled : telnetModemInit.Undoubled := by
  refine ⟨?_, ?_, ⟨by decide, by decide⟩, ⟨by decide, by decide⟩⟩ <;> decide +kernel

/-- Asked if it is there, the modem answers in the data. -/
theorem tnWrites_yes :
    ¬ ∀ (pw : TelnetModem), pw.sessionTelnet ≠ .none → ∀ events : List TnEvent,
      pw.Formed (tnWrites pw events) (tnProgram events) := by
  intro h
  have hdata := (h { telnetModemInit with sessionTelnet := .real } (by decide)
    [.line tnIac, .line tnAyt]).2.2
  exact absurd hdata (by decide)

theorem tnWrites_formed_window :
    ({ telnetModemInit with sessionTelnet := .real } : TelnetModem).Formed
      (tnWrites { telnetModemInit with sessionTelnet := .real }
        [.send 0xFF, .line tnIac, .line tnDo, .line tnoNaws])
      (tnData { telnetModemInit with sessionTelnet := .real }
        [.send 0xFF, .line tnIac, .line tnDo, .line tnoNaws]) :=
  tnWrites_formed (by decide) ⟨telnetModemInit_undoubled.ttyType,
    telnetModemInit_undoubled.ttyLoc, telnetModemInit_undoubled.width,
    telnetModemInit_undoubled.height⟩ _

end Phosphoric
