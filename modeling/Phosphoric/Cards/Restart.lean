import Phosphoric.Cards.Options

/-!
# The cards after a cold restart

The command line that `cardsBuildArgv` makes from a state of the cards, read by the new process.

**Theorem (`cardsBuildArgv_restart`).** The arguments that are no card's are kept, and the new
process reads the same cards back, by:

* *one card* (`runs_cardArgs`): the options of an active card turn it on and give its parameters the
  values they were made from,
* *all cards* (`runs_cards`): the options of one card leave the others as they are, and
* *LOCI's modem* (`lociModemOfAcia_withModem`): the ACIA started for it is taken for it.
-/

namespace Phosphoric

open Lookahead
open Function (update update_of_ne update_self update_idem update_eq_self)

/-! ## States -/

/-- The values a choice is among. -/
def choiceValues (p : CardParam) : List CStr := p.dflt.splitOn 0x7C#8

/-- A hexadecimal digit. -/
def IsHexDigit (b : Byte) : Prop :=
  (0x30#8 ≤ b ∧ b ≤ 0x39#8) ∨ (0x41#8 ≤ b ∧ b ≤ 0x46#8) ∨ (0x61#8 ≤ b ∧ b ≤ 0x66#8)

instance (b : Byte) : Decidable (IsHexDigit b) :=
  inferInstanceAs (Decidable (_ ∨ _ ∨ _))

/-- The value is one of the parameter's kind. -/
def CardParam.Valid (p : CardParam) (v : CStr) : Prop :=
  match p.kind with
  | .hex => v ≠ [] ∧ ∀ b ∈ v, IsHexDigit b
  | .bool => v = cstr "oui" ∨ v = cstr "non"
  | .choice => v ∈ choiceValues p
  | .file | .dir | .text => True

instance (p : CardParam) (v : CStr) : Decidable (p.Valid v) :=
  match h : p.kind with
  | .hex => decidable_of_iff (v ≠ [] ∧ ∀ b ∈ v, IsHexDigit b) (by rw [CardParam.Valid, h])
  | .bool => decidable_of_iff (v = cstr "oui" ∨ v = cstr "non") (by rw [CardParam.Valid, h])
  | .choice => decidable_of_iff (v ∈ choiceValues p) (by rw [CardParam.Valid, h])
  | .file => isTrue (by rw [CardParam.Valid, h]; trivial)
  | .dir => isTrue (by rw [CardParam.Valid, h]; trivial)
  | .text => isTrue (by rw [CardParam.Valid, h]; trivial)

/-- A state as `cardsStateDefaults` and `cardsSetOn` make them, with valid values in its active
cards. -/
structure CardsState.WellFormed (st : CardsState) : Prop where
  fixed : ∀ i, i.desc.fixed = true → (st i).on = true
  group : ∀ i j, (st i).on = true → (st j).on = true → sameGroup i j = true → i = j
  valid : ∀ i, (st i).on = true → ∀ p ∈ i.desc.params.zipIdx, p.1.Valid ((st i).value p.2).text

/-- The ports of LOCI are given, and are not those that the USB detection finds. A port of the modem
fits in the transport of the ACIA. -/
structure PortsGiven (host : CardsHost) (st : CardsState) : Prop where
  usb : (st .loci).on = true → lociModeIs st lociModeHw = true →
    lociValue st "port_usb" ≠ [] ∧ host.lociUsbDetect ≠ some (lociValue st "port_usb")
  modem : lociHle st = true → lociValue st "modem" = lociModemReal →
    lociValue st "port" ≠ [] ∧ host.picowifiDetect ≠ some (lociValue st "port") ∧
      (picowifiSerialSpec (lociValue st "port")).length < cardValueMax

/-! ## One card -/

theorem cardDefaults_of_mem {i : CardId} {p : CardParam × Nat} (hp : p ∈ i.desc.params.zipIdx) :
    cardDefaults i p.2 = cardsParamDefault p.1 := by
  rw [cardDefaults, List.mem_zipIdx_iff_getElem?.mp hp]

/-- The choice of a card read back from its options. -/
structure CardBack (host : CardsHost) (st : CardsState) (i : CardId) (c : CardChoice) : Prop where
  on : c.on = true
  value : ∀ p ∈ i.desc.params.zipIdx, NotMode i p.2 →
    c.value p.2 =
      (p.1.cli.bind fun _ => paramGiven host st i p).elim (cardsParamDefault p.1) .ofText
  mode : i = .loci → c.value lociModePlace = (st .loci).value lociModePlace

/-- LOCI's option for the firmware. -/
def lociElf : CardParam × Nat :=
  (⟨cstr "elf", .file, some (cstr "--loci-emu"), []⟩, lociParam "elf")

/-- LOCI's option for the LOCI-USB. -/
def lociPortUsb : CardParam × Nat :=
  (⟨cstr "port_usb", .text, some (cstr "--loci-hw"), []⟩, lociParam "port_usb")

theorem lociElf_mem : lociElf ∈ CardId.loci.desc.params.zipIdx := by decide

theorem lociPortUsb_mem : lociPortUsb ∈ CardId.loci.desc.params.zipIdx := by decide

/-- LOCI's mode is one of the three. -/
theorem lociMode_cases {st : CardsState} (hst : st.WellFormed) (hon : (st .loci).on = true) :
    lociValue st "mode" = lociModeHle ∨ lociValue st "mode" = lociModeFw ∨
      lociValue st "mode" = lociModeHw := by
  have hmem : ((⟨cstr "mode", .choice, none,
      cardChoices [lociModeHle, lociModeFw, lociModeHw]⟩ : CardParam), lociParam "mode") ∈
        CardId.loci.desc.params.zipIdx := by decide
  have hchoices : choiceValues ⟨cstr "mode", .choice, none,
      cardChoices [lociModeHle, lociModeFw, lociModeHw]⟩ =
        [lociModeHle, lociModeFw, lociModeHw] := by decide
  have hvalid := hst.valid .loci hon _ hmem
  simp only [CardParam.Valid, hchoices, List.mem_cons, List.not_mem_nil, or_false] at hvalid
  exact hvalid

theorem cardsConflict_eq_none {host : CardsHost} {st : CardsState} :
    cardsConflict host st = none ↔ cardsOverlap st = none ∧ lociModeConflict host st = none ∧
      lociModemConflict host st = none := by
  simp only [cardsConflict, Option.or_eq_none_iff, and_assoc]

/-- The firmware has its ELF file. -/
theorem elf_of_no_conflict {host : CardsHost} {st : CardsState}
    (h : lociModeConflict host st = none) (hon : (st .loci).on = true)
    (hmode : lociModeIs st lociModeFw = true) : lociValue st "elf" ≠ [] := by
  intro helf
  simp only [lociModeConflict, hon, hmode, helf] at h
  split_ifs at h <;> simp_all

/-- The modem of LOCI has the serial line for itself. -/
theorem acia_of_no_conflict {host : CardsHost} {st : CardsState}
    (h : lociModemConflict host st = none) (hmodem : lociModemOn st = true) :
    (st .acia).on = false := by
  by_contra hacia
  rw [Bool.not_eq_false] at hacia
  simp [lociModemConflict, hmodem, hacia] at h

/-- LOCI outside its integrated mode has an option that enables it. -/
theorem lociOption_given {host : CardsHost} {st : CardsState} (hst : st.WellFormed)
    (hports : PortsGiven host st) (hconflict : cardsConflict host st = none)
    (hon : (st .loci).on = true) (hhle : lociModeIs st lociModeHle = false) :
    ∃ p ∈ CardId.loci.desc.params.zipIdx, ∃ cli v, p.1.cli = some cli ∧
      paramGiven host st .loci p = some v := by
  rcases lociMode_cases hst hon with h | h | h
  · simp [lociModeIs, h] at hhle
  · refine ⟨lociElf, lociElf_mem, _, lociValue st "elf", rfl, ?_⟩
    have helf : lociValue st "elf" ≠ [] :=
      elf_of_no_conflict (cardsConflict_eq_none.mp hconflict).2.1 hon
        (by simpa [lociModeIs] using h)
    have happlies : cardsParamApplies .loci (st .loci) lociElf.1 = true := by
      have hmode : lociParamMode .loci lociElf.1 = some lociModeFw := by decide
      simp only [cardsParamApplies, hmode, beq_iff_eq]
      exact h
    have hport : ¬ (CardId.loci = .loci ∧ lociElf.1.key = cstr "port_usb") := by decide
    have hdefault : isDefault lociElf.1 (lociValue st "elf") = false := by
      have htext : (cardsParamDefault lociElf.1).text = [] := by decide
      simpa [isDefault, htext] using helf
    have henable : ¬ CardId.loci.desc.enableParam = some lociElf.2 := by rintro ⟨⟩
    have hkind : ¬ lociElf.1.kind = .bool := by rintro ⟨⟩
    have hgiven : lociValue st "elf" ≠ [] ∧ (!isDefault lociElf.1 (lociValue st "elf")) = true :=
      ⟨helf, by rw [hdefault]; rfl⟩
    rw [paramGiven, happlies, if_neg (by decide), if_neg hport, if_neg henable, if_neg hkind]
    exact if_pos hgiven
  · refine ⟨lociPortUsb, lociPortUsb_mem, _, lociValue st "port_usb", rfl, ?_⟩
    obtain ⟨hport, -⟩ := hports.usb hon (by simpa [lociModeIs] using h)
    have happlies : cardsParamApplies .loci (st .loci) lociPortUsb.1 = true := by
      have hmode : lociParamMode .loci lociPortUsb.1 = some lociModeHw := by decide
      simp only [cardsParamApplies, hmode, beq_iff_eq]
      exact h
    have hkey : CardId.loci = .loci ∧ lociPortUsb.1.key = cstr "port_usb" := by decide
    rw [paramGiven, happlies, if_neg (by decide), if_pos hkey]
    exact if_pos hport

/-- Every card but the fixed ones has an option that enables it. -/
theorem enableCli_isSome {i : CardId} (hfixed : i.desc.fixed = false) :
    i.desc.enableCli.isSome = true := by
  cases i <;> first | rfl | cases hfixed

theorem enableParam_mem {i : CardId} {k : Nat} (hk : i.desc.enableParam = some k) :
    i ≠ .loci ∧ ∃ p ∈ i.desc.params.zipIdx, p.2 = k ∧ p.1.cli = i.desc.enableCli := by
  have hall : ∀ i ∈ cardsList, ∀ k ∈ i.desc.enableParam,
      i ≠ .loci ∧ ∃ p ∈ i.desc.params.zipIdx, p.2 = k ∧ p.1.cli = i.desc.enableCli := by
    decide
  exact hall i (mem_cardsList i) k hk

/-- The card has a flag before the options of its parameters. -/
def enableFlagGiven (st : CardsState) (i : CardId) : Bool :=
  i.desc.enableParam.isNone && (i != .loci || lociHle st)

theorem runs_enableFlag {st : CardsState} {i : CardId} {cli : CStr}
    (hcli : i.desc.enableCli = some cli) (hfixed : i.desc.fixed = false) {s : CardsState}
    (halone : AloneIn s i) :
    Runs cardsCliStep (if enableFlagGiven st i then [cli] else []) s
      (update s i { s i with on := (s i).on || enableFlagGiven st i }) := by
  by_cases h : enableFlagGiven st i = true
  · have hparam := h
    rw [enableFlagGiven, Bool.and_eq_true, Option.isNone_iff_eq_none] at hparam
    have hflag := enableFlag hcli hparam.1
    have hruns := runs_flag hflag.name hflag.bare hflag.card hflag.takes s
    rw [applyOption_enable hcli hparam.1 halone hfixed] at hruns
    simpa [h] using hruns
  · rw [Bool.not_eq_true] at h
    have hnil : Runs cardsCliStep [] s s := .nil s
    simpa [h] using hnil

theorem runs_params (host : CardsHost) (st : CardsState) {i : CardId}
    (hfixed : i.desc.fixed = false) {s : CardsState} (halone : AloneIn s i)
    {l : List (CardParam × Nat)} (hl : ∀ p ∈ l, p ∈ i.desc.params.zipIdx) (c : CardChoice) :
    Runs cardsCliStep (l.flatMap (cardParamArgs host st i)) (update s i c)
      (update s i (l.foldl (CardChoice.given host st i) c)) := by
  induction l generalizing c with
  | nil => exact .nil _
  | cons p l ih =>
    exact (runs_cardParamArgs host st (hl p (by simp)) hfixed halone c).append
      (ih (fun q hq => hl q (by simp [hq])) _)

/-- Reading back the options of an active card. -/
theorem runs_cardArgs {host : CardsHost} {st : CardsState} (hst : st.WellFormed)
    (hports : PortsGiven host st) (hconflict : cardsConflict host st = none) {i : CardId}
    (hon : (st i).on = true) (hfixed : i.desc.fixed = false) {s : CardsState} (halone : AloneIn s i)
    (hvalue : (s i).value = cardDefaults i) :
    ∃ c, Runs cardsCliStep (cardArgs host st i) s (update s i c) ∧ CardBack host st i c := by
  obtain ⟨cli, hcli⟩ := Option.isSome_iff_exists.mp (enableCli_isSome hfixed)
  have hparams := runs_params host st hfixed halone (l := i.desc.params.zipIdx) (fun _ h => h)
    { s i with on := (s i).on || enableFlagGiven st i }
  refine ⟨i.desc.params.zipIdx.foldl (CardChoice.given host st i)
    { s i with on := (s i).on || enableFlagGiven st i }, ?_, ?_⟩
  · rw [cardArgs, hcli]
    simp only [hon, hfixed]
    exact (runs_enableFlag hcli hfixed halone).append hparams
  refine ⟨?_, ?_, ?_⟩
  · cases hparam : i.desc.enableParam with
    | some k =>
      obtain ⟨hloci, p, hp, rfl, hpcli⟩ := enableParam_mem hparam
      have happlies : cardsParamApplies i (st i) p.1 = true := by
        simp [cardsParamApplies, lociParamMode, hloci]
      have hgiven : paramGiven host st i p = some ((st i).value p.2).text := by
        simp [paramGiven, happlies, hloci, hparam]
      exact CardChoice.foldl_given_enable hp (hpcli.trans hcli) hgiven (.inr hcli) _
    | none =>
      by_cases hflag : enableFlagGiven st i = true
      · exact CardChoice.foldl_given_on (by simp [hflag])
      · obtain ⟨hloci, hhle⟩ : i = .loci ∧ lociModeIs st lociModeHle = false := by
          simp only [enableFlagGiven, hparam, Option.isNone_none, Bool.true_and, Bool.or_eq_true,
            bne_iff_ne, not_or, not_not, Bool.not_eq_true] at hflag
          obtain ⟨rfl, hhle⟩ := hflag
          rw [lociHle, hon, Bool.true_and] at hhle
          exact ⟨rfl, hhle⟩
        subst hloci
        obtain ⟨p, hp, cli', v, hpcli, hgiven⟩ := lociOption_given hst hports hconflict hon hhle
        exact CardChoice.foldl_given_enable hp hpcli hgiven (.inl rfl) _
  · intro p hp hmode
    rw [CardChoice.foldl_given_value hp (List.nodup_zipIdx_map_snd _) hmode]
    cases hpcli : p.1.cli with
    | none => simp [CardChoice.given, hpcli, hvalue, cardDefaults_of_mem hp]
    | some cli' =>
      cases hgiven : paramGiven host st i p with
      | none => simp [CardChoice.given, hpcli, hgiven, hvalue, cardDefaults_of_mem hp]
      | some v => simp [CardChoice.given, hpcli, hgiven, CardChoice.after_value_self _ hmode]
  · rintro rfl
    apply CardChoice.foldl_given_mode fun _ h => h
    cases hhle : lociModeIs st lociModeHle with
    | true =>
      refine .inl ⟨rfl, ?_⟩
      have hdefault : (cardDefaults .loci lociModePlace).text = lociModeHle := by decide
      rw [hvalue]
      apply CardValue.ext
      rw [hdefault]
      exact (beq_iff_eq.mp hhle).symm
    | false =>
      obtain ⟨p, hp, cli', v, hpcli, hgiven⟩ := lociOption_given hst hports hconflict hon hhle
      exact .inr ⟨rfl, .inr ⟨p, hp, by simp [hpcli], by simp [hgiven]⟩⟩

/-- A parameter left out of the options has its default value. -/
theorem option_default {i : CardId} {p : CardParam × Nat} (hp : p ∈ i.desc.params.zipIdx)
    {cli : CStr} (hcli : p.1.cli = some cli) (henable : i.desc.enableParam ≠ some p.2) :
    (p.1.kind = .bool ∧ (cardsParamDefault p.1).text = cstr "non") ∨ p.1.kind = .hex ∨
      (p.1.kind ≠ .bool ∧ (cardsParamDefault p.1).text = []) := by
  have hall : ∀ i ∈ cardsList, ∀ p ∈ i.desc.params.zipIdx, p.1.cli.isSome →
      i.desc.enableParam ≠ some p.2 →
      (p.1.kind = .bool ∧ (cardsParamDefault p.1).text = cstr "non") ∨ p.1.kind = .hex ∨
        (p.1.kind ≠ .bool ∧ (cardsParamDefault p.1).text = []) := by
    decide
  exact hall i (mem_cardsList i) p hp (by simp [hcli]) henable

theorem eq_lociPortUsb {p : CardParam × Nat} (hp : p ∈ CardId.loci.desc.params.zipIdx)
    (hkey : p.1.key = cstr "port_usb") : p = lociPortUsb := by
  have hall : ∀ p ∈ CardId.loci.desc.params.zipIdx, p.1.key = cstr "port_usb" →
      p = lociPortUsb := by decide
  exact hall p hp hkey

/-- A parameter with an option comes back with its value. -/
theorem CardBack.restored {host : CardsHost} {st : CardsState} {i : CardId} {c : CardChoice}
    (h : CardBack host st i c) (hst : st.WellFormed) (hports : PortsGiven host st)
    (hon : (st i).on = true) {p : CardParam × Nat} (hp : p ∈ i.desc.params.zipIdx) {cli : CStr}
    (hcli : p.1.cli = some cli) (happlies : cardsParamApplies i (st i) p.1 = true) :
    c.value p.2 = (st i).value p.2 := by
  have hvalid := hst.valid i hon p hp
  rw [h.value p hp (notMode_of_cli hp hcli), hcli, Option.bind_some, paramGiven, happlies,
    if_neg (by decide)]
  split_ifs with hport henab hbool houi hgiven
  · obtain ⟨rfl, hkey⟩ := hport
    obtain rfl := eq_lociPortUsb hp hkey
    have hmode : lociParamMode .loci lociPortUsb.1 = some lociModeHw := by decide
    simp only [cardsParamApplies, hmode] at happlies
    have hne : ((st .loci).value lociPortUsb.2).text ≠ [] := (hports.usb hon happlies).1
    rw [lociHwPort, if_pos hne]
    exact CardValue.ofText_text _
  · exact CardValue.ofText_text _
  · exact CardValue.ofText_text _
  · rcases option_default hp hcli henab with ⟨-, hdefault⟩ | hkind | ⟨hkind, -⟩
    · simp only [CardParam.Valid, hbool] at hvalid
      apply CardValue.ext
      rw [hvalid.resolve_left houi]
      exact hdefault
    · rw [hbool] at hkind
      cases hkind
    · exact absurd hbool hkind
  · exact CardValue.ofText_text _
  · have hdefault : ((st i).value p.2).text = (cardsParamDefault p.1).text := by
      by_cases hnil : ((st i).value p.2).text = []
      · rcases option_default hp hcli henab with ⟨hkind, -⟩ | hkind | ⟨-, hdefault⟩
        · exact absurd hkind hbool
        · simp only [CardParam.Valid, hkind] at hvalid
          exact absurd hnil hvalid.1
        · rw [hnil, hdefault]
      · simpa [hnil, isDefault] using hgiven
    exact (CardValue.ext hdefault).symm

/-! ## All cards -/

/-- Cards turned on only as the state to come back has them, the ACIA also for LOCI's modem. -/
def OnAsIn (st s : CardsState) : Prop :=
  ∀ j, (s j).on = true →
    j.desc.fixed = true ∨ (st j).on = true ∨ (j = .acia ∧ lociModemOn st = true)

/-- Cards of a group are neither fixed nor the ACIA. -/
theorem sameGroup_card {i j : CardId} (h : sameGroup i j = true) :
    j.desc.fixed = false ∧ j ≠ .acia := by
  have hall : ∀ i ∈ cardsList, ∀ j ∈ cardsList, sameGroup i j = true →
      j.desc.fixed = false ∧ j ≠ .acia := by
    decide
  exact hall i (mem_cardsList i) j (mem_cardsList j) h

theorem OnAsIn.alone {st s : CardsState} (h : OnAsIn st s) (hst : st.WellFormed) {i : CardId}
    (hon : (st i).on = true) : AloneIn s i := by
  intro j hj hgroup
  obtain ⟨hfixed, hacia⟩ := sameGroup_card hgroup
  by_contra hjon
  rw [Bool.not_eq_false] at hjon
  rcases h j hjon with hf | hst' | ⟨rfl, -⟩
  · rw [hfixed] at hf
    cases hf
  · exact hj (hst.group i j hon hst' hgroup).symm
  · exact hacia rfl

/-- The card is on and its options are among those of the command line. -/
def HasOptions (st : CardsState) (i : CardId) : Prop := (st i).on = true ∧ i.desc.fixed = false

/-- Reading back the options of all cards. -/
theorem runs_cards {host : CardsHost} {st : CardsState} (hst : st.WellFormed)
    (hports : PortsGiven host st) (hconflict : cardsConflict host st = none) {l : List CardId}
    (hnodup : l.Nodup) {s : CardsState} (hon : OnAsIn st s)
    (hvalue : ∀ j ∈ l, (s j).value = cardDefaults j) :
    ∃ s', Runs cardsCliStep (l.flatMap (cardArgs host st)) s s' ∧ OnAsIn st s' ∧
      (∀ j ∈ l, HasOptions st j → CardBack host st j (s' j)) ∧
      ∀ j, ¬ (j ∈ l ∧ HasOptions st j) → s' j = s j := by
  induction l generalizing s with
  | nil => exact ⟨s, .nil s, hon, by simp, fun _ _ => rfl⟩
  | cons i l ih =>
    obtain ⟨hi, hnodup⟩ := List.nodup_cons.mp hnodup
    by_cases hopts : HasOptions st i
    · obtain ⟨c, hrun, hback⟩ := runs_cardArgs hst hports hconflict hopts.1 hopts.2
        (hon.alone hst hopts.1) (hvalue i (by simp))
      have hon' : OnAsIn st (update s i c) := by
        intro j hj
        by_cases hji : j = i
        · exact .inr (.inl (hji ▸ hopts.1))
        · rw [update_of_ne hji] at hj
          exact hon j hj
      obtain ⟨s', hruns, hons, hbacks, hkept⟩ := ih hnodup hon' fun j hj => by
        have hji : j ≠ i := by
          rintro rfl
          exact hi hj
        rw [update_of_ne hji]
        exact hvalue j (by simp [hj])
      refine ⟨s', hrun.append hruns, hons, fun j hj hopts' => ?_, fun j hj => ?_⟩
      · rcases List.mem_cons.mp hj with rfl | hj
        · rw [hkept j fun h => hi h.1, update_self]
          exact hback
        · exact hbacks j hj hopts'
      · rw [hkept j fun h => hj ⟨by simp [h.1], h.2⟩, update_of_ne]
        rintro rfl
        exact hj ⟨by simp, hopts⟩
    · have hargs : cardArgs host st i = [] := by
        simp only [cardArgs]
        split
        · rfl
        · rw [if_pos]
          simp only [HasOptions, not_and, Bool.not_eq_false] at hopts
          simp only [Bool.or_eq_true, Bool.not_eq_true']
          by_cases h : (st i).on = true
          · exact .inr (hopts h)
          · exact .inl (by simpa using h)
      obtain ⟨s', hruns, hons, hbacks, hkept⟩ := ih hnodup hon fun j hj => hvalue j (by simp [hj])
      rw [List.flatMap_cons, hargs, List.nil_append]
      refine ⟨s', hruns, hons, fun j hj hopts' => ?_, fun j hj => hkept j fun h =>
        hj ⟨by simp [h.1], h.2⟩⟩
      rcases List.mem_cons.mp hj with rfl | hj
      · exact absurd hopts' hopts
      · exact hbacks j hj hopts'

/-! ## The original command line -/

/-- An argument of the command line: one by itself, as a flag, an option with its value attached or
a file, or an option with its value in the next argument. -/
inductive CliArg
  | word (a : CStr)
  | pair (a v : CStr)

namespace CliArg

/-- The arguments as the shell passes them. -/
def tokens : CliArg → List CStr
  | word a => [a]
  | pair a v => [a, v]

/-- The option. -/
def text : CliArg → CStr
  | word a => a
  | pair a _ => a

/-- Neither a card option, nor one that follows its card, nor the ROM. -/
def Plain (a : CStr) : Prop :=
  isCardOption (optionName a) = false ∧ extraOwner (optionName a) = none ∧ optionName a ≠ cstr "-r"

instance (a : CStr) : Decidable (Plain a) := inferInstanceAs (Decidable (_ ∧ _ ∧ _))

/-- A card option, or one that follows its card. -/
def Known (a : CStr) : Prop :=
  isCardOption (optionName a) = true ∨ (extraOwner (optionName a)).isSome = true

instance (a : CStr) : Decidable (Known a) := inferInstanceAs (Decidable (_ ∨ _))

/-- An argument of a command line the emulator has been started with: the options of the cards have
the values they take. The ROM is in an argument of its own, and no value is spelled as an option of
the cards. -/
def WellFormed : CliArg → Prop
  | word a =>
    (Known a → (splitOpt a).2.isSome = true ∨ optionTakesArg (optionName a) = false) ∧
      optionName a ≠ cstr "-r"
  | pair a v =>
    (splitOpt a).2 = none ∧ (Known a → optionTakesArg (optionName a) = true) ∧
      (¬ Known a → Plain v)

instance : (arg : CliArg) → Decidable arg.WellFormed
  | word _ => inferInstanceAs (Decidable ((_ → _ ∨ _) ∧ _))
  | pair _ _ => inferInstanceAs (Decidable (_ ∧ (_ → _) ∧ (_ → _)))

/-- What is left of an argument: nothing of a card option, an option that follows its card if the
card is on, the ROM unless LOCI's menu replaces it, and all the rest. -/
def kept (st : CardsState) (arg : CliArg) : List CStr :=
  if isCardOption (optionName arg.text) then []
  else
    match extraOwner (optionName arg.text) with
    | some owner => if extraKept st owner then arg.tokens else []
    | none =>
      match arg with
      | word a => [a]
      | pair a v =>
        if optionName a = cstr "-r" then
          if lociMenu st then [] else [cstr "-r", restartRom st v]
        else [a, v]

end CliArg

namespace CliArg

theorem keepStep_plain (st : CardsState) {a : CStr} (h : Plain a) (av : List CStr)
    (next : Option CStr) : cardsKeepStep st av a next = (av ++ [a], false) := by
  obtain ⟨hcard, howner, hrom⟩ := h
  cases next <;> simp [cardsKeepStep, hcard, howner, hrom]

theorem not_known {a : CStr} :
    ¬ Known a ↔ isCardOption (optionName a) = false ∧ extraOwner (optionName a) = none := by
  simp only [Known, not_or, Bool.not_eq_true, Option.isSome_eq_false_iff,
    Option.isNone_iff_eq_none]

theorem Plain.not_known {a : CStr} (h : Plain a) : ¬ Known a := CliArg.not_known.mpr ⟨h.1, h.2.1⟩

/-- An argument that is not of the cards changes nothing. -/
theorem runs_unknown {a : CStr} (h : ¬ Known a) (s : CardsState) :
    Runs cardsCliStep [a] s s := by
  obtain ⟨hcard, howner⟩ := not_known.mp h
  exact .single fun next => by simp [cardsCliStep, hcard, howner]

/-- An option of the cards by itself takes nothing. -/
theorem takes_word {a : CStr} (h : (CliArg.word a).WellFormed) (hknown : Known a)
    (next : Option CStr) :
    ((splitOpt a).2.isNone && optionTakesArg (optionName a) && next.isSome) = false := by
  rcases h.1 hknown with h | h
  · simp [Option.isNone_eq_false_iff.mpr h]
  · simp [h]

/-- One with its value in the next argument takes it. -/
theorem takes_pair {a v : CStr} (h : (CliArg.pair a v).WellFormed) (hknown : Known a) :
    ((splitOpt a).2.isNone && optionTakesArg (optionName a) && (some v).isSome) = true := by
  simp [h.1, h.2.1 hknown]

theorem plain_of_not_known {a : CStr} (h : ¬ Known a) (hrom : optionName a ≠ cstr "-r") :
    Plain a := by
  obtain ⟨hcard, howner⟩ := not_known.mp h
  exact ⟨hcard, howner, hrom⟩

/-- The traversal that keeps leaves what is kept of an argument. -/
theorem runs_keep (st : CardsState) {arg : CliArg} (h : arg.WellFormed) (av : List CStr) :
    Runs (cardsKeepStep st) arg.tokens av (av ++ arg.kept st) := by
  cases arg with
  | word a =>
    apply Runs.single
    intro next
    by_cases hknown : Known a
    · have htakes := takes_word h hknown next
      by_cases hcard : isCardOption (optionName a) = true
      · simp only [cardsKeepStep, kept, text, hcard, htakes, if_true, List.append_nil]
      · obtain ⟨owner, howner⟩ := Option.isSome_iff_exists.mp (hknown.resolve_left hcard)
        simp only [cardsKeepStep, kept, text, hcard, howner, htakes, tokens]
        by_cases hkept : extraKept st owner = true <;> simp [hkept]
    · have hplain := plain_of_not_known hknown h.2
      rw [keepStep_plain st hplain]
      simp [kept, text, hplain.1, hplain.2.1]
  | pair a v =>
    by_cases hknown : Known a
    · apply Runs.pair
      have htakes := takes_pair h hknown
      by_cases hcard : isCardOption (optionName a) = true
      · simp only [cardsKeepStep, kept, text, hcard, htakes, if_true, List.append_nil]
      · obtain ⟨owner, howner⟩ := Option.isSome_iff_exists.mp (hknown.resolve_left hcard)
        simp only [cardsKeepStep, kept, text, hcard, howner, htakes, tokens]
        by_cases hkept : extraKept st owner = true <;> simp [hkept]
    · by_cases hrom : optionName a = cstr "-r"
      · apply Runs.pair
        rw [not_known, hrom] at hknown
        simp only [cardsKeepStep, kept, text, hrom, hknown.1, hknown.2]
        by_cases hmenu : lociMenu st = true <;> simp [hmenu]
      · have hplain := plain_of_not_known hknown hrom
        have hrun := (Runs.single fun next => keepStep_plain st hplain av next).append
          (Runs.single fun next => keepStep_plain st (h.2.2 hknown) (av ++ [a]) next)
        simpa [kept, text, tokens, hplain.1, hplain.2.1, hrom] using hrun

/-- The traversal that keeps goes on from argument to argument. -/
theorem runs_keep_all (st : CardsState) {args : List CliArg} (h : ∀ arg ∈ args, arg.WellFormed)
    (av : List CStr) :
    Runs (cardsKeepStep st) (args.flatMap tokens) av (av ++ args.flatMap (kept st)) := by
  induction args generalizing av with
  | nil => simpa using Runs.nil av
  | cons arg args ih =>
    have hrun := (runs_keep st (h arg (by simp)) av).append (ih (fun a ha => h a (by simp [ha])) _)
    simpa [List.append_assoc] using hrun

/-- Before any card: default values, with the cards on that a kept option turned on. -/
structure Started (st s : CardsState) : Prop where
  value : ∀ j, (s j).value = cardDefaults j
  fixed : ∀ j, j.desc.fixed = true → (s j).on = true
  on : OnAsIn st s

theorem started_defaults (st : CardsState) : Started st cardsStateDefaults :=
  ⟨fun _ => rfl, fun _ h => h, fun _ h => .inl h⟩

/-- An option that follows its card turns it on. -/
theorem Started.setOn {st s : CardsState} (h : Started st s) {owner : CardId}
    (howner : owner.desc.fixed = false) (hkept : extraKept st owner = true) :
    Started st (cardsSetOn s owner true) := by
  have hon : (st owner).on = true ∨ (owner = .acia ∧ lociModemOn st = true) := by
    simpa [extraKept] using hkept
  have happly : ∀ j, (cardsSetOn s owner true j).value = (s j).value ∧
      ((cardsSetOn s owner true j).on = true → j = owner ∨ (s j).on = true) ∧
      (j.desc.fixed = true → (cardsSetOn s owner true j).on = (s j).on) := by
    intro j
    rw [cardsSetOn, if_neg (by simp [howner])]
    by_cases hj : j = owner
    · subst hj
      simp [howner]
    · simp only [update_of_ne hj]
      split_ifs with hoff
      · simp only [Bool.and_eq_true] at hoff
        simp [(sameGroup_card hoff.2).1]
      · exact ⟨rfl, .inr, fun _ => rfl⟩
  refine ⟨fun j => (happly j).1.trans (h.value j),
    fun j hf => ((happly j).2.2 hf).trans (h.fixed j hf), fun j hj => ?_⟩
  rcases (happly j).2.1 hj with rfl | hj
  · exact .inr hon
  · exact h.on j hj

theorem extraOwner_fixed {a : CStr} {owner : CardId} (h : extraOwner a = some owner) :
    owner.desc.fixed = false := by
  simp only [extraOwner] at h
  split_ifs at h <;> cases h <;> rfl

/-- Reading what is kept of an argument. -/
theorem runs_read {st : CardsState} {arg : CliArg} (h : arg.WellFormed) {s : CardsState}
    (hs : Started st s) :
    ∃ s', Runs cardsCliStep (arg.kept st) s s' ∧ Started st s' := by
  by_cases hcard : isCardOption (optionName arg.text) = true
  · exact ⟨s, by simpa [kept, hcard] using Runs.nil s, hs⟩
  cases howner : extraOwner (optionName arg.text) with
  | some owner =>
    by_cases hkept : extraKept st owner = true
    · refine ⟨cardsSetOn s owner true, ?_, hs.setOn (extraOwner_fixed howner) hkept⟩
      have hknown : Known arg.text := .inr (by simp [howner])
      simp only [kept, hcard, howner, hkept]
      cases arg with
      | word a =>
        refine .single fun next => ?_
        have htakes := takes_word h hknown next
        simp only [text] at hcard howner
        simp only [cardsCliStep, hcard, howner, htakes]
        rfl
      | pair a v =>
        apply Runs.pair
        have htakes := takes_pair h hknown
        simp only [text] at hcard howner
        simp only [cardsCliStep, hcard, howner, htakes]
        rfl
    · exact ⟨s, by simpa [kept, hcard, howner, hkept] using Runs.nil s, hs⟩
  | none =>
    refine ⟨s, ?_, hs⟩
    have hknown : ¬ Known arg.text := not_known.mpr ⟨by simpa using hcard, howner⟩
    cases arg with
    | word a =>
      simp only [text] at hcard howner
      simpa [kept, text, hcard, howner] using runs_unknown hknown s
    | pair a v =>
      have hv := (h.2.2 hknown).not_known
      simp only [text] at hcard howner hknown
      simp only [kept, text, hcard, howner]
      by_cases hrom : optionName a = cstr "-r"
      · by_cases hmenu : lociMenu st = true
        · simpa [hrom, hmenu] using Runs.nil s
        · have hr : ¬ Known (cstr "-r") := by decide
          have hbasic : ¬ Known basicRom := by decide
          have hnew : ¬ Known (restartRom st v) := by
            simp only [restartRom]
            split_ifs
            · exact hbasic
            · exact hv
          simpa [hrom, hmenu] using (runs_unknown hr s).append (runs_unknown hnew s)
      · simpa [hrom] using (runs_unknown hknown s).append (runs_unknown hv s)

/-- Reading what is kept of the command line. -/
theorem runs_read_all {st : CardsState} {args : List CliArg} (h : ∀ arg ∈ args, arg.WellFormed)
    {s : CardsState} (hs : Started st s) :
    ∃ s', Runs cardsCliStep (args.flatMap (kept st)) s s' ∧ Started st s' := by
  induction args generalizing s with
  | nil => exact ⟨s, .nil s, hs⟩
  | cons arg args ih =>
    obtain ⟨s', hrun, hs'⟩ := runs_read (h arg (by simp)) hs
    obtain ⟨s'', hruns, hs''⟩ := ih (fun a ha => h a (by simp [ha])) hs'
    exact ⟨s'', hrun.append hruns, hs''⟩

end CliArg

/-! ## The cards read -/

/-- The cards after the options of the command line, before those of LOCI's modem. -/
structure CardsRead (host : CardsHost) (st s : CardsState) : Prop where
  back : ∀ j, HasOptions st j → CardBack host st j (s j)
  value : ∀ j, ¬ HasOptions st j → (s j).value = cardDefaults j
  fixed : ∀ j, j.desc.fixed = true → (s j).on = true
  on : OnAsIn st s

namespace CardsRead

variable {host : CardsHost} {st s : CardsState}

/-- Every card is on as it was, but for the ACIA of LOCI's modem. -/
theorem on_eq (h : CardsRead host st s) (hst : st.WellFormed) {j : CardId}
    (hj : j = .acia → lociModemOn st = true → (st .acia).on = true) : (s j).on = (st j).on := by
  cases hf : j.desc.fixed with
  | true => rw [h.fixed j hf, hst.fixed j hf]
  | false =>
    cases hon : (st j).on with
    | true => exact (h.back j ⟨hon, hf⟩).on
    | false =>
      by_contra hs
      rw [Bool.not_eq_false] at hs
      rcases h.on j hs with h | h | ⟨rfl, hmodem⟩
      · rw [hf] at h
        cases h
      · rw [hon] at h
        cases h
      · rw [hj rfl hmodem] at hon
        cases hon

/-- LOCI is on as it was. -/
theorem loci_on (h : CardsRead host st s) (hst : st.WellFormed) : (s .loci).on = (st .loci).on :=
  h.on_eq hst nofun

theorem loci_back (h : CardsRead host st s) (hon : (st .loci).on = true) :
    CardBack host st .loci (s .loci) := h.back .loci ⟨hon, rfl⟩

theorem lociHle_eq (h : CardsRead host st s) (hst : st.WellFormed) : lociHle s = lociHle st := by
  rw [lociHle, lociHle, h.loci_on hst]
  cases hon : (st .loci).on with
  | false => rfl
  | true =>
    have hmode : lociValue s "mode" = lociValue st "mode" :=
      congrArg CardValue.text ((h.loci_back hon).mode rfl)
    simp only [lociModeIs, hmode]

/-- A parameter without an option has its default value. -/
theorem value_default (h : CardsRead host st s) {i : CardId} {p : CardParam × Nat}
    (hp : p ∈ i.desc.params.zipIdx) (hmode : NotMode i p.2) (hcli : p.1.cli = none) :
    (s i).value p.2 = cardsParamDefault p.1 := by
  by_cases hopts : HasOptions st i
  · rw [(h.back i hopts).value p hp hmode, hcli]
    rfl
  · rw [h.value i hopts, cardDefaults_of_mem hp]

/-- The port of the LOCI-USB is not one to leave to the detection. -/
theorem port_usb (h : CardsRead host st s) (hst : st.WellFormed) (hports : PortsGiven host st) :
    lociValue s "port_usb" = [] ∨ host.lociUsbDetect ≠ some (lociValue s "port_usb") := by
  have hdefault : (cardsParamDefault lociPortUsb.1).text = [] := by decide
  have hvalue : lociValue s "port_usb" = ((s .loci).value lociPortUsb.2).text := rfl
  have hmode : lociParamMode .loci lociPortUsb.1 = some lociModeHw := by decide
  cases hon : (st .loci).on with
  | false =>
    left
    rw [hvalue, h.value .loci (by simp [HasOptions, hon]), cardDefaults_of_mem lociPortUsb_mem,
      hdefault]
  | true =>
    have hback := h.loci_back hon
    by_cases hhw : lociModeIs st lociModeHw = true
    · right
      have happlies : cardsParamApplies .loci (st .loci) lociPortUsb.1 = true := by
        simp only [cardsParamApplies, hmode]
        exact hhw
      rw [hvalue, hback.restored hst hports hon lociPortUsb_mem rfl happlies]
      exact (hports.usb hon hhw).2
    · left
      have happlies : cardsParamApplies .loci (st .loci) lociPortUsb.1 = false := by
        simp only [cardsParamApplies, hmode]
        exact Bool.eq_false_iff.mpr hhw
      rw [hvalue, hback.value _ lociPortUsb_mem (notMode_of_cli lociPortUsb_mem rfl), paramGiven,
        happlies, if_pos (by decide), ← hdefault]
      rfl

end CardsRead

/-- A port that the detection does not find stays. -/
theorem lociHwNormalize_eq {host : CardsHost} {s : CardsState}
    (h : lociValue s "port_usb" = [] ∨ host.lociUsbDetect ≠ some (lociValue s "port_usb")) :
    lociHwNormalize host s = s := by
  rw [lociHwNormalize, if_neg]
  rintro ⟨hne, hdetect⟩
  rcases h with h | h
  · exact hne h
  · exact h hdetect

/-! ## What comes back -/

/-- A parameter that the new process reads back. LOCI's menu has no option: a running machine tells
it by its ROM. The port of LOCI's modem goes with a real modem. -/
def ComesBack (st : CardsState) (i : CardId) (p : CardParam) : Prop :=
  i = .loci → p.key ≠ cstr "menu" ∧ (p.key = cstr "port" → lociValue st "modem" = lociModemReal)

/-- The same cards are on, and the parameters that apply to them have the same values. -/
def CardsAgree (st s : CardsState) : Prop :=
  ∀ i, (s i).on = (st i).on ∧
    ((st i).on = true → ∀ p ∈ i.desc.params.zipIdx, cardsParamApplies i (st i) p.1 = true →
      ComesBack st i p.1 → (s i).value p.2 = (st i).value p.2)

/-- The parameters of LOCI without an option. -/
theorem cli_cases {i : CardId} {p : CardParam × Nat} (hp : p ∈ i.desc.params.zipIdx) :
    (∃ cli, p.1.cli = some cli) ∨ i = .loci ∧ p.1.cli = none ∧
      (p.2 = lociModePlace ∨ p.1.key = cstr "menu" ∨
        p.2 = lociParam "modem" ∧ p.1.key = cstr "modem" ∨
        p.2 = lociParam "port" ∧ p.1.key = cstr "port") := by
  have hall : ∀ i ∈ cardsList, ∀ p ∈ i.desc.params.zipIdx, p.1.cli.isSome = true ∨
      i = .loci ∧ p.1.cli = none ∧ (p.2 = lociModePlace ∨ p.1.key = cstr "menu" ∨
        p.2 = lociParam "modem" ∧ p.1.key = cstr "modem" ∨
        p.2 = lociParam "port" ∧ p.1.key = cstr "port") := by
    decide
  rcases hall i (mem_cardsList i) p hp with h | h
  · exact .inl (Option.isSome_iff_exists.mp h)
  · exact .inr h

/-! ## LOCI's modem -/

/-- The transport of the ACIA. -/
def aciaTransport : CardParam × Nat :=
  (⟨cstr "transport", .text, some (cstr "--serial"), cstr "loopback"⟩, 0)

theorem aciaTransport_mem : aciaTransport ∈ CardId.acia.desc.params.zipIdx := by decide

/-- LOCI's modem is one of the three. -/
theorem lociModem_cases {st : CardsState} (hst : st.WellFormed) (hon : (st .loci).on = true) :
    lociValue st "modem" = lociModemNone ∨ lociValue st "modem" = lociModemSim ∨
      lociValue st "modem" = lociModemReal := by
  have hmem : ((⟨cstr "modem", .choice, none,
      cardChoices [lociModemNone, lociModemSim, lociModemReal]⟩ : CardParam), lociParam "modem") ∈
        CardId.loci.desc.params.zipIdx := by decide
  have hchoices : choiceValues ⟨cstr "modem", .choice, none,
      cardChoices [lociModemNone, lociModemSim, lociModemReal]⟩ =
        [lociModemNone, lociModemSim, lociModemReal] := by decide
  have hvalid := hst.valid .loci hon _ hmem
  simp only [CardParam.Valid, hchoices, List.mem_cons, List.not_mem_nil, or_false] at hvalid
  exact hvalid

/-- The ACIA with nothing but the transport `spec`, as LOCI's modem is started. -/
def withModem (s : CardsState) (spec : CStr) : CardsState :=
  update s .acia { on := true, value := update (cardDefaults .acia) 0 (.ofText spec) }

theorem runs_modem {s : CardsState} (hvalue : (s .acia).value = cardDefaults .acia) (spec : CStr) :
    Runs cardsCliStep [cstr "--serial", spec] s (withModem s spec) := by
  have halone : AloneIn s .acia := by
    intro j _ hgroup
    have hnone : sameGroup .acia j = false := rfl
    rw [hnone] at hgroup
    cases hgroup
  have hcli : aciaTransport.1.cli = some (cstr "--serial") := rfl
  have hkind : aciaTransport.1.kind ≠ .bool := nofun
  have hrun := runs_option aciaTransport_mem hcli hkind spec s
  rw [applyOption_param aciaTransport_mem hcli (if_neg hkind) halone rfl fun _ =>
    ⟨rfl, hkind⟩] at hrun
  have hsel : selectedMode .acia aciaTransport.1 = none := selectedMode_of_ne (by decide) _
  have hafter : (s .acia).after .acia aciaTransport (cstr "--serial") spec =
      { on := true, value := update (cardDefaults .acia) 0 (.ofText spec) } := by
    have henable : CardId.acia.desc.enableCli = some (cstr "--serial") := rfl
    simp only [CardChoice.after, hsel, henable, hvalue, Option.elim, beq_self_eq_true, Bool.or_true]
    rfl
  rwa [hafter] at hrun

/-- An ACIA started for LOCI's modem is read as that modem. -/
theorem lociModemOfAcia_withModem {host : CardsHost} {s : CardsState} (hhle : lociHle s = true)
    {spec : CStr} (hfits : spec.length < cardValueMax) :
    lociModemOfAcia host (withModem s spec) = lociModemOfSpec host spec := by
  rw [lociHle, Bool.and_eq_true] at hhle
  have hloci : withModem s spec .loci = s .loci := update_of_ne (by decide) _ _
  have hacia : withModem s spec .acia =
      { on := true, value := update (cardDefaults .acia) 0 (.ofText spec) } := update_self _ _ _
  have hmode : lociModeIs (withModem s spec) lociModeHle = true := by
    rw [← hhle.2]
    simp only [lociModeIs, lociValue, hloci]
  have hothers : (CardId.acia.desc.params.zipIdx.any fun p =>
      let v := ((withModem s spec .acia).value p.2).text
      p.2 ≠ 0 && !(CardId.acia.desc.ioParam == some p.2 && strcaseEq v (cstr "0380")) &&
        !isDefault p.1 v) = false := by
    rw [List.any_eq_false]
    intro p hp
    by_cases hzero : p.2 = 0
    · simp [hzero]
    · have hdefault : isDefault p.1 ((withModem s spec .acia).value p.2).text = true := by
        rw [hacia]
        simp only [update_of_ne hzero, cardDefaults_of_mem hp, isDefault, beq_self_eq_true]
      simp [hdefault]
  have hspec : ((withModem s spec .acia).value 0).text = spec := by
    rw [hacia]
    simp only [update_self]
    exact CardValue.text_ofText hfits
  have haciaOn : (withModem s spec .acia).on = true := by rw [hacia]
  rw [lociModemOfAcia, hloci, haciaOn, hhle.1, hmode, if_neg (by decide), hothers, hspec]
  rfl

/-- The transport of LOCI's modem in `st`, none without a modem. -/
def lociSpec (st : CardsState) : Option CStr :=
  if lociValue st "modem" = lociModemSim then some (cstr "picowifi")
  else if lociValue st "modem" = lociModemReal then
    some (picowifiSerialSpec (lociValue st "port"))
  else none

theorem lociModemArgs_eq {host : CardsHost} {st : CardsState} (hports : PortsGiven host st) :
    lociModemArgs host st =
      if lociHle st && !(st .acia).on then
        (lociSpec st).elim [] fun spec => [cstr "--serial", spec]
      else [] := by
  simp only [lociModemArgs, lociSpec]
  split_ifs with hhle hsim hreal
  · rfl
  · rw [Bool.and_eq_true] at hhle
    rw [lociModemRealPort, if_pos (hports.modem hhle.1 hreal).1]
    rfl
  · rfl
  · rfl

/-- The transport says the modem and its port. -/
theorem lociModemOfSpec_lociSpec {host : CardsHost} {st : CardsState} (hports : PortsGiven host st)
    (hhle : lociHle st = true) {spec : CStr} (hspec : lociSpec st = some spec) :
    spec.length < cardValueMax ∧ ∃ port,
      lociModemOfSpec host spec = some (lociValue st "modem", port) ∧
        (lociValue st "modem" = lociModemReal → port = lociValue st "port") := by
  simp only [lociSpec] at hspec
  split_ifs at hspec with hsim hreal
  · cases hspec
    refine ⟨by decide, [], ?_, fun hreal => ?_⟩
    · rw [lociModemOfSpec, if_pos rfl, hsim]
    · rw [hsim] at hreal
      exact absurd hreal (by decide)
  · cases hspec
    obtain ⟨hport, hdetect, hfits⟩ := hports.modem hhle hreal
    refine ⟨hfits, lociValue st "port", ?_, fun _ => rfl⟩
    have hne : picowifiSerialSpec (lociValue st "port") ≠ cstr "picowifi" := by
      intro heq
      have hlen := congrArg List.length heq
      have hcom : picowifiCom.length = 17 := by decide
      have hpico : (cstr "picowifi").length = 8 := by decide
      rw [picowifiSerialSpec, List.length_append, hcom, hpico] at hlen
      omega
    have hprefix : (picowifiCom.isPrefixOf (picowifiSerialSpec (lociValue st "port")) &&
        picowifiCom.length < (picowifiSerialSpec (lociValue st "port")).length) = true := by
      rw [Bool.and_eq_true, List.isPrefixOf_iff_prefix, decide_eq_true_eq]
      refine ⟨List.prefix_append _ _, ?_⟩
      rw [picowifiSerialSpec, List.length_append]
      have := List.length_pos_iff.mpr hport
      omega
    have hdrop : (picowifiSerialSpec (lociValue st "port")).drop picowifiCom.length =
        lociValue st "port" := List.drop_left
    rw [lociModemOfSpec, if_neg hne, if_pos hprefix, hdrop]
    simp only [hdetect, if_false, hreal]

/-- The parameter of LOCI's modem. -/
theorem lociModem_param {p : CardParam × Nat} (hp : p ∈ CardId.loci.desc.params.zipIdx)
    (hkey : p.1.key = cstr "modem") : (cardsParamDefault p.1).text = lociModemNone ∧
      p.2 ≠ lociModePlace ∧ lociParamMode .loci p.1 = some lociModeHle := by
  have hall : ∀ p ∈ CardId.loci.desc.params.zipIdx, p.1.key = cstr "modem" →
      (cardsParamDefault p.1).text = lociModemNone ∧ p.2 ≠ lociModePlace ∧
        lociParamMode .loci p.1 = some lociModeHle := by
    decide
  exact hall p hp hkey

/-- The parameter of its port. -/
theorem lociPort_param {p : CardParam × Nat} (hp : p ∈ CardId.loci.desc.params.zipIdx)
    (hkey : p.1.key = cstr "port") :
    p.2 ≠ lociModePlace ∧ lociParamMode .loci p.1 = some lociModeHle := by
  have hall : ∀ p ∈ CardId.loci.desc.params.zipIdx, p.1.key = cstr "port" →
      p.2 ≠ lociModePlace ∧ lociParamMode .loci p.1 = some lociModeHle := by
    decide
  exact hall p hp hkey

/-- LOCI's options are not of its modem. -/
theorem lociOption_place {p : CardParam × Nat} (hp : p ∈ CardId.loci.desc.params.zipIdx)
    {cli : CStr} (hcli : p.1.cli = some cli) :
    p.2 ≠ lociParam "modem" ∧ p.2 ≠ lociParam "port" := by
  have hall : ∀ p ∈ CardId.loci.desc.params.zipIdx, p.1.cli.isSome = true →
      p.2 ≠ lociParam "modem" ∧ p.2 ≠ lociParam "port" := by
    decide
  exact hall p hp (by simp [hcli])

theorem lociPlaces_ne : lociParam "modem" ≠ lociModePlace ∧ lociParam "port" ≠ lociModePlace ∧
    lociParam "port" ≠ lociParam "modem" := by decide

theorem setLociModem_loci (s : CardsState) (modem port : CStr) :
    setLociModem s modem port .loci =
      { s .loci with
        value := update (update (s .loci).value (lociParam "modem") (.ofText modem))
          (lociParam "port") (.ofText port) } := by
  simp [setLociModem, setValue]

theorem setLociModem_of_ne {i : CardId} (hi : i ≠ .loci) (s : CardsState) (modem port : CStr) :
    setLociModem s modem port i = s i := by
  simp [setLociModem, setValue, hi]

theorem lociHle_of_applies {st : CardsState} {p : CardParam} (hon : (st .loci).on = true)
    (hmode : lociParamMode .loci p = some lociModeHle)
    (happlies : cardsParamApplies .loci (st .loci) p = true) : lociHle st = true := by
  simp only [cardsParamApplies, hmode] at happlies
  rw [lociHle, hon, Bool.true_and]
  exact happlies

/-! ## The command line read back -/

namespace CardsRead

variable {host : CardsHost} {st s : CardsState}

/-- A parameter of an active card that has an option. -/
theorem restored (h : CardsRead host st s) (hst : st.WellFormed) (hports : PortsGiven host st)
    {i : CardId} (hon : (st i).on = true) {p : CardParam × Nat} (hp : p ∈ i.desc.params.zipIdx)
    {cli : CStr} (hcli : p.1.cli = some cli)
    (happlies : cardsParamApplies i (st i) p.1 = true) : (s i).value p.2 = (st i).value p.2 := by
  have hfixed : i.desc.fixed = false := by
    cases i <;> first | rfl | cases hp
  exact (h.back i ⟨hon, hfixed⟩).restored hst hports hon hp hcli happlies

/-- Without an ACIA started for LOCI's modem, the modem is found as in the state to come back. -/
theorem lociModemOfAcia_eq (h : CardsRead host st s) (hst : st.WellFormed)
    (hports : PortsGiven host st) (hacia : (s .acia).on = (st .acia).on) :
    lociModemOfAcia host s = lociModemOfAcia host st := by
  cases hloci : (st .loci).on with
  | false => simp [lociModemOfAcia, h.loci_on hst, hloci]
  | true =>
    cases haciaOn : (st .acia).on with
    | false => simp [lociModemOfAcia, hacia, haciaOn]
    | true =>
      have hmode : lociModeIs s lociModeHle = lociModeIs st lociModeHle := by
        have hvalue : lociValue s "mode" = lociValue st "mode" :=
          congrArg CardValue.text ((h.loci_back hloci).mode rfl)
        simp only [lociModeIs, hvalue]
      have hvalues : ∀ p ∈ CardId.acia.desc.params.zipIdx,
          (s .acia).value p.2 = (st .acia).value p.2 := by
        intro p hp
        obtain ⟨cli, hcli⟩ := (cli_cases hp).resolve_right (by simp)
        exact h.restored hst hports haciaOn hp hcli rfl
      have hothers : (CardId.acia.desc.params.zipIdx.any fun p =>
          let v := ((s .acia).value p.2).text
          p.2 ≠ 0 && !(CardId.acia.desc.ioParam == some p.2 && strcaseEq v (cstr "0380")) &&
            !isDefault p.1 v) = CardId.acia.desc.params.zipIdx.any fun p =>
          let v := ((st .acia).value p.2).text
          p.2 ≠ 0 && !(CardId.acia.desc.ioParam == some p.2 && strcaseEq v (cstr "0380")) &&
            !isDefault p.1 v := by
        rw [Bool.eq_iff_iff, List.any_eq_true, List.any_eq_true]
        refine exists_congr fun p => and_congr_right fun hp => ?_
        rw [hvalues p hp]
      have hspec : (s .acia).value 0 = (st .acia).value 0 := hvalues _ aciaTransport_mem
      rw [lociModemOfAcia, lociModemOfAcia, h.loci_on hst, hacia, hmode, hothers, hspec]

/-- Without an ACIA started for LOCI's modem, all comes back. -/
theorem agree_plain (h : CardsRead host st s) (hst : st.WellFormed) (hports : PortsGiven host st)
    (hacia : (s .acia).on = (st .acia).on)
    (hmodem : lociHle st = true → lociValue st "modem" = lociModemNone) : CardsAgree st s := by
  intro i
  refine ⟨?_, fun hon p hp happlies hback => ?_⟩
  · by_cases hi : i = .acia
    · rw [hi, hacia]
    · exact h.on_eq hst fun heq => absurd heq hi
  rcases cli_cases hp with ⟨cli, hcli⟩ | ⟨rfl, hcli, hplace⟩
  · exact h.restored hst hports hon hp hcli happlies
  rcases hplace with hmode | hmenu | ⟨hplace, hkey⟩ | ⟨-, hkey⟩
  · rw [hmode]
    exact (h.loci_back hon).mode rfl
  · exact absurd hmenu (hback rfl).1
  · obtain ⟨hdefault, hne, hmode⟩ := lociModem_param hp hkey
    have hhle := lociHle_of_applies hon hmode happlies
    rw [h.value_default hp (fun _ => hne) hcli]
    apply CardValue.ext
    rw [hdefault, hplace]
    exact (hmodem hhle).symm
  · have hhle := lociHle_of_applies hon (lociPort_param hp hkey).2 happlies
    have hreal := (hback rfl).2 hkey
    rw [hmodem hhle] at hreal
    exact absurd hreal (by decide)

/-- With the ACIA of LOCI's modem taken for the modem, all comes back. -/
theorem agree_modem (h : CardsRead host st s) (hst : st.WellFormed) (hports : PortsGiven host st)
    (hacia : (st .acia).on = false) {modem port spec : CStr}
    (hmodem : modem = lociValue st "modem")
    (hport : modem = lociModemReal → port = lociValue st "port") (value : Nat → CardValue) :
    CardsAgree st
      (update (setLociModem (withModem s spec) modem port) .acia { on := false, value }) := by
  intro i
  by_cases hi : i = .acia
  · subst hi
    refine ⟨by rw [update_self, hacia], fun hon => ?_⟩
    rw [hacia] at hon
    cases hon
  rw [update_of_ne hi]
  have hkept : withModem s spec i = s i := update_of_ne hi _ _
  by_cases hloci : i = .loci
  · subst hloci
    rw [setLociModem_loci, hkept]
    refine ⟨h.loci_on hst, fun hon p hp happlies hback => ?_⟩
    obtain ⟨hmodemMode, hportMode, hportModem⟩ := lociPlaces_ne
    rcases cli_cases hp with ⟨cli, hcli⟩ | ⟨-, -, hplace⟩
    · obtain ⟨hm, hp'⟩ := lociOption_place hp hcli
      simp only [update_of_ne hm, update_of_ne hp']
      exact h.restored hst hports hon hp hcli happlies
    rcases hplace with hmode | hmenu | ⟨hplace, -⟩ | ⟨hplace, hkey⟩
    · rw [hmode]
      simp only [update_of_ne hmodemMode.symm, update_of_ne hportMode.symm]
      exact (h.loci_back hon).mode rfl
    · exact absurd hmenu (hback rfl).1
    · rw [hplace]
      simp only [update_of_ne hportModem.symm, update_self, hmodem]
      exact CardValue.ofText_text _
    · rw [hplace]
      simp only [update_self, hport (hmodem.trans ((hback rfl).2 hkey))]
      exact CardValue.ofText_text _
  · rw [setLociModem_of_ne hloci, hkept]
    refine ⟨h.on_eq hst fun heq => absurd heq hi, fun hon p hp happlies _ => ?_⟩
    obtain ⟨cli, hcli⟩ := (cli_cases hp).resolve_right fun h => hloci h.1
    exact h.restored hst hports hon hp hcli happlies

end CardsRead

/-- LOCI's modem started beside it, as its transport says. -/
def modemStarted (st s : CardsState) : CardsState :=
  if lociHle st && !(st .acia).on then (lociSpec st).elim s (withModem s) else s

/-- The arguments after those of the original command line, read. -/
theorem runs_cardsArgs {host : CardsHost} {st : CardsState} (hst : st.WellFormed)
    (hports : PortsGiven host st) (hconflict : cardsConflict host st = none) {s : CardsState}
    (hs : CliArg.Started st s) :
    ∃ s', Runs cardsCliStep (cardsArgs host st) s (modemStarted st s') ∧
      CardsRead host st s' := by
  obtain ⟨s', hrun, hon, hback, hkept⟩ :=
    runs_cards hst hports hconflict cardsList_nodup hs.on fun j _ => hs.value j
  have hread : CardsRead host st s' := by
    refine ⟨fun j hopts => hback j (mem_cardsList j) hopts, fun j hopts => ?_, fun j hf => ?_, hon⟩
    · rw [hkept j fun h => hopts h.2]
      exact hs.value j
    · have hopts : ¬ HasOptions st j := fun h => by
        rw [h.2] at hf
        cases hf
      rw [hkept j fun h => hopts h.2]
      exact hs.fixed j hf
  refine ⟨s', ?_, hread⟩
  have hmenu : Runs cardsCliStep (if lociMenu st then [cstr "-r", lociMenuRom] else []) s s := by
    have hr : ¬ CliArg.Known (cstr "-r") := by decide
    have hrom : ¬ CliArg.Known lociMenuRom := by decide
    split_ifs
    · exact (CliArg.runs_unknown hr s).append (CliArg.runs_unknown hrom s)
    · exact .nil s
  have hmodem : Runs cardsCliStep (lociModemArgs host st) s' (modemStarted st s') := by
    rw [lociModemArgs_eq hports, modemStarted]
    split_ifs with h
    · simp only [Bool.and_eq_true, Bool.not_eq_true'] at h
      have hvalue : (s' .acia).value = cardDefaults .acia :=
        hread.value .acia (by simp [HasOptions, h.2])
      cases lociSpec st with
      | none => exact .nil s'
      | some spec => exact runs_modem hvalue spec
    · exact .nil s'
  have hlast : ∀ s, Runs cardsCliStep [cstr "--no-config-cards"] s s := by
    intro s
    have hopt : optionName (cstr "--no-config-cards") = cstr "--no-config-cards" ∧
        (splitOpt (cstr "--no-config-cards")).2 = none ∧
        isCardOption (cstr "--no-config-cards") = true ∧
        optionTakesArg (cstr "--no-config-cards") = false ∧
        ∀ i ∈ cardsList, i.mentions (cstr "--no-config-cards") = false := by
      decide
    have hrun := runs_flag hopt.1 hopt.2.1 hopt.2.2.1 hopt.2.2.2.1 s
    rwa [applyOption_of_not_mentions hopt.2.2.2.2] at hrun
  exact ((hmenu.append hrun).append hmodem).append (hlast _)

namespace CardsRead

variable {host : CardsHost} {st s : CardsState}

/-- Without a modem in the integrated LOCI, or with the ACIA on for itself, all comes back. -/
theorem agree_of_no_modem (h : CardsRead host st s) (hst : st.WellFormed)
    (hports : PortsGiven host st) (halone : lociModemOfAcia host st = none)
    (hacia : (s .acia).on = (st .acia).on)
    (hmodem : lociHle st = true → lociValue st "modem" = lociModemNone) :
    CardsAgree st (lociHwNormalize host (lociModemNormalize host s)) := by
  have hnone : lociModemOfAcia host s = none := by
    rw [h.lociModemOfAcia_eq hst hports hacia, halone]
  have hnormal : lociModemNormalize host s = s := by rw [lociModemNormalize, hnone]
  rw [hnormal, lociHwNormalize_eq (h.port_usb hst hports)]
  exact h.agree_plain hst hports hacia hmodem

/-- The ACIA of LOCI's modem is taken for the modem, and all comes back. -/
theorem agree_of_modem (h : CardsRead host st s) (hst : st.WellFormed)
    (hports : PortsGiven host st) (hhle : lociHle st = true) (hacia : (st .acia).on = false)
    {spec : CStr} (hspec : lociSpec st = some spec) :
    CardsAgree st (lociHwNormalize host (lociModemNormalize host (withModem s spec))) := by
  obtain ⟨hfits, port, hmodem, hport⟩ := @lociModemOfSpec_lociSpec host st hports hhle spec hspec
  have hread : lociModemOfAcia host (withModem s spec) = some (lociValue st "modem", port) := by
    rw [lociModemOfAcia_withModem ((h.lociHle_eq hst).trans hhle) hfits, hmodem]
  have husb : lociValue (lociModemNormalize host (withModem s spec)) "port_usb" =
      lociValue s "port_usb" := by
    obtain ⟨hm, hp⟩ := lociOption_place lociPortUsb_mem rfl
    have hplace : lociParam "port_usb" = lociPortUsb.2 := rfl
    have hloci : withModem s spec .loci = s .loci := update_of_ne (by decide) _ _
    rw [lociModemNormalize, hread]
    simp only [lociValue, update_of_ne (show CardId.loci ≠ .acia by decide), setLociModem_loci,
      hloci, hplace, update_of_ne hm, update_of_ne hp]
  rw [lociHwNormalize_eq (by rw [husb]; exact h.port_usb hst hports), lociModemNormalize, hread]
  exact h.agree_modem hst hports hacia rfl hport _

/-- The cards read agree with the state they come from. -/
theorem agree (h : CardsRead host st s) (hst : st.WellFormed) (hports : PortsGiven host st)
    (hconflict : cardsConflict host st = none) (halone : lociModemOfAcia host st = none) :
    CardsAgree st (lociHwNormalize host (lociModemNormalize host (modemStarted st s))) := by
  have hnoModem := (cardsConflict_eq_none.mp hconflict).2.2
  cases hhle : lociHle st with
  | false =>
    have hoff : lociModemOn st = false := by
      rw [lociHle] at hhle
      rw [lociModemOn, hhle, Bool.false_and]
    have hacia : (s .acia).on = (st .acia).on :=
      h.on_eq hst fun _ hon => by rw [hoff] at hon; cases hon
    have hstarted : modemStarted st s = s := by simp [modemStarted, hhle]
    rw [hstarted]
    exact h.agree_of_no_modem hst hports halone hacia fun hon => by rw [hhle] at hon; cases hon
  | true =>
    have hmodemOn : lociModemOn st = (lociValue st "modem" != lociModemNone) := by
      rw [lociHle] at hhle
      rw [lociModemOn, hhle, Bool.true_and]
    by_cases hnone : lociValue st "modem" = lociModemNone
    · have hacia : (s .acia).on = (st .acia).on :=
        h.on_eq hst fun _ hon => by simp [hmodemOn, hnone] at hon
      have hspec : lociSpec st = none := by
        have hsim : ¬ lociModemNone = lociModemSim := by decide
        have hreal : ¬ lociModemNone = lociModemReal := by decide
        rw [lociSpec, hnone, if_neg hsim, if_neg hreal]
      have hstarted : modemStarted st s = s := by simp [modemStarted, hspec]
      rw [hstarted]
      exact h.agree_of_no_modem hst hports halone hacia fun _ => hnone
    · have hacia := acia_of_no_conflict hnoModem (by simp [hmodemOn, hnone])
      have hon : (st .loci).on = true := by
        rw [lociHle, Bool.and_eq_true] at hhle
        exact hhle.1
      obtain ⟨spec, hspec⟩ : ∃ spec, lociSpec st = some spec := by
        rcases lociModem_cases hst hon with hm | hm | hm
        · exact absurd hm hnone
        · exact ⟨_, by rw [lociSpec, if_pos hm]⟩
        · have hsim : ¬ lociValue st "modem" = lociModemSim := by
            rw [hm]
            decide
          exact ⟨_, by rw [lociSpec, if_neg hsim, if_pos hm]⟩
      have hstarted : modemStarted st s = withModem s spec := by
        simp [modemStarted, hhle, hacia, hspec]
      rw [hstarted]
      exact h.agree_of_modem hst hports hhle hacia hspec

end CardsRead

/-- A cold restart keeps the arguments that are no card's, and the new process reads the same cards
back. -/
theorem cardsBuildArgv_restart (host : CardsHost) (st : CardsState) (prog : CStr)
    (args : List CliArg) (hargs : ∀ arg ∈ args, arg.WellFormed) (hst : st.WellFormed)
    (hports : PortsGiven host st) (hconflict : cardsConflict host st = none)
    (halone : lociModemOfAcia host st = none) :
    cardsBuildArgv host st (prog :: args.flatMap CliArg.tokens) =
        prog :: args.flatMap (CliArg.kept st) ++ cardsArgs host st ∧
      CardsAgree st (cardsStateFrom host none
        (cardsBuildArgv host st (prog :: args.flatMap CliArg.tokens))) := by
  have hbuilt : cardsBuildArgv host st (prog :: args.flatMap CliArg.tokens) =
      prog :: args.flatMap (CliArg.kept st) ++ cardsArgs host st := by
    rw [cardsBuildArgv, List.headD_cons, List.tail_cons,
      (CliArg.runs_keep_all st hargs [prog]).scan_eq]
    rfl
  refine ⟨hbuilt, ?_⟩
  obtain ⟨s, hrun, hs⟩ := CliArg.runs_read_all hargs (CliArg.started_defaults st)
  obtain ⟨s', hrun', hs'⟩ := runs_cardsArgs hst hports hconflict hs
  have hscan := (hrun.append hrun').scan_eq
  rw [hbuilt, cardsStateFrom, List.cons_append, List.tail_cons, hscan]
  exact hs'.agree hst hports hconflict halone

/-- A host on which nothing is detected. -/
def bareHost : CardsHost where
  picowifiDetect := none
  lociUsbDetect := none
  lociBackendOk := fun _ => false

/-- LOCI integrated with a simulated modem, and the SP0256. -/
def lociSimulated : CardsState :=
  setValue (setValue (cardsSetOn (cardsSetOn cardsStateDefaults .loci true) .sp0256 true) .loci
    (lociParam "menu") (cstr "non")) .loci (lociParam "modem") lociModemSim

theorem lociSimulated_wellFormed : lociSimulated.WellFormed where
  fixed i := by
    have h : ∀ i ∈ cardsList, i.desc.fixed = true → (lociSimulated i).on = true := by
      decide
    exact h i (mem_cardsList i)
  group i j := by
    have h : ∀ i ∈ cardsList, ∀ j ∈ cardsList, (lociSimulated i).on = true →
        (lociSimulated j).on = true → sameGroup i j = true → i = j := by
      decide
    exact h i (mem_cardsList i) j (mem_cardsList j)
  valid i := by
    have h : ∀ i ∈ cardsList, (lociSimulated i).on = true → ∀ p ∈ i.desc.params.zipIdx,
        p.1.Valid ((lociSimulated i).value p.2).text := by
      decide
    exact h i (mem_cardsList i)

/-- A command line with a flag, a tape, a ROM, an option of a card that goes off and one of LOCI. -/
def tapeArgs : List CliArg :=
  [.word (cstr "--fast-load"), .pair (cstr "-t") (cstr "jeu.tap"),
   .pair (cstr "--rom") (cstr "roms/basic10.rom"), .word (cstr "--mageco=midi"),
   .pair (cstr "--loci-web") (cstr "8080")]

theorem cardsBuildArgv_restart_simulated :
    cardsBuildArgv bareHost lociSimulated (cstr "oric1-emu" :: tapeArgs.flatMap CliArg.tokens) =
        cstr "oric1-emu" :: tapeArgs.flatMap (CliArg.kept lociSimulated) ++
          cardsArgs bareHost lociSimulated ∧
      CardsAgree lociSimulated (cardsStateFrom bareHost none
        (cardsBuildArgv bareHost lociSimulated
          (cstr "oric1-emu" :: tapeArgs.flatMap CliArg.tokens))) := by
  have hports : PortsGiven bareHost lociSimulated := by
    refine ⟨fun _ hmode => ?_, fun _ hmodem => ?_⟩
    · have hnot : lociModeIs lociSimulated lociModeHw = false := by decide
      rw [hnot] at hmode
      cases hmode
    · have hnot : lociValue lociSimulated "modem" ≠ lociModemReal := by decide
      exact absurd hmodem hnot
  exact cardsBuildArgv_restart bareHost lociSimulated (cstr "oric1-emu") tapeArgs
    (by decide) lociSimulated_wellFormed hports (by decide) (by decide)

/-- The cards read back after a restart of the bare command line. -/
def cardsRestarted (host : CardsHost) (st : CardsState) : CardsState :=
  cardsStateFrom host none (cardsBuildArgv host st [cstr "oric1-emu"])

/-- The Microdisc and the Jasmin, at addresses of their own. -/
def bothDisks : CardsState := fun i =>
  if i = .microdisc ∨ i = .jasmin then { cardsStateDefaults i with on := true }
  else cardsStateDefaults i

/-- The integrated LOCI beside a picowifi on the ACIA. -/
def lociBesideAcia : CardsState :=
  setValue (cardsSetOn (cardsSetOn cardsStateDefaults .loci true) .acia true) .acia 0
    (cstr "picowifi")

/-- The integrated LOCI with a modem and its port. -/
def lociWithPort (modem port : CStr) : CardsState :=
  setLociModem (cardsSetOn cardsStateDefaults .loci true) modem port

/-- What does not come back: LOCI's menu, two cards of a group, the ACIA that LOCI's modem is read
from, the port without a real modem, one that the detection finds, one too long for the transport;
and what the command line loses: the ROM attached to its option, a value spelled as a card. -/
theorem cardsBuildArgv_not_restart :
    (cardsConflict bareHost lociSimulated = none ∧
      lociValue lociSimulated "menu" = cstr "non" ∧
      lociValue (cardsRestarted bareHost lociSimulated) "menu" = cstr "oui") ∧
    (cardsConflict bareHost bothDisks = none ∧ (bothDisks .microdisc).on = true ∧
      (cardsRestarted bareHost bothDisks .microdisc).on = false) ∧
    (cardsConflict bareHost lociBesideAcia = none ∧ (lociBesideAcia .acia).on = true ∧
      (cardsRestarted bareHost lociBesideAcia .acia).on = false) ∧
    (cardsConflict bareHost (lociWithPort lociModemNone (cstr "/dev/ttyACM0")) = none ∧
      lociValue (cardsRestarted bareHost (lociWithPort lociModemNone (cstr "/dev/ttyACM0")))
        "port" = []) ∧
    (cardsConflict { bareHost with picowifiDetect := some (cstr "/dev/ttyACM0") }
        (lociWithPort lociModemReal (cstr "/dev/ttyACM0")) = none ∧
      lociValue (cardsRestarted { bareHost with picowifiDetect := some (cstr "/dev/ttyACM0") }
        (lociWithPort lociModemReal (cstr "/dev/ttyACM0"))) "port" = []) ∧
    (cardsConflict bareHost (lociWithPort lociModemReal (List.replicate 180 0x61#8)) = none ∧
      lociValue (cardsRestarted bareHost (lociWithPort lociModemReal (List.replicate 180 0x61#8)))
        "port" = List.replicate 174 0x61#8) ∧
    cardsBuildArgv bareHost cardsStateDefaults
        [cstr "oric1-emu", cstr "--rom=roms/basic10.rom", cstr "--fast-load"] =
      [cstr "oric1-emu", cstr "-r", cstr "--fast-load", cstr "--no-config-cards"] ∧
    cardsBuildArgv bareHost cardsStateDefaults
        [cstr "oric1-emu", cstr "-t", cstr "--mea8000"] =
      [cstr "oric1-emu", cstr "-t", cstr "--no-config-cards"] := by
  decide +kernel

end Phosphoric
