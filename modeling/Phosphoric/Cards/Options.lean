import Mathlib.Data.List.Sigma
import Phosphoric.Cards.Argv

/-!
# What an option does to the cards

Every option of the registry belongs to one card, and to one parameter of it, so that reading it
back changes the choice made for that card only: `applyOption_param`.

**Theorem (`runs_cardParamArgs`).** Reading back the options of a parameter gives it the value they
carry.
-/

namespace Phosphoric

open Lookahead
open Function (update update_of_ne update_self update_idem update_eq_self)

/-! ## Options of the registry -/

theorem mem_cardsList (i : CardId) : i ∈ cardsList := by
  cases i <;> decide

theorem cardsList_nodup : cardsList.Nodup := by decide

/-- What the traversals make of the option `cli` of the parameter `p`. -/
structure OptionOf (i : CardId) (p : CardParam × Nat) (cli : CStr) : Prop where
  name : optionName cli = cli
  bare : (splitOpt cli).2 = none
  card : isCardOption cli = true
  takes : optionTakesArg cli = (p.1.kind != .bool)
  own : ∀ j ∈ cardsList, j.mentions cli = true → j = i
  only : ∀ q ∈ i.desc.params.zipIdx, q.1.cli = some cli → q = p

instance (i : CardId) (p : CardParam × Nat) (cli : CStr) : Decidable (OptionOf i p cli) :=
  decidable_of_iff (optionName cli = cli ∧ (splitOpt cli).2 = none ∧ isCardOption cli = true ∧
      optionTakesArg cli = (p.1.kind != .bool) ∧
      (∀ j ∈ cardsList, j.mentions cli = true → j = i) ∧
      ∀ q ∈ i.desc.params.zipIdx, q.1.cli = some cli → q = p)
    ⟨fun h => ⟨h.1, h.2.1, h.2.2.1, h.2.2.2.1, h.2.2.2.2.1, h.2.2.2.2.2⟩,
      fun h => ⟨h.name, h.bare, h.card, h.takes, h.own, h.only⟩⟩

theorem optionOf {i : CardId} {p : CardParam × Nat} (hp : p ∈ i.desc.params.zipIdx) {cli : CStr}
    (hcli : p.1.cli = some cli) : OptionOf i p cli := by
  have hall : ∀ i ∈ cardsList, ∀ p ∈ i.desc.params.zipIdx, ∀ cli ∈ p.1.cli, OptionOf i p cli := by
    decide
  exact hall i (mem_cardsList i) p hp cli hcli

/-- An option that enables a card without an argument. -/
structure EnableFlag (i : CardId) (cli : CStr) : Prop where
  name : optionName cli = cli
  bare : (splitOpt cli).2 = none
  card : isCardOption cli = true
  takes : optionTakesArg cli = false
  own : ∀ j ∈ cardsList, j.mentions cli = true → j = i
  none : ∀ q ∈ i.desc.params.zipIdx, q.1.cli ≠ some cli

instance (i : CardId) (cli : CStr) : Decidable (EnableFlag i cli) :=
  decidable_of_iff (optionName cli = cli ∧ (splitOpt cli).2 = Option.none ∧
      isCardOption cli = true ∧ optionTakesArg cli = false ∧
      (∀ j ∈ cardsList, j.mentions cli = true → j = i) ∧
      ∀ q ∈ i.desc.params.zipIdx, q.1.cli ≠ some cli)
    ⟨fun h => ⟨h.1, h.2.1, h.2.2.1, h.2.2.2.1, h.2.2.2.2.1, h.2.2.2.2.2⟩,
      fun h => ⟨h.name, h.bare, h.card, h.takes, h.own, h.none⟩⟩

theorem enableFlag {i : CardId} {cli : CStr} (hcli : i.desc.enableCli = some cli)
    (hparam : i.desc.enableParam = none) : EnableFlag i cli := by
  have hall : ∀ i ∈ cardsList, i.desc.enableParam = none → ∀ cli ∈ i.desc.enableCli,
      EnableFlag i cli := by
    decide
  exact hall i (mem_cardsList i) hparam cli hcli

/-! ## One card -/

/-- No other card of its group is on. -/
def AloneIn (st : CardsState) (i : CardId) : Prop :=
  ∀ j, j ≠ i → sameGroup i j = true → (st j).on = false

theorem AloneIn.update {st : CardsState} {i : CardId} (h : AloneIn st i) (c : CardChoice) :
    AloneIn (update st i c) i := by
  intro j hj hgroup
  rw [update_of_ne hj]
  exact h j hj hgroup

/-- Turning on a card alone in its group. -/
theorem cardsSetOn_alone {st : CardsState} {i : CardId} (h : AloneIn st i)
    (hfixed : i.desc.fixed = false) :
    cardsSetOn st i true = update st i { st i with on := true } := by
  have hoff : (fun j => if true && j != i && sameGroup i j then { st j with on := false }
      else st j) = st := by
    funext j
    split_ifs with hj
    · simp only [Bool.true_and, Bool.and_eq_true, bne_iff_ne, ne_eq] at hj
      rw [← h j hj.1 hj.2]
    · rfl
  rw [cardsSetOn, if_neg (by simp [hfixed])]
  show update (fun j => if true && j != i && sameGroup i j then { st j with on := false }
    else st j) i _ = _
  rw [hoff]

theorem setValue_update (st : CardsState) (i : CardId) (c : CardChoice) (p : Nat) (v : CStr) :
    setValue (update st i c) i p v =
      update st i { c with value := update c.value p (.ofText v) } := by
  simp [setValue]

/-- The mode that an option selects: LOCI's are selected by the parameters of the firmware and of
the LOCI-USB. -/
def selectedMode (i : CardId) (p : CardParam) : Option CStr :=
  (lociParamMode i p).filter (· != lociModeHle)

/-- The choice made for a card after the option `cli` of a parameter with the value `v`. -/
def CardChoice.after (c : CardChoice) (i : CardId) (p : CardParam × Nat) (cli v : CStr) :
    CardChoice where
  on := c.on || i == .loci || i.desc.enableCli == some cli
  value :=
    let value := update c.value p.2 (.ofText v)
    (selectedMode i p.1).elim value fun m => update value (paramFind i (cstr "mode")) (.ofText m)

theorem selectedMode_of_ne {i : CardId} (hi : i ≠ .loci) (p : CardParam) :
    selectedMode i p = none := by
  rw [selectedMode, lociParamMode, if_neg hi]
  rfl

/-- A card that does not have the option is left alone. -/
theorem cardOption_of_not_mentions {name : CStr} {val : Option CStr} {st : CardsState} {i : CardId}
    (h : i.mentions name = false) : cardOption name val st i = st := by
  simp only [CardId.mentions, Bool.or_eq_false_iff, beq_eq_false_iff_ne, List.any_eq_false] at h
  have hfold : ∀ l : List (CardParam × Nat), (∀ p ∈ l, p ∈ i.desc.params.zipIdx) →
      l.foldl (cardParamOption name val i) st = st := by
    intro l hl
    induction l with
    | nil => rfl
    | cons p l ih =>
      have hp : p.1.cli ≠ some name := by
        have := h.2 p.1 (List.fst_mem_of_mem_zipIdx (hl p (by simp)))
        simpa using this
      rw [List.foldl_cons, cardParamOption.eq_def, if_pos hp]
      exact ih fun q hq => hl q (by simp [hq])
  rw [cardOption, if_neg h.1]
  exact hfold _ fun _ h => h

/-- The option of no card. -/
theorem applyOption_of_not_mentions {name : CStr} {val : Option CStr} {st : CardsState}
    (h : ∀ i ∈ cardsList, i.mentions name = false) : applyOption name val st = st := by
  have hfold : ∀ l : List CardId, (∀ i ∈ l, i ∈ cardsList) →
      l.foldl (cardOption name val) st = st := by
    intro l hl
    induction l with
    | nil => rfl
    | cons i l ih =>
      rw [List.foldl_cons, cardOption_of_not_mentions (h i (hl i (by simp)))]
      exact ih fun j hj => hl j (by simp [hj])
  exact hfold _ fun _ h => h

/-- The option of one card. -/
theorem applyOption_own {name : CStr} {val : Option CStr} {i : CardId}
    (h : ∀ j ∈ cardsList, j.mentions name = true → j = i) (st : CardsState) :
    applyOption name val st = cardOption name val st i := by
  refine foldl_eq_of_unique (mem_cardsList i) cardsList_nodup (fun j hj hne s => ?_) st
  apply cardOption_of_not_mentions
  rw [Bool.eq_false_iff]
  exact fun hmentions => hne (h j hj hmentions)

/-- An option with the value `v` for its parameter. -/
theorem applyOption_param {i : CardId} {p : CardParam × Nat} (hp : p ∈ i.desc.params.zipIdx)
    {cli : CStr} (hcli : p.1.cli = some cli) {val : Option CStr} {v : CStr}
    (hval : (if p.1.kind = .bool then some (cstr "oui") else val) = some v) {st : CardsState}
    (halone : AloneIn st i) (hfixed : i.desc.fixed = false)
    (henable : i.desc.enableCli = some cli → i.desc.enableParam = some p.2 ∧ p.1.kind ≠ .bool) :
    applyOption cli val st = update st i ((st i).after i p cli v) := by
  have hopt := optionOf hp hcli
  -- the parameter is the only one that has the option
  have hparams : ∀ st : CardsState, i.desc.params.zipIdx.foldl (cardParamOption cli val i) st =
      cardParamOption cli val i st p := by
    refine foldl_eq_of_unique hp (List.nodup_zipIdx_map_snd _).of_map fun q hq hne s => ?_
    rw [cardParamOption.eq_def, if_pos fun hqcli => hne (hopt.only q hq hqcli)]
  rw [applyOption_own hopt.own, cardOption, hparams, cardParamOption.eq_def,
    if_neg (not_not_intro hcli)]
  by_cases henab : i.desc.enableCli = some cli
  · obtain ⟨hparam, hkind⟩ := henable henab
    rw [if_neg hkind] at hval
    have hloci : i ≠ .loci := by
      rintro rfl
      cases hparam
    have hmode := selectedMode_of_ne hloci p.1
    simp only [henab, hparam, hval, hkind, hloci, if_true, if_false, cardsSetOn_alone halone hfixed,
      setValue_update, update_idem, CardChoice.after, hmode, Option.elim]
    simp
  · have hvalue : (if p.1.kind = .bool then setValue st i p.2 (cstr "oui")
        else val.elim st fun v => setValue st i p.2 v) = setValue st i p.2 v := by
      split_ifs at hval ⊢ with hkind
      · rw [Option.some.inj hval]
      · rw [hval]
        rfl
    simp only [henab, if_false, hvalue]
    by_cases hloci : i = .loci
    · subst hloci
      have halone' : AloneIn (setValue st .loci p.2 v) .loci := halone.update _
      rw [if_pos rfl, cardsSetOn_alone halone' rfl, setValue]
      cases hmode : lociParamMode .loci p.1 with
      | none => simp [CardChoice.after, selectedMode, hmode]
      | some m =>
        by_cases hhle : m = lociModeHle
        · have hsel : selectedMode .loci p.1 = none := by
            simp [selectedMode, hmode, Option.filter, hhle]
          simp [CardChoice.after, hsel, hhle]
        · have hsel : selectedMode .loci p.1 = some m := by
            simp [selectedMode, hmode, Option.filter, hhle]
          simp [CardChoice.after, hsel, hhle, setValue]
    · have henab' : (i.desc.enableCli == some cli) = false := by simpa using henab
      have hloci' : (i == .loci) = false := by simpa using hloci
      simp [hloci, hloci', CardChoice.after, selectedMode_of_ne hloci, setValue, henab']

/-- The flag that enables a card. -/
theorem applyOption_enable {i : CardId} {cli : CStr} (hcli : i.desc.enableCli = some cli)
    (hparam : i.desc.enableParam = none) {st : CardsState} (halone : AloneIn st i)
    (hfixed : i.desc.fixed = false) :
    applyOption cli none st = update st i { st i with on := true } := by
  have hflag := enableFlag hcli hparam
  have hparams : ∀ (l : List (CardParam × Nat)) (st : CardsState),
      (∀ p ∈ l, p ∈ i.desc.params.zipIdx) → l.foldl (cardParamOption cli none i) st = st := by
    intro l st hl
    induction l with
    | nil => rfl
    | cons p l ih =>
      rw [List.foldl_cons, cardParamOption.eq_def, if_pos (hflag.none p (hl p (by simp)))]
      exact ih fun q hq => hl q (by simp [hq])
  rw [applyOption_own hflag.own, cardOption, hparams _ _ fun _ h => h, if_pos hcli]
  simp only [hparam, cardsSetOn_alone halone hfixed]

/-! ## Reading options back -/

/-- An option with its value in the next argument. -/
theorem runs_option {i : CardId} {p : CardParam × Nat} (hp : p ∈ i.desc.params.zipIdx) {cli : CStr}
    (hcli : p.1.cli = some cli) (hkind : p.1.kind ≠ .bool) (v : CStr) (st : CardsState) :
    Runs cardsCliStep [cli, v] st (applyOption cli (some v) st) := by
  have hopt := optionOf hp hcli
  have htakes : optionTakesArg cli = true := by
    rw [hopt.takes]
    simpa using hkind
  apply Runs.pair
  simp [cardsCliStep, hopt.name, hopt.bare, hopt.card, htakes]

/-- An option that takes no value. -/
theorem runs_flag {cli : CStr} (hname : optionName cli = cli) (hbare : (splitOpt cli).2 = none)
    (hcard : isCardOption cli = true) (htakes : optionTakesArg cli = false) (st : CardsState) :
    Runs cardsCliStep [cli] st (applyOption cli none st) := by
  apply Runs.single
  intro next
  simp [cardsCliStep, hname, hbare, hcard, htakes]

/-- The value that the options of a parameter carry, none if it has none. -/
def paramGiven (host : CardsHost) (st : CardsState) (i : CardId) (p : CardParam × Nat) :
    Option CStr :=
  let v := ((st i).value p.2).text
  if !cardsParamApplies i (st i) p.1 then none
  else if i = .loci ∧ p.1.key = cstr "port_usb" then lociHwPort host v
  else if i.desc.enableParam = some p.2 then some v
  else if p.1.kind = .bool then if v = cstr "oui" then some v else none
  else if v ≠ [] ∧ !isDefault p.1 v then some v
  else none

/-- The choice made for a card after the options of a parameter. -/
def CardChoice.given (host : CardsHost) (st : CardsState) (i : CardId) (c : CardChoice)
    (p : CardParam × Nat) : CardChoice :=
  match p.1.cli, paramGiven host st i p with
  | some cli, some v => c.after i p cli v
  | _, _ => c

/-- A parameter that enables its card takes a value. -/
theorem enableParam_kind {i : CardId} {p : CardParam × Nat} (hp : p ∈ i.desc.params.zipIdx)
    {cli : CStr} (hcli : p.1.cli = some cli) :
    (i.desc.enableCli = some cli ↔ i.desc.enableParam = some p.2) ∧
      (i.desc.enableParam = some p.2 → p.1.kind ≠ .bool) ∧
      (i = .loci → p.1.kind ≠ .bool) := by
  have hall : ∀ i ∈ cardsList, ∀ p ∈ i.desc.params.zipIdx, ∀ cli ∈ p.1.cli,
      (i.desc.enableCli = some cli ↔ i.desc.enableParam = some p.2) ∧
        (i.desc.enableParam = some p.2 → p.1.kind ≠ .bool) ∧
        (i = .loci → p.1.kind ≠ .bool) := by
    decide
  exact hall i (mem_cardsList i) p hp cli hcli

theorem runs_cardParamArgs (host : CardsHost) (st : CardsState) {i : CardId}
    {p : CardParam × Nat} (hp : p ∈ i.desc.params.zipIdx) (hfixed : i.desc.fixed = false)
    {s : CardsState} (halone : AloneIn s i) (c : CardChoice) :
    Runs cardsCliStep (cardParamArgs host st i p) (update s i c)
      (update s i (c.given host st i p)) := by
  cases hcli : p.1.cli with
  | none =>
    simp only [cardParamArgs, CardChoice.given, hcli]
    exact .nil _
  | some cli =>
    obtain ⟨henable, hkind, hloci⟩ := enableParam_kind hp hcli
    have hopt := optionOf hp hcli
    have hafter : ∀ (val : Option CStr) {v : CStr},
        (if p.1.kind = .bool then some (cstr "oui") else val) = some v →
        applyOption cli val (update s i c) = update s i (c.after i p cli v) := by
      intro val v hval
      rw [applyOption_param hp hcli hval (halone.update c) hfixed fun h =>
        ⟨henable.mp h, hkind (henable.mp h)⟩]
      simp
    have harg : ∀ v, p.1.kind ≠ .bool → Runs cardsCliStep [cli, v] (update s i c)
        (update s i (c.after i p cli v)) := by
      intro v hbool
      rw [← hafter (some v) (if_neg hbool)]
      exact runs_option hp hcli hbool v _
    simp only [cardParamArgs, CardChoice.given, paramGiven, hcli]
    split_ifs with happlies hport henab hbool houi hgiven
    · exact .nil _
    · cases lociHwPort host ((st i).value p.2).text with
      | none => exact .nil _
      | some dev => exact harg dev (hloci hport.1)
    · exact harg _ (hkind henab)
    · rw [houi, ← hafter none (if_pos hbool)]
      refine runs_flag hopt.name hopt.bare hopt.card ?_ _
      rw [hopt.takes, hbool]
      rfl
    · exact .nil _
    · exact harg _ hbool
    · exact .nil _

/-! ## All the options of a card -/

/-- The place of LOCI's mode. -/
def lociModePlace : Nat := paramFind .loci (cstr "mode")

theorem lociModePlace_eq : lociModePlace = paramFind .loci (cstr "mode") := rfl

/-- A value that no option selects as a mode. -/
def NotMode (i : CardId) (q : Nat) : Prop := i = .loci → q ≠ lociModePlace

/-- LOCI's options belong to a mode, and none is the mode itself. -/
theorem lociOption_mode {p : CardParam × Nat} (hp : p ∈ CardId.loci.desc.params.zipIdx)
    {cli : CStr} (hcli : p.1.cli = some cli) :
    p.2 ≠ lociModePlace ∧ (lociParamMode .loci p.1).isSome = true := by
  have hall : ∀ p ∈ CardId.loci.desc.params.zipIdx, ∀ cli ∈ p.1.cli,
      p.2 ≠ lociModePlace ∧ (lociParamMode .loci p.1).isSome = true := by
    decide
  exact hall p hp cli hcli

theorem notMode_of_cli {i : CardId} {p : CardParam × Nat} (hp : p ∈ i.desc.params.zipIdx)
    {cli : CStr} (hcli : p.1.cli = some cli) : NotMode i p.2 := by
  rintro rfl
  exact (lociOption_mode hp hcli).1

namespace CardChoice

variable {host : CardsHost} {st : CardsState} {i : CardId} {p : CardParam × Nat}

theorem after_value_self (c : CardChoice) (h : NotMode i p.2) (cli v : CStr) :
    (c.after i p cli v).value p.2 = .ofText v := by
  simp only [after]
  cases hmode : selectedMode i p.1 with
  | none => simp
  | some m =>
    have hi : i = .loci := by
      by_contra hne
      rw [selectedMode_of_ne hne] at hmode
      cases hmode
    subst hi
    rw [Option.elim, ← lociModePlace_eq, update_of_ne (h rfl), update_self]

theorem after_value_ne (c : CardChoice) {q : Nat} (hq : q ≠ p.2) (h : NotMode i q)
    (cli v : CStr) : (c.after i p cli v).value q = c.value q := by
  simp only [after]
  cases hmode : selectedMode i p.1 with
  | none => simp [hq]
  | some m =>
    have hi : i = .loci := by
      by_contra hne
      rw [selectedMode_of_ne hne] at hmode
      cases hmode
    subst hi
    rw [Option.elim, ← lociModePlace_eq, update_of_ne (h rfl), update_of_ne hq]

theorem given_value_ne (c : CardChoice) {q : Nat} (hq : q ≠ p.2) (h : NotMode i q) :
    (c.given host st i p).value q = c.value q := by
  simp only [given]
  split
  · exact c.after_value_ne hq h _ _
  · rfl

/-- The value of a parameter after all the options of its card. -/
theorem foldl_given_value {l : List (CardParam × Nat)} (hp : p ∈ l)
    (hnodup : (l.map Prod.snd).Nodup) (h : NotMode i p.2) (c : CardChoice) :
    (l.foldl (CardChoice.given host st i) c).value p.2 = (c.given host st i p).value p.2 := by
  induction l generalizing c with
  | nil => simp at hp
  | cons a l ih =>
    rw [List.map_cons, List.nodup_cons] at hnodup
    rw [List.foldl_cons]
    by_cases hin : p ∈ l
    · have hne : p.2 ≠ a.2 := fun heq =>
        hnodup.1 (heq ▸ List.mem_map_of_mem hin)
      rw [ih hin hnodup.2]
      simp only [given]
      split
      · rw [after_value_self _ h, after_value_self _ h]
      · exact c.given_value_ne hne h
    · obtain rfl : p = a := (List.mem_cons.mp hp).resolve_right hin
      have hskip : ∀ (l' : List (CardParam × Nat)) (c : CardChoice), (∀ q ∈ l', q ∈ l) →
          (l'.foldl (CardChoice.given host st i) c).value p.2 = c.value p.2 := by
        intro l'
        induction l' with
        | nil => intro c _; rfl
        | cons b l' ih' =>
          intro c hsub
          have hne : p.2 ≠ b.2 := fun heq =>
            hnodup.1 (heq ▸ List.mem_map_of_mem (hsub b (by simp)))
          rw [List.foldl_cons, ih' _ fun q hq => hsub q (by simp [hq])]
          exact c.given_value_ne hne h
      exact hskip l _ fun _ h => h

theorem given_on (c : CardChoice) (hon : c.on = true) : (c.given host st i p).on = true := by
  simp only [given]
  split
  · simp [after, hon]
  · exact hon

theorem foldl_given_on {l : List (CardParam × Nat)} {c : CardChoice} (hon : c.on = true) :
    (l.foldl (CardChoice.given host st i) c).on = true := by
  induction l generalizing c with
  | nil => exact hon
  | cons a l ih => exact ih (c.given_on hon)

/-- One option that enables the card is enough. -/
theorem foldl_given_enable {l : List (CardParam × Nat)} (hp : p ∈ l) {cli v : CStr}
    (hcli : p.1.cli = some cli) (hgiven : paramGiven host st i p = some v)
    (henable : i = .loci ∨ i.desc.enableCli = some cli) (c : CardChoice) :
    (l.foldl (CardChoice.given host st i) c).on = true := by
  induction l generalizing c with
  | nil => simp at hp
  | cons a l ih =>
    rw [List.foldl_cons]
    rcases List.mem_cons.mp hp with rfl | hin
    · apply foldl_given_on
      simp only [given, hcli, hgiven, after, Bool.or_eq_true, beq_iff_eq]
      rcases henable with h | h
      · exact .inl (.inr h)
      · exact .inr h
    · exact ih hin _

variable (host) in
/-- An option of LOCI selects the mode its parameters are for. -/
theorem given_mode {p : CardParam × Nat} (hp : p ∈ CardId.loci.desc.params.zipIdx)
    (c : CardChoice) :
    (c.given host st .loci p).value lociModePlace =
        (if lociModeIs st lociModeHle then c.value lociModePlace
          else (st .loci).value lociModePlace) ∨
      (c.given host st .loci p).value lociModePlace = c.value lociModePlace ∧
        ¬ (p.1.cli.isSome ∧ (paramGiven host st .loci p).isSome) := by
  simp only [given]
  cases hcli : p.1.cli with
  | none => exact .inr ⟨rfl, by simp⟩
  | some cli =>
    cases hgiven : paramGiven host st .loci p with
    | none => exact .inr ⟨rfl, by simp⟩
    | some v =>
      left
      obtain ⟨hplace, hsome⟩ := lociOption_mode hp hcli
      obtain ⟨m, hm⟩ := Option.isSome_iff_exists.mp hsome
      have happlies : ((st .loci).value lociModePlace).text = m := by
        by_contra hne
        have : cardsParamApplies .loci (st .loci) p.1 = false := by
          simp only [cardsParamApplies, hm, beq_eq_false_iff_ne]
          exact hne
        simp [paramGiven, this] at hgiven
      have hmode : lociModeIs st lociModeHle = (m == lociModeHle) := by
        rw [← happlies]
        rfl
      by_cases hhle : m = lociModeHle
      · have hsel : selectedMode .loci p.1 = none := by
          simp [selectedMode, hm, Option.filter, hhle]
        simp [after, hsel, hmode, hhle, Ne.symm hplace]
      · have hsel : selectedMode .loci p.1 = some m := by
          simp [selectedMode, hm, Option.filter, hhle]
        subst happlies
        simp [after, hsel, hmode, hhle, ← lociModePlace_eq]

/-- LOCI's mode after all its options. -/
theorem foldl_given_mode {l : List (CardParam × Nat)}
    (hl : ∀ p ∈ l, p ∈ CardId.loci.desc.params.zipIdx) (c : CardChoice)
    (hmode : lociModeIs st lociModeHle = true ∧
        c.value lociModePlace = (st .loci).value lociModePlace ∨
      lociModeIs st lociModeHle = false ∧
        (c.value lociModePlace = (st .loci).value lociModePlace ∨
          ∃ p ∈ l, p.1.cli.isSome ∧ (paramGiven host st .loci p).isSome)) :
    (l.foldl (CardChoice.given host st .loci) c).value lociModePlace =
      (st .loci).value lociModePlace := by
  induction l generalizing c with
  | nil =>
    rcases hmode with ⟨_, h⟩ | ⟨_, h⟩
    · exact h
    · exact h.resolve_right (by simp)
  | cons a l ih =>
    rw [List.foldl_cons]
    apply ih (fun p hp => hl p (by simp [hp]))
    rcases hmode with ⟨hhle, h⟩ | ⟨hhle, h⟩
    · left
      refine ⟨hhle, ?_⟩
      rcases given_mode host (hl a (by simp)) c with hgiven | ⟨hgiven, -⟩
      · rw [hgiven, if_pos hhle, h]
      · rw [hgiven, h]
    · right
      refine ⟨hhle, ?_⟩
      rcases given_mode host (hl a (by simp)) c with hgiven | ⟨hgiven, hnot⟩
      · rw [hgiven, hhle]
        exact .inl rfl
      · rcases h with h | ⟨p, hp, hsome⟩
        · exact .inl (hgiven.trans h)
        · rcases List.mem_cons.mp hp with rfl | hp
          · exact absurd hsome hnot
          · exact .inr ⟨p, hp, hsome⟩

end CardChoice

end Phosphoric
