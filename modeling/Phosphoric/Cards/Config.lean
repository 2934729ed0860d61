import Mathlib.Data.List.DropRight
import Phosphoric.Cards.Options

/-!
# The cards in the configuration file

`cards_cfg_write` writes the choices made for the cards into `phosphoric.cfg`, and `cards_cfg_read`
reads them back from the default state.

**Theorem (`cardsCfg_trip`).** From any choices that the menu comes to, each card is on or off as it
was, each card that is not fixed is seen, and each parameter that applies to an active card has its
value, without the blanks before it. An empty value is not written: it is read as the default one.
-/

namespace Phosphoric

open Function (update update_of_ne update_self)

/-! ## Writing -/

/-- A line of the file. -/
inductive CfgEntry
  | card (i : CardId) (on : Bool)
  | param (i : CardId) (q : CardParam × Nat) (value : CStr)
  deriving DecidableEq

/-- `carte.<id>`. -/
def cfgCardKey (i : CardId) : CStr := cstr "carte." ++ i.desc.id

/-- `<id>.<key>`. -/
def cfgParamKey (i : CardId) (p : CardParam) : CStr := i.desc.id ++ cstr "." ++ p.key

def CfgEntry.key : CfgEntry → CStr
  | .card i _ => cfgCardKey i
  | .param i q _ => cfgParamKey i q.1

def CfgEntry.val : CfgEntry → CStr
  | .card _ on => if on then cstr "oui" else cstr "non"
  | .param _ _ value => value

/-- The lines of a card. A value that is empty or the default one is left out. -/
def cfgCardEntries (st : CardsState) (i : CardId) : List CfgEntry :=
  if i.desc.fixed then []
  else
    .card i (st i).on ::
      if (st i).on then
        i.desc.params.zipIdx.filterMap fun param =>
          let value := ((st i).value param.2).text
          if value ≠ [] && !isDefault param.1 value && cardsParamApplies i (st i) param.1 then
            some (.param i param value)
          else none
      else []

def cfgEntries (st : CardsState) : List CfgEntry := cardsList.flatMap (cfgCardEntries st)

/-- `cards_cfg_write`. -/
def cardsCfgWrite (st : CardsState) : List Byte :=
  (cfgEntries st).flatMap fun entry => entry.key ++ 0x3D :: (entry.val ++ [0x0A])

/-! ## Reading -/

/-- `k_cfg_legacy`. -/
def kCfgLegacy : List (CStr × CStr) :=
  [(cstr "loci_emu.elf", cstr "loci.elf"), (cstr "loci_emu.flash", cstr "loci.fw_flash"),
   (cstr "loci_emu.usb", cstr "loci.fw_usb"), (cstr "loci_hw.port", cstr "loci.port_usb"),
   (cstr "loci.pont", cstr "loci.port_usb")]

/-- The key for a former one. -/
def cfgLegacyKey (key : CStr) : CStr :=
  ((kCfgLegacy.find? fun legacy => key == legacy.1).map Prod.snd).getD key

/-- `cfg_card_id`. -/
def cfgCardId (id : CStr) : CStr :=
  if id = cstr "loci_emu" ∨ id = cstr "loci_hw" then cstr "loci" else id

/-- `cards_find`. -/
def cardsFind (id : CStr) : Option CardId := cardsList.find? fun i => i.desc.id == id

/-- What a key is about. -/
inductive CfgTarget
  | none
  /-- A former entry of LOCI, for one of its modes. -/
  | legacyCard (mode : CStr)
  | card (i : CardId)
  | param (i : CardId) (p : Nat)
  deriving DecidableEq

def cfgTarget (key : CStr) : CfgTarget :=
  if key = cstr "carte.loci_emu" then .legacyCard lociModeFw
  else if key = cstr "carte.loci_hw" then .legacyCard lociModeHw
  else if key.take 6 = cstr "carte." then
    match cardsFind (key.drop 6) with
    | none => .none
    | some i => .card i
  else
    let id := key.takeWhile (· != 0x2E)
    if id.length = key.length ∨ 32 ≤ id.length then .none
    else
      match cardsFind id with
      | none => .none
      | some i =>
        let p := paramFind i (key.drop (id.length + 1))
        if p < i.desc.params.length then .param i p else .none

/-- The value for a former one of the mode of LOCI. -/
def cfgLegacyVal (key val : CStr) : CStr :=
  if key = cstr "loci.mode" ∧ val = cstr "réelle" then lociModeHw else val

/-- `cards_cfg_line`: whether the key is a card's, the choices, and whether the presence of a card
is given. -/
def cardsCfgLine (st : CardsState) (key val : CStr) : Bool × CardsState × Bool :=
  let key := cfgLegacyKey key
  let val := cfgLegacyVal key val
  match cfgTarget key with
  | .none => (false, st, false)
  | .legacyCard mode =>
    if strcaseEq val (cstr "oui") then
      (true, setValue (cardsSetOn st .loci true) .loci (lociParam "mode") mode, true)
    else (true, st, false)
  | .card i => (true, cardsSetOn st i (strcaseEq val (cstr "oui")), true)
  | .param i p => (true, setValue st i p val, false)

/-- The choices, and the cards whose presence the file gives. -/
structure CfgRead where
  st : CardsState
  seen : CardId → Bool

/-- A line of `cards_cfg_read`, cut in a key and a value. -/
def cfgReadKey (s : CfgRead) (key val : CStr) : CfgRead :=
  let line := cardsCfgLine s.st key val
  if line.1 && line.2.2 then
    match cardsFind (cfgCardId (key.drop 6)) with
    | none => { s with st := line.2.1 }
    | some i => ⟨line.2.1, update s.seen i true⟩
  else { s with st := line.2.1 }

/-- A line of `cards_cfg_read`. -/
def cfgReadLine (s : CfgRead) (line : List Byte) : CfgRead :=
  let line := line.takeWhile fun b => b != 0 && b != 0x0D && b != 0x0A
  let key := line.takeWhile (· != 0x3D)
  if key.length = line.length ∨ line.head? = some 0x23 then s
  else
    cfgReadKey s ((key.dropWhile (· == 0x20)).rdropWhile (· == 0x20))
      ((line.drop (key.length + 1)).dropWhile (· == 0x20))

/-- `fgets`, of `n` bytes at most. -/
def cfgFgets : Nat → List Byte → List Byte × List Byte
  | _, [] => ([], [])
  | 0, file => ([], file)
  | n + 1, b :: file =>
    if b = 0x0A then ([b], file)
    else
      let rest := cfgFgets n file
      (b :: rest.1, rest.2)

/-- The loop of `cards_cfg_read`. A line takes a byte at least. -/
def cfgReadLines : Nat → List Byte → CfgRead → CfgRead
  | 0, _, s => s
  | rounds + 1, file, s =>
    if file = [] then s
    else
      let line := cfgFgets 511 file
      cfgReadLines rounds line.2 (cfgReadLine s line.1)

/-- `cards_cfg_read`. -/
def cardsCfgRead (file : Option (List Byte)) : Bool × CfgRead :=
  let s : CfgRead := ⟨cardsStateDefaults, fun _ => false⟩
  match file with
  | none => (false, s)
  | some file => (true, cfgReadLines file.length file s)

/-! ## Choices -/

/-- A text of one line. -/
def SingleLine (text : CStr) : Prop := ∀ b ∈ text, b ≠ 0 ∧ b ≠ 0x0D ∧ b ≠ 0x0A

/-- The choices that the menu comes to. -/
inductive CardsReached : CardsState → Prop
  | defaults : CardsReached cardsStateDefaults
  | setOn {st : CardsState} (i : CardId) (on : Bool) :
      CardsReached st → CardsReached (cardsSetOn st i on)
  | edit {st : CardsState} (i : CardId) (p : Nat) (value : CStr) :
      CardsReached st → SingleLine value → value.length < cardValueMax →
      CardsReached (setValue st i p value)

/-- The value that is read for a value written, or left out. -/
def cfgKept (i : CardId) (param : CardParam) (value : CStr) : CStr :=
  if value = [] then (cardsParamDefault param).text
  else cfgLegacyVal (cfgParamKey i param) (value.dropWhile (· == 0x20))

/-! ## Lines -/

/-- A key that the line reader keeps as it is. -/
def cfgPlainKey (key : CStr) : Bool :=
  key.all (fun b => b != 0 && b != 0x0D && b != 0x0A && b != 0x3D) && key.head? != some 0x23 &&
    decide (key.length < 40) && key != [] &&
      (key.dropWhile (· == 0x20)).rdropWhile (· == 0x20) == key

/-- The keys written are those of the cards. -/
theorem cfgCardKey_target (i : CardId) :
    cfgPlainKey (cfgCardKey i) = true ∧ cfgLegacyKey (cfgCardKey i) = cfgCardKey i ∧
      cfgTarget (cfgCardKey i) = .card i ∧
      cardsFind (cfgCardId ((cfgCardKey i).drop 6)) = some i := by
  have hall : ∀ i ∈ cardsList, cfgPlainKey (cfgCardKey i) = true ∧
      cfgLegacyKey (cfgCardKey i) = cfgCardKey i ∧ cfgTarget (cfgCardKey i) = .card i ∧
      cardsFind (cfgCardId ((cfgCardKey i).drop 6)) = some i := by decide +kernel
  exact hall i (mem_cardsList i)

/-- The keys of the parameters are theirs, and the default values are kept. -/
theorem cfgParamKey_target (i : CardId) {q : CardParam × Nat} (hq : q ∈ i.desc.params.zipIdx) :
    cfgPlainKey (cfgParamKey i q.1) = true ∧
      cfgLegacyKey (cfgParamKey i q.1) = cfgParamKey i q.1 ∧
      cfgTarget (cfgParamKey i q.1) = .param i q.2 ∧
      cfgKept i q.1 (cardsParamDefault q.1).text = (cardsParamDefault q.1).text := by
  have hall : ∀ i ∈ cardsList, ∀ q ∈ i.desc.params.zipIdx,
      cfgPlainKey (cfgParamKey i q.1) = true ∧
      cfgLegacyKey (cfgParamKey i q.1) = cfgParamKey i q.1 ∧
      cfgTarget (cfgParamKey i q.1) = .param i q.2 ∧
      cfgKept i q.1 (cardsParamDefault q.1).text = (cardsParamDefault q.1).text := by
    decide +kernel
  exact hall i (mem_cardsList i) q hq

theorem cfgReadLine_key (s : CfgRead) {key val : CStr} (hkey : cfgPlainKey key = true)
    (hval : SingleLine val) :
    cfgReadLine s (key ++ 0x3D :: (val ++ [0x0A])) =
      cfgReadKey s key (val.dropWhile (· == 0x20)) := by
  simp only [cfgPlainKey, Bool.and_eq_true, List.all_eq_true, bne_iff_ne, ne_eq, beq_iff_eq,
    decide_eq_true_eq] at hkey
  obtain ⟨⟨⟨⟨hplain, hhash⟩, -⟩, hne⟩, hstrip⟩ := hkey
  have hline : (key ++ 0x3D :: (val ++ [0x0A])).takeWhile
      (fun b => b != 0 && b != 0x0D && b != 0x0A) = key ++ 0x3D :: val := by
    rw [List.takeWhile_append_of_pos, List.takeWhile_cons_of_pos (by decide),
      List.takeWhile_append_of_pos, List.takeWhile_cons_of_neg (by decide), List.append_nil]
    · intro b hb
      obtain ⟨hzero, hcr, hlf⟩ := hval b hb
      simp only [Bool.and_eq_true, bne_iff_ne]
      exact ⟨⟨hzero, hcr⟩, hlf⟩
    · intro b hb
      simp only [Bool.and_eq_true, bne_iff_ne]
      exact (hplain b hb).1
  have heq : (key ++ 0x3D :: val).takeWhile (· != 0x3D) = key := by
    rw [List.takeWhile_append_of_pos, List.takeWhile_cons_of_neg (by decide), List.append_nil]
    exact fun b hb => bne_iff_ne.mpr (hplain b hb).2
  have hhead : (key ++ 0x3D :: val).head? = key.head? := List.head?_append_of_ne_nil _ hne
  unfold cfgReadLine
  dsimp only
  rw [hline, heq, hhead, if_neg, hstrip]
  · congr 2
    rw [← List.drop_drop, List.drop_left]
    rfl
  · simp only [List.length_append, List.length_cons, not_or]
    exact ⟨by omega, hhash⟩

/-- What a line does to what was read before. -/
def CfgRead.take (s : CfgRead) : CfgEntry → CfgRead
  | .card i on => ⟨cardsSetOn s.st i on, update s.seen i true⟩
  | .param i q value =>
    let val := cfgLegacyVal (cfgParamKey i q.1) (value.dropWhile (· == 0x20))
    { s with st := setValue s.st i q.2 val }

/-- A line that can be written. -/
def CfgEntry.Fine : CfgEntry → Prop
  | .card _ _ => True
  | .param i q value =>
    q ∈ i.desc.params.zipIdx ∧ SingleLine value ∧ value.length < cardValueMax

theorem CfgEntry.Fine.plain {entry : CfgEntry} (h : entry.Fine) :
    cfgPlainKey entry.key = true ∧ SingleLine entry.val ∧ entry.val.length < cardValueMax := by
  cases entry with
  | card i on =>
    refine ⟨(cfgCardKey_target i).1, ?_⟩
    have hnon : (∀ b ∈ cstr "non", b ≠ 0 ∧ b ≠ 0x0D ∧ b ≠ 0x0A) ∧
        (cstr "non").length < cardValueMax := by decide +kernel
    have houi : (∀ b ∈ cstr "oui", b ≠ 0 ∧ b ≠ 0x0D ∧ b ≠ 0x0A) ∧
        (cstr "oui").length < cardValueMax := by decide +kernel
    cases on
    · exact hnon
    · exact houi
  | param i q value => exact ⟨(cfgParamKey_target i h.1).1, h.2⟩

theorem cfgReadLine_entry (s : CfgRead) {entry : CfgEntry} (h : entry.Fine) :
    cfgReadLine s (entry.key ++ 0x3D :: (entry.val ++ [0x0A])) = s.take entry := by
  obtain ⟨hkey, hval, -⟩ := h.plain
  rw [cfgReadLine_key s hkey hval]
  unfold cfgReadKey cardsCfgLine
  cases entry with
  | card i on =>
    obtain ⟨-, hlegacy, htarget, hfind⟩ := cfgCardKey_target i
    have hkept : cfgLegacyVal (cfgCardKey i)
        ((CfgEntry.card i on).val.dropWhile (· == 0x20)) = (CfgEntry.card i on).val := by
      have hnon : (cstr "non").dropWhile (· == 0x20) ≠ cstr "réelle" := by decide +kernel
      have houi : (cstr "oui").dropWhile (· == 0x20) ≠ cstr "réelle" := by decide +kernel
      unfold cfgLegacyVal
      cases on
      · exact if_neg fun hreelle => hnon hreelle.2
      · exact if_neg fun hreelle => houi hreelle.2
    have hon : strcaseEq (CfgEntry.card i on).val (cstr "oui") = on := by
      cases on
      · exact (by decide +kernel : strcaseEq (cstr "non") (cstr "oui") = false)
      · exact (by decide +kernel : strcaseEq (cstr "oui") (cstr "oui") = true)
    dsimp only [CfgEntry.key]
    rw [hlegacy, hkept, htarget]
    dsimp only
    rw [hfind, hon]
    rfl
  | param i q value =>
    obtain ⟨-, hlegacy, htarget, -⟩ := cfgParamKey_target i h.1
    dsimp only [CfgEntry.key, CfgEntry.val]
    rw [hlegacy, htarget]
    rfl

theorem cfgFgets_line {n : Nat} {line : List Byte} (rest : List Byte) (hline : ∀ b ∈ line, b ≠ 0x0A)
    (hlen : line.length < n) :
    cfgFgets n (line ++ 0x0A :: rest) = (line ++ [0x0A], rest) := by
  induction line generalizing n with
  | nil =>
    obtain ⟨n, rfl⟩ := Nat.exists_eq_add_of_le' (Nat.one_le_of_lt hlen)
    rfl
  | cons b line ih =>
    obtain ⟨n, rfl⟩ := Nat.exists_eq_add_of_le' (Nat.one_le_of_lt hlen)
    rw [List.length_cons] at hlen
    rw [List.cons_append, cfgFgets, if_neg (hline b List.mem_cons_self),
      ih (fun c hc => hline c (List.mem_cons_of_mem b hc)) (by omega)]
    rfl

/-- The file is read line by line. -/
theorem cfgReadLines_entries (entries : List CfgEntry) (h : ∀ entry ∈ entries, entry.Fine)
    (s : CfgRead) {rounds : Nat} (hrounds : (entries.flatMap fun entry =>
      entry.key ++ 0x3D :: (entry.val ++ [0x0A])).length ≤ rounds) :
    cfgReadLines rounds (entries.flatMap fun entry =>
      entry.key ++ 0x3D :: (entry.val ++ [0x0A])) s = entries.foldl CfgRead.take s := by
  induction entries generalizing s rounds with
  | nil => cases rounds <;> rfl
  | cons entry entries ih =>
    have hentry := h entry List.mem_cons_self
    obtain ⟨hkey, hval, hlen⟩ := hentry.plain
    rw [List.flatMap_cons] at hrounds ⊢
    have hfile : entry.key ++ 0x3D :: (entry.val ++ [0x0A]) ++ entries.flatMap (fun entry =>
        entry.key ++ 0x3D :: (entry.val ++ [0x0A])) = (entry.key ++ 0x3D :: entry.val) ++
          0x0A :: entries.flatMap (fun entry => entry.key ++ 0x3D :: (entry.val ++ [0x0A])) := by
      simp only [List.append_assoc, List.cons_append, List.nil_append]
    rw [hfile] at hrounds ⊢
    obtain ⟨rounds, rfl⟩ : ∃ n, rounds = n + 1 := by
      refine Nat.exists_eq_add_of_le' ?_
      simp only [List.length_append, List.length_cons] at hrounds
      omega
    simp only [cfgPlainKey, Bool.and_eq_true, List.all_eq_true, bne_iff_ne, ne_eq,
      decide_eq_true_eq] at hkey
    have hline : ∀ b ∈ entry.key ++ 0x3D :: entry.val, b ≠ 0x0A := by
      intro b hb
      obtain hb | hb := List.mem_append.mp hb
      · exact (hkey.1.1.1.1 b hb).1.2
      · obtain rfl | hb := List.mem_cons.mp hb
        · decide
        · exact (hval b hb).2.2
    have hfgets := cfgFgets_line (n := 511) (entries.flatMap fun entry =>
      entry.key ++ 0x3D :: (entry.val ++ [0x0A])) hline (by
        simp only [List.length_append, List.length_cons, cardValueMax] at hlen ⊢
        have hshort := hkey.1.1.2
        omega)
    unfold cfgReadLines
    rw [if_neg (by simp), hfgets]
    dsimp only
    rw [List.append_assoc, List.cons_append, cfgReadLine_entry s hentry, List.foldl_cons]
    refine ih (fun e he => h e (List.mem_cons_of_mem entry he)) _ ?_
    simp only [List.length_append, List.length_cons] at hrounds
    omega

/-! ## The choices that are read -/

theorem setValue_on (st : CardsState) (i j : CardId) (p : Nat) (v : CStr) :
    (setValue st i p v j).on = (st j).on := by
  unfold setValue
  obtain rfl | hj := eq_or_ne j i
  · rw [update_self]
  · rw [update_of_ne hj]

theorem setValue_value (st : CardsState) (i j : CardId) (p q : Nat) (v : CStr) :
    (setValue st i p v j).value q =
      if j = i ∧ q = p then CardValue.ofText v else (st j).value q := by
  unfold setValue
  obtain rfl | hj := eq_or_ne j i
  · rw [update_self]
    dsimp only
    obtain rfl | hq := eq_or_ne q p
    · rw [update_self, if_pos ⟨rfl, rfl⟩]
    · rw [update_of_ne hq, if_neg fun heq => hq heq.2]
  · rw [update_of_ne hj, if_neg fun heq => hj heq.1]

theorem cardsSetOn_value (st : CardsState) (i j : CardId) (on : Bool) :
    (cardsSetOn st i on j).value = (st j).value := by
  unfold cardsSetOn
  split_ifs with hfixed
  · rfl
  · obtain rfl | hj := eq_or_ne j i
    · rw [update_self]
      dsimp only
      split_ifs <;> rfl
    · rw [update_of_ne hj]
      split_ifs <;> rfl

/-- A card after another one is turned on or off. -/
theorem cardsSetOn_on (st : CardsState) {i : CardId} (hfixed : i.desc.fixed = false) (on : Bool)
    (j : CardId) :
    (cardsSetOn st i on j).on =
      if j = i then on else if on && sameGroup i j then false else (st j).on := by
  unfold cardsSetOn
  rw [if_neg (by simp [hfixed])]
  obtain rfl | hj := eq_or_ne j i
  · rw [update_self, if_pos rfl]
  · rw [update_of_ne hj, if_neg hj, bne_iff_ne.mpr hj, Bool.and_true]
    split_ifs <;> rfl

/-- What holds of the choices that the menu comes to. -/
structure CardsState.Chosen (st : CardsState) : Prop where
  fixed : ∀ i, i.desc.fixed = true → (st i).on = true
  group : ∀ i j, (st i).on = true → (st j).on = true → sameGroup i j = true → i = j
  single : ∀ i p, SingleLine ((st i).value p).text

theorem sameGroup_symm (i j : CardId) : sameGroup i j = sameGroup j i := by
  have hall : ∀ i ∈ cardsList, ∀ j ∈ cardsList, sameGroup i j = sameGroup j i := by
    decide +kernel
  exact hall i (mem_cardsList i) j (mem_cardsList j)

theorem cardsStateDefaults_chosen : cardsStateDefaults.Chosen where
  fixed i h := h
  group i j hi hj hgroup := by
    have hall : ∀ i ∈ cardsList, i.desc.fixed = true → ∀ j ∈ cardsList, sameGroup i j = false := by
      decide +kernel
    rw [hall i (mem_cardsList i) hi j (mem_cardsList j)] at hgroup
    exact absurd hgroup Bool.false_ne_true
  single i p := by
    have hall : ∀ i ∈ cardsList, ∀ param ∈ i.desc.params,
        ∀ b ∈ (cardsParamDefault param).text, b ≠ 0 ∧ b ≠ 0x0D ∧ b ≠ 0x0A := by decide +kernel
    show SingleLine (cardDefaults i p).text
    unfold cardDefaults
    cases hparam : i.desc.params[p]? with
    | none => exact fun b hb => absurd hb List.not_mem_nil
    | some param => exact hall i (mem_cardsList i) param (List.mem_of_getElem? hparam)

theorem CardsState.Chosen.setOn {st : CardsState} (h : st.Chosen) (i : CardId) (on : Bool) :
    (cardsSetOn st i on).Chosen := by
  cases hfixed : i.desc.fixed with
  | true =>
    have hkept : cardsSetOn st i on = st := if_pos hfixed
    rwa [hkept]
  | false =>
    refine ⟨fun j hj => ?_, fun j k hj hk hgroup => ?_, fun j p => ?_⟩
    · have hnone : ∀ i ∈ cardsList, ∀ j ∈ cardsList, j.desc.fixed = true →
          sameGroup i j = false := by decide +kernel
      have hne : j ≠ i := by
        rintro rfl
        exact absurd (hj.symm.trans hfixed) (by decide)
      rw [cardsSetOn_on st hfixed, if_neg hne,
        hnone i (mem_cardsList i) j (mem_cardsList j) hj, Bool.and_false]
      exact h.fixed j hj
    · rw [cardsSetOn_on st hfixed] at hj hk
      split_ifs at hj hk with hji hki hoff hoff' hki hoff
      · rw [hji, hki]
      · rw [hji] at hgroup
        exact absurd (by rw [hj, hgroup]; rfl) hoff
      · rw [hki, sameGroup_symm] at hgroup
        exact absurd (by rw [hk, hgroup]; rfl) hoff'
      · exact h.group j k hj hk hgroup
    · rw [cardsSetOn_value]
      exact h.single j p

theorem CardsState.Chosen.edit {st : CardsState} (h : st.Chosen) (i : CardId) (p : Nat)
    {value : CStr} (hsingle : SingleLine value) : (setValue st i p value).Chosen := by
  refine ⟨fun j hj => ?_, fun j k hj hk => ?_, fun j q => ?_⟩
  · rw [setValue_on]
    exact h.fixed j hj
  · rw [setValue_on] at hj hk
    exact h.group j k hj hk
  · rw [setValue_value]
    split_ifs
    · exact fun b hb => hsingle b (List.mem_of_mem_take hb)
    · exact h.single j q

theorem CardsReached.chosen {st : CardsState} (h : CardsReached st) : st.Chosen := by
  induction h with
  | defaults => exact cardsStateDefaults_chosen
  | setOn i on _ ih => exact ih.setOn i on
  | edit i p value _ hsingle _ ih => exact ih.edit i p hsingle

/-- The lines of a card: the one that says whether it is on, and then those of its parameters. -/
theorem mem_cfgCardEntries {st : CardsState} {i : CardId} {entry : CfgEntry}
    (h : entry ∈ cfgCardEntries st i) : i.desc.fixed = false ∧ (entry = .card i (st i).on ∨
      ∃ q ∈ i.desc.params.zipIdx, ((st i).value q.2).text ≠ [] ∧
        entry = .param i q ((st i).value q.2).text) := by
  unfold cfgCardEntries at h
  split_ifs at h with hfixed hon
  · exact absurd h List.not_mem_nil
  all_goals
    refine ⟨Bool.eq_false_iff.mpr hfixed, ?_⟩
    obtain rfl | h := List.mem_cons.mp h
    · exact .inl rfl
  · obtain ⟨q, hq, hentry⟩ := List.mem_filterMap.mp h
    dsimp only at hentry
    split_ifs at hentry with hwritten
    simp only [Bool.and_eq_true, decide_eq_true_eq] at hwritten
    exact .inr ⟨q, hq, hwritten.1.1, (Option.some.inj hentry).symm⟩
  · exact absurd h List.not_mem_nil

theorem cfgEntries_fine {st : CardsState} (h : st.Chosen) {entry : CfgEntry}
    (hentry : entry ∈ cfgEntries st) : entry.Fine := by
  obtain ⟨i, -, hi⟩ := List.mem_flatMap.mp hentry
  obtain ⟨-, rfl | ⟨q, hq, -, rfl⟩⟩ := mem_cfgCardEntries hi
  · trivial
  · exact ⟨hq, h.single i q.2, ((st i).value q.2).fits⟩

/-- Where no line turns a card on or off, they stay as they are. -/
theorem foldl_take_on (entries : List CfgEntry) (h : ∀ i on, .card i on ∉ entries) (s : CfgRead)
    (j : CardId) : ((entries.foldl CfgRead.take s).st j).on = (s.st j).on := by
  induction entries generalizing s with
  | nil => rfl
  | cons entry entries ih =>
    rw [List.foldl_cons, ih fun i on hmem => h i on (List.mem_cons_of_mem entry hmem)]
    cases entry with
    | card i on => exact absurd List.mem_cons_self (h i on)
    | param i q value => exact setValue_on _ _ _ _ _

theorem foldl_card_on (st : CardsState) (s : CfgRead) {i : CardId} (hfixed : i.desc.fixed = false)
    (j : CardId) :
    (((cfgCardEntries st i).foldl CfgRead.take s).st j).on =
      (cardsSetOn s.st i (st i).on j).on := by
  unfold cfgCardEntries
  rw [if_neg (by simp [hfixed]), List.foldl_cons]
  refine foldl_take_on _ ?_ _ j
  intro k on hmem
  split_ifs at hmem
  · obtain ⟨q, -, hq⟩ := List.mem_filterMap.mp hmem
    dsimp only at hq
    split_ifs at hq
    exact absurd (Option.some.inj hq) (by simp)
  · exact absurd hmem List.not_mem_nil

/-- The cards that have been read are on or off as they were. -/
theorem foldl_cards_on {st : CardsState} (h : st.Chosen) (cards : List CardId) (s : CfgRead)
    (hs : ∀ j, j ∉ cards ∨ j.desc.fixed = true → (s.st j).on = (st j).on) (j : CardId) :
    (((cards.flatMap (cfgCardEntries st)).foldl CfgRead.take s).st j).on = (st j).on := by
  induction cards generalizing s with
  | nil => exact hs j (.inl List.not_mem_nil)
  | cons i cards ih =>
    rw [List.flatMap_cons, List.foldl_append]
    refine ih _ ?_
    intro j hj
    cases hfixed : i.desc.fixed with
    | true =>
      have hnone : cfgCardEntries st i = [] := if_pos hfixed
      rw [hnone]
      refine hs j ?_
      obtain rfl | hne := eq_or_ne j i
      · exact .inr hfixed
      · exact hj.imp_left fun hnot => by simp [hne, hnot]
    | false =>
      rw [foldl_card_on st s hfixed, cardsSetOn_on _ hfixed]
      split_ifs with hji hoff
      · rw [hji]
      · -- a card that the one read turns off was not on beside it
        obtain ⟨hon, hgroup⟩ := Bool.and_eq_true_iff.mp hoff
        refine (Bool.eq_false_iff.mpr fun hjon => hji ?_).symm
        exact (h.group i j hon hjon hgroup).symm
      · exact hs j (hj.imp_left fun hnot => by simp [hji, hnot])

theorem foldl_seen (entries : List CfgEntry) (s : CfgRead) {i : CardId} {on : Bool}
    (h : .card i on ∈ entries ∨ s.seen i = true) :
    (entries.foldl CfgRead.take s).seen i = true := by
  induction entries generalizing s with
  | nil => exact h.resolve_left List.not_mem_nil
  | cons entry entries ih =>
    refine ih _ ?_
    obtain hmem | hseen := h
    · obtain rfl | hmem := List.mem_cons.mp hmem
      · exact .inr (update_self _ _ _)
      · exact .inl hmem
    · refine .inr ?_
      cases entry with
      | card j on =>
        show update s.seen j true i = true
        obtain rfl | hne := eq_or_ne i j
        · exact update_self _ _ _
        · rwa [update_of_ne hne]
      | param j q value => exact hseen

/-- The value that is read is the one of the lines of its parameter. -/
theorem foldl_value (entries : List CfgEntry) (s : CfgRead) (i : CardId) (p : Nat) (w : CardValue)
    (hlines : ∀ q value, .param i q value ∈ entries → q.2 = p →
      CardValue.ofText (cfgLegacyVal (cfgParamKey i q.1) (value.dropWhile (· == 0x20))) = w)
    (h : (∃ q value, .param i q value ∈ entries ∧ q.2 = p) ∨ (s.st i).value p = w) :
    ((entries.foldl CfgRead.take s).st i).value p = w := by
  induction entries generalizing s with
  | nil => exact h.resolve_left fun ⟨_, _, hmem, _⟩ => absurd hmem List.not_mem_nil
  | cons entry entries ih =>
    refine ih _ (fun q value hmem => hlines q value (List.mem_cons_of_mem entry hmem)) ?_
    obtain ⟨q, value, hmem, hp⟩ | hs := h
    · obtain rfl | hmem := List.mem_cons.mp hmem
      · refine .inr ?_
        show (setValue s.st i q.2 _ i).value p = w
        rw [setValue_value, if_pos ⟨rfl, hp.symm⟩]
        exact hlines q value List.mem_cons_self hp
      · exact .inl ⟨q, value, hmem, hp⟩
    · refine .inr ?_
      cases entry with
      | card j on =>
        show (cardsSetOn s.st j on i).value p = w
        rwa [cardsSetOn_value]
      | param j q value =>
        show (setValue s.st j q.2 _ i).value p = w
        rw [setValue_value]
        split_ifs with heq
        · obtain ⟨rfl, rfl⟩ := heq
          exact hlines q value List.mem_cons_self rfl
        · exact hs

theorem cfgKept_fits (i : CardId) (param : CardParam) (value : CardValue) :
    (cfgKept i param value.text).length < cardValueMax := by
  unfold cfgKept cfgLegacyVal
  split_ifs
  · exact (cardsParamDefault param).fits
  · decide +kernel
  · exact (List.dropWhile_sublist _).length_le.trans_lt value.fits

/-- A line of a parameter that applies has its value. -/
theorem mem_cfgEntries_param {st : CardsState} {i : CardId} {q : CardParam × Nat} {value : CStr}
    (h : .param i q value ∈ cfgEntries st) : q ∈ i.desc.params.zipIdx ∧ value ≠ [] ∧
      value = ((st i).value q.2).text := by
  obtain ⟨j, -, hj⟩ := List.mem_flatMap.mp h
  obtain ⟨-, heq | ⟨q', hq', hne, heq⟩⟩ := mem_cfgCardEntries hj
  · exact absurd heq (by simp)
  · obtain ⟨rfl, rfl, rfl⟩ := CfgEntry.param.inj heq
    exact ⟨hq', hne, rfl⟩

/-- A value is written, or it is read as the default one. -/
theorem cfgEntries_param {st : CardsState} {i : CardId} (hfixed : i.desc.fixed = false)
    (hon : (st i).on = true) {q : CardParam × Nat} (hq : q ∈ i.desc.params.zipIdx)
    (happlies : cardsParamApplies i (st i) q.1 = true) :
    .param i q ((st i).value q.2).text ∈ cfgEntries st ∨
      cfgKept i q.1 ((st i).value q.2).text = (cardsParamDefault q.1).text := by
  by_cases hempty : ((st i).value q.2).text = []
  · exact .inr (if_pos hempty)
  · by_cases hdefault : ((st i).value q.2).text = (cardsParamDefault q.1).text
    · rw [hdefault]
      exact .inr (cfgParamKey_target i hq).2.2.2
    · refine .inl (List.mem_flatMap.mpr ⟨i, mem_cardsList i, ?_⟩)
      unfold cfgCardEntries
      rw [if_neg (by simp [hfixed]), if_pos hon]
      refine List.mem_cons_of_mem _ (List.mem_filterMap.mpr ⟨q, hq, if_pos ?_⟩)
      simp [hempty, isDefault, hdefault, happlies]

/-- The choices that the menu comes to, written and read back. -/
theorem cardsCfg_trip {st : CardsState} (h : CardsReached st) :
    ∃ s, cardsCfgRead (some (cardsCfgWrite st)) = (true, s) ∧
      (∀ i, (s.st i).on = (st i).on) ∧
      (∀ i, i.desc.fixed = false → s.seen i = true) ∧
      ∀ i, (st i).on = true → ∀ q ∈ i.desc.params.zipIdx,
        cardsParamApplies i (st i) q.1 = true →
          ((s.st i).value q.2).text = cfgKept i q.1 ((st i).value q.2).text := by
  have hchosen := h.chosen
  refine ⟨(cfgEntries st).foldl CfgRead.take ⟨cardsStateDefaults, fun _ => false⟩,
    Prod.ext rfl ?_, ?_, ?_, ?_⟩
  · exact cfgReadLines_entries _ (fun entry => cfgEntries_fine hchosen) _ le_rfl
  · refine foldl_cards_on hchosen cardsList _ ?_
    rintro j (hnot | hfixed)
    · exact absurd (mem_cardsList j) hnot
    · exact hfixed.trans (hchosen.fixed j hfixed).symm
  · intro i hfixed
    refine foldl_seen _ _ (.inl (show CfgEntry.card i (st i).on ∈ cfgEntries st from ?_))
    refine List.mem_flatMap.mpr ⟨i, mem_cardsList i, ?_⟩
    unfold cfgCardEntries
    rw [if_neg (by simp [hfixed])]
    exact List.mem_cons_self
  · intro i hon q hq happlies
    have hparam : i.desc.params[q.2]? = some q.1 := List.mem_zipIdx_iff_getElem?.mp hq
    have hfixed : i.desc.fixed = false := by
      have hnone : ∀ i ∈ cardsList, i.desc.fixed = true → i.desc.params = [] := by decide +kernel
      refine Bool.eq_false_iff.mpr fun hfixed => ?_
      rw [hnone i (mem_cardsList i) hfixed] at hq
      exact absurd hq List.not_mem_nil
    have hvalue := foldl_value (cfgEntries st) ⟨cardsStateDefaults, fun _ => false⟩ i q.2
      (.ofText (cfgKept i q.1 ((st i).value q.2).text)) ?_ ?_
    · rw [hvalue]
      exact CardValue.text_ofText (cfgKept_fits i q.1 _)
    · intro q' value hmem hp
      obtain ⟨hq', hne, rfl⟩ := mem_cfgEntries_param hmem
      have hparam' : i.desc.params[q'.2]? = some q'.1 := List.mem_zipIdx_iff_getElem?.mp hq'
      rw [hp, hparam] at hparam'
      obtain rfl : q' = q := Prod.ext (Option.some.inj hparam').symm hp
      unfold cfgKept
      rw [if_neg hne]
    · obtain hmem | hdefault := cfgEntries_param hfixed hon hq happlies
      · exact .inl ⟨q, _, hmem, rfl⟩
      · refine .inr ?_
        rw [hdefault, CardValue.ofText_text]
        show cardDefaults i q.2 = _
        unfold cardDefaults
        rw [hparam]

/-- The Microdisc turned on, and its ROM emptied. -/
def microdiscNoRom : CardsState :=
  setValue (cardsSetOn cardsStateDefaults .microdisc true) .microdisc 0 []

theorem microdiscNoRom_reached : CardsReached microdiscNoRom :=
  .edit .microdisc 0 [] (.setOn .microdisc true .defaults) (fun _ hb => absurd hb List.not_mem_nil)
    (by decide)

theorem cardsCfg_trip_noRom :
    ∃ s, cardsCfgRead (some (cardsCfgWrite microdiscNoRom)) = (true, s) ∧
      (∀ i, (s.st i).on = (microdiscNoRom i).on) ∧
      (∀ i, i.desc.fixed = false → s.seen i = true) ∧
      ∀ i, (microdiscNoRom i).on = true → ∀ q ∈ i.desc.params.zipIdx,
        cardsParamApplies i (microdiscNoRom i) q.1 = true →
          ((s.st i).value q.2).text = cfgKept i q.1 ((microdiscNoRom i).value q.2).text :=
  cardsCfg_trip microdiscNoRom_reached

/-- The empty value is read as the default one. -/
theorem cardsCfg_noRom :
    ¬∀ st, CardsReached st → ∀ i, (st i).on = true → ∀ q ∈ i.desc.params.zipIdx,
      cardsParamApplies i (st i) q.1 = true →
        (((cardsCfgRead (some (cardsCfgWrite st))).2.st i).value q.2).text =
          ((st i).value q.2).text := by
  intro hall
  have hrom := hall microdiscNoRom microdiscNoRom_reached .microdisc (by decide +kernel)
    (⟨cstr "rom", .file, some (cstr "--disk-rom"), cstr "roms/microdis.rom"⟩, 0)
    (by decide +kernel) (by decide +kernel)
  exact absurd hrom (by decide +kernel)

/-! ## Any file -/

theorem cfgTarget_mode {key mode : CStr} (h : cfgTarget key = .legacyCard mode) :
    SingleLine mode := by
  have hmodes : SingleLine lociModeFw ∧ SingleLine lociModeHw := by
    unfold SingleLine
    decide +kernel
  unfold cfgTarget at h
  split_ifs at h
  · exact CfgTarget.legacyCard.inj h ▸ hmodes.1
  · exact CfgTarget.legacyCard.inj h ▸ hmodes.2
  all_goals grind

theorem CardsState.Chosen.line {st : CardsState} (h : st.Chosen) (key : CStr) {val : CStr}
    (hval : SingleLine val) : (cardsCfgLine st key val).2.1.Chosen := by
  unfold cardsCfgLine
  dsimp only
  split
  · exact h
  · split_ifs
    · exact (h.setOn .loci true).edit _ _ (cfgTarget_mode ‹_›)
    · exact h
  · exact h.setOn _ _
  · refine h.edit _ _ ?_
    unfold cfgLegacyVal
    split_ifs
    · exact @cfgTarget_mode (cstr "carte.loci_hw") _ (by decide +kernel)
    · exact hval

theorem cfgReadLine_chosen {s : CfgRead} (h : s.st.Chosen) (line : List Byte) :
    (cfgReadLine s line).st.Chosen := by
  unfold cfgReadLine cfgReadKey
  dsimp only
  generalize htext : line.takeWhile _ = text
  have hline (key : CStr) (n : Nat) :
      (cardsCfgLine s.st key ((text.drop n).dropWhile (· == 0x20))).2.1.Chosen := by
    refine h.line key fun b hb => ?_
    have hb := (List.dropWhile_sublist _).trans (List.drop_sublist _ _) |>.subset hb
    have hall := List.mem_takeWhile_imp (htext ▸ hb)
    simpa [and_assoc] using hall
  split_ifs
  · exact h
  · split <;> exact hline _ _
  · exact hline _ _

/-- Whatever the bytes of the file, of the cards that are read no two exclude each other. -/
theorem cardsCfgRead_chosen (file : Option (List Byte)) : (cardsCfgRead file).2.st.Chosen := by
  have hlines (rounds : Nat) (file : List Byte) (s : CfgRead) (h : s.st.Chosen) :
      (cfgReadLines rounds file s).st.Chosen := by
    induction rounds generalizing file s with
    | zero => exact h
    | succ rounds ih =>
      unfold cfgReadLines
      split_ifs
      · exact h
      · exact ih _ _ (cfgReadLine_chosen h _)
  cases file with
  | none => exact cardsStateDefaults_chosen
  | some file => exact hlines _ _ _ cardsStateDefaults_chosen

end Phosphoric
