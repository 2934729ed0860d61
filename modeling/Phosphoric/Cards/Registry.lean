import Phosphoric.Lib.Word
import Mathlib.Logic.Function.Basic

/-!
# The expansion cards

Model of the registry of `cards.c` with the entries of the card modules: the cards in the order of
the menu, their parameters, launch options and I/O addresses, and the choices made for them. Texts
are bytes, as in a C string. A value is at most `CARD_VALUE_MAX - 1` bytes long, as `snprintf` cuts
it.
-/

namespace Phosphoric

/-! ## Texts -/

/-- A C string, without its final NUL. -/
abbrev CStr := List Byte

/-- The bytes of a string literal. -/
def cstr (s : String) : CStr :=
  s.toList.flatMap fun c => (String.utf8EncodeChar c).map UInt8.toBitVec

/-- `strstr(hay, needle) != NULL`. -/
def strstr (hay needle : CStr) : Bool := hay.tails.any needle.isPrefixOf

/-- `CARD_VALUE_MAX`. -/
def cardValueMax : Nat := 192

/-- The value of a parameter. -/
@[ext] structure CardValue where
  text : CStr
  fits : text.length < cardValueMax
  deriving DecidableEq

/-- A text written in a value. -/
def CardValue.ofText (text : CStr) : CardValue where
  text := text.take (cardValueMax - 1)
  fits := by
    rw [List.length_take]
    simp only [cardValueMax]
    omega

/-- A text that fits is written whole. -/
theorem CardValue.text_ofText {text : CStr} (h : text.length < cardValueMax) :
    (CardValue.ofText text).text = text := by
  simp only [cardValueMax] at h
  exact List.take_of_length_le (by simp only [cardValueMax]; omega)

@[simp] theorem CardValue.ofText_text (v : CardValue) : CardValue.ofText v.text = v := by
  have htext := CardValue.text_ofText v.fits
  cases v with
  | mk text fits => rwa [CardValue.mk.injEq]

/-! ## Descriptions -/

/-- `card_param_kind_t`. -/
inductive CardParamKind
  | file | dir | text | hex | bool | choice
  deriving DecidableEq

/-- `card_param_t`: `def` is `dflt`. -/
structure CardParam where
  key : CStr
  kind : CardParamKind
  cli : Option CStr
  dflt : CStr
  deriving DecidableEq

/-- The cards. -/
inductive CardId
  | microdisc | jasmin | loci | acia | dtl2000 | mageco | oricon | sp0256 | mea8000 | hostfs | ulaNg
  deriving DecidableEq

/-- `card_desc_t`. -/
structure CardDesc where
  id : CStr
  group : Option CStr
  enableCli : Option CStr
  enableParam : Option Nat
  ioParam : Option Nat
  ioBase : Nat
  ioSize : Nat
  fixed : Bool
  params : List CardParam

/-- `LOCI_MODE_HLE`. -/
def lociModeHle : CStr := cstr "intégré"

/-- `LOCI_MODE_FW`. -/
def lociModeFw : CStr := cstr "firmware"

/-- `LOCI_MODE_HW`. -/
def lociModeHw : CStr := cstr "usb"

/-- `LOCI_MODEM_NONE`. -/
def lociModemNone : CStr := cstr "aucun"

/-- `LOCI_MODEM_SIM`. -/
def lociModemSim : CStr := cstr "simulé"

/-- `LOCI_MODEM_REAL`. -/
def lociModemReal : CStr := cstr "réel"

/-- The values of a choice. -/
def cardChoices (choices : List CStr) : CStr := (choices.intersperse (cstr "|")).flatten

/-- `k_desc` of each card. -/
def CardId.desc : CardId → CardDesc
  | .microdisc =>
    { id := cstr "microdisc", group := some (cstr "disque"), enableCli := some (cstr "--disk-rom")
      enableParam := some 0, ioParam := none, ioBase := 0x0310, ioSize := 9, fixed := false
      params := [⟨cstr "rom", .file, some (cstr "--disk-rom"), cstr "roms/microdis.rom"⟩] }
  | .jasmin =>
    { id := cstr "jasmin", group := some (cstr "disque"), enableCli := some (cstr "--jasmin-rom")
      enableParam := some 0, ioParam := none, ioBase := 0x03F4, ioSize := 12, fixed := false
      params := [⟨cstr "rom", .file, some (cstr "--jasmin-rom"), cstr "roms/jasmin.rom"⟩] }
  | .loci =>
    { id := cstr "loci", group := some (cstr "disque"), enableCli := some (cstr "--loci")
      enableParam := none, ioParam := none, ioBase := 0x03A0, ioSize := 32, fixed := false
      params :=
        [⟨cstr "mode", .choice, none, cardChoices [lociModeHle, lociModeFw, lociModeHw]⟩,
         ⟨cstr "menu", .bool, none, cstr "oui"⟩,
         ⟨cstr "sd", .file, some (cstr "--loci-sdimg"), []⟩,
         ⟨cstr "flash", .dir, some (cstr "--loci-flash"), []⟩,
         ⟨cstr "modem", .choice, none,
           cardChoices [lociModemNone, lociModemSim, lociModemReal]⟩,
         ⟨cstr "port", .text, none, []⟩,
         ⟨cstr "elf", .file, some (cstr "--loci-emu"), []⟩,
         ⟨cstr "fw_flash", .file, some (cstr "--loci-emu-flash"), []⟩,
         ⟨cstr "fw_usb", .file, some (cstr "--loci-usb-image"), []⟩,
         ⟨cstr "port_usb", .text, some (cstr "--loci-hw"), []⟩] }
  | .acia =>
    { id := cstr "acia", group := none, enableCli := some (cstr "--serial")
      enableParam := some 0, ioParam := some 1, ioBase := 0, ioSize := 4, fixed := false
      params :=
        [⟨cstr "transport", .text, some (cstr "--serial"), cstr "loopback"⟩,
         ⟨cstr "adresse", .hex, some (cstr "--acia-addr"), cstr "031C"⟩,
         ⟨cstr "bauds", .text, some (cstr "--serial-baud"), []⟩,
         ⟨cstr "tampon", .text, some (cstr "--serial-buffer"), []⟩,
         ⟨cstr "v23", .bool, some (cstr "--serial-v23"), cstr "non"⟩] }
  | .dtl2000 =>
    { id := cstr "dtl2000", group := none, enableCli := some (cstr "--dtl2000")
      enableParam := some 0, ioParam := some 1, ioBase := 0, ioSize := 6, fixed := false
      params :=
        [⟨cstr "transport", .text, some (cstr "--dtl2000"), cstr "loopback"⟩,
         ⟨cstr "adresse", .hex, some (cstr "--dtl2000-addr"), cstr "03F8"⟩] }
  | .mageco =>
    { id := cstr "mageco", group := some (cstr "midi"), enableCli := some (cstr "--mageco")
      enableParam := some 0, ioParam := some 1, ioBase := 0, ioSize := 2, fixed := false
      params :=
        [⟨cstr "transport", .text, some (cstr "--mageco"), cstr "loopback"⟩,
         ⟨cstr "adresse", .hex, some (cstr "--mageco-addr"), cstr "03FE"⟩] }
  | .oricon =>
    { id := cstr "oricon", group := some (cstr "midi"), enableCli := some (cstr "--oricon")
      enableParam := some 0, ioParam := none, ioBase := 0x031C, ioSize := 4, fixed := false
      params := [⟨cstr "transport", .text, some (cstr "--oricon"), cstr "loopback"⟩] }
  | .sp0256 =>
    { id := cstr "sp0256", group := none, enableCli := some (cstr "--sp0256-rom")
      enableParam := some 0, ioParam := some 1, ioBase := 0, ioSize := 1, fixed := false
      params :=
        [⟨cstr "rom", .file, some (cstr "--sp0256-rom"), cstr "roms/al2.bin"⟩,
         ⟨cstr "adresse", .hex, some (cstr "--sp0256-addr"), cstr "03F1"⟩] }
  | .mea8000 =>
    { id := cstr "mea8000", group := none, enableCli := some (cstr "--mea8000")
      enableParam := none, ioParam := some 0, ioBase := 0, ioSize := 2, fixed := false
      params := [⟨cstr "adresse", .hex, some (cstr "--mea8000-addr"), cstr "03FE"⟩] }
  | .hostfs =>
    { id := cstr "hostfs", group := none, enableCli := some (cstr "-h")
      enableParam := some 0, ioParam := none, ioBase := 0, ioSize := 0, fixed := false
      params := [⟨cstr "dossier", .dir, some (cstr "-h"), cstr "."⟩] }
  | .ulaNg =>
    { id := cstr "ula_ng", group := none, enableCli := none
      enableParam := none, ioParam := none, ioBase := 0x0340, ioSize := 32, fixed := true
      params := [] }

/-- The cards in the order of the menu, as `card_modules_place` puts them. -/
def cardsList : List CardId :=
  [.microdisc, .jasmin, .loci, .acia, .dtl2000, .mageco, .oricon, .sp0256, .mea8000, .hostfs,
   .ulaNg]

/-- `param_find`, the number of parameters if there is none. -/
def paramFind (i : CardId) (key : CStr) : Nat := i.desc.params.findIdx fun p => p.key == key

/-- `cards_param_default`. -/
def cardsParamDefault (p : CardParam) : CardValue :=
  .ofText (if p.kind = .choice then p.dflt.takeWhile (· != 0x7C#8) else p.dflt)

/-- `is_default`. -/
def isDefault (p : CardParam) (v : CStr) : Bool := v == (cardsParamDefault p).text

/-! ## Choices -/

/-- `card_choice_t`. -/
structure CardChoice where
  on : Bool
  value : Nat → CardValue

/-- `cards_state_t`. -/
abbrev CardsState := CardId → CardChoice

/-- The values of a card by default, empty past its parameters. -/
def cardDefaults (i : CardId) (p : Nat) : CardValue :=
  match i.desc.params[p]? with
  | some param => cardsParamDefault param
  | none => .ofText []

/-- `cards_state_defaults`. -/
def cardsStateDefaults : CardsState := fun i => { on := i.desc.fixed, value := cardDefaults i }

/-- `set_value`. -/
def setValue (st : CardsState) (i : CardId) (p : Nat) (v : CStr) : CardsState :=
  Function.update st i { st i with value := Function.update (st i).value p (.ofText v) }

/-- Cards of one exclusive group. -/
def sameGroup (i j : CardId) : Bool := i.desc.group.isSome && i.desc.group == j.desc.group

/-- `cards_set_on`. -/
def cardsSetOn (st : CardsState) (i : CardId) (on : Bool) : CardsState :=
  if i.desc.fixed then st
  else
    let st : CardsState := fun j =>
      if on && j != i && sameGroup i j then { st j with on := false } else st j
    Function.update st i { st i with on }

/-! ## Modes and modem of LOCI -/

/-- `k_loci_mode_params`. -/
def kLociModeParams : List (CStr × CStr) :=
  [(cstr "menu", lociModeHle), (cstr "sd", lociModeHle), (cstr "flash", lociModeHle),
   (cstr "modem", lociModeHle), (cstr "port", lociModeHle),
   (cstr "elf", lociModeFw), (cstr "fw_flash", lociModeFw), (cstr "fw_usb", lociModeFw),
   (cstr "port_usb", lociModeHw)]

/-- `loci_param_mode`. -/
def lociParamMode (i : CardId) (p : CardParam) : Option CStr :=
  if i = .loci then (kLociModeParams.find? fun m => p.key == m.1).map Prod.snd else none

/-- `loci_param`. -/
def lociParam (key : String) : Nat := paramFind .loci (cstr key)

/-- A value of the LOCI card. -/
def lociValue (st : CardsState) (key : String) : CStr := ((st .loci).value (lociParam key)).text

/-- `loci_mode_is`. -/
def lociModeIs (st : CardsState) (mode : CStr) : Bool := lociValue st "mode" == mode

/-- `cards_param_applies`. -/
def cardsParamApplies (i : CardId) (c : CardChoice) (p : CardParam) : Bool :=
  match lociParamMode i p with
  | none => true
  | some m => (c.value (paramFind i (cstr "mode"))).text == m

/-- `loci_modem_on`. -/
def lociModemOn (st : CardsState) : Bool :=
  (st .loci).on && lociModeIs st lociModeHle && lociValue st "modem" != lociModemNone

/-! ## Options -/

/-- The options of the modules without argument. -/
def cardModulesFlags : List CStr :=
  [cstr "--serial-v23", cstr "--serial-irq-on-rdrf", cstr "--mea8000"]

/-- `option_takes_arg`. -/
def optionTakesArg (opt : CStr) : Bool :=
  opt ∉ [cstr "--loci", cstr "--serial-v23", cstr "--serial-irq-on-rdrf",
    cstr "--serial-tcp-backpressure", cstr "--no-config-cards"] && opt ∉ cardModulesFlags

/-- `canon`. -/
def canon (opt : CStr) : CStr :=
  if opt == cstr "--hostfs" then cstr "-h" else if opt == cstr "--rom" then cstr "-r" else opt

/-- `extra_owner`. -/
def extraOwner (opt : CStr) : Option CardId :=
  if (cstr "--loci-").isPrefixOf opt then some .loci
  else if (cstr "--serial-").isPrefixOf opt then some .acia
  else none

/-- An option of the card: the one that enables it or the one of a parameter. -/
def CardId.mentions (i : CardId) (opt : CStr) : Bool :=
  i.desc.enableCli == some opt || i.desc.params.any fun p => p.cli == some opt

/-- `is_card_option`. -/
def isCardOption (opt : CStr) : Bool :=
  canon opt == cstr "--no-config-cards" || cardsList.any fun i => i.mentions (canon opt)

/-- `split_opt` in a buffer of 48 bytes: the name and the value after `=`. -/
def splitOpt (a : CStr) : CStr × Option CStr :=
  match if (cstr "--").isPrefixOf a then a.idxOf? 0x3D#8 else none with
  | some eq => ((a.take eq).take 47, some (a.drop (eq + 1)))
  | none => (a.take 47, none)

/-- The name both traversals of the command line go by. -/
def optionName (a : CStr) : CStr := canon (splitOpt a).1

end Phosphoric
