import Phosphoric.Cards.Registry
import Phosphoric.Lib.Lookahead

/-!
# The command line of a cold restart

Model of `cards_state_from`, `cards_conflict` and `cards_build_argv`. A change of cards starts the
emulator again with the options of its command line that are no card's, followed by those of the
active cards; the new process reads the cards back from them.

Both functions go through the command line in the same way, an option taking the next argument when
its value is not attached to it.
-/

namespace Phosphoric

open Lookahead

/-! ## The host -/

/-- What the cards ask of the host: the serial ports found by USB and the LOCI backends of the
binary. A port's name fits in the buffers it is written to. -/
structure CardsHost where
  picowifiDetect : Option CStr
  lociUsbDetect : Option CStr
  lociBackendOk : CStr → Bool

/-- The fields of `emulator_t` that `cards_state_from` reads. -/
structure CardsMachine where
  cardOn : CardId → Bool
  diskromPath : Option CStr
  jasminRomPath : Option CStr
  romPath : Option CStr
  lociExternal : Bool
  serialSpec : Option CStr

/-- `loci_mode_ok`. -/
def lociModeOk (host : CardsHost) (mode : CStr) : Bool :=
  if mode = lociModeFw then host.lociBackendOk (cstr "emul")
  else if mode = lociModeHw then host.lociBackendOk (cstr "hw")
  else true

/-- `loci_modem_real_port`. -/
def lociModemRealPort (host : CardsHost) (port : CStr) : Option CStr :=
  if port ≠ [] then some port else host.picowifiDetect

/-- `loci_hw_port`. -/
def lociHwPort (host : CardsHost) (port : CStr) : Option CStr :=
  if port ≠ [] then some port else host.lociUsbDetect

/-- What is before the port in a serial transport at 115200 8N1. -/
def picowifiCom : CStr := cstr "com:115200,8,N,1,"

/-- `picowifi_serial_spec`. -/
def picowifiSerialSpec (dev : CStr) : CStr := picowifiCom ++ dev

/-- `loci_modem_of_spec`: the modem and its port. -/
def lociModemOfSpec (host : CardsHost) (spec : CStr) : Option (CStr × CStr) :=
  if spec = cstr "picowifi" then some (lociModemSim, [])
  else if picowifiCom.isPrefixOf spec && picowifiCom.length < spec.length then
    let dev := spec.drop picowifiCom.length
    -- a detected port is left empty: detection will find it again
    some (lociModemReal, if host.picowifiDetect = some dev then [] else dev)
  else none

/-! ## The state of a command line -/

/-- An ASCII letter in lower case. -/
def lowerAscii (b : Byte) : Byte := if 0x41#8 ≤ b ∧ b ≤ 0x5A#8 then b + 0x20#8 else b

/-- `strcasecmp(a, b) == 0`. -/
def strcaseEq (a b : CStr) : Bool := a.map lowerAscii == b.map lowerAscii

/-- The ACIA reduced to a picowifi modem beside an integrated LOCI, as LOCI's modem and port. -/
def lociModemOfAcia (host : CardsHost) (st : CardsState) : Option (CStr × CStr) :=
  if !(st .loci).on || !(st .acia).on || !lociModeIs st lociModeHle then none
  else if CardId.acia.desc.params.zipIdx.any fun p =>
      let v := ((st .acia).value p.2).text
      p.2 ≠ 0 && !(CardId.acia.desc.ioParam == some p.2 && strcaseEq v (cstr "0380")) &&
        !isDefault p.1 v then none
  else lociModemOfSpec host ((st .acia).value 0).text

/-- LOCI with a modem. -/
def setLociModem (st : CardsState) (modem port : CStr) : CardsState :=
  setValue (setValue st .loci (lociParam "modem") modem) .loci (lociParam "port") port

/-- `loci_modem_normalize`. -/
def lociModemNormalize (host : CardsHost) (st : CardsState) : CardsState :=
  match lociModemOfAcia host st with
  | none => st
  | some (modem, port) =>
    Function.update (setLociModem st modem port) .acia
      { on := false
        value := fun p =>
          if p < CardId.acia.desc.params.length then cardDefaults .acia p
          else (st .acia).value p }

/-- `loci_hw_normalize`. -/
def lociHwNormalize (host : CardsHost) (st : CardsState) : CardsState :=
  if lociValue st "port_usb" ≠ [] ∧ host.lociUsbDetect = some (lociValue st "port_usb") then
    setValue st .loci (lociParam "port_usb") []
  else st

/-- What the parameter `p` of a card does when the option is its own. -/
def cardParamOption (name : CStr) (val : Option CStr) (i : CardId) (st : CardsState)
    (p : CardParam × Nat) : CardsState :=
  if p.1.cli ≠ some name then st
  else
    let st :=
      if p.1.kind = .bool then setValue st i p.2 (cstr "oui")
      else val.elim st fun v => setValue st i p.2 v
    -- an option of LOCI enables it, one of a mode selects the mode
    if i = .loci then
      let st := cardsSetOn st i true
      match lociParamMode i p.1 with
      | some m => if m ≠ lociModeHle then setValue st i (paramFind i (cstr "mode")) m else st
      | none => st
    else st

/-- What an option does to a card. -/
def cardOption (name : CStr) (val : Option CStr) (st : CardsState) (i : CardId) : CardsState :=
  let st :=
    if i.desc.enableCli = some name then
      let st := cardsSetOn st i true
      match i.desc.enableParam, val with
      | some p, some v => setValue st i p v
      | _, _ => st
    else st
  i.desc.params.zipIdx.foldl (cardParamOption name val i) st

/-- What a card option does to the cards. -/
def applyOption (name : CStr) (val : Option CStr) (st : CardsState) : CardsState :=
  cardsList.foldl (cardOption name val) st

/-- An argument of the command line, and whether it takes the next. -/
def cardsCliStep (st : CardsState) (a : CStr) (next : Option CStr) : CardsState × Bool :=
  let name := optionName a
  let inl := (splitOpt a).2
  let takes := inl.isNone && optionTakesArg name && next.isSome
  if !isCardOption name then
    match extraOwner name with
    | some owner => (cardsSetOn st owner true, takes)
    | none => (st, false)
  else (applyOption name (if takes then next else inl) st, takes)

/-- The cards that the machine has from its configuration file. -/
def cardsFromMachine (host : CardsHost) (emu : CardsMachine) (st : CardsState) : CardsState :=
  let rom (st : CardsState) (i : CardId) (path : Option CStr) : CardsState :=
    match path with
    | some path => setValue (cardsSetOn st i true) i 0 path
    | none => cardsSetOn st i true
  let st := if emu.cardOn .microdisc then rom st .microdisc emu.diskromPath else st
  let st := if emu.cardOn .jasmin then rom st .jasmin emu.jasminRomPath else st
  let st :=
    if emu.cardOn .loci && !emu.lociExternal then
      setValue (cardsSetOn st .loci true) .loci (lociParam "menu")
        (if strstr (emu.romPath.getD []) (cstr "locirom") then cstr "oui" else cstr "non")
    else st
  if (st .loci).on && !(st .acia).on && emu.cardOn .acia then
    match emu.serialSpec.bind (lociModemOfSpec host) with
    | some (modem, port) => setLociModem st modem port
    | none => st
  else st

/-- `cards_state_from`. -/
def cardsStateFrom (host : CardsHost) (emu : Option CardsMachine) (argv : List CStr) :
    CardsState :=
  let st := scan cardsCliStep cardsStateDefaults argv.tail
  let st :=
    match emu with
    | some emu => cardsFromMachine host emu st
    | none => st
  lociHwNormalize host (lociModemNormalize host st)

/-! ## Conflicts -/

/-- `(unsigned)strtoul(s, NULL, 16)`. -/
def strtoul16 (s : CStr) : Nat :=
  let s := s.dropWhile fun b => b == 0x20#8 || (0x09#8 ≤ b && b ≤ 0x0D#8)
  let neg := s.head? == some 0x2D#8
  let s := if neg || s.head? == some 0x2B#8 then s.tail else s
  let hex? (b : Byte) : Option Nat :=
    if 0x30#8 ≤ b ∧ b ≤ 0x39#8 then some (b.toNat - 0x30)
    else if 0x41#8 ≤ lowerAscii b - 0x20#8 ∧ lowerAscii b - 0x20#8 ≤ 0x46#8 then
      some ((lowerAscii b).toNat - 0x61 + 10)
    else none
  let s :=
    match s with
    | 0x30#8 :: x :: d :: rest =>
      if lowerAscii x == 0x78#8 && (hex? d).isSome then d :: rest else s
    | _ => s
  let n := ((s.map hex?).takeWhile Option.isSome).foldl (fun n d => n * 16 + d.getD 0) 0
  if 2 ^ 64 ≤ n then 2 ^ 32 - 1
  else if neg then (2 ^ 64 - n) % 2 ^ 32
  else n % 2 ^ 32

/-- What `cards_conflict` reports. -/
inductive CardsConflict
  /-- « %s et %s se chevauchent en $%04X ». -/
  | overlap (j i : CardId) (addr : Nat)
  /-- « LOCI : mode « %s » absent de ce binaire ». -/
  | modeMissing (mode : CStr)
  /-- « LOCI firmware : indiquer le fichier ELF du firmware ». -/
  | noElf
  /-- « LOCI-USB : aucune détectée (indiquer le port) ». -/
  | noLociUsb
  /-- « Modem LOCI et ACIA 6551 : une seule ligne série à la fois ». -/
  | oneSerialLine
  /-- « Modem LOCI réel : aucun picowifi USB détecté (indiquer le port) ». -/
  | noPicowifi
  deriving DecidableEq

/-- The addresses of an active card, none for one without I/O. -/
def cardRange (st : CardsState) (i : CardId) : Option (Nat × Nat) :=
  if !(st i).on || i.desc.ioSize = 0 then none
  else
    let base :=
      match i.desc.ioParam with
      | some p => strtoul16 ((st i).value p).text
      | none => i.desc.ioBase
    if base = 0 then none else some (base, (base + i.desc.ioSize - 1) % 2 ^ 32)

/-- The first overlap, each card against those before it. -/
def cardsOverlap (st : CardsState) : Option CardsConflict :=
  (List.range cardsList.length).findSome? fun k =>
    match cardsList[k]? with
    | none => none
    | some i =>
      match cardRange st i with
      | none => none
      | some (lo, hi) =>
        (cardsList.take k).findSome? fun j =>
          match cardRange st j with
          | none => none
          | some (lo', hi') =>
            if hi' ≠ 0 ∧ lo ≤ hi' ∧ lo' ≤ hi then some (.overlap j i (max lo lo')) else none

/-- The conflicts of LOCI's mode. -/
def lociModeConflict (host : CardsHost) (st : CardsState) : Option CardsConflict :=
  if !(st .loci).on then none
  else if !lociModeOk host (lociValue st "mode") then some (.modeMissing (lociValue st "mode"))
  else if lociModeIs st lociModeFw && lociValue st "elf" == [] then some .noElf
  else if lociModeIs st lociModeHw && (lociHwPort host (lociValue st "port_usb")).isNone then
    some .noLociUsb
  else none

/-- The conflicts of LOCI's modem. -/
def lociModemConflict (host : CardsHost) (st : CardsState) : Option CardsConflict :=
  if !lociModemOn st then none
  else if (st .acia).on then some .oneSerialLine
  else if lociValue st "modem" == lociModemReal &&
      (lociModemRealPort host (lociValue st "port")).isNone then some .noPicowifi
  else none

/-- `cards_conflict`. -/
def cardsConflict (host : CardsHost) (st : CardsState) : Option CardsConflict :=
  ((cardsOverlap st).or (lociModeConflict host st)).or (lociModemConflict host st)

/-! ## The command line of a state -/

/-- `loci_hle`. -/
def lociHle (st : CardsState) : Bool := (st .loci).on && lociModeIs st lociModeHle

/-- `loci_menu`. -/
def lociMenu (st : CardsState) : Bool := lociHle st && lociValue st "menu" == cstr "oui"

/-- The ROM of LOCI's menu. -/
def lociMenuRom : CStr := cstr "roms/loci/locirom"

/-- `basic_rom`. -/
def basicRom : CStr := cstr "roms/basic11b.rom"

/-- LOCI off, or served by its firmware: its menu ROM makes no sense, and BASIC replaces it. -/
def restartRom (st : CardsState) (rom : CStr) : CStr :=
  if strstr rom (cstr "locirom") && !lociHle st then basicRom else rom

/-- The options that follow their card are kept. -/
def extraKept (st : CardsState) (owner : CardId) : Bool :=
  (st owner).on || (owner == .acia && lociModemOn st)

/-- What an argument of the original command line leaves, and whether it takes the next. -/
def cardsKeepStep (st : CardsState) (av : List CStr) (a : CStr) (next : Option CStr) :
    List CStr × Bool :=
  let name := optionName a
  let takes := (splitOpt a).2.isNone && optionTakesArg name && next.isSome
  if isCardOption name then (av, takes)
  else
    match extraOwner name with
    | some owner =>
      (if extraKept st owner then av ++ a :: (if takes then next.toList else []) else av, takes)
    | none =>
      match next with
      | some rom =>
        if name = cstr "-r" then
          (if lociMenu st then av else av ++ [cstr "-r", restartRom st rom], true)
        else (av ++ [a], false)
      | none => (av ++ [a], false)

/-- The options of a parameter. -/
def cardParamArgs (host : CardsHost) (st : CardsState) (i : CardId) (p : CardParam × Nat) :
    List CStr :=
  match p.1.cli with
  | none => []
  | some cli =>
    let v := ((st i).value p.2).text
    if !cardsParamApplies i (st i) p.1 then []
    else if i = .loci ∧ p.1.key = cstr "port_usb" then
      match lociHwPort host v with
      | some dev => [cli, dev]
      | none => []
    else if i.desc.enableParam = some p.2 then [cli, v]
    else if p.1.kind = .bool then if v = cstr "oui" then [cli] else []
    else if v ≠ [] ∧ !isDefault p.1 v then [cli, v]
    else []

/-- The options of an active card. -/
def cardArgs (host : CardsHost) (st : CardsState) (i : CardId) : List CStr :=
  match i.desc.enableCli with
  | none => []
  | some cli =>
    if !(st i).on || i.desc.fixed then []
    else
      (if i.desc.enableParam.isNone && (i != .loci || lociHle st) then [cli] else []) ++
        i.desc.params.zipIdx.flatMap (cardParamArgs host st i)

/-- The ACIA of LOCI's modem. -/
def lociModemArgs (host : CardsHost) (st : CardsState) : List CStr :=
  if lociHle st && !(st .acia).on then
    if lociValue st "modem" = lociModemSim then [cstr "--serial", cstr "picowifi"]
    else if lociValue st "modem" = lociModemReal then
      match lociModemRealPort host (lociValue st "port") with
      | some dev => [cstr "--serial", picowifiSerialSpec dev]
      | none => []
    else []
  else []

/-- What follows the options of the original command line. -/
def cardsArgs (host : CardsHost) (st : CardsState) : List CStr :=
  (if lociMenu st then [cstr "-r", lociMenuRom] else []) ++ cardsList.flatMap (cardArgs host st) ++
    lociModemArgs host st ++ [cstr "--no-config-cards"]

/-- `cards_build_argv`. -/
def cardsBuildArgv (host : CardsHost) (st : CardsState) (argv : List CStr) : List CStr :=
  scan (cardsKeepStep st) [argv.headD (cstr "oric1-emu")] argv.tail ++ cardsArgs host st

end Phosphoric
