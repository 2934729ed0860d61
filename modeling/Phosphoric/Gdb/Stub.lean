import Phosphoric.Debugger.Observers
import Phosphoric.Gdb.Packet

/-!
# The GDB stub

`gdb_dispatch` of `src/network/gdbstub.c`: one packet without its frame, and the reply. The reply
is built in a buffer of `resp_size` bytes, which `gdb_stub_stopped` makes as large as the frame
buffer of `send_packet`: up to 549 bytes of memory, or 1098 characters, although a frame takes only
1095.

**Theorem (`gdbPacket_roundTrip`).** What a frame of `send_packet` carries is read back, behind any
acknowledgements, exactly up to 1095 characters, or 1096 if the checksum ends in 0. Every reply is
read back but the one to a read of more than 548 bytes, or of 548 bytes whose text has such a
checksum.
-/

namespace Phosphoric

/-- The code of an ASCII character. -/
def asciiChar (c : Char) : Byte := BitVec.ofNat 8 c.toNat

/-! ## State -/

/-- `watch_mode_t`. -/
inductive WatchMode
  | write | read | access | change
  deriving DecidableEq, Repr

/-- `watchpoint_t`. -/
structure Watchpoint where
  addr : Word
  mode : WatchMode
  lastValue : Byte
  hasLast : Bool
  deriving DecidableEq, Repr

/-- `DEBUGGER_MAX_WATCHPOINTS`. -/
abbrev debuggerMaxWatchpoints : Nat := 8

/-- The part of `gdb_stub_t` that packets use. -/
structure GdbStub where
  noAckMode : Bool
  /-- 5, or 2 after an interrupt. -/
  stopSignal : Byte
  deriving DecidableEq, Repr

/-- `gdb_action_t`. -/
inductive GdbAction
  | none | continue | step | detach
  deriving DecidableEq, Repr

/-- `emulator_t` as the stub sees it. -/
structure GdbTarget (ρ : Type) extends DebugTarget (ViaSys ρ) where
  debugger : Debugger
  watchpoints : List Watchpoint
  room : watchpoints.length ≤ debuggerMaxWatchpoints
  /-- `g_amap_rw`: the access map watches reads or writes. -/
  amapRw : Bool
  running : Bool

/-- What `gdb_dispatch` leaves. -/
structure GdbReply (ρ : Type) where
  action : GdbAction
  resp : CStr
  stub : GdbStub
  emu : GdbTarget ρ

variable {ρ : Type}

/-! ## Watchpoints -/

/-- `debugger_add_watchpoint_mode`; whether there was room. -/
def debuggerAddWatchpointMode (emu : GdbTarget ρ) (addr : Word) (mode : WatchMode) :
    Bool × GdbTarget ρ :=
  if h : emu.watchpoints.length < debuggerMaxWatchpoints then
    if emu.watchpoints.any fun w => w.addr == addr && w.mode == mode then (true, emu)
    else
      (true, { emu with
        watchpoints := emu.watchpoints ++ [⟨addr, mode, 0, false⟩]
        room := by simpa using h })
  else (false, emu)

/-- `remove_wp_at`. -/
def removeWpAt (emu : GdbTarget ρ) (addr : Word) : Bool × GdbTarget ρ :=
  match emu.watchpoints.findIdx? fun w => w.addr == addr with
  | some i =>
    (true, { emu with
      watchpoints := emu.watchpoints.eraseIdx i
      room := (List.length_eraseIdx_le ..).trans emu.room })
  | none => (false, emu)

/-- `debugger_install_watchpoint_trace`. -/
def debuggerInstallWatchpointTrace (emu : GdbTarget ρ) : GdbTarget ρ :=
  { emu with
    memory := { emu.memory with traceEnabled := !emu.watchpoints.isEmpty || emu.amapRw } }

/-! ## Numbers -/

/-- `parse_hex`: the number, whether it has a digit, and what follows. -/
def parseHex (s : CStr) : BitVec 32 × Bool × CStr :=
  let digits := s.takeWhile fun c => (hexval c).isSome
  (digits.foldl (fun v c => v <<< 4 ||| BitVec.ofNat 32 ((hexval c).getD 0)) 0#32,
    !digits.isEmpty, s.drop digits.length)

/-- `if (*s == ',') s++;` -/
def skipComma (s : CStr) : CStr := if s.head? = some (asciiChar ',') then s.tail else s

/-- Two digits, and what follows. -/
def hexByte : CStr → Option (Byte × CStr)
  | hi :: lo :: s =>
    match hexval hi, hexval lo with
    | some hi, some lo => some (BitVec.ofNat 8 (hi <<< 4 ||| lo), s)
    | _, _ => none
  | _ => none

def hexBytes : Nat → CStr → Option (List Byte)
  | 0, _ => some []
  | n + 1, s =>
    match hexByte s with
    | none => none
    | some (b, s) => (hexBytes n s).map (b :: ·)

/-- `addr,len`. -/
def gdbRange (s : CStr) : Option (Word × Nat × CStr) :=
  let (addr, ok1, s) := parseHex s
  let (len, ok2, s) := parseHex (skipComma s)
  if ok1 && ok2 then some (addr.setWidth 16, len.toNat, s) else none

/-! ## Registers -/

def regsToHex (emu : GdbTarget ρ) : CStr :=
  [emu.cpu.a, emu.cpu.x, emu.cpu.y, emu.cpu.sp, Word.lo emu.pc, Word.hi emu.pc,
    emu.cpu.p].flatMap emitByte

def hexToRegs (emu : GdbTarget ρ) (h : CStr) : GdbTarget ρ :=
  match hexBytes 7 h with
  | some [a, x, y, sp, lo, hi, p] =>
    { emu with cpu := { a := a, x := x, y := y, sp := sp, p := p }, pc := Word.mk hi lo }
  | _ => emu

/-- `p N`. -/
def gdbReadRegister (emu : GdbTarget ρ) (s : CStr) (respSize : Nat) : CStr :=
  let (n, ok, _) := parseHex s
  if !ok then (cstr "E01").take (respSize - 1)
  else match n.toNat with
  | 0 => emitByte emu.cpu.a
  | 1 => emitByte emu.cpu.x
  | 2 => emitByte emu.cpu.y
  | 3 => emitByte emu.cpu.sp
  | 4 => emitByte (Word.lo emu.pc) ++ emitByte (Word.hi emu.pc)
  | 5 => emitByte emu.cpu.p
  | _ => (cstr "E02").take (respSize - 1)

/-- `P N=VV`. -/
def gdbWriteRegister (emu : GdbTarget ρ) (s : CStr) : CStr × GdbTarget ρ :=
  let (n, ok, s) := parseHex s
  if !ok || s.head? != some (asciiChar '=') then (cstr "E01", emu)
  else
    let (v, vok, _) := parseHex s.tail
    let b : Byte := v.setWidth 8
    if !vok then (cstr "E01", emu)
    else match n.toNat with
    | 0 => (cstr "OK", { emu with cpu := { emu.cpu with a := b } })
    | 1 => (cstr "OK", { emu with cpu := { emu.cpu with x := b } })
    | 2 => (cstr "OK", { emu with cpu := { emu.cpu with y := b } })
    | 3 => (cstr "OK", { emu with cpu := { emu.cpu with sp := b } })
    -- the two bytes of the PC come low byte first
    | 4 => (cstr "OK", { emu with pc := Word.mk b ((v >>> 8).setWidth 8) })
    | 5 => (cstr "OK", { emu with cpu := { emu.cpu with p := b } })
    | _ => (cstr "E02", emu)

/-! ## Memory -/

section Dispatch

variable (bus : List (IoDevice (MemorySys (ViaSys ρ)))) (cb : ViaCallbacks ρ)
  (io : MemoryIo (ViaSys ρ)) (loci : LociEmu (ViaSys ρ))

/-- The bytes peeked. -/
def gdbPeekBytes : Nat → Word → GdbTarget ρ → List Byte × GdbTarget ρ
  | 0, _, emu => ([], emu)
  | n + 1, addr, emu =>
    let (b, target) := gdbPeek bus cb io loci addr emu.toDebugTarget
    let (bytes, emu) := gdbPeekBytes n (addr + 1#16) { emu with toDebugTarget := target }
    (b :: bytes, emu)

/-- The bytes written, up to the first that is none. -/
def gdbWriteBytes : Nat → Word → CStr → GdbTarget ρ → Bool × GdbTarget ρ
  | 0, _, _, emu => (true, emu)
  | n + 1, addr, s, emu =>
    match hexByte s with
    | none => (false, emu)
    | some (b, s) =>
      gdbWriteBytes n (addr + 1#16) s
        { emu with memory := memoryWrite (emulatorIo bus cb io) loci addr b emu.memory }

/-- `m addr,len`. -/
def gdbReadMemory (emu : GdbTarget ρ) (s : CStr) (respSize : Nat) : CStr × GdbTarget ρ :=
  match gdbRange s with
  | none => ((cstr "E01").take (respSize - 1), emu)
  | some (addr, len, _) =>
    let maxbytes := (respSize - 1) / 2
    let (bytes, emu) := gdbPeekBytes bus cb io loci (if len > maxbytes then maxbytes else len)
      addr emu
    (bytes.flatMap emitByte, emu)

/-- `M addr,len:data`. -/
def gdbWriteMemory (emu : GdbTarget ρ) (s : CStr) : CStr × GdbTarget ρ :=
  match gdbRange s with
  | none => (cstr "E01", emu)
  | some (addr, len, s) =>
    if s.head? != some (asciiChar ':') then (cstr "E01", emu)
    else
      let (ok, emu) := gdbWriteBytes bus cb io loci len addr s.tail emu
      (if ok then cstr "OK" else cstr "E01", emu)

/-! ## The other packets -/

/-- `c` and `s`, with an address or without. -/
def gdbResume (emu : GdbTarget ρ) (s : CStr) : GdbTarget ρ :=
  let (addr, ok, _) := parseHex s
  if ok then { emu with pc := addr.setWidth 16 } else emu

/-- The kind of watchpoint a `Z` packet names. -/
def gdbWatchMode (type : Byte) : Option WatchMode :=
  if type = asciiChar '2' then some .write
  else if type = asciiChar '3' then some .read
  else if type = asciiChar '4' then some .access
  else none

/-- `Z` and `z`, `s` being the text after the letter. What follows a lone letter is what the buffer
held before, `stale`. -/
def gdbBreakpoint (emu : GdbTarget ρ) (insert : Bool) (s stale : CStr) : CStr × GdbTarget ρ :=
  let type := s.headD 0
  let (addr, ok, _) := parseHex (skipComma (if s = [] then stale else s.tail))
  let addr := addr.setWidth 16
  if !ok then (cstr "E01", emu)
  else if type = asciiChar '0' ∨ type = asciiChar '1' then
    let (done, debugger) :=
      if insert then
        let (index, debugger) := debuggerAddBreakpoint emu.debugger addr
        (index.isSome, debugger)
      else removeBpAt emu.debugger addr
    (if done then cstr "OK" else cstr "E01", { emu with debugger := debugger })
  else match gdbWatchMode type with
  | none => ([], emu)
  | some mode =>
    let (done, emu) :=
      if insert then debuggerAddWatchpointMode emu addr mode else removeWpAt emu addr
    (if done then cstr "OK" else cstr "E01", debuggerInstallWatchpointTrace emu)

/-- `TARGET_XML`. -/
def targetXml : CStr := cstr <|
  "<?xml version=\"1.0\"?>\n" ++
  "<!DOCTYPE target SYSTEM \"gdb-target.dtd\">\n" ++
  "<target version=\"1.0\">\n" ++
  "  <architecture>mos6502</architecture>\n" ++
  "  <feature name=\"org.gnu.gdb.mos6502.cpu\">\n" ++
  "    <reg name=\"a\"  bitsize=\"8\"  type=\"int\"/>\n" ++
  "    <reg name=\"x\"  bitsize=\"8\"  type=\"int\"/>\n" ++
  "    <reg name=\"y\"  bitsize=\"8\"  type=\"int\"/>\n" ++
  "    <reg name=\"sp\" bitsize=\"8\"  type=\"data_ptr\"/>\n" ++
  "    <reg name=\"pc\" bitsize=\"16\" type=\"code_ptr\"/>\n" ++
  "    <reg name=\"p\"  bitsize=\"8\"  type=\"int\"/>\n" ++
  "  </feature>\n" ++
  "</target>\n"

/-- A part of the target description. -/
def gdbXferFeatures (s : CStr) (respSize : Nat) : CStr :=
  let (off, _, s) := parseHex s
  let (len, _, _) := parseHex (skipComma s)
  let xmlLen := targetXml.length
  if xmlLen ≤ off.toNat then (cstr "l").take (respSize - 1)
  else
    let avail := xmlLen - off.toNat
    let chunk := if len.toNat < avail then len.toNat else avail
    let chunk := if chunk > respSize - 2 then respSize - 2 else chunk
    (if xmlLen ≤ off.toNat + chunk then asciiChar 'l' else asciiChar 'm') ::
      (targetXml.drop off.toNat).take chunk

/-- The packets of `q`. -/
def gdbQuery (pkt : CStr) (respSize : Nat) : CStr :=
  if (cstr "qSupported").isPrefixOf pkt then
    (cstr "PacketSize=1024;qXfer:features:read+;QStartNoAckMode+").take (respSize - 1)
  else if pkt = cstr "qAttached" then (cstr "1").take (respSize - 1)
  else if pkt = cstr "qC" then (cstr "QC1").take (respSize - 1)
  else if pkt = cstr "qfThreadInfo" then (cstr "m01").take (respSize - 1)
  else if pkt = cstr "qsThreadInfo" then (cstr "l").take (respSize - 1)
  else if pkt = cstr "qOffsets" then (cstr "Text=0;Data=0;Bss=0").take (respSize - 1)
  else if (cstr "qSymbol").isPrefixOf pkt then (cstr "OK").take (respSize - 1)
  else if (cstr "qXfer:features:read:target.xml:").isPrefixOf pkt then
    gdbXferFeatures (pkt.drop 31) respSize
  else []

/-- The packets of `v`. -/
def gdbVPacket (pkt : CStr) (respSize : Nat) : GdbAction × CStr :=
  if pkt = cstr "vCont?" then (.none, (cstr "vCont;c;C;s;S").take (respSize - 1))
  else if (cstr "vCont;c").isPrefixOf pkt || (cstr "vCont;C").isPrefixOf pkt then (.continue, [])
  else if (cstr "vCont;s").isPrefixOf pkt || (cstr "vCont;S").isPrefixOf pkt then (.step, [])
  else (.none, [])

/-- `gdb_dispatch`. -/
def gdbDispatch (stub : GdbStub) (emu : GdbTarget ρ) (pkt stale : CStr) (respSize : Nat) :
    GdbReply ρ :=
  let put (text : CStr) : CStr := text.take (respSize - 1)
  match pkt with
  | [] => ⟨.none, [], stub, emu⟩
  | c :: s =>
    if c = asciiChar '?' then ⟨.none, put (cstr "S" ++ emitByte stub.stopSignal), stub, emu⟩
    else if c = asciiChar 'g' then ⟨.none, regsToHex emu, stub, emu⟩
    else if c = asciiChar 'G' then ⟨.none, put (cstr "OK"), stub, hexToRegs emu s⟩
    else if c = asciiChar 'p' then ⟨.none, gdbReadRegister emu s respSize, stub, emu⟩
    else if c = asciiChar 'P' then
      let (resp, emu) := gdbWriteRegister emu s
      ⟨.none, put resp, stub, emu⟩
    else if c = asciiChar 'm' then
      let (resp, emu) := gdbReadMemory bus cb io loci emu s respSize
      ⟨.none, resp, stub, emu⟩
    else if c = asciiChar 'M' then
      let (resp, emu) := gdbWriteMemory bus cb io loci emu s
      ⟨.none, put resp, stub, emu⟩
    else if c = asciiChar 'c' then ⟨.continue, [], stub, gdbResume emu s⟩
    else if c = asciiChar 's' then ⟨.step, [], stub, gdbResume emu s⟩
    else if c = asciiChar 'Z' ∨ c = asciiChar 'z' then
      let (resp, emu) := gdbBreakpoint emu (c = asciiChar 'Z') s stale
      ⟨.none, put resp, stub, emu⟩
    else if c = asciiChar 'H' then ⟨.none, put (cstr "OK"), stub, emu⟩
    else if c = asciiChar 'D' then ⟨.detach, put (cstr "OK"), stub, emu⟩
    else if c = asciiChar 'k' then ⟨.detach, [], stub, { emu with running := false }⟩
    else if c = asciiChar 'q' then ⟨.none, gdbQuery pkt respSize, stub, emu⟩
    else if c = asciiChar 'Q' then
      if pkt = cstr "QStartNoAckMode" then
        ⟨.none, put (cstr "OK"), { stub with noAckMode := true }, emu⟩
      else ⟨.none, [], stub, emu⟩
    else if c = asciiChar 'v' then
      let (action, resp) := gdbVPacket pkt respSize
      ⟨action, resp, stub, emu⟩
    else ⟨.none, [], stub, emu⟩

/-! ## Replies -/

/-- A reply whose frame is sent whole. -/
structure GdbShort (resp : CStr) : Prop where
  plain : PlainText resp
  short : resp.length ≤ 1095

theorem GdbShort.put {text : CStr} (h : GdbShort text) (n : Nat) : GdbShort (text.take n) where
  plain c hc := h.plain c (List.mem_of_mem_take hc)
  short := (List.length_take_le' n text).trans h.short

theorem GdbShort.ite {c : Prop} [Decidable c] {s t : CStr} (hs : GdbShort s) (ht : GdbShort t) :
    GdbShort (if c then s else t) := by
  split_ifs
  · exact hs
  · exact ht

theorem plainText_emitByte (b : Byte) : PlainText (emitByte b) := by
  revert b
  decide

theorem plainText_hex (bytes : List Byte) : PlainText (bytes.flatMap emitByte) := by
  intro c hc
  obtain ⟨b, -, hb⟩ := List.mem_flatMap.mp hc
  exact plainText_emitByte b c hb

theorem length_hex (bytes : List Byte) : (bytes.flatMap emitByte).length = 2 * bytes.length := by
  induction bytes with
  | nil => rfl
  | cons b bytes ih =>
    rw [List.flatMap_cons, List.length_append, ih, List.length_cons]
    show 2 + 2 * bytes.length = _
    omega

theorem gdbShort_hex (bytes : List Byte) (h : bytes.length ≤ 547) :
    GdbShort (bytes.flatMap emitByte) where
  plain := plainText_hex bytes
  short := by
    rw [length_hex]
    omega

/-- The texts that report an outcome, and the empty one. -/
def gdbOutcomes : List CStr := [[], cstr "OK", cstr "E01", cstr "E02"]

theorem gdbShort_outcome {text : CStr} (h : text ∈ gdbOutcomes) : GdbShort text := by
  have hall : ∀ text ∈ gdbOutcomes, PlainText text ∧ text.length ≤ 1095 := by decide
  exact ⟨(hall text h).1, (hall text h).2⟩

theorem gdbReadRegister_short (emu : GdbTarget ρ) (s : CStr) (respSize : Nat) :
    GdbShort (gdbReadRegister emu s respSize) := by
  have hone : ∀ b : Byte, GdbShort (emitByte b) := fun b =>
    gdbShort_hex [b] (Nat.le_of_ble_eq_true rfl)
  have htwo : ∀ b b' : Byte, GdbShort (emitByte b ++ emitByte b') := fun b b' =>
    gdbShort_hex [b, b'] (Nat.le_of_ble_eq_true rfl)
  unfold gdbReadRegister
  dsimp only
  refine GdbShort.ite ((gdbShort_outcome (by simp [gdbOutcomes])).put _) ?_
  split
  · exact hone _
  · exact hone _
  · exact hone _
  · exact hone _
  · exact htwo _ _
  · exact hone _
  · exact (gdbShort_outcome (by simp [gdbOutcomes])).put _

theorem gdbWriteRegister_outcome (emu : GdbTarget ρ) (s : CStr) :
    (gdbWriteRegister emu s).1 ∈ gdbOutcomes := by
  unfold gdbWriteRegister
  dsimp only
  split_ifs
  · simp [gdbOutcomes]
  · simp [gdbOutcomes]
  · split <;> simp [gdbOutcomes]

theorem gdbWriteMemory_outcome (emu : GdbTarget ρ) (s : CStr) :
    (gdbWriteMemory bus cb io loci emu s).1 ∈ gdbOutcomes := by
  unfold gdbWriteMemory
  split
  · simp [gdbOutcomes]
  · dsimp only
    split_ifs <;> simp [gdbOutcomes]

theorem gdbBreakpoint_outcome (emu : GdbTarget ρ) (insert : Bool) (s stale : CStr) :
    (gdbBreakpoint emu insert s stale).1 ∈ gdbOutcomes := by
  have hdone : ∀ done : Bool, (if done then cstr "OK" else cstr "E01") ∈ gdbOutcomes := by decide
  have herror : cstr "E01" ∈ gdbOutcomes := by decide
  unfold gdbBreakpoint
  generalize (if s = [] then stale else s.tail) = rest
  dsimp only
  split
  · exact herror
  · split
    · exact hdone _
    · split
      · simp [gdbOutcomes]
      · exact hdone _

theorem cstr_append (s t : String) : cstr (s ++ t) = cstr s ++ cstr t := by
  simp [cstr, String.toList_append]

theorem targetXml_short : PlainText targetXml ∧ targetXml.length ≤ 1094 := by
  unfold targetXml
  -- line by line: the kernel is slow on the text put together
  simp only [cstr_append]
  decide +kernel

theorem gdbXferFeatures_short (s : CStr) (respSize : Nat) :
    GdbShort (gdbXferFeatures s respSize) := by
  have hxml := targetXml_short
  have hend : GdbShort (cstr "l") := ⟨by decide, by decide⟩
  have hmark : ∀ (last : Prop) [Decidable last],
      PlainText [if last then asciiChar 'l' else asciiChar 'm'] := by
    intro last _
    split
    · decide
    · decide
  have hpart : ∀ off chunk : Nat, ∀ c : Byte, PlainText [c] →
      GdbShort (c :: (targetXml.drop off).take chunk) := by
    intro off chunk c hc
    refine ⟨fun d hd => ?_, ?_⟩
    · rcases List.mem_cons.mp hd with rfl | hd
      · exact hc d List.mem_cons_self
      · exact hxml.1 d (List.mem_of_mem_drop (List.mem_of_mem_take hd))
    · have hlen := List.length_take_le' chunk (targetXml.drop off)
      rw [List.length_drop] at hlen
      rw [List.length_cons]
      omega
  unfold gdbXferFeatures
  dsimp only
  split
  · exact hend.put _
  · exact hpart _ _ _ (hmark _)

/-- The fixed texts of the other replies. -/
def gdbTexts : List CStr :=
  [cstr "PacketSize=1024;qXfer:features:read+;QStartNoAckMode+", cstr "1", cstr "QC1", cstr "m01",
    cstr "l", cstr "Text=0;Data=0;Bss=0", cstr "vCont;c;C;s;S"]

theorem gdbShort_text {text : CStr} (h : text ∈ gdbTexts) : GdbShort text := by
  have hall : ∀ text ∈ gdbTexts, PlainText text ∧ text.length ≤ 1095 := by decide
  exact ⟨(hall text h).1, (hall text h).2⟩

theorem gdbQuery_short (pkt : CStr) (respSize : Nat) : GdbShort (gdbQuery pkt respSize) := by
  unfold gdbQuery
  refine GdbShort.ite ((gdbShort_text ?_).put _) ?_
  · simp [gdbTexts]
  refine GdbShort.ite ((gdbShort_text (by simp [gdbTexts])).put _) ?_
  refine GdbShort.ite ((gdbShort_text (by simp [gdbTexts])).put _) ?_
  refine GdbShort.ite ((gdbShort_text (by simp [gdbTexts])).put _) ?_
  refine GdbShort.ite ((gdbShort_text (by simp [gdbTexts])).put _) ?_
  refine GdbShort.ite ((gdbShort_text (by simp [gdbTexts])).put _) ?_
  refine GdbShort.ite ((gdbShort_outcome (by simp [gdbOutcomes])).put _) ?_
  exact GdbShort.ite (gdbXferFeatures_short _ _) (gdbShort_outcome (by simp [gdbOutcomes]))

theorem gdbVPacket_short (pkt : CStr) (respSize : Nat) : GdbShort (gdbVPacket pkt respSize).2 := by
  unfold gdbVPacket
  split_ifs
  · exact (gdbShort_text (by simp [gdbTexts])).put _
  · exact gdbShort_outcome (by simp [gdbOutcomes])
  · exact gdbShort_outcome (by simp [gdbOutcomes])
  · exact gdbShort_outcome (by simp [gdbOutcomes])

/-! ## Reads of memory -/

/-- The packet is a read of memory: the address and the length. -/
def gdbReadArgs : CStr → Option (Word × Nat)
  | [] => none
  | c :: s => if c = asciiChar 'm' then (gdbRange s).map fun (addr, len, _) => (addr, len) else none

theorem gdbReadMemory_bytes (emu : GdbTarget ρ) {s : CStr} {addr : Word} {len : Nat}
    (h : (gdbRange s).map (fun (addr, len, _) => (addr, len)) = some (addr, len)) :
    (gdbReadMemory bus cb io loci emu s gdbBufSize).1 =
      (gdbPeekBytes bus cb io loci (min len 549) addr emu).1.flatMap emitByte := by
  obtain ⟨⟨addr', len', s'⟩, hrange, heq⟩ := Option.map_eq_some_iff.mp h
  obtain ⟨rfl, rfl⟩ := Prod.mk.inj heq
  have hmin : (if len' > (gdbBufSize - 1) / 2 then (gdbBufSize - 1) / 2 else len') =
      min len' 549 := by
    show (if len' > 549 then 549 else len') = min len' 549
    split_ifs <;> omega
  unfold gdbReadMemory
  rw [hrange]
  dsimp only
  rw [hmin]

theorem gdbReadMemory_refused (emu : GdbTarget ρ) {s : CStr}
    (h : (gdbRange s).map (fun (addr, len, _) => (addr, len)) = none) (respSize : Nat) :
    GdbShort (gdbReadMemory bus cb io loci emu s respSize).1 := by
  rw [Option.map_eq_none_iff] at h
  unfold gdbReadMemory
  rw [h]
  exact (gdbShort_outcome (by simp [gdbOutcomes])).put _

theorem length_gdbPeekBytes (n : Nat) (addr : Word) (emu : GdbTarget ρ) :
    (gdbPeekBytes bus cb io loci n addr emu).1.length = n := by
  induction n generalizing addr emu with
  | zero => rfl
  | succ n ih => exact congrArg Nat.succ (ih _ _)

theorem GdbReply.short_ite {c : Prop} [Decidable c] {r r' : GdbReply ρ}
    (h : c → GdbShort r.resp) (h' : GdbShort r'.resp) : GdbShort (if c then r else r').resp := by
  by_cases hc : c
  · rw [if_pos hc]
    exact h hc
  · rw [if_neg hc]
    exact h'

/-- Every packet but a read of memory. -/
theorem gdbDispatch_short (stub : GdbStub) (emu : GdbTarget ρ) {pkt : CStr} (stale : CStr)
    (h : gdbReadArgs pkt = none) :
    GdbShort (gdbDispatch bus cb io loci stub emu pkt stale gdbBufSize).resp := by
  have hempty : GdbShort [] := gdbShort_outcome (by simp [gdbOutcomes])
  have hok : GdbShort (cstr "OK") := gdbShort_outcome (by simp [gdbOutcomes])
  have hstop : GdbShort (cstr "S" ++ emitByte stub.stopSignal) := by
    refine ⟨fun c hc => ?_, Nat.le_of_ble_eq_true rfl⟩
    rcases List.mem_append.mp hc with hc | hc
    · exact (by decide : PlainText (cstr "S")) c hc
    · exact plainText_emitByte _ c hc
  cases pkt with
  | nil => exact hempty
  | cons c s =>
    have hread : c = asciiChar 'm' → (gdbRange s).map (fun (addr, len, _) => (addr, len)) = none :=
      fun hc => by rwa [gdbReadArgs, if_pos hc] at h
    refine GdbReply.short_ite (fun _ => hstop.put _) ?_
    refine GdbReply.short_ite (fun _ => gdbShort_hex _ (Nat.le_of_ble_eq_true rfl)) ?_
    refine GdbReply.short_ite (fun _ => hok.put _) ?_
    refine GdbReply.short_ite (fun _ => gdbReadRegister_short emu s _) ?_
    refine GdbReply.short_ite
      (fun _ => (gdbShort_outcome (gdbWriteRegister_outcome emu s)).put _) ?_
    refine GdbReply.short_ite
      (fun hm => gdbReadMemory_refused bus cb io loci emu (hread hm) _) ?_
    refine GdbReply.short_ite
      (fun _ => (gdbShort_outcome (gdbWriteMemory_outcome bus cb io loci emu s)).put _) ?_
    refine GdbReply.short_ite (fun _ => hempty) ?_
    refine GdbReply.short_ite (fun _ => hempty) ?_
    refine GdbReply.short_ite
      (fun _ => (gdbShort_outcome (gdbBreakpoint_outcome emu _ s stale)).put _) ?_
    refine GdbReply.short_ite (fun _ => hok.put _) ?_
    refine GdbReply.short_ite (fun _ => hok.put _) ?_
    refine GdbReply.short_ite (fun _ => hempty) ?_
    refine GdbReply.short_ite (fun _ => gdbQuery_short _ _) ?_
    refine GdbReply.short_ite (fun _ => GdbReply.short_ite (fun _ => hok.put _) hempty) ?_
    exact GdbReply.short_ite (fun _ => gdbVPacket_short _ _) hempty

theorem gdbDispatch_read (stub : GdbStub) (emu : GdbTarget ρ) {pkt : CStr} (stale : CStr)
    {addr : Word} {len : Nat} (h : gdbReadArgs pkt = some (addr, len)) :
    (gdbDispatch bus cb io loci stub emu pkt stale gdbBufSize).resp =
      (gdbPeekBytes bus cb io loci (min len 549) addr emu).1.flatMap emitByte := by
  cases pkt with
  | nil => contradiction
  | cons c s =>
    rw [gdbReadArgs] at h
    split_ifs at h with hc
    subst hc
    exact gdbReadMemory_bytes bus cb io loci emu h

/-! ## Round trips -/

/-- Not the packet that reads more memory than a frame carries: 548 bytes, and those only if the
checksum of their text ends in 0. -/
def GdbReadFits (emu : GdbTarget ρ) (pkt : CStr) : Prop :=
  ∀ addr len, gdbReadArgs pkt = some (addr, len) →
    len ≤ 547 ∨ len = 548 ∧
      gdbChecksum ((gdbPeekBytes bus cb io loci 548 addr emu).1.flatMap emitByte) &&& 0x0F#8 = 0#8

theorem gdbDispatch_plain (stub : GdbStub) (emu : GdbTarget ρ) (pkt stale : CStr) :
    PlainText (gdbDispatch bus cb io loci stub emu pkt stale gdbBufSize).resp := by
  cases hargs : gdbReadArgs pkt with
  | none => exact (gdbDispatch_short bus cb io loci stub emu stale hargs).plain
  | some args =>
    rw [gdbDispatch_read bus cb io loci stub emu stale hargs]
    exact plainText_hex _

/-- A reply fits a frame if the packet is not too long a read. -/
theorem gdbDispatch_fits (stub : GdbStub) (emu : GdbTarget ρ) (pkt stale : CStr) :
    let resp := (gdbDispatch bus cb io loci stub emu pkt stale gdbBufSize).resp
    resp.length ≤ 1095 ∨ resp.length = 1096 ∧ gdbChecksum resp &&& 0x0F#8 = 0#8 ↔
      GdbReadFits bus cb io loci emu pkt := by
  intro resp
  cases hargs : gdbReadArgs pkt with
  | none =>
    have hshort := (gdbDispatch_short bus cb io loci stub emu stale hargs).short
    refine ⟨fun _ addr len h => ?_, fun _ => .inl hshort⟩
    rw [hargs] at h
    contradiction
  | some args =>
    obtain ⟨addr, len⟩ := args
    have hresp : resp = (gdbPeekBytes bus cb io loci (min len 549) addr emu).1.flatMap emitByte :=
      gdbDispatch_read bus cb io loci stub emu stale hargs
    have hlen : resp.length = 2 * min len 549 := by
      rw [hresp, length_hex, length_gdbPeekBytes]
    have hfits : GdbReadFits bus cb io loci emu pkt ↔ len ≤ 547 ∨ len = 548 ∧
        gdbChecksum ((gdbPeekBytes bus cb io loci 548 addr emu).1.flatMap emitByte) &&& 0x0F#8 =
          0#8 := by
      refine ⟨fun h => h addr len hargs, fun h addr' len' h' => ?_⟩
      rw [hargs] at h'
      obtain ⟨rfl, rfl⟩ := Prod.mk.inj (Option.some.inj h')
      exact h
    rw [hfits]
    constructor
    · rintro (hshort | ⟨hexact, hcs⟩)
      · exact .inl (by omega)
      · have h548 : len = 548 := by omega
        subst h548
        exact .inr ⟨rfl, hresp ▸ hcs⟩
    · rintro (hshort | ⟨rfl, hcs⟩)
      · exact .inl (by omega)
      · exact .inr ⟨hlen, hresp ▸ hcs⟩

/-- The reply to a read of more than 548 bytes is never read back. -/
theorem gdbDispatch_tooLong (noAckMode : Bool) (stub : GdbStub) (emu : GdbTarget ρ)
    {pkt : CStr} (stale : CStr) {acks : List Byte} (hacks : ∀ c ∈ acks, IsAck c)
    (rest : List Byte) {addr : Word} {len : Nat} (h : gdbReadArgs pkt = some (addr, len))
    (hlen : 548 < len) :
    let resp := (gdbDispatch bus cb io loci stub emu pkt stale gdbBufSize).resp
    ¬ReadAs noAckMode (readPacket noAckMode gdbBufSize (acks ++ gdbFrame resp ++ rest))
      resp rest := by
  intro resp hread
  have hplain := gdbDispatch_plain bus cb io loci stub emu pkt stale
  have hfits := (gdbDispatch_fits bus cb io loci stub emu pkt stale).mp
    ((readPacket_gdbFrame noAckMode ⟨_, hplain⟩ hacks rest).mp hread)
  rcases hfits addr len h with hshort | ⟨hexact, -⟩ <;> omega

theorem gdbPacket_roundTrip (noAckMode : Bool) {acks : List Byte} (hacks : ∀ c ∈ acks, IsAck c)
    (rest : List Byte) :
    (∀ payload : GdbPayload,
      ReadAs noAckMode (readPacket noAckMode gdbBufSize (acks ++ gdbFrame payload.text ++ rest))
          payload.text rest ↔
        payload.text.length ≤ 1095 ∨
          payload.text.length = 1096 ∧ gdbChecksum payload.text &&& 0x0F#8 = 0#8) ∧
    (∀ stub (emu : GdbTarget ρ) pkt stale,
      let resp := (gdbDispatch bus cb io loci stub emu pkt stale gdbBufSize).resp
      ReadAs noAckMode (readPacket noAckMode gdbBufSize (acks ++ gdbFrame resp ++ rest)) resp rest ↔
        GdbReadFits bus cb io loci emu pkt) ∧
    (∀ stub (emu : GdbTarget ρ) pkt stale addr len, gdbReadArgs pkt = some (addr, len) →
      (gdbDispatch bus cb io loci stub emu pkt stale gdbBufSize).resp =
        (gdbPeekBytes bus cb io loci (min len 549) addr emu).1.flatMap emitByte) := by
  refine ⟨fun payload => readPacket_gdbFrame noAckMode payload hacks rest,
    fun stub emu pkt stale => ?_,
    fun stub emu pkt stale addr len => gdbDispatch_read bus cb io loci stub emu stale⟩
  have hplain := gdbDispatch_plain bus cb io loci stub emu pkt stale
  exact (readPacket_gdbFrame noAckMode ⟨_, hplain⟩ hacks rest).trans
    (gdbDispatch_fits bus cb io loci stub emu pkt stale)

end Dispatch

/-- A machine with nothing on its bus but the VIA, stopped in the stub. -/
def gdbTargetStopped : GdbTarget Unit where
  toDebugTarget := targetTimedOut
  debugger := debuggerPlain
  watchpoints := []
  room := Nat.zero_le _
  amapRw := false
  running := true

/-- An `OK` behind two acknowledgements. -/
theorem gdbPacket_roundTrip_ok :
    (∀ c ∈ [0x2B#8, 0x2D#8], IsAck c) ∧
      ReadAs false (readPacket false gdbBufSize ([0x2B#8, 0x2D#8] ++ gdbFrame (cstr "OK") ++ []))
        (cstr "OK") [] := by
  have hacks : ∀ c ∈ [0x2B#8, 0x2D#8], IsAck c := fun c hc => by simpa [IsAck] using hc
  exact ⟨hacks, ((gdbPacket_roundTrip [] emulatorViaCallbacks emulatorIoNone
    (lociEmuStub (ViaSys Unit)) false hacks []).1 ⟨cstr "OK", by decide⟩).mpr (.inl (by decide))⟩

/-- A read of 549 bytes, well under the packet size announced, and a payload of 1096 characters. -/
theorem gdbPacket_cut :
    let resp := (gdbDispatch [] emulatorViaCallbacks emulatorIoNone (lociEmuStub (ViaSys Unit))
      ⟨false, 5⟩ gdbTargetStopped (cstr "m400,225") [] gdbBufSize).resp
    gdbReadArgs (cstr "m400,225") = some (0x400#16, 549) ∧
      ¬ReadAs false (readPacket false gdbBufSize ([] ++ gdbFrame resp ++ [])) resp [] ∧
      ¬ReadAs false
        (readPacket false gdbBufSize ([] ++ gdbFrame (List.replicate 1096 (asciiChar 'a')) ++ []))
        (List.replicate 1096 (asciiChar 'a')) [] := by
  have hargs : gdbReadArgs (cstr "m400,225") = some (0x400#16, 549) := by decide
  have hnone : ∀ c ∈ ([] : List Byte), IsAck c := fun _ h => absurd h List.not_mem_nil
  refine ⟨hargs, gdbDispatch_tooLong _ _ _ _ _ _ _ _ hnone _ hargs (by decide), fun hread => ?_⟩
  have hletters : PlainText (List.replicate 1096 (asciiChar 'a')) := by
    intro c hc
    rw [List.eq_of_mem_replicate hc]
    decide
  have hcs : gdbChecksum (List.replicate 1096 (asciiChar 'a')) &&& 0x0F#8 ≠ 0#8 := by decide +kernel
  rcases (readPacket_gdbFrame false ⟨_, hletters⟩ hnone []).mp hread with h | ⟨-, h⟩
  · rw [List.length_replicate] at h
    omega
  · exact hcs h

end Phosphoric
