import Phosphoric.Debugger.Assembler
import Phosphoric.Gdb.Stub

/-!
# What a packet changes

`gdb_dispatch` reads a packet and applies it in one pass. `G` is answered `OK` whatever its digits,
`M` stores the bytes up to the first that is malformed, `P` takes its numbers modulo a power of 2,
and `z` removes the first entry at the address.

**Theorem (`gdbDispatch_settles_iff`).** The packets whose reply is to be believed: an error changes
nothing, and with `OK` all that is asked has been done.
-/

namespace Phosphoric

open Function (update)

/-! ## Bytes stored -/

section Bytes

variable {σ : Type} (io : MemoryIo σ) (loci : LociEmu σ)

/-- The devices leave the 48 KB of RAM alone. -/
def DevicesKeepRam : Prop :=
  ∀ write, io.ioWrite = some write → ∀ a v (sys : MemorySys σ), (write a v sys).ram = sys.ram

/-- A write elsewhere keeps a byte of the RAM. -/
theorem memoryWrite_keeps (hdev : DevicesKeepRam io) {a b : Word} (ha : InRam a) (hne : b ≠ a)
    (val : Byte) (sys : MemorySys σ) :
    (memoryWrite io loci b val sys).ram (ramIndex a) = sys.ram (ramIndex a) := by
  have hnotify : (memNotify io b val .write sys).ram = sys.ram :=
    congrArg Memory.ram (memNotify_write io b val sys)
  by_cases hpage : ioPage b
  · rw [memoryWrite, if_pos hpage]
    cases hwrite : io.ioWrite with
    | none => exact congrFun hnotify _
    | some write =>
      show (write b val _).ram _ = _
      rw [hdev write hwrite, hnotify]
  · by_cases hlow : b < 0xC000#16
    · rw [memoryWrite_ram io loci ⟨hlow, hpage⟩]
      exact Function.update_of_ne (fun h => hne (ramIndex_inj ⟨hlow, hpage⟩ ha h.symm)) ..
    · simp only [memoryWrite, if_neg hpage, if_neg hlow]
      split_ifs <;> simp only [MemorySys.setUpperRam, hnotify]

theorem memoryWriteBytes_keeps (hdev : DevicesKeepRam io) {a : Word} (ha : InRam a)
    (bytes : List Byte) {addr : Word} (hne : ∀ i < bytes.length, addr + BitVec.ofNat 16 i ≠ a)
    (sys : MemorySys σ) :
    (memoryWriteBytes io loci addr bytes sys).ram (ramIndex a) = sys.ram (ramIndex a) := by
  induction bytes generalizing addr sys with
  | nil => rfl
  | cons b bytes ih =>
    have hfirst : addr ≠ a := by
      have := hne 0 (Nat.succ_pos _)
      rwa [BitVec.add_zero addr] at this
    have hrest : ∀ i < bytes.length, addr + 1#16 + BitVec.ofNat 16 i ≠ a := by
      intro i hi
      rw [← addr_add_succ]
      exact hne (i + 1) (Nat.succ_lt_succ hi)
    rw [memoryWriteBytes, ih hrest, memoryWrite_keeps io loci hdev ha hfirst]

/-- The last byte stored at an address of the RAM is there afterwards. -/
theorem memoryWriteBytes_last (hdev : DevicesKeepRam io) (bytes : List Byte) {addr : Word} {i : Nat}
    {v : Byte} (hi : bytes[i]? = some v) (hram : InRam (addr + BitVec.ofNat 16 i))
    (hlast : ∀ j < bytes.length, i < j → addr + BitVec.ofNat 16 j ≠ addr + BitVec.ofNat 16 i)
    (sys : MemorySys σ) :
    (memoryWriteBytes io loci addr bytes sys).ram (ramIndex (addr + BitVec.ofNat 16 i)) = v := by
  induction bytes generalizing addr i sys with
  | nil => cases hi
  | cons b bytes ih =>
    cases i with
    | zero =>
      rw [BitVec.add_zero addr] at hram ⊢
      rw [List.getElem?_cons_zero, Option.some.injEq] at hi
      have hrest : ∀ j < bytes.length, addr + 1#16 + BitVec.ofNat 16 j ≠ addr := by
        intro j hj
        have := hlast (j + 1) (Nat.succ_lt_succ hj) (Nat.succ_pos j)
        rwa [addr_add_succ, BitVec.add_zero addr] at this
      rw [memoryWriteBytes, memoryWriteBytes_keeps io loci hdev hram bytes hrest,
        memoryWrite_ram io loci hram, Function.update_self]
      exact hi
    | succ i =>
      rw [addr_add_succ] at hram ⊢
      refine ih hi hram (fun j hj hij => ?_) _
      have := hlast (j + 1) (Nat.succ_lt_succ hj) (Nat.succ_lt_succ hij)
      rwa [addr_add_succ addr j, addr_add_succ addr i] at this

/-- The address is served by RAM above `$C000`. -/
def InUpperRam (sys : MemorySys σ) (a : Word) : Prop :=
  0xC000#16 ≤ a ∧ loci.active sys.devices = false ∧ ¬ (bankSource sys.toMemory a).isRom ∧
    ¬ ramShadowed sys.toMemory a

/-- The byte served above `$C000`. -/
def upperByte (sys : MemorySys σ) (a : Word) : Byte :=
  bankByte sys.toMemory a (bankSource sys.toMemory a)

/-- What the write does to an address above `$C000`, the I/O page apart: the banking stays, and the
byte changes only there. -/
theorem memoryWrite_upper {a b : Word} (ha : 0xC000#16 ≤ a) (hpage : ¬ ioPage b) (val : Byte)
    {sys : MemorySys σ} (hloci : loci.active sys.devices = false) :
    let sys' := memoryWrite io loci b val sys
    sys'.devices = sys.devices ∧ bankSource sys'.toMemory a = bankSource sys.toMemory a ∧
      (ramShadowed sys'.toMemory a ↔ ramShadowed sys.toMemory a) ∧
      (b ≠ a → upperByte sys' a = upperByte sys a) := by
  by_cases hlow : b < 0xC000#16
  · have hmem : (memoryWrite io loci b val sys).toMemory =
        { sys.toMemory with ram := update sys.ram (ramIndex b) val } := by
      have hnotify := memNotify_write io b val sys
      simp only [memoryWrite, if_neg hpage, if_pos hlow]
      rw [hnotify]
    have hdev : (memoryWrite io loci b val sys).devices = sys.devices := by
      simp only [memoryWrite, if_neg hpage, if_pos hlow, memNotify_devices]
    have hbyte : ∀ source, bankByte (memoryWrite io loci b val sys).toMemory a source =
        bankByte sys.toMemory a source := by
      intro source
      rw [hmem]
      cases source <;> rfl
    have hsource : bankSource (memoryWrite io loci b val sys).toMemory a =
        bankSource sys.toMemory a := by
      rw [hmem]
      rfl
    refine ⟨hdev, hsource, ?_, fun _ => ?_⟩
    · rw [hmem]
      rfl
    · rw [upperByte, hsource, hbyte]
      rfl
  · have hhigh : 0xC000#16 ≤ b := BitVec.not_lt.mp hlow
    obtain ⟨hmem, hdev⟩ := memoryWrite_bank io loci hhigh hloci val
    have hindex : b ≠ a → romIndex a ≠ romIndex b := by
      intro hne heq
      have hval : (a - 0xC000#16).toNat % 0x4000 = (b - 0xC000#16).toNat % 0x4000 :=
        congrArg Fin.val heq
      have ha' : 0xC000 ≤ a.toNat := ha
      have hb' : 0xC000 ≤ b.toNat := hhigh
      have hamax := a.isLt
      have hbmax := b.isLt
      have hbase : (0xC000#16 : Word).toNat = 0xC000 := rfl
      rw [BitVec.toNat_sub_of_le ha, BitVec.toNat_sub_of_le hhigh, hbase] at hval
      exact hne (BitVec.eq_of_toNat_eq (by omega))
    have hsource : bankSource (bankWrite sys.toMemory b val) a = bankSource sys.toMemory a := by
      unfold bankWrite
      split
      · split_ifs <;> rfl
      all_goals rfl
    refine ⟨hdev, ?_, ?_, fun hne => ?_⟩
    · rw [hmem, hsource]
    · rw [hmem]
      unfold bankWrite
      split
      · split_ifs <;> rfl
      all_goals rfl
    · rw [upperByte, hmem, hsource, upperByte]
      unfold bankWrite
      split
      · split_ifs
        · rfl
        · cases bankSource sys.toMemory a <;>
            simp [bankByte, Function.update_of_ne (hindex hne)]
      · cases bankSource sys.toMemory a <;>
          simp [bankByte, Function.update_of_ne (hindex hne)]
      all_goals rfl

theorem memoryWriteBytes_upper {a : Word} (bytes : List Byte) {addr : Word}
    (hpage : ∀ i < bytes.length, ¬ ioPage (addr + BitVec.ofNat 16 i)) {sys : MemorySys σ}
    (hupper : InUpperRam loci sys a) :
    InUpperRam loci (memoryWriteBytes io loci addr bytes sys) a ∧
      ((∀ i < bytes.length, addr + BitVec.ofNat 16 i ≠ a) →
        upperByte (memoryWriteBytes io loci addr bytes sys) a = upperByte sys a) := by
  induction bytes generalizing addr sys with
  | nil => exact ⟨hupper, fun _ => rfl⟩
  | cons b bytes ih =>
    obtain ⟨ha, hloci, hrom, hshadow⟩ := hupper
    have hfirst : ¬ ioPage addr := by
      have := hpage 0 (Nat.succ_pos _)
      rwa [BitVec.add_zero addr] at this
    have hrest : ∀ i < bytes.length, ¬ ioPage (addr + 1#16 + BitVec.ofNat 16 i) := by
      intro i hi
      rw [← addr_add_succ]
      exact hpage (i + 1) (Nat.succ_lt_succ hi)
    obtain ⟨hdev, hsource, hshadow', hbyte⟩ := memoryWrite_upper io loci ha hfirst b hloci
    have hupper' : InUpperRam loci (memoryWrite io loci addr b sys) a :=
      ⟨ha, by rw [hdev, hloci], by rwa [hsource], mt hshadow'.mp hshadow⟩
    obtain ⟨hkept, hsame⟩ := ih hrest hupper'
    refine ⟨hkept, fun hne => (hsame fun i hi => ?_).trans (hbyte ?_)⟩
    · rw [← addr_add_succ]
      exact hne (i + 1) (Nat.succ_lt_succ hi)
    · have := hne 0 (Nat.succ_pos _)
      rwa [BitVec.add_zero addr] at this

/-- The last byte stored at an address served by RAM above `$C000` is the one served. -/
theorem memoryWriteBytes_upperLast (bytes : List Byte) {addr : Word} {i : Nat} {v : Byte}
    (hi : bytes[i]? = some v) (hpage : ∀ j < bytes.length, ¬ ioPage (addr + BitVec.ofNat 16 j))
    (hlast : ∀ j < bytes.length, i < j → addr + BitVec.ofNat 16 j ≠ addr + BitVec.ofNat 16 i)
    {sys : MemorySys σ} (hupper : InUpperRam loci sys (addr + BitVec.ofNat 16 i)) :
    upperByte (memoryWriteBytes io loci addr bytes sys) (addr + BitVec.ofNat 16 i) = v := by
  induction bytes generalizing addr i sys with
  | nil => cases hi
  | cons b bytes ih =>
    have hfirst : ¬ ioPage addr := by
      have := hpage 0 (Nat.succ_pos _)
      rwa [BitVec.add_zero addr] at this
    have hrest : ∀ j < bytes.length, ¬ ioPage (addr + 1#16 + BitVec.ofNat 16 j) := by
      intro j hj
      rw [← addr_add_succ]
      exact hpage (j + 1) (Nat.succ_lt_succ hj)
    cases i with
    | zero =>
      rw [BitVec.add_zero addr] at hupper ⊢
      rw [List.getElem?_cons_zero, Option.some.injEq] at hi
      obtain ⟨ha, hloci, hrom, hshadow⟩ := hupper
      obtain ⟨hdev, hsource, hshadow', -⟩ := memoryWrite_upper io loci ha hfirst b hloci
      have hupper' : InUpperRam loci (memoryWrite io loci addr b sys) addr :=
        ⟨ha, by rw [hdev, hloci], by rwa [hsource], mt hshadow'.mp hshadow⟩
      have hlater : ∀ j < bytes.length, addr + 1#16 + BitVec.ofNat 16 j ≠ addr := by
        intro j hj
        have := hlast (j + 1) (Nat.succ_lt_succ hj) (Nat.succ_pos j)
        rwa [addr_add_succ addr j, BitVec.add_zero addr] at this
      rw [memoryWriteBytes, (memoryWriteBytes_upper io loci bytes hrest hupper').2 hlater,
        upperByte, (memoryWrite_bank io loci ha hloci b).1, bankSource_bankWrite,
        bankByte_bankWrite, if_neg (not_or.mpr ⟨hrom, hshadow⟩)]
      exact hi
    | succ i =>
      rw [addr_add_succ] at hupper ⊢
      obtain ⟨ha, hloci, hrom, hshadow⟩ := hupper
      obtain ⟨hdev, hsource, hshadow', -⟩ := memoryWrite_upper io loci ha hfirst b hloci
      refine ih hi hrest (fun j hj hij => ?_)
        ⟨ha, by rw [hdev, hloci], by rwa [hsource], mt hshadow'.mp hshadow⟩
      have := hlast (j + 1) (Nat.succ_lt_succ hj) (Nat.succ_lt_succ hij)
      rwa [addr_add_succ addr j, addr_add_succ addr i] at this

end Bytes

/-! ## Numbers -/

/-- The number a text starts with, of any size. -/
def hexNumber (s : CStr) : Nat :=
  (s.takeWhile fun c => (hexval c).isSome).foldl (fun v c => v * 16 + (hexval c).getD 0) 0

theorem hexval_lt (c : Byte) : (hexval c).getD 0 < 16 := by
  revert c
  decide

/-- `parse_hex` keeps 32 bits. -/
theorem parseHex_value (s : CStr) : (parseHex s).1 = BitVec.ofNat 32 (hexNumber s) := by
  have hstep : ∀ (n : Nat) (c : Byte),
      BitVec.ofNat 32 n <<< 4 ||| BitVec.ofNat 32 ((hexval c).getD 0) =
        BitVec.ofNat 32 (n * 16 + (hexval c).getD 0) := by
    intro n c
    have hd := hexval_lt c
    apply BitVec.eq_of_toNat_eq
    have hshift : (BitVec.ofNat 32 n <<< 4).toNat = (n % 2 ^ 28) <<< 4 := by
      rw [BitVec.toNat_shiftLeft, BitVec.toNat_ofNat, Nat.shiftLeft_eq, Nat.shiftLeft_eq]
      omega
    have hsmall : (BitVec.ofNat 32 ((hexval c).getD 0)).toNat = (hexval c).getD 0 := by
      rw [BitVec.toNat_ofNat]
      omega
    rw [BitVec.toNat_or, hshift, hsmall, ← Nat.shiftLeft_add_eq_or_of_lt hd, BitVec.toNat_ofNat,
      Nat.shiftLeft_eq]
    omega
  have hfold : ∀ (digits : CStr) (n : Nat),
      digits.foldl (fun (v : BitVec 32) c => v <<< 4 ||| BitVec.ofNat 32 ((hexval c).getD 0))
          (BitVec.ofNat 32 n) =
        BitVec.ofNat 32 (digits.foldl (fun v c => v * 16 + (hexval c).getD 0) n) := by
    intro digits
    induction digits with
    | nil => exact fun _ => rfl
    | cons c digits ih =>
      intro n
      rw [List.foldl_cons, hstep, ih, List.foldl_cons]
  exact hfold _ 0

theorem parseHex_addr (s : CStr) : (parseHex s).1.setWidth 16 = BitVec.ofNat 16 (hexNumber s) := by
  rw [parseHex_value]
  apply BitVec.eq_of_toNat_eq
  rw [BitVec.toNat_setWidth, BitVec.toNat_ofNat, BitVec.toNat_ofNat]
  omega

/-- The pairs of digits up to the first that is none. -/
def hexPrefix : Nat → CStr → List Byte
  | 0, _ => []
  | n + 1, s =>
    match hexByte s with
    | none => []
    | some (b, s) => b :: hexPrefix n s

theorem hexBytes_eq (n : Nat) (s : CStr) :
    hexBytes n s = if (hexPrefix n s).length = n then some (hexPrefix n s) else none := by
  induction n generalizing s with
  | zero => rfl
  | succ n ih =>
    rw [hexBytes, hexPrefix]
    cases hexByte s with
    | none => rfl
    | some p =>
      simp only [ih, List.length_cons, Nat.add_right_cancel_iff]
      split <;> rfl

/-- Each pair is two characters. -/
theorem hexPrefix_text (n : Nat) (s : CStr) : 2 * (hexPrefix n s).length ≤ s.length := by
  induction n generalizing s with
  | zero => exact Nat.zero_le _
  | succ n ih =>
    rw [hexPrefix]
    cases hbyte : hexByte s with
    | none => exact Nat.zero_le _
    | some p =>
      have hshorter : s.length = p.2.length + 2 := by
        unfold hexByte at hbyte
        split at hbyte
        · split at hbyte
          · cases hbyte
            rfl
          · cases hbyte
        · cases hbyte
      have := ih p.2
      rw [List.length_cons]
      omega

/-! ## What is asked -/

/-- The contents of the memory and of the devices. Whether accesses are traced does not count. -/
def MemoryKept {σ : Type} (before after : MemorySys σ) : Prop :=
  { after with
    traceEnabled := before.traceEnabled
    traced := before.traced
    traced2 := before.traced2 } = before

variable {ρ : Type}

/-- Registers, memory, devices, breakpoints and watchpoints are as before. -/
structure GdbKept (before after : GdbTarget ρ) : Prop where
  cpu : after.cpu = before.cpu
  pc : after.pc = before.pc
  memory : MemoryKept before.memory after.memory
  debugger : after.debugger = before.debugger
  watchpoints : after.watchpoints = before.watchpoints

theorem GdbKept.refl (emu : GdbTarget ρ) : GdbKept emu emu := ⟨rfl, rfl, rfl, rfl, rfl⟩

/-- A register has the value; the two bytes of the PC come low byte first. -/
def GdbRegisterIs (emu : GdbTarget ρ) (n v : Nat) : Prop :=
  match n with
  | 0 => emu.cpu.a.toNat = v
  | 1 => emu.cpu.x.toNat = v
  | 2 => emu.cpu.y.toNat = v
  | 3 => emu.cpu.sp.toNat = v
  | 4 => (Word.lo emu.pc).toNat * 256 + (Word.hi emu.pc).toNat = v
  | 5 => emu.cpu.p.toNat = v
  | _ => False

/-- The length of `addr,len:data` and what follows it, `data` after the colon. -/
def gdbLengthText (s : CStr) : CStr := skipComma (parseHex s).2.2

def gdbDataText (s : CStr) : CStr := (parseHex (gdbLengthText s)).2.2.tail

/-- The address of a `Z` or `z` packet. -/
def gdbPointAddr (s stale : CStr) : Word :=
  BitVec.ofNat 16 (hexNumber (skipComma (if s = [] then stale else s.tail)))

section Asked

variable (loci : LociEmu (ViaSys ρ))

/-- There are as many bytes as the length says, and those of RAM are stored; for an address named
more than once the last byte. RAM above `$C000` is as mapped before the packet, where it names no
address of the I/O page. -/
def GdbStored (before after : GdbTarget ρ) (s : CStr) : Prop :=
  let addr : Word := BitVec.ofNat 16 (hexNumber s)
  ∃ bytes, hexBytes (hexNumber (gdbLengthText s)) (gdbDataText s) = some bytes ∧
    ∀ i v, bytes[i]? = some v →
      (∀ j < bytes.length, i < j → addr + BitVec.ofNat 16 j ≠ addr + BitVec.ofNat 16 i) →
      (InRam (addr + BitVec.ofNat 16 i) →
        after.memory.ram (ramIndex (addr + BitVec.ofNat 16 i)) = v) ∧
      ((∀ j < bytes.length, ¬ ioPage (addr + BitVec.ofNat 16 j)) →
        InUpperRam loci before.memory (addr + BitVec.ofNat 16 i) →
        upperByte after.memory (addr + BitVec.ofNat 16 i) = v)

/-- A `Z` packet puts a breakpoint or a watchpoint in the table. -/
def GdbInserted (emu : GdbTarget ρ) (s stale : CStr) : Prop :=
  let addr := gdbPointAddr s stale
  if s.headD 0 = asciiChar '0' ∨ s.headD 0 = asciiChar '1' then
    ∃ bp ∈ emu.debugger.breakpoints, bp.plainAt addr = true
  else
    match gdbWatchMode (s.headD 0) with
    | some mode => ∃ w ∈ emu.watchpoints, w.addr = addr ∧ w.mode = mode
    | none => False

/-- A `z` packet leaves none there. -/
def GdbRemoved (emu : GdbTarget ρ) (s stale : CStr) : Prop :=
  let addr := gdbPointAddr s stale
  if s.headD 0 = asciiChar '0' ∨ s.headD 0 = asciiChar '1' then
    ∀ bp ∈ emu.debugger.breakpoints, bp.plainAt addr = false
  else
    match gdbWatchMode (s.headD 0) with
    | some mode => ∀ w ∈ emu.watchpoints, ¬ (w.addr = addr ∧ w.mode = mode)
    | none => False

/-- The whole change a packet asks for. -/
def GdbMade (before after : GdbTarget ρ) (pkt stale : CStr) : Prop :=
  match pkt with
  | [] => True
  | c :: s =>
    if c = asciiChar 'G' then
      hexBytes 7 s = some [after.cpu.a, after.cpu.x, after.cpu.y, after.cpu.sp, Word.lo after.pc,
        Word.hi after.pc, after.cpu.p]
    else if c = asciiChar 'P' then
      GdbRegisterIs after (hexNumber s) (hexNumber (parseHex s).2.2.tail)
    else if c = asciiChar 'M' then GdbStored loci before after s
    else if c = asciiChar 'Z' then GdbInserted after s stale
    else if c = asciiChar 'z' then GdbRemoved after s stale
    else True

/-- An error has changed nothing, and `OK` is the whole change. -/
def GdbSettles (before : GdbTarget ρ) (pkt stale : CStr) (reply : GdbReply ρ) : Prop :=
  (reply.resp.head? = some (asciiChar 'E') → GdbKept before reply.emu) ∧
    (reply.resp = cstr "OK" → GdbMade loci before reply.emu pkt stale)

/-! ## When the reply is to be believed -/

/-- Where a register is written, its number is not taken modulo `2 ^ 32`, and the value fits. -/
def GdbRegisterFits (s : CStr) : Prop :=
  (parseHex s).2.1 = true → (parseHex s).2.2.head? = some (asciiChar '=') →
    (parseHex (parseHex s).2.2.tail).2.1 = true → (parseHex s).1.toNat ≤ 5 →
    hexNumber s ≤ 5 ∧ hexNumber (parseHex s).2.2.tail < if hexNumber s = 4 then 0x10000 else 0x100

/-- Where bytes are stored, the length is not taken modulo `2 ^ 32`; the bytes before a malformed
one change nothing. -/
def GdbDataFits (bus : List (IoDevice (MemorySys (ViaSys ρ)))) (cb : ViaCallbacks ρ)
    (io : MemoryIo (ViaSys ρ)) (emu : GdbTarget ρ) (s : CStr) : Prop :=
  match gdbRange s with
  | none => True
  | some (addr, len, data) =>
    data.head? = some (asciiChar ':') →
      let bytes := hexPrefix len data.tail
      if bytes.length = len then hexNumber (gdbLengthText s) < 2 ^ 32
      else MemoryKept emu.memory
        (memoryWriteBytes (emulatorIo bus cb io) loci addr bytes emu.memory)

/-- Behind the first entry at the address, no other is what the packet removes. -/
def GdbOnly (emu : GdbTarget ρ) (s stale : CStr) : Prop :=
  let addr := gdbPointAddr s stale
  (parseHex (skipComma (if s = [] then stale else s.tail))).2.1 = true →
  if s.headD 0 = asciiChar '0' ∨ s.headD 0 = asciiChar '1' then
    ∀ bp ∈ emu.debugger.breakpoints.eraseP fun bp => bp.addr == addr, bp.plainAt addr = false
  else
    match gdbWatchMode (s.headD 0) with
    | some mode =>
      ∀ w ∈ emu.watchpoints.eraseP fun w => w.addr == addr, ¬ (w.addr = addr ∧ w.mode = mode)
    | none => True

def GdbSound (bus : List (IoDevice (MemorySys (ViaSys ρ)))) (cb : ViaCallbacks ρ)
    (io : MemoryIo (ViaSys ρ)) (emu : GdbTarget ρ) (pkt stale : CStr) : Prop :=
  match pkt with
  | [] => True
  | c :: s =>
    if c = asciiChar 'G' then (hexBytes 7 s).isSome = true
    else if c = asciiChar 'P' then GdbRegisterFits s
    else if c = asciiChar 'M' then GdbDataFits loci bus cb io emu s
    else if c = asciiChar 'z' then GdbOnly emu s stale
    else True

end Asked

/-! ## Each packet -/

section Packets

variable (bus : List (IoDevice (MemorySys (ViaSys ρ)))) (cb : ViaCallbacks ρ)
  (io : MemoryIo (ViaSys ρ)) (loci : LociEmu (ViaSys ρ))

theorem gdbWriteBytes_eq (n : Nat) (addr : Word) (s : CStr) (emu : GdbTarget ρ) :
    gdbWriteBytes bus cb io loci n addr s emu = (decide ((hexPrefix n s).length = n),
      { emu with
        memory :=
          memoryWriteBytes (emulatorIo bus cb io) loci addr (hexPrefix n s) emu.memory }) := by
  induction n generalizing addr s emu with
  | zero => rfl
  | succ n ih =>
    rw [gdbWriteBytes, hexPrefix]
    cases hexByte s with
    | none => rfl
    | some p => simp only [ih, List.length_cons, Nat.add_right_cancel_iff, memoryWriteBytes]

/-- A reply of `G`, `P`, `M`, `Z` and `z` is sent whole. -/
theorem gdbOutcome_take {text : CStr} (h : text ∈ gdbOutcomes) {respSize : Nat}
    (hsize : 4 ≤ respSize) : text.take (respSize - 1) = text := by
  refine List.take_of_length_le ?_
  have hlen : ∀ t ∈ gdbOutcomes, t.length ≤ 3 := by decide
  exact (hlen text h).trans (by omega)

/-- `G` is answered `OK` in any case. -/
theorem hexToRegs_settles (emu : GdbTarget ρ) (s : CStr) :
    hexBytes 7 s = some [(hexToRegs emu s).cpu.a, (hexToRegs emu s).cpu.x, (hexToRegs emu s).cpu.y,
        (hexToRegs emu s).cpu.sp, Word.lo (hexToRegs emu s).pc, Word.hi (hexToRegs emu s).pc,
        (hexToRegs emu s).cpu.p] ↔
      (hexBytes 7 s).isSome = true := by
  constructor
  · intro h
    rw [h]
    rfl
  · intro h
    rw [hexBytes_eq] at h
    split at h
    next hlen =>
      obtain ⟨a, x, y, sp, lo, hi, p, hbytes⟩ : ∃ a x y sp lo hi p,
          hexPrefix 7 s = [a, x, y, sp, lo, hi, p] := by
        match hexPrefix 7 s, hlen with
        | [a, x, y, sp, lo, hi, p], _ => exact ⟨a, x, y, sp, lo, hi, p, rfl⟩
      have hsome : hexBytes 7 s = some [a, x, y, sp, lo, hi, p] := by
        rw [hexBytes_eq, if_pos hlen, hbytes]
      simp only [hexToRegs, hsome, Word.lo_mk, Word.hi_mk]
    next => cases h

theorem GdbRegisterIs.lt {emu : GdbTarget ρ} {n v : Nat} (h : GdbRegisterIs emu n v) : n ≤ 5 := by
  by_contra hn
  obtain ⟨m, rfl⟩ := Nat.exists_eq_add_of_le (Nat.lt_of_not_le hn)
  have hlarge : 5 + 1 + m = m + 6 := by omega
  rw [Nat.succ_eq_add_one, hlarge] at h
  exact h

/-- What is left of a number in a byte and in the PC. -/
theorem registerByte (v : Nat) : ((BitVec.ofNat 32 v).setWidth 8).toNat = v ↔ v < 0x100 := by
  rw [BitVec.toNat_setWidth, BitVec.toNat_ofNat]
  omega

theorem registerPc (v : Nat) :
    (Word.lo (Word.mk ((BitVec.ofNat 32 v).setWidth 8)
          ((BitVec.ofNat 32 v >>> 8).setWidth 8))).toNat * 256 +
        (Word.hi (Word.mk ((BitVec.ofNat 32 v).setWidth 8)
          ((BitVec.ofNat 32 v >>> 8).setWidth 8))).toNat = v ↔ v < 0x10000 := by
  rw [Word.lo_mk, Word.hi_mk, BitVec.toNat_setWidth, BitVec.toNat_setWidth,
    BitVec.toNat_ushiftRight, BitVec.toNat_ofNat, Nat.shiftRight_eq_div_pow]
  omega

/-- `P` is refused without change, or writes the register. -/
theorem gdbWriteRegister_settles (emu : GdbTarget ρ) (s : CStr) :
    (((gdbWriteRegister emu s).1.head? = some (asciiChar 'E') →
        GdbKept emu (gdbWriteRegister emu s).2) ∧
      ((gdbWriteRegister emu s).1 = cstr "OK" →
        GdbRegisterIs (gdbWriteRegister emu s).2 (hexNumber s)
          (hexNumber (parseHex s).2.2.tail))) ↔ GdbRegisterFits s := by
  have hrefused : cstr "E01" ≠ cstr "OK" ∧ cstr "E02" ≠ cstr "OK" := by decide
  have hdone : (cstr "OK").head? ≠ some (asciiChar 'E') := by decide
  by_cases hok : (parseHex s).2.1 = true
  swap
  · have hw : gdbWriteRegister emu s = (cstr "E01", emu) := by
      simp [gdbWriteRegister, hok]
    rw [hw]
    exact iff_of_true ⟨fun _ => GdbKept.refl emu, fun h => absurd h hrefused.1⟩
      fun h => absurd h hok
  by_cases heq : (parseHex s).2.2.head? = some (asciiChar '=')
  swap
  · have hw : gdbWriteRegister emu s = (cstr "E01", emu) := by
      simp [gdbWriteRegister, heq]
    rw [hw]
    exact iff_of_true ⟨fun _ => GdbKept.refl emu, fun h => absurd h hrefused.1⟩
      fun _ h => absurd h heq
  by_cases hvok : (parseHex (parseHex s).2.2.tail).2.1 = true
  swap
  · have hw : gdbWriteRegister emu s = (cstr "E01", emu) := by
      simp [gdbWriteRegister, hok, heq, hvok]
    rw [hw]
    exact iff_of_true ⟨fun _ => GdbKept.refl emu, fun h => absurd h hrefused.1⟩
      fun _ _ h => absurd h hvok
  have hval := parseHex_value (parseHex s).2.2.tail
  have hfits : GdbRegisterFits s ↔ ((parseHex s).1.toNat ≤ 5 →
      hexNumber s ≤ 5 ∧ hexNumber (parseHex s).2.2.tail <
        if hexNumber s = 4 then 0x10000 else 0x100) :=
    ⟨fun h => h hok heq hvok, fun h _ _ _ => h⟩
  have hnum : (parseHex s).1.toNat = hexNumber s % 2 ^ 32 := by
    rw [parseHex_value, BitVec.toNat_ofNat]
  rw [hfits]
  -- what is written where the number is accepted
  have hw : ∀ w, w = (parseHex (parseHex s).2.2.tail).1 →
      gdbWriteRegister emu s = match (parseHex s).1.toNat with
      | 0 => (cstr "OK", { emu with cpu := { emu.cpu with a := w.setWidth 8 } })
      | 1 => (cstr "OK", { emu with cpu := { emu.cpu with x := w.setWidth 8 } })
      | 2 => (cstr "OK", { emu with cpu := { emu.cpu with y := w.setWidth 8 } })
      | 3 => (cstr "OK", { emu with cpu := { emu.cpu with sp := w.setWidth 8 } })
      | 4 => (cstr "OK", { emu with pc := Word.mk (w.setWidth 8) ((w >>> 8).setWidth 8) })
      | 5 => (cstr "OK", { emu with cpu := { emu.cpu with p := w.setWidth 8 } })
      | _ => (cstr "E02", emu) := by
    rintro w rfl
    have hform : ¬(!(parseHex s).2.1 ||
        (parseHex s).2.2.head? != some (asciiChar '=')) = true := by
      simp [hok, heq]
    have hvalue : ¬(!(parseHex (parseHex s).2.2.tail).2.1) = true := by
      simp [hvok]
    exact (if_neg hform).trans (if_neg hvalue)
  replace hw := hw _ hval.symm
  generalize hexNumber (parseHex s).2.2.tail = v at hw
  generalize (parseHex s).1.toNat = k at hw hnum
  generalize hexNumber s = n at hnum
  have hokIff : ∀ {emu' : GdbTarget ρ}, gdbWriteRegister emu s = (cstr "OK", emu') →
      ((((gdbWriteRegister emu s).1.head? = some (asciiChar 'E') →
          GdbKept emu (gdbWriteRegister emu s).2) ∧
        ((gdbWriteRegister emu s).1 = cstr "OK" →
          GdbRegisterIs (gdbWriteRegister emu s).2 n v)) ↔ GdbRegisterIs emu' n v) := by
    intro emu' h
    rw [h]
    exact ⟨fun h => h.2 rfl, fun h => ⟨fun hE => absurd hE hdone, fun _ => h⟩⟩
  have hwrapped : k ≤ 5 → n ≠ k → ¬ n ≤ 5 := by omega
  have hcase : ∀ emu' : GdbTarget ρ, gdbWriteRegister emu s = (cstr "OK", emu') → k ≤ 5 →
      (GdbRegisterIs emu' k v ↔ v < if k = 4 then 0x10000 else 0x100) →
      ((((gdbWriteRegister emu s).1.head? = some (asciiChar 'E') →
          GdbKept emu (gdbWriteRegister emu s).2) ∧
        ((gdbWriteRegister emu s).1 = cstr "OK" →
          GdbRegisterIs (gdbWriteRegister emu s).2 n v)) ↔
        (k ≤ 5 → n ≤ 5 ∧ v < if n = 4 then 0x10000 else 0x100)) := by
    intro emu' h hk hvalue
    rw [hokIff h]
    by_cases hsame : n = k
    · rw [hsame, hvalue]
      exact ⟨fun hv _ => ⟨hk, hv⟩, fun hv => (hv hk).2⟩
    · exact iff_of_false (fun his => hwrapped hk hsame his.lt) fun hv => hwrapped hk hsame (hv hk).1
  match k, hw, hcase with
  | 0, hw, hcase => exact hcase _ hw (by decide) (registerByte v)
  | 1, hw, hcase => exact hcase _ hw (by decide) (registerByte v)
  | 2, hw, hcase => exact hcase _ hw (by decide) (registerByte v)
  | 3, hw, hcase => exact hcase _ hw (by decide) (registerByte v)
  | 4, hw, hcase => exact hcase _ hw (by decide) (registerPc v)
  | 5, hw, hcase => exact hcase _ hw (by decide) (registerByte v)
  | k + 6, hw, _ =>
    rw [hw]
    exact iff_of_true ⟨fun _ => GdbKept.refl emu, fun h => absurd h hrefused.2⟩ fun h => by omega

theorem parseHex_rest (s : CStr) : (parseHex s).2.2.length ≤ s.length := by
  show (s.drop _).length ≤ _
  rw [List.length_drop]
  exact Nat.sub_le ..

theorem gdbDataText_length (s : CStr) : (gdbDataText s).length ≤ s.length := by
  have hcomma : ∀ t : CStr, (skipComma t).length ≤ t.length := by
    intro t
    rw [skipComma]
    split
    · rw [List.length_tail]
      exact Nat.sub_le ..
    · exact Nat.le_refl _
  rw [gdbDataText, List.length_tail]
  exact (Nat.sub_le ..).trans ((parseHex_rest _).trans ((hcomma _).trans (parseHex_rest s)))

/-- `M` is refused, or stores bytes until one is malformed. -/
theorem gdbWriteMemory_settles (hdev : DevicesKeepRam io) (emu : GdbTarget ρ) {s : CStr}
    (hshort : s.length < 2 ^ 32) :
    (((gdbWriteMemory bus cb io loci emu s).1.head? = some (asciiChar 'E') →
        GdbKept emu (gdbWriteMemory bus cb io loci emu s).2) ∧
      ((gdbWriteMemory bus cb io loci emu s).1 = cstr "OK" →
        GdbStored loci emu (gdbWriteMemory bus cb io loci emu s).2 s)) ↔
      GdbDataFits loci bus cb io emu s := by
  have hrefused : cstr "E01" ≠ cstr "OK" := by decide
  have herror : (cstr "E01").head? = some (asciiChar 'E') := by decide
  have hdone : (cstr "OK").head? ≠ some (asciiChar 'E') := by decide
  cases hrange : gdbRange s with
  | none =>
    have hw : gdbWriteMemory bus cb io loci emu s = (cstr "E01", emu) := by
      simp only [gdbWriteMemory, hrange]
    rw [hw, GdbDataFits, hrange]
    exact iff_of_true ⟨fun _ => GdbKept.refl emu, fun h => absurd h hrefused⟩ trivial
  | some range =>
    obtain ⟨addr, len, data⟩ := range
    have hparts : addr = BitVec.ofNat 16 (hexNumber s) ∧
        len = hexNumber (gdbLengthText s) % 2 ^ 32 ∧ data.tail = gdbDataText s := by
      simp only [gdbRange] at hrange
      split at hrange
      · cases hrange
        refine ⟨parseHex_addr s, ?_, rfl⟩
        rw [parseHex_value, BitVec.toNat_ofNat]
        rfl
      · cases hrange
    obtain ⟨haddr, hlen, hdata⟩ := hparts
    by_cases hcolon : data.head? = some (asciiChar ':')
    swap
    · have hw : gdbWriteMemory bus cb io loci emu s = (cstr "E01", emu) := by
        simp [gdbWriteMemory, hrange, hcolon]
      rw [hw, GdbDataFits, hrange]
      exact iff_of_true ⟨fun _ => GdbKept.refl emu, fun h => absurd h hrefused⟩
        fun h => absurd h hcolon
    have hfits : GdbDataFits loci bus cb io emu s ↔
        if (hexPrefix len data.tail).length = len then hexNumber (gdbLengthText s) < 2 ^ 32
        else MemoryKept emu.memory (memoryWriteBytes (emulatorIo bus cb io) loci addr
          (hexPrefix len data.tail) emu.memory) := by
      rw [GdbDataFits, hrange]
      exact ⟨fun h => h hcolon, fun h _ => h⟩
    have hw : gdbWriteMemory bus cb io loci emu s =
        (if (hexPrefix len data.tail).length = len then cstr "OK" else cstr "E01",
          { emu with
            memory := memoryWriteBytes (emulatorIo bus cb io) loci addr (hexPrefix len data.tail)
              emu.memory }) := by
      simp only [gdbWriteMemory, hrange, hcolon, bne_self_eq_false, Bool.false_eq_true, if_false,
        gdbWriteBytes_eq, decide_eq_true_eq]
    rw [hfits, hw, hdata]
    by_cases hwhole : (hexPrefix len (gdbDataText s)).length = len
    · simp only [if_pos hwhole]
      have hstored : GdbStored loci emu
          { emu with
            memory := memoryWriteBytes (emulatorIo bus cb io) loci addr
              (hexPrefix len (gdbDataText s)) emu.memory } s ↔
          hexNumber (gdbLengthText s) < 2 ^ 32 := by
        constructor
        · -- a text has not that many digits
          rintro ⟨bytes, hbytes, -⟩
          rw [hexBytes_eq] at hbytes
          split at hbytes
          next hall =>
            have htext := hexPrefix_text (hexNumber (gdbLengthText s)) (gdbDataText s)
            have htail := gdbDataText_length s
            omega
          next => cases hbytes
        · intro hsmall
          rw [Nat.mod_eq_of_lt hsmall] at hlen
          rw [GdbStored, ← hlen, ← haddr]
          refine ⟨hexPrefix len (gdbDataText s), by rw [hexBytes_eq, if_pos hwhole],
            fun i v hi hlast => ⟨fun hram => ?_, fun hpage hupper => ?_⟩⟩
          · exact memoryWriteBytes_last (emulatorIo bus cb io) loci hdev _ hi hram hlast emu.memory
          · exact memoryWriteBytes_upperLast (emulatorIo bus cb io) loci _ hi hpage hlast hupper
      exact ⟨fun h => hstored.mp (h.2 trivial), fun h => ⟨fun hE => absurd hE hdone,
        fun _ => hstored.mpr h⟩⟩
    · simp only [if_neg hwhole]
      exact ⟨fun h => (h.1 herror).memory, fun h => ⟨fun _ => ⟨rfl, rfl, h, rfl, rfl⟩,
        fun hok => absurd hok hrefused⟩⟩

theorem debuggerAddBreakpoint_spec (dbg : Debugger) (addr : Word) :
    if (debuggerAddBreakpoint dbg addr).1.isSome = true then
      ∃ bp ∈ (debuggerAddBreakpoint dbg addr).2.breakpoints, bp.plainAt addr = true
    else (debuggerAddBreakpoint dbg addr).2 = dbg := by
  unfold debuggerAddBreakpoint
  split
  next hroom =>
    cases hfind : dbg.breakpoints.findIdx? (Breakpoint.plainAt addr) with
    | some i =>
      obtain ⟨hi, hbp, -⟩ := List.findIdx?_eq_some_iff_getElem.mp hfind
      exact ⟨_, List.getElem_mem hi, hbp⟩
    | none => exact ⟨_, List.mem_append_right _ List.mem_cons_self, by simp [Breakpoint.plainAt]⟩
  next => rfl

theorem debuggerAddWatchpointMode_spec (emu : GdbTarget ρ) (addr : Word) (mode : WatchMode) :
    if (debuggerAddWatchpointMode emu addr mode).1 = true then
      ∃ w ∈ (debuggerAddWatchpointMode emu addr mode).2.watchpoints, w.addr = addr ∧ w.mode = mode
    else True := by
  unfold debuggerAddWatchpointMode
  split
  next hroom =>
    split
    next hany =>
      obtain ⟨w, hw, hmatch⟩ := List.any_eq_true.mp hany
      rw [Bool.and_eq_true, beq_iff_eq, beq_iff_eq] at hmatch
      exact ⟨w, hw, hmatch⟩
    next => exact ⟨_, List.mem_append_right _ List.mem_cons_self, rfl, rfl⟩
  next => trivial

/-- Adding a watchpoint touches the table alone, and nothing where there is no room. -/
theorem debuggerAddWatchpointMode_frame (emu : GdbTarget ρ) (addr : Word) (mode : WatchMode) :
    (debuggerAddWatchpointMode emu addr mode).1 = false →
      (debuggerAddWatchpointMode emu addr mode).2 = emu := by
  unfold debuggerAddWatchpointMode
  split
  next => split <;> exact fun h => by cases h
  next => exact fun _ => rfl

/-- Installing the trace changes nothing that counts. -/
theorem debuggerInstallWatchpointTrace_kept (emu : GdbTarget ρ) :
    GdbKept emu (debuggerInstallWatchpointTrace emu) := ⟨rfl, rfl, rfl, rfl, rfl⟩

/-- The reply to a request that is done or not. -/
theorem gdbReply_done {done : Bool} :
    ((if done then cstr "OK" else cstr "E01").head? = some (asciiChar 'E') ↔ done = false) ∧
      ((if done then cstr "OK" else cstr "E01") = cstr "OK" ↔ done = true) := by
  cases done <;> decide

section Point

variable {emu : GdbTarget ρ} {s stale : CStr} (insert : Bool)
  (hok : (parseHex (skipComma (if s = [] then stale else s.tail))).2.1 = true)

include hok

/-- A plain breakpoint. -/
theorem gdbBreakpoint_plain (htype : s.headD 0 = asciiChar '0' ∨ s.headD 0 = asciiChar '1') :
    gdbBreakpoint emu insert s stale =
      let r := if insert then
          ((debuggerAddBreakpoint emu.debugger (gdbPointAddr s stale)).1.isSome,
            (debuggerAddBreakpoint emu.debugger (gdbPointAddr s stale)).2)
        else removeBpAt emu.debugger (gdbPointAddr s stale)
      (if r.1 then cstr "OK" else cstr "E01", { emu with debugger := r.2 }) := by
  have haddr := parseHex_addr (skipComma (if s = [] then stale else s.tail))
  simp only [gdbBreakpoint, hok, Bool.not_true, Bool.false_eq_true, if_false, if_pos htype, haddr]
  cases insert <;> rfl

/-- A watchpoint. -/
theorem gdbBreakpoint_watch (htype : ¬(s.headD 0 = asciiChar '0' ∨ s.headD 0 = asciiChar '1'))
    {mode : WatchMode} (hmode : gdbWatchMode (s.headD 0) = some mode) :
    gdbBreakpoint emu insert s stale =
      let r := if insert then debuggerAddWatchpointMode emu (gdbPointAddr s stale) mode
        else removeWpAt emu (gdbPointAddr s stale)
      (if r.1 then cstr "OK" else cstr "E01", debuggerInstallWatchpointTrace r.2) := by
  have haddr := parseHex_addr (skipComma (if s = [] then stale else s.tail))
  simp only [gdbBreakpoint, hok, Bool.not_true, Bool.false_eq_true, if_false, if_neg htype, hmode,
    haddr]
  cases insert <;> rfl

/-- A kind of point the stub does not know. -/
theorem gdbBreakpoint_unknown (htype : ¬(s.headD 0 = asciiChar '0' ∨ s.headD 0 = asciiChar '1'))
    (hmode : gdbWatchMode (s.headD 0) = none) :
    gdbBreakpoint emu insert s stale = ([], emu) := by
  simp only [gdbBreakpoint, hok, Bool.not_true, Bool.false_eq_true, if_false, if_neg htype, hmode]

end Point

/-- `Z` is refused, or leaves an entry in the table. -/
theorem gdbBreakpoint_insert (emu : GdbTarget ρ) (s stale : CStr) :
    ((gdbBreakpoint emu true s stale).1.head? = some (asciiChar 'E') →
        GdbKept emu (gdbBreakpoint emu true s stale).2) ∧
      ((gdbBreakpoint emu true s stale).1 = cstr "OK" →
        GdbInserted (gdbBreakpoint emu true s stale).2 s stale) := by
  have hrefused : cstr "E01" ≠ cstr "OK" ∧ ([] : CStr) ≠ cstr "OK" := by decide
  by_cases hok : (parseHex (skipComma (if s = [] then stale else s.tail))).2.1 = true
  swap
  · have hw : gdbBreakpoint emu true s stale = (cstr "E01", emu) := by
      simp [gdbBreakpoint, hok]
    rw [hw]
    exact ⟨fun _ => GdbKept.refl emu, fun h => absurd h hrefused.1⟩
  by_cases htype : s.headD 0 = asciiChar '0' ∨ s.headD 0 = asciiChar '1'
  · have hspec := debuggerAddBreakpoint_spec emu.debugger (gdbPointAddr s stale)
    have hw : gdbBreakpoint emu true s stale =
        (if (debuggerAddBreakpoint emu.debugger (gdbPointAddr s stale)).1.isSome then cstr "OK"
          else cstr "E01",
          { emu with
            debugger := (debuggerAddBreakpoint emu.debugger (gdbPointAddr s stale)).2 }) :=
      gdbBreakpoint_plain true hok htype
    rw [hw]
    refine ⟨fun hE => ?_, fun hdone => ?_⟩
    · rw [if_neg (by simp [gdbReply_done.1.mp hE])] at hspec
      exact ⟨rfl, rfl, rfl, hspec, rfl⟩
    · rw [if_pos (gdbReply_done.2.mp hdone)] at hspec
      rw [GdbInserted]
      exact (if_pos htype).mpr hspec
  · cases hmode : gdbWatchMode (s.headD 0) with
    | none =>
      rw [gdbBreakpoint_unknown true hok htype hmode]
      exact ⟨fun _ => GdbKept.refl emu, fun h => absurd h hrefused.2⟩
    | some mode =>
      have hspec := debuggerAddWatchpointMode_spec emu (gdbPointAddr s stale) mode
      have hframe := debuggerAddWatchpointMode_frame emu (gdbPointAddr s stale) mode
      have hw : gdbBreakpoint emu true s stale =
          (if (debuggerAddWatchpointMode emu (gdbPointAddr s stale) mode).1 then cstr "OK"
            else cstr "E01",
            debuggerInstallWatchpointTrace
              (debuggerAddWatchpointMode emu (gdbPointAddr s stale) mode).2) :=
        gdbBreakpoint_watch true hok htype hmode
      rw [hw]
      refine ⟨fun hE => ?_, fun hdone => ?_⟩
      · rw [hframe (gdbReply_done.1.mp hE)]
        exact debuggerInstallWatchpointTrace_kept emu
      · rw [if_pos (gdbReply_done.2.mp hdone)] at hspec
        simp only [GdbInserted, if_neg htype, hmode]
        exact hspec

theorem removeBpAt_spec (dbg : Debugger) (addr : Word) :
    (removeBpAt dbg addr).2.breakpoints = dbg.breakpoints.eraseP (fun bp => bp.addr == addr) ∧
      ((removeBpAt dbg addr).1 = false → (removeBpAt dbg addr).2 = dbg ∧
        ∀ bp ∈ dbg.breakpoints, bp.plainAt addr = false) := by
  rw [List.eraseP_eq_eraseIdx, removeBpAt]
  cases hfind : dbg.breakpoints.findIdx? fun bp => bp.addr == addr with
  | none =>
    refine ⟨rfl, fun _ => ⟨rfl, fun bp hbp => ?_⟩⟩
    have hne := List.findIdx?_eq_none_iff.mp hfind bp hbp
    simp only [Breakpoint.plainAt, hne, Bool.false_and]
  | some i =>
    obtain ⟨hi, -⟩ := List.findIdx?_eq_some_iff_getElem.mp hfind
    have hin : ¬ ((i : Int) < 0 ∨ (dbg.breakpoints.length : Int) ≤ i) := by omega
    simp only [debuggerRemoveBreakpoint, if_neg hin, Int.toNat_natCast]
    exact ⟨trivial, fun h => by cases h⟩

theorem removeWpAt_spec (emu : GdbTarget ρ) (addr : Word) :
    (removeWpAt emu addr).2.watchpoints = emu.watchpoints.eraseP (fun w => w.addr == addr) ∧
      ((removeWpAt emu addr).1 = false → (removeWpAt emu addr).2 = emu ∧
        ∀ w ∈ emu.watchpoints, w.addr ≠ addr) := by
  rw [List.eraseP_eq_eraseIdx, removeWpAt]
  cases hfind : emu.watchpoints.findIdx? fun w => w.addr == addr with
  | none =>
    refine ⟨rfl, fun _ => ⟨rfl, fun w hw => ?_⟩⟩
    exact beq_eq_false_iff_ne.mp (List.findIdx?_eq_none_iff.mp hfind w hw)
  | some i => exact ⟨rfl, fun h => by cases h⟩

/-- `z` is refused, or removes the first entry at the address. -/
theorem gdbBreakpoint_remove (emu : GdbTarget ρ) (s stale : CStr) :
    (((gdbBreakpoint emu false s stale).1.head? = some (asciiChar 'E') →
        GdbKept emu (gdbBreakpoint emu false s stale).2) ∧
      ((gdbBreakpoint emu false s stale).1 = cstr "OK" →
        GdbRemoved (gdbBreakpoint emu false s stale).2 s stale)) ↔ GdbOnly emu s stale := by
  have hrefused : cstr "E01" ≠ cstr "OK" ∧ ([] : CStr) ≠ cstr "OK" := by decide
  have hdoneE : (cstr "OK").head? ≠ some (asciiChar 'E') := by decide
  by_cases hok : (parseHex (skipComma (if s = [] then stale else s.tail))).2.1 = true
  swap
  · have hw : gdbBreakpoint emu false s stale = (cstr "E01", emu) := by
      simp [gdbBreakpoint, hok]
    rw [hw]
    exact iff_of_true ⟨fun _ => GdbKept.refl emu, fun h => absurd h hrefused.1⟩
      fun h => absurd h hok
  by_cases htype : s.headD 0 = asciiChar '0' ∨ s.headD 0 = asciiChar '1'
  · obtain ⟨herase, hnone⟩ := removeBpAt_spec emu.debugger (gdbPointAddr s stale)
    have hw : gdbBreakpoint emu false s stale =
        (if (removeBpAt emu.debugger (gdbPointAddr s stale)).1 then cstr "OK" else cstr "E01",
          { emu with debugger := (removeBpAt emu.debugger (gdbPointAddr s stale)).2 }) :=
      gdbBreakpoint_plain false hok htype
    have honly : GdbOnly emu s stale ↔ ∀ bp ∈ (removeBpAt emu.debugger
        (gdbPointAddr s stale)).2.breakpoints, bp.plainAt (gdbPointAddr s stale) = false := by
      rw [herase, GdbOnly]
      simp only [hok, true_imp_iff, if_pos htype]
    rw [hw, honly]
    cases hdone : (removeBpAt emu.debugger (gdbPointAddr s stale)).1 with
    | false =>
      obtain ⟨hsame, hall⟩ := hnone hdone
      rw [hsame]
      exact iff_of_true ⟨fun _ => GdbKept.refl emu, fun h => absurd h hrefused.1⟩ hall
    | true =>
      refine ⟨fun h => ?_, fun h => ⟨fun hE => absurd hE hdoneE, fun _ => ?_⟩⟩
      · have := h.2 rfl
        simpa only [GdbRemoved, if_pos htype] using this
      · simpa only [GdbRemoved, if_pos htype] using h
  · cases hmode : gdbWatchMode (s.headD 0) with
    | none =>
      rw [gdbBreakpoint_unknown false hok htype hmode]
      refine iff_of_true ⟨fun _ => GdbKept.refl emu, fun h => absurd h hrefused.2⟩ ?_
      simp only [GdbOnly, if_neg htype, hmode, implies_true]
    | some mode =>
      obtain ⟨herase, hnone⟩ := removeWpAt_spec emu (gdbPointAddr s stale)
      have hw : gdbBreakpoint emu false s stale =
          (if (removeWpAt emu (gdbPointAddr s stale)).1 then cstr "OK" else cstr "E01",
            debuggerInstallWatchpointTrace (removeWpAt emu (gdbPointAddr s stale)).2) :=
        gdbBreakpoint_watch false hok htype hmode
      have honly : GdbOnly emu s stale ↔
          ∀ w ∈ (removeWpAt emu (gdbPointAddr s stale)).2.watchpoints,
            ¬ (w.addr = gdbPointAddr s stale ∧ w.mode = mode) := by
        rw [herase, GdbOnly]
        simp only [hok, true_imp_iff, if_neg htype, hmode]
      rw [hw, honly]
      cases hdone : (removeWpAt emu (gdbPointAddr s stale)).1 with
      | false =>
        obtain ⟨hsame, hall⟩ := hnone hdone
        rw [hsame]
        exact iff_of_true ⟨fun _ => debuggerInstallWatchpointTrace_kept emu,
          fun h => absurd h hrefused.1⟩ fun w hw h => hall w hw h.1
      | true =>
        refine ⟨fun h => ?_, fun h => ⟨fun hE => absurd hE hdoneE, fun _ => ?_⟩⟩
        · have := h.2 rfl
          simpa only [GdbRemoved, if_neg htype, hmode, debuggerInstallWatchpointTrace] using this
        · simpa only [GdbRemoved, if_neg htype, hmode, debuggerInstallWatchpointTrace] using h

/-- A reply with bytes of the memory is no error. -/
theorem gdbReadMemory_error (emu : GdbTarget ρ) (s : CStr) (respSize : Nat)
    (h : (gdbReadMemory bus cb io loci emu s respSize).1.head? = some (asciiChar 'E')) :
    (gdbReadMemory bus cb io loci emu s respSize).2 = emu := by
  have hdigits : ∀ (bytes : List Byte), (bytes.flatMap emitByte).head? ≠ some (asciiChar 'E') := by
    intro bytes
    cases bytes with
    | nil => exact fun h => by cases h
    | cons b bytes =>
      have hdig : ∀ b : Byte, some (hexdig (b >>> 4).toNat) ≠ some (asciiChar 'E') := by decide
      exact hdig b
  unfold gdbReadMemory at h ⊢
  split at h
  next => simp only [*]
  next => exact absurd h (hdigits _)

/-- An error has changed nothing. -/
def GdbErrorKept (before : GdbTarget ρ) (reply : GdbReply ρ) : Prop :=
  reply.resp.head? = some (asciiChar 'E') → GdbKept before reply.emu

theorem GdbErrorKept.ite {c : Prop} [Decidable c] {emu : GdbTarget ρ} {r r' : GdbReply ρ}
    (h : c → GdbErrorKept emu r) (h' : GdbErrorKept emu r') :
    GdbErrorKept emu (if c then r else r') := by
  by_cases hc : c
  · rw [if_pos hc]
    exact h hc
  · rw [if_neg hc]
    exact h'

/-- The packets whose reply is to be believed. -/
theorem gdbDispatch_settles_iff (hdev : DevicesKeepRam io) (stub : GdbStub) (emu : GdbTarget ρ)
    {pkt : CStr} (stale : CStr) {respSize : Nat} (hsize : 4 ≤ respSize)
    (hshort : pkt.length < 2 ^ 32) :
    GdbSettles loci emu pkt stale (gdbDispatch bus cb io loci stub emu pkt stale respSize) ↔
      GdbSound loci bus cb io emu pkt stale := by
  have hsame : ∀ {reply : GdbReply ρ}, reply.emu = emu → GdbErrorKept emu reply := by
    intro reply h _
    rw [h]
    exact GdbKept.refl emu
  have hok : (cstr "OK").head? ≠ some (asciiChar 'E') := by decide
  cases pkt with
  | nil => exact iff_of_true ⟨hsame rfl, fun _ => trivial⟩ trivial
  | cons c s =>
    rw [List.length_cons] at hshort
    have hs : s.length < 2 ^ 32 := Nat.lt_of_succ_lt hshort
    by_cases hG : c = asciiChar 'G'
    · subst hG
      have htake := @gdbOutcome_take (cstr "OK") (by decide) respSize hsize
      have hreply : gdbDispatch bus cb io loci stub emu (asciiChar 'G' :: s) stale respSize =
          ⟨.none, (cstr "OK").take (respSize - 1), stub, hexToRegs emu s⟩ := rfl
      rw [hreply, htake]
      refine Iff.trans ?_ (hexToRegs_settles emu s)
      exact ⟨fun h => h.2 rfl, fun h => ⟨fun hE => absurd hE hok, fun _ => h⟩⟩
    by_cases hP : c = asciiChar 'P'
    · subst hP
      have htake := gdbOutcome_take (gdbWriteRegister_outcome emu s) hsize
      have hreply : gdbDispatch bus cb io loci stub emu (asciiChar 'P' :: s) stale respSize =
          ⟨.none, (gdbWriteRegister emu s).1.take (respSize - 1), stub,
            (gdbWriteRegister emu s).2⟩ :=
        rfl
      rw [hreply, htake]
      exact gdbWriteRegister_settles emu s
    by_cases hM : c = asciiChar 'M'
    · subst hM
      have htake := gdbOutcome_take (gdbWriteMemory_outcome bus cb io loci emu s) hsize
      have hreply : gdbDispatch bus cb io loci stub emu (asciiChar 'M' :: s) stale respSize =
          ⟨.none, (gdbWriteMemory bus cb io loci emu s).1.take (respSize - 1), stub,
            (gdbWriteMemory bus cb io loci emu s).2⟩ := rfl
      rw [hreply, htake]
      exact gdbWriteMemory_settles bus cb io loci hdev emu hs
    by_cases hZ : c = asciiChar 'Z'
    · subst hZ
      have htake := gdbOutcome_take (gdbBreakpoint_outcome emu true s stale) hsize
      have hreply : gdbDispatch bus cb io loci stub emu (asciiChar 'Z' :: s) stale respSize =
          ⟨.none, (gdbBreakpoint emu true s stale).1.take (respSize - 1), stub,
            (gdbBreakpoint emu true s stale).2⟩ := rfl
      rw [hreply, htake]
      exact iff_of_true (gdbBreakpoint_insert emu s stale) trivial
    by_cases hz : c = asciiChar 'z'
    · subst hz
      have htake := gdbOutcome_take (gdbBreakpoint_outcome emu false s stale) hsize
      have hreply : gdbDispatch bus cb io loci stub emu (asciiChar 'z' :: s) stale respSize =
          ⟨.none, (gdbBreakpoint emu false s stale).1.take (respSize - 1), stub,
            (gdbBreakpoint emu false s stale).2⟩ := rfl
      rw [hreply, htake]
      exact gdbBreakpoint_remove emu s stale
    -- the other packets ask for none of these changes
    have hsound : GdbSound loci bus cb io emu (c :: s) stale := by
      simp only [GdbSound, hG, hP, hM, hz, if_false]
    have hmade : ∀ after, GdbMade loci emu after (c :: s) stale := by
      intro after
      simp only [GdbMade, hG, hP, hM, hZ, hz, if_false]
    refine iff_of_true ⟨?_, fun _ => hmade _⟩ hsound
    have hnot : ¬ (c = asciiChar 'Z' ∨ c = asciiChar 'z') := not_or.mpr ⟨hZ, hz⟩
    refine GdbErrorKept.ite (fun _ => hsame rfl) ?_
    refine GdbErrorKept.ite (fun _ => hsame rfl) ?_
    refine GdbErrorKept.ite (fun h => absurd h hG) ?_
    refine GdbErrorKept.ite (fun _ => hsame rfl) ?_
    refine GdbErrorKept.ite (fun h => absurd h hP) ?_
    refine GdbErrorKept.ite
      (fun _ h => hsame (gdbReadMemory_error bus cb io loci emu s respSize h) h) ?_
    refine GdbErrorKept.ite (fun h => absurd h hM) ?_
    refine GdbErrorKept.ite (fun _ h => by cases h) ?_
    refine GdbErrorKept.ite (fun _ h => by cases h) ?_
    refine GdbErrorKept.ite (fun h => absurd h hnot) ?_
    refine GdbErrorKept.ite (fun _ => hsame rfl) ?_
    refine GdbErrorKept.ite (fun _ => hsame rfl) ?_
    refine GdbErrorKept.ite (fun _ h => by cases h) ?_
    refine GdbErrorKept.ite (fun _ => hsame rfl) ?_
    refine GdbErrorKept.ite (fun _ => GdbErrorKept.ite (fun _ => hsame rfl) (hsame rfl)) ?_
    exact GdbErrorKept.ite (fun _ => hsame rfl) (hsame rfl)

end Packets

/-- The packet with its `OK` or error, in the stopped machine. -/
def gdbReplyStopped (pkt : CStr) : GdbReply Unit :=
  gdbDispatch [] emulatorViaCallbacks emulatorIoNone (lociEmuStub (ViaSys Unit)) ⟨false, 5⟩
    gdbTargetStopped pkt [] gdbBufSize

/-- Seven registers are written. -/
theorem gdbDispatch_settles_registers :
    GdbSettles (lociEmuStub (ViaSys Unit)) gdbTargetStopped (cstr "G0102037f000530") []
      (gdbReplyStopped (cstr "G0102037f000530")) := by
  have hdev : DevicesKeepRam (emulatorIoNone) := fun _ h => by cases h
  have hsound : (hexBytes 7 (cstr "0102037f000530")).isSome = true := by decide
  exact (gdbDispatch_settles_iff [] emulatorViaCallbacks emulatorIoNone (lociEmuStub (ViaSys Unit))
    hdev ⟨false, 5⟩ gdbTargetStopped [] (by decide) (by decide)).mpr hsound

/-- Two registers of seven are answered `OK`, and nothing is written; a byte and a half are answered
with an error, and the byte is written. -/
theorem gdbDispatch_unsettled :
    ¬ GdbSettles (lociEmuStub (ViaSys Unit)) gdbTargetStopped (cstr "G0102") []
        (gdbReplyStopped (cstr "G0102")) ∧
      ¬ GdbSettles (lociEmuStub (ViaSys Unit)) gdbTargetStopped (cstr "M400,2:AAX") []
        (gdbReplyStopped (cstr "M400,2:AAX")) := by
  constructor
  · intro h
    have hnone : hexBytes 7 (cstr "0102") = none := by decide
    have hmade : hexBytes 7 (cstr "0102") = some _ := h.2 (by decide)
    rw [hnone] at hmade
    cases hmade
  · intro h
    have hkept := congrArg (fun sys => sys.ram (ramIndex 0x400#16)) (h.1 (by decide)).memory
    exact absurd hkept (by decide)

end Phosphoric
