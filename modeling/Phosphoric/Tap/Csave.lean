import Phosphoric.Debugger.Assembler
import Phosphoric.Tap.Header

/-!
# The tape image of a CSAVE

At the end of a CSAVE the patch of `io/tape_patches.c` drops the bytes the ROM wrote and rebuilds
the TAP from `ram[]`. The addresses, the type and the autorun flag come from the snapshot taken
when the header was written, else from the ROM's staging buffer, else from the BASIC pointers; the
name is made safe for a file. The bytes are `ram[start_addr + i]`, whatever the address.

An access outside `ram[]` is `none` here. The writes of the image to the host file and to the SD
card are not modelled.

**Theorem (`csave_saves_iff`).** The image holds the bytes the CPU reads, comes from `ram[]` alone
and is read back as it was saved, exactly when the program ends below `$C000`, the CPU reads there
what `ram[]` holds, and no other layout is mistaken for the header's.
-/

namespace Phosphoric

/-! ## The sources -/

/-- What the rebuild reads of `rom_patches_t`. The buffers are in `ram[]`. -/
structure CsavePatches where
  csaveHeaderBuf : Word
  csaveFilenameBuf : Word
  headerBuf_le : csaveHeaderBuf.toNat + 9 ≤ 0xC000
  filenameBuf_le : csaveFilenameBuf.toNat + 16 ≤ 0xC000

/-- `rom_patches_basic10`. -/
def romPatchesBasic10 : CsavePatches where
  csaveHeaderBuf := 0x005E#16
  csaveFilenameBuf := 0x0035#16
  headerBuf_le := by decide
  filenameBuf_le := by decide

/-- `rom_patches_basic11`. -/
def romPatchesBasic11 : CsavePatches where
  csaveHeaderBuf := 0x02A8#16
  csaveFilenameBuf := 0x027F#16
  headerBuf_le := by decide
  filenameBuf_le := by decide

/-- The fields of `emulator_t` that the rebuild reads. -/
structure CsaveEmu (σ : Type) where
  memory : MemorySys σ
  csaveSnapValid : Bool
  csaveHeaderSnap : Fin 9 → Byte
  csaveFnameSnap : Fin 17 → Byte

variable {σ : Type} (io : MemoryIo σ) (loci : LociEmu σ) (p : CsavePatches) (emu : CsaveEmu σ)

/-- `emu->memory.ram[i]` of an address in `ram[]`. -/
def CsaveEmu.ram (i : Nat) : Byte := emu.memory.ram (Fin.ofNat 0xC000 i)

/-- `start_addr`, `end_addr`, `header_auto` and `header_type`. -/
def csaveFields : Word × Word × Byte × Byte :=
  if emu.csaveSnapValid then
    (.mk (emu.csaveHeaderSnap 2) (emu.csaveHeaderSnap 1),
      .mk (emu.csaveHeaderSnap 4) (emu.csaveHeaderSnap 3),
      emu.csaveHeaderSnap 5, emu.csaveHeaderSnap 6)
  else if p.csaveHeaderBuf ≠ 0#16 then
    let b := p.csaveHeaderBuf.toNat
    (.mk (emu.ram (b + 2)) (emu.ram (b + 1)), .mk (emu.ram (b + 4)) (emu.ram (b + 3)),
      emu.ram (b + 5), emu.ram (b + 6))
  else
    -- `TXTTAB` and `VARTAB`, the first byte after the program
    let startAddr := Word.mk (emu.ram 0x9B) (emu.ram 0x9A)
    let endAddr := Word.mk (emu.ram 0x9D) (emu.ram 0x9C)
    (startAddr, if startAddr < endAddr then endAddr - 1#16 else endAddr, 0xC7#8, 0x00#8)

/-! ## The name -/

/-- `if (c >= 'a' && c <= 'z') c = c - 'a' + 'A'`. -/
def csaveUpper (c : Byte) : Byte :=
  if 0x61#8 ≤ c ∧ c ≤ 0x7A#8 then c - 0x61#8 + 0x41#8 else c

/-- A character of a saved name: `A`–`Z`, `0`–`9`, `_`, `-` and `.`. -/
def csaveKept (c : Byte) : Bool :=
  (0x41#8 ≤ c && c ≤ 0x5A#8) || (0x30#8 ≤ c && c ≤ 0x39#8) || c == 0x5F#8 || c == 0x2D#8 ||
    c == 0x2E#8

/-- The loop over the name, with `room` characters of `clean_name` left. -/
def csaveClean : Nat → List Byte → List Byte
  | 0, _ => []
  | _, [] => []
  | room + 1, c :: name =>
    if c = 0#8 then []
    else if csaveKept (csaveUpper c) then csaveUpper c :: csaveClean room name
    else csaveClean (room + 1) name

/-- The sixteen bytes the name is taken from. -/
def csaveRawName : List Byte :=
  (List.range 16).map fun i =>
    if emu.csaveSnapValid then emu.csaveFnameSnap (Fin.ofNat 17 i)
    else
      let fnAddr := if p.csaveFilenameBuf ≠ 0#16 then p.csaveFilenameBuf else 0x0035#16
      emu.ram (fnAddr.toNat + i)

theorem csaveClean_length_le (room : Nat) (name : List Byte) :
    (csaveClean room name).length ≤ room := by
  fun_induction csaveClean room name with
  | case1 => simp
  | case2 => simp
  | case3 => simp
  | case4 room c name hc hkept ih => simpa using ih
  | case5 room c name hc hkept ih => exact ih

theorem csaveClean_kept (room : Nat) (name : List Byte) :
    ∀ c ∈ csaveClean room name, csaveKept c := by
  fun_induction csaveClean room name with
  | case1 => simp
  | case2 => simp
  | case3 => simp
  | case4 room c name hc hkept ih =>
    intro d hd
    rcases List.mem_cons.mp hd with rfl | hd
    · exact hkept
    · exact ih d hd
  | case5 room c name hc hkept ih => exact ih

/-- `"CSAVE"`. -/
def csaveDefaultName : TapName := ⟨[0x43#8, 0x53#8, 0x41#8, 0x56#8, 0x45#8], by decide, by decide⟩

/-- `clean_name`: eleven characters at most, `CSAVE` when there are none. -/
def csaveName : TapName :=
  if (csaveClean 11 (csaveRawName p emu)).isEmpty then csaveDefaultName
  else
    { bytes := csaveClean 11 (csaveRawName p emu)
      length_lt := lt_of_le_of_lt (csaveClean_length_le 11 _) (by decide)
      ne_zero := by
        rintro b hb rfl
        exact absurd (csaveClean_kept 11 _ _ hb) (by decide) }

theorem csaveName_length_le : (csaveName p emu).bytes.length ≤ 11 := by
  unfold csaveName
  split_ifs
  · decide
  · exact csaveClean_length_le 11 _

/-- The header saved. -/
def csaveHeader : TapHeader :=
  let (startAddr, endAddr, headerAuto, headerType) := csaveFields p emu
  { syncLen := 0x03#8
    name := csaveName p emu
    type := headerType
    autoRun := headerAuto
    startAddr := startAddr
    endAddr := endAddr
    checksum := 0x00#8 }

/-! ## The image -/

/-- `prog_len`. -/
def csaveProgLen (startAddr endAddr : Word) : Nat :=
  ((endAddr.toNat : Int) - startAddr.toNat + 1).toNat

/-- `tap_cap`: leader and marker, header, name, NUL and program. -/
def csaveTapCap (nameLen progLen : Nat) : Nat := 4 + 9 + nameLen + 1 + progLen

/-- `n` rounds of `tap[t++] = emu->memory.ram[start_addr + i]`, from the index `i` of `ram[]`. -/
def csaveProgram : Nat → Nat → Option (List Byte)
  | 0, _ => some []
  | n + 1, i =>
    if i < 0xC000 then (csaveProgram n (i + 1)).map (emu.ram i :: ·) else none

/-- The bytes written into `tap`. -/
def csaveImage : Option (List Byte) :=
  let (startAddr, endAddr, headerAuto, headerType) := csaveFields p emu
  (csaveProgram emu (csaveProgLen startAddr endAddr) startAddr.toNat).map fun program =>
    [0x16#8, 0x16#8, 0x16#8] ++ [0x24#8] ++ [0x00#8, 0x00#8] ++ [headerType] ++ [headerAuto] ++
      [endAddr.hi] ++ [endAddr.lo] ++ [startAddr.hi] ++ [startAddr.lo] ++ [0x00#8] ++
      (csaveName p emu).bytes ++ [0x00#8] ++ program

/-- The tape left in `tapebuf`: none when `t != tap_cap`. -/
def csaveTape : Option (List Byte) :=
  let (startAddr, endAddr, _, _) := csaveFields p emu
  (csaveImage p emu).filter fun tap =>
    tap.length == csaveTapCap (csaveName p emu).bytes.length (csaveProgLen startAddr endAddr)

theorem csaveProgram_inside {n i : Nat} (h : i + n ≤ 0xC000) :
    csaveProgram emu n i = some ((List.range n).map fun k => emu.ram (i + k)) := by
  induction n generalizing i with
  | zero => rfl
  | succ n ih =>
    have hi : i < 0xC000 := by omega
    have hrest := ih (i := i + 1) (by omega)
    simp only [csaveProgram, hi, if_true, hrest, Option.map_some, List.range_succ_eq_map,
      List.map_cons, List.map_map, Nat.add_zero, Option.some.injEq, List.cons.injEq, true_and]
    apply List.map_congr_left
    intro k _
    simp only [Function.comp_apply, Nat.succ_eq_add_one]
    congr 1
    omega

theorem csaveProgram_outside {n i : Nat} (hn : 0 < n) (h : 0xC000 < i + n) :
    csaveProgram emu n i = none := by
  induction n generalizing i with
  | zero => omega
  | succ n ih =>
    simp only [csaveProgram]
    split_ifs with hi
    · rw [ih (by omega) (by omega)]
      rfl
    · rfl

theorem csaveProgram_length {n i : Nat} {program : List Byte}
    (h : csaveProgram emu n i = some program) : program.length = n := by
  by_cases hle : i + n ≤ 0xC000
  · rw [csaveProgram_inside emu hle, Option.some.injEq] at h
    simp [← h]
  · cases n with
    | zero =>
      cases h
      rfl
    | succ n => simp [csaveProgram_outside emu n.succ_pos (not_le.mp hle)] at h

/-- The image is the header as `tapWriteHeader` writes it, and the program. -/
theorem csaveImage_eq :
    csaveImage p emu =
      (csaveProgram emu (csaveProgLen (csaveHeader p emu).startAddr (csaveHeader p emu).endAddr)
        (csaveHeader p emu).startAddr.toNat).map (tapHeaderBytes (csaveHeader p emu) ++ ·) := by
  simp only [csaveImage, csaveHeader]
  congr 1

/-- The size computed by hand is the number of bytes written. -/
theorem csaveTape_eq : csaveTape p emu = csaveImage p emu := by
  have hcap : ∀ tap ∈ csaveImage p emu, tap.length =
      csaveTapCap (csaveName p emu).bytes.length
        (csaveProgLen (csaveHeader p emu).startAddr (csaveHeader p emu).endAddr) := by
    intro tap htap
    rw [csaveImage_eq, Option.mem_def, Option.map_eq_some_iff] at htap
    obtain ⟨program, hprogram, rfl⟩ := htap
    have hsync : (csaveHeader p emu).syncCount = 3 := rfl
    have hname : (csaveHeader p emu).name = csaveName p emu := rfl
    rw [List.length_append, tapHeaderBytes_length, csaveProgram_length emu hprogram, hsync, hname,
      csaveTapCap]
    omega
  have htape : csaveTape p emu = (csaveImage p emu).filter fun tap => tap.length ==
      csaveTapCap (csaveName p emu).bytes.length
        (csaveProgLen (csaveHeader p emu).startAddr (csaveHeader p emu).endAddr) := rfl
  rw [htape]
  cases himage : csaveImage p emu with
  | none => rfl
  | some tap =>
    rw [Option.filter_some]
    exact if_pos (by simpa using hcap tap himage)

/-! ## What is saved -/

/-- The bytes the CPU reads from `startAddr` to `endAddr`, each in this state. -/
def cpuBytes (startAddr endAddr : Word) (sys : MemorySys σ) : List Byte :=
  (List.range (csaveProgLen startAddr endAddr)).map fun i =>
    (memoryRead io loci (startAddr + BitVec.ofNat 16 i) sys).1

/-- The CPU reads at an address what `ram[]` holds there: the devices answer so in the I/O page, and
the stuck bits leave the byte elsewhere. -/
def RamShows (sys : MemorySys σ) (a : Word) : Prop :=
  match io.ioRead, decide (ioPage a) with
  | some read, true => (read a sys).1 = sys.ram (ramIndex a)
  | _, _ => ramByte sys.toMemory a = sys.ram (ramIndex a)

/-- The image is left in the tape buffer, and holds after its header the bytes the CPU reads. Either
reader gives the header back, whatever its stack and its header held, and then the bytes. -/
def CsaveSaves : Prop :=
  let header := csaveHeader p emu
  let bytes := cpuBytes io loci header.startAddr header.endAddr emu.memory
  csaveTape p emu = some (tapHeaderBytes header ++ bytes) ∧
    ∀ (stack : Nat → Byte) (fastLoad : Bool) (out : TapHeader),
      let tap := tapOpenRead (tapHeaderBytes header ++ bytes) fastLoad
      let r := tapReadHeader stack tap out
      TapReadBack header (tapHeaderBytes header ++ bytes) (tapHeaderBytes header).length r ∧
        (tapReadData r.2.2 (header.endAddr.toNat - header.startAddr.toNat + 1)).1 = bytes

theorem ramShows_iff {a : Word} (ha : a < 0xC000#16) (sys : MemorySys σ) :
    RamShows io sys a ↔ (memoryRead io loci a sys).1 = sys.ram (ramIndex a) := by
  have hmem : (memoryReadMem io loci a sys).1 = ramByte sys.toMemory a :=
    congrArg Prod.fst (if_pos ha)
  unfold RamShows memoryRead
  cases hread : io.ioRead with
  | none => rw [hmem]
  | some read =>
    cases decide (ioPage a)
    · rw [hmem]
    · exact Iff.rfl

/-- The bytes of `ram[]` from `startAddr` to `endAddr`. -/
def ramBytes (startAddr endAddr : Word) : List Byte :=
  (List.range (csaveProgLen startAddr endAddr)).map fun i => emu.ram (startAddr.toNat + i)

section Range

variable {startAddr endAddr : Word}

theorem csaveProgLen_eq (hle : startAddr ≤ endAddr) :
    csaveProgLen startAddr endAddr = endAddr.toNat - startAddr.toNat + 1 := by
  have hnat : startAddr.toNat ≤ endAddr.toNat := hle
  unfold csaveProgLen
  omega

/-- An address of the program, and its index. -/
theorem csave_addr (hle : startAddr ≤ endAddr) {i : Nat}
    (hi : i < csaveProgLen startAddr endAddr) :
    (startAddr + BitVec.ofNat 16 i).toNat = startAddr.toNat + i := by
  have hlt := endAddr.isLt
  have hnat : startAddr.toNat ≤ endAddr.toNat := hle
  rw [csaveProgLen_eq hle] at hi
  rw [BitVec.toNat_add, BitVec.toNat_ofNat]
  omega

/-- The CPU reads the bytes of `ram[]` exactly when it does at each address. -/
theorem cpuBytes_eq_iff (hle : startAddr ≤ endAddr) (hend : endAddr < 0xC000#16) :
    cpuBytes io loci startAddr endAddr emu.memory = ramBytes emu startAddr endAddr ↔
      ∀ a, startAddr ≤ a → a ≤ endAddr → RamShows io emu.memory a := by
  have hlt : endAddr.toNat < 0xC000 := hend
  have hnat : startAddr.toNat ≤ endAddr.toNat := hle
  have hlen := csaveProgLen_eq hle
  have hindex : ∀ i < csaveProgLen startAddr endAddr,
      emu.ram (startAddr.toNat + i) =
        emu.memory.ram (ramIndex (startAddr + BitVec.ofNat 16 i)) := by
    intro i hi
    simp only [CsaveEmu.ram, ramIndex, csave_addr hle hi]
  unfold cpuBytes ramBytes
  rw [List.map_inj_left]
  constructor
  · intro h a hstart hstop
    have hstart' : startAddr.toNat ≤ a.toNat := hstart
    have hstop' : a.toNat ≤ endAddr.toNat := hstop
    have hi : a.toNat - startAddr.toNat < csaveProgLen startAddr endAddr := by omega
    have haddr : startAddr + BitVec.ofNat 16 (a.toNat - startAddr.toNat) = a := by
      apply BitVec.eq_of_toNat_eq
      rw [csave_addr hle hi]
      omega
    have hbyte := h _ (List.mem_range.mpr hi)
    rw [hindex _ hi, haddr] at hbyte
    have ha : a.toNat < 0xC000 := by omega
    exact (ramShows_iff io loci ha emu.memory).mpr hbyte
  · intro h i hi
    have hi' := List.mem_range.mp hi
    have hnatAddr := csave_addr hle hi'
    have hstart : startAddr ≤ startAddr + BitVec.ofNat 16 i := by
      rw [BitVec.le_def]
      omega
    have hstop : startAddr + BitVec.ofNat 16 i ≤ endAddr := by
      rw [BitVec.le_def]
      omega
    have ha : (startAddr + BitVec.ofNat 16 i).toNat < 0xC000 := by omega
    rw [hindex i hi']
    exact (ramShows_iff io loci ha emu.memory).mp (h _ hstart hstop)

end Range

/-- The tape comes from `ram[]` alone exactly when the program ends there. -/
theorem csaveTape_eq_some_iff (hle : (csaveHeader p emu).startAddr ≤ (csaveHeader p emu).endAddr)
    (tap : List Byte) :
    csaveTape p emu = some tap ↔
      (csaveHeader p emu).endAddr < 0xC000#16 ∧
        tap = tapHeaderBytes (csaveHeader p emu) ++
          ramBytes emu (csaveHeader p emu).startAddr (csaveHeader p emu).endAddr := by
  have hlen := csaveProgLen_eq hle
  have hnat : (csaveHeader p emu).startAddr.toNat ≤ (csaveHeader p emu).endAddr.toNat := hle
  rw [csaveTape_eq, csaveImage_eq, Option.map_eq_some_iff]
  by_cases hend : (csaveHeader p emu).endAddr < 0xC000#16
  · have hlt : (csaveHeader p emu).endAddr.toNat < 0xC000 := hend
    rw [csaveProgram_inside emu (by omega)]
    simp [hend, ramBytes, eq_comm]
  · have hge : ¬ (csaveHeader p emu).endAddr.toNat < 0xC000 := hend
    rw [csaveProgram_outside emu (by omega) (by omega)]
    simp [hend]

/-- The reader on the image, and on the bytes after the header. -/
theorem csave_readBack_iff (header : TapHeader) (hname : header.name.bytes.length < 15)
    (bytes : List Byte) (stack : Nat → Byte) (fastLoad : Bool) (out : TapHeader) :
    TapReadBack header (tapHeaderBytes header ++ bytes) (tapHeaderBytes header).length
        (tapReadHeader stack (tapOpenRead (tapHeaderBytes header ++ bytes) fastLoad) out) ∧
      (tapReadData (tapReadHeader stack
        (tapOpenRead (tapHeaderBytes header ++ bytes) fastLoad) out).2.2 bytes.length).1 = bytes ↔
      tapPlausible header.startAddr header.endAddr ∨ ¬ TapMistaken header bytes := by
  obtain ⟨-, hwrites, hcontents⟩ := tapWriteHeader_eq tapOpenWrite_writes header
  have hcontents : (tapWriteHeader tapOpenWrite header).2.contents = tapHeaderBytes header :=
    hcontents
  have hpos : (tapWriteHeader tapOpenWrite header).2.position = (tapHeaderBytes header).length := by
    rw [hwrites.position, hcontents]
  have hne : tapHeaderBytes header ++ bytes ≠ [] := by
    simp [tapHeaderBytes]
  have hread := @tapReadHeader_iff tapOpenWrite _ header bytes tapOpenWrite_writes
    (by rw [hcontents]; exact tapOpenRead_reads hne fastLoad) stack out
  rw [hcontents, hpos] at hread
  constructor
  · rintro ⟨hback, -⟩
    exact (hread.mp hback).2
  · intro h
    have hback := hread.mpr ⟨hname, h⟩
    refine ⟨hback, ?_⟩
    rw [tapReadData, (hback.reads.readBytes _).1, List.drop_left, List.take_length]

/-- **What a CSAVE saves.** -/
theorem csave_saves_iff (hle : (csaveHeader p emu).startAddr ≤ (csaveHeader p emu).endAddr) :
    CsaveSaves io loci p emu ↔
      (csaveHeader p emu).endAddr < 0xC000#16 ∧
      (∀ a, (csaveHeader p emu).startAddr ≤ a → a ≤ (csaveHeader p emu).endAddr →
        RamShows io emu.memory a) ∧
      (tapPlausible (csaveHeader p emu).startAddr (csaveHeader p emu).endAddr ∨
        ¬ TapMistaken (csaveHeader p emu)
          (ramBytes emu (csaveHeader p emu).startAddr (csaveHeader p emu).endAddr)) := by
  have hname : (csaveHeader p emu).name.bytes.length < 15 :=
    lt_of_le_of_lt (csaveName_length_le p emu) (by decide)
  have hlen : (cpuBytes io loci (csaveHeader p emu).startAddr (csaveHeader p emu).endAddr
      emu.memory).length =
      (csaveHeader p emu).endAddr.toNat - (csaveHeader p emu).startAddr.toNat + 1 := by
    rw [cpuBytes, List.length_map, List.length_range, csaveProgLen_eq hle]
  have hread := csave_readBack_iff (csaveHeader p emu) hname
    (cpuBytes io loci (csaveHeader p emu).startAddr (csaveHeader p emu).endAddr emu.memory)
  rw [hlen] at hread
  simp only [CsaveSaves]
  rw [csaveTape_eq_some_iff p emu hle, List.append_cancel_left_eq]
  constructor
  · rintro ⟨⟨hend, hbytes⟩, hback⟩
    have hplausible := (hread (fun _ => 0#8) true (csaveHeader p emu)).mp (hback _ _ _)
    rw [hbytes] at hplausible
    exact ⟨hend, (cpuBytes_eq_iff io loci emu hle hend).mp hbytes, hplausible⟩
  · rintro ⟨hend, hshows, hplausible⟩
    have hbytes := (cpuBytes_eq_iff io loci emu hle hend).mpr hshows
    rw [← hbytes] at hplausible
    exact ⟨⟨hend, hbytes⟩, fun stack fastLoad out => (hread stack fastLoad out).mpr hplausible⟩

/-- A machine whose devices answer `$FF`, with these stuck bits and one byte throughout `ram[]`, and
the snapshot of a header. -/
def csaveMachine (stuck0 byte : Byte) (startAddr endAddr : Word) (auto type : Byte) :
    CsaveEmu Unit where
  memory :=
    { ram := fun _ => byte
      rom := fun _ => 0xEA#8
      upperRam := fun _ => 0x00#8
      romEnabled := true
      overlayRom := none
      overlayRomSize := 0#32
      overlayActive := false
      basicRomDisabled := false
      jasminActive := false
      jasminRom := none
      jasminOlay := false
      jasminRomdis := false
      stuck0 := stuck0
      stuck1 := 0x00#8
      lastBusValue := 0x00#8
      traceEnabled := false
      devices := ()
      traced := []
      traced2 := [] }
  csaveSnapValid := true
  csaveHeaderSnap := ![0x00#8, startAddr.lo, startAddr.hi, endAddr.lo, endAddr.hi, auto, type,
    0x00#8, 0x00#8]
  csaveFnameSnap := fun i => if i = 0 then 0x41#8 else 0x00#8

/-- The callbacks of that machine. -/
def csaveIo : MemoryIo Unit where
  ioRead := some fun _ sys => (0xFF#8, sys)
  ioWrite := none
  ioPeek := none
  traceCallback := false
  traceCallback2 := false

/-- A BASIC program at `$0501..$0580` of the Atmos. -/
theorem csave_saves_basic :
    CsaveSaves csaveIo (lociEmuStub Unit) romPatchesBasic11
      (csaveMachine 0x00#8 0x41#8 0x0501#16 0x0580#16 0xC7#8 0x00#8) := by
  refine (csave_saves_iff csaveIo (lociEmuStub Unit) romPatchesBasic11 _ (by decide)).mpr
    ⟨by decide, fun a hstart _ => ?_, .inl (by decide)⟩
  have hpage : ¬ ioPage a := by
    rintro ⟨-, hle⟩
    have hstart' : 0x0501 ≤ a.toNat := hstart
    have hle' : a.toNat ≤ 0x03FF := hle
    omega
  simp only [RamShows, csaveIo, hpage, decide_false]
  rfl

/-- A byte at `$C000` is read past `ram[]`; a bit stuck at 0 is saved as it is in `ram[]`; and one
byte at `$0600` with type `$80` is read back as a header of seven bytes. -/
theorem csave_not_saves :
    ¬ CsaveSaves csaveIo (lociEmuStub Unit) romPatchesBasic11
        (csaveMachine 0x00#8 0x41#8 0xC000#16 0xC000#16 0xC7#8 0x00#8) ∧
      ¬ CsaveSaves csaveIo (lociEmuStub Unit) romPatchesBasic10
        (csaveMachine 0x01#8 0x41#8 0x0501#16 0x0502#16 0xC7#8 0x00#8) ∧
      ¬ CsaveSaves csaveIo (lociEmuStub Unit) romPatchesBasic11
        (csaveMachine 0x00#8 0x41#8 0x0600#16 0x0600#16 0x00#8 0x80#8) := by
  refine ⟨fun h => ?_, fun h => ?_, fun h => ?_⟩
  · exact absurd h.1 (by decide)
  · exact absurd h.1 (by decide)
  · exact absurd (h.2 (fun _ => 0#8) true (csaveHeader romPatchesBasic11
      (csaveMachine 0x00#8 0x41#8 0x0600#16 0x0600#16 0x00#8 0x80#8))).1.type (by decide)

end Phosphoric
