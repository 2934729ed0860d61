import Phosphoric.Cpu.Bus
import Phosphoric.Lib.Binary
import Phosphoric.Via.Lazy

/-!
# The `.ost` file

`src/savestate.c`: a header of 48 bytes, then sections, each a tag, a size and its data. Saving
writes the sections and their checksum; loading checks the header and hands each section to the
device it belongs to.

The sections of the CPU and of the VIA are here; those of the memory and of the other devices are a
parameter. `VERSION` and the log are not modelled: loading only logs them.

**Theorem (`savestateLoad_save`).** Loading a saved file visits its sections in order.
**Theorem (`savestateLoadCpu_save`, `savestateLoadVia_save`).** Of the CPU and the VIA it restores
what is saved, beside the fields of the machine loaded into that are not.
-/

namespace Phosphoric

open Binary

/-! ## Values -/

def writeU8 : Byte → List Byte := bytesLe 1
def writeU16le : Word → List Byte := bytesLe 2
def writeU32le : BitVec 32 → List Byte := bytesLe 4
def writeU64le : BitVec 64 → List Byte := bytesLe 8
def writeBool (v : Bool) : List Byte := writeU8 (if v then 1 else 0)

def readU8 : Reader Byte := readLe 1 8
def readU16le : Reader Word := readLe 2 16
def readU32le : Reader (BitVec 32) := readLe 4 32
def readU64le : Reader (BitVec 64) := readLe 8 64
def readBool : Reader Bool := do return (← readU8) != 0#8

section Readers

variable {α : Type} (rest : List Byte)

theorem readU8_bind (v : Byte) (k : Byte → Reader α) :
    (readU8 >>= k) (writeU8 v ++ rest) = k v rest := readLe_bind (by decide) v rest k

theorem readU16le_bind (v : Word) (k : Word → Reader α) :
    (readU16le >>= k) (writeU16le v ++ rest) = k v rest := readLe_bind (by decide) v rest k

theorem readU32le_bind (v : BitVec 32) (k : BitVec 32 → Reader α) :
    (readU32le >>= k) (writeU32le v ++ rest) = k v rest := readLe_bind (by decide) v rest k

theorem readU64le_bind (v : BitVec 64) (k : BitVec 64 → Reader α) :
    (readU64le >>= k) (writeU64le v ++ rest) = k v rest := readLe_bind (by decide) v rest k

theorem readBool_bind (v : Bool) (k : Bool → Reader α) :
    (readBool >>= k) (writeBool v ++ rest) = k v rest := by
  have hread := readU8_bind rest (if v then 1 else 0) fun b => k (b != 0#8)
  cases v
  · exact hread
  · exact hread

end Readers

/-! ## Checksum -/

/-- An entry of `crc32_table`. -/
def crc32Entry (i : BitVec 32) : BitVec 32 :=
  (List.range 8).foldl
    (fun crc _ => if crc &&& 1#32 != 0#32 then (crc >>> 1) ^^^ 0xEDB88320#32 else crc >>> 1) i

/-- `crc32_calc`. -/
def crc32Calc (data : List Byte) : BitVec 32 :=
  data.foldl (fun crc b => crc32Entry ((crc ^^^ b.setWidth 32) &&& 0xFF#32) ^^^ (crc >>> 8))
    0xFFFFFFFF#32 ^^^ 0xFFFFFFFF#32

/-! ## Sections -/

abbrev OstTag := Vector Byte 4

/-- A section, whose size fits its header. -/
structure OstSection where
  tag : OstTag
  data : List Byte
  fits : data.length < 2 ^ 32

/-- What `begin_section` and `end_section` write around the data. -/
def OstSection.bytes (s : OstSection) : List Byte :=
  s.tag.toList ++ writeU32le (BitVec.ofNat 32 s.data.length) ++ s.data

/-- `SAVESTATE_MAGIC`. -/
def savestateMagic : List Byte := [0x4F, 0x53, 0x54, 0x31]

/-- `SAVESTATE_VERSION`. -/
def savestateVersion : BitVec 32 := 1

/-- `SAVESTATE_HEADER_SIZE`. -/
def savestateHeaderSize : Nat := 48

/-- `savestate_save`, from its sections. `emuVersion` is `EMU_VERSION`, padded. -/
def savestateSave (emuVersion : Vector Byte 32) (sections : List OstSection) : List Byte :=
  let body := sections.flatMap OstSection.bytes
  savestateMagic ++ (writeU32le savestateVersion ++
    (writeU32le (BitVec.ofNat 32 (savestateHeaderSize + body.length)) ++
      (writeU32le (crc32Calc body) ++ (emuVersion.toList ++ body))))

section Load

variable {E : Type} (load : OstTag → Nat → List Byte → E → E)

/-- The loop of `savestate_load`. A section's loader is given all that follows its header, and
the loop goes on at the section's end. -/
def savestateLoadSections (bytes : List Byte) (emu : E) : E :=
  if h : 4 ≤ bytes.length then
    let tag : OstTag := ⟨(bytes.take 4).toArray, by simp [h]⟩
    let size := (readU32le (bytes.drop 4)).1.toNat
    let rest := (readU32le (bytes.drop 4)).2
    savestateLoadSections (rest.drop size) (load tag size rest emu)
  else emu
termination_by bytes.length
decreasing_by
  simp only [readU32le, readLe, List.length_drop]
  omega

/-- `savestate_load`; `none` for a header it refuses. -/
def savestateLoad (file : List Byte) (emu : E) : Option E :=
  if file.length < savestateHeaderSize then none
  else if file.take 4 ≠ savestateMagic then none
  else if (readU32le (file.drop 4)).1 ≠ savestateVersion then none
  else if (readU32le (file.drop 12)).1 ≠ crc32Calc (file.drop savestateHeaderSize) then none
  else some (savestateLoadSections load (file.drop savestateHeaderSize) emu)

/-- The sections one after another, each with what follows it. -/
def loadEach : List OstSection → E → E
  | [], emu => emu
  | s :: rest, emu =>
    loadEach rest (load s.tag s.data.length (s.data ++ rest.flatMap OstSection.bytes) emu)

theorem savestateLoadSections_cons (s : OstSection) (rest : List Byte) (emu : E) :
    savestateLoadSections load (s.bytes ++ rest) emu =
      savestateLoadSections load rest (load s.tag s.data.length (s.data ++ rest) emu) := by
  have hbytes : s.bytes ++ rest = s.tag.toList ++
      (writeU32le (BitVec.ofNat 32 s.data.length) ++ (s.data ++ rest)) := by
    simp [OstSection.bytes]
  have hlen : 4 ≤ (s.bytes ++ rest).length := by
    rw [hbytes]
    simp
  have htag : (s.bytes ++ rest).take 4 = s.tag.toList := by
    rw [hbytes]
    exact List.take_left' s.tag.length_toList
  have hdrop : (s.bytes ++ rest).drop 4 =
      writeU32le (BitVec.ofNat 32 s.data.length) ++ (s.data ++ rest) := by
    rw [hbytes]
    exact List.drop_left' s.tag.length_toList
  have hsize : (BitVec.ofNat 32 s.data.length).toNat = s.data.length :=
    Nat.mod_eq_of_lt s.fits
  have hread : readU32le (writeU32le (BitVec.ofNat 32 s.data.length) ++ (s.data ++ rest)) =
      (BitVec.ofNat 32 s.data.length, s.data ++ rest) := readLe_bytesLe (by decide) _ _
  rw [savestateLoadSections, dif_pos hlen]
  simp only [htag, hdrop, hread, hsize, List.drop_left]
  congr 1

theorem savestateLoadSections_flatMap (sections : List OstSection) (emu : E) :
    savestateLoadSections load (sections.flatMap OstSection.bytes) emu =
      loadEach load sections emu := by
  induction sections generalizing emu with
  | nil =>
    rw [savestateLoadSections]
    rfl
  | cons s rest ih =>
    rw [List.flatMap_cons, savestateLoadSections_cons, ih]
    rfl

/-- A saved file passes the checks of its header. -/
theorem savestateLoad_save (emuVersion : Vector Byte 32) (sections : List OstSection) (emu : E) :
    savestateLoad load (savestateSave emuVersion sections) emu =
      some (loadEach load sections emu) := by
  have hlen : ∀ x : BitVec 32, (writeU32le x).length = 4 := bytesLe_length 4
  have hmagic : savestateMagic.length = 4 := rfl
  unfold savestateSave
  dsimp only
  rw [← savestateLoadSections_flatMap]
  generalize sections.flatMap OstSection.bytes = body
  generalize BitVec.ofNat 32 (savestateHeaderSize + body.length) = size
  -- the fields of the header, each where it is looked for
  have h4 : (savestateMagic ++ (writeU32le savestateVersion ++ (writeU32le size ++
      (writeU32le (crc32Calc body) ++ (emuVersion.toList ++ body))))).drop 4 =
      writeU32le savestateVersion ++ (writeU32le size ++
        (writeU32le (crc32Calc body) ++ (emuVersion.toList ++ body))) := List.drop_left' hmagic
  have h12 : (savestateMagic ++ (writeU32le savestateVersion ++ (writeU32le size ++
      (writeU32le (crc32Calc body) ++ (emuVersion.toList ++ body))))).drop 12 =
      writeU32le (crc32Calc body) ++ (emuVersion.toList ++ body) := by
    rw [show 12 = 4 + (4 + 4) from rfl, ← List.drop_drop, h4, ← List.drop_drop,
      List.drop_left' (hlen _), List.drop_left' (hlen _)]
  have h48 : (savestateMagic ++ (writeU32le savestateVersion ++ (writeU32le size ++
      (writeU32le (crc32Calc body) ++ (emuVersion.toList ++ body))))).drop savestateHeaderSize =
      body := by
    rw [show savestateHeaderSize = 12 + (4 + 32) from rfl, ← List.drop_drop, h12,
      ← List.drop_drop, List.drop_left' (hlen _), List.drop_left' emuVersion.length_toList]
  have hversion : (readU32le (writeU32le savestateVersion ++ (writeU32le size ++
      (writeU32le (crc32Calc body) ++ (emuVersion.toList ++ body))))).1 = savestateVersion :=
    congrArg Prod.fst (readLe_bytesLe (by decide) _ _)
  have hcrc : (readU32le (writeU32le (crc32Calc body) ++ (emuVersion.toList ++ body))).1 =
      crc32Calc body := congrArg Prod.fst (readLe_bytesLe (by decide) _ _)
  unfold savestateLoad
  rw [h4, h12, h48, hversion, hcrc, List.take_left' hmagic, if_neg, if_neg (not_not.mpr rfl),
    if_neg (not_not.mpr rfl), if_neg (not_not.mpr rfl)]
  simp only [List.length_append, hlen, hmagic, Vector.length_toList, savestateHeaderSize]
  omega

end Load

/-! ## The sections of the CPU and the VIA -/

/-- `"CPU\0"`. -/
def ostTagCpu : OstTag := #v[0x43, 0x50, 0x55, 0x00]

/-- `"VIA\0"`. -/
def ostTagVia : OstTag := #v[0x56, 0x49, 0x41, 0x00]

/-- `"MEM\0"`. -/
def ostTagMem : OstTag := #v[0x4D, 0x45, 0x4D, 0x00]

/-- `"PSG\0"`. -/
def ostTagPsg : OstTag := #v[0x50, 0x53, 0x47, 0x00]

/-- `"VID\0"`. -/
def ostTagVid : OstTag := #v[0x56, 0x49, 0x44, 0x00]

/-- `"KBD\0"`. -/
def ostTagKbd : OstTag := #v[0x4B, 0x42, 0x44, 0x00]

/-- `"FDC\0"`. -/
def ostTagFdc : OstTag := #v[0x46, 0x44, 0x43, 0x00]

/-- `"MDC\0"`. -/
def ostTagMdc : OstTag := #v[0x4D, 0x44, 0x43, 0x00]

/-- `"DSK\0"`. -/
def ostTagDsk : OstTag := #v[0x44, 0x53, 0x4B, 0x00]

/-- `"BAD\0"`. -/
def ostTagBad : OstTag := #v[0x42, 0x41, 0x44, 0x00]

/-- `"TAP\0"`. -/
def ostTagTap : OstTag := #v[0x54, 0x41, 0x50, 0x00]

/-- `"CLK\0"`. -/
def ostTagClk : OstTag := #v[0x43, 0x4C, 0x4B, 0x00]

/-- `"META"`. -/
def ostTagInfo : OstTag := #v[0x4D, 0x45, 0x54, 0x41]

theorem ostEmpty_fits : ([] : List Byte).length < 2 ^ 32 := by decide

def savestateSaveCpu (cpu : Cpu6502) : List Byte :=
  [ writeU8 cpu.a,
    writeU8 cpu.x,
    writeU8 cpu.y,
    writeU8 cpu.sp,
    writeU16le cpu.pc,
    writeU8 cpu.p,
    writeU64le (BitVec.ofNat 64 cpu.cycles),
    writeU8 cpu.irq,
    writeBool cpu.ms.irqSampled,
    writeBool cpu.ms.nmiSampled ].flatten

/-- Savestates are taken at an instruction boundary: the plan has nothing to persist. -/
def savestateLoadCpu (cpu : Cpu6502) (secSize : Nat) : Reader Cpu6502 := do
  let a ← readU8
  let x ← readU8
  let y ← readU8
  let sp ← readU8
  let pc ← readU16le
  let p ← readU8
  let cycles ← readU64le
  let irq ← readU8
  let irqSampled ← if secSize ≥ 18 then readBool else pure false
  let nmiSampled ← if secSize ≥ 18 then readBool else pure false
  return { cpu with
    a, x, y, sp, pc, p, irq
    cycles := cycles.toNat
    ms := { cpu.ms with active := false, irqSampled, nmiSampled } }

variable {σ : Type}

/-- The skipped cycles are applied to the copy saved. -/
def savestateSaveVia (via : ViaSys σ) : List Byte :=
  let via := viaSync via
  [ writeU8 via.ora,
    writeU8 via.orb,
    writeU8 via.ira,
    writeU8 via.irb,
    writeU8 via.ddra,
    writeU8 via.ddrb,
    writeU16le via.t1Counter,
    writeU16le via.t1Latch,
    writeU16le via.t2Counter,
    writeU8 via.t2Latch,
    writeBool via.t1Running,
    writeBool via.t2Running,
    writeU8 via.sr,
    writeU8 via.srCount,
    writeU8 via.acr,
    writeU8 via.pcr,
    writeU8 via.ifr,
    writeU8 via.ier,
    writeBool via.cb1Pin,
    writeBool via.irqLine,
    writeBool via.t1Active,
    writeBool via.t2Active,
    writeBool via.t1Reload,
    writeBool via.pb7Pin,
    writeBool via.pb6Pin,
    writeBool via.ca1Pin,
    writeBool via.ca2In,
    writeBool via.srActive,
    writeU32le via.srClkAcc,
    writeBool via.t2Phi2,
    writeBool via.t2Hold,
    writeBool via.t2Reload,
    writeU8 via.srT2Pending,
    writeU8 via.srDelay ].flatten

/-- The fields every version has. -/
def savestateLoadViaRegisters (via : ViaSys σ) : Reader (ViaSys σ) := do
  let ora ← readU8
  let orb ← readU8
  let ira ← readU8
  let irb ← readU8
  let ddra ← readU8
  let ddrb ← readU8
  let t1Counter ← readU16le
  let t1Latch ← readU16le
  let t2Counter ← readU16le
  let t2Latch ← readU8
  let t1Running ← readBool
  let t2Running ← readBool
  let sr ← readU8
  let srCount ← readU8
  let acr ← readU8
  let pcr ← readU8
  let ifr ← readU8
  let ier ← readU8
  let cb1Pin ← readBool
  let irqLine ← readBool
  return { via with
    ora, orb, ira, irb, ddra, ddrb, t1Counter, t1Latch, t2Counter, t2Latch, t1Running,
    t2Running, sr, srCount, acr, pcr, ifr, ier, cb1Pin, irqLine }

/-- The state of the timers and pins by the cycle. -/
def savestateLoadViaCycle (via : ViaSys σ) (secSize : Nat) : Reader (ViaSys σ) :=
  if secSize ≥ 35 then do
    let t1Active ← readBool
    let t2Active ← readBool
    let t1Reload ← readBool
    let pb7Pin ← readBool
    let pb6Pin ← readBool
    let ca1Pin ← readBool
    let ca2In ← readBool
    let srActive ← readBool
    let srClkAcc ← readU32le
    return { via with
      t1Active, t2Active, t1Reload, pb7Pin, pb6Pin, ca1Pin, ca2In, srActive, srClkAcc }
  else
    return { via with
      t1Active := via.t1Running, t2Active := via.t2Running, t1Reload := false }

/-- 2.6.0: T2 and shift register. -/
def savestateLoadViaShift (via : ViaSys σ) (secSize : Nat) : Reader (ViaSys σ) :=
  if secSize ≥ 40 then do
    let t2Phi2 ← readBool
    let t2Hold ← readBool
    let t2Reload ← readBool
    let srT2Pending ← readU8
    let srDelay ← readU8
    return { via with t2Phi2, t2Hold, t2Reload, srT2Pending, srDelay }
  else
    return { via with
      t2Phi2 := via.acr &&& 0x20#8 == 0#8, t2Hold := false, t2Reload := false
      srT2Pending := 0, srDelay := 0 }

def savestateLoadVia (via : ViaSys σ) (secSize : Nat) : Reader (ViaSys σ) := do
  let via ← savestateLoadViaRegisters (viaSync via)
  let via ← savestateLoadViaCycle via secSize
  savestateLoadViaShift via secSize

/-- What the CPU section brings to `target`. -/
def ostCpu (saved target : Cpu6502) : Cpu6502 :=
  { target with
    toCpuRegs := saved.toCpuRegs, pc := saved.pc, cycles := saved.cycles % 2 ^ 64
    irq := saved.irq
    ms := { target.ms with
      active := false, irqSampled := saved.ms.irqSampled, nmiSampled := saved.ms.nmiSampled } }

/-- What the VIA section brings to `target`. -/
def ostVia (saved target : ViaSys σ) : ViaSys σ :=
  { viaSync saved with
    cb2Pin := target.cb2Pin, cb2In := target.cb2In, ca2Pin := target.ca2Pin
    ca2Pulse := target.ca2Pulse, cb2Pulse := target.cb2Pulse
    paLatch := target.paLatch, pbLatch := target.pbLatch
    paLatched := target.paLatched, pbLatched := target.pbLatched
    user := target.user, irqCalls := target.irqCalls }

theorem savestateLoadCpu_save (saved target : Cpu6502) (rest : List Byte) :
    (savestateLoadCpu target (savestateSaveCpu saved).length
      (savestateSaveCpu saved ++ rest)).1 = ostCpu saved target := by
  have hsize : (savestateSaveCpu saved).length = 18 := by
    simp [savestateSaveCpu, writeU8, writeU16le, writeU64le, writeBool]
  rw [hsize]
  simp only [savestateSaveCpu, List.flatten_cons, List.append_assoc, savestateLoadCpu,
    readU8_bind, readU16le_bind, readU64le_bind, readBool_bind, ge_iff_le, le_refl, if_true]
  simp only [ostCpu, ← BitVec.toNat_ofNat]
  rfl

theorem savestateLoadVia_save (saved target : ViaSys σ) (rest : List Byte) :
    (savestateLoadVia target (savestateSaveVia saved).length
      (savestateSaveVia saved ++ rest)).1 = ostVia saved target := by
  have hsize : (savestateSaveVia saved).length = 40 := by
    simp [savestateSaveVia, writeU8, writeU16le, writeU32le, writeBool]
  have hlong : (35 : Nat) ≤ 40 := by decide
  rw [hsize, ostVia]
  unfold savestateSaveVia savestateLoadVia
  rw [viaSync_eq saved, viaSync_eq target]
  simp only [List.flatten_cons, List.append_assoc, savestateLoadViaRegisters,
    savestateLoadViaCycle, savestateLoadViaShift, bind_assoc, pure_bind, readU8_bind,
    readU16le_bind, readU32le_bind, readBool_bind, ge_iff_le, hlong, le_refl, if_true]
  rfl

end Phosphoric
