import Phosphoric.UlaNg.Registers
import Phosphoric.Video.Dark

/-!
# The ULA-NG in its machine

The bus handlers of `src/cards/card_ula_ng.c`, the raster tick of `src/emu_clock.c`, a reset and a
load of a save state, around the interrupt line, the VIA the window falls back to and the picture.
The rest of the machine is arbitrary.

**Theorem (`ulaNg_line_lock`).** The line follows the pending raster interrupt through a run exactly
when no reset comes with the interrupt pending and each load restores the two together. Until `N`
and `G` are written in a row at $0340, a machine with a ULA-NG answers, interrupts and draws as one
without.

A reset clears the lines of the CPU and leaves the ULA-NG as it is: nothing calls `ula_ng_reset`.
-/

namespace Phosphoric

/-- What the ULA-NG is wired to. -/
structure NgBoard (V : Type) where
  /-- `cpu.irq`, one bit a source. -/
  cpuIrq : Byte
  via : V
  video : Video

structure NgMachine (V : Type) extends NgBoard V where
  ng : UlaNgCard

/-- What happens around the ULA-NG. -/
inductive NgOp (V : Type)
  /-- A write the bus has for the ULA-NG or the VIA. -/
  | write (addr : Word) (value : Byte)
  | read (addr : Word)
  /-- A turn of the loop of `clock_advance_raster`, as far as the interrupt goes. -/
  | rasterLine (line : Int)
  /-- A call of the clock on the video output. -/
  | video (mem : Nat → Byte) (call : VideoCall)
  /-- `cpu_reset`. -/
  | reset
  /-- A save state: its sections CPU, VIA and VID, and its section `UNG` if it has one. -/
  | load (cpuIrq : Byte) (via : V) (mem : Nat → Byte) (mode : Byte × Bool)
    (ung : Option UlaNgSection)
  /-- The VIA and the other sources of interrupts. -/
  | elsewhere (f : V → Byte × V)

namespace NgMachine

variable {V : Type}

section Steps

variable (viaRead : V → Fin 16 → Byte × V) (viaWrite : V → Fin 16 → Byte → V)

/-- The register of the VIA an address of page 3 falls back to. -/
def viaReg (addr : Word) : Fin 16 := Fin.ofNat 16 addr.toNat

/-- The line after `dev_write`. -/
def syncLine (cpuIrq : Byte) (u : UlaNgCard) : Byte :=
  if ulaNgIrq u.toUlaNg then cpuIrq ||| irqfUlang else cpuIrq &&& ~~~irqfUlang

/-- The video writes the collision flag through its pointer. -/
def collided (u : UlaNgCard) (ng : VideoNg) : UlaNgCard :=
  { u with sprCollision := (ng.ngDev.map (·.sprCollision)).getD u.sprCollision }

/-- The video looks at the ULA-NG as it is now. -/
def seen (m : NgMachine V) : Video := { m.video with ng := m.ng.video }

/-- `dev_load`, when there is a section `UNG`. -/
def loadSection (u : UlaNgCard) : Option UlaNgSection → UlaNgCard
  | none => u
  | some ung => ulaNgLoad u ung

def withOthers (cpuIrq others : Byte) : Byte :=
  (cpuIrq &&& irqfUlang) ||| (others &&& ~~~irqfUlang)

def step (m : NgMachine V) : NgOp V → Option Byte × NgMachine V
  | .write addr value =>
    let (consumed, ng) := if ulaNgAddrInWindow addr then ulaNgWrite m.ng addr value
      else (false, m.ng)
    if consumed then (none, { m with ng, cpuIrq := syncLine m.cpuIrq ng })
    else (none, { m with ng, via := viaWrite m.via (viaReg addr) value })
  | .read addr =>
    if m.ng.unlocked && ulaNgAddrInWindow addr then
      let (value, ng) := ulaNgRead m.ng addr
      (some value, { m with ng })
    else
      let (value, via) := viaRead m.via (viaReg addr)
      (some value, { m with via })
  | .rasterLine line =>
    let ng := m.ng.scanline line
    (none, { m with
      ng, cpuIrq := if ulaNgIrq ng.toUlaNg then m.cpuIrq ||| irqfUlang else m.cpuIrq })
  | .video mem call =>
    let video := videoCall mem m.seen call
    (none, { m with video, ng := collided m.ng video.ng })
  | .reset => (none, { m with cpuIrq := 0 })
  | .load cpuIrq via mem mode ung =>
    let video := savestateLoadVid mem mode m.seen
    (none, { m with cpuIrq, via, video, ng := loadSection (collided m.ng video.ng) ung })
  | .elsewhere f =>
    let (others, via) := f m.via
    (none, { m with cpuIrq := withOthers m.cpuIrq others, via })

/-- A machine with no ULA-NG: the window is the VIA's, and nothing asks for a raster interrupt. -/
def bareStep (b : NgBoard V) : NgOp V → Option Byte × NgBoard V
  | .write addr value => (none, { b with via := viaWrite b.via (viaReg addr) value })
  | .read addr =>
    let (value, via) := viaRead b.via (viaReg addr)
    (some value, { b with via })
  | .rasterLine _ => (none, b)
  | .video mem call => (none, { b with video := videoCall mem b.video call })
  | .reset => (none, { b with cpuIrq := 0 })
  | .load cpuIrq via mem mode _ =>
    (none, { b with cpuIrq, via, video := savestateLoadVid mem mode b.video })
  | .elsewhere f =>
    let (others, via) := f b.via
    (none, { b with cpuIrq := withOthers b.cpuIrq others, via })

end Steps

/-! ## The line -/

/-- `IRQF_ULANG` is asserted exactly when the raster interrupt is pending. -/
def LineDriven (m : NgMachine V) : Prop :=
  (m.cpuIrq &&& irqfUlang != 0#8) = m.ng.rasterPending

/-- The pending flag a section leaves. -/
def pendingAfter (m : NgMachine V) : Option UlaNgSection → Bool
  | some (.state u) => u.rasterPending
  | some .short => false
  | some .otherSize | none => m.ng.rasterPending

/-- A reset with nothing pending, or a load that brings the line and the flag together. -/
def LineKept (m : NgMachine V) : NgOp V → Prop
  | .reset => m.ng.rasterPending = false
  | .load cpuIrq _ _ _ ung => (cpuIrq &&& irqfUlang != 0#8) = m.pendingAfter ung
  | _ => True

theorem irqf_set (b : Byte) : ((b ||| irqfUlang) &&& irqfUlang != 0#8) = true := by
  revert b
  decide

theorem irqf_clear (b : Byte) : ((b &&& ~~~irqfUlang) &&& irqfUlang != 0#8) = false := by
  revert b
  decide

theorem irqf_withOthers (b others : Byte) :
    withOthers b others &&& irqfUlang = b &&& irqfUlang := by
  unfold withOthers
  ext i hi
  simp only [BitVec.getElem_and, BitVec.getElem_or, BitVec.getElem_not]
  cases b[i] <;> cases others[i] <;> cases irqfUlang[i] <;> rfl

theorem syncLine_driven (b : Byte) (u : UlaNgCard) :
    (syncLine b u &&& irqfUlang != 0#8) = u.rasterPending := by
  unfold syncLine ulaNgIrq
  cases u.rasterPending
  · exact irqf_clear b
  · exact irqf_set b

theorem ulaNgWatch_pending (u : UlaNgCard) (addr : Word) (value : Byte) :
    (ulaNgWatch u addr value).rasterPending = u.rasterPending := by
  unfold ulaNgWatch
  split_ifs <;> rfl

theorem ulaNgRead_pending (u : UlaNgCard) (addr : Word) :
    (ulaNgRead u addr).2.rasterPending = u.rasterPending := by
  unfold ulaNgRead
  split_ifs <;> rfl

/-- The raster tick only ever sets the flag. -/
theorem scanline_pending {u : UlaNgCard} {line : Int} (h : u.rasterPending = true) :
    (u.scanline line).rasterPending = true := by
  unfold UlaNgCard.scanline ulaNgScanline
  dsimp only
  split_ifs
  · exact h
  · rfl
  · exact h

theorem loadSection_pending (m : NgMachine V) (ng : VideoNg) (ung : Option UlaNgSection) :
    (loadSection (collided m.ng ng) ung).rasterPending = m.pendingAfter ung := by
  match ung with
  | none => rfl
  | some .otherSize => rfl
  | some .short => rfl
  | some (.state u) => rfl

section Steps

variable (viaRead : V → Fin 16 → Byte × V) (viaWrite : V → Fin 16 → Byte → V)

/-- Consumed when unlocked; locked, watched and left to the VIA. -/
theorem step_write (m : NgMachine V) (addr : Word) (value : Byte) :
    step viaRead viaWrite m (.write addr value) =
      if ulaNgAddrInWindow addr && m.ng.unlocked then
        (none, { m with
          ng := ulaNgWriteOpen m.ng addr value
          cpuIrq := syncLine m.cpuIrq (ulaNgWriteOpen m.ng addr value) })
      else
        (none, { m with
          ng := if ulaNgAddrInWindow addr then ulaNgWatch m.ng addr value else m.ng
          via := viaWrite m.via (viaReg addr) value }) := by
  unfold step ulaNgWrite
  dsimp only
  by_cases hwindow : ulaNgAddrInWindow addr = true <;> cases m.ng.unlocked <;>
    simp [hwindow]

/-- One step keeps the line and the flag together exactly under `LineKept`. -/
theorem step_driven {m : NgMachine V} (h : m.LineDriven) (op : NgOp V) :
    (step viaRead viaWrite m op).2.LineDriven ↔ m.LineKept op := by
  cases op with
  | write addr value =>
    refine iff_of_true ?_ trivial
    rw [step_write]
    split_ifs
    · exact syncLine_driven m.cpuIrq _
    · exact h.trans (ulaNgWatch_pending m.ng addr value).symm
    · exact h
  | read addr =>
    refine iff_of_true ?_ trivial
    unfold step
    dsimp only
    split_ifs
    · exact h.trans (ulaNgRead_pending m.ng addr).symm
    · exact h
  | rasterLine line =>
    refine iff_of_true ?_ trivial
    unfold step LineDriven ulaNgIrq
    dsimp only
    cases hpending : (m.ng.scanline line).rasterPending with
    | true => exact irqf_set m.cpuIrq
    | false =>
      have hbefore : m.ng.rasterPending = false := by
        by_contra hset
        rw [scanline_pending (Bool.eq_true_of_not_eq_false hset)] at hpending
        exact Bool.noConfusion hpending
      exact h.trans hbefore
  | video mem call => exact iff_of_true h trivial
  | reset =>
    change ((0 : Byte) &&& irqfUlang != 0#8) = m.ng.rasterPending ↔ m.ng.rasterPending = false
    have hclear : ((0 : Byte) &&& irqfUlang != 0#8) = false := by decide
    rw [hclear]
    exact eq_comm
  | load cpuIrq via mem mode ung =>
    unfold step LineDriven LineKept
    dsimp only
    rw [loadSection_pending]
  | elsewhere f =>
    refine iff_of_true ?_ trivial
    unfold step LineDriven
    dsimp only
    rw [irqf_withOthers]
    exact h

end Steps

/-! ## The lock -/

end NgMachine

/-- The ULA-NG is locked and none of its modes is on. -/
structure UlaNgCard.Asleep (u : UlaNgCard) : Prop where
  unlocked : u.unlocked = false
  rasterPending : u.rasterPending = false
  active : u.active = false
  attrActive : u.attrActive = false
  sprActive : u.sprActive = false
  chunkyActive : u.chunkyActive = false
  text80Active : u.text80Active = false

theorem UlaNgCard.Asleep.dark {u : UlaNgCard} (h : u.Asleep) : u.video.Dark where
  active := h.active
  attrActive := h.attrActive
  chunkyActive := h.chunkyActive
  text80Active := h.text80Active
  sprActive := by
    intro sprites hsprites
    obtain rfl := Option.some.inj hsprites
    exact h.sprActive

theorem ulaNgReset_asleep (u : UlaNgCard) : (ulaNgReset u).Asleep :=
  ⟨rfl, rfl, rfl, rfl, rfl, rfl, rfl⟩

/-- Asleep, the raster tick passes unseen. -/
theorem UlaNgCard.Asleep.scanline {u : UlaNgCard} (h : u.Asleep) (line : Int) :
    u.scanline line = u := by
  unfold UlaNgCard.scanline ulaNgScanline
  rw [h.active]
  rfl

/-- Short of `G` after `N`, a watched write only moves the lock's step. -/
theorem ulaNgWatch_asleep {u : UlaNgCard} (h : u.Asleep) {addr : Word} {value : Byte}
    (hlock : ¬(addr = ulaNgRegLock ∧ value = ulaNgUnlockG ∧ u.unlockStep = 1)) :
    (ulaNgWatch u addr value).Asleep ∧
      ((ulaNgWatch u addr value).unlockStep = 1 → addr = ulaNgRegLock ∧ value = ulaNgUnlockN) := by
  unfold ulaNgWatch
  split_ifs with haddr hn hg
  · exact ⟨⟨h.1, h.2, h.3, h.4, h.5, h.6, h.7⟩, fun _ => ⟨haddr, hn⟩⟩
  · exact absurd ⟨haddr, hg⟩ hlock
  · exact ⟨⟨h.1, h.2, h.3, h.4, h.5, h.6, h.7⟩, fun hstep : (0 : Byte) = 1 =>
      absurd hstep (by decide)⟩
  · exact ⟨⟨h.1, h.2, h.3, h.4, h.5, h.6, h.7⟩, fun hstep : (0 : Byte) = 1 =>
      absurd hstep (by decide)⟩

/-- With no picture of the ULA-NG to see: no pointer into it. -/
def VideoNg.off : VideoNg :=
  ⟨none, none, none, none, none, none, none, none, none, none, none, none⟩

theorem VideoNg.off_dark : VideoNg.off.Dark :=
  ⟨rfl, rfl, rfl, rfl, fun _ h => nomatch h⟩

namespace NgMachine

variable {V : Type}

/-- The machine with its ULA-NG taken out. -/
def bare (m : NgMachine V) : NgBoard V :=
  { m.toNgBoard with video := { m.video with ng := VideoNg.off } }

/-- The ULA-NG sleeps and the frame was begun without it. -/
structure Quiet (m : NgMachine V) : Prop where
  asleep : m.ng.Asleep
  chunky : m.video.ngChunky = false
  text80 : m.video.ngText80 = false

/-- No section of a state of the ULA-NG that is awake, or that has seen `N`. -/
def LoadsAsleep : NgOp V → Prop
  | .load _ _ _ _ (some (.state u)) => u.Asleep ∧ u.unlockStep = 0
  | _ => True

/-- What the operation writes to the window. -/
def windowWrite : NgOp V → Option (Word × Byte)
  | .write addr value => if ulaNgAddrInWindow addr then some (addr, value) else none
  | _ => none

/-- `N` and `G` are written in a row at $0340, with no write of the window between. -/
def Unlocks (ops : List (NgOp V)) : Prop :=
  [(ulaNgRegLock, ulaNgUnlockN), (ulaNgRegLock, ulaNgUnlockG)] <:+: ops.filterMap windowWrite

instance (ops : List (NgOp V)) : Decidable (Unlocks ops) := inferInstanceAs (Decidable (_ <:+: _))

section Steps

variable (viaRead : V → Fin 16 → Byte × V) (viaWrite : V → Fin 16 → Byte → V)

theorem Quiet.seen {m : NgMachine V} (h : m.Quiet) : m.seen.Plain :=
  ⟨h.asleep.dark, h.chunky, h.text80⟩

/-- A picture drawn beside the sleeping ULA-NG leaves it and the next frame alone. -/
theorem Quiet.drawn {m : NgMachine V} (h : m.Quiet) {f : Video → Video} (hf : Unlit f) :
    collided m.ng (f m.seen).ng = m.ng ∧
      { f m.seen with ng := VideoNg.off } = f { m.video with ng := VideoNg.off } ∧
      (f m.seen).ngChunky = false ∧ (f m.seen).ngText80 = false := by
  refine ⟨?_, ?_, ?_⟩
  · rw [hf.ng h.seen]
    rfl
  · exact (hf.blind m.seen h.seen VideoNg.off VideoNg.off_dark).symm
  · exact ⟨(hf.plain m.seen h.seen).chunky, (hf.plain m.seen h.seen).text80⟩

/-- A step beside the sleeping ULA-NG is one of the bare machine. -/
def StepBare (m : NgMachine V) (op : NgOp V) : Prop :=
  (step viaRead viaWrite m op).1 = (bareStep viaRead viaWrite m.bare op).1 ∧
    (step viaRead viaWrite m op).2.bare = (bareStep viaRead viaWrite m.bare op).2 ∧
    (step viaRead viaWrite m op).2.Quiet ∧
    ((step viaRead viaWrite m op).2.ng.unlockStep = 1 →
      windowWrite op = some (ulaNgRegLock, ulaNgUnlockN) ∨
        windowWrite op = none ∧ m.ng.unlockStep = 1)

theorem step_write_quiet {m : NgMachine V} (h : m.Quiet) {addr : Word} {value : Byte}
    (hlock : windowWrite (.write addr value : NgOp V) = some (ulaNgRegLock, ulaNgUnlockG) →
      m.ng.unlockStep ≠ 1) : StepBare viaRead viaWrite m (.write addr value) := by
  unfold StepBare
  rw [step_write, h.asleep.unlocked, Bool.and_false, if_neg Bool.false_ne_true]
  cases hwindow : ulaNgAddrInWindow addr with
  | true =>
    have hwrite : windowWrite (.write addr value : NgOp V) = some (addr, value) := by
      rw [windowWrite, if_pos hwindow]
    have hshort : ¬(addr = ulaNgRegLock ∧ value = ulaNgUnlockG ∧ m.ng.unlockStep = 1) := by
      rintro ⟨rfl, rfl, hone⟩
      exact hlock hwrite hone
    obtain ⟨hasleep, hstep⟩ := ulaNgWatch_asleep h.asleep hshort
    refine ⟨rfl, rfl, ⟨hasleep, h.chunky, h.text80⟩, fun hone => .inl ?_⟩
    obtain ⟨rfl, rfl⟩ := hstep hone
    exact hwrite
  | false =>
    have hwrite : windowWrite (.write addr value : NgOp V) = none := by
      rw [windowWrite, if_neg (by simp [hwindow])]
    exact ⟨rfl, rfl, ⟨h.asleep, h.chunky, h.text80⟩, fun hone => .inr ⟨hwrite, hone⟩⟩

theorem loadSection_asleep {u : UlaNgCard} (h : u.Asleep) {ung : Option UlaNgSection}
    (hload : ∀ u', ung = some (.state u') → u'.Asleep ∧ u'.unlockStep = 0) :
    (loadSection u ung).Asleep ∧
      ((loadSection u ung).unlockStep = 1 → u.unlockStep = 1) := by
  match ung, hload with
  | none, _ => exact ⟨h, id⟩
  | some .otherSize, _ => exact ⟨h, id⟩
  | some .short, _ =>
    exact ⟨ulaNgReset_asleep u, fun hone : (0 : Byte) = 1 => absurd hone (by decide)⟩
  | some (.state u'), hload =>
    obtain ⟨hasleep, hstep⟩ := hload u' rfl
    refine ⟨hasleep, fun hone => ?_⟩
    rw [loadSection, ulaNgLoad, hstep] at hone
    exact absurd hone (by decide)

/-- One step, short of the one that unlocks. -/
theorem step_quiet {m : NgMachine V} (h : m.Quiet) {op : NgOp V} (hload : LoadsAsleep op)
    (hlock : windowWrite op = some (ulaNgRegLock, ulaNgUnlockG) → m.ng.unlockStep ≠ 1) :
    StepBare viaRead viaWrite m op := by
  cases op with
  | write addr value => exact step_write_quiet viaRead viaWrite h hlock
  | read addr =>
    unfold StepBare step bareStep
    dsimp only
    rw [h.asleep.unlocked, Bool.false_and, if_neg Bool.false_ne_true]
    exact ⟨rfl, rfl, ⟨h.asleep, h.chunky, h.text80⟩, fun hone => .inr ⟨rfl, hone⟩⟩
  | rasterLine line =>
    unfold StepBare step bareStep ulaNgIrq
    dsimp only
    rw [h.asleep.scanline, h.asleep.rasterPending, if_neg Bool.false_ne_true]
    exact ⟨rfl, rfl, ⟨h.asleep, h.chunky, h.text80⟩, fun hone => .inr ⟨rfl, hone⟩⟩
  | video mem call =>
    obtain ⟨hng, hbare, hchunky, htext⟩ := h.drawn (videoCall_unlit mem call)
    unfold StepBare step bareStep
    dsimp only
    rw [hng]
    refine ⟨rfl, ?_, ⟨h.asleep, hchunky, htext⟩, fun hone => .inr ⟨rfl, hone⟩⟩
    unfold bare
    dsimp only
    rw [hbare]
  | reset => exact ⟨rfl, rfl, ⟨h.asleep, h.chunky, h.text80⟩, fun hone => .inr ⟨rfl, hone⟩⟩
  | load cpuIrq via mem mode ung =>
    obtain ⟨hng, hbare, hchunky, htext⟩ := h.drawn (savestateLoadVid_unlit mem mode)
    have hstate : ∀ u', ung = some (.state u') → u'.Asleep ∧ u'.unlockStep = 0 := by
      rintro u' rfl
      exact hload
    obtain ⟨hasleep, hstep⟩ := loadSection_asleep h.asleep hstate
    unfold StepBare step bareStep
    dsimp only
    rw [hng]
    refine ⟨rfl, ?_, ⟨hasleep, hchunky, htext⟩, fun hone => .inr ⟨rfl, hstep hone⟩⟩
    unfold bare
    dsimp only
    rw [hbare]
  | elsewhere f => exact ⟨rfl, rfl, ⟨h.asleep, h.chunky, h.text80⟩, fun hone => .inr ⟨rfl, hone⟩⟩

/-- A whole run short of the unlock sequence, from any step of the lock. -/
theorem run_bare (ops : List (NgOp V)) {m : NgMachine V} (h : m.Quiet)
    (hload : ∀ op ∈ ops, LoadsAsleep op) (hlock : ¬Unlocks ops)
    (hhead : m.ng.unlockStep = 1 →
      (ops.filterMap windowWrite).head? ≠ some (ulaNgRegLock, ulaNgUnlockG)) :
    (Machine.runOut (step viaRead viaWrite) ops m).1 =
        (Machine.runOut (bareStep viaRead viaWrite) ops m.bare).1 ∧
      (Machine.runOut (step viaRead viaWrite) ops m).2.bare =
        (Machine.runOut (bareStep viaRead viaWrite) ops m.bare).2 := by
  induction ops generalizing m with
  | nil => exact ⟨rfl, rfl⟩
  | cons op ops ih =>
    have hnot : windowWrite op = some (ulaNgRegLock, ulaNgUnlockG) → m.ng.unlockStep ≠ 1 := by
      intro hwrite hone
      exact hhead hone (by rw [List.filterMap_cons_some hwrite]; rfl)
    obtain ⟨hout, hbare, hquiet, hstep⟩ := step_quiet viaRead viaWrite h
      (hload op List.mem_cons_self) hnot
    -- the sequence does not occur later, nor over the step and what follows
    have hlater : ¬Unlocks ops := fun hocc => hlock <| by
      unfold Unlocks at hocc ⊢
      rw [List.filterMap_cons]
      split
      · exact hocc
      · exact hocc.trans (List.suffix_cons _ _).isInfix
    have hnext : (step viaRead viaWrite m op).2.ng.unlockStep = 1 →
        (ops.filterMap windowWrite).head? ≠ some (ulaNgRegLock, ulaNgUnlockG) := by
      intro hone hnextG
      rcases hstep hone with hwrite | ⟨hwrite, hbefore⟩
      · obtain ⟨rest, hrest⟩ := List.head?_eq_some_iff.mp hnextG
        refine hlock ⟨[], rest, ?_⟩
        rw [List.filterMap_cons_some hwrite, hrest]
        rfl
      · exact hhead hbefore (by rw [List.filterMap_cons_none hwrite]; exact hnextG)
    obtain ⟨houts, hend⟩ := ih hquiet (fun op' hmem => hload op' (List.mem_cons_of_mem op hmem))
      hlater hnext
    simp only [Machine.runOut_cons]
    rw [hout, houts, hend, hbare]
    exact ⟨rfl, rfl⟩

end Steps

end NgMachine

section Runs

variable {V : Type} (viaRead : V → Fin 16 → Byte × V) (viaWrite : V → Fin 16 → Byte → V)

/-- A step without its answer. -/
def NgMachine.next (m : NgMachine V) (op : NgOp V) : NgMachine V :=
  (NgMachine.step viaRead viaWrite m op).2

/-- The line follows the flag through the runs whose resets and loads keep them together, and
through no others; and short of the unlock sequence, or of a state loaded awake, the machine is the
one without a ULA-NG: its answers, its interrupt lines, its VIA and its picture. -/
theorem ulaNg_line_lock (ops : List (NgOp V)) {m : NgMachine V} (hline : m.LineDriven)
    (hquiet : m.Quiet) (hlock : m.ng.unlockStep = 0) :
    (Machine.Throughout (NgMachine.next viaRead viaWrite)
        (fun m op => (m.next viaRead viaWrite op).LineDriven) ops m ↔
      Machine.Throughout (NgMachine.next viaRead viaWrite) NgMachine.LineKept ops m) ∧
    ((∀ op ∈ ops, NgMachine.LoadsAsleep op) → ¬NgMachine.Unlocks ops →
      (Machine.runOut (NgMachine.step viaRead viaWrite) ops m).1 =
          (Machine.runOut (NgMachine.bareStep viaRead viaWrite) ops m.bare).1 ∧
        (Machine.runOut (NgMachine.step viaRead viaWrite) ops m).2.bare =
          (Machine.runOut (NgMachine.bareStep viaRead viaWrite) ops m.bare).2) := by
  refine ⟨?_, fun hload hnever => ?_⟩
  · let Always : NgMachine V → Prop := fun _ => True
    have halways : ∀ s op, Always s → NgMachine.LineDriven s →
        Always (NgMachine.next viaRead viaWrite s op) := fun _ _ _ _ => trivial
    have hnext : ∀ s op, Always s → NgMachine.LineDriven s →
        ((NgMachine.next viaRead viaWrite s op).LineDriven ↔ s.LineKept op) :=
      fun _ op _ hs => NgMachine.step_driven viaRead viaWrite hs op
    exact Machine.Throughout.next_iff halways hnext ops trivial hline
  · refine NgMachine.run_bare viaRead viaWrite ops hquiet hload hnever fun hone => ?_
    rw [hlock] at hone
    exact absurd hone (by decide)

end Runs

/-- A machine just switched on, its VIA a bank of registers. -/
def ngMachineSample : NgMachine (Fin 16 → Byte) where
  cpuIrq := 0
  via := fun _ => 0
  video := ⟨fun _ => 0, oricWhite, oricBlack, 0, 0, 39, oricScreenW, oricScreenH, false, false,
    none, 0, VideoNg.off, false, false, oricPalette, 0, 0⟩
  ng :=
    ulaNgReset ⟨⟨false, false, 0, false, [], ulaNgPalette⟩, false, 0, fun _ => 0, 0, 0, 0, 0, 0, 0,
      0, 0, 0, fun _ => 0, 0, false, fun _ => ⟨0, 0, false, fun _ => 0⟩, 0, 0, false, false, false,
      false, false, 0, fun _ => 0, 0, 0, fun _ => 0, false, 0, 0⟩

def viaBankRead (via : Fin 16 → Byte) (reg : Fin 16) : Byte × (Fin 16 → Byte) := (via reg, via)

def viaBankWrite (via : Fin 16 → Byte) (reg : Fin 16) (value : Byte) : Fin 16 → Byte :=
  Function.update via reg value

/-- Unlocked, its raster interrupt enabled at line 0; line 0 passes, then the machine is reset. -/
def ngRasterRun : List (NgOp (Fin 16 → Byte)) :=
  [.write 0x0340 0x4E, .write 0x0340 0x47, .write 0x0341 0x01, .write 0x0346 0x00,
    .write 0x0347 0x01, .rasterLine 0, .reset]

/-- `N`, a stray write, `G`. -/
def ngStrayRun : List (NgOp (Fin 16 → Byte)) :=
  [.write 0x0340 0x4E, .write 0x0341 0x4E, .write 0x0340 0x47, .read 0x0340]

theorem ngMachineSample_quiet : ngMachineSample.Quiet := ⟨ulaNgReset_asleep _, rfl, rfl⟩

/-- The stray write breaks the sequence: the window reads as the VIA's. -/
theorem ulaNg_line_lock_stray :
    Machine.Throughout (NgMachine.next viaBankRead viaBankWrite)
        (fun m op => (m.next viaBankRead viaBankWrite op).LineDriven) ngStrayRun ngMachineSample ∧
      (Machine.runOut (NgMachine.step viaBankRead viaBankWrite) ngStrayRun ngMachineSample).1 =
        (Machine.runOut (NgMachine.bareStep viaBankRead viaBankWrite) ngStrayRun
          ngMachineSample.bare).1 := by
  have h := ulaNg_line_lock viaBankRead viaBankWrite ngStrayRun (m := ngMachineSample) rfl
    ngMachineSample_quiet rfl
  refine ⟨h.1.mpr ⟨trivial, trivial, trivial, trivial, trivial⟩, (h.2 ?_ ?_).1⟩
  · intro op hop
    fin_cases hop <;> trivial
  · decide

/-- The reset leaves the raster interrupt pending with the line low. -/
theorem ulaNg_line_dropped :
    let m := ngRasterRun.foldl (NgMachine.next viaBankRead viaBankWrite) ngMachineSample
    m.ng.rasterPending = true ∧ m.cpuIrq = 0 ∧
      ¬Machine.Throughout (NgMachine.next viaBankRead viaBankWrite)
        (fun m op => (m.next viaBankRead viaBankWrite op).LineDriven) ngRasterRun
        ngMachineSample := by
  refine ⟨?_, ?_, ?_⟩
  · decide
  · decide
  · rintro ⟨-, -, -, -, -, -, hreset, -⟩
    revert hreset
    unfold NgMachine.LineDriven
    decide

end Phosphoric
