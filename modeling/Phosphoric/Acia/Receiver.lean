import Phosphoric.Acia.Chip

/-!
# The ACIA's receiver

What happens to a byte between the backend and the program's read of the data register.

**Abstract receiver** (`Receiver`). The data register, whether it is full, the FIFO and the two
flags. It holds a list of bytes (`Receiver.held`); a byte comes in at its end (`Receiver.accept`)
and leaves at its front (`Receiver.release`).

**Soundness** (`Receiver.Sound`). RDRF says that the data register is full, and the FIFO is empty
unless it is.

**Theorem (`aciaRun_bytes`).** With flow control, what the backend gave, masked to the word length
of the time, is what the program read and then what the receiver holds. Without it, what the
program read and the receiver holds is what the backend gave less some bytes, and a step that
loses one leaves OVRN set, until the program reads the data register.
-/

namespace Phosphoric

/-! ## The abstract receiver -/

structure Receiver where
  rdr : Byte
  full : Bool
  fifo : Option (RingBuffer Byte)
  rdrf : Bool
  ovrn : Bool
  /-- A byte comes in only when there is a place for it. -/
  flowControl : Bool

namespace Receiver

variable (r : Receiver)

def queued : List Byte := r.fifo.elim [] RingBuffer.contents

/-- The bytes received and not yet read, the next to be read first. -/
def held : List Byte := (if r.full then [r.rdr] else []) ++ r.queued

structure Sound : Prop where
  rdrf_eq : r.rdrf = r.full
  queued_nil : r.full = false → r.queued = []

/-- There is a place for one more byte. -/
def HasSpace : Prop := r.full = false ∨ ∃ fifo, r.fifo = some fifo ∧ fifo.count < fifo.size

/-- A byte comes in. -/
def accept (byte : Byte) : Receiver :=
  if r.full then
    match r.fifo with
    | some fifo =>
      match fifo.push byte with
      | some fifo => { r with fifo := some fifo }
      | none => { r with ovrn := true }
    | none => { r with rdr := byte, rdrf := true, ovrn := true }
  else { r with rdr := byte, full := true, rdrf := true }

/-- The data register is read. -/
def release : Receiver :=
  match r.fifo.bind RingBuffer.pop with
  | some (next, fifo) => ⟨next, true, some fifo, true, false, r.flowControl⟩
  | none => ⟨r.rdr, false, r.fifo, false, false, r.flowControl⟩

variable {r}

theorem Sound.held_nil (h : r.Sound) (hfull : r.full = false) : r.held = [] := by
  simp [held, hfull, h.queued_nil hfull]

theorem Sound.held_ne_nil (h : r.Sound) : r.rdrf = true ↔ r.held ≠ [] := by
  rw [h.rdrf_eq]
  cases hfull : r.full with
  | false => simp [h.held_nil hfull]
  | true => simp [held, hfull]

theorem accept_sound (h : r.Sound) (byte : Byte) : (r.accept byte).Sound := by
  unfold accept
  by_cases hfull : r.full = true
  · rw [if_pos hfull]
    cases hfifo : r.fifo with
    | none => exact ⟨hfull.symm, fun _ => by simp [queued]⟩
    | some fifo =>
      have hnever : r.full ≠ false := by simp [hfull]
      dsimp only
      split
      · exact ⟨h.rdrf_eq, fun hempty => absurd hempty hnever⟩
      · exact ⟨h.rdrf_eq, fun hempty => absurd hempty hnever⟩
  · rw [if_neg hfull]
    exact ⟨rfl, by simp⟩

/-- With a place for it, a byte comes in after what is held. -/
theorem held_accept (h : r.Sound) (hspace : r.HasSpace) (byte : Byte) :
    (r.accept byte).held = r.held ++ [byte] := by
  by_cases hfull : r.full = true
  · obtain hempty | ⟨fifo, hfifo, hroom⟩ := hspace
    · simp [hfull] at hempty
    · obtain ⟨fifo', hpush⟩ := Option.isSome_iff_exists.mp ((fifo.push_isSome byte).mpr hroom)
      have hcontents := fifo.contents_push hpush
      simp [accept, held, queued, hfull, hfifo, hpush, hcontents]
  · have hempty : r.full = false := by simpa using hfull
    have hqueued := h.queued_nil hempty
    simp only [queued] at hqueued
    simp [accept, held, queued, hempty, hqueued]

/-- A byte is lost only with the overrun flag. -/
theorem accept_cases (h : r.Sound) (byte : Byte) :
    (r.accept byte).held = r.held ++ [byte] ∨
      (r.accept byte).ovrn = true ∧ (r.accept byte).held.Sublist (r.held ++ [byte]) := by
  by_cases hfull : r.full = true
  · cases hfifo : r.fifo with
    | none =>
      right
      simp [accept, held, queued, hfull, hfifo]
    | some fifo =>
      by_cases hroom : fifo.count < fifo.size
      · exact .inl (held_accept h (.inr ⟨fifo, hfifo, hroom⟩) byte)
      · right
        have hpush : fifo.push byte = none := by
          rw [← Option.not_isSome_iff_eq_none, fifo.push_isSome]
          exact hroom
        simp [accept, held, queued, hfull, hfifo, hpush]
  · exact .inl (held_accept h (.inl (by simpa using hfull)) byte)

theorem accept_ovrn (h : r.ovrn = true) (byte : Byte) : (r.accept byte).ovrn = true := by
  unfold accept
  split_ifs
  · split
    · split <;> simp [h]
    · rfl
  · exact h

@[simp] theorem accept_flowControl (byte : Byte) :
    (r.accept byte).flowControl = r.flowControl := by
  unfold accept
  split_ifs
  · split
    · split <;> rfl
    · rfl
  · rfl

@[simp] theorem release_flowControl : r.release.flowControl = r.flowControl := by
  unfold release
  split <;> rfl

theorem release_sound : r.release.Sound := by
  unfold release
  split
  · exact ⟨rfl, by simp⟩
  · rename_i hpop
    refine ⟨rfl, fun _ => ?_⟩
    cases hfifo : r.fifo with
    | none => simp [queued]
    | some fifo =>
      simp only [hfifo, Option.bind_some] at hpop
      have hcount : ¬0 < fifo.count := by
        rw [← fifo.pop_isSome, hpop]
        simp
      simp only [queued, Option.elim_some]
      exact fifo.contents_eq_nil.mpr (by omega)

/-- A read takes the first byte held, if there is one. -/
theorem held_release (h : r.Sound) :
    r.held = (if r.rdrf then [r.rdr] else []) ++ r.release.held := by
  rw [h.rdrf_eq]
  have hrest : r.queued = r.release.held := by
    unfold release
    split
    · rename_i next fifo' hpop
      obtain ⟨fifo, hfifo, hpop⟩ := Option.bind_eq_some_iff.mp hpop
      have hcontents := fifo.contents_pop hpop
      simp [held, queued, hfifo, hcontents]
    · simp [held, queued]
  rw [← hrest, held]

end Receiver

/-! ## The chip's receiver -/

def Acia6551.receiver (acia : Acia6551) : Receiver where
  rdr := acia.rdr
  full := acia.rxFull
  fifo := acia.rxFifo
  rdrf := acia.status &&& aciaStatusRdrf != 0#8
  ovrn := acia.status &&& aciaStatusOvrn != 0#8
  flowControl := acia.rxBackpressure

/-- The status bits the receiver does not look at. -/
theorem receiver_flags {a b : Acia6551} (hrdr : a.rdr = b.rdr) (hfull : a.rxFull = b.rxFull)
    (hfifo : a.rxFifo = b.rxFifo) (hback : a.rxBackpressure = b.rxBackpressure)
    (hstatus : a.status &&& 0x0C#8 = b.status &&& 0x0C#8) :
    a.receiver = b.receiver := by
  have hrdrf : ∀ s t : Byte, s &&& 0x0C#8 = t &&& 0x0C#8 →
      s &&& aciaStatusRdrf = t &&& aciaStatusRdrf := by
    intro s t h
    have hmask : aciaStatusRdrf = 0x0C#8 &&& aciaStatusRdrf := rfl
    rw [hmask, ← BitVec.and_assoc, ← BitVec.and_assoc, h]
  have hovrn : ∀ s t : Byte, s &&& 0x0C#8 = t &&& 0x0C#8 →
      s &&& aciaStatusOvrn = t &&& aciaStatusOvrn := by
    intro s t h
    have hmask : aciaStatusOvrn = 0x0C#8 &&& aciaStatusOvrn := rfl
    rw [hmask, ← BitVec.and_assoc, ← BitVec.and_assoc, h]
  simp only [Acia6551.receiver, hrdr, hfull, hfifo, hback, hrdrf _ _ hstatus, hovrn _ _ hstatus]

/-- Setting or clearing a bit other than RDRF and OVRN. -/
theorem status_flags : ∀ bit ∈ [aciaStatusTdre, aciaStatusDcd, aciaStatusDsr, aciaStatusIrq],
    ∀ s : Byte, (s ||| bit) &&& 0x0C#8 = s &&& 0x0C#8 ∧
      (s &&& ~~~bit) &&& 0x0C#8 = s &&& 0x0C#8 := by
  decide

@[simp] theorem receiver_assertIrq (acia : Acia6551) :
    (aciaAssertIrq acia).receiver = acia.receiver := by
  unfold aciaAssertIrq
  split_ifs <;> rfl

@[simp] theorem receiver_deassertIrq (acia : Acia6551) :
    (aciaDeassertIrq acia).receiver = acia.receiver := by
  by_cases hline : acia.irqLine = true
  · simp only [aciaDeassertIrq, hline, if_true]
    rfl
  · simp only [aciaDeassertIrq, hline]
    rfl

@[simp] theorem receiver_updateIrq (acia : Acia6551) :
    (aciaUpdateIrq acia).receiver = acia.receiver := by
  have hflags := status_flags aciaStatusIrq (by simp) acia.status
  unfold aciaUpdateIrq
  dsimp only
  split_ifs
  · rw [receiver_assertIrq]
    exact receiver_flags rfl rfl rfl rfl hflags.1
  · rw [receiver_deassertIrq]
    exact receiver_flags rfl rfl rfl rfl hflags.2

@[simp] theorem receiver_updateTiming (acia : Acia6551) :
    (aciaUpdateTiming acia).receiver = acia.receiver := by
  unfold aciaUpdateTiming
  by_cases hv23 : (aciaCalcFramebits acia).v23Mode = true
  · simp only [hv23, if_true]
    rfl
  · simp only [hv23]
    rfl

@[simp] theorem receiver_setLine (acia : Acia6551) (line : AciaLine) :
    (aciaSetLine acia line).receiver = acia.receiver := by
  cases line with
  | dcd active =>
    have hflags := status_flags aciaStatusDcd (by simp) acia.status
    simp only [aciaSetLine]
    rw [apply_ite Acia6551.receiver, receiver_updateIrq, ite_self]
    cases active
    · exact receiver_flags rfl rfl rfl rfl hflags.1
    · exact receiver_flags rfl rfl rfl rfl hflags.2
  | dsr active =>
    have hflags := status_flags aciaStatusDsr (by simp) acia.status
    cases active
    · exact receiver_flags rfl rfl rfl rfl hflags.1
    · exact receiver_flags rfl rfl rfl rfl hflags.2
  | cts active => rfl

@[simp] theorem receiver_irqTransit (acia : Acia6551) (cycles : Int) :
    (aciaIrqTransit acia cycles).receiver = acia.receiver := by
  unfold aciaIrqTransit
  dsimp only
  split_ifs <;> rfl

@[simp] theorem receiver_echo (acia : Acia6551) (byte : Byte) :
    (aciaEcho acia byte).receiver = acia.receiver := by
  have hflags := status_flags aciaStatusTdre (by simp) acia.status
  unfold aciaEcho
  split_ifs
  · exact receiver_flags rfl rfl rfl rfl hflags.2
  · rfl

/-- A write, unless it resets the chip. -/
theorem receiver_write (acia : Acia6551) {reg : AciaReg} (hreg : reg ≠ .status) (value : Byte) :
    (aciaWrite acia reg value).receiver = acia.receiver := by
  have hflags := status_flags aciaStatusTdre (by simp) acia.status
  cases reg with
  | data =>
    simp only [aciaWrite, receiver_updateIrq]
    exact receiver_flags rfl rfl rfl rfl hflags.2
  | status => exact absurd rfl hreg
  | command =>
    simp only [aciaWrite, receiver_updateIrq, receiver_updateTiming]
    rfl
  | control =>
    simp only [aciaWrite, receiver_updateTiming]
    rfl

/-! ## Bytes in and out -/

/-- Setting RDRF or OVRN. -/
theorem flags_set : ∀ s : Byte,
    (s ||| aciaStatusRdrf) &&& aciaStatusRdrf ≠ 0#8 ∧
    (s ||| aciaStatusOvrn) &&& aciaStatusOvrn ≠ 0#8 ∧
    (s ||| aciaStatusRdrf) &&& aciaStatusOvrn = s &&& aciaStatusOvrn ∧
    (s ||| aciaStatusOvrn) &&& aciaStatusRdrf = s &&& aciaStatusRdrf := by
  decide

/-- What a read of the data register clears. -/
theorem flags_cleared : ∀ s : Byte,
    let c := s &&& ~~~(aciaStatusRdrf ||| aciaStatusOvrn ||| aciaStatusPe ||| aciaStatusFe)
    c &&& aciaStatusRdrf = 0#8 ∧ c &&& aciaStatusOvrn = 0#8 := by
  decide

theorem receiver_receive (acia : Acia6551) (byte : Byte) :
    (aciaReceive acia byte).receiver = acia.receiver.accept byte := by
  obtain ⟨hrdrf, hovrn, hovrn_kept, hrdrf_kept⟩ := flags_set acia.status
  have hboth := (flags_set (acia.status ||| aciaStatusOvrn))
  cases hfull : acia.rxFull <;> cases hfifo : acia.rxFifo with
  | none => simp_all [aciaReceive, Receiver.accept, Acia6551.receiver]
  | some fifo =>
    cases hpush : fifo.push byte <;>
      simp_all [aciaReceive, Receiver.accept, Acia6551.receiver]

theorem receiver_read_data (acia : Acia6551) :
    (aciaRead acia .data).2.receiver = acia.receiver.release := by
  obtain ⟨hrdrf, hovrn⟩ := flags_cleared acia.status
  simp only [aciaRead, receiver_updateIrq]
  unfold aciaLoadNext Receiver.release
  cases hpop : acia.rxFifo.bind RingBuffer.pop with
  | none => simp [Acia6551.receiver, hpop, hrdrf, hovrn]
  | some popped =>
    obtain ⟨hset, -, hkept, -⟩ := flags_set (acia.status &&&
      ~~~(aciaStatusRdrf ||| aciaStatusOvrn ||| aciaStatusPe ||| aciaStatusFe))
    rw [hovrn] at hkept
    simp [Acia6551.receiver, hpop, hset, hkept]

theorem receiver_read (acia : Acia6551) {reg : AciaReg} (hreg : reg ≠ .data) :
    (aciaRead acia reg).2.receiver = acia.receiver := by
  have hflags := status_flags aciaStatusIrq (by simp) acia.status
  cases reg with
  | data => exact absurd rfl hreg
  | status =>
    simp only [aciaRead]
    split_ifs
    · rw [receiver_updateIrq, receiver_deassertIrq]
      exact receiver_flags rfl rfl rfl rfl hflags.2
    · rw [receiver_deassertIrq]
      exact receiver_flags rfl rfl rfl rfl hflags.2
  | command => rfl
  | control => rfl

theorem hasSpace_iff (acia : Acia6551) :
    aciaRxHasSpace acia = true ↔ acia.receiver.HasSpace := by
  cases hfifo : acia.rxFifo <;>
    simp [aciaRxHasSpace, Receiver.HasSpace, Acia6551.receiver, hfifo]

/-! ## What a step does to the bytes -/

namespace AciaSys

variable {β : Type} {reads : Prop}

/-- The bytes the backend gave, each masked to the word length of the time. -/
def masked (sys : AciaSys β) : List Byte := sys.taken.map fun entry => entry.1 &&& entry.2

/-- The bytes the program read, and then those it has still to read. -/
def passed (sys : AciaSys β) : List Byte := sys.got ++ sys.receiver.held

/-- What comes in is kept. -/
def Conserves (sys sys' : AciaSys β) : Prop :=
  ∃ new, sys'.masked = sys.masked ++ new ∧ sys'.passed = sys.passed ++ new

/-- A byte is lost, and the overrun flag says so. -/
def Overruns (sys sys' : AciaSys β) : Prop :=
  sys'.receiver.ovrn = true ∧
    ∃ new, sys'.masked = sys.masked ++ new ∧ sys'.passed.Sublist (sys.passed ++ new)

/-- Neither the receiver nor what has passed changes. -/
structure Frames (sys sys' : AciaSys β) : Prop where
  receiver_eq : sys'.receiver = sys.receiver
  taken_eq : sys'.taken = sys.taken
  got_eq : sys'.got = sys.got

/-- What a step may do, from a sound receiver; `reads` when it reads the data register. -/
structure Moves (reads : Prop) (sys sys' : AciaSys β) : Prop where
  sound : sys'.receiver.Sound
  flowControl_eq : sys'.receiver.flowControl = sys.receiver.flowControl
  passes : Conserves sys sys' ∨ sys.receiver.flowControl = false ∧ Overruns sys sys'
  ovrn_kept : ¬reads → sys.receiver.ovrn = true → sys'.receiver.ovrn = true

theorem Frames.refl (sys : AciaSys β) : Frames sys sys := ⟨rfl, rfl, rfl⟩

theorem Frames.trans {a b c : AciaSys β} (hab : Frames a b) (hbc : Frames b c) : Frames a c where
  receiver_eq := hbc.receiver_eq.trans hab.receiver_eq
  taken_eq := hbc.taken_eq.trans hab.taken_eq
  got_eq := hbc.got_eq.trans hab.got_eq

theorem Frames.masked_eq {a b : AciaSys β} (h : Frames a b) : b.masked = a.masked := by
  simp only [masked, h.taken_eq]

theorem Frames.passed_eq {a b : AciaSys β} (h : Frames a b) : b.passed = a.passed := by
  simp only [passed, h.got_eq, h.receiver_eq]

theorem Frames.moves {a b : AciaSys β} (h : Frames a b) (hsound : a.receiver.Sound) :
    Moves reads a b where
  sound := h.receiver_eq ▸ hsound
  flowControl_eq := by rw [h.receiver_eq]
  passes := .inl ⟨[], by simp [h.masked_eq], by simp [h.passed_eq]⟩
  ovrn_kept _ hovrn := by rw [h.receiver_eq, hovrn]

/-- A frame before a move. -/
theorem Frames.then_moves {a b c : AciaSys β} (hab : Frames a b) (hbc : Moves reads b c) :
    Moves reads a c where
  sound := hbc.sound
  flowControl_eq := by rw [hbc.flowControl_eq, hab.receiver_eq]
  passes := by
    have hpasses := hbc.passes
    simp only [Conserves, Overruns, hab.masked_eq, hab.passed_eq, hab.receiver_eq] at hpasses ⊢
    exact hpasses
  ovrn_kept hreads hovrn := hbc.ovrn_kept hreads (by rw [hab.receiver_eq, hovrn])

theorem frames_withAcia {sys : AciaSys β} {acia : Acia6551}
    (h : acia.receiver = sys.receiver) : Frames sys (sys.withAcia acia) := ⟨h, rfl, rfl⟩

theorem frames_called (sys : AciaSys β) (lines : List AciaLine) (peer : β) :
    Frames sys (sys.called lines peer) := by
  refine ⟨?_, rfl, rfl⟩
  show (lines.foldl aciaSetLine sys.toAcia6551).receiver = sys.toAcia6551.receiver
  induction lines generalizing sys with
  | nil => rfl
  | cons line lines ih =>
    have hrest := ih (sys.withAcia (aciaSetLine sys.toAcia6551 line))
    exact hrest.trans (receiver_setLine sys.toAcia6551 line)

end AciaSys

section Steps

variable {β : Type} (backend : SerialBackend β) {reads : Prop}

open AciaSys

theorem frames_send (sys : AciaSys β) : Frames sys (aciaSend backend sys) := by
  unfold aciaSend
  split
  · exact frames_called sys _ _
  · exact .refl sys

theorem frames_tickTx (sys : AciaSys β) (cycles : Int) :
    Frames sys (aciaTickTx backend sys cycles) := by
  have hcount : Frames sys
      (sys.withAcia { sys.toAcia6551 with txCycles := sys.txCycles - cycles }) :=
    frames_withAcia rfl
  unfold aciaTickTx
  dsimp only
  split_ifs
  · have hsent := hcount.trans (frames_send backend _)
    refine hsent.trans (frames_withAcia ?_)
    rw [receiver_updateIrq]
    exact receiver_flags rfl rfl rfl rfl (status_flags aciaStatusTdre (by simp) _).1
  · exact hcount
  · exact .refl sys

theorem frames_poll (sys : AciaSys β) : Frames sys (aciaPoll backend sys).2 := by
  unfold aciaPoll
  split
  · exact frames_called sys _ _
  · exact .refl sys

/-- A byte comes into the receiver. -/
theorem accept_moves {sys sys' : AciaSys β} {raw mask : Byte} (hsound : sys.receiver.Sound)
    (hspace : sys.receiver.flowControl = true → sys.receiver.HasSpace)
    (hreceiver : sys'.receiver = sys.receiver.accept (raw &&& mask))
    (htaken : sys'.taken = sys.taken ++ [(raw, mask)]) (hgot : sys'.got = sys.got) :
    Moves reads sys sys' where
  sound := hreceiver ▸ Receiver.accept_sound hsound _
  flowControl_eq := by rw [hreceiver, Receiver.accept_flowControl]
  passes := by
    have hmasked : sys'.masked = sys.masked ++ [raw &&& mask] := by simp [masked, htaken]
    by_cases hflow : sys.receiver.flowControl = true
    · left
      refine ⟨_, hmasked, ?_⟩
      rw [passed, hgot, hreceiver, Receiver.held_accept hsound (hspace hflow), ← List.append_assoc]
      rfl
    · obtain hkept | ⟨hovrn, hlost⟩ := Receiver.accept_cases hsound (raw &&& mask)
      · left
        refine ⟨_, hmasked, ?_⟩
        rw [passed, hgot, hreceiver, hkept, ← List.append_assoc]
        rfl
      · right
        refine ⟨by simpa using hflow, hreceiver ▸ hovrn, _, hmasked, ?_⟩
        rw [passed, hgot, hreceiver, passed, List.append_assoc]
        exact hlost.append_left sys.got
  ovrn_kept _ hovrn := by rw [hreceiver, Receiver.accept_ovrn hovrn]

theorem take_moves {sys : AciaSys β} (hsound : sys.receiver.Sound)
    (hspace : sys.receiver.flowControl = true → sys.receiver.HasSpace) :
    Moves reads sys (aciaTake backend sys) := by
  unfold aciaTake
  cases hpeer : sys.peer with
  | none => exact (Frames.refl sys).moves hsound
  | some peer =>
    generalize hrecv : backend.recv peer = answer
    obtain ⟨byte, lines, peer'⟩ := answer
    have hframe := frames_called sys lines peer'
    simp only [hrecv]
    cases byte with
    | none => exact hframe.moves hsound
    | some raw =>
      refine hframe.then_moves
        (accept_moves (hframe.receiver_eq ▸ hsound) (hframe.receiver_eq ▸ hspace) ?_ rfl rfl)
      exact (receiver_updateIrq _).trans ((receiver_echo _ _).trans (receiver_receive _ _))

theorem rxDue_moves {sys : AciaSys β} (hsound : sys.receiver.Sound) :
    Moves reads sys (aciaRxDue backend sys) := by
  have hpoll := frames_poll backend sys
  have hpolled := hpoll.receiver_eq ▸ hsound
  unfold aciaRxDue
  dsimp only
  by_cases hready : ((aciaPoll backend sys).2.dcd && ((aciaPoll backend sys).1 &&
      !((aciaPoll backend sys).2.rxBackpressure &&
        !aciaRxHasSpace (aciaPoll backend sys).2.toAcia6551))) = true
  · rw [if_pos hready]
    refine hpoll.then_moves (take_moves backend hpolled fun hflow => ?_)
    have hback : (aciaPoll backend sys).2.rxBackpressure = true := hflow
    rw [← hasSpace_iff]
    simp only [hback, Bool.and_eq_true, Bool.true_and, Bool.not_not] at hready
    exact hready.2.2
  · rw [if_neg hready]
    exact hpoll.moves hsound

theorem frames_then_rxDue {sys sys' : AciaSys β} (h : Frames sys sys')
    (hsound : sys.receiver.Sound) : Moves reads sys (aciaRxDue backend sys') :=
  h.then_moves (rxDue_moves backend (h.receiver_eq ▸ hsound))

theorem tickRx_moves {sys : AciaSys β} (hsound : sys.receiver.Sound) (cycles : Int) :
    Moves reads sys (aciaTickRx backend sys cycles) := by
  have hcount : Frames sys
      (sys.withAcia { sys.toAcia6551 with rxCycles := sys.rxCycles - cycles }) :=
    frames_withAcia rfl
  unfold aciaTickRx
  dsimp only
  split_ifs
  · exact frames_then_rxDue backend (hcount.trans (frames_withAcia rfl)) hsound
  · exact hcount.moves hsound

theorem tick_moves {sys : AciaSys β} (hsound : sys.receiver.Sound) (cycles : Int) :
    Moves reads sys (aciaTick backend sys cycles) := by
  have htransit : Frames sys (sys.withAcia (aciaIrqTransit sys.toAcia6551 cycles)) :=
    frames_withAcia (receiver_irqTransit sys.toAcia6551 cycles)
  unfold aciaTick
  dsimp only
  split_ifs
  · exact htransit.moves hsound
  · exact htransit.moves hsound
  · have htx := htransit.trans (frames_tickTx backend _ cycles)
    exact htx.then_moves (tickRx_moves backend (htx.receiver_eq ▸ hsound) cycles)

/-- A read of the data register takes the first byte held. -/
theorem readOp_moves {sys : AciaSys β} (hsound : sys.receiver.Sound) (reg : AciaReg) :
    Moves (reg = .data) sys (aciaReadOp sys reg) := by
  by_cases hreg : reg = .data
  · subst hreg
    have hreceiver : (aciaReadOp sys .data).receiver = sys.receiver.release :=
      receiver_read_data sys.toAcia6551
    have hheld := Receiver.held_release hsound
    refine ⟨hreceiver ▸ Receiver.release_sound, ?_, .inl ⟨[], ?_, ?_⟩, fun h => absurd rfl h⟩
    · rw [hreceiver, Receiver.release_flowControl]
    · simp [masked, aciaReadOp, withAcia]
    · rw [passed, passed, hreceiver, hheld, List.append_nil]
      have hread : (aciaReadOp sys .data).got =
          sys.got ++ if sys.receiver.rdrf then [sys.receiver.rdr] else [] := by
        have hgot : (aciaReadOp sys .data).got =
            if sys.receiver.rdrf then sys.got ++ [sys.rdr] else sys.got := by
          simp [aciaReadOp, aciaRead, Acia6551.receiver]
        rw [hgot]
        split_ifs
        · rfl
        · rw [List.append_nil]
      rw [hread, List.append_assoc]
  · refine Frames.moves ⟨receiver_read sys.toAcia6551 hreg, rfl, ?_⟩ hsound
    simp [aciaReadOp, hreg]

/-- One step keeps the receiver sound, and loses nothing but with the overrun flag. -/
theorem step_moves {sys : AciaSys β} (hsound : sys.receiver.Sound) {op : AciaOp}
    (hop : op.NoReset) : Moves (op = .read .data) sys (aciaStep backend sys op) := by
  cases op with
  | tick cycles => exact tick_moves backend hsound cycles
  | read reg => simpa [aciaStep] using readOp_moves hsound reg
  | write reg value =>
    have hreg : reg ≠ .status := by
      rintro rfl
      exact hop
    exact (frames_withAcia (receiver_write sys.toAcia6551 hreg value)).moves hsound
  | line line => exact (frames_withAcia (receiver_setLine sys.toAcia6551 line)).moves hsound

/-! ## Runs -/

/-- The receiver after `acia_init` and the card's settings: the FIFO, if any, is empty. -/
theorem receiver_setUp (config : AciaConfig) :
    ∃ fifo : Option (RingBuffer Byte),
      (aciaSetUp config).receiver = ⟨0#8, false, fifo, false, false, config.rxBackpressure⟩ ∧
        fifo.elim [] RingBuffer.contents = [] := by
  have hinit : aciaInit.receiver = ⟨0#8, false, none, false, false, false⟩ := by
    rw [aciaInit, receiver_updateTiming]
    rfl
  have hv23 : (aciaUpdateTiming { aciaInit with v23Mode := config.v23Mode }).receiver =
      ⟨0#8, false, none, false, false, false⟩ := by
    rw [receiver_updateTiming]
    exact hinit
  -- the card's last settings change none of the receiver but its flow control
  have hlast : ∀ acia : Acia6551, Acia6551.receiver
      { aciaUpdateTiming { acia with extClockBaud := config.extClockBaud } with
        irqOnRdrf := config.irqOnRdrf, irqLatencyCycles := config.irqLatencyCycles
        irqInTransit := false, irqTransitCycles := 0, rxBackpressure := config.rxBackpressure } =
      { acia.receiver with flowControl := config.rxBackpressure } := by
    intro acia
    have htiming := receiver_updateTiming { acia with extClockBaud := config.extClockBaud }
    exact congrArg (fun r : Receiver => { r with flowControl := config.rxBackpressure }) htiming
  unfold aciaSetUp
  dsimp only
  cases config.rxFifoSize with
  | none => exact ⟨none, by rw [Option.elim_none, hlast, hv23], rfl⟩
  | some size =>
    refine ⟨if h : 0 < min size aciaFifoMaxSize then some (.empty config.fresh _ h) else none,
      ?_, ?_⟩
    · rw [Option.elim_some, hlast]
      exact congrArg (fun r : Receiver =>
        { r with
          fifo := if h : 0 < min size aciaFifoMaxSize then some (.empty config.fresh _ h) else none
          flowControl := config.rxBackpressure }) hv23
    · split_ifs <;> rfl

/-- What holds between the bytes given, read and held, over a run. -/
structure Carries (flow : Bool) (sys : AciaSys β) : Prop where
  sound : sys.receiver.Sound
  flowControl_eq : sys.receiver.flowControl = flow
  sublist : sys.passed.Sublist sys.masked
  all_passed : flow = true → sys.masked = sys.passed

theorem start_carries (config : AciaConfig) (peer : Option β) :
    Carries config.rxBackpressure (aciaStart config peer) := by
  obtain ⟨fifo, hreceiver, hempty⟩ := receiver_setUp config
  have hstart : (aciaStart config peer).receiver =
      ⟨0#8, false, fifo, false, false, config.rxBackpressure⟩ := hreceiver
  have hpassed : (aciaStart config peer).passed = [] := by
    simp only [passed, hstart, Receiver.held, Receiver.queued, hempty]
    rfl
  refine ⟨?_, by rw [hstart], ?_, fun _ => ?_⟩
  · rw [hstart]
    exact ⟨rfl, fun _ => hempty⟩
  · rw [hpassed]
    exact List.nil_sublist _
  · rw [hpassed]
    rfl

theorem step_carries {flow : Bool} {sys : AciaSys β} (h : Carries flow sys) {op : AciaOp}
    (hop : op.NoReset) : Carries flow (aciaStep backend sys op) := by
  have hmoves := step_moves backend h.sound hop
  refine ⟨hmoves.sound, hmoves.flowControl_eq.trans h.flowControl_eq, ?_, fun hflow => ?_⟩
  · obtain ⟨new, hmasked, hpassed⟩ | ⟨-, -, new, hmasked, hpassed⟩ := hmoves.passes
    · rw [hmasked, hpassed]
      exact h.sublist.append_right new
    · rw [hmasked]
      exact hpassed.trans (h.sublist.append_right new)
  · obtain ⟨new, hmasked, hpassed⟩ | ⟨hoff, -⟩ := hmoves.passes
    · rw [hmasked, hpassed, h.all_passed hflow]
    · rw [h.flowControl_eq, hflow] at hoff
      exact absurd hoff (by simp)

theorem run_carries {flow : Bool} (ops : List AciaOp) {sys : AciaSys β} (h : Carries flow sys)
    (hops : ∀ op ∈ ops, op.NoReset) : Carries flow (aciaRun backend sys ops) := by
  induction ops generalizing sys with
  | nil => exact h
  | cons op ops ih =>
    have hstep := step_carries backend h (hops op List.mem_cons_self)
    exact ih hstep fun op hop => hops op (List.mem_cons_of_mem _ hop)

/-- Over every run without a reset: the receiver reports a byte exactly when it holds one. With
flow control the program reads every byte the backend gave, in order, the last ones still held.
Without it, a step either loses nothing or leaves the overrun flag set, and only a read of the
data register clears that flag. -/
theorem aciaRun_bytes (config : AciaConfig) (peer : Option β) (ops : List AciaOp)
    (hops : ∀ op ∈ ops, op.NoReset) :
    let sys := aciaRun backend (aciaStart config peer) ops
    (sys.status &&& aciaStatusRdrf ≠ 0#8 ↔ sys.receiver.held ≠ []) ∧
      (config.rxBackpressure = true → sys.masked = sys.got ++ sys.receiver.held) ∧
      (config.rxBackpressure = false → (sys.got ++ sys.receiver.held).Sublist sys.masked ∧
        ∀ op : AciaOp, op.NoReset →
          let sys' := aciaStep backend sys op
          (sys.Conserves sys' ∨ sys.Overruns sys') ∧
            (op ≠ .read .data → sys.status &&& aciaStatusOvrn ≠ 0#8 →
              sys'.status &&& aciaStatusOvrn ≠ 0#8)) := by
  intro sys
  have hcarries : Carries config.rxBackpressure sys :=
    run_carries backend ops (start_carries config peer) hops
  refine ⟨?_, hcarries.all_passed, fun _ => ⟨hcarries.sublist, fun op hop => ⟨?_, ?_⟩⟩⟩
  · have hheld := hcarries.sound.held_ne_nil
    simpa [Acia6551.receiver] using hheld
  · exact (step_moves backend hcarries.sound hop).passes.imp_right And.right
  · intro hread hovrn
    have hkept := (step_moves backend hcarries.sound hop).ovrn_kept hread
    simp only [Acia6551.receiver, bne_iff_ne] at hkept
    exact hkept hovrn

end Steps

/-- A backend with bytes to give. -/
def queueBackend : SerialBackend (List Byte) where
  poll := some fun bytes => (!bytes.isEmpty, [], bytes)
  recv
    | [] => (none, [], [])
    | byte :: bytes => (some byte, [], bytes)
  send := none

/-- The one-byte receiver, with flow control or without. -/
def plainConfig (rxBackpressure : Bool) : AciaConfig where
  v23Mode := false
  rxFifoSize := none
  fresh := fun _ => 0#8
  extClockBaud := 0
  irqOnRdrf := false
  irqLatencyCycles := 0
  rxBackpressure := rxBackpressure

/-- Seven data bits at 9600 baud, DTR on: a byte is received and read. -/
def sevenBitRun : List AciaOp :=
  [.write .control 0x3E#8, .write .command 0x03#8, .tick 2000, .read .data]

theorem aciaRun_bytes_sevenBit :
    let sys := aciaRun queueBackend (aciaStart (plainConfig true) (some [0xFF#8])) sevenBitRun
    sys.masked = sys.got ++ sys.receiver.held :=
  (aciaRun_bytes queueBackend (plainConfig true) (some [0xFF#8]) sevenBitRun
    (by simp [sevenBitRun, AciaOp.NoReset])).2.1 rfl

/-- The top bit of a byte the backend gave does not reach the program with seven data bits. -/
theorem aciaRun_masks_byte :
    let sys := aciaRun queueBackend (aciaStart (plainConfig true) (some [0xFF#8])) sevenBitRun
    sys.taken.map Prod.fst = [0xFF#8] ∧ sys.got = [0x7F#8] ∧ sys.receiver.held = [] := by
  decide

end Phosphoric
