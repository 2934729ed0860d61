import Phosphoric.Loci.Xstack

/-!
# The windows on the xram

The data register of a window is a copy of the byte at its address (`LociCoherent`). An access of
the window refreshes it, and a file read into the xram refreshes both; every other store in the
xram leaves the copies as they are.

**Safe steps** (`LociSafe`). No store changes the byte at the address of a window that the step
does not refresh: a write through the other window, a keyboard or mouse report, the TIMINGS byte of
a sweep, a drawing, and a read from the SD image that ends in an error after it stored something.
A reset clears the registers, but not the xram.

**Theorem (`loci_coherent_iff`).** A run from `lociInit` is coherent after every step exactly when
every step is safe.
-/

open Function (update update_of_ne update_self)

namespace Phosphoric

open Machine

variable {base loci : Loci}

/-! ## Coherence -/

/-- The data register shows the byte at the window's address. -/
def Loci.Shows (loci : Loci) (w : LociWindow) : Prop :=
  loci.regs w.rw = loci.xram (getAddr loci w).toNat

def LociCoherent (loci : Loci) : Prop := ∀ w ∈ lociWindows, loci.Shows w

/-- At the windows' addresses the xram is as before. -/
def Loci.Unseen (loci : Loci) (xram : Nat → Byte) : Prop :=
  ∀ w ∈ lociWindows, xram (getAddr loci w).toNat = loci.xram (getAddr loci w).toNat

/-- A write through a window changes nothing the other window shows. -/
def Loci.RwUnseen (loci : Loci) (w : LociWindow) (value : Byte) : Prop :=
  ∀ w' ∈ lociWindows, w' ≠ w → getAddr loci w' = getAddr loci w →
    value = loci.xram (getAddr loci w).toNat

def LociSafeOp (loci : Loci) (op : Byte) (host : LociHost) : Prop :=
  if op = 0x17#8 then
    ∀ slot addr count, xramArgsOf loci = some (slot, addr, count) →
      (fileRead loci host slot count).2.isSome →
        loci.Unseen (storeXram loci.xram addr (fileRead loci host slot count).1)
  else if op = 0xA6#8 then loci.Unseen (update loci.xram adjAddress (adjScanByte loci))
  else if op = 0xAE#8 then
    ∀ draw, gfxDrawOf loci = some draw → loci.Unseen (draw.mem loci.gfx loci.xram)
  else True

def LociSafeWrite (loci : Loci) (off : Nat) (value : Byte) (host : LociHost) : Prop :=
  if off = lociRegRw0 then loci.RwUnseen lociWindow0 value
  else if off = lociRegRw1 then loci.RwUnseen lociWindow1 value
  else if off = lociRegApiOp then LociSafeOp loci value host
  else True

/-- The TIMINGS byte a tick of a sweep stores. -/
def adjTickByte (loci : Loci) (cycles : Nat) : Option Byte :=
  if loci.adjState = 0 ∨ loci.adjState = 1 then none
  else
    match (adjSweep (loci.adjAcc + cycles) loci.adjTior).1 with
    | some tior => some (0x80#8 ||| BitVec.ofNat 8 tior)
    | none => some (loci.miaTior &&& 0x1F#8)

def LociSafe (loci : Loci) : LociInput → Prop
  | .write address value host => loci.enabled = true → ∀ off, miaReg address = some off →
      LociSafeWrite loci off value host
  | .kbdReport modifier keycodes => reportPlace loci loci.kbdXram 32 = true →
      loci.Unseen (storeXram loci.xram loci.kbdXram.toNat (kbdKeys modifier keycodes))
  | .mouReport buttons dx dy wheel pan => reportPlace loci loci.mouXram 5 = true →
      loci.Unseen
        (storeXram loci.xram loci.mouXram.toNat (mouBytes loci buttons dx dy wheel pan))
  | .adjTick cycles => ∀ value, adjTickByte loci cycles = some value →
      loci.Unseen (update loci.xram adjAddress value)
  | .reset _ => loci.enabled = true → loci.xram 0 = 0#8
  | _ => True

/-! ## What coherence depends on -/

theorem shows_congr {w : LociWindow} (hw : w ∈ lociWindows)
    (hregs : ∀ r ∈ lociWindowRegs, loci.regs r = base.regs r) (hxram : loci.xram = base.xram) :
    loci.Shows w ↔ base.Shows w := by
  obtain ⟨hrw, hlo, hhi, -⟩ := lociWindows_regs w hw
  rw [Loci.Shows, Loci.Shows, getAddr, getAddr, hregs _ hrw, hregs _ hlo, hregs _ hhi, hxram]

theorem coherent_congr (hregs : ∀ r ∈ lociWindowRegs, loci.regs r = base.regs r)
    (hxram : loci.xram = base.xram) : LociCoherent loci ↔ LociCoherent base :=
  forall₂_congr fun _ hw => shows_congr hw hregs hxram

theorem LociServed.coherent_iff (h : LociServed base loci) :
    LociCoherent loci ↔ LociCoherent base :=
  coherent_congr h.windows h.xram

theorem setReg_coherent_iff {r : Nat} (hr : r ∉ lociWindowRegs) (value : Byte) :
    LociCoherent (loci.setReg r value) ↔ LociCoherent loci := by
  refine coherent_congr (fun q hq => ?_) rfl
  have hne : q ≠ r := fun heq => hr (heq ▸ hq)
  rw [Loci.setReg_regs, update_of_ne hne]

/-- After a store the windows show what was there before. -/
theorem withXram_shows_iff {w : LociWindow} (hshows : loci.Shows w) (xram : Nat → Byte) :
    (loci.withXram xram).Shows w ↔
      xram (getAddr loci w).toNat = loci.xram (getAddr loci w).toNat := by
  rw [← hshows]
  exact eq_comm

theorem withXram_coherent_iff (hc : LociCoherent loci) (xram : Nat → Byte) :
    LociCoherent (loci.withXram xram) ↔ loci.Unseen xram :=
  forall₂_congr fun w hw => withXram_shows_iff (hc w hw) xram

/-! ## Refreshing -/

/-- The registers of the windows are all different. -/
theorem lociWindows_disjoint : ∀ w ∈ lociWindows, ∀ w' ∈ lociWindows,
    w'.addrLo ≠ w.rw ∧ w'.addrHi ≠ w.rw ∧
      (w' ≠ w → w'.rw ≠ w.rw ∧ ∀ r ∈ [w.addrLo, w.addrHi], w'.rw ≠ r ∧ w'.addrLo ≠ r ∧
        w'.addrHi ≠ r) := by decide

theorem setReg_shows_iff {w : LociWindow} {r : Nat} (hrw : w.rw ≠ r) (hlo : w.addrLo ≠ r)
    (hhi : w.addrHi ≠ r) (value : Byte) : (loci.setReg r value).Shows w ↔ loci.Shows w := by
  rw [Loci.Shows, Loci.Shows, getAddr, getAddr, Loci.setReg_regs, update_of_ne hrw,
    update_of_ne hlo, update_of_ne hhi]
  rfl

theorem refreshRw_shows {w : LociWindow} (hw : w ∈ lociWindows) : (refreshRw loci w).Shows w := by
  obtain ⟨hlo, hhi, -⟩ := lociWindows_disjoint w hw w hw
  have haddr : getAddr (refreshRw loci w) w = getAddr loci w := by
    rw [getAddr, refreshRw, Loci.setReg_regs, update_of_ne hlo, update_of_ne hhi]
    rfl
  rw [Loci.Shows, haddr, refreshRw, Loci.setReg_regs, update_self]
  rfl

theorem refreshRw_coherent_iff {w : LociWindow} (hw : w ∈ lociWindows) :
    LociCoherent (refreshRw loci w) ↔ ∀ w' ∈ lociWindows, w' ≠ w → loci.Shows w' := by
  refine forall₂_congr fun w' hw' => ?_
  obtain ⟨hlo, hhi, hother⟩ := lociWindows_disjoint w hw w' hw'
  by_cases heq : w' = w
  · subst heq
    exact iff_of_true (refreshRw_shows hw) fun hne => absurd rfl hne
  · rw [refreshRw, setReg_shows_iff (hother heq).1 hlo hhi]
    exact ⟨fun hshows _ => hshows, fun hshows => hshows heq⟩

theorem refreshBoth_coherent (loci : Loci) : LociCoherent (refreshBoth loci) := by
  rw [refreshBoth, refreshRw_coherent_iff (by decide)]
  intro w hw hne
  have hfirst : w = lociWindow0 := by
    simpa [lociWindows, hne] using hw
  subst hfirst
  exact refreshRw_shows hw

/-- An access moves a window on and leaves the other one alone. -/
theorem windowAdvance_coherent_iff {w : LociWindow} (hw : w ∈ lociWindows) :
    LociCoherent (windowAdvance loci w) ↔ ∀ w' ∈ lociWindows, w' ≠ w → loci.Shows w' := by
  rw [windowAdvance, refreshRw_coherent_iff hw]
  refine forall₂_congr fun w' hw' => forall_congr' fun hne => ?_
  obtain ⟨-, -, hother⟩ := lociWindows_disjoint w hw w' hw'
  have haddr := (hother hne).2
  obtain ⟨hlo, hlo', hlo''⟩ := haddr w.addrLo (by simp)
  obtain ⟨hhi, hhi', hhi''⟩ := haddr w.addrHi (by simp)
  rw [setAddr, setReg_shows_iff hhi hhi' hhi'', setReg_shows_iff hlo hlo' hlo'']

theorem setAddr_coherent (hc : LociCoherent loci) {w : LociWindow} (hw : w ∈ lociWindows) {r : Nat}
    (hr : r = w.addrLo ∨ r = w.addrHi) (value : Byte) :
    LociCoherent (refreshRw (loci.setReg r value) w) := by
  rw [refreshRw_coherent_iff hw]
  intro w' hw' hne
  obtain ⟨-, -, hother⟩ := lociWindows_disjoint w hw w' hw'
  obtain ⟨hrw, hlo, hhi⟩ := (hother hne).2 r (by simpa using hr)
  exact (setReg_shows_iff hrw hlo hhi value).mpr (hc w' hw')

theorem readRw_coherent (hc : LociCoherent loci) {w : LociWindow} (hw : w ∈ lociWindows) :
    LociCoherent (readRw loci w).2 :=
  (windowAdvance_coherent_iff hw).mpr fun w' hw' _ => hc w' hw'

theorem writeRw_coherent_iff (hc : LociCoherent loci) {w : LociWindow} (hw : w ∈ lociWindows)
    (value : Byte) : LociCoherent (writeRw loci w value) ↔ loci.RwUnseen w value := by
  rw [writeRw, windowAdvance_coherent_iff hw]
  refine forall₂_congr fun w' hw' => forall_congr' fun _ => ?_
  have hstored := withXram_shows_iff (hc w' hw') (update loci.xram (getAddr loci w).toNat value)
  refine hstored.trans ?_
  by_cases haddr : getAddr loci w' = getAddr loci w
  · rw [haddr, update_self]
    exact ⟨fun h _ => h, fun h => h rfl⟩
  · rw [update_of_ne fun heq => haddr (BitVec.eq_of_toNat_eq heq)]
    exact iff_of_true rfl fun heq => absurd heq haddr

/-! ## Operations -/

theorem xramReadBase_coherent_iff (hc : LociCoherent loci) (host : LociHost)
    (args : Option (Nat × Nat × Nat)) :
    LociCoherent (xramReadBase loci loci host args) ↔
      ∀ slot addr count, args = some (slot, addr, count) →
        (fileRead loci host slot count).2.isSome →
          loci.Unseen (storeXram loci.xram addr (fileRead loci host slot count).1) := by
  rcases args with _ | ⟨slot, addr, count⟩
  · exact iff_of_true hc fun _ _ _ h => nomatch h
  simp only [xramReadBase]
  by_cases herr : (fileRead loci host slot count).2.isSome
  · rw [if_pos herr, withXram_coherent_iff hc]
    refine ⟨?_, fun h => h slot addr count rfl herr⟩
    rintro h _ _ _ ⟨⟩ -
    exact h
  · rw [if_neg herr]
    refine iff_of_true (refreshBoth_coherent _) ?_
    rintro _ _ _ ⟨⟩ hsome
    exact absurd hsome herr

theorem gfxDrawBase_coherent_iff (hc : LociCoherent loci) (draw : Option GfxDraw) :
    LociCoherent (gfxDrawBase loci loci draw) ↔
      ∀ d, draw = some d → loci.Unseen (d.mem loci.gfx loci.xram) := by
  cases draw with
  | none => exact iff_of_true hc fun _ h => nomatch h
  | some draw =>
    refine (withXram_coherent_iff hc _).trans ⟨?_, fun h => h draw rfl⟩
    rintro h _ ⟨⟩
    exact h

theorem opBase_coherent_iff (hc : LociCoherent loci) (op : Byte) (host : LociHost) :
    LociCoherent (opBase loci loci op host) ↔ LociSafeOp loci op host := by
  simp only [opBase]
  split
  next hop =>
    obtain rfl : op = 0x17#8 := BitVec.eq_of_toNat_eq hop
    rw [LociSafeOp, if_pos rfl]
    exact xramReadBase_coherent_iff hc host _
  next hop =>
    obtain rfl : op = 0xA6#8 := BitVec.eq_of_toNat_eq hop
    rw [LociSafeOp, if_neg (by decide), if_pos rfl]
    exact withXram_coherent_iff hc _
  next hop =>
    obtain rfl : op = 0xAE#8 := BitVec.eq_of_toNat_eq hop
    rw [LociSafeOp, if_neg (by decide), if_neg (by decide), if_pos rfl]
    exact gfxDrawBase_coherent_iff hc _
  next hread hadj hgfx =>
    have hread' : op ≠ 0x17#8 := fun heq => hread (congrArg BitVec.toNat heq)
    have hadj' : op ≠ 0xA6#8 := fun heq => hadj (congrArg BitVec.toNat heq)
    have hgfx' : op ≠ 0xAE#8 := fun heq => hgfx (congrArg BitVec.toNat heq)
    rw [LociSafeOp, if_neg hread', if_neg hadj', if_neg hgfx']
    exact iff_of_true hc trivial

theorem apiRequest_coherent_iff (hst : LociStacked loci) (hc : LociCoherent loci) (op : Byte)
    (host : LociHost) :
    LociCoherent (apiRequest (loci.setReg lociRegApiOp op) op host) ↔ LociSafeOp loci op host := by
  have hset : LociServed loci (loci.setReg lociRegApiOp op) := hst.served.setReg (by decide) op
  -- no operation reads its own register or the stub
  have hbase : opBase loci (apiInstallBlockedStub (loci.setReg lociRegApiOp op)) op host =
    opBase loci loci op host := rfl
  rw [(apiRequest_served hset op host).coherent_iff, hbase]
  by_cases hnone : op = 0x00#8 ∨ op = 0xFF#8
  · rw [if_pos hnone]
    rcases hnone with rfl | rfl
    · exact iff_of_true hc trivial
    · exact iff_of_true hc trivial
  · rw [if_neg hnone]
    exact opBase_coherent_iff hc op host

/-! ## Steps -/

theorem consLoad_coherent (hc : LociCoherent loci) {none' : Loci → Loci}
    (hnone : LociCoherent (none' loci)) : LociCoherent (consLoad loci none') := by
  simp only [consLoad]
  split
  next c rest _ =>
    have htaken : LociCoherent { loci with consRx := rest } := hc
    exact (setReg_coherent_iff (by decide) _).mpr ((setReg_coherent_iff (by decide) c).mpr htaken)
  · exact hnone

theorem consReadFlags_coherent (hc : LociCoherent loci) : LociCoherent (consReadFlags loci) := by
  refine (setReg_coherent_iff (by decide) _).mpr ?_
  split
  · exact consLoad_coherent hc hc
  · exact hc

theorem consReadChar_coherent (hc : LociCoherent loci) : LociCoherent (consReadChar loci) :=
  consLoad_coherent hc
    ((setReg_coherent_iff (by decide) _).mpr ((setReg_coherent_iff (by decide) _).mpr hc))

theorem lociReadReg_coherent (hst : LociStacked loci) (hc : LociCoherent loci) (off : Nat)
    (host : LociHost) : LociCoherent (lociReadReg loci off host).2 := by
  simp only [lociReadReg]
  split
  · simp only [readUlaSnoop]
    split
    · exact (setReg_coherent_iff (by decide) _).mpr hc
    · exact hc
  have hspun : LociServed loci
      (if off = lociRegInject0 ∧ loci.resumePending = true then lociResumeAtSpin loci host
      else loci) := by
    split
    · exact lociResumeAtSpin_served hst.served host
    · exact hst.served
  have hspunC := hspun.coherent_iff.mpr hc
  generalize (if off = lociRegInject0 ∧ loci.resumePending = true then lociResumeAtSpin loci host
    else loci) = spun at hspun hspunC ⊢
  split
  · exact consReadFlags_coherent hspunC
  split
  · exact consReadChar_coherent hspunC
  split
  · exact readRw_coherent hspunC (by decide)
  split
  · exact readRw_coherent hspunC (by decide)
  split
  · exact (readXstack_served hspun).coherent_iff.mpr hc
  · exact hspunC

theorem lociWriteReg_coherent_iff (hst : LociStacked loci) (hc : LociCoherent loci) (off : Nat)
    (value : Byte) (host : LociHost) :
    LociCoherent (lociWriteReg loci off value host) ↔ LociSafeWrite loci off value host := by
  simp only [lociWriteReg, LociSafeWrite]
  by_cases htx : off = lociRegConsTx
  · subst htx
    have hline : LociCoherent (consTxByte loci value) := hc
    exact iff_of_true
      ((setReg_coherent_iff (by decide) _).mpr ((setReg_coherent_iff (by decide) _).mpr hline))
      trivial
  rw [if_neg htx]
  by_cases hsnoop : off = lociRegUlaSnoop
  · subst hsnoop
    have hpattern : LociCoherent { loci with ulaPattern := value } := hc
    exact iff_of_true ((setReg_coherent_iff (by decide) _).mpr hpattern) trivial
  rw [if_neg hsnoop]
  by_cases hrw0 : off = lociRegRw0
  · rw [if_pos hrw0, if_pos hrw0]
    exact writeRw_coherent_iff hc (by decide) value
  rw [if_neg hrw0, if_neg hrw0]
  by_cases hrw1 : off = lociRegRw1
  · rw [if_pos hrw1, if_pos hrw1]
    exact writeRw_coherent_iff hc (by decide) value
  rw [if_neg hrw1, if_neg hrw1]
  by_cases haddr0 : off = lociRegAddr0Lo ∨ off = lociRegAddr0Hi
  · rw [if_pos haddr0, if_neg (by rcases haddr0 with rfl | rfl <;> decide)]
    exact iff_of_true (setAddr_coherent hc (by decide) haddr0 value) trivial
  rw [if_neg haddr0]
  by_cases haddr1 : off = lociRegAddr1Lo ∨ off = lociRegAddr1Hi
  · rw [if_pos haddr1, if_neg (by rcases haddr1 with rfl | rfl <;> decide)]
    exact iff_of_true (setAddr_coherent hc (by decide) haddr1 value) trivial
  rw [if_neg haddr1]
  by_cases hstack : off = lociRegApiStack
  · rw [if_pos hstack, if_neg (by rw [hstack]; decide)]
    exact iff_of_true ((writeXstack_served hst.served value).coherent_iff.mpr hc) trivial
  rw [if_neg hstack]
  by_cases hop : off = lociRegApiOp
  · subst hop
    rw [if_pos rfl, if_pos rfl]
    exact apiRequest_coherent_iff hst hc value host
  · rw [if_neg hop, if_neg hop]
    have hplain : off ∉ lociWindowRegs := by
      simp only [lociWindowRegs, List.mem_cons, List.not_mem_nil, or_false]
      omega
    exact iff_of_true ((setReg_coherent_iff hplain value).mpr hc) trivial

/-- A store at a place of the xram. -/
theorem stored_coherent_iff (hc : LociCoherent loci) {place : Prop} [Decidable place]
    (xram : Nat → Byte) :
    LociCoherent (if place then loci.withXram xram else loci) ↔ (place → loci.Unseen xram) := by
  by_cases hplace : place
  · rw [if_pos hplace, withXram_coherent_iff hc]
    exact ⟨fun h _ => h, fun h => h hplace⟩
  · rw [if_neg hplace]
    exact iff_of_true hc fun h => absurd h hplace

theorem lociAdjTick_coherent_iff (hc : LociCoherent loci) (cycles : Nat) :
    LociCoherent (lociAdjTick loci cycles) ↔ LociSafe loci (.adjTick cycles) := by
  simp only [lociAdjTick, LociSafe, adjTickByte]
  by_cases hidle : loci.adjState = 0
  · rw [if_pos hidle, if_pos (Or.inl hidle)]
    exact iff_of_true hc fun _ h => by cases h
  rw [if_neg hidle]
  by_cases hlead : loci.adjState = 1
  · rw [if_pos hlead, if_pos (Or.inr hlead)]
    refine iff_of_true ?_ fun _ h => by cases h
    split
    · exact hc
    · exact hc
  rw [if_neg hlead, if_neg (not_or.mpr ⟨hidle, hlead⟩)]
  have hstored := fun value => withXram_coherent_iff hc (update loci.xram adjAddress value)
  obtain ⟨tior, acc⟩ := adjSweep (loci.adjAcc + cycles) loci.adjTior
  cases tior with
  | some tior =>
    refine (hstored (0x80#8 ||| BitVec.ofNat 8 tior)).trans ⟨?_, fun h => h _ rfl⟩
    rintro h _ ⟨⟩
    exact h
  | none =>
    refine (hstored (loci.miaTior &&& 0x1F#8)).trans ⟨?_, fun h => h _ rfl⟩
    rintro h _ ⟨⟩
    exact h

theorem seedInitialStub_coherent_iff : LociCoherent (seedInitialStub loci) ↔ LociCoherent loci := by
  refine coherent_congr (fun r hr => if_neg ?_) rfl
  have hlow : r < lociRegInject0 := by
    revert r
    decide
  omega

/-- Both windows are at 0 and show 0. -/
theorem cleared_coherent_iff (hregs : loci.regs = fun _ => 0#8) :
    LociCoherent loci ↔ loci.xram 0 = 0#8 := by
  have hshows : ∀ w, loci.Shows w ↔ loci.xram 0 = 0#8 := by
    intro w
    have haddr : (Word.mk 0#8 0#8).toNat = 0 := by decide
    rw [Loci.Shows, getAddr, hregs]
    change 0#8 = loci.xram (Word.mk 0#8 0#8).toNat ↔ _
    rw [haddr]
    exact eq_comm
  constructor
  · exact fun hc => (hshows lociWindow0).mp (hc lociWindow0 (by decide))
  · exact fun hzero w _ => (hshows w).mpr hzero

theorem lociReset_coherent_iff (hc : LociCoherent loci) (nowUs : Nat) :
    LociCoherent (lociReset loci nowUs) ↔ (loci.enabled = true → loci.xram 0 = 0#8) := by
  simp only [lociReset]
  by_cases henabled : loci.enabled = true
  · rw [if_neg (by simp [henabled]), seedInitialStub_coherent_iff, cleared_coherent_iff rfl]
    exact ⟨fun h _ => h, fun h => h henabled⟩
  · rw [if_pos (by simpa using henabled)]
    exact iff_of_true hc fun h => absurd h henabled

/-- A step of a coherent state leads to a coherent state exactly when it is safe. -/
theorem lociStep_coherent_iff (hst : LociStacked loci) (hc : LociCoherent loci)
    (input : LociInput) : LociCoherent (lociStep loci input) ↔ LociSafe loci input := by
  cases input with
  | read address host =>
    refine iff_of_true ?_ trivial
    simp only [lociStep, lociRead]
    split
    · exact hc
    split
    · exact hc
    · exact lociReadReg_coherent hst hc _ host
  | write address value host =>
    simp only [lociStep, lociWrite, LociSafe]
    by_cases henabled : loci.enabled = true
    · rw [if_neg (by simp [henabled])]
      cases miaReg address with
      | none => exact iff_of_true hc fun _ _ h => by cases h
      | some off =>
        refine (lociWriteReg_coherent_iff hst hc off value host).trans
          ⟨?_, fun h => h henabled off rfl⟩
        rintro h - _ ⟨⟩
        exact h
    · rw [if_pos (by simpa using henabled)]
      exact iff_of_true hc fun h => absurd h henabled
  | kbdReport modifier keycodes => exact stored_coherent_iff hc _
  | mouReport buttons dx dy wheel pan => exact stored_coherent_iff hc _
  | adjTick cycles => exact lociAdjTick_coherent_iff hc cycles
  | consInject ch =>
    refine iff_of_true ?_ trivial
    simp only [lociStep, lociConsInject]
    split
    · exact hc
    · exact hc
  | actionShort =>
    refine iff_of_true ?_ trivial
    simp only [lociStep, lociActionButtonShort]
    split
    · exact hc
    · have htrap : LociServed loci (storeRegs loci 0x1A lociActionTrap) :=
        hst.served.storeRegs (by decide) lociActionTrap
      exact htrap.coherent_iff.mpr hc
  | actionRelease =>
    refine iff_of_true ?_ trivial
    simp only [lociStep, lociActionButtonRelease]
    split
    · exact hc
    · exact hc
  | disk op => exact iff_of_true hc trivial
  | tapeWrite address value stored =>
    refine iff_of_true ?_ trivial
    simp only [lociStep]
    split
    · exact hc
    · exact hc
  | tapeMotor on stored =>
    refine iff_of_true ?_ trivial
    simp only [lociStep]
    split
    · exact hc
    · exact hc
  | settle settings => exact iff_of_true hc trivial
  | reset nowUs => exact lociReset_coherent_iff hc nowUs

/-! ## Runs -/

/-- A run from `loci_init` shows the xram through both windows after every step exactly when every
step is safe. -/
theorem loci_coherent_iff (heap : Heap Ptr Byte) (nowUs : Nat) (inputs : List LociInput) :
    Throughout lociStep (fun loci input => LociCoherent (lociStep loci input)) inputs
        (lociInit heap nowUs) ↔
      Throughout lociStep LociSafe inputs (lociInit heap nowUs) := by
  have hst : LociStacked (lociInit heap nowUs) := loci_stacked heap nowUs []
  have hc : LociCoherent (lociInit heap nowUs) :=
    seedInitialStub_coherent_iff.mpr ((cleared_coherent_iff rfl).mpr rfl)
  have hstep : ∀ loci input, LociStacked loci → LociCoherent loci →
      LociStacked (lociStep loci input) :=
    fun _ input hst _ => lociStep_stacked hst input
  have hnext : ∀ loci input, LociStacked loci → LociCoherent loci →
      (LociCoherent (lociStep loci input) ↔ LociSafe loci input) :=
    fun _ input hst hc => lociStep_coherent_iff hst hc input
  exact Throughout.next_iff hstep hnext inputs hst hc

/-- A host without files. -/
def lociHostIdle : LociHost where
  nowUs := 0
  time := 0
  rand := (0, 0)
  access := fun _ => false
  fopen := fun _ _ => some .enoent
  fread := fun _ _ => []
  fwrite := fun _ _ => 0
  fseek := fun _ _ _ => .error .einval
  statIsDir := fun _ => false
  rmdir := fun _ => some .enoent
  unlink := fun _ => some .enoent
  rename := fun _ _ => some .enoent
  mkdir := fun _ => some .eacces
  opendir := fun _ => some .enoent
  readdir := fun _ => none
  sdFopen := fun _ _ => .error .enoent
  sdFclose := fun _ => some .ebadf
  sdFread := fun _ _ => ([], some .ebadf)
  sdFwrite := fun _ _ => .error .ebadf
  sdLseek := fun _ _ _ => .error .ebadf
  sdOpendir := fun _ => .error .enoent
  sdClosedir := fun _ => some .ebadf
  sdReaddir := fun _ => .error .ebadf
  sdUnlink := fun _ => some .enoent
  sdRename := fun _ _ => some .enoent
  sdMkdir := fun _ => some .enoent
  sdExtract := fun _ => none
  webDisks := []
  tape := fun _ => none
  tapeSeek := fun _ => true
  dsk := ⟨none, none, true, []⟩
  dskWeb := ⟨[], true⟩
  romSwap := fun _ _ => false
  resume := false
  ulaSnoop := fun _ => 0#8

/-- The LOCI is switched on. -/
def lociSettingsOn : LociSettings where
  enabled := true
  wired := true
  sdimg := false
  flashRoot := []
  webBase := []
  usbDev := []
  usbRoot := []
  romSwapSet := false
  resumeSet := false
  ulaSnoopSet := false
  romPokeSet := false

/-- Both windows are at address 0. A byte is written through the first; the second still shows what
was there before, and a read of it answers that. -/
theorem loci_window_stale :
    let loci := [.settle lociSettingsOn, .write 0x03A4#16 0x05#8 lociHostIdle].foldl lociStep
      (lociInit ⟨fun _ => 0#8, []⟩ 0)
    loci.xram (getAddr loci lociWindow1).toNat = 0x05#8 ∧
      (lociRead loci 0x03A8#16 lociHostIdle).1 = 0x00#8 ∧ ¬LociCoherent loci := by
  intro loci
  have hstored : loci.xram (getAddr loci lociWindow1).toNat = 0x05#8 := by decide +kernel
  have hshown : loci.regs lociWindow1.rw = 0x00#8 := rfl
  refine ⟨hstored, rfl, fun hc => ?_⟩
  have hshows : loci.regs lociWindow1.rw = loci.xram (getAddr loci lociWindow1).toNat :=
    hc lociWindow1 (by decide)
  rw [hstored, hshown] at hshows
  exact absurd hshows (by decide)

end Phosphoric
