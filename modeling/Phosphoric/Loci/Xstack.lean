import Phosphoric.Lib.Machine
import Phosphoric.Loci.Served

/-!
# The xstack and its mirror

Pushes and pops of the 6502, API operations and everything else that reaches the LOCI leave it
stacked (`LociStacked`): the operations by `dispatchOp_served`, the rest because it stays away from
the xstack and its register.

**Theorem (`loci_stacked`).** Every state reached from `lociInit` is stacked.
-/

open Function (update update_of_ne)

namespace Phosphoric

variable {base loci : Loci}

/-! ## Accesses of the 6502 -/

theorem LociStacked.setReg (h : LociStacked loci) {r : Nat} (hr : r ≠ lociRegApiStack)
    (value : Byte) : LociStacked (loci.setReg r value) := by
  refine { h with top := ?_ }
  rw [Loci.setReg_regs, update_of_ne (Ne.symm hr)]
  exact h.top

theorem readXstack_served (h : LociServed base loci) : LociServed base (readXstack loci).2 := by
  simp only [readXstack]
  by_cases hempty : loci.xstackPtr ≥ lociXstackSize
  · rw [if_pos hempty]
    exact h.keeps.sync
  · rw [if_neg hempty]
    exact (h.keeps.pop (by omega)).sync

theorem writeXstack_served (h : LociServed base loci) (value : Byte) :
    LociServed base (writeXstack loci value) := by
  have hptr := h.ptr
  simp only [writeXstack]
  by_cases hroom : 0 < loci.xstackPtr
  · rw [if_pos hroom]
    have hmoved : LociKeeps base { loci with xstackPtr := loci.xstackPtr - 1 } :=
      { h.keeps with ptr := (Nat.sub_le _ _).trans hptr }
    have hdata : loci.xstackPtr - 1 + 1 ≤ lociXstackSize := by omega
    exact (hmoved.storeStack hdata).sync
  · rw [if_neg hroom]
    exact h.keeps.sync

theorem apiRequest_served (h : LociServed base loci) (op : Byte) (host : LociHost) :
    LociServed
      (if op = 0x00#8 ∨ op = 0xFF#8 then base
      else opBase base (apiInstallBlockedStub loci) op host)
      (apiRequest loci op host) := by
  simp only [apiRequest]
  by_cases hnone : op = 0x00#8
  · rw [if_pos hnone, if_pos (Or.inl hnone)]
    exact h.zero.ax 0
  rw [if_neg hnone]
  by_cases hexit : op = 0xFF#8
  · rw [if_pos hexit, if_pos (Or.inr hexit)]
    exact h.blocked
  · rw [if_neg hexit, if_neg (not_or.mpr ⟨hnone, hexit⟩)]
    exact dispatchOp_served h.blocked op host

/-! ## Windows and console -/

theorem windowAdvance_stacked (h : LociStacked loci) {w : LociWindow} (hw : w ∈ lociWindows) :
    LociStacked (windowAdvance loci w) := by
  have hother : w.rw ≠ lociRegApiStack ∧ w.addrLo ≠ lociRegApiStack ∧
      w.addrHi ≠ lociRegApiStack := by
    revert w
    decide
  exact ((h.setReg hother.2.1 _).setReg hother.2.2 _).setReg hother.1 _

theorem consLoad_stacked (h : LociStacked loci) {none' : Loci → Loci}
    (hnone : LociStacked (none' loci)) : LociStacked (consLoad loci none') := by
  simp only [consLoad]
  split
  next c rest _ =>
    have htaken : LociStacked { loci with consRx := rest } := ⟨h.ptr, h.inside, h.top⟩
    exact (htaken.setReg (by decide) c).setReg (by decide) _
  · exact hnone

theorem consReadFlags_stacked (h : LociStacked loci) : LociStacked (consReadFlags loci) := by
  refine LociStacked.setReg ?_ (by decide) _
  split
  · exact consLoad_stacked h h
  · exact h

theorem consReadChar_stacked (h : LociStacked loci) : LociStacked (consReadChar loci) :=
  consLoad_stacked h ((h.setReg (by decide) _).setReg (by decide) _)

/-! ## Register accesses -/

theorem lociReadReg_stacked (h : LociStacked loci) (off : Nat) (host : LociHost) :
    LociStacked (lociReadReg loci off host).2 := by
  simp only [lociReadReg]
  split
  · simp only [readUlaSnoop]
    split
    · exact h.setReg (by decide) _
    · exact h
  have hspun : LociStacked
      (if off = lociRegInject0 ∧ loci.resumePending = true then lociResumeAtSpin loci host
      else loci) := by
    split
    · exact (lociResumeAtSpin_served h.served host).stacked
    · exact h
  generalize (if off = lociRegInject0 ∧ loci.resumePending = true then lociResumeAtSpin loci host
    else loci) = spun at hspun ⊢
  split
  · exact consReadFlags_stacked hspun
  split
  · exact consReadChar_stacked hspun
  split
  · exact windowAdvance_stacked hspun (by decide)
  split
  · exact windowAdvance_stacked hspun (by decide)
  split
  · exact (readXstack_served hspun.served).stacked
  · exact hspun

theorem lociWriteReg_stacked (h : LociStacked loci) (off : Nat) (value : Byte) (host : LociHost) :
    LociStacked (lociWriteReg loci off value host) := by
  simp only [lociWriteReg]
  split
  · have hline : LociStacked (consTxByte loci value) := ⟨h.ptr, h.inside, h.top⟩
    exact (hline.setReg (by decide) _).setReg (by decide) _
  split
  · have hpattern : LociStacked { loci with ulaPattern := value } := ⟨h.ptr, h.inside, h.top⟩
    exact hpattern.setReg (by decide) _
  have hstored : ∀ xram, LociStacked (loci.withXram xram) := fun xram => ⟨h.ptr, h.inside, h.top⟩
  split
  · exact windowAdvance_stacked (hstored _) (by decide)
  split
  · exact windowAdvance_stacked (hstored _) (by decide)
  split
  next haddr =>
    exact (h.setReg (by rcases haddr with rfl | rfl <;> decide) _).setReg (by decide) _
  split
  next haddr =>
    exact (h.setReg (by rcases haddr with rfl | rfl <;> decide) _).setReg (by decide) _
  split
  · exact (writeXstack_served h.served value).stacked
  next hstack =>
  split
  next hop =>
    exact (apiRequest_served (h.setReg hstack value).served value host).stacked
  · exact h.setReg hstack value

/-! ## Runs -/

theorem seedInitialStub_stacked (h : LociStacked loci) : LociStacked (seedInitialStub loci) :=
  (h.served.storeRegs le_rfl _).stacked

theorem lociStep_stacked (h : LociStacked loci) (input : LociInput) :
    LociStacked (lociStep loci input) := by
  have hstored : ∀ xram, LociStacked (loci.withXram xram) := fun xram => ⟨h.ptr, h.inside, h.top⟩
  cases input with
  | read address host =>
    simp only [lociStep, lociRead]
    split
    · exact h
    split
    · exact h
    · exact lociReadReg_stacked h _ host
  | write address value host =>
    simp only [lociStep, lociWrite]
    split
    · exact h
    split
    · exact h
    · exact lociWriteReg_stacked h _ value host
  | kbdReport modifier keycodes =>
    simp only [lociStep, lociKbdSetReport]
    split
    · exact hstored _
    · exact h
  | mouReport buttons dx dy wheel pan =>
    simp only [lociStep, lociMouReport]
    split
    · exact hstored _
    · exact h
  | adjTick cycles =>
    simp only [lociStep, lociAdjTick]
    split
    · exact h
    split
    · split
      · exact ⟨h.ptr, h.inside, h.top⟩
      · exact ⟨h.ptr, h.inside, h.top⟩
    · split
      · exact ⟨h.ptr, h.inside, h.top⟩
      · exact ⟨h.ptr, h.inside, h.top⟩
  | consInject ch =>
    simp only [lociStep, lociConsInject]
    split
    · exact h
    · exact ⟨h.ptr, h.inside, h.top⟩
  | actionShort =>
    simp only [lociStep, lociActionButtonShort]
    split
    · exact h
    · have htrap : LociServed loci (storeRegs loci 0x1A lociActionTrap) :=
        h.served.storeRegs (by decide) lociActionTrap
      exact ⟨htrap.ptr, htrap.inside, htrap.top⟩
  | actionRelease =>
    simp only [lociStep, lociActionButtonRelease]
    split
    · exact ⟨h.ptr, h.inside, h.top⟩
    · exact h
  | disk op => exact ⟨h.ptr, h.inside, h.top⟩
  | tapeWrite address value stored =>
    simp only [lociStep]
    split
    · exact ⟨h.ptr, h.inside, h.top⟩
    · exact h
  | tapeMotor on stored =>
    simp only [lociStep]
    split
    · exact ⟨h.ptr, h.inside, h.top⟩
    · exact h
  | settle settings => exact ⟨h.ptr, h.inside, h.top⟩
  | reset nowUs =>
    simp only [lociStep, lociReset]
    split
    · exact h
    · exact seedInitialStub_stacked ⟨le_rfl, h.inside, rfl⟩

/-- The pointer never leaves the xstack, no push or pop does, and the register at $03AC is the byte
on top, 0 when there is none: in every state reached from `loci_init`. -/
theorem loci_stacked (heap : Heap Ptr Byte) (nowUs : Nat) (inputs : List LociInput) :
    LociStacked (inputs.foldl lociStep (lociInit heap nowUs)) := by
  have hinit : LociStacked (lociInit heap nowUs) := seedInitialStub_stacked ⟨le_rfl, rfl, rfl⟩
  induction inputs using List.reverseRecOn with
  | nil => exact hinit
  | append_singleton inputs input ih =>
    rw [List.foldl_append]
    exact lociStep_stacked ih input

end Phosphoric
