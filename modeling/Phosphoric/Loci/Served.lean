import Phosphoric.Loci.Bus

/-!
# What the LOCI's operations leave

The xstack pointer stays within the xstack, nothing outside it is accessed, and the register at
$03AC shows the byte on top (`LociStacked`).

**Relations** (`LociKeeps`, `LociServed`). An operation takes bytes off the xstack and returns.
Until it returns the register may lag behind; a return, a push or a clearing brings it up to date.
The relations also say that the windows' registers and the xram are those of another state, the
base. The base stays fixed along a chain of updates, so that one fact follows another.

**Operations** (`dispatchOp_served`). Every operation is served, also where it ends in an error.
The base is the state before, but for a read of a file into the xram, the sweep and the drawing
operations, which store in the xram (`opBase`).
-/

open Function (update update_of_ne update_self)

namespace Phosphoric

/-! ## Relations -/

/-- The data and address registers of the windows. -/
def lociWindowRegs : List Nat :=
  [lociRegRw0, lociRegAddr0Lo, lociRegAddr0Hi, lociRegRw1, lociRegAddr1Lo, lociRegAddr1Hi]

/-- The byte on top of the xstack. -/
def xstackTop (loci : Loci) : Byte :=
  if loci.xstackPtr ≥ lociXstackSize then 0#8 else loci.xstack loci.xstackPtr

structure LociStacked (loci : Loci) : Prop where
  ptr : loci.xstackPtr ≤ lociXstackSize
  inside : loci.xstackFault = false
  top : loci.regs lociRegApiStack = xstackTop loci

/-- In the middle of an operation. -/
structure LociKeeps (base loci : Loci) : Prop where
  windows : ∀ r ∈ lociWindowRegs, loci.regs r = base.regs r
  xram : loci.xram = base.xram
  ptr : loci.xstackPtr ≤ lociXstackSize
  inside : loci.xstackFault = false

/-- At its end. -/
structure LociServed (base loci : Loci) : Prop where
  windows : ∀ r ∈ lociWindowRegs, loci.regs r = base.regs r
  xram : loci.xram = base.xram
  ptr : loci.xstackPtr ≤ lociXstackSize
  inside : loci.xstackFault = false
  top : loci.regs lociRegApiStack = xstackTop loci

variable {base loci : Loci}

theorem LociStacked.served (h : LociStacked loci) : LociServed loci loci :=
  ⟨fun _ _ => rfl, rfl, h.ptr, h.inside, h.top⟩

theorem LociServed.stacked (h : LociServed base loci) : LociStacked loci := ⟨h.ptr, h.inside, h.top⟩

theorem LociServed.keeps (h : LociServed base loci) : LociKeeps base loci :=
  ⟨h.windows, h.xram, h.ptr, h.inside⟩

def Loci.withXram (loci : Loci) (xram : Nat → Byte) : Loci := { loci with xram := xram }

/-- The xram changes on both sides. -/
theorem LociServed.withXram (h : LociServed base loci) (xram : Nat → Byte) :
    LociServed (base.withXram xram) (loci.withXram xram) :=
  ⟨h.windows, rfl, h.ptr, h.inside, h.top⟩

/-! ## Registers -/

theorem Loci.setReg_regs (loci : Loci) (r : Nat) (value : Byte) :
    (loci.setReg r value).regs = update loci.regs r value := rfl

theorem LociKeeps.setReg (h : LociKeeps base loci) {r : Nat} (hr : r ∉ lociWindowRegs)
    (value : Byte) : LociKeeps base (loci.setReg r value) := by
  refine { h with windows := fun q hq => ?_ }
  have hne : q ≠ r := fun heq => hr (heq ▸ hq)
  rw [Loci.setReg_regs, update_of_ne hne]
  exact h.windows q hq

/-- The registers an operation returns in. -/
def isPlainReg (r : Nat) : Bool := !(lociWindowRegs.contains r) && r != lociRegApiStack

theorem LociServed.setReg (h : LociServed base loci) {r : Nat} (hr : isPlainReg r = true)
    (value : Byte) : LociServed base (loci.setReg r value) := by
  simp only [isPlainReg, Bool.and_eq_true, Bool.not_eq_true', List.contains_eq_mem,
    decide_eq_false_iff_not, bne_iff_ne] at hr
  have hkeeps := h.keeps.setReg hr.1 value
  refine { hkeeps with top := ?_ }
  rw [Loci.setReg_regs, update_of_ne (Ne.symm hr.2)]
  exact h.top

theorem lt_inject0_of_not_plain {r : Nat} (hr : isPlainReg r = false) : r < lociRegInject0 := by
  have hall : ∀ q ∈ lociRegApiStack :: lociWindowRegs, q < lociRegInject0 := by decide
  refine hall r ?_
  by_contra hmem
  simp only [List.mem_cons, not_or] at hmem
  simp [isPlainReg, hmem.1, hmem.2] at hr

/-- The spin stub and what is above it. -/
theorem LociServed.storeRegs (h : LociServed base loci) {off : Nat} (hoff : lociRegInject0 ≤ off)
    (data : List Byte) : LociServed base (storeRegs loci off data) := by
  have hold : ∀ r, isPlainReg r = false →
      (Phosphoric.storeRegs loci off data).regs r = loci.regs r := by
    intro r hr
    have hlt := lt_inject0_of_not_plain hr
    exact if_neg (by omega)
  refine { h with windows := fun r hr => ?_, top := ?_ }
  · rw [hold r (by simp [isPlainReg, hr])]
    exact h.windows r hr
  · rw [hold lociRegApiStack (by decide)]
    exact h.top

/-! ## The xstack -/

theorem Loci.checked_of_le {off n : Nat} (hn : off + n ≤ lociXstackSize) :
    loci.checked off n = loci := if_pos hn

/-- The register takes the byte on top; the read stays inside. -/
theorem xstackSync_eq (loci : Loci) :
    xstackSync loci = loci.setReg lociRegApiStack (xstackTop loci) := by
  simp only [xstackSync, xstackTop]
  by_cases hempty : loci.xstackPtr ≥ lociXstackSize
  · rw [if_pos hempty, if_pos hempty]
  · rw [if_neg hempty, if_neg hempty, Loci.checked_of_le (by omega)]

theorem LociKeeps.sync (h : LociKeeps base loci) : LociServed base (xstackSync loci) := by
  rw [xstackSync_eq]
  refine { h.setReg (r := lociRegApiStack) (by decide) (xstackTop loci) with top := ?_ }
  rw [Loci.setReg_regs, update_self]
  rfl

theorem LociKeeps.zero (h : LociKeeps base loci) : LociServed base (xstackZero loci) :=
  LociKeeps.sync { h with ptr := le_rfl }

theorem LociServed.zero (h : LociServed base loci) : LociServed base (xstackZero loci) :=
  h.keeps.zero

theorem LociKeeps.storeStack (h : LociKeeps base loci) {off : Nat} {data : List Byte}
    (hdata : off + data.length ≤ lociXstackSize) : LociKeeps base (loci.storeStack off data) := by
  simp only [Loci.storeStack, Loci.checked_of_le hdata]
  exact { h with }

theorem LociServed.pushN (h : LociServed base loci) (data : List Byte) :
    LociServed base (xstackPushN loci data).2 := by
  simp only [xstackPushN]
  by_cases hfull : data.length > loci.xstackPtr
  · rw [if_pos hfull]
    exact h
  · rw [if_neg hfull]
    have hptr := h.ptr
    have hpushed : LociKeeps base { loci with xstackPtr := loci.xstackPtr - data.length } :=
      { h.keeps with ptr := (Nat.sub_le _ _).trans hptr }
    have hdata : loci.xstackPtr - data.length + data.length ≤ lociXstackSize := by omega
    exact (hpushed.storeStack hdata).sync

theorem LociKeeps.put (h : LociKeeps base loci) {data : List Byte}
    (hdata : data.length ≤ lociXstackSize) : LociServed base (xstackPut loci data) := by
  have hput : LociKeeps base { loci with xstackPtr := lociXstackSize - data.length } :=
    { h with ptr := Nat.sub_le _ _ }
  exact (hput.storeStack (Nat.sub_add_cancel hdata).le).sync

theorem LociKeeps.pop (h : LociKeeps base loci) {n : Nat}
    (hn : loci.xstackPtr + n ≤ lociXstackSize) : LociKeeps base (loci.popBytes n).2 := by
  simp only [Loci.popBytes, Loci.checked_of_le hn]
  exact { h with ptr := hn }

/-! ## Returns -/

theorem LociServed.blocked (h : LociServed base loci) :
    LociServed base (apiInstallBlockedStub loci) :=
  (((h.setReg (by decide) _).setReg (by decide) _).setReg (by decide) _).setReg (by decide) _

theorem LociServed.released (h : LociServed base loci) :
    LociServed base (apiInstallReleasedStub loci) :=
  (((h.setReg (by decide) _).setReg (by decide) _).setReg (by decide) _).setReg (by decide) _

theorem LociServed.setAx (h : LociServed base loci) (val : Word) :
    LociServed base (apiSetAx loci val) :=
  (((h.setReg (by decide) _).setReg (by decide) _).setReg (by decide) _).setReg (by decide) _

theorem LociServed.busy (h : LociServed base loci) (busy : Bool) :
    LociServed base (setBusy loci busy) :=
  h.setReg (by decide) _

theorem LociServed.ax (h : LociServed base loci) (val : Word) :
    LociServed base (apiReturnAx loci val) :=
  (h.setAx val).released.busy false

theorem LociServed.axsreg (h : LociServed base loci) (val : BitVec 32) :
    LociServed base (apiReturnAxsreg loci val) :=
  (((h.setAx _).setReg (by decide) _).setReg (by decide) _).released.busy false

theorem LociKeeps.errno (h : LociKeeps base loci) (e : Word) :
    LociServed base (apiReturnErrno loci e) :=
  ((h.zero.setReg (by decide) _).setReg (by decide) _).axsreg _

theorem LociServed.errno (h : LociServed base loci) (e : Word) :
    LociServed base (apiReturnErrno loci e) :=
  h.keeps.errno e

theorem LociServed.axOr (h : LociServed base loci) (err : Option Word) :
    LociServed base (apiReturnOr loci err) := by
  cases err with
  | some e => exact h.errno e
  | none => exact h.ax 0

/-! ## System, clock and tuning -/

theorem opPixXreg_served (h : LociServed base loci) : LociServed base (opPixXreg loci) := by
  simp only [opPixXreg]
  by_cases hshort : lociXstackSize - loci.xstackPtr < 5
  · rw [if_pos hshort]
    exact h.errno _
  rw [if_neg hshort]
  by_cases hdevice : loci.xstack (lociXstackSize - 1) ≠ 0#8
  · rw [if_pos hdevice]
    exact h.zero.errno _
  rw [if_neg hdevice]
  refine LociServed.ax (LociKeeps.zero ?_) 0
  split_ifs
  · exact { h with }
  · exact { h with }
  · exact { h with }
  · exact h.keeps

theorem clkReturn_served (h : LociServed base loci) (sec : BitVec 32) :
    LociServed base (clkReturn loci sec) := by
  have hnsec : LociServed base (xstackPushU32 loci 0).2 := h.pushN _
  have hpushed : LociServed base (xstackPushU32 (xstackPushU32 loci 0).2 sec).2 := hnsec.pushN _
  simp only [clkReturn]
  split_ifs
  · exact h.errno _
  · exact hnsec.errno _
  · exact hpushed.errno _
  · exact hpushed.ax 0

theorem opClkSettime_served (h : LociServed base loci) : LociServed base (opClkSettime loci) := by
  simp only [opClkSettime]
  split_ifs with _ hfull
  · exact h.errno _
  · exact h.errno _
  · refine LociServed.ax (LociKeeps.sync ?_) 0
    exact { h.keeps with ptr := Nat.le_of_not_lt hfull }

theorem opMapTuneStore_served {field : Loci → Byte} {store : Loci → Byte → Loci}
    (hstore : ∀ a, LociServed base (store loci a)) (h : LociServed base loci) :
    LociServed base (opMapTuneStore loci field store) := by
  simp only [opMapTuneStore]
  split_ifs
  · exact (hstore _).zero.ax _
  · exact h.zero.ax _

theorem opAdjScan_served (h : LociServed base loci) :
    LociServed (base.withXram (update loci.xram adjAddress (adjScanByte loci)))
      (opAdjScan loci) := by
  simp only [opAdjScan, Loci.storeAdj]
  refine LociServed.ax (LociKeeps.zero ?_) 0
  split_ifs
  · exact ⟨h.windows, rfl, h.ptr, h.inside⟩
  · exact ⟨h.windows, rfl, h.ptr, h.inside⟩

/-! ## Paths -/

theorem popZstringKeep_keeps (h : LociKeeps base loci) (outsize : Nat) :
    LociKeeps base (popZstringKeep loci outsize).2 := by
  simp only [popZstringKeep]
  by_cases hempty : loci.xstackPtr ≥ lociXstackSize
  · rw [if_pos hempty]
    exact h
  · rw [if_neg hempty]
    have hscan : (loci.stackBytes loci.xstackPtr
        (min (lociXstackSize - loci.xstackPtr) (outsize - 1))).length ≤
          lociXstackSize - loci.xstackPtr := by
      simp [Loci.stackBytes]
    have hptr := h.ptr
    exact h.pop (by omega)

theorem popZstring_served (h : LociServed base loci) (outsize : Nat) :
    LociServed base (popZstring loci outsize).2 :=
  (popZstringKeep_keeps h.keeps outsize).zero

/-! ## Files -/

theorem fdReturn_served (h : LociServed base loci) (slot : Nat) :
    LociServed base (fdReturn loci slot) := by
  refine LociServed.ax ?_ _
  exact { h with }

theorem opOpenSdimg_served (h : LociServed base loci) (host : LociHost) :
    LociServed base (opOpenSdimg loci host) := by
  have hpopped := popZstring_served h 260
  simp only [opOpenSdimg]
  split
  · exact hpopped.errno _
  split
  · exact hpopped.errno _
  · exact fdReturn_served hpopped _

theorem opOpen_served (h : LociServed base loci) (host : LociHost) :
    LociServed base (opOpen loci host) := by
  have hpopped := popZstring_served h 260
  simp only [opOpen]
  split
  · exact opOpenSdimg_served h host
  split
  · exact hpopped.errno _
  split
  · exact hpopped.errno _
  split
  · exact hpopped.errno _
  split
  · exact hpopped.errno _
  split
  · exact hpopped.errno _
  · exact fdReturn_served hpopped _

theorem opClose_served (h : LociServed base loci) (host : LociHost) :
    LociServed base (opClose loci host) := by
  simp only [opClose]
  split
  · exact h.errno _
  · refine LociServed.axOr ?_ _
    exact { h with }

theorem fileRead_length (loci : Loci) (host : LociHost) (slot count : Nat) :
    (fileRead loci host slot count).1.length ≤ count := by
  simp only [fileRead]
  split
  · exact List.length_take_le _ _
  · exact List.length_take_le _ _

theorem opReadXstack_served (h : LociServed base loci) (host : LociHost) :
    LociServed base (opReadXstack loci host) := by
  simp only [opReadXstack]
  split
  · exact h.errno _
  next hfull =>
  have hpopped := h.keeps.pop (Nat.le_of_not_lt hfull)
  split
  · exact hpopped.errno _
  next hcount =>
  split
  · exact hpopped.errno _
  next slot _ =>
  have hlength := fileRead_length (loci.popBytes 2).2 host slot
    (wordAt (loci.popBytes 2).1 0).toNat
  split
  · exact hpopped.errno _
  next data hread =>
  simp only [hread] at hlength
  refine LociServed.ax ?_ _
  split
  · exact hpopped.zero.keeps.put (by omega)
  · exact hpopped.zero

theorem opWriteXstack_served (h : LociServed base loci) (host : LociHost) :
    LociServed base (opWriteXstack loci host) := by
  have hwhole : loci.xstackPtr + (lociXstackSize - loci.xstackPtr) ≤ lociXstackSize :=
    (Nat.add_sub_cancel' h.ptr).le
  simp only [opWriteXstack, Loci.checked_of_le hwhole]
  split
  · exact h.zero.ax 0
  split
  · exact h.errno _
  split
  · exact h.zero.errno _
  · exact h.zero.ax _

/-- With too many bytes on the xstack the register lags behind. -/
theorem popLseekArgs_keeps (h : LociKeeps base loci) :
    LociKeeps base (popLseekArgs loci).2 ∧
      ((popLseekArgs loci).1.isSome → LociServed base (popLseekArgs loci).2) := by
  simp only [popLseekArgs]
  by_cases hempty : loci.xstackPtr ≥ lociXstackSize
  · rw [if_pos hempty]
    exact ⟨h, fun hargs => nomatch hargs⟩
  rw [if_neg hempty]
  have hwhence := h.pop (n := 1) (by omega)
  by_cases hlong : lociXstackSize - (loci.popBytes 1).2.xstackPtr > 4
  · rw [if_pos hlong]
    exact ⟨hwhence, fun hargs => nomatch hargs⟩
  · rw [if_neg hlong]
    have hoffset := (hwhence.pop (Nat.add_sub_cancel' hwhence.ptr).le).zero
    exact ⟨hoffset.keeps, fun _ => hoffset⟩

theorem opLseek_served (h : LociServed base loci) (host : LociHost) :
    LociServed base (opLseek loci host) := by
  obtain ⟨hpopped, hserved⟩ := popLseekArgs_keeps h.keeps
  simp only [opLseek]
  split
  · exact hpopped.errno _
  next offset whence hargs =>
  split
  · exact hpopped.errno _
  split
  · exact hpopped.errno _
  split
  · exact hpopped.errno _
  · exact (hserved (by rw [hargs]; rfl)).axsreg _

theorem pathOp_served (h : LociServed base loci) (sd hostOp : List Byte → Option HostErrno) :
    LociServed base (pathOp loci sd hostOp) := by
  have hpopped := popZstring_served h 260
  simp only [pathOp]
  split
  · exact hpopped.errno _
  split
  · exact hpopped.axOr _
  split
  · exact hpopped.errno _
  · exact hpopped.axOr _

theorem opRename_served (h : LociServed base loci) (host : LociHost) :
    LociServed base (opRename loci host) := by
  have hpopped := (popZstringKeep_keeps (popZstringKeep_keeps h.keeps 260) 260).zero
  simp only [opRename]
  split
  · split
    · exact hpopped.axOr _
    split
    · exact hpopped.axOr _
    · exact hpopped.errno _
  · exact hpopped.errno _

/-! ## Directories, mounts and the tape -/

theorem dirent_length (fd : Byte) (name : List Byte) (attrib : Byte) (size : BitVec 32) :
    (dirent fd name attrib size).length = lociDirentSize := by
  have hname : (name.take (lociDirNameLen - 1)).length ≤ lociDirNameLen - 1 :=
    List.length_take_le _ _
  simp only [dirent, le32, Binary.bytesLe, List.length_append, List.length_cons, List.length_nil,
    List.length_replicate, lociDirNameLen, lociDirentSize] at hname ⊢
  omega

theorem direntReturn_served (h : LociKeeps base loci) (fd : Byte) (name : List Byte) (attrib : Byte)
    (size : BitVec 32) : LociServed base (direntReturn loci (dirent fd name attrib size)) :=
  (h.zero.keeps.put (by rw [dirent_length]; decide)).ax 0

theorem dirReturn_served (h : LociServed base loci) (slot : Nat) :
    LociServed base (dirReturn loci slot) := by
  refine LociServed.ax ?_ _
  exact { h with }

theorem opOpendir_served (h : LociServed base loci) (host : LociHost) :
    LociServed base (opOpendir loci host) := by
  have hpopped := popZstring_served h 260
  simp only [opOpendir, opOpendirSdimg]
  split
  · split
    · exact hpopped.errno _
    · refine LociServed.ax ?_ 0
      exact { hpopped with }
  split
  · refine LociServed.ax ?_ _
    exact { hpopped with }
  split
  · split
    · exact hpopped.errno _
    · exact dirReturn_served hpopped _
  split
  · exact hpopped.errno _
  split
  · exact hpopped.errno _
  split
  · exact hpopped.errno _
  · exact dirReturn_served hpopped _

theorem opClosedir_served (h : LociServed base loci) (host : LociHost) :
    LociServed base (opClosedir loci host) := by
  simp only [opClosedir]
  split
  · refine LociServed.ax ?_ 0
    exact { h with }
  split
  · refine LociServed.ax ?_ 0
    exact { h with }
  split
  · exact h.errno _
  · refine LociServed.axOr ?_ _
    exact { h with }

theorem opReaddirSlot_served (h : LociServed base loci) (host : LociHost) (fd : Byte) :
    LociServed base (opReaddirSlot loci host fd) := by
  simp only [opReaddirSlot]
  split
  · exact h.errno _
  split
  · exact h.errno _
  next entry _ =>
  cases entry with
  | none => exact direntReturn_served h.keeps _ _ _ _
  | some entry => exact direntReturn_served h.keeps _ _ _ _

theorem opReaddir_served (h : LociServed base loci) (host : LociHost) :
    LociServed base (opReaddir loci host) := by
  simp only [opReaddir, opReaddirWeb, opReaddirDev]
  split
  · split
    · refine direntReturn_served ?_ _ _ _ _
      exact { h.keeps with }
    · exact direntReturn_served h.keeps _ _ _ _
  split
  · exact opReaddirSlot_served h host _
  split
  · refine direntReturn_served ?_ _ _ _ _
    exact { h.keeps with }
  · exact opReaddirSlot_served h host _

theorem xstackPushEach_served (h : LociServed base loci) (data : List Byte) :
    LociServed base (xstackPushEach loci data).2 := by
  induction data generalizing loci with
  | nil => exact h
  | cons c rest ih =>
    simp only [xstackPushEach]
    split
    · exact ih (h.pushN _)
    · exact h.pushN _

theorem opGetcwd_served (h : LociServed base loci) : LociServed base (opGetcwd loci) := by
  simp only [opGetcwd]
  split
  · exact h.errno _
  next drive _ =>
  have hpushed := xstackPushEach_served h.zero
    (0#8 :: ((directoryOf (loci.mntPaths drive)).take 255).reverse)
  split
  · exact h.errno _
  split
  · exact hpushed.errno _
  · exact hpushed.ax _

theorem mountReturn_served (h : LociServed base loci) (drive : Nat) (path : List Byte) :
    LociServed base (mountReturn loci drive path) := by
  refine LociServed.ax ?_ 0
  exact { h with }

theorem mountWeb_served (h : LociServed base loci) (host : LociHost) (drive : Byte)
    (url : List Byte) : LociServed base (mountWeb loci host drive url) := by
  have hopened : LociServed base
      { loci with dsk := (lociDskOpenWeb loci.dsk drive host.dskWeb).2 } := { h with }
  simp only [mountWeb]
  split
  · exact mountReturn_served hopened _ _
  · exact hopened.errno _

theorem mountHost_served (h : LociServed base loci) (host : LociHost) (drive : Byte)
    (path : List Byte) : LociServed base (mountHost loci host drive path) := by
  simp only [mountHost]
  split
  · exact h.errno _
  next hostPath _ =>
  have htape : LociServed base
      { loci with tap := (lociTapOpen loci.tap (host.tape hostPath)).2 } := { h with }
  have hdisk : LociServed base { loci with dsk := (lociDskOpen loci.dsk drive host.dsk).2 } :=
    { h with }
  split
  · split
    · exact mountReturn_served htape _ _
    · exact htape.errno _
  split
  · split
    · exact mountReturn_served hdisk _ _
    · exact hdisk.errno _
  · exact mountReturn_served h _ _

theorem opMount_served (h : LociServed base loci) (host : LociHost) :
    LociServed base (opMount loci host) := by
  have hpopped := popZstring_served h 256
  simp only [opMount]
  split
  · exact hpopped.errno _
  split
  · exact hpopped.errno _
  split
  · split
    · exact hpopped.errno _
    · exact mountWeb_served hpopped host _ _
  split
  · split
    · exact hpopped.errno _
    · exact mountWeb_served hpopped host _ _
  · exact mountHost_served hpopped host _ _

theorem opUmount_served (h : LociServed base loci) : LociServed base (opUmount loci) := by
  simp only [opUmount]
  split
  · refine LociServed.ax ?_ 0
    split_ifs
    · exact { h with }
    · exact { h with }
    · exact { h with }
    · exact { h with }
  · exact h.ax 0

theorem xstackPushFields_served (h : LociServed base loci) (fields : List (List Byte)) :
    LociServed base (xstackPushFields loci fields).2 := by
  induction fields generalizing loci with
  | nil => exact h
  | cons field rest ih =>
    simp only [xstackPushFields]
    split
    · exact ih (h.pushN _)
    · exact h.pushN _

theorem opUname_served (h : LociServed base loci) : LociServed base (opUname loci) := by
  have hpushed := xstackPushFields_served h.zero unameFields
  simp only [opUname]
  split
  · exact hpushed.errno _
  · exact hpushed.ax _

theorem opTapSeek_served (h : LociServed base loci) (host : LociHost) :
    LociServed base (opTapSeek loci host) := by
  simp only [opTapSeek]
  split
  · exact h.errno _
  split
  · exact h.errno _
  · refine LociServed.axsreg ?_ _
    exact { h with }

theorem tapHeaderAt_length {tap : LociTape} {file header : List Byte} {syncEnd : Nat}
    (hheader : tapHeaderAt tap file = some (syncEnd, header)) :
    header.length = lociTapHeaderSize := by
  simp only [tapHeaderAt] at hheader
  split at hheader
  · exact nomatch hheader
  next rest _ =>
  split at hheader
  · exact nomatch hheader
  next hlength =>
  have hlength' : (rest.take lociTapHeaderSize).length = lociTapHeaderSize := not_not.mp hlength
  obtain ⟨rfl, rfl⟩ := Prod.mk.inj (Option.some.inj hheader)
  rw [List.length_append, List.length_map, ← List.length_append, List.take_append_drop, hlength']

theorem opTapReadHeader_served (h : LociServed base loci) :
    LociServed base (opTapReadHeader loci) := by
  simp only [opTapReadHeader]
  split
  · exact h.errno _
  split
  · exact h.errno _
  split
  · exact h.errno _
  next header hheader =>
  have hlength := tapHeaderAt_length hheader
  refine LociServed.axsreg (LociKeeps.put (LociKeeps.zero ?_).keeps (by rw [hlength]; decide)) _
  exact { h.keeps with }

/-! ## The boot -/

theorem opMiaBoot_served (h : LociServed base loci) (host : LociHost) :
    LociServed base (opMiaBoot loci host) := by
  have hsettings : LociServed base { loci with bootSettings := loci.regs lociRegApiA } :=
    { h with }
  simp only [opMiaBoot]
  split
  · refine LociServed.busy (LociServed.blocked ?_) true
    exact { h with }
  split
  · exact hsettings.ax 0
  split
  · exact hsettings.errno _
  split
  · exact hsettings.errno _
  · exact hsettings.ax 0

theorem lociResumeAtSpin_served (h : LociServed base loci) (host : LociHost) :
    LociServed base (lociResumeAtSpin loci host) := by
  have hresumed : LociServed base { loci with resumePending := false } := { h with }
  simp only [lociResumeAtSpin]
  split
  · exact hresumed.errno _
  · exact (hresumed.storeRegs le_rfl resumeStub).busy false

/-! ## Stores in the xram -/

/-- What a drawing operation with `n` bytes of parameters draws. -/
def gfxDrawn (loci : Loci) (n : Nat) (parse : LociGfx → List Byte → Option GfxDraw) :
    Option GfxDraw :=
  if loci.xstackPtr + n > lociXstackSize then none
  else parse loci.gfx (loci.stackBytes loci.xstackPtr n)

/-- What a request to the graphics assist draws. -/
def gfxDrawOf (loci : Loci) : Option GfxDraw :=
  let a := loci.regs lociRegApiA
  if a ≠ gfxInit ∧ !loci.gfx.ready then none
  else if a = gfxInit then none
  else if a = gfxResetDirty then none
  else if a = gfxClear then gfxDrawn loci 1 clearArgs
  else if a = gfxBlitRect then gfxDrawn loci 6 blitArgs
  else if a = gfxComposeRect then gfxDrawn loci 9 composeArgs
  else none

/-- The base after a drawing. -/
def gfxDrawBase (base loci : Loci) : Option GfxDraw → Loci
  | none => base
  | some draw => base.withXram (draw.mem loci.gfx loci.xram)

/-- The xstack is empty. -/
def Loci.emptied (loci : Loci) : Loci :=
  { loci with xstackPtr := lociXstackSize, regs := update loci.regs lociRegApiStack 0#8 }

theorem LociKeeps.emptied (h : LociKeeps base loci) : LociServed base loci.emptied := by
  have hzero := h.zero
  rwa [xstackZero, xstackSync_eq] at hzero

theorem xstackZero_popBytes {n : Nat} (hn : loci.xstackPtr + n ≤ lociXstackSize) :
    xstackZero (loci.popBytes n).2 = loci.emptied := by
  simp only [Loci.popBytes, Loci.checked_of_le hn, xstackZero, xstackSync_eq]
  rfl

def lociWindows : List LociWindow := [lociWindow0, lociWindow1]

theorem lociWindows_regs : ∀ w ∈ lociWindows,
    w.rw ∈ lociWindowRegs ∧ w.addrLo ∈ lociWindowRegs ∧ w.addrHi ∈ lociWindowRegs ∧
      w.rw ≠ lociRegApiStack := by decide

theorem LociKeeps.getAddr (h : LociKeeps base loci) {w : LociWindow} (hw : w ∈ lociWindows) :
    getAddr loci w = getAddr base w := by
  obtain ⟨-, hlo, hhi, -⟩ := lociWindows_regs w hw
  rw [Phosphoric.getAddr, Phosphoric.getAddr, h.windows _ hlo, h.windows _ hhi]

theorem LociServed.refreshRw (h : LociServed base loci) {w : LociWindow} (hw : w ∈ lociWindows) :
    LociServed (refreshRw base w) (refreshRw loci w) := by
  obtain ⟨-, -, -, hstack⟩ := lociWindows_regs w hw
  refine ⟨fun r hr => ?_, h.xram, h.ptr, h.inside, ?_⟩
  · simp only [Phosphoric.refreshRw, Loci.setReg_regs, h.xram, h.keeps.getAddr hw]
    by_cases heq : r = w.rw
    · rw [heq, update_self, update_self]
    · rw [update_of_ne heq, update_of_ne heq]
      exact h.windows r hr
  · rw [Phosphoric.refreshRw, Loci.setReg_regs, update_of_ne (Ne.symm hstack)]
    exact h.top

/-- The arguments of an access to the xram, and the slot; `none` ends in an error. -/
def xramArgsOf (loci : Loci) : Option (Nat × Nat × Nat) :=
  let args := loci.stackBytes loci.xstackPtr 4
  let count := (wordAt args 0).toNat
  let addr := (wordAt args 2).toNat
  if loci.xstackPtr + 4 > lociXstackSize ∨ addr + count > lociXramSize then none
  else (fdSlot loci (loci.regs lociRegApiA)).map fun slot => (slot, addr, count)

theorem withXramArgs_served (h : LociServed base loci) {k : Loci → Nat → Nat → Nat → Loci}
    (after : Option (Nat × Nat × Nat) → Loci) (hnone : after none = base)
    (hk : ∀ slot addr count, xramArgsOf loci = some (slot, addr, count) →
      LociServed (after (some (slot, addr, count))) (k loci.emptied slot addr count)) :
    LociServed (after (xramArgsOf loci)) (withXramArgs loci k) := by
  have hserved := h.keeps.emptied
  have hargs : xramArgsOf loci =
    if loci.xstackPtr + 4 > lociXstackSize ∨
      (wordAt (loci.stackBytes loci.xstackPtr 4) 2).toNat +
        (wordAt (loci.stackBytes loci.xstackPtr 4) 0).toNat > lociXramSize then none
    else (fdSlot loci (loci.regs lociRegApiA)).map fun slot =>
      (slot, (wordAt (loci.stackBytes loci.xstackPtr 4) 2).toNat,
        (wordAt (loci.stackBytes loci.xstackPtr 4) 0).toNat) := rfl
  simp only [withXramArgs]
  generalize (wordAt (loci.stackBytes loci.xstackPtr 4) 0).toNat = count at hargs ⊢
  generalize (wordAt (loci.stackBytes loci.xstackPtr 4) 2).toNat = addr at hargs ⊢
  by_cases hfull : loci.xstackPtr + 4 > lociXstackSize
  · rw [if_pos (Or.inl hfull)] at hargs
    rw [if_pos hfull, hargs, hnone]
    exact h.errno _
  rw [if_neg hfull, xstackZero_popBytes (Nat.le_of_not_lt hfull)]
  by_cases hrange : addr + count > lociXramSize
  · rw [if_pos (Or.inr hrange)] at hargs
    rw [if_pos hrange, hargs, hnone]
    exact hserved.errno _
  rw [if_neg (not_or.mpr ⟨hfull, hrange⟩)] at hargs
  rw [if_neg hrange]
  -- the descriptor is still there when the arguments are gone
  have hslot : fdSlot loci.emptied (loci.emptied.regs lociRegApiA) =
    fdSlot loci (loci.regs lociRegApiA) := rfl
  rw [hslot]
  cases hfd : fdSlot loci (loci.regs lociRegApiA) with
  | none =>
    rw [hfd] at hargs
    rw [hargs]
    exact hnone ▸ hserved.errno _
  | some slot =>
    rw [hfd] at hargs
    rw [hargs]
    exact hk slot addr count hargs

/-- The base after a read into the xram; what came before an error of the SD image is stored. -/
def xramReadBase (base loci : Loci) (host : LociHost) : Option (Nat × Nat × Nat) → Loci
  | none => base
  | some (slot, addr, count) =>
    let read := fileRead loci host slot count
    let stored := base.withXram (storeXram loci.xram addr read.1)
    if read.2.isSome then stored else refreshBoth stored

theorem opReadXram_served (h : LociServed base loci) (host : LociHost) :
    LociServed (xramReadBase base loci host (xramArgsOf loci)) (opReadXram loci host) := by
  refine withXramArgs_served h (xramReadBase base loci host) rfl fun slot addr count _ => ?_
  -- what the file gives does not depend on the xstack
  have hread : fileRead loci.emptied host slot count = fileRead loci host slot count := rfl
  simp only [xramReadBase]
  rw [hread]
  obtain ⟨data, err⟩ := fileRead loci host slot count
  have hstored := h.keeps.emptied.withXram (storeXram loci.xram addr data)
  cases err with
  | some e => exact hstored.errno _
  | none =>
    have hrefreshed := (hstored.refreshRw (w := lociWindow0) (by decide)).refreshRw
      (w := lociWindow1) (by decide)
    exact hrefreshed.axsreg _

theorem opWriteXram_served (h : LociServed base loci) (host : LociHost) :
    LociServed base (opWriteXram loci host) := by
  refine withXramArgs_served h (fun _ => base) rfl fun slot addr count _ => ?_
  have hserved := h.keeps.emptied
  split
  · exact hserved.errno _
  · exact hserved.axsreg _

theorem withGfxArgs_eq (n : Nat) (k : List Byte → Loci → Loci) :
    withGfxArgs loci n k =
      if loci.xstackPtr + n > lociXstackSize then apiReturnErrno loci lociEinval
      else k (loci.stackBytes loci.xstackPtr n) loci.emptied := by
  simp only [withGfxArgs]
  by_cases hfull : loci.xstackPtr + n > lociXstackSize
  · rw [if_pos hfull, if_pos hfull]
  · rw [if_neg hfull, if_neg hfull, xstackZero_popBytes (Nat.le_of_not_lt hfull)]
    rfl

theorem opGfxInit_served (h : LociServed base loci) : LociServed base (opGfxInit loci) := by
  have hserved := h.keeps.emptied
  simp only [opGfxInit, withGfxArgs_eq]
  split
  · exact h.errno _
  split
  · exact hserved.errno _
  · refine LociServed.ax ?_ 0
    exact { hserved with }

theorem opGfxResetDirty_served (h : LociServed base loci) :
    LociServed base (opGfxResetDirty loci) := by
  refine LociServed.ax (LociKeeps.zero ?_) 0
  exact { h.keeps with }

theorem opGfxDraw_served (h : LociServed base loci) (n : Nat)
    (parse : LociGfx → List Byte → Option GfxDraw) :
    LociServed (gfxDrawBase base loci (gfxDrawn loci n parse)) (opGfxDraw loci n parse) := by
  have hserved := h.keeps.emptied
  simp only [opGfxDraw, withGfxArgs_eq, gfxDrawn]
  by_cases hfull : loci.xstackPtr + n > lociXstackSize
  · rw [if_pos hfull, if_pos hfull]
    exact h.errno _
  rw [if_neg hfull, if_neg hfull]
  change LociServed _ (match parse loci.gfx (loci.stackBytes loci.xstackPtr n) with
    | none => _
    | some draw => _)
  cases parse loci.gfx (loci.stackBytes loci.xstackPtr n) with
  | none => exact hserved.errno _
  | some draw =>
    refine LociServed.ax ?_ 0
    exact { hserved.withXram (draw.mem loci.gfx loci.xram) with }

theorem opGfxCollide_served (h : LociServed base loci) : LociServed base (opGfxCollide loci) := by
  simp only [opGfxCollide, withGfxArgs_eq]
  split
  · exact h.errno _
  · exact h.keeps.emptied.ax _

theorem pushSpans_served (h : LociServed base loci) (spans : List GfxSpan) :
    LociServed base (spans.foldr pushSpan loci) := by
  induction spans with
  | nil => exact h
  | cons span spans ih => exact (ih.pushN _).pushN _

theorem opGfxGetDirty_served (h : LociServed base loci) :
    LociServed base (opGfxGetDirty loci) := by
  simp only [opGfxGetDirty, Loci.cleanGfx]
  refine LociServed.ax ?_ 0
  exact { (pushSpans_served h.zero _).pushN _ with }

theorem opGfx_served (h : LociServed base loci) :
    LociServed (gfxDrawBase base loci (gfxDrawOf loci)) (opGfx loci) := by
  simp only [opGfx, gfxDrawOf]
  by_cases hready : loci.regs lociRegApiA ≠ gfxInit ∧ (!loci.gfx.ready) = true
  · rw [if_pos hready, if_pos hready]
    exact h.errno _
  rw [if_neg hready, if_neg hready]
  by_cases hinit : loci.regs lociRegApiA = gfxInit
  · rw [if_pos hinit, if_pos hinit]
    exact opGfxInit_served h
  rw [if_neg hinit, if_neg hinit]
  by_cases hreset : loci.regs lociRegApiA = gfxResetDirty
  · rw [if_pos hreset, if_pos hreset]
    exact opGfxResetDirty_served h
  rw [if_neg hreset, if_neg hreset]
  by_cases hclear : loci.regs lociRegApiA = gfxClear
  · rw [if_pos hclear, if_pos hclear]
    exact opGfxDraw_served h 1 clearArgs
  rw [if_neg hclear, if_neg hclear]
  by_cases hblit : loci.regs lociRegApiA = gfxBlitRect
  · rw [if_pos hblit, if_pos hblit]
    exact opGfxDraw_served h 6 blitArgs
  rw [if_neg hblit, if_neg hblit]
  by_cases hcompose : loci.regs lociRegApiA = gfxComposeRect
  · rw [if_pos hcompose, if_pos hcompose]
    exact opGfxDraw_served h 9 composeArgs
  rw [if_neg hcompose, if_neg hcompose]
  split
  · exact opGfxCollide_served h
  split
  · exact opGfxGetDirty_served h
  · exact h.errno _

/-! ## Dispatch -/

/-- The base at the end of an operation. -/
def opBase (base loci : Loci) (op : Byte) (host : LociHost) : Loci :=
  match op.toNat with
  | 0x17 => xramReadBase base loci host (xramArgsOf loci)
  | 0xA6 => base.withXram (update loci.xram adjAddress (adjScanByte loci))
  | 0xAE => gfxDrawBase base loci (gfxDrawOf loci)
  | _ => base

theorem dispatchOp_served (h : LociServed base loci) (op : Byte) (host : LociHost) :
    LociServed (opBase base loci op host) (dispatchOp loci op host) := by
  simp only [opBase]
  split
  next hop =>
    simp only [dispatchOp, hop]
    exact opReadXram_served h host
  next hop =>
    simp only [dispatchOp, hop]
    exact opAdjScan_served h
  next hop =>
    simp only [dispatchOp, hop]
    exact opGfx_served h
  next hread hadj hgfx =>
  simp only [dispatchOp]
  split
  · exact opPixXreg_served h
  · exact h.ax _
  · exact h.ax _
  · exact h.ax _
  · exact h.axsreg _
  · exact h.axsreg _
  · exact clkReturn_served h _
  · exact clkReturn_served h _
  · exact opClkSettime_served h
  · exact opOpen_served h host
  · exact opClose_served h host
  · exact opReadXstack_served h host
  · exact opWriteXstack_served h host
  · exact opLseek_served h host
  · exact pathOp_served h _ _
  · exact opRename_served h host
  · exact (hread ‹_›).elim
  · exact opWriteXram_served h host
  · exact opMount_served h host
  · exact opUmount_served h
  · exact opGetcwd_served h
  · exact opOpendir_served h host
  · exact opClosedir_served h host
  · exact opReaddir_served h host
  · exact pathOp_served h _ _
  · exact opUname_served h
  · exact opMiaBoot_served h host
  · exact opTapSeek_served h host
  · exact h.axsreg _
  · exact opTapReadHeader_served h
  · exact opMapTuneStore_served (fun _ => { h with }) h
  · exact opMapTuneStore_served (fun _ => { h with }) h
  · exact opMapTuneStore_served (fun _ => { h with }) h
  · exact opMapTuneStore_served (fun _ => { h with }) h
  · exact opMapTuneStore_served (fun _ => { h with }) h
  · exact (hadj ‹_›).elim
  · exact (hgfx ‹_›).elim
  · exact h.errno _

end Phosphoric
