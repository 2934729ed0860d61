import Mathlib.Data.List.DropRight
import Phosphoric.Debugger.Condition

/-!
# The table of breakpoints

One table of 16 entries serves the REPL, the control API and the GDB stub (`src/debugger.c`,
`src/network/gdbstub.c`). A breakpoint is added at the end, unless the address already has one
without condition: then that entry is the one returned, and a condition is put on it.

**Theorem (`bpAdd_stops`).** Adding a breakpoint at an address without an unconditional one keeps
every stop and adds the stops of the new condition; removing it gives the table back. Adding an
unconditional breakpoint where there is one changes nothing.
-/

namespace Phosphoric

/-! ## The table -/

/-- `breakpoint_t`; `has_cond` is that there is a condition. -/
structure Breakpoint where
  addr : Word
  cond : Option BpCondexpr
  condText : CStr
  deriving DecidableEq

/-- `DEBUGGER_MAX_BREAKPOINTS`. -/
abbrev debuggerMaxBreakpoints : Nat := 16

/-- `debugger_t`, as far as breakpoints go. -/
@[ext] structure Debugger where
  breakpoints : List Breakpoint
  room : breakpoints.length ≤ debuggerMaxBreakpoints

/-- An entry without condition at the address. -/
def Breakpoint.plainAt (addr : Word) (bp : Breakpoint) : Bool := bp.addr == addr && bp.cond.isNone

/-- `debugger_add_breakpoint`; `none` for the table full. -/
def debuggerAddBreakpoint (dbg : Debugger) (addr : Word) : Option Nat × Debugger :=
  if h : dbg.breakpoints.length < debuggerMaxBreakpoints then
    match dbg.breakpoints.findIdx? (Breakpoint.plainAt addr) with
    | some i => (some i, dbg)
    | none =>
      (some dbg.breakpoints.length,
        { breakpoints := dbg.breakpoints ++ [{ addr, cond := none, condText := [] }]
          room := by simpa using h })
  else (none, dbg)

/-- `debugger_remove_breakpoint`. -/
def debuggerRemoveBreakpoint (dbg : Debugger) (index : Int) : Bool × Debugger :=
  if index < 0 ∨ dbg.breakpoints.length ≤ index then (false, dbg)
  else
    (true, { breakpoints := dbg.breakpoints.eraseIdx index.toNat
             room := (List.length_eraseIdx_le ..).trans dbg.room })

/-- The text of a condition, cut to the field and without the blanks at its end. -/
def bpCondText (expr : CStr) : CStr := (expr.take 95).rdropWhile isspace

/-- A condition put on the entry `idx`. -/
def setCond (dbg : Debugger) (idx : Nat) (cond : BpCondexpr) (expr : CStr) : Debugger where
  breakpoints := dbg.breakpoints.modify idx fun bp =>
    { bp with cond := some cond, condText := bpCondText expr }
  room := by simpa using dbg.room

/-- What `debugger_add_cond_breakpoint` refuses: -2 and -1. -/
inductive BpError
  | badCondition | full
  deriving DecidableEq, Repr

/-- `debugger_add_cond_breakpoint`. -/
def debuggerAddCondBreakpoint (tbl : SymbolTable) (dbg : Debugger) (addr : Word) (expr : CStr) :
    Except BpError Nat × Debugger :=
  match dbgParseCondexpr tbl expr with
  | none => (.error .badCondition, dbg)
  | some cond =>
    match debuggerAddBreakpoint dbg addr with
    | (none, dbg) => (.error .full, dbg)
    | (some idx, dbg) => (.ok idx, setCond dbg idx cond expr)

/-- `repl_breakpoint` with an address: the condition is parsed after the entry is added, and the
entry removed if it does not parse. -/
def replBreakpoint (tbl : SymbolTable) (dbg : Debugger) (addr : Word) (ifPos : Option CStr) :
    Except BpError Nat × Debugger :=
  match debuggerAddBreakpoint dbg addr with
  | (none, dbg) => (.error .full, dbg)
  | (some idx, dbg) =>
    match ifPos with
    | none | some [] => (.ok idx, dbg)
    | some expr =>
      match dbgParseCondexpr tbl expr with
      | none => (.error .badCondition, (debuggerRemoveBreakpoint dbg idx).2)
      | some cond => (.ok idx, setCond dbg idx cond expr)

/-- `ctl_cmd_break` with an address. -/
def ctlCmdBreak (tbl : SymbolTable) (dbg : Debugger) (addr : Word) (cond : Option CStr) :
    Except BpError Nat × Debugger :=
  match cond with
  | none | some [] =>
    match debuggerAddBreakpoint dbg addr with
    | (none, dbg) => (.error .full, dbg)
    | (some idx, dbg) => (.ok idx, dbg)
  | some expr => debuggerAddCondBreakpoint tbl dbg addr expr

/-- `remove_bp_at`: GDB removes the first entry at the address. -/
def removeBpAt (dbg : Debugger) (addr : Word) : Bool × Debugger :=
  match dbg.breakpoints.findIdx? fun bp => bp.addr == addr with
  | some i => debuggerRemoveBreakpoint dbg i
  | none => (false, dbg)

/-! ## Stops -/

section Stops

variable {σ : Type} (io : MemoryIo σ) (loci : LociEmu σ)

/-- The loop of `debugger_check_pc`, with the machine after the conditions it evaluates. -/
def checkBreakpoints : List Breakpoint → DebugTarget σ → Bool × DebugTarget σ
  | [], emu => (false, emu)
  | bp :: bps, emu =>
    if bp.addr ≠ emu.pc then checkBreakpoints bps emu
    else match bp.cond with
    | none => (true, emu)
    | some cond =>
      let (stop, emu) := evalCondexpr io loci cond emu
      if stop then (true, emu) else checkBreakpoints bps emu

/-- `debugger_check_pc`. -/
def debuggerCheckPc (dbg : Debugger) (emu : DebugTarget σ) : Bool × DebugTarget σ :=
  checkBreakpoints io loci dbg.breakpoints emu

/-- Where a breakpoint stops, as specified: at its address, when its condition holds. -/
def Breakpoint.stops (bp : Breakpoint) (emu : DebugTarget σ) : Bool :=
  bp.addr == emu.pc && match bp.cond with
    | none => true
    | some cond => cond.holds io loci emu

theorem checkBreakpoints_pc (bps : List Breakpoint) (emu : DebugTarget σ) :
    (checkBreakpoints io loci bps emu).2.pc = emu.pc := by
  induction bps generalizing emu with
  | nil => rfl
  | cons bp bps ih =>
    rw [checkBreakpoints]
    split_ifs with haddr
    · exact ih emu
    · cases bp.cond with
      | none => rfl
      | some cond =>
        dsimp only
        split_ifs with hstop
        · exact evalCondexpr_pc io loci cond emu
        · rw [ih, evalCondexpr_pc]

theorem checkBreakpoints_singleton (bp : Breakpoint) (emu : DebugTarget σ) :
    (checkBreakpoints io loci [bp] emu).1 = bp.stops io loci emu := by
  rw [checkBreakpoints, Breakpoint.stops]
  by_cases haddr : bp.addr = emu.pc
  · rw [if_neg (not_not_intro haddr), haddr]
    cases bp.cond with
    | none => simp
    | some cond =>
      have hholds := evalCondexpr_fst io loci cond emu
      cases hstop : (evalCondexpr io loci cond emu).1 <;>
        simp [checkBreakpoints, hstop, ← hholds]
  · rw [if_pos haddr]
    simp [checkBreakpoints, haddr]

/-- The breakpoints at the end of the table are looked at when those before do not stop. -/
theorem checkBreakpoints_append (bps bps' : List Breakpoint) (emu : DebugTarget σ) :
    (checkBreakpoints io loci (bps ++ bps') emu).1 =
      ((checkBreakpoints io loci bps emu).1 ||
        (checkBreakpoints io loci bps' (checkBreakpoints io loci bps emu).2).1) := by
  induction bps generalizing emu with
  | nil => simp [checkBreakpoints]
  | cons bp bps ih =>
    rw [List.cons_append, checkBreakpoints, checkBreakpoints]
    split_ifs with haddr
    · exact ih emu
    · cases bp.cond with
      | none => rfl
      | some cond =>
        dsimp only
        split_ifs with hstop
        · rfl
        · exact ih _

/-- An unconditional breakpoint in the table stops at its address. -/
theorem checkBreakpoints_of_plain {bps : List Breakpoint} {bp : Breakpoint} (hmem : bp ∈ bps)
    (hcond : bp.cond = none) (emu : DebugTarget σ) (haddr : bp.addr = emu.pc) :
    (checkBreakpoints io loci bps emu).1 = true := by
  obtain ⟨before, after, rfl⟩ := List.append_of_mem hmem
  rw [checkBreakpoints_append, Bool.or_eq_true_iff]
  right
  have hpc := checkBreakpoints_pc io loci before emu
  simp [checkBreakpoints, hpc, haddr, hcond]

end Stops

/-! ## Adding and removing -/

/-- What a front end asks for: a breakpoint, or one with a condition. -/
structure BpRequest where
  addr : Word
  expr : Option CStr

/-- The request carried out by `debugger_add_breakpoint` or `debugger_add_cond_breakpoint`. -/
def bpAdd (tbl : SymbolTable) (dbg : Debugger) (req : BpRequest) : Except BpError Nat × Debugger :=
  match req.expr with
  | none =>
    match debuggerAddBreakpoint dbg req.addr with
    | (none, dbg) => (.error .full, dbg)
    | (some idx, dbg) => (.ok idx, dbg)
  | some expr => debuggerAddCondBreakpoint tbl dbg req.addr expr

/-- The breakpoint asked for, where its condition parses. -/
def BpRequest.breakpoint (tbl : SymbolTable) (req : BpRequest) : Option Breakpoint :=
  match req.expr with
  | none => some { addr := req.addr, cond := none, condText := [] }
  | some expr => (dbgParseCondexpr tbl expr).map fun cond =>
      { addr := req.addr, cond := some cond, condText := bpCondText expr }

/-- An empty condition is none. -/
def askedCond : Option CStr → Option CStr
  | none | some [] => none
  | some expr => some expr

/-- The control API asks as `bpAdd` does. -/
theorem ctlCmdBreak_eq (tbl : SymbolTable) (dbg : Debugger) (addr : Word) (cond : Option CStr) :
    ctlCmdBreak tbl dbg addr cond = bpAdd tbl dbg ⟨addr, askedCond cond⟩ := by
  rcases cond with _ | _ | ⟨b, expr⟩ <;> rfl

/-- When the REPL adds a breakpoint, it adds it as `bpAdd` does. -/
theorem replBreakpoint_eq {tbl : SymbolTable} {dbg dbg' : Debugger} {addr : Word}
    {ifPos : Option CStr} {idx : Nat} (h : replBreakpoint tbl dbg addr ifPos = (.ok idx, dbg')) :
    bpAdd tbl dbg ⟨addr, askedCond ifPos⟩ = (.ok idx, dbg') := by
  rw [replBreakpoint] at h
  rcases hadd : debuggerAddBreakpoint dbg addr with ⟨_ | i, added⟩
  · rw [hadd] at h
    cases h
  · rw [hadd] at h
    rcases ifPos with _ | _ | ⟨b, expr⟩
    · simpa [bpAdd, askedCond, hadd] using h
    · simpa [bpAdd, askedCond, hadd] using h
    · cases hparse : dbgParseCondexpr tbl (b :: expr) with
      | none => simp [hparse] at h
      | some cond => simpa [bpAdd, askedCond, debuggerAddCondBreakpoint, hparse, hadd] using h

/-- No unconditional breakpoint at the address. -/
def Debugger.free (dbg : Debugger) (addr : Word) : Prop :=
  ∀ bp ∈ dbg.breakpoints, bp.plainAt addr = false

instance (dbg : Debugger) (addr : Word) : Decidable (dbg.free addr) :=
  inferInstanceAs (Decidable (∀ bp ∈ dbg.breakpoints, bp.plainAt addr = false))

section Adding

variable {tbl : SymbolTable} {dbg dbg' : Debugger} {req : BpRequest} {idx : Nat}

theorem findIdx?_of_free {addr : Word} (hfree : dbg.free addr) :
    dbg.breakpoints.findIdx? (Breakpoint.plainAt addr) = none := by
  rw [List.findIdx?_eq_none_iff]
  exact hfree

theorem modify_append_length {α : Type} (f : α → α) (xs : List α) (x : α) :
    (xs ++ [x]).modify xs.length f = xs ++ [f x] := by
  induction xs with
  | nil => rfl
  | cons y ys ih => rw [List.cons_append, List.length_cons, List.modify_succ_cons, ih]; rfl

/-- On a free address a successful request appends its breakpoint. -/
theorem bpAdd_of_free (h : bpAdd tbl dbg req = (.ok idx, dbg')) (hfree : dbg.free req.addr) :
    idx = dbg.breakpoints.length ∧
      ∃ bp, req.breakpoint tbl = some bp ∧ dbg'.breakpoints = dbg.breakpoints ++ [bp] := by
  by_cases hroom : dbg.breakpoints.length < debuggerMaxBreakpoints
  · have hadd : ∃ room, debuggerAddBreakpoint dbg req.addr =
        (some dbg.breakpoints.length,
          ⟨dbg.breakpoints ++ [{ addr := req.addr, cond := none, condText := [] }], room⟩) := by
      rw [debuggerAddBreakpoint, dif_pos hroom, findIdx?_of_free hfree]
      exact ⟨_, rfl⟩
    obtain ⟨room, hadd⟩ := hadd
    rw [bpAdd] at h
    cases hexpr : req.expr with
    | none =>
      simp only [hexpr, hadd] at h
      cases h
      exact ⟨rfl, _, by simp [BpRequest.breakpoint, hexpr], rfl⟩
    | some expr =>
      simp only [hexpr, debuggerAddCondBreakpoint] at h
      cases hparse : dbgParseCondexpr tbl expr with
      | none =>
        rw [hparse] at h
        cases h
      | some cond =>
        simp only [hparse, hadd] at h
        cases h
        refine ⟨rfl, { addr := req.addr, cond := some cond, condText := bpCondText expr }, ?_, ?_⟩
        · simp [BpRequest.breakpoint, hexpr, hparse]
        · exact modify_append_length _ _ _
  · have hfull : debuggerAddBreakpoint dbg req.addr = (none, dbg) := dif_neg hroom
    rw [bpAdd] at h
    cases hexpr : req.expr with
    | none => simp [hexpr, hfull] at h
    | some expr =>
      simp only [hexpr, debuggerAddCondBreakpoint, hfull] at h
      cases hparse : dbgParseCondexpr tbl expr <;> simp [hparse] at h

/-- Where the address is not free, a successful request without condition changes nothing. -/
theorem bpAdd_of_not_free (h : bpAdd tbl dbg req = (.ok idx, dbg')) (hexpr : req.expr = none)
    (hfree : ¬dbg.free req.addr) :
    dbg' = dbg ∧ ∃ bp, dbg.breakpoints[idx]? = some bp ∧ bp.plainAt req.addr := by
  simp only [bpAdd, hexpr, debuggerAddBreakpoint] at h
  cases hfind : dbg.breakpoints.findIdx? (Breakpoint.plainAt req.addr) with
  | none =>
    rw [List.findIdx?_eq_none_iff] at hfind
    exact absurd hfind hfree
  | some i =>
    split_ifs at h with hroom
    · rw [hfind] at h
      cases h
      obtain ⟨hlt, hplain, -⟩ := List.findIdx?_eq_some_iff_getElem.mp hfind
      exact ⟨rfl, _, List.getElem?_eq_getElem hlt, hplain⟩
    · cases h

/-- The entry at the end of the table is removed by its index. -/
theorem debuggerRemoveBreakpoint_last {bp : Breakpoint}
    (h : dbg'.breakpoints = dbg.breakpoints ++ [bp]) :
    debuggerRemoveBreakpoint dbg' dbg.breakpoints.length = (true, dbg) := by
  have hin : ¬((dbg.breakpoints.length : Int) < 0 ∨
      (dbg'.breakpoints.length : Int) ≤ dbg.breakpoints.length) := by
    rw [h, List.length_append, List.length_singleton]
    omega
  rw [debuggerRemoveBreakpoint, if_neg hin]
  congr 1
  ext1
  dsimp only
  rw [h, Int.toNat_natCast, List.eraseIdx_append_of_length_le le_rfl]
  simp

/-- The two front ends leave the same table, except that the REPL removes an unconditional
breakpoint of the address where a condition does not parse and the table has room. -/
theorem replBreakpoint_table (tbl : SymbolTable) (dbg : Debugger) (addr : Word)
    (cond : Option CStr) :
    (replBreakpoint tbl dbg addr cond).2 = (ctlCmdBreak tbl dbg addr cond).2 ↔
      (∀ expr, askedCond cond = some expr → dbgParseCondexpr tbl expr ≠ none) ∨
        dbg.free addr ∨ dbg.breakpoints.length = debuggerMaxBreakpoints := by
  unfold replBreakpoint ctlCmdBreak debuggerAddCondBreakpoint
  rcases cond with _ | _ | ⟨b, expr⟩
  · simp [askedCond]
  · simp [askedCond]
  cases hparse : dbgParseCondexpr tbl (b :: expr) with
  | some c => simp [askedCond, hparse]
  | none =>
    have hroom := dbg.room
    simp only [hparse, debuggerAddBreakpoint]
    split_ifs with hfull
    · cases hfind : dbg.breakpoints.findIdx? (Breakpoint.plainAt addr) with
      | none =>
        exact iff_of_true (congrArg Prod.snd (debuggerRemoveBreakpoint_last rfl))
          (.inr (.inl (List.findIdx?_eq_none_iff.mp hfind)))
      | some i =>
        obtain ⟨hlt, hplain, -⟩ := List.findIdx?_eq_some_iff_getElem.mp hfind
        refine iff_of_false (fun heq => ?_) ?_
        · have hlen := congrArg (·.breakpoints.length) heq
          dsimp only at hlen
          rw [debuggerRemoveBreakpoint, if_neg (by omega)] at hlen
          simp only [Int.toNat_natCast, List.length_eraseIdx, hlt, if_true] at hlen
          omega
        · rintro (hparses | hfree | hlen)
          · exact hparses _ rfl hparse
          · exact absurd hplain (by simp [hfree _ (List.getElem_mem hlt)])
          · omega
    · exact iff_of_true rfl (.inr (.inr (by omega)))
/-- GDB removes the last entry where it is the only one at its address. -/
theorem removeBpAt_last {bp : Breakpoint} (h : dbg'.breakpoints = dbg.breakpoints ++ [bp])
    (honly : ∀ bp' ∈ dbg.breakpoints, bp'.addr ≠ bp.addr) :
    removeBpAt dbg' bp.addr = (true, dbg) := by
  have hfind : dbg'.breakpoints.findIdx? (fun bp' => bp'.addr == bp.addr) =
      some dbg.breakpoints.length := by
    have hnone : dbg.breakpoints.findIdx? (fun bp' => bp'.addr == bp.addr) = none := by
      rw [List.findIdx?_eq_none_iff]
      intro bp' hmem
      simpa using honly bp' hmem
    rw [h, List.findIdx?_append, hnone]
    simp
  rw [removeBpAt, hfind]
  exact debuggerRemoveBreakpoint_last h

theorem BpRequest.breakpoint_addr {bp : Breakpoint} (h : req.breakpoint tbl = some bp) :
    bp.addr = req.addr := by
  rw [BpRequest.breakpoint] at h
  cases hexpr : req.expr with
  | none =>
    rw [hexpr] at h
    cases h
    rfl
  | some expr =>
    rw [hexpr, Option.map_eq_some_iff] at h
    obtain ⟨cond, -, rfl⟩ := h
    rfl

variable {σ : Type} (io : MemoryIo σ) (loci : LociEmu σ)

/-- A breakpoint added where there is no unconditional one adds its stops and no others, and is
taken back by its index, and by GDB if it is alone at the address; one without condition added
where there is one already changes nothing, and stops at its address. -/
theorem bpAdd_stops (h : bpAdd tbl dbg req = (.ok idx, dbg')) :
    (dbg.free req.addr → ∃ bp, req.breakpoint tbl = some bp ∧
        (∀ emu, (debuggerCheckPc io loci dbg' emu).1 =
          ((debuggerCheckPc io loci dbg emu).1 ||
            bp.stops io loci (debuggerCheckPc io loci dbg emu).2)) ∧
        debuggerRemoveBreakpoint dbg' idx = (true, dbg) ∧
        ((∀ bp' ∈ dbg.breakpoints, bp'.addr ≠ req.addr) →
          removeBpAt dbg' req.addr = (true, dbg))) ∧
      (¬dbg.free req.addr → req.expr = none → dbg' = dbg ∧
        (∃ bp, dbg.breakpoints[idx]? = some bp ∧ bp.plainAt req.addr) ∧
        ∀ emu : DebugTarget σ, emu.pc = req.addr → (debuggerCheckPc io loci dbg emu).1 = true) := by
  constructor
  · intro hfree
    obtain ⟨rfl, bp, hbp, happend⟩ := bpAdd_of_free h hfree
    have haddr := BpRequest.breakpoint_addr hbp
    refine ⟨bp, hbp, ?_, debuggerRemoveBreakpoint_last happend, ?_⟩
    · intro emu
      simp only [debuggerCheckPc]
      rw [happend, checkBreakpoints_append, checkBreakpoints_singleton]
    · intro honly
      rw [← haddr] at honly ⊢
      exact removeBpAt_last happend honly
  · intro hfree hexpr
    obtain ⟨hsame, bp, hget, hplain⟩ := bpAdd_of_not_free h hexpr hfree
    refine ⟨hsame, ⟨bp, hget, hplain⟩, ?_⟩
    intro emu hpc
    rw [Breakpoint.plainAt, Bool.and_eq_true, beq_iff_eq, Option.isNone_iff_eq_none] at hplain
    exact checkBreakpoints_of_plain io loci (List.mem_of_getElem? hget) hplain.2 emu
      (hplain.1.trans hpc.symm)

end Adding

/-- A machine at an address. -/
def debugTargetAt (pc : Word) : DebugTarget Unit where
  cpu := { a := 0, x := 0, y := 0, sp := 0, p := 0 }
  pc := pc
  memory := memoryShortOverlay

/-- A table with an unconditional breakpoint at `$1234`. -/
def debuggerPlain : Debugger where
  breakpoints := [{ addr := 0x1234, cond := none, condText := [] }]
  room := by decide

theorem bpAdd_stops_cond :
    ((bpAdd ⟨[], fun _ => false⟩ debuggerPlain ⟨0x5000, some (cstr "A==1")⟩).2.breakpoints.length
      = 2) ∧
      debuggerRemoveBreakpoint
        (bpAdd ⟨[], fun _ => false⟩ debuggerPlain ⟨0x5000, some (cstr "A==1")⟩).2 1 =
        (true, debuggerPlain) := by
  have hadd : bpAdd ⟨[], fun _ => false⟩ debuggerPlain ⟨0x5000, some (cstr "A==1")⟩ =
      (.ok 1, (bpAdd ⟨[], fun _ => false⟩ debuggerPlain ⟨0x5000, some (cstr "A==1")⟩).2) := rfl
  obtain ⟨_, -, -, hremove, -⟩ := (bpAdd_stops memoryIoNone (lociEmuStub Unit) hadd).1 (by decide)
  exact ⟨rfl, hremove⟩

/-- Adding a breakpoint that is there already returns its index, and removing it takes the stop
away. -/
theorem bpAdd_duplicate_removed :
    ¬ ∀ (dbg dbg' : Debugger) (req : BpRequest) (idx : Nat),
      bpAdd ⟨[], fun _ => false⟩ dbg req = (.ok idx, dbg') →
      ∀ emu : DebugTarget Unit,
        (debuggerCheckPc memoryIoNone (lociEmuStub Unit)
            (debuggerRemoveBreakpoint dbg' idx).2 emu).1 =
          (debuggerCheckPc memoryIoNone (lociEmuStub Unit) dbg emu).1 := by
  intro hall
  have := hall debuggerPlain debuggerPlain ⟨0x1234, none⟩ 0 rfl (debugTargetAt 0x1234)
  revert this
  decide

end Phosphoric
