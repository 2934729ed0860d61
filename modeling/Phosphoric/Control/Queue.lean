import Phosphoric.Lib.Word

/-!
# The command queue between producers and the emulator loop

The queue of `src/control_queue.c`. Producers hand a command line over and block until the loop
has run it. The loop pops a command under the lock, runs it without, and takes the lock again to
mark it done.

A step is a critical section, the dispatch of a command outside of one, or a wake-up the system
may give a waiting thread at any time. Any list of steps is an interleaving; a step that the
threads cannot take just then changes nothing.

**Theorem (`controlQueue_served`).** In every interleaving commands are dispatched in the order
they were submitted in and each at most once. A submit gives the reply and the result of its own
command, or an empty reply when the queue was shut down first. After the shutdown no submit is
left waiting once the loop holds no command.
-/

open Function (update)

namespace Phosphoric

/-! ## The queue -/

/-- `control_result_t`. -/
inductive ControlResult
  | controlContinue | controlResume | controlQuit
  deriving DecidableEq, Repr

/-- `control_cmd_t`. -/
structure ControlCmd where
  line : List Byte
  reply : List Byte
  result : ControlResult
  done : Bool

/-- Where the loop is in `control_queue_drain`, with the batch and how much of it is done. -/
inductive DrainPoint
  | idle
  | popped (item batch processed : Nat)
  | ran (item batch processed : Nat)

/-- What happened so far. -/
inductive ControlEvent
  | submitted (item : Nat) (line : List Byte)
  | refused (line : List Byte)
  | dispatched (item : Nat) (line : List Byte) (result : ControlResult) (reply : List Byte)
  | returned (item : Nat) (result : ControlResult) (reply : List Byte)

/-- `control_queue_s`, the items whose producers are in `control_queue_submit`, and which of these
wait for a signal. -/
structure ControlQueue (Emu : Type) where
  items : List Nat
  count : Nat
  shuttingDown : Bool
  cmds : Nat → Option ControlCmd
  waiting : Nat → Bool
  drain : DrainPoint
  emu : Emu
  /-- The next item `calloc` gives. -/
  next : Nat
  history : List ControlEvent

variable {Emu : Type}

def controlQueueCreate (emu : Emu) : ControlQueue Emu where
  items := []
  count := 0
  shuttingDown := false
  cmds _ := none
  waiting _ := false
  drain := .idle
  emu := emu
  next := 0
  history := []

/-! ## Critical sections -/

/-- The lock is taken, the item queued and the wait begun; a queue shutting down refuses. -/
def controlQueueSubmit (q : ControlQueue Emu) (line : List Byte) : ControlQueue Emu :=
  if q.shuttingDown then { q with history := q.history ++ [.refused line] }
  else
    { q with
      items := q.items ++ [q.next]
      count := q.count + 1
      cmds := update q.cmds q.next (some ⟨line, [], .controlContinue, false⟩)
      waiting := update q.waiting q.next true
      next := q.next + 1
      history := q.history ++ [.submitted q.next line] }

/-- A producer that was woken looks at its item: it returns or waits again. -/
def controlQueueResume (q : ControlQueue Emu) (item : Nat) : ControlQueue Emu :=
  match q.cmds item with
  | none => q
  | some cmd =>
    if q.waiting item then q
    else if cmd.done then
      { q with
        cmds := update q.cmds item none
        history := q.history ++ [.returned item cmd.result cmd.reply] }
    else { q with waiting := update q.waiting item true }

def dequeueLocked (q : ControlQueue Emu) : Option Nat × ControlQueue Emu :=
  match q.items with
  | [] => (none, q)
  | item :: rest => (some item, { q with items := rest, count := q.count - 1 })

/-- The loop of `control_queue_drain` up to where the lock is released. -/
def drainLoop (q : ControlQueue Emu) (batch processed : Nat) : ControlQueue Emu :=
  if processed < batch then
    match dequeueLocked q with
    | (none, q) => { q with drain := .idle }
    | (some item, q) => { q with drain := .popped item batch processed }
  else { q with drain := .idle }

def controlQueueDrain (q : ControlQueue Emu) : ControlQueue Emu :=
  match q.drain with
  | .idle => drainLoop q q.count 0
  | _ => q

/-- The command popped runs, without the lock. -/
def drainDispatch (dispatch : Emu → List Byte → ControlResult × List Byte × Emu)
    (q : ControlQueue Emu) : ControlQueue Emu :=
  match q.drain with
  | .popped item batch processed =>
    match q.cmds item with
    | none => q
    | some cmd =>
      let ran := dispatch q.emu cmd.line
      { q with
        cmds := update q.cmds item (some { cmd with result := ran.1, reply := ran.2.1 })
        emu := ran.2.2
        drain := .ran item batch processed
        history := q.history ++ [.dispatched item cmd.line ran.1 ran.2.1] }
  | _ => q

/-- The command that ran is done: its producer is signalled, and the loop goes on. -/
def drainComplete (q : ControlQueue Emu) : ControlQueue Emu :=
  match q.drain with
  | .ran item batch processed =>
    drainLoop
      { q with
        cmds := update q.cmds item ((q.cmds item).map fun cmd => { cmd with done := true })
        waiting := update q.waiting item false }
      batch (processed + 1)
  | _ => q

/-- Every queued item is done with an empty reply, and its producer signalled. -/
def controlQueueShutdown (q : ControlQueue Emu) : ControlQueue Emu :=
  { q with
    shuttingDown := true
    cmds := fun item =>
      if item ∈ q.items then
        (q.cmds item).map fun cmd => { cmd with result := .controlContinue, done := true }
      else q.cmds item
    waiting := fun item => q.waiting item && item ∉ q.items
    items := []
    count := 0 }

/-! ## Interleavings -/

inductive ControlOp
  | submit (line : List Byte)
  /-- A wait may end without a signal. -/
  | wake (item : Nat)
  | resume (item : Nat)
  | drain
  | dispatch
  | complete
  | shutdown

def controlStep (dispatch : Emu → List Byte → ControlResult × List Byte × Emu)
    (q : ControlQueue Emu) : ControlOp → ControlQueue Emu
  | .submit line => controlQueueSubmit q line
  | .wake item => { q with waiting := update q.waiting item false }
  | .resume item => controlQueueResume q item
  | .drain => controlQueueDrain q
  | .dispatch => drainDispatch dispatch q
  | .complete => drainComplete q
  | .shutdown => controlQueueShutdown q

/-- The item the loop took from the queue and has not run. -/
def DrainPoint.pending : DrainPoint → List Nat
  | .popped item _ _ => [item]
  | _ => []

/-- The item the loop holds. -/
def DrainPoint.held : DrainPoint → List Nat
  | .idle => []
  | .popped item _ _ => [item]
  | .ran item _ _ => [item]

/-- The items submitted, in order. -/
def submittedItems (history : List ControlEvent) : List Nat :=
  history.filterMap fun
    | .submitted item _ => some item
    | _ => none

/-- The items dispatched, in order. -/
def dispatchedItems (history : List ControlEvent) : List Nat :=
  history.filterMap fun
    | .dispatched item _ _ _ => some item
    | _ => none

/-! ## The invariant -/

namespace ControlQueue

/-- What holds between the critical sections. -/
structure Inv (q : ControlQueue Emu) : Prop where
  count_eq : q.count = q.items.length
  /-- The items are numbered in the order of their submission. -/
  numbered : submittedItems q.history = List.range q.next
  /-- The items dispatched, the one popped and the queued ones are the items submitted, but for
  those a shutdown dropped. -/
  order : ∃ dropped, List.range q.next =
    dispatchedItems q.history ++ (q.drain.pending ++ (q.items ++ dropped)) ∧
      (q.shuttingDown = false → dropped = [])
  /-- The loop holds an item that is not run yet or one it has run. -/
  held : ∀ item ∈ q.drain.held, item ∈ q.drain.pending ∨ item ∈ dispatchedItems q.history
  closed : q.shuttingDown = true → q.items = []
  present : ∀ item, item ∈ q.items ∨ item ∈ q.drain.held →
    ∃ cmd, q.cmds item = some cmd ∧ cmd.done = false
  undone : ∀ item cmd, q.cmds item = some cmd → cmd.done = false →
    item ∈ q.items ∨ item ∈ q.drain.held
  awake : ∀ item cmd, q.cmds item = some cmd → cmd.done = true → q.waiting item = false
  known : ∀ item cmd, q.cmds item = some cmd → .submitted item cmd.line ∈ q.history
  fresh : ∀ item cmd, q.cmds item = some cmd → item ∉ dispatchedItems q.history →
    cmd.result = .controlContinue ∧ cmd.reply = []
  ran : ∀ item line result reply, .dispatched item line result reply ∈ q.history →
    .submitted item line ∈ q.history ∧
      ∀ cmd, q.cmds item = some cmd → cmd.result = result ∧ cmd.reply = reply
  gone : ∀ item result reply, .returned item result reply ∈ q.history →
    item < q.next ∧ q.cmds item = none
  accounted : ∀ item < q.next,
    q.cmds item ≠ none ∨ ∃ result reply, .returned item result reply ∈ q.history
  answered : ∀ item result reply line result' reply',
    .returned item result reply ∈ q.history →
    .dispatched item line result' reply' ∈ q.history → result = result' ∧ reply = reply'
  released : ∀ item result reply, .returned item result reply ∈ q.history →
    item ∉ dispatchedItems q.history → result = .controlContinue ∧ reply = []

theorem inv_create (emu : Emu) : (controlQueueCreate emu).Inv where
  count_eq := rfl
  numbered := rfl
  order := ⟨[], rfl, fun _ => rfl⟩
  held := by simp [controlQueueCreate, DrainPoint.held]
  closed := by simp [controlQueueCreate]
  present := by simp [controlQueueCreate, DrainPoint.held]
  undone := by simp [controlQueueCreate]
  awake := by simp [controlQueueCreate]
  known := by simp [controlQueueCreate]
  fresh := by simp [controlQueueCreate]
  ran := by simp [controlQueueCreate]
  gone := by simp [controlQueueCreate]
  accounted := by simp [controlQueueCreate]
  answered := by simp [controlQueueCreate]
  released := by simp [controlQueueCreate]

variable {q : ControlQueue Emu}

/-- Only numbers given before are in use. -/
theorem Inv.lt_next (h : q.Inv) {item : Nat} {line : List Byte}
    (hsub : .submitted item line ∈ q.history) : item < q.next := by
  have hmem : item ∈ submittedItems q.history :=
    List.mem_filterMap.mpr ⟨_, hsub, rfl⟩
  rw [h.numbered] at hmem
  exact List.mem_range.mp hmem

theorem mem_dispatchedItems {history : List ControlEvent} {item : Nat} :
    item ∈ dispatchedItems history ↔
      ∃ line result reply, .dispatched item line result reply ∈ history := by
  constructor
  · intro hmem
    obtain ⟨event, hin, heq⟩ := List.mem_filterMap.mp hmem
    cases event <;> cases heq
    exact ⟨_, _, _, hin⟩
  · rintro ⟨line, result, reply, hin⟩
    exact List.mem_filterMap.mpr ⟨_, hin, rfl⟩

theorem update_eq_some {α : Type} {f : Nat → Option α} {a b : Nat} {v : Option α} {c : α}
    (h : update f a v b = some c) : b = a ∧ v = some c ∨ b ≠ a ∧ f b = some c := by
  by_cases heq : b = a
  · subst heq
    exact .inl ⟨rfl, by rwa [Function.update_self] at h⟩
  · exact .inr ⟨heq, by rwa [Function.update_of_ne heq] at h⟩

theorem submit_inv (h : q.Inv) (line : List Byte) : (controlQueueSubmit q line).Inv := by
  rw [controlQueueSubmit]
  split
  · exact {
      h with
      numbered := by simpa [submittedItems] using h.numbered
      order := by simpa [dispatchedItems] using h.order
      held := by simpa [dispatchedItems] using h.held
      known := fun item cmd hcmd => by simpa using h.known item cmd hcmd
      fresh := fun item cmd hcmd => by simpa [dispatchedItems] using h.fresh item cmd hcmd
      ran := fun item line result reply hin => by
        simpa using h.ran item line result reply (by simpa using hin)
      gone := fun item result reply hin => h.gone item result reply (by simpa using hin)
      accounted := fun item hlt => by simpa using h.accounted item hlt
      answered := fun item result reply line result' reply' hret hdis =>
        h.answered item result reply line result' reply' (by simpa using hret) (by simpa using hdis)
      released := fun item result reply hret hno =>
        h.released item result reply (by simpa using hret)
          (by simpa [dispatchedItems] using hno) }
  · rename_i hopen
    have hdisp : dispatchedItems (q.history ++ [.submitted q.next line]) =
        dispatchedItems q.history := by simp [dispatchedItems]
    obtain ⟨dropped, horder, hdrop⟩ := h.order
    obtain rfl : dropped = [] := hdrop (by simpa using hopen)
    have hcases : ∀ {item : Nat} {cmd : ControlCmd},
        update q.cmds q.next (some ⟨line, [], .controlContinue, false⟩) item = some cmd →
        item = q.next ∧ cmd = ⟨line, [], .controlContinue, false⟩ ∨
          item ≠ q.next ∧ q.cmds item = some cmd := by
      intro item cmd hcmd
      rcases update_eq_some hcmd with ⟨heq, hnew⟩ | hold
      · exact .inl ⟨heq, (Option.some.inj hnew).symm⟩
      · exact .inr hold
    exact {
      count_eq := by simp [h.count_eq]
      numbered := by
        have := h.numbered
        simp only [submittedItems, List.filterMap_append, List.range_succ] at this ⊢
        rw [this]
        rfl
      order := by
        refine ⟨[], ?_, fun _ => rfl⟩
        rw [hdisp, List.range_succ, horder]
        simp
      held := hdisp ▸ h.held
      closed := fun hshut => absurd hshut hopen
      present := by
        intro item hin
        by_cases heq : item = q.next
        · subst heq
          exact ⟨_, Function.update_self .., rfl⟩
        · obtain ⟨cmd, hcmd, hdone⟩ := h.present item (by simpa [heq] using hin)
          exact ⟨cmd, by rw [← hcmd]; exact Function.update_of_ne heq .., hdone⟩
      undone := by
        intro item cmd hcmd hdone
        rcases hcases hcmd with ⟨rfl, -⟩ | ⟨-, hcmd⟩
        · exact .inl (by simp)
        · rcases h.undone item cmd hcmd hdone with hin | hin
          · exact .inl (List.mem_append_left _ hin)
          · exact .inr hin
      awake := by
        intro item cmd hcmd hdone
        rcases hcases hcmd with ⟨rfl, rfl⟩ | ⟨hne, hcmd⟩
        · cases hdone
        · exact (Function.update_of_ne hne ..).trans (h.awake item cmd hcmd hdone)
      known := by
        intro item cmd hcmd
        rcases hcases hcmd with ⟨rfl, rfl⟩ | ⟨-, hcmd⟩
        · simp
        · exact List.mem_append_left _ (h.known item cmd hcmd)
      fresh := by
        intro item cmd hcmd hno
        rcases hcases hcmd with ⟨rfl, rfl⟩ | ⟨-, hcmd⟩
        · exact ⟨rfl, rfl⟩
        · exact h.fresh item cmd hcmd (hdisp ▸ hno)
      ran := by
        intro item line' result reply hin
        have hran := h.ran item line' result reply (by simpa using hin)
        have hne : item ≠ q.next := Nat.ne_of_lt (h.lt_next hran.1)
        refine ⟨List.mem_append_left _ hran.1, fun cmd hcmd => ?_⟩
        rcases hcases hcmd with ⟨heq, -⟩ | ⟨-, hcmd⟩
        · exact absurd heq hne
        · exact hran.2 cmd hcmd
      gone := by
        intro item result reply hin
        obtain ⟨hlt, hnone⟩ := h.gone item result reply (by simpa using hin)
        have hne : item ≠ q.next := Nat.ne_of_lt hlt
        exact ⟨Nat.lt_succ_of_lt hlt, (Function.update_of_ne hne ..).trans hnone⟩
      accounted := by
        intro item hlt
        by_cases heq : item = q.next
        · subst heq
          exact .inl (by simp)
        · have hlt : item < q.next := Nat.lt_of_le_of_ne (Nat.le_of_lt_succ hlt) heq
          rcases h.accounted item hlt with hcmd | ⟨result, reply, hin⟩
          · exact .inl ((Function.update_of_ne heq ..).trans_ne hcmd)
          · exact .inr ⟨result, reply, List.mem_append_left _ hin⟩
      answered := fun item result reply line result' reply' hret hdis =>
        h.answered item result reply line result' reply' (by simpa using hret) (by simpa using hdis)
      released := fun item result reply hret hno =>
        h.released item result reply (by simpa using hret) (hdisp ▸ hno) }

theorem wake_inv (h : q.Inv) (item : Nat) :
    Inv { q with waiting := update q.waiting item false } := by
  refine { h with awake := ?_ }
  intro item' cmd hcmd hdone
  by_cases heq : item' = item
  · subst heq
    exact Function.update_self ..
  · exact (Function.update_of_ne heq ..).trans (h.awake item' cmd hcmd hdone)

theorem resume_inv (h : q.Inv) (item : Nat) : (controlQueueResume q item).Inv := by
  rw [controlQueueResume]
  cases hcmd : q.cmds item with
  | none => exact h
  | some cmd =>
    dsimp only
    split
    · exact h
    split
    · rename_i hdone
      have hdisp : dispatchedItems (q.history ++ [.returned item cmd.result cmd.reply]) =
          dispatchedItems q.history := by simp [dispatchedItems]
      have hidle : ∀ {item' : Nat}, item' ∈ q.items ∨ item' ∈ q.drain.held → item' ≠ item := by
        rintro item' hin rfl
        obtain ⟨cmd', hcmd', hundone⟩ := h.present item' hin
        obtain rfl : cmd = cmd' := Option.some.inj (hcmd.symm.trans hcmd')
        rw [hdone] at hundone
        cases hundone
      have hcases : ∀ {item' : Nat} {cmd' : ControlCmd}, update q.cmds item none item' = some cmd' →
          q.cmds item' = some cmd' := by
        intro item' cmd' hcmd'
        rcases update_eq_some hcmd' with ⟨-, hnone⟩ | ⟨-, hsome⟩
        · cases hnone
        · exact hsome
      exact {
        h with
        numbered := by simpa [submittedItems] using h.numbered
        order := hdisp ▸ h.order
        held := hdisp ▸ h.held
        present := by
          intro item' hin
          obtain ⟨cmd', hcmd', hundone⟩ := h.present item' hin
          exact ⟨cmd', (Function.update_of_ne (hidle hin) ..).trans hcmd', hundone⟩
        undone := fun item' cmd' hcmd' => h.undone item' cmd' (hcases hcmd')
        awake := fun item' cmd' hcmd' => h.awake item' cmd' (hcases hcmd')
        known := fun item' cmd' hcmd' =>
          List.mem_append_left _ (h.known item' cmd' (hcases hcmd'))
        fresh := fun item' cmd' hcmd' hno => h.fresh item' cmd' (hcases hcmd') (hdisp ▸ hno)
        ran := by
          intro item' line result reply hin
          have hran := h.ran item' line result reply (by simpa using hin)
          exact ⟨List.mem_append_left _ hran.1, fun cmd' hcmd' => hran.2 cmd' (hcases hcmd')⟩
        gone := by
          intro item' result reply hin
          rcases List.mem_append.mp hin with hin | hin
          · obtain ⟨hlt, hnone⟩ := h.gone item' result reply hin
            refine ⟨hlt, ?_⟩
            by_cases heq : item' = item
            · subst heq
              exact Function.update_self ..
            · exact (Function.update_of_ne heq ..).trans hnone
          · cases List.mem_singleton.mp hin
            exact ⟨h.lt_next (h.known item cmd hcmd), Function.update_self ..⟩
        accounted := by
          intro item' hlt
          by_cases heq : item' = item
          · subst heq
            exact .inr ⟨cmd.result, cmd.reply, by simp⟩
          · rcases h.accounted item' hlt with hsome | ⟨result, reply, hin⟩
            · exact .inl ((Function.update_of_ne heq ..).trans_ne hsome)
            · exact .inr ⟨result, reply, List.mem_append_left _ hin⟩
        answered := by
          intro item' result reply line result' reply' hret hdis
          have hdis : .dispatched item' line result' reply' ∈ q.history := by simpa using hdis
          rcases List.mem_append.mp hret with hret | hret
          · exact h.answered item' result reply line result' reply' hret hdis
          · cases List.mem_singleton.mp hret
            exact (h.ran item line result' reply' hdis).2 cmd hcmd
        released := by
          intro item' result reply hret hno
          rcases List.mem_append.mp hret with hret | hret
          · exact h.released item' result reply hret (hdisp ▸ hno)
          · cases List.mem_singleton.mp hret
            exact h.fresh item cmd hcmd (hdisp ▸ hno) }
    · rename_i hundone
      refine { h with awake := ?_ }
      intro item' cmd' hcmd' hdone'
      by_cases heq : item' = item
      · subst heq
        obtain rfl : cmd = cmd' := Option.some.inj (hcmd.symm.trans hcmd')
        exact absurd hdone' hundone
      · exact (Function.update_of_ne heq ..).trans (h.awake item' cmd' hcmd' hdone')

/-- The loop takes the next command, or ends, from a state in which it holds none. -/
theorem drainLoop_inv (h : Inv { q with drain := .idle }) (batch processed : Nat) :
    (drainLoop q batch processed).Inv := by
  rw [drainLoop]
  split
  · cases hitems : q.items with
    | nil =>
      rw [hitems] at h
      simpa only [dequeueLocked, hitems] using h
    | cons item rest =>
      simp only [dequeueLocked, hitems]
      obtain ⟨dropped, horder, hdrop⟩ := h.order
      have hmem : ∀ {item' : Nat}, (item' ∈ rest ∨ item' ∈ [item]) ↔
          (item' ∈ q.items ∨ item' ∈ DrainPoint.idle.held) := by
        intro item'
        simp [hitems, DrainPoint.held, or_comm]
      exact {
        h with
        count_eq := by
          have := h.count_eq
          simp only [hitems, List.length_cons] at this
          simp [this]
        order := by
          refine ⟨dropped, ?_, hdrop⟩
          simpa [hitems, DrainPoint.pending] using horder
        held := fun item' hin => .inl hin
        closed := fun hshut => by
          have := h.closed hshut
          simp [hitems] at this
        present := fun item' hin => h.present item' (hmem.mp hin)
        undone := fun item' cmd hcmd hdone => hmem.mpr (h.undone item' cmd hcmd hdone) }
  · exact h

theorem drain_inv (h : q.Inv) : (controlQueueDrain q).Inv := by
  rw [controlQueueDrain]
  split
  · rename_i hidle
    apply drainLoop_inv
    rwa [← hidle]
  · exact h

/-- What the loop has not run was not dispatched. -/
theorem Inv.pending_fresh (h : q.Inv) {item : Nat} (hin : item ∈ q.drain.pending) :
    item ∉ dispatchedItems q.history := by
  obtain ⟨dropped, horder, -⟩ := h.order
  have hnodup := @List.nodup_range q.next
  rw [horder, List.nodup_append] at hnodup
  intro hdis
  exact hnodup.2.2 item hdis item (List.mem_append_left _ hin) rfl

/-- What the loop holds is not queued. -/
theorem Inv.held_not_queued (h : q.Inv) {item : Nat} (hin : item ∈ q.drain.held) :
    item ∉ q.items := by
  obtain ⟨dropped, horder, -⟩ := h.order
  have hnodup := @List.nodup_range q.next
  rw [horder, ← List.append_assoc, List.nodup_append] at hnodup
  have hfront : item ∈ dispatchedItems q.history ++ q.drain.pending := by
    rcases h.held item hin with hpend | hdis
    · exact List.mem_append_right _ hpend
    · exact List.mem_append_left _ hdis
  intro hqueued
  exact hnodup.2.2 item hfront item (List.mem_append_left _ hqueued) rfl

theorem dispatch_inv (h : q.Inv)
    (dispatch : Emu → List Byte → ControlResult × List Byte × Emu) :
    (drainDispatch dispatch q).Inv := by
  rw [drainDispatch]
  split
  · rename_i item batch processed hpopped
    have hheld : ∀ item', item' ∈ q.drain.held ↔ item' = item := by
      simp [hpopped, DrainPoint.held]
    have hfresh : item ∉ dispatchedItems q.history :=
      h.pending_fresh (by simp [hpopped, DrainPoint.pending])
    obtain ⟨cmd, hcmd, hundone⟩ := h.present item (.inr ((hheld item).mpr rfl))
    rw [hcmd]
    dsimp only
    obtain ⟨result, reply, emu⟩ := dispatch q.emu cmd.line
    dsimp only
    have hdisp : dispatchedItems (q.history ++ [.dispatched item cmd.line result reply]) =
        dispatchedItems q.history ++ [item] := by simp [dispatchedItems]
    have hcases : ∀ {item' : Nat} {cmd' : ControlCmd},
        update q.cmds item (some { cmd with result, reply }) item' = some cmd' →
        item' = item ∧ cmd' = { cmd with result, reply } ∨
          item' ≠ item ∧ q.cmds item' = some cmd' := by
      intro item' cmd' hcmd'
      rcases update_eq_some hcmd' with ⟨heq, hnew⟩ | hold
      · exact .inl ⟨heq, (Option.some.inj hnew).symm⟩
      · exact .inr hold
    have hsome : ∀ item', q.cmds item' ≠ none →
        update q.cmds item (some { cmd with result, reply }) item' ≠ none := by
      intro item' hsome
      by_cases heq : item' = item
      · subst heq
        rw [Function.update_self]
        exact Option.some_ne_none _
      · rwa [Function.update_of_ne heq]
    exact {
      count_eq := h.count_eq
      numbered := by simpa [submittedItems] using h.numbered
      order := by
        obtain ⟨dropped, horder, hdrop⟩ := h.order
        refine ⟨dropped, ?_, hdrop⟩
        rw [hdisp, horder]
        simp [hpopped, DrainPoint.pending]
      held := by
        rw [hdisp]
        simp [DrainPoint.held]
      closed := h.closed
      present := by
        intro item' hin
        by_cases heq : item' = item
        · subst heq
          exact ⟨_, Function.update_self .., hundone⟩
        · obtain ⟨cmd', hcmd', hdone⟩ := h.present item' (by simpa [hpopped, DrainPoint.held] using hin)
          exact ⟨cmd', (Function.update_of_ne heq ..).trans hcmd', hdone⟩
      undone := by
        intro item' cmd' hcmd' hdone
        rcases hcases hcmd' with ⟨rfl, -⟩ | ⟨-, hcmd'⟩
        · exact .inr (by simp [DrainPoint.held])
        · simpa [hpopped, DrainPoint.held] using h.undone item' cmd' hcmd' hdone
      awake := by
        intro item' cmd' hcmd' hdone
        rcases hcases hcmd' with ⟨rfl, rfl⟩ | ⟨-, hcmd'⟩
        · exact h.awake _ cmd hcmd hdone
        · exact h.awake item' cmd' hcmd' hdone
      known := by
        intro item' cmd' hcmd'
        rcases hcases hcmd' with ⟨rfl, rfl⟩ | ⟨-, hcmd'⟩
        · exact List.mem_append_left _ (h.known _ cmd hcmd)
        · exact List.mem_append_left _ (h.known item' cmd' hcmd')
      fresh := by
        intro item' cmd' hcmd' hno
        rw [hdisp] at hno
        rcases hcases hcmd' with ⟨rfl, -⟩ | ⟨-, hcmd'⟩
        · exact absurd (by simp) hno
        · exact h.fresh item' cmd' hcmd' fun hin => hno (List.mem_append_left _ hin)
      ran := by
        intro item' line result' reply' hin
        rcases List.mem_append.mp hin with hold | hnew
        · have hran := h.ran item' line result' reply' hold
          have hdis : item' ∈ dispatchedItems q.history := mem_dispatchedItems.mpr ⟨_, _, _, hold⟩
          refine ⟨List.mem_append_left _ hran.1, fun cmd' hcmd' => ?_⟩
          rcases hcases hcmd' with ⟨heq, -⟩ | ⟨-, hcmd'⟩
          · exact absurd (heq ▸ hdis) hfresh
          · exact hran.2 cmd' hcmd'
        · cases List.mem_singleton.mp hnew
          refine ⟨List.mem_append_left _ (h.known item cmd hcmd), fun cmd' hcmd' => ?_⟩
          rcases hcases hcmd' with ⟨-, rfl⟩ | ⟨hne, -⟩
          · exact ⟨rfl, rfl⟩
          · exact absurd rfl hne
      gone := by
        intro item' result' reply' hin
        obtain ⟨hlt, hnone⟩ := h.gone item' result' reply' (by simpa using hin)
        have hne : item' ≠ item := by
          rintro rfl
          rw [hcmd] at hnone
          cases hnone
        exact ⟨hlt, (Function.update_of_ne hne ..).trans hnone⟩
      accounted := by
        intro item' hlt
        rcases h.accounted item' hlt with hsm | ⟨result', reply', hin⟩
        · exact .inl (hsome item' hsm)
        · exact .inr ⟨result', reply', List.mem_append_left _ hin⟩
      answered := by
        intro item' result' reply' line result'' reply'' hret hdis
        have hret : .returned item' result' reply' ∈ q.history := by simpa using hret
        rcases List.mem_append.mp hdis with hdis | hdis
        · exact h.answered item' result' reply' line result'' reply'' hret hdis
        · cases List.mem_singleton.mp hdis
          have hnone := (h.gone item result' reply' hret).2
          rw [hcmd] at hnone
          cases hnone
      released := by
        intro item' result' reply' hret hno
        rw [hdisp] at hno
        exact h.released item' result' reply' (by simpa using hret) fun hin =>
          hno (List.mem_append_left _ hin) }
  · exact h

theorem complete_inv (h : q.Inv) : (drainComplete q).Inv := by
  rw [drainComplete]
  split
  · rename_i item batch processed hran
    apply drainLoop_inv
    obtain ⟨cmd, hcmd, hundone⟩ := h.present item (.inr (by simp [hran, DrainPoint.held]))
    rw [hcmd, Option.map_some]
    have hidle : item ∉ q.items := h.held_not_queued (by simp [hran, DrainPoint.held])
    have hcases : ∀ {item' : Nat} {cmd' : ControlCmd},
        update q.cmds item (some { cmd with done := true }) item' = some cmd' →
        item' = item ∧ cmd' = { cmd with done := true } ∨
          item' ≠ item ∧ q.cmds item' = some cmd' := by
      intro item' cmd' hcmd'
      rcases update_eq_some hcmd' with ⟨heq, hnew⟩ | hold
      · exact .inl ⟨heq, (Option.some.inj hnew).symm⟩
      · exact .inr hold
    exact {
      h with
      order := by
        obtain ⟨dropped, horder, hdrop⟩ := h.order
        exact ⟨dropped, by simpa [hran, DrainPoint.pending] using horder, hdrop⟩
      held := by simp [DrainPoint.held]
      present := by
        intro item' hin
        have hqueued : item' ∈ q.items := by simpa [DrainPoint.held] using hin
        have hne : item' ≠ item := fun heq => hidle (heq ▸ hqueued)
        obtain ⟨cmd', hcmd', hdone⟩ := h.present item' (.inl hqueued)
        exact ⟨cmd', (Function.update_of_ne hne ..).trans hcmd', hdone⟩
      undone := by
        intro item' cmd' hcmd' hdone
        rcases hcases hcmd' with ⟨-, rfl⟩ | ⟨hne, hcmd'⟩
        · cases hdone
        · simpa [hran, DrainPoint.held, hne] using h.undone item' cmd' hcmd' hdone
      awake := by
        intro item' cmd' hcmd' hdone
        rcases hcases hcmd' with ⟨rfl, -⟩ | ⟨hne, hcmd'⟩
        · exact Function.update_self ..
        · exact (Function.update_of_ne hne ..).trans (h.awake item' cmd' hcmd' hdone)
      known := by
        intro item' cmd' hcmd'
        rcases hcases hcmd' with ⟨rfl, rfl⟩ | ⟨-, hcmd'⟩
        · exact h.known _ cmd hcmd
        · exact h.known item' cmd' hcmd'
      fresh := by
        intro item' cmd' hcmd' hno
        rcases hcases hcmd' with ⟨rfl, rfl⟩ | ⟨-, hcmd'⟩
        · exact h.fresh _ cmd hcmd hno
        · exact h.fresh item' cmd' hcmd' hno
      ran := by
        intro item' line result reply hin
        refine ⟨(h.ran item' line result reply hin).1, fun cmd' hcmd' => ?_⟩
        rcases hcases hcmd' with ⟨rfl, rfl⟩ | ⟨-, hcmd'⟩
        · exact (h.ran _ line result reply hin).2 cmd hcmd
        · exact (h.ran item' line result reply hin).2 cmd' hcmd'
      gone := by
        intro item' result reply hin
        obtain ⟨hlt, hnone⟩ := h.gone item' result reply hin
        have hne : item' ≠ item := by
          rintro rfl
          rw [hcmd] at hnone
          cases hnone
        exact ⟨hlt, (Function.update_of_ne hne ..).trans hnone⟩
      accounted := by
        intro item' hlt
        rcases h.accounted item' hlt with hsome | hret
        · refine .inl ?_
          by_cases heq : item' = item
          · subst heq
            exact (Function.update_self ..).trans_ne (Option.some_ne_none _)
          · exact (Function.update_of_ne heq ..).trans_ne hsome
        · exact .inr hret }
  · exact h

theorem shutdown_inv (h : q.Inv) : (controlQueueShutdown q).Inv := by
  have hcases : ∀ {item : Nat} {cmd : ControlCmd},
      (controlQueueShutdown q).cmds item = some cmd →
      (item ∈ q.items ∧ ∃ old, q.cmds item = some old ∧
        cmd = { old with result := .controlContinue, done := true }) ∨
      item ∉ q.items ∧ q.cmds item = some cmd := by
    intro item cmd hcmd
    by_cases hin : item ∈ q.items
    · obtain ⟨old, hold, -⟩ := h.present item (.inl hin)
      refine .inl ⟨hin, old, hold, ?_⟩
      simpa [controlQueueShutdown, hin, hold, eq_comm] using hcmd
    · exact .inr ⟨hin, by simpa [controlQueueShutdown, hin] using hcmd⟩
  have hkeep : ∀ {item : Nat}, item ∉ q.items →
      (controlQueueShutdown q).cmds item = q.cmds item := fun hin => if_neg hin
  have hwait : ∀ {item : Nat}, item ∉ q.items → q.waiting item = false →
      (controlQueueShutdown q).waiting item = false := by
    intro item hin hfalse
    simp [controlQueueShutdown, hfalse]
  obtain ⟨dropped, horder, hdrop⟩ := h.order
  have hnodup := @List.nodup_range q.next
  rw [horder, List.nodup_append] at hnodup
  exact {
    count_eq := rfl
    numbered := h.numbered
    order := ⟨q.items ++ dropped, horder, fun hopen => by cases hopen⟩
    held := h.held
    closed := fun _ => rfl
    present := by
      rintro item (hin | hin)
      · cases hin
      · have hidle : item ∉ q.items := h.held_not_queued hin
        obtain ⟨cmd, hcmd, hdone⟩ := h.present item (.inr hin)
        exact ⟨cmd, (hkeep hidle).trans hcmd, hdone⟩
    undone := by
      intro item cmd hcmd hdone
      rcases hcases hcmd with ⟨-, old, -, rfl⟩ | ⟨hidle, hcmd⟩
      · cases hdone
      · exact .inr ((h.undone item cmd hcmd hdone).resolve_left hidle)
    awake := by
      intro item cmd hcmd hdone
      rcases hcases hcmd with ⟨hin, -⟩ | ⟨hidle, hcmd⟩
      · simp [controlQueueShutdown, hin]
      · exact hwait hidle (h.awake item cmd hcmd hdone)
    known := by
      intro item cmd hcmd
      rcases hcases hcmd with ⟨-, old, hold, rfl⟩ | ⟨-, hcmd⟩
      · exact h.known item old hold
      · exact h.known item cmd hcmd
    fresh := by
      intro item cmd hcmd hno
      rcases hcases hcmd with ⟨-, old, hold, rfl⟩ | ⟨-, hcmd⟩
      · exact ⟨rfl, (h.fresh item old hold hno).2⟩
      · exact h.fresh item cmd hcmd hno
    ran := by
      intro item line result reply hin
      refine ⟨(h.ran item line result reply hin).1, fun cmd hcmd => ?_⟩
      rcases hcases hcmd with ⟨hqueued, -⟩ | ⟨-, hcmd⟩
      · have hdis : item ∈ dispatchedItems q.history := mem_dispatchedItems.mpr ⟨_, _, _, hin⟩
        exact absurd rfl (hnodup.2.2 item hdis item
          (List.mem_append_right _ (List.mem_append_left _ hqueued)))
      · exact (h.ran item line result reply hin).2 cmd hcmd
    gone := by
      intro item result reply hin
      obtain ⟨hlt, hnone⟩ := h.gone item result reply hin
      refine ⟨hlt, ?_⟩
      cases hcmd : (controlQueueShutdown q).cmds item with
      | none => rfl
      | some cmd =>
        rcases hcases hcmd with ⟨-, old, hold, -⟩ | ⟨-, hsome⟩
        · rw [hold] at hnone
          cases hnone
        · rw [hsome] at hnone
          cases hnone
    accounted := by
      intro item hlt
      rcases h.accounted item hlt with hsome | hret
      · refine .inl ?_
        by_cases hin : item ∈ q.items
        · obtain ⟨old, hold, -⟩ := h.present item (.inl hin)
          simp [controlQueueShutdown, hin, hold]
        · rwa [hkeep hin]
      · exact .inr hret
    answered := h.answered
    released := h.released }

/-! ## Runs -/

section Runs

variable (dispatch : Emu → List Byte → ControlResult × List Byte × Emu)

/-- Every reply is what the command's dispatch gave. -/
def Genuine (q : ControlQueue Emu) : Prop :=
  ∀ item line result reply, .dispatched item line result reply ∈ q.history →
    ∃ emu, (dispatch emu line).1 = result ∧ (dispatch emu line).2.1 = reply

variable {dispatch}

theorem drainLoop_history (q : ControlQueue Emu) (batch processed : Nat) :
    (drainLoop q batch processed).history = q.history := by
  rw [drainLoop]
  split
  · cases hitems : q.items <;> simp only [dequeueLocked, hitems]
  · rfl

theorem step_genuine (h : q.Genuine dispatch) (op : ControlOp) :
    (controlStep dispatch q op).Genuine dispatch := by
  intro item line result reply hin
  cases op with
  | submit line' =>
    simp only [controlStep, controlQueueSubmit] at hin
    split at hin <;> exact h item line result reply (by simpa using hin)
  | wake item' => exact h item line result reply hin
  | resume item' =>
    simp only [controlStep, controlQueueResume] at hin
    cases hcmd : q.cmds item' <;> simp only [hcmd] at hin
    · exact h item line result reply hin
    · split at hin
      · exact h item line result reply hin
      split at hin <;> exact h item line result reply (by simpa using hin)
  | drain =>
    simp only [controlStep, controlQueueDrain] at hin
    split at hin
    · rw [drainLoop_history] at hin
      exact h item line result reply hin
    · exact h item line result reply hin
  | dispatch =>
    simp only [controlStep, drainDispatch] at hin
    split at hin
    · rename_i item' _ _ _
      cases hcmd : q.cmds item' <;> simp only [hcmd] at hin
      · exact h item line result reply hin
      · rcases List.mem_append.mp hin with hold | hnew
        · exact h item line result reply hold
        · cases List.mem_singleton.mp hnew
          exact ⟨q.emu, rfl, rfl⟩
    · exact h item line result reply hin
  | complete =>
    simp only [controlStep, drainComplete] at hin
    split at hin
    · rw [drainLoop_history] at hin
      exact h item line result reply hin
    · exact h item line result reply hin
  | shutdown => exact h item line result reply hin

theorem step_inv (h : q.Inv) (op : ControlOp) : (controlStep dispatch q op).Inv := by
  cases op with
  | submit line => exact submit_inv h line
  | wake item => exact wake_inv h item
  | resume item => exact resume_inv h item
  | drain => exact drain_inv h
  | dispatch => exact dispatch_inv h dispatch
  | complete => exact complete_inv h
  | shutdown => exact shutdown_inv h

theorem run_inv (emu : Emu) (ops : List ControlOp) :
    (ops.foldl (controlStep dispatch) (controlQueueCreate emu)).Inv ∧
      (ops.foldl (controlStep dispatch) (controlQueueCreate emu)).Genuine dispatch := by
  have hstep : ∀ (ops : List ControlOp) (q : ControlQueue Emu), q.Inv → q.Genuine dispatch →
      (ops.foldl (controlStep dispatch) q).Inv ∧
        (ops.foldl (controlStep dispatch) q).Genuine dispatch := by
    intro ops
    induction ops with
    | nil => exact fun q hinv hgen => ⟨hinv, hgen⟩
    | cons op ops ih => exact fun q hinv hgen => ih _ (step_inv hinv op) (step_genuine hgen op)
  exact hstep ops _ (inv_create emu) (by simp [Genuine, controlQueueCreate])

end Runs

/-- A queue shut down has nothing left to take, so the loop ends with the item it holds. -/
theorem Inv.drained (h : q.Inv) (hshut : q.shuttingDown = true)
    (dispatch : Emu → List Byte → ControlResult × List Byte × Emu) :
    (drainComplete (drainDispatch dispatch q)).drain = .idle := by
  have hnil := h.closed hshut
  have hloop : ∀ (q : ControlQueue Emu) (batch processed : Nat), q.items = [] →
      (drainLoop q batch processed).drain = .idle := by
    intro q batch processed hitems
    rw [drainLoop]
    split
    · simp only [dequeueLocked, hitems]
    · rfl
  cases hdrain : q.drain with
  | idle => simp [drainDispatch, drainComplete, hdrain]
  | popped item batch processed =>
    obtain ⟨cmd, hcmd, -⟩ := h.present item (.inr (by simp [hdrain, DrainPoint.held]))
    simp only [drainDispatch, hdrain, hcmd, drainComplete]
    exact hloop _ _ _ hnil
  | ran item batch processed =>
    simp only [drainDispatch, hdrain, drainComplete]
    exact hloop _ _ _ hnil

/-- After the shutdown a producer whose item the loop does not hold returns when it next runs. -/
theorem Inv.resume_returns (h : q.Inv) (hshut : q.shuttingDown = true) {item : Nat}
    {cmd : ControlCmd} (hcmd : q.cmds item = some cmd) (hheld : item ∉ q.drain.held) :
    q.waiting item = false ∧ .returned item cmd.result cmd.reply ∈
      (controlQueueResume q item).history := by
  have hdone : cmd.done = true := by
    by_contra hundone
    rcases h.undone item cmd hcmd (by simpa using hundone) with hin | hin
    · rw [h.closed hshut] at hin
      cases hin
    · exact hheld hin
  have hawake := h.awake item cmd hcmd hdone
  refine ⟨hawake, ?_⟩
  simp [controlQueueResume, hcmd, hawake, hdone]

end ControlQueue

end Phosphoric
