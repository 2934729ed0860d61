import Phosphoric.Lib.Machine
import Mathlib.Tactic.SplitIfs

/-!
# The Cast heartbeat

`castv2_send`, `heartbeat_thread_func` and the start of `castv2_disconnect` (`src/network/castv2.c`),
as steps of two threads that share `hb_mutex` and `heartbeat_running`. A step is what a thread does
between two looks at what it shares; a thread whose lock is taken stays where it is.

**Theorem (`castv2Threads_ok_iff`).** No thread requests the mutex it holds, and no two `SSL_write`s
are in progress while the heartbeat runs, exactly in the runs where each send of the heartbeat finds
`heartbeat_running` clear.

The heartbeat sends from inside its critical section, and `castv2_send` locks again whenever the flag
is set: with nobody disconnecting, the first heartbeat waits for itself (`castv2Threads_deadlock`).
-/

namespace Phosphoric

/-! ## The threads -/

inductive Castv2Thread
  | heartbeat | main
  deriving DecidableEq

/-- Where a thread is in `castv2_send`: before it reads the flag, at the request for the mutex, in
`SSL_write`, before it unlocks. -/
inductive Castv2SendPc
  | flag
  | lock
  | write (locked : Bool)
  | unlock
  deriving DecidableEq

/-- Where the heartbeat is: at the test of its loop, asleep, at the test after, at its request for
the mutex, in its critical section with `left` sends to do, in one of them, before it unlocks, at
its end. -/
inductive HeartbeatPc
  | test
  | sleep
  | awake
  | lock
  | body (left : Nat)
  | send (left : Nat) (pc : Castv2SendPc)
  | unlock
  | ended
  deriving DecidableEq

/-- Where the main thread is: `cancel` and `join` are those of `castv2_disconnect`. -/
inductive Castv2MainPc
  | idle
  | send (pc : Castv2SendPc)
  | cancel
  | join
  deriving DecidableEq

/-- `transport` and `url`: `transport_id` and `stream_url` are not empty. -/
structure Castv2Threads where
  transport : Bool
  url : Bool
  owner : Option Castv2Thread
  running : Bool
  cancelled : Bool
  cycle : Nat
  heartbeat : HeartbeatPc
  main : Castv2MainPc
  deriving DecidableEq

/-- The heartbeat just created. -/
def castv2Started (transport url : Bool) : Castv2Threads where
  transport := transport
  url := url
  owner := none
  running := true
  cancelled := false
  cycle := 0
  heartbeat := .test
  main := .idle

/-- A step of `castv2_send`: the next place, `none` after its return, and the mutex's owner. -/
def castv2SendStep (thread : Castv2Thread) (running : Bool) (owner : Option Castv2Thread) :
    Castv2SendPc → Option Castv2SendPc × Option Castv2Thread
  | .flag => (some (if running then .lock else .write false), owner)
  | .lock => if owner = none then (some (.write true), some thread) else (some .lock, owner)
  | .write locked => (if locked then some .unlock else none, owner)
  | .unlock => (none, none)

/-- The sends of a heartbeat: the pings, and now and then the status and the URL. -/
def heartbeatSends (transport url : Bool) (cycle : Nat) : Nat :=
  1 + (if transport then 1 else 0) + (if cycle % 6 = 0 ∧ transport then 1 else 0) +
    (if cycle % 12 = 0 ∧ transport ∧ url then 1 else 0)

def heartbeatStep (s : Castv2Threads) : Castv2Threads :=
  match s.heartbeat with
  | .test => { s with heartbeat := if s.running then .sleep else .ended }
  | .sleep => { s with heartbeat := .awake }
  | .awake => { s with heartbeat := if s.running then .lock else .ended }
  | .lock =>
    if s.owner = none then
      { s with
        owner := some .heartbeat, cycle := s.cycle + 1
        heartbeat := .body (heartbeatSends s.transport s.url (s.cycle + 1)) }
    else s
  | .body 0 => { s with heartbeat := .unlock }
  | .body (left + 1) => { s with heartbeat := .send left .flag }
  | .send left pc =>
    let (next, owner) := castv2SendStep .heartbeat s.running s.owner pc
    { s with owner, heartbeat := (next.map (HeartbeatPc.send left)).getD (.body left) }
  | .unlock => { s with owner := none, heartbeat := .test }
  | .ended => s

def castv2MainStep (s : Castv2Threads) : Castv2Threads :=
  match s.main with
  | .idle => s
  | .send pc =>
    let (next, owner) := castv2SendStep .main s.running s.owner pc
    { s with owner, main := (next.map Castv2MainPc.send).getD .idle }
  | .cancel => { s with cancelled := true, main := .join }
  | .join => if s.heartbeat = .ended then { s with main := .idle } else s

/-- The heartbeat is where a cancellation is acted upon: asleep, or in `SSL_write`. -/
def HeartbeatPc.cancellable : HeartbeatPc → Bool
  | .sleep => true
  | .send _ (.write _) => true
  | _ => false

/-- What happens next: a step of a thread, a cancellation acted upon, or the main thread's call of
`castv2_send` or `castv2_disconnect`. -/
inductive Castv2Event
  | heartbeat
  | main
  | cancelled
  | send
  | disconnect
  deriving DecidableEq

def castv2ThreadsStep (s : Castv2Threads) : Castv2Event → Castv2Threads
  | .heartbeat => heartbeatStep s
  | .main => castv2MainStep s
  | .cancelled =>
    if s.cancelled ∧ s.heartbeat.cancellable then { s with heartbeat := .ended } else s
  | .send => if s.main = .idle then { s with main := .send .flag } else s
  | .disconnect =>
    if s.main = .idle ∧ s.running then { s with running := false, main := .cancel } else s

/-! ## What may go wrong -/

/-- The thread is at a request for the mutex. -/
def Castv2Threads.Requests (s : Castv2Threads) : Castv2Thread → Prop
  | .heartbeat => s.heartbeat = .lock ∨ ∃ left, s.heartbeat = .send left .lock
  | .main => s.main = .send .lock

/-- The thread is in `SSL_write`. -/
def Castv2Threads.Writes (s : Castv2Threads) : Castv2Thread → Prop
  | .heartbeat => ∃ left locked, s.heartbeat = .send left (.write locked)
  | .main => ∃ locked, s.main = .send (.write locked)

structure Castv2Threads.Ok (s : Castv2Threads) : Prop where
  requests : ∀ thread, s.Requests thread → s.owner ≠ some thread
  writes : s.heartbeat ≠ .ended → ¬(s.Writes .heartbeat ∧ s.Writes .main)

/-- A send of the heartbeat does not find the flag set. -/
def Castv2Threads.Clear (s : Castv2Threads) (event : Castv2Event) : Prop :=
  event = .heartbeat → ∀ left, s.heartbeat = .send left .flag → s.running = false

/-! ## The invariant -/

/-- The heartbeat is in its critical section. -/
def HeartbeatPc.inside : HeartbeatPc → Prop
  | .body _ | .send _ _ | .unlock => True
  | _ => False

/-- The main thread has locked the mutex. -/
def Castv2MainPc.locked : Castv2MainPc → Prop
  | .send (.write true) | .send .unlock => True
  | _ => False

structure Castv2Threads.Inv (s : Castv2Threads) : Prop where
  /-- The critical section has its mutex. -/
  inside : s.heartbeat.inside → s.owner = some .heartbeat
  owner : s.owner = some .main ↔ s.main.locked
  outside : s.owner = some .heartbeat → s.heartbeat.inside ∨ s.heartbeat = .ended
  /-- The sends of the heartbeat never get the mutex a second time. -/
  sends : ∀ left pc, s.heartbeat = .send left pc → pc = .flag ∨ pc = .lock ∨
    pc = .write false ∧ s.running = false
  /-- The main thread waits for the heartbeat once it has cleared the flag. -/
  stopped : s.running = false → s.heartbeat = .ended ∨ s.main = .cancel ∨ s.main = .join
  /-- A write without the mutex is one with the flag clear. -/
  unlocked : s.main = .send (.write false) → s.running = false

/-! ## Steps -/

section Steps

variable {s : Castv2Threads}

/-- The heartbeat moves, into its critical section or out of it only as it was. -/
theorem Castv2Threads.Inv.heartbeat_to (h : s.Inv) (hlive : s.heartbeat ≠ .ended)
    {pc : HeartbeatPc} (hinside : pc.inside ↔ s.heartbeat.inside)
    (hsends : ∀ left sendPc, pc = .send left sendPc → sendPc = .flag ∨ sendPc = .lock ∨
      sendPc = .write false ∧ s.running = false) :
    Castv2Threads.Inv { s with heartbeat := pc } where
  inside hin := h.inside (hinside.mp hin)
  owner := h.owner
  outside hown := .inl (hinside.mpr ((h.outside hown).resolve_right hlive))
  sends := hsends
  stopped hrun := .inr ((h.stopped hrun).resolve_left hlive)
  unlocked := h.unlocked

theorem Castv2Threads.Inv.heartbeat_outside (h : s.Inv) (hlive : s.heartbeat ≠ .ended)
    (hout : ¬s.heartbeat.inside) {pc : HeartbeatPc} (hpc : ¬pc.inside) :
    Castv2Threads.Inv { s with heartbeat := pc } := by
  refine h.heartbeat_to hlive (iff_of_false hpc hout) ?_
  rintro left sendPc rfl
  exact absurd trivial hpc

/-- The heartbeat locks the mutex. -/
theorem Castv2Threads.Inv.heartbeat_locks (h : s.Inv) (hlive : s.heartbeat ≠ .ended)
    (hfree : s.owner = none) (left cycle : Nat) :
    Castv2Threads.Inv
      { s with owner := some .heartbeat, cycle := cycle, heartbeat := .body left } where
  inside _ := rfl
  owner := by
    rw [← h.owner, hfree]
    exact iff_of_false nofun nofun
  outside _ := .inl trivial
  sends := nofun
  stopped hrun := .inr ((h.stopped hrun).resolve_left hlive)
  unlocked := h.unlocked

/-- The heartbeat unlocks it. -/
theorem Castv2Threads.Inv.heartbeat_unlocks (h : s.Inv) (hhb : s.heartbeat = .unlock) :
    Castv2Threads.Inv { s with owner := none, heartbeat := .test } where
  inside := nofun
  owner := by
    have hown : s.owner = some .heartbeat := h.inside (by rw [hhb]; trivial)
    rw [← h.owner, hown]
    exact iff_of_false nofun nofun
  outside := nofun
  sends := nofun
  stopped hrun := .inr ((h.stopped hrun).resolve_left (by rw [hhb]; exact nofun))
  unlocked := h.unlocked

theorem heartbeatStep_inv (h : s.Inv) (hok : s.Ok) : (heartbeatStep s).Inv := by
  unfold heartbeatStep
  cases hhb : s.heartbeat with
  | test =>
    refine h.heartbeat_outside (by rw [hhb]; exact nofun) (by rw [hhb]; exact id) ?_
    split_ifs
    · exact id
    · exact id
  | sleep => exact h.heartbeat_outside (by rw [hhb]; exact nofun) (by rw [hhb]; exact id) id
  | awake =>
    refine h.heartbeat_outside (by rw [hhb]; exact nofun) (by rw [hhb]; exact id) ?_
    split_ifs
    · exact id
    · exact id
  | lock =>
    dsimp only
    split_ifs with hfree
    · exact h.heartbeat_locks (by rw [hhb]; exact nofun) hfree _ _
    · exact h
  | body left =>
    cases left with
    | zero => exact h.heartbeat_to (by rw [hhb]; exact nofun) (by rw [hhb]; exact Iff.rfl) nofun
    | succ left =>
      refine h.heartbeat_to (by rw [hhb]; exact nofun) (by rw [hhb]; exact Iff.rfl) ?_
      rintro _ _ ⟨⟩
      exact .inl rfl
  | send left pc =>
    cases pc with
    | flag =>
      refine h.heartbeat_to (by rw [hhb]; exact nofun) (by rw [hhb]; exact Iff.rfl) ?_
      rintro _ _ ⟨⟩
      cases s.running with
      | true => exact .inr (.inl rfl)
      | false => exact .inr (.inr ⟨rfl, rfl⟩)
    | lock =>
      have hinside : s.heartbeat.inside := by
        rw [hhb]
        trivial
      exact absurd (h.inside hinside) (hok.requests .heartbeat (.inr ⟨left, hhb⟩))
    | write locked =>
      obtain hpc | hpc | ⟨hpc, -⟩ := h.sends left (.write locked) hhb
      · nomatch hpc
      · nomatch hpc
      · cases hpc
        exact h.heartbeat_to (by rw [hhb]; exact nofun) (by rw [hhb]; exact Iff.rfl) nofun
    | unlock =>
      obtain hpc | hpc | ⟨hpc, -⟩ := h.sends left .unlock hhb
      all_goals nomatch hpc
  | unlock => exact h.heartbeat_unlocks hhb
  | ended => exact h

/-- The main thread moves, and locks and unlocks nothing. -/
theorem Castv2Threads.Inv.main_to (h : s.Inv) (pc : Castv2MainPc)
    (hlocked : pc.locked ↔ s.main.locked)
    (hstopped : s.main = .cancel ∨ s.main = .join → s.heartbeat = .ended ∨ pc = .cancel ∨ pc = .join)
    (hunlocked : pc = .send (.write false) → s.running = false) (cancelled : Bool) :
    Castv2Threads.Inv { s with cancelled := cancelled, main := pc } where
  inside := h.inside
  owner := h.owner.trans hlocked.symm
  outside := h.outside
  sends := h.sends
  stopped hrun := (h.stopped hrun).elim .inl hstopped
  unlocked := hunlocked

/-- The main thread, inside `castv2_send`, locks the mutex. -/
theorem Castv2Threads.Inv.main_locks (h : s.Inv) {pc : Castv2SendPc} (hmain : s.main = .send pc)
    (hfree : s.owner = none) :
    Castv2Threads.Inv { s with owner := some .main, main := .send (.write true) } where
  inside hin := by
    rw [h.inside hin] at hfree
    nomatch hfree
  owner := iff_of_true rfl trivial
  outside := nofun
  sends := h.sends
  stopped hrun := by
    have hended := h.stopped hrun
    rw [hmain] at hended
    exact .inl (hended.resolve_right (by rintro (hpc | hpc) <;> nomatch hpc))
  unlocked := nofun

/-- And unlocks it. -/
theorem Castv2Threads.Inv.main_unlocks (h : s.Inv) (hmain : s.main = .send .unlock) :
    Castv2Threads.Inv { s with owner := none, main := .idle } where
  inside hin := by
    have hown : s.owner = some .main := h.owner.mpr (by rw [hmain]; trivial)
    rw [h.inside hin] at hown
    nomatch hown
  owner := iff_of_false nofun id
  outside := nofun
  sends := h.sends
  stopped hrun := by
    have hended := h.stopped hrun
    rw [hmain] at hended
    exact .inl (hended.resolve_right (by rintro (hpc | hpc) <;> nomatch hpc))
  unlocked := nofun

theorem castv2MainStep_inv (h : s.Inv) : (castv2MainStep s).Inv := by
  unfold castv2MainStep
  cases hmain : s.main with
  | idle => exact h
  | send pc =>
    have hsend : ¬(s.main = .cancel ∨ s.main = .join) := by
      rw [hmain]
      rintro (hpc | hpc) <;> nomatch hpc
    cases pc with
    | flag =>
      refine h.main_to _ ?_ (fun hstop => absurd hstop hsend) ?_ s.cancelled
      · rw [hmain]
        cases s.running <;> exact Iff.rfl
      · intro hpc
        cases hrun : s.running with
        | false => rfl
        | true =>
          rw [hrun] at hpc
          nomatch hpc
    | lock =>
      unfold castv2SendStep
      dsimp only
      split_ifs with hfree
      · exact h.main_locks hmain hfree
      · exact h.main_to (.send .lock) (by rw [hmain])
          (fun hstop => absurd hstop hsend) nofun s.cancelled
    | write locked =>
      refine h.main_to _ ?_ (fun hstop => absurd hstop hsend) ?_ s.cancelled
      · rw [hmain]
        cases locked <;> exact Iff.rfl
      · cases locked <;> exact nofun
    | unlock => exact h.main_unlocks hmain
  | cancel =>
    exact h.main_to .join (by rw [hmain]; exact Iff.rfl) (fun _ => .inr (.inr rfl)) nofun true
  | join =>
    dsimp only
    split_ifs with hended
    · exact h.main_to .idle (by rw [hmain]; exact Iff.rfl) (fun _ => .inl hended) nofun s.cancelled
    · exact h

theorem castv2ThreadsStep_inv (h : s.Inv) (hok : s.Ok) (event : Castv2Event) :
    (castv2ThreadsStep s event).Inv := by
  cases event with
  | heartbeat => exact heartbeatStep_inv h hok
  | main => exact castv2MainStep_inv h
  | cancelled =>
    unfold castv2ThreadsStep
    dsimp only
    split_ifs
    · exact ⟨nofun, h.owner, fun _ => .inr rfl, nofun, fun _ => .inl rfl, h.unlocked⟩
    · exact h
  | send =>
    unfold castv2ThreadsStep
    dsimp only
    split_ifs with hidle
    · refine h.main_to (.send .flag) (by rw [hidle]; exact Iff.rfl) ?_ nofun s.cancelled
      rw [hidle]
      rintro (hpc | hpc) <;> nomatch hpc
    · exact h
  | disconnect =>
    unfold castv2ThreadsStep
    dsimp only
    split_ifs with hidle
    · have howner : s.owner = some .main ↔ False := h.owner.trans (by rw [hidle.1]; exact Iff.rfl)
      refine ⟨h.inside, howner, h.outside, fun left pc hpc => ?_, fun _ => .inr (.inl rfl), nofun⟩
      exact (h.sends left pc hpc).imp_right (.imp_right fun hwrite => ⟨hwrite.1, rfl⟩)
    · exact h

/-- All that can go wrong is the heartbeat's second request. -/
theorem Castv2Threads.Inv.ok_iff (h : s.Inv) :
    s.Ok ↔ ∀ left, s.heartbeat ≠ .send left .lock := by
  constructor
  · intro hok left hpc
    have hinside : s.heartbeat.inside := by
      rw [hpc]
      trivial
    exact hok.requests .heartbeat (.inr ⟨left, hpc⟩) (h.inside hinside)
  · intro hpc
    constructor
    · intro thread hrequests hown
      cases thread with
      | heartbeat =>
        obtain hlock | ⟨left, hlock⟩ := hrequests
        · have hout := h.outside hown
          rw [hlock] at hout
          obtain hout | hout := hout
          · exact hout
          · nomatch hout
        · exact hpc left hlock
      | main =>
        have hlocked := h.owner.mp hown
        rw [show s.main = .send .lock from hrequests] at hlocked
        exact hlocked
    · rintro hrunning ⟨⟨left, locked, hwrite⟩, ⟨locked', hmain⟩⟩
      obtain hsend | hsend | ⟨-, hclear⟩ := h.sends left (.write locked) hwrite
      · nomatch hsend
      · nomatch hsend
      · obtain hended | hcancel | hjoin := h.stopped hclear
        · exact hrunning hended
        · rw [hmain] at hcancel
          nomatch hcancel
        · rw [hmain] at hjoin
          nomatch hjoin

/-- The second request comes of a send that finds the flag set. -/
theorem castv2ThreadsStep_clear_iff (hpc : ∀ left, s.heartbeat ≠ .send left .lock)
    (event : Castv2Event) :
    (∀ left, (castv2ThreadsStep s event).heartbeat ≠ .send left .lock) ↔ s.Clear event := by
  unfold Castv2Threads.Clear
  cases event with
  | heartbeat =>
    unfold castv2ThreadsStep heartbeatStep
    cases hhb : s.heartbeat with
    | body left => cases left <;> grind
    | send left pc =>
      cases pc with
      | flag => cases hrun : s.running <;> simp [castv2SendStep]
      | lock => exact absurd hhb (hpc left)
      | write locked => cases locked <;> simp [castv2SendStep]
      | unlock => simp [castv2SendStep]
    | _ => grind
  | main =>
    unfold castv2ThreadsStep castv2MainStep
    cases s.main <;> grind
  | cancelled =>
    unfold castv2ThreadsStep
    grind
  | send =>
    unfold castv2ThreadsStep
    grind
  | disconnect =>
    unfold castv2ThreadsStep
    grind

theorem castv2Started_inv (transport url : Bool) : (castv2Started transport url).Inv := by
  constructor <;> simp [castv2Started, HeartbeatPc.inside, Castv2MainPc.locked]

end Steps

/-! ## Runs -/

/-- Every state of a run is well exactly if no send of the heartbeat finds the flag set. -/
theorem castv2Threads_ok_iff (transport url : Bool) (events : List Castv2Event) :
    Machine.Throughout castv2ThreadsStep (fun s event => (castv2ThreadsStep s event).Ok) events
        (castv2Started transport url) ↔
      Machine.Throughout castv2ThreadsStep Castv2Threads.Clear events
        (castv2Started transport url) := by
  have hstart := castv2Started_inv transport url
  refine Machine.Throughout.next_iff ?_ ?_ events hstart (hstart.ok_iff.mpr nofun)
  · exact fun s event h hok => castv2ThreadsStep_inv h hok event
  · intro s event h hok
    rw [(castv2ThreadsStep_inv h hok event).ok_iff]
    exact castv2ThreadsStep_clear_iff (h.ok_iff.mp hok) event

/-- The first heartbeat, nobody disconnecting. -/
def castv2FirstPing : List Castv2Event :=
  [.heartbeat, .heartbeat, .heartbeat, .heartbeat, .heartbeat, .heartbeat]

theorem castv2Threads_deadlock :
    ¬∀ (transport url : Bool) (events : List Castv2Event), Machine.Throughout castv2ThreadsStep
      (fun s event => (castv2ThreadsStep s event).Ok) events (castv2Started transport url) := by
  intro hall
  obtain ⟨-, -, -, -, -, hok, -⟩ := hall true true castv2FirstPing
  exact hok.requests .heartbeat (.inr ⟨1, by decide⟩) (by decide)

end Phosphoric
