import Mathlib.Logic.Basic
import Mathlib.Tactic.TypeStar

/-!
# Deterministic machines: runs, invariants, simulations

A machine is a step function `State → Op → State`, or `State → Op → Out × State` when its
operations answer. Three rules carry the developments built on it:

* `Reach.invariant`: what holds initially and survives every allowed step holds of every state
  an allowed run reaches;
* `Throughout.next_iff`: a property that holds after a step exactly under a condition on the step
  holds after every step of the runs whose steps meet the condition, and of no others;
* `trace_monitor`: a monitor whose phases keep in step with the states accepts the events of every
  run;
* `runOut_simulation`: machines whose steps stay related, with equal answers, answer whole runs
  alike.
-/

namespace Machine

variable {S T Op Out : Type*}

/-! ## Reachable states -/

/-- The states reached from a state satisfying `init` by steps the side condition `ok` allows. -/
inductive Reach (step : S → Op → S) (ok : S → Op → Prop) (init : S → Prop) : S → Prop
  | init {s : S} : init s → Reach step ok init s
  | step {s : S} {op : Op} : Reach step ok init s → ok s op → Reach step ok init (step s op)

/-- The invariant rule. -/
theorem Reach.invariant {step : S → Op → S} {ok : S → Op → Prop} {init Inv : S → Prop}
    (hinit : ∀ s, init s → Inv s) (hstep : ∀ s op, Inv s → ok s op → Inv (step s op))
    {s : S} (h : Reach step ok init s) : Inv s := by
  induction h with
  | init h₀ => exact hinit _ h₀
  | step _ hok ih => exact hstep _ _ ih hok

/-- A run whose every step is allowed. -/
theorem Reach.run {step : S → Op → S} {ok : S → Op → Prop} {init : S → Prop} :
    ∀ (ops : List Op) {s : S}, Reach step ok init s →
      (∀ pre op post, ops = pre ++ op :: post → ok (pre.foldl step s) op) →
      Reach step ok init (ops.foldl step s)
  | [], _, h, _ => h
  | op :: ops, s, h, hok => by
    refine Reach.run ops (.step h (hok [] op ops rfl)) fun pre op' post heq => ?_
    exact hok (op :: pre) op' post (by rw [heq]; rfl)

/-! ## Conditions on the steps of a run -/

/-- Every step of the run satisfies `ok`, in the state it is taken from. -/
def Throughout (step : S → Op → S) (ok : S → Op → Prop) : List Op → S → Prop
  | [], _ => True
  | op :: ops, s => ok s op ∧ Throughout step ok ops (step s op)

/-- Some step of the run satisfies `P`, in the state it is taken from. -/
def Sometime (step : S → Op → S) (P : S → Op → Prop) : List Op → S → Prop
  | [], _ => False
  | op :: ops, s => P s op ∨ Sometime step P ops (step s op)

instance instDecidableThroughout (step : S → Op → S) (ok : S → Op → Prop)
    [∀ s op, Decidable (ok s op)] :
    ∀ (ops : List Op) (s : S), Decidable (Throughout step ok ops s)
  | [], _ => isTrue trivial
  | op :: ops, s =>
    have := instDecidableThroughout step ok ops (step s op)
    inferInstanceAs (Decidable (_ ∧ _))

section Rules

variable {step : S → Op → S} {ok P : S → Op → Prop} {Inv G N : S → Prop}

/-- The invariant rule, along a list of operations. -/
theorem Throughout.invariant (hstep : ∀ s op, Inv s → ok s op → Inv (step s op)) (ops : List Op)
    {s : S} (h : Inv s) (hok : Throughout step ok ops s) : Inv (ops.foldl step s) := by
  induction ops generalizing s with
  | nil => exact h
  | cons op ops ih => exact ih (hstep s op h hok.1) hok.2

/-- What an invariant gives of every step holds of every step of a run. -/
theorem Throughout.of_invariant (hstep : ∀ s op, Inv s → ok s op → Inv (step s op))
    (himp : ∀ s op, Inv s → ok s op → P s op) (ops : List Op) {s : S} (h : Inv s)
    (hok : Throughout step ok ops s) : Throughout step P ops s := by
  induction ops generalizing s with
  | nil => trivial
  | cons op ops ih => exact ⟨himp s op h hok.1, ih (hstep s op h hok.1) hok.2⟩

/-- Where a step leads to `G` exactly when it satisfies `ok`, a whole run stays in `G` exactly when
its steps do. -/
theorem Throughout.next_iff (hstep : ∀ s op, Inv s → G s → Inv (step s op))
    (hnext : ∀ s op, Inv s → G s → (G (step s op) ↔ ok s op)) (ops : List Op) {s : S} (h : Inv s)
    (hG : G s) :
    Throughout step (fun s op => G (step s op)) ops s ↔ Throughout step ok ops s := by
  induction ops generalizing s with
  | nil => exact Iff.rfl
  | cons op ops ih =>
    have hiff := hnext s op h hG
    constructor
    · rintro ⟨hto, hrest⟩
      exact ⟨hiff.mp hto, (ih (hstep s op h hG) hto).mp hrest⟩
    · rintro ⟨hok, hrest⟩
      exact ⟨hiff.mpr hok, (ih (hstep s op h hG) (hiff.mpr hok)).mpr hrest⟩

/-- What a step satisfying `P` establishes and every step keeps holds at the end of a run with
such a step. -/
theorem Sometime.established (hstep : ∀ s op, Inv s → ok s op → Inv (step s op))
    (hest : ∀ s op, Inv s → ok s op → P s op → G (step s op))
    (hkeep : ∀ s op, Inv s → ok s op → G s → G (step s op)) (ops : List Op) {s : S} (h : Inv s)
    (hok : Throughout step ok ops s) (hsome : Sometime step P ops s) : G (ops.foldl step s) := by
  induction ops generalizing s with
  | nil => exact hsome.elim
  | cons op ops ih =>
    have hnext := hstep s op h hok.1
    rcases hsome with hP | hlater
    · let Both : S → Prop := fun s => Inv s ∧ G s
      have hboth : ∀ s op, Both s → ok s op → Both (step s op) := fun s op hs hok =>
        ⟨hstep s op hs.1 hok, hkeep s op hs.1 hok hs.2⟩
      have hend : Both (ops.foldl step (step s op)) :=
        Throughout.invariant hboth ops ⟨hnext, hest s op h hok.1 hP⟩ hok.2
      exact hend.2
    · exact ih hnext hok.2 hlater

/-- What every step not satisfying `P` keeps holds at the end of a run without such a step. -/
theorem Sometime.never (hkeep : ∀ s op, N s → ok s op → ¬P s op → N (step s op)) (ops : List Op)
    {s : S} (h : N s) (hok : Throughout step ok ops s) (hno : ¬Sometime step P ops s) :
    N (ops.foldl step s) := by
  induction ops generalizing s with
  | nil => exact h
  | cons op ops ih =>
    have hnext := hkeep s op h hok.1 fun hP => hno (.inl hP)
    exact ih hnext hok.2 fun hlater => hno (.inr hlater)

/-- Steps that change nothing can be left out of a run. -/
theorem Throughout.erase {silent : Op → Bool}
    (hsilent : ∀ s op, silent op = true → ok s op → step s op = s) (ops : List Op) {s : S}
    (hok : Throughout step ok ops s) :
    ops.foldl step s = (ops.filter fun op => !silent op).foldl step s := by
  induction ops generalizing s with
  | nil => rfl
  | cons op ops ih =>
    rw [List.foldl_cons, ih hok.2]
    cases h : silent op with
    | true => rw [hsilent s op h hok.1, List.filter_cons_of_neg (by simp [h])]
    | false => rw [List.filter_cons_of_pos (by simp [h]), List.foldl_cons]

end Rules

/-! ## Runs that are watched -/

section Monitors

variable {E Ph : Type*} {step : S → Op → S} {log : S → Op → List E} {mon : Ph → E → Option Ph}
  {ok : Op → Prop} {Inv : Ph → S → Prop}

/-- The events of a run, `log` telling those of a step. -/
def trace (step : S → Op → S) (log : S → Op → List E) : List Op → S → List E
  | [], _ => []
  | op :: ops, s => log s op ++ trace step log ops (step s op)

/-- The monitor rule: if each step's events take the monitor from a phase that fits the state to
one that fits the next, the monitor accepts the events of a run. -/
theorem trace_monitor
    (hstep : ∀ ph s op, Inv ph s → ok op →
      ∃ ph', (log s op).foldlM mon ph = some ph' ∧ Inv ph' (step s op))
    (ops : List Op) {ph : Ph} {s : S} (h : Inv ph s) (hok : ∀ op ∈ ops, ok op) :
    ∃ ph', (trace step log ops s).foldlM mon ph = some ph' ∧ Inv ph' (ops.foldl step s) := by
  induction ops generalizing ph s with
  | nil => exact ⟨ph, rfl, h⟩
  | cons op ops ih =>
    obtain ⟨ph', hlog, h'⟩ := hstep ph s op h (hok op List.mem_cons_self)
    obtain ⟨ph'', htrace, h''⟩ := ih h' fun op' hmem => hok op' (List.mem_cons_of_mem op hmem)
    refine ⟨ph'', ?_, h''⟩
    rw [trace, List.foldlM_append, hlog]
    exact htrace

end Monitors

/-! ## Runs that answer -/

/-- The answers of a run, in order, and the state it ends in. -/
def runOut (step : S → Op → Out × S) : List Op → S → List Out × S
  | [], s => ([], s)
  | op :: ops, s =>
    let (out, s') := step s op
    let (outs, s'') := runOut step ops s'
    (out :: outs, s'')

@[simp] theorem runOut_nil (step : S → Op → Out × S) (s : S) : runOut step [] s = ([], s) := rfl

@[simp] theorem runOut_cons (step : S → Op → Out × S) (op : Op) (ops : List Op) (s : S) :
    runOut step (op :: ops) s =
      ((step s op).1 :: (runOut step ops (step s op).2).1, (runOut step ops (step s op).2).2) :=
  rfl

/-- The simulation rule: if related states give equal answers and related successors, then
related runs give equal answers and end in related states. -/
theorem runOut_simulation {step : S → Op → Out × S} {step' : T → Op → Out × T}
    {R : S → T → Prop}
    (h : ∀ s t op, R s t → (step s op).1 = (step' t op).1 ∧ R (step s op).2 (step' t op).2) :
    ∀ (ops : List Op) (s : S) (t : T), R s t →
      (runOut step ops s).1 = (runOut step' ops t).1 ∧
        R (runOut step ops s).2 (runOut step' ops t).2
  | [], _, _, hst => ⟨rfl, hst⟩
  | op :: ops, s, t, hst => by
    obtain ⟨hout, hnext⟩ := h s t op hst
    obtain ⟨houts, hend⟩ := runOut_simulation h ops _ _ hnext
    simp only [runOut_cons]
    exact ⟨by rw [hout, houts], hend⟩

end Machine
