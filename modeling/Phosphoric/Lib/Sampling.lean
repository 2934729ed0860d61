import Mathlib.Data.List.Basic
import Mathlib.Tactic

/-!
# Sampling a piecewise constant signal

A signal is a list of levels with how long each lasts. A listener samples it at times of its own
choosing, never more than `gap` apart. If no level lasts less than `gap`, none is missed: the
listener passes from each segment to the next, and first sees a segment less than `gap` after its
start.
-/

namespace Sampling

variable {α τ : Type*}

/-- How long a signal lasts. -/
def duration (signal : List (α × Nat)) : Nat := (signal.map Prod.snd).sum

@[simp] theorem duration_nil : duration ([] : List (α × Nat)) = 0 := rfl

@[simp] theorem duration_cons (seg : α × Nat) (signal : List (α × Nat)) :
    duration (seg :: signal) = seg.2 + duration signal := by
  simp [duration]

@[simp] theorem duration_append (signal signal' : List (α × Nat)) :
    duration (signal ++ signal') = duration signal + duration signal' := by
  simp [duration]

/-- The level at a time, `rest` once the signal is over. -/
def levelAt (rest : α) : List (α × Nat) → Nat → α
  | [], _ => rest
  | (level, d) :: signal, t => if t < d then level else levelAt rest signal (t - d)

/-- A signal over is a signal at rest. -/
theorem levelAt_append_rest (rest : α) (signal : List (α × Nat)) (n t : Nat) :
    levelAt rest (signal ++ [(rest, n)]) t = levelAt rest signal t := by
  induction signal generalizing t with
  | nil => simp [levelAt]
  | cons seg signal ih => simp only [List.cons_append, levelAt, ih]

/-- Sample times in order, never more than `gap` apart. -/
def Within (gap : Nat) (times : List Nat) : Prop :=
  times.IsChain fun t t' => t ≤ t' ∧ t' ≤ t + gap

instance (gap : Nat) (times : List Nat) : Decidable (Within gap times) :=
  inferInstanceAs (Decidable (List.IsChain _ _))

/-- A listener fed the signal at the given times, the signal having begun at `start`. -/
def listen (sample : τ → α → Nat → τ) (rest : α) (signal : List (α × Nat)) (start : Nat)
    (times : List Nat) (s : τ) : τ :=
  times.foldl (fun s t => sample s (levelAt rest signal (t - start)) t) s

/-- A listener past the first segment listens to the rest of the signal. -/
theorem listen_tail (sample : τ → α → Nat → τ) (rest : α) {level : α} {d : Nat}
    (signal : List (α × Nat)) {start : Nat} {times : List Nat}
    (h : ∀ t ∈ times, start + d ≤ t) (s : τ) :
    listen sample rest ((level, d) :: signal) start times s =
      listen sample rest signal (start + d) times s := by
  induction times generalizing s with
  | nil => rfl
  | cons t times ih =>
    have ht := h t List.mem_cons_self
    have hpast : ¬t - start < d := by omega
    have hshift : t - start - d = t - (start + d) := by omega
    have hrest := ih (fun t' hmem => h t' (List.mem_cons_of_mem t hmem))
    simp only [listen, List.foldl_cons, levelAt, if_neg hpast, hshift] at hrest ⊢
    exact hrest _

/-- Listening to a signal at rest. -/
theorem listen_append_rest (sample : τ → α → Nat → τ) (rest : α) (signal : List (α × Nat))
    (n start : Nat) (times : List Nat) (s : τ) :
    listen sample rest (signal ++ [(rest, n)]) start times s =
      listen sample rest signal start times s := by
  simp only [listen, levelAt_append_rest]

theorem Within.le_of_mem {gap t t' : Nat} {times : List Nat} (h : Within gap (t :: times))
    (hmem : t' ∈ times) : t ≤ t' := by
  have hmono : (t :: times).IsChain (· ≤ ·) := h.imp fun _ _ hab => hab.1
  exact (List.pairwise_cons.mp hmono.pairwise).1 t' hmem

variable {sample : τ → α → Nat → τ} {Q : Nat → List (α × Nat) → τ → Prop} {gap : Nat}

/-- The segment rule. `Q` relates the start of the current segment, the signal from it on and the
listener. If more samples of a segment keep it, and the first sample of the next one, less than
`gap` after its start, moves it there, then it holds at the end, in the segment of the last
sample. -/
theorem listen_segments (rest : α)
    (hsame : ∀ start level d signal s t,
      Q start ((level, d) :: signal) s → Q start ((level, d) :: signal) (sample s level t))
    (hnext : ∀ start level d level' d' signal s t, Q start ((level, d) :: (level', d') :: signal) s →
      start + d ≤ t → t < start + d + gap →
      Q (start + d) ((level', d') :: signal) (sample s level' t))
    (times : List Nat) {start t : Nat} {level : α} {d : Nat} {signal : List (α × Nat)} {s : τ}
    (hlong : ∀ seg ∈ signal, gap ≤ seg.2) (htimes : Within gap (t :: times))
    (hin : start ≤ t ∧ t < start + d)
    (hend : ∀ t' ∈ times, t' < start + d + duration signal)
    (h : Q start ((level, d) :: signal) s) :
    ∃ start' level' d' signal',
      Q start' ((level', d') :: signal')
        (listen sample rest ((level, d) :: signal) start times s) ∧
      (t :: times).getLast (List.cons_ne_nil t times) < start' + d' ∧
      start' + d' + duration signal' = start + d + duration signal := by
  induction times generalizing start t level d signal s with
  | nil => exact ⟨start, level, d, signal, h, hin.2, rfl⟩
  | cons t' times ih =>
    have hgap := (List.isChain_cons_cons.mp htimes).1
    have htail : Within gap (t' :: times) := (List.isChain_cons_cons.mp htimes).2
    rw [List.getLast_cons (List.cons_ne_nil t' times)]
    by_cases hsame' : t' < start + d
    · have hlevel : levelAt rest ((level, d) :: signal) (t' - start) = level := by
        have hlt : t' - start < d := by omega
        rw [levelAt, if_pos hlt]
      have hs := ih hlong htail ⟨by omega, hsame'⟩
        (fun t'' hmem => hend t'' (List.mem_cons_of_mem t' hmem))
        (hsame start level d signal s t' h)
      rw [listen, List.foldl_cons, hlevel]
      exact hs
    · cases signal with
      | nil =>
        have := hend t' List.mem_cons_self
        rw [duration_nil] at this
        omega
      | cons seg signal =>
        obtain ⟨level', d'⟩ := seg
        have hd' : gap ≤ d' := hlong (level', d') List.mem_cons_self
        have hlevel : levelAt rest ((level, d) :: (level', d') :: signal) (t' - start) = level' := by
          have hge : ¬t' - start < d := by omega
          have hlt : t' - start - d < d' := by omega
          rw [levelAt, if_neg hge, levelAt, if_pos hlt]
        have hpast : ∀ t'' ∈ times, start + d ≤ t'' := fun t'' hmem => by
          have := htail.le_of_mem hmem
          omega
        obtain ⟨start', level'', d'', signal', hQ, hlast, htotal⟩ := ih
          (fun seg hmem => hlong seg (List.mem_cons_of_mem _ hmem)) htail ⟨by omega, by omega⟩
          (fun t'' hmem => by
            have := hend t'' (List.mem_cons_of_mem t' hmem)
            rw [duration_cons] at this
            omega)
          (hnext start level d level' d' signal s t' h (by omega) (by omega))
        refine ⟨start', level'', d'', signal', ?_, hlast, by rw [htotal, duration_cons]; omega⟩
        rw [listen, List.foldl_cons, hlevel]
        change Q start' _ (listen sample rest _ start times _)
        rw [listen_tail sample rest _ hpast]
        exact hQ

end Sampling
