import Mathlib.Data.List.Basic

/-!
# Loops that take the next element too

A loop over a list whose body may look at the next element and take it with its own:
`for (a = 1; a < n; a++) { … argv[++a] … }`. `Runs step word s s'` says that the loop takes `word`
from `s` to `s'`, whatever follows it.

**Theorem (`Runs.append`).** Words that run compose.
-/

namespace Lookahead

variable {σ α : Type*}

/-- The loop: `step s a next` is the state after `a`, and whether the element after it is taken. -/
def scan (step : σ → α → Option α → σ × Bool) : σ → List α → σ
  | s, [] => s
  | s, [a] => (step s a none).1
  | s, a :: b :: rest =>
    if (step s a (some b)).2 then scan step (step s a (some b)).1 rest
    else scan step (step s a (some b)).1 (b :: rest)

/-- The loop passes over `word`. -/
def Runs (step : σ → α → Option α → σ × Bool) (word : List α) (s s' : σ) : Prop :=
  ∀ rest, scan step s (word ++ rest) = scan step s' rest

variable {step : σ → α → Option α → σ × Bool}

theorem Runs.nil (s : σ) : Runs step [] s s := fun _ => rfl

theorem Runs.append {u v : List α} {s s' s'' : σ} (hu : Runs step u s s')
    (hv : Runs step v s' s'') :
    Runs step (u ++ v) s s'' := by
  intro rest
  rw [List.append_assoc, hu, hv]

/-- An element that takes no other. -/
theorem Runs.single {a : α} {s s' : σ} (h : ∀ next, step s a next = (s', false)) :
    Runs step [a] s s' := by
  intro rest
  cases rest with
  | nil => simp [scan, h]
  | cons b rest => simp [scan, h]

/-- An element that takes the next. -/
theorem Runs.pair {a b : α} {s s' : σ} (h : step s a (some b) = (s', true)) :
    Runs step [a, b] s s' := by
  intro rest
  simp [scan, h]

/-- The end of the loop. -/
theorem Runs.scan_eq {word : List α} {s s' : σ} (h : Runs step word s s') :
    scan step s word = s' := by
  have := h []
  rwa [List.append_nil, scan] at this

/-! ## Loops in which one element matters -/

/-- A loop that only one element changes the state of. -/
theorem foldl_eq_of_unique {f : σ → α → σ} {l : List α} {a : α} (ha : a ∈ l) (hnodup : l.Nodup)
    (h : ∀ b ∈ l, b ≠ a → ∀ s, f s b = s) (s : σ) : l.foldl f s = f s a := by
  induction l with
  | nil => simp at ha
  | cons b l ih =>
    obtain ⟨hb, hnodup⟩ := List.nodup_cons.mp hnodup
    rw [List.foldl_cons]
    by_cases hba : b = a
    · subst hba
      have hskip : ∀ l' : List α, (∀ c ∈ l', c ∈ l) → ∀ s, l'.foldl f s = s := by
        intro l' hsub
        induction l' with
        | nil => intro s; rfl
        | cons c l' ih' =>
          intro s
          have hc := hsub c (by simp)
          rw [List.foldl_cons, h c (by simp [hc]) (fun heq => hb (heq ▸ hc))]
          exact ih' (fun d hd => hsub d (by simp [hd])) s
      exact hskip l (fun _ h => h) _
    · rw [h b (by simp) hba]
      exact ih ((List.mem_cons.mp ha).resolve_left (Ne.symm hba)) hnodup
        fun c hc => h c (by simp [hc])

end Lookahead
