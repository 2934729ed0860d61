import Mathlib.Data.Set.Finite.Basic

/-!
# Loops of a program

A loop goes from state to state until it leaves off: `next s` is the state after one more round,
`none` at the end. `Loop.after next n s` is the state after `n` rounds.

**Theorem (`ends_iff_nodup`).** A loop with finitely many states to go on from ends exactly if it
comes to no state twice.
-/

namespace Loop

variable {S : Type*} (next : S → Option S)

def after : Nat → S → Option S
  | 0, s => some s
  | n + 1, s => (next s).bind (after n)

/-- The loop leaves off. -/
def Ends (s : S) : Prop := ∃ n, after next n s = none

def Reaches (s t : S) : Prop := ∃ n, after next n s = some t

variable {next}

theorem Reaches.refl (s : S) : Reaches next s s := ⟨0, rfl⟩

theorem after_add (m n : Nat) (s : S) :
    after next (m + n) s = (after next m s).bind (after next n) := by
  induction m generalizing s with
  | zero => rw [Nat.zero_add, after, Option.bind_some]
  | succ m ih =>
    rw [Nat.succ_add, after, after, Option.bind_assoc]
    exact congrArg _ (funext ih)

theorem after_succ' (n : Nat) (s : S) : after next (n + 1) s = (after next n s).bind next := by
  have hone : after next 1 = next := by
    funext t
    show (next t).bind some = next t
    cases next t <;> rfl
  rw [after_add, hone]

/-- A state come back to is come back to for ever. -/
theorem not_ends_of_cycle {s : S} {n : Nat} (hn : 0 < n) (hcycle : after next n s = some s) :
    ¬Ends next s := by
  rintro ⟨m, hm⟩
  induction m using Nat.strong_induction_on with
  | _ m ih =>
    by_cases hle : n ≤ m
    · obtain ⟨k, rfl⟩ := Nat.exists_eq_add_of_le hle
      rw [after_add, hcycle, Option.bind_some] at hm
      exact ih k (by omega) hm
    · obtain ⟨k, rfl⟩ := Nat.exists_eq_add_of_le (Nat.le_of_not_le hle)
      rw [after_add, hm] at hcycle
      nomatch hcycle

/-- An end is not missed by starting later. -/
theorem Ends.of_reaches {s t : S} (h : Ends next s) (ht : Reaches next s t) : Ends next t := by
  obtain ⟨m, hm⟩ := h
  obtain ⟨n, hn⟩ := ht
  refine ⟨m, ?_⟩
  have hcomm : after next (n + m) s = none := by rw [Nat.add_comm, after_add, hm]; rfl
  rwa [after_add, hn] at hcomm

theorem Ends.nodup {s : S} (h : Ends next s) {m n : Nat} {t : S} (hm : after next m s = some t)
    (hn : after next n s = some t) : m = n := by
  have hlt : ∀ {m n : Nat}, m < n → after next m s = some t → after next n s ≠ some t := by
    intro m n hlt hm hn
    obtain ⟨k, rfl⟩ := Nat.exists_eq_add_of_lt hlt
    rw [Nat.add_assoc, after_add, hm] at hn
    exact not_ends_of_cycle (Nat.succ_pos k) hn (h.of_reaches ⟨m, hm⟩)
  obtain hmn | hmn | hmn := lt_trichotomy m n
  · exact absurd hn (hlt hmn hm)
  · exact hmn
  · exact absurd hm (hlt hmn hn)

/-- The states from which the loop goes on being finitely many. -/
theorem ends_iff_nodup {s : S} (hfin : {t | Reaches next s t ∧ (next t).isSome}.Finite) :
    Ends next s ↔
      ∀ m n t, after next m s = some t → after next n s = some t → m = n := by
  constructor
  · exact fun h m n t => h.nodup
  · intro hnodup
    by_contra hends
    have hgoes : ∀ n, ∃ t, after next n s = some t := by
      intro n
      exact Option.ne_none_iff_exists'.mp fun hn => hends ⟨n, hn⟩
    choose f hf using hgoes
    have hmem : ∀ n, f n ∈ {t | Reaches next s t ∧ (next t).isSome} := by
      intro n
      refine ⟨⟨n, hf n⟩, ?_⟩
      have hnext := hf (n + 1)
      rw [after_succ', hf n, Option.bind_some] at hnext
      rw [hnext]
      rfl
    have hinj : Function.Injective f := by
      intro m n hmn
      exact hnodup m n (f m) (hf m) (hmn ▸ hf n)
    exact Set.infinite_of_injective_forall_mem hinj hmem hfin

end Loop
