import Mathlib.Data.List.Basic
import Mathlib.Logic.Function.Basic

/-!
# Memory that remembers what was stored

A `Heap A V` maps addresses to values and keeps the list of addresses stored to, last first.
`StoresIn P h h'` says that `h'` is `h` after stores to addresses satisfying `P` only. It composes
(`StoresIn.trans`), grows with `P` (`StoresIn.mono`), and frames everything else
(`StoresIn.load_eq`).
-/

/-- Memory, with its store record. -/
structure Heap (A V : Type*) where
  load : A → V
  stored : List A

namespace Heap

variable {A V : Type*}

def store [DecidableEq A] (h : Heap A V) (a : A) (v : V) : Heap A V where
  load := Function.update h.load a v
  stored := a :: h.stored

@[simp] theorem store_load_same [DecidableEq A] (h : Heap A V) (a : A) (v : V) :
    (h.store a v).load a = v := by
  simp [store]

theorem store_load_ne [DecidableEq A] (h : Heap A V) {a b : A} (v : V) (hne : b ≠ a) :
    (h.store a v).load b = h.load b := by
  simp [store, hne]

/-- The stores between the two heaps all went to addresses satisfying `P`. -/
def StoresIn (P : A → Prop) (h h' : Heap A V) : Prop :=
  ∃ new, h'.stored = new ++ h.stored ∧ (∀ a ∈ new, P a) ∧ ∀ a, a ∉ new → h'.load a = h.load a

theorem StoresIn.refl (P : A → Prop) (h : Heap A V) : StoresIn P h h :=
  ⟨[], rfl, by simp, fun _ _ => rfl⟩

theorem StoresIn.store [DecidableEq A] {P : A → Prop} (h : Heap A V) {a : A} (v : V) (ha : P a) :
    StoresIn P h (h.store a v) := by
  refine ⟨[a], rfl, by simpa using ha, ?_⟩
  intro b hb
  exact store_load_ne h v (by simpa using hb)

/-- The record tells of a store even if the value stored was there before. -/
theorem StoresIn.of_store [DecidableEq A] {P : A → Prop} {h : Heap A V} {a : A} {v : V}
    (hs : StoresIn P h (h.store a v)) : P a := by
  obtain ⟨new, hstored, hP, _⟩ := hs
  have hnew : [a] = new :=
    List.append_cancel_right (show [a] ++ h.stored = new ++ h.stored from hstored)
  exact hP a (hnew ▸ List.mem_singleton_self a)

theorem StoresIn.trans {P : A → Prop} {h₁ h₂ h₃ : Heap A V} (h₁₂ : StoresIn P h₁ h₂)
    (h₂₃ : StoresIn P h₂ h₃) : StoresIn P h₁ h₃ := by
  obtain ⟨new, hs, hP, hf⟩ := h₁₂
  obtain ⟨new', hs', hP', hf'⟩ := h₂₃
  refine ⟨new' ++ new, by rw [hs', hs, List.append_assoc], ?_, ?_⟩
  · intro a ha
    rcases List.mem_append.mp ha with h | h
    · exact hP' a h
    · exact hP a h
  · intro a ha
    rw [List.mem_append, not_or] at ha
    rw [hf' a ha.1, hf a ha.2]

theorem StoresIn.mono {P Q : A → Prop} {h h' : Heap A V} (hs : StoresIn P h h')
    (hPQ : ∀ a, P a → Q a) : StoresIn Q h h' := by
  obtain ⟨new, hs, hP, hf⟩ := hs
  exact ⟨new, hs, fun a ha => hPQ a (hP a ha), hf⟩

/-- What `P` excludes keeps its value. -/
theorem StoresIn.load_eq {P : A → Prop} {h h' : Heap A V} (hs : StoresIn P h h') {a : A}
    (ha : ¬P a) : h'.load a = h.load a := by
  obtain ⟨new, _, hP, hf⟩ := hs
  exact hf a fun hmem => ha (hP a hmem)

end Heap
