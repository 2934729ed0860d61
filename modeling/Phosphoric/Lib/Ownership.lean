import Mathlib.Data.List.Basic
import Mathlib.Logic.Function.Basic

/-!
# Buffers and the slots that own them

A buffer is named by the order of its allocation (`Buffers.malloc`), so a name is never used
twice, and `Buffers.free` records it. `Buffers.Live` is allocated and not freed.

`Owns m slot` says that the buffers the slots name are live, and no two slots name the same. A
slot emptied gives its buffer back (`Owns.free`); an empty slot takes a new one (`Owns.malloc`).
-/

open Function (update update_self update_of_ne)

structure Buffers where
  count : Nat
  freed : List Nat
  freed_lt : ∀ b ∈ freed, b < count

namespace Buffers

/-- No buffer allocated. -/
def initial : Buffers := ⟨0, [], by simp⟩

variable (m : Buffers)

def Live (b : Nat) : Prop := b < m.count ∧ b ∉ m.freed

instance (b : Nat) : Decidable (m.Live b) := inferInstanceAs (Decidable (_ ∧ _))

def malloc : Nat × Buffers :=
  (m.count,
    { count := m.count + 1
      freed := m.freed
      freed_lt := fun b hb => Nat.lt_succ_of_lt (m.freed_lt b hb) })

/-- What was never allocated is not freed. -/
def free (b : Nat) : Buffers :=
  if h : b < m.count then
    { count := m.count
      freed := b :: m.freed
      freed_lt := fun c hc => by
        obtain rfl | hc := List.mem_cons.mp hc
        · exact h
        · exact m.freed_lt c hc }
  else m

variable {m}

theorem live_malloc_new : m.malloc.2.Live m.malloc.1 :=
  ⟨Nat.lt_succ_self _, fun h => absurd (m.freed_lt _ h) (Nat.lt_irrefl _)⟩

theorem Live.malloc {b : Nat} (h : m.Live b) : m.malloc.2.Live b := ⟨Nat.lt_succ_of_lt h.1, h.2⟩

theorem live_malloc_iff {b : Nat} (h : b < m.count) : m.malloc.2.Live b ↔ m.Live b :=
  ⟨fun hlive => ⟨h, hlive.2⟩, Live.malloc⟩

@[simp] theorem count_free (b : Nat) : (m.free b).count = m.count := by
  unfold free
  split_ifs <;> rfl

theorem Live.ne_malloc {b : Nat} (h : m.Live b) : b ≠ m.malloc.1 := Nat.ne_of_lt h.1

theorem not_live_free {b : Nat} (h : m.Live b) : ¬(m.free b).Live b := by
  unfold free
  rw [dif_pos h.1]
  exact fun hlive => hlive.2 List.mem_cons_self

theorem Live.free {b c : Nat} (h : m.Live c) (hne : c ≠ b) : (m.free b).Live c := by
  unfold Buffers.free
  split_ifs
  · exact ⟨h.1, fun hc => h.2 (List.mem_of_ne_of_mem hne hc)⟩
  · exact h

/-! ## Slots -/

variable {ι : Type*} {slot : ι → Option Nat}

structure Owns (m : Buffers) (slot : ι → Option Nat) : Prop where
  live : ∀ {i b}, slot i = some b → m.Live b
  unique : ∀ {i j b}, slot i = some b → slot j = some b → i = j

variable [DecidableEq ι] {i : ι}

theorem Owns.free {b : Nat} (h : Owns m slot) (hi : slot i = some b) :
    Owns (m.free b) (update slot i none) where
  live {j c} hj := by
    by_cases hji : j = i
    · subst hji
      simp at hj
    · rw [update_of_ne hji] at hj
      refine (h.live hj).free ?_
      rintro rfl
      exact hji (h.unique hj hi)
  unique {j k c} hj hk := by
    have hold : ∀ {l}, update slot i none l = some c → slot l = some c := by
      intro l hl
      by_cases hli : l = i
      · subst hli
        simp at hl
      · rwa [update_of_ne hli] at hl
    exact h.unique (hold hj) (hold hk)

theorem Owns.malloc (h : Owns m slot) : Owns m.malloc.2 (update slot i (some m.malloc.1)) where
  live {j c} hj := by
    by_cases hji : j = i
    · subst hji
      rw [update_self] at hj
      exact Option.some.inj hj ▸ live_malloc_new
    · rw [update_of_ne hji] at hj
      exact (h.live hj).malloc
  unique {j k c} hj hk := by
    have hnew : ∀ {l}, l ≠ i → update slot i (some m.malloc.1) l = some c → m.Live c := by
      intro l hl hlc
      rw [update_of_ne hl] at hlc
      exact h.live hlc
    by_cases hji : j = i <;> by_cases hki : k = i
    · exact hji.trans hki.symm
    · subst hji
      rw [update_self] at hj
      exact absurd (Option.some.inj hj).symm (hnew hki hk).ne_malloc
    · subst hki
      rw [update_self] at hk
      exact absurd (Option.some.inj hk).symm (hnew hji hj).ne_malloc
    · rw [update_of_ne hji] at hj
      rw [update_of_ne hki] at hk
      exact h.unique hj hk

end Buffers
