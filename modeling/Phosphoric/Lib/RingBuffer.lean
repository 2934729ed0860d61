import Mathlib.Data.List.Basic
import Mathlib.Tactic

/-!
# Ring buffers

A queue in an array: `head` is where the next element is written, `tail` where the next is read.
The indices and the count agree by construction.
-/

open Function (update update_self update_of_ne)

/-- A ring buffer of `size` places. -/
structure RingBuffer (α : Type*) where
  buf : Nat → α
  size : Nat
  head : Nat
  tail : Nat
  count : Nat
  tail_lt : tail < size
  count_le : count ≤ size
  head_eq : head = (tail + count) % size

namespace RingBuffer

variable {α : Type*} (r : RingBuffer α)

/-- The elements, the next to be read first. -/
def contents : List α := (List.range r.count).map fun i => r.buf ((r.tail + i) % r.size)

/-- An empty ring over an array. -/
def empty (buf : Nat → α) (size : Nat) (h : 0 < size) : RingBuffer α where
  buf := buf
  size := size
  head := 0
  tail := 0
  count := 0
  tail_lt := h
  count_le := Nat.zero_le size
  head_eq := by simp

/-- The same array, emptied. -/
def clear : RingBuffer α := empty r.buf r.size (Nat.zero_lt_of_lt r.tail_lt)

/-- Write an element, if there is room. -/
def push (a : α) : Option (RingBuffer α) :=
  if h : r.count < r.size then
    some
      { buf := update r.buf r.head a
        size := r.size
        head := (r.head + 1) % r.size
        tail := r.tail
        count := r.count + 1
        tail_lt := r.tail_lt
        count_le := h
        head_eq := by rw [r.head_eq, Nat.mod_add_mod, Nat.add_assoc] }
  else none

/-- Read the next element, if there is one. -/
def pop : Option (α × RingBuffer α) :=
  if h : 0 < r.count then
    some (r.buf r.tail,
      { buf := r.buf
        size := r.size
        head := r.head
        tail := (r.tail + 1) % r.size
        count := r.count - 1
        tail_lt := Nat.mod_lt _ (Nat.zero_lt_of_lt r.tail_lt)
        count_le := (Nat.sub_le r.count 1).trans r.count_le
        head_eq := by
          rw [r.head_eq, Nat.mod_add_mod]
          congr 1
          omega })
  else none

@[simp] theorem contents_empty (buf : Nat → α) (size : Nat) (h : 0 < size) :
    (empty buf size h).contents = [] := rfl

@[simp] theorem contents_clear : r.clear.contents = [] := rfl

theorem length_contents : r.contents.length = r.count := by simp [contents]

theorem contents_eq_nil : r.contents = [] ↔ r.count = 0 := by
  rw [← List.length_eq_zero_iff, length_contents]

/-- Two places of the ring, less than its size apart, are not the same. -/
theorem place_ne (base : Nat) {size i j : Nat} (hij : i < j) (hj : j < i + size) :
    (base + i) % size ≠ (base + j) % size := by
  intro heq
  have hdvd : size ∣ (base + j) - (base + i) := (Nat.modEq_iff_dvd' (by omega)).mp heq
  have hle := Nat.le_of_dvd (by omega) hdvd
  omega

theorem push_isSome (a : α) : (r.push a).isSome ↔ r.count < r.size := by
  unfold push
  split_ifs with h <;> simp [h]

theorem pop_isSome : r.pop.isSome ↔ 0 < r.count := by
  unfold pop
  split_ifs with h <;> simp [h]

/-- What is written comes after what was there. -/
theorem contents_push {a : α} {r' : RingBuffer α} (h : r.push a = some r') :
    r'.contents = r.contents ++ [a] := by
  unfold push at h
  split_ifs at h with hroom
  obtain rfl := Option.some.inj h
  simp only [contents, List.range_succ, List.map_append, List.map_cons, List.map_nil]
  congr 1
  · apply List.map_congr_left
    intro i hi
    have hlt : i < r.count := List.mem_range.mp hi
    have hne := place_ne r.tail hlt (by omega : r.count < i + r.size)
    rw [← r.head_eq] at hne
    exact update_of_ne hne _ _
  · rw [← r.head_eq, update_self]

/-- What is read was the first there. -/
theorem contents_pop {a : α} {r' : RingBuffer α} (h : r.pop = some (a, r')) :
    r.contents = a :: r'.contents := by
  unfold pop at h
  split_ifs at h with hany
  obtain ⟨rfl, rfl⟩ := Prod.mk.inj (Option.some.inj h)
  obtain ⟨n, hn⟩ := Nat.exists_eq_add_one.mpr hany
  simp only [contents, hn, List.range_succ_eq_map, List.map_cons, List.map_map,
    Nat.add_sub_cancel]
  congr 1
  · rw [Nat.add_zero, Nat.mod_eq_of_lt r.tail_lt]
  · apply List.map_congr_left
    intro i _
    simp only [Function.comp_apply, Nat.mod_add_mod]
    congr 2
    omega

end RingBuffer
