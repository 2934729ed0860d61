import Phosphoric.Lib.Word

/-!
# Byte stores

A store is a function from positions to values: a buffer, or a whole device seen from its first
byte. `blit m off n data` is `memcpy(m + off, data, n)`; `getLe` and `setLe` are the accesses of
`n` bytes at a position as one little-endian number.

**Theorem (`getLe_setLe`, `getLe_setLe_ne`).** What was stored last at a position is read back
there, and nowhere it does not overlap.
-/

namespace Store

variable {α : Type*}

/-! ## Copies -/

/-- `n` values of `data` copied to `off`. -/
def blit (m : Nat → α) (off n : Nat) (data : Nat → α) : Nat → α := fun i =>
  if off ≤ i ∧ i < off + n then data (i - off) else m i

theorem blit_of_mem {m data : Nat → α} {off n i : Nat} (h : off ≤ i ∧ i < off + n) :
    blit m off n data i = data (i - off) := if_pos h

theorem blit_of_not_mem {m data : Nat → α} {off n i : Nat} (h : ¬(off ≤ i ∧ i < off + n)) :
    blit m off n data i = m i := if_neg h

theorem blit_add (m data : Nat → α) (off n : Nat) {k : Nat} (hk : k < n) :
    blit m off n data (off + k) = data k := by
  rw [blit_of_mem ⟨by omega, by omega⟩]
  congr 1
  omega

/-! ## Little-endian numbers -/

/-- The `n` bytes at `off` as a number, the lowest first. -/
def getLe (m : Nat → Byte) (off : Nat) : Nat → Nat
  | 0 => 0
  | n + 1 => (m off).toNat + 256 * getLe m (off + 1) n

/-- The `n` low bytes of `x` stored at `off`, the lowest first. -/
def setLe (m : Nat → Byte) (off n x : Nat) : Nat → Byte :=
  blit m off n fun i => BitVec.ofNat 8 (x / 256 ^ i)

theorem getLe_congr {m m' : Nat → Byte} {off n : Nat}
    (h : ∀ i, off ≤ i → i < off + n → m i = m' i) : getLe m off n = getLe m' off n := by
  induction n generalizing off with
  | zero => rfl
  | succ n ih =>
    have hfirst := h off (Nat.le_refl off) (by omega)
    have hrest : getLe m (off + 1) n = getLe m' (off + 1) n :=
      ih fun i hlo hhi => h i (by omega) (by omega)
    rw [getLe, getLe, hfirst, hrest]

/-- A number in a window of a store. -/
theorem getLe_shift (m : Nat → Byte) (start off n : Nat) :
    getLe (fun i => m (start + i)) off n = getLe m (start + off) n := by
  induction n generalizing off with
  | zero => rfl
  | succ n ih =>
    rw [getLe, getLe, ih]
    rfl

/-- The bytes of a number, read back. -/
theorem getLe_bytes (m : Nat → Byte) (off n x : Nat)
    (h : ∀ i < n, m (off + i) = BitVec.ofNat 8 (x / 256 ^ i)) : getLe m off n = x % 256 ^ n := by
  induction n generalizing off x with
  | zero => simp [getLe, Nat.mod_one]
  | succ n ih =>
    have hfirst : (m off).toNat = x % 256 := by
      have := h 0 (Nat.succ_pos n)
      rw [Nat.add_zero, Nat.pow_zero, Nat.div_one] at this
      simp [this]
    have hrest : getLe m (off + 1) n = x / 256 % 256 ^ n := by
      apply ih
      intro i hi
      rw [show off + 1 + i = off + (i + 1) by omega, h (i + 1) (by omega), Nat.pow_succ',
        Nat.div_div_eq_div_mul]
    rw [getLe, hfirst, hrest, Nat.pow_succ', Nat.mod_mul]

theorem getLe_setLe (m : Nat → Byte) (off n x : Nat) :
    getLe (setLe m off n x) off n = x % 256 ^ n := by
  apply getLe_bytes
  intro i hi
  exact blit_add m _ off n hi

theorem setLe_of_not_mem {m : Nat → Byte} {off n x i : Nat} (h : ¬(off ≤ i ∧ i < off + n)) :
    setLe m off n x i = m i := blit_of_not_mem h

theorem getLe_setLe_ne {m : Nat → Byte} {off off' n n' x : Nat}
    (h : off + n ≤ off' ∨ off' + n' ≤ off) :
    getLe (setLe m off n x) off' n' = getLe m off' n' := by
  apply getLe_congr
  intro i hlo hhi
  exact setLe_of_not_mem (by omega)

end Store
