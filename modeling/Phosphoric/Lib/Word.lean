import Mathlib.Tactic

/-!
# Bytes and 16-bit words

The types `uint8_t` and `uint16_t` of a C program as `BitVec 8` and `BitVec 16`, with the two
idioms such programs build words by: `(hi << 8) | lo` and `(w & 0xFF00) | lo`.
-/

/-- `uint8_t`. -/
abbrev Byte := BitVec 8

/-- `uint16_t`. -/
abbrev Word := BitVec 16

/-! ## Sizes of registers and arrays -/

instance (priority := high) neZero4 : NeZero (4 : Nat) := ⟨by decide⟩

instance (priority := high) neZero8 : NeZero (8 : Nat) := ⟨by decide⟩

instance (priority := high) neZero16 : NeZero (16 : Nat) := ⟨by decide⟩

instance (priority := high) neZero256 : NeZero (256 : Nat) := ⟨by decide⟩

instance (priority := high) neZero2000 : NeZero (0x2000 : Nat) := ⟨by decide⟩

instance (priority := high) neZeroC000 : NeZero (0xC000 : Nat) := ⟨by decide⟩

instance (priority := high) byteLawfulBEq : LawfulBEq Byte := inferInstance

instance (priority := high) bytesLawfulBEq : LawfulBEq (List Byte) := inferInstance

namespace Word

/-- `(hi << 8) | lo`. -/
def mk (hi lo : Byte) : Word := (hi.setWidth 16 <<< 8) ||| lo.setWidth 16

/-- `(uint8_t)w`. -/
def lo (w : Word) : Byte := w.setWidth 8

/-- `(uint8_t)(w >> 8)`. -/
def hi (w : Word) : Byte := (w >>> 8).setWidth 8

/-- `(w & 0xFF00) | b`. -/
def setLo (w : Word) (b : Byte) : Word := (w &&& 0xFF00#16) ||| b.setWidth 16

theorem toNat_lo (w : Word) : (lo w).toNat = w.toNat % 256 := by
  simp [lo]

/-- Truncation is a ring homomorphism. -/
theorem lo_sub (w v : Word) : lo (w - v) = lo w - lo v := by
  apply BitVec.eq_of_toNat_eq
  have := w.isLt
  have := v.isLt
  simp only [toNat_lo, BitVec.toNat_sub]
  omega

theorem lo_add (w v : Word) : lo (w + v) = lo w + lo v := by
  apply BitVec.eq_of_toNat_eq
  simp only [toNat_lo, BitVec.toNat_add]
  omega

theorem toNat_hi (w : Word) : (hi w).toNat = w.toNat / 256 := by
  have := w.isLt
  simp only [hi, BitVec.toNat_setWidth, BitVec.toNat_ushiftRight, Nat.shiftRight_eq_div_pow]
  omega

theorem toNat_mk (h l : Byte) : (mk h l).toNat = h.toNat * 256 + l.toNat := by
  have hh := h.isLt
  have hl := l.isLt
  have hs : (h.setWidth 16 <<< 8).toNat = h.toNat <<< 8 := by
    simp only [BitVec.toNat_shiftLeft, BitVec.toNat_setWidth, Nat.shiftLeft_eq]
    omega
  have hz : (l.setWidth 16).toNat = l.toNat := by simp; omega
  rw [mk, BitVec.toNat_or, hs, hz, ← Nat.shiftLeft_add_eq_or_of_lt (by omega : l.toNat < 2 ^ 8),
    Nat.shiftLeft_eq]

@[simp] theorem lo_mk (h l : Byte) : lo (mk h l) = l := by
  apply BitVec.eq_of_toNat_eq
  rw [toNat_lo, toNat_mk]
  omega

@[simp] theorem hi_mk (h l : Byte) : hi (mk h l) = h := by
  apply BitVec.eq_of_toNat_eq
  rw [toNat_hi, toNat_mk]
  omega

theorem mk_hi_lo (w : Word) : mk (hi w) (lo w) = w := by
  apply BitVec.eq_of_toNat_eq
  rw [toNat_mk, toNat_hi, toNat_lo]
  omega

/-- Replacing the low byte keeps the high one. -/
theorem setLo_eq_mk (w : Word) (b : Byte) : setLo w b = mk (hi w) b := by
  ext i hi'
  simp only [setLo, mk, hi, BitVec.getElem_or, BitVec.getElem_and, BitVec.getElem_shiftLeft,
    BitVec.getElem_setWidth, BitVec.getLsbD_setWidth, BitVec.getLsbD_ushiftRight]
  interval_cases i <;> simp

end Word
