import Phosphoric.Lib.Word

/-!
# Little-endian records

Values written to a file as little-endian bytes, and read back one after another. A reader is a
state monad over the bytes left of the file. `bytesLe n x` are the `n` low bytes of `x`.

Two readers differ at the end of the file: `readLe` takes missing bytes for zeros, `readLeAll`
gives 0 when a byte of the value is missing.

**Theorem (`readLe_bind`, `readLeAll_bind`).** After `bytesLe n x`, a reader of `n` bytes gives `x`
and the rest of the file goes to what follows. A record written value after value is read back by
rewriting with these rules.
-/

namespace Binary

variable {w : Nat} {α : Type}

/-! ## Bytes of a value -/

/-- The `n` low bytes, the lowest first. -/
def bytesLe : Nat → BitVec w → List Byte
  | 0, _ => []
  | n + 1, x => x.setWidth 8 :: bytesLe n (x >>> 8)

/-- The number the bytes stand for, the lowest first. -/
def natLe : List Byte → Nat
  | [] => 0
  | b :: bs => b.toNat + 256 * natLe bs

@[simp] theorem bytesLe_length (n : Nat) (x : BitVec w) : (bytesLe n x).length = n := by
  induction n generalizing x with
  | zero => rfl
  | succ n ih => simp [bytesLe, ih]

theorem natLe_bytesLe (n : Nat) (x : BitVec w) : natLe (bytesLe n x) = x.toNat % 256 ^ n := by
  induction n generalizing x with
  | zero => simp [bytesLe, natLe, Nat.mod_one]
  | succ n ih =>
    have hbyte : (x.setWidth 8).toNat = x.toNat % 256 := by simp
    have hrest : (x >>> 8).toNat = x.toNat / 256 := by
      simp [Nat.shiftRight_eq_div_pow]
    rw [bytesLe, natLe, ih, hbyte, hrest, Nat.pow_succ', Nat.mod_mul]

/-- Bytes enough for the width hold the value. -/
theorem ofNat_natLe_bytesLe {n : Nat} (hw : w ≤ 8 * n) (x : BitVec w) :
    BitVec.ofNat w (natLe (bytesLe n x)) = x := by
  have hpow : x.toNat < 256 ^ n := by
    calc x.toNat < 2 ^ w := x.isLt
      _ ≤ 2 ^ (8 * n) := Nat.pow_le_pow_right (by omega) hw
      _ = 256 ^ n := by rw [Nat.pow_mul]
  rw [natLe_bytesLe, Nat.mod_eq_of_lt hpow, BitVec.ofNat_toNat, BitVec.setWidth_eq]

/-! ## Readers -/

/-- What is read from the bytes left of a file. -/
abbrev Reader := StateM (List Byte)

/-- The rule of a reader that passes its result on. -/
theorem bind_result_of {β : Type} {Q : β → Prop} {P : α → Prop} {m : Reader β} {k : β → Reader α}
    {file : List Byte} (hm : Q (m file).1) (h : ∀ b rest, Q b → P (k b rest).1) :
    P ((m >>= k) file).1 := h _ _ hm

/-- What every continuation's result satisfies, the result of the whole reader does. -/
theorem bind_result {β : Type} {P : α → Prop} (m : Reader β) (k : β → Reader α)
    (h : ∀ b rest, P (k b rest).1) (file : List Byte) : P ((m >>= k) file).1 := h _ _

/-- A value of `n` bytes, those past the end of the file taken for zeros. -/
def readLe (n w : Nat) : Reader (BitVec w) := fun bs =>
  (BitVec.ofNat w (natLe (bs.take n)), bs.drop n)

/-- A value of `n` bytes, 0 if the file ends before. -/
def readLeAll (n w : Nat) : Reader (BitVec w) := fun bs =>
  if n ≤ bs.length then readLe n w bs else (0, [])

/-- `n` bytes, zeros if the file ends before. -/
def readBytes (n : Nat) : Reader (Vector Byte n) := fun bs =>
  if h : n ≤ bs.length then (⟨(bs.take n).toArray, by simp [h]⟩, bs.drop n)
  else (Vector.replicate n 0, [])

theorem readLe_bytesLe {n : Nat} (hw : w ≤ 8 * n) (x : BitVec w) (rest : List Byte) :
    readLe n w (bytesLe n x ++ rest) = (x, rest) := by
  have htake : (bytesLe n x ++ rest).take n = bytesLe n x :=
    List.take_left' (bytesLe_length n x)
  have hdrop : (bytesLe n x ++ rest).drop n = rest := List.drop_left' (bytesLe_length n x)
  simp only [readLe, htake, hdrop, ofNat_natLe_bytesLe hw]

/-- Reading back a value. -/
theorem readLe_bind {n : Nat} (hw : w ≤ 8 * n) (x : BitVec w) (rest : List Byte)
    (k : BitVec w → Reader α) : (readLe n w >>= k) (bytesLe n x ++ rest) = k x rest := by
  show (let p := readLe n w (bytesLe n x ++ rest); k p.1 p.2) = k x rest
  rw [readLe_bytesLe hw]

/-- Reading back a value from a file with all its bytes. -/
theorem readLeAll_bind {n : Nat} (hw : w ≤ 8 * n) (x : BitVec w) (rest : List Byte)
    (k : BitVec w → Reader α) : (readLeAll n w >>= k) (bytesLe n x ++ rest) = k x rest := by
  have hlen : n ≤ (bytesLe n x ++ rest).length := by simp
  show (let p := readLeAll n w (bytesLe n x ++ rest); k p.1 p.2) = k x rest
  rw [readLeAll, if_pos hlen, readLe_bytesLe hw]

/-- Reading back bytes. -/
theorem readBytes_bind {n : Nat} (v : Vector Byte n) (rest : List Byte)
    (k : Vector Byte n → Reader α) : (readBytes n >>= k) (v.toList ++ rest) = k v rest := by
  have hlen : n ≤ (v.toList ++ rest).length := by simp
  have hread : readBytes n (v.toList ++ rest) = (v, rest) := by
    rw [readBytes, dif_pos hlen, Prod.mk.injEq]
    refine ⟨?_, List.drop_left' (by simp)⟩
    apply Vector.toArray_inj.mp
    show ((v.toList ++ rest).take n).toArray = v.toArray
    rw [List.take_left' v.length_toList]
    exact Array.toArray_toList
  show (let p := readBytes n (v.toList ++ rest); k p.1 p.2) = k v rest
  rw [hread]

end Binary
