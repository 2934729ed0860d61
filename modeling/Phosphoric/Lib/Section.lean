import Phosphoric.Lib.Binary

/-!
# Records in sections

A section of a file is read from all the bytes left of the file, so a reader that wants more than
the section has goes on into what follows it.

`Takes r n`: the reader takes `n` bytes. A record's reader has an instance from those of its
fields. `Bounded r fits`: the reader finds all it wants in the sections that satisfy `fits`, and in
no others.

**Theorem (`Bounded.own_iff`).** In front of other bytes, a section that fits is read as if alone,
and the other bytes are left. One that does not fit is not.
-/

namespace Binary

variable {α β : Type}

/-! ## Sections read alone -/

/-- In front of `after` the section is read as it is alone, and `after` is left. -/
def OwnBytes (r : Reader α) (data after : List Byte) : Prop :=
  r (data ++ after) = ((r data).1, (r data).2 ++ after)

/-- The sections the reader stays inside are those that satisfy `fits`. -/
structure Bounded (r : Reader α) (fits : List Byte → Prop) : Prop where
  own : ∀ data after, fits data → OwnBytes r data after
  past : ∀ data after, after ≠ [] → ¬fits data → (r (data ++ after)).2.length < after.length
  shrinks : ∀ bs, (r bs).2.length ≤ bs.length

theorem ownBytes_nil (r : Reader α) (data : List Byte) : OwnBytes r data [] := by
  simp [OwnBytes]

theorem OwnBytes.map {r : Reader β} {data after : List Byte} (h : OwnBytes r data after)
    (f : β → α) : OwnBytes (do return f (← r)) data after := by
  show (f (r (data ++ after)).1, (r (data ++ after)).2) = _
  rw [h]
  rfl

/-- A section followed by other bytes is read alone exactly if it fits. -/
theorem Bounded.own_iff {r : Reader α} {fits : List Byte → Prop} (h : Bounded r fits)
    {data after : List Byte} (hafter : after ≠ []) : OwnBytes r data after ↔ fits data := by
  constructor
  · intro hown
    by_contra hfits
    have hpast := h.past data after hafter hfits
    rw [hown, List.length_append] at hpast
    omega
  · exact h.own data after

theorem Bounded.congr {r : Reader α} {fits fits' : List Byte → Prop} (h : Bounded r fits)
    (hiff : ∀ data, fits data ↔ fits' data) : Bounded r fits' where
  own data after hfits := h.own data after ((hiff data).mpr hfits)
  past data after hafter hfits := h.past data after hafter fun hf => hfits ((hiff data).mp hf)
  shrinks := h.shrinks

theorem Bounded.pure (a : α) : Bounded (pure a) fun _ => True where
  own _ _ _ := rfl
  past _ _ _ hfits := absurd trivial hfits
  shrinks _ := le_rfl

/-- The second reader goes on in what the first leaves of the section. -/
theorem Bounded.bind {r : Reader β} {k : β → Reader α} {fits : List Byte → Prop}
    {fits' : β → List Byte → Prop} (h : Bounded r fits) (hk : ∀ b, Bounded (k b) (fits' b)) :
    Bounded (r >>= k) fun data => fits data ∧ fits' (r data).1 (r data).2 where
  own data after hfits := by
    show k (r (data ++ after)).1 (r (data ++ after)).2 = _
    rw [h.own data after hfits.1]
    exact (hk _).own _ after hfits.2
  past data after hafter hfits := by
    show (k (r (data ++ after)).1 (r (data ++ after)).2).2.length < after.length
    by_cases hfirst : fits data
    · rw [h.own data after hfirst]
      exact (hk _).past _ after hafter fun hsecond => hfits ⟨hfirst, hsecond⟩
    · exact lt_of_le_of_lt ((hk _).shrinks _) (h.past data after hafter hfirst)
  shrinks bs := le_trans ((hk _).shrinks _) (h.shrinks bs)

/-- What is done with the value does not matter. -/
theorem Bounded.map {r : Reader β} {fits : List Byte → Prop} (h : Bounded r fits) (f : β → α) :
    Bounded (do return f (← r)) fits :=
  (h.bind fun b => Bounded.pure (f b)).congr fun _ => and_iff_left trivial

/-! ## Fixed sizes -/

/-- The reader takes the next `n` bytes, which decide what it gives. -/
class Takes (r : Reader α) (n : outParam Nat) : Prop where
  rest : ∀ bs, (r bs).2 = bs.drop n
  value : ∀ bs, (r bs).1 = (r (bs.take n)).1

instance (a : α) : Takes (pure a) 0 where
  rest _ := rfl
  value _ := rfl

instance {r : Reader β} {k : β → Reader α} {n m : Nat} [hr : Takes r n]
    [hk : ∀ b, Takes (k b) m] : Takes (r >>= k) (n + m) where
  rest bs := by
    show (k (r bs).1 (r bs).2).2 = bs.drop (n + m)
    rw [(hk _).rest, hr.rest, List.drop_drop]
  value bs := by
    show (k (r bs).1 (r bs).2).1 = (k (r (bs.take (n + m))).1 (r (bs.take (n + m))).2).1
    have hvalue : (r (bs.take (n + m))).1 = (r bs).1 := by
      rw [hr.value, hr.value bs, List.take_take, Nat.min_eq_left (Nat.le_add_right n m)]
    rw [hvalue, (hk _).value, hr.rest, hr.rest, List.drop_take, Nat.add_sub_cancel_left]

instance {c : Prop} [Decidable c] {a b : Reader α} {n m : Nat} [ha : Takes a n]
    [hb : Takes b m] : Takes (if c then a else b) (if c then n else m) := by
  split_ifs
  · exact ha
  · exact hb

theorem Takes.cast {r : Reader α} {n m : Nat} (h : Takes r n) (heq : n = m) : Takes r m := heq ▸ h

/-- A reader of `n` bytes stays inside the sections of at least as many. -/
theorem Takes.bounded {r : Reader α} {n : Nat} (h : Takes r n) :
    Bounded r fun data => n ≤ data.length where
  own data after hfits := by
    have hvalue : (r (data ++ after)).1 = (r data).1 := by
      rw [h.value, h.value data, List.take_append_of_le_length hfits]
    have hrest : (r (data ++ after)).2 = (r data).2 ++ after := by
      rw [h.rest, h.rest, List.drop_append_of_le_length hfits]
    exact Prod.ext hvalue hrest
  past data after hafter hfits := by
    have hpos : 0 < after.length := List.length_pos_iff.mpr hafter
    rw [h.rest, List.length_drop, List.length_append]
    omega
  shrinks bs := by
    rw [h.rest, List.length_drop]
    omega

theorem bounded_of_takes (r : Reader α) {n : Nat} [h : Takes r n] :
    Bounded r fun data => n ≤ data.length := h.bounded

instance (n w : Nat) : Takes (readLe n w) n where
  rest _ := rfl
  value bs := by rw [readLe, readLe, List.take_take, Nat.min_self]

instance (n w : Nat) : Takes (readLeAll n w) n where
  rest bs := by
    unfold readLeAll
    split_ifs with hlen
    · rfl
    · exact (List.drop_eq_nil_of_le (by omega)).symm
  value bs := by
    unfold readLeAll
    by_cases hlen : n ≤ bs.length
    · rw [if_pos hlen, if_pos (by simpa using hlen), readLe, readLe, List.take_take, Nat.min_self]
    · rw [if_neg hlen, if_neg (by simpa using hlen)]

instance (n : Nat) : Takes (readBytes n) n where
  rest bs := by
    unfold readBytes
    split_ifs with hlen
    · rfl
    · exact (List.drop_eq_nil_of_le (by omega)).symm
  value bs := by
    unfold readBytes
    by_cases hlen : n ≤ bs.length
    · rw [dif_pos hlen, dif_pos (by simpa using hlen)]
      simp
    · rw [dif_neg hlen, dif_neg (by simpa using hlen)]

/-- `fread` into an array: what the file does not have any more keeps its place's value. -/
def readOver (n : Nat) (old : Fin n → Byte) : Reader (Fin n → Byte) := fun bs =>
  (fun i => (bs[i.val]?).getD (old i), bs.drop n)

instance (n : Nat) (old : Fin n → Byte) : Takes (readOver n old) n where
  rest _ := rfl
  value bs := by
    funext i
    simp only [readOver]
    rw [List.getElem?_take_of_lt i.isLt]

/-- `fread` of at most `n` bytes. -/
def readUpTo (n : Nat) : Reader (List Byte) := fun bs => (bs.take n, bs.drop n)

instance (n : Nat) : Takes (readUpTo n) n where
  rest _ := rfl
  value bs := by rw [readUpTo, readUpTo, List.take_take, Nat.min_self]

/-- `fseek` forward. -/
def skip (n : Nat) : Reader Unit := fun bs => ((), bs.drop n)

instance (n : Nat) : Takes (skip n) n where
  rest _ := rfl
  value _ := rfl

/-- A value `n` times. -/
def readMany (n : Nat) (r : Reader α) : Reader (List α) :=
  match n with
  | 0 => return []
  | n + 1 => do
    let a ← r
    let as ← readMany n r
    return a :: as

instance (n m : Nat) (r : Reader α) [hr : Takes r m] : Takes (readMany n r) (n * m) := by
  induction n with
  | zero => exact Takes.cast (inferInstanceAs (Takes (pure []) 0)) (Nat.zero_mul m).symm
  | succ n ih =>
    have hstep : Takes (readMany (n + 1) r) (m + (n * m + 0)) := by
      unfold readMany
      infer_instance
    exact hstep.cast (by rw [Nat.succ_mul]; omega)

end Binary
