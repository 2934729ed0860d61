import Mathlib.Data.List.Basic
import Mathlib.Tactic

/-!
# Copies into a buffer

A buffer is a list. `slice l off n` reads `n` elements at `off`, and `splice l off block` is
`memcpy(l + off, block, …)`: it writes `block` over the elements at `off`.

**Theorem (`foldl_splice_blocks`).** A buffer cut into blocks of one width, each rewritten in place
in turn, ends as the rewritten blocks.

**Theorem (`foldl_splice_slice`).** Copies from a buffer to another of its length, each to its own
place, make the second equal to the first once every place is in one of them.
-/

namespace Buffer

variable {α : Type*}

/-- The `n` elements at `off`. -/
def slice (l : List α) (off n : Nat) : List α := (l.drop off).take n

/-- `block` written at `off`. -/
def splice (l : List α) (off : Nat) (block : List α) : List α :=
  l.take off ++ block ++ l.drop (off + block.length)

/-! ## One copy -/

theorem slice_length {l : List α} {off n : Nat} (h : off + n ≤ l.length) :
    (slice l off n).length = n := by
  simp only [slice, List.length_take, List.length_drop]
  omega

theorem splice_length {l : List α} {off : Nat} {block : List α}
    (h : off + block.length ≤ l.length) : (splice l off block).length = l.length := by
  simp only [splice, List.length_append, List.length_take, List.length_drop]
  omega

theorem slice_append (p b q : List α) : slice (p ++ b ++ q) p.length b.length = b := by
  simp [slice, List.append_assoc]

theorem splice_append (p q : List α) {old block : List α} (h : old.length = block.length) :
    splice (p ++ old ++ q) p.length block = p ++ block ++ q := by
  have hdrop : (p ++ old ++ q).drop (p.length + block.length) = q := by
    rw [← h, ← List.length_append, List.drop_left]
  have htake : (p ++ old ++ q).take p.length = p := by
    rw [List.append_assoc, List.take_left]
  rw [splice, hdrop, htake]

/-- A copy past a first part. -/
theorem splice_skip {p l : List α} {off : Nat} (h : p.length ≤ off) (block : List α) :
    splice (p ++ l) off block = p ++ splice l (off - p.length) block := by
  have hend : off + block.length = p.length + (off - p.length + block.length) := by omega
  rw [splice, splice, List.take_append, List.take_of_length_le h, hend, ← List.drop_drop, List.drop_left]
  simp only [List.append_assoc]

/-- A copy over a first part. -/
theorem splice_here {old block : List α} (h : old.length = block.length) (l : List α) :
    splice (old ++ l) 0 block = block ++ l := by
  have hcopy := splice_append [] l h
  rwa [List.nil_append, List.nil_append, List.length_nil] at hcopy

/-- Inside the copy a buffer holds the block, elsewhere what it held. -/
theorem getElem?_splice {l : List α} {off : Nat} {block : List α}
    (h : off + block.length ≤ l.length) (k : Nat) :
    (splice l off block)[k]? =
      if off ≤ k ∧ k < off + block.length then block[k - off]? else l[k]? := by
  have htake : (l.take off).length = off := by rw [List.length_take]; omega
  rw [splice, List.append_assoc]
  by_cases hlo : k < off
  · rw [List.getElem?_append_left (by omega), List.getElem?_take_of_lt hlo, if_neg (by omega)]
  rw [List.getElem?_append_right (by omega), htake]
  by_cases hhi : k < off + block.length
  · rw [List.getElem?_append_left (by omega), if_pos (by omega)]
  · rw [List.getElem?_append_right (by omega), List.getElem?_drop, if_neg (by omega)]
    congr 1
    omega

/-! ## Blocks of one width -/

theorem blocks_length {w : Nat} {blocks : List (List α)} (hw : ∀ b ∈ blocks, b.length = w) :
    blocks.flatten.length = blocks.length * w := by
  induction blocks with
  | nil => simp
  | cons b blocks ih =>
    rw [List.flatten_cons, List.length_append, hw b (by simp), ih fun b' h => hw b' (by simp [h]),
      List.length_cons, Nat.succ_mul, Nat.add_comm]

/-- A block of the buffer. -/
theorem slice_blocks {w : Nat} {blocks : List (List α)} (hw : ∀ b ∈ blocks, b.length = w)
    (p q : List α) {k : Nat} (hk : k < blocks.length) :
    slice (p ++ blocks.flatten ++ q) (p.length + k * w) w = blocks[k] := by
  induction blocks generalizing p k with
  | nil => simp at hk
  | cons b blocks ih =>
    have hb : b.length = w := hw b (by simp)
    cases k with
    | zero =>
      have hcut := slice_append p b (blocks.flatten ++ q)
      rw [hb] at hcut
      simpa [List.append_assoc] using hcut
    | succ k =>
      have hrest := ih (fun b' h => hw b' (by simp [h])) (p ++ b) (k := k) (by simpa using hk)
      rw [List.length_append, hb] at hrest
      rw [List.getElem_cons_succ, ← hrest, List.flatten_cons, Nat.succ_mul]
      congr 1
      · simp [List.append_assoc]
      · omega

/-- Each block rewritten in place. -/
theorem foldl_splice_blocks {w : Nat} {f : List α → List α}
    (hf : ∀ b, b.length = w → (f b).length = w) {blocks : List (List α)}
    (hw : ∀ b ∈ blocks, b.length = w) (p q : List α) :
    (List.range blocks.length).foldl
        (fun l k => splice l (p.length + k * w) (f (slice l (p.length + k * w) w)))
        (p ++ blocks.flatten ++ q) =
      p ++ (blocks.map f).flatten ++ q := by
  induction blocks generalizing p with
  | nil => rfl
  | cons b blocks ih =>
    have hb : b.length = w := hw b (by simp)
    have hcut : slice (p ++ (b :: blocks).flatten ++ q) p.length w = b := by
      have := slice_append p b (blocks.flatten ++ q)
      rw [hb] at this
      simpa [List.append_assoc] using this
    have hwrite : splice (p ++ (b :: blocks).flatten ++ q) p.length (f b) =
        (p ++ f b) ++ blocks.flatten ++ q := by
      have := splice_append p (blocks.flatten ++ q) (hb.trans (hf b hb).symm)
      simpa [List.append_assoc] using this
    have hrest := ih (fun b' h => hw b' (by simp [h])) (p ++ f b)
    rw [List.length_append, hf b hb] at hrest
    rw [List.length_cons, List.range_succ_eq_map, List.foldl_cons, Nat.zero_mul, Nat.add_zero, hcut,
      hwrite, List.foldl_map, List.map_cons, List.flatten_cons]
    simp only [Nat.succ_mul, show ∀ k, p.length + (k * w + w) = p.length + w + k * w by
      intro k; omega]
    rw [hrest]
    simp [List.append_assoc]

/-! ## Copies to their own place -/

/-- Every element copied, or equal already, is as in the buffer copied from. -/
theorem foldl_splice_slice {n : Nat} {target : List α} {offs : List Nat}
    (hoffs : ∀ off ∈ offs, off + n ≤ target.length) {l : List α}
    (hl : l.length = target.length)
    (hall : ∀ k < target.length, l[k]? = target[k]? ∨ ∃ off ∈ offs, off ≤ k ∧ k < off + n) :
    offs.foldl (fun l off => splice l off (slice target off n)) l = target := by
  induction offs generalizing l with
  | nil =>
    apply List.ext_getElem? fun k => ?_
    by_cases hk : k < target.length
    · exact (hall k hk).resolve_right (by simp)
    · have hnone : l[k]? = none := by rw [List.getElem?_eq_none_iff]; omega
      rw [List.foldl_nil, hnone, eq_comm, List.getElem?_eq_none_iff]
      omega
  | cons off offs ih =>
    have hroom := hoffs off (by simp)
    have hslice := slice_length hroom
    have hfit : off + (slice target off n).length ≤ l.length := by omega
    rw [List.foldl_cons]
    apply ih (fun off' h => hoffs off' (by simp [h])) (by rw [splice_length hfit, hl])
    intro k hk
    rw [getElem?_splice hfit, hslice]
    by_cases hin : off ≤ k ∧ k < off + n
    · left
      rw [if_pos hin, slice, List.getElem?_take_of_lt (by omega), List.getElem?_drop]
      congr 1
      omega
    · rw [if_neg hin]
      rcases hall k hk with hsame | ⟨off', hmem, hcover⟩
      · exact .inl hsame
      · rcases List.mem_cons.mp hmem with rfl | hmem
        · exact absurd hcover hin
        · exact .inr ⟨off', hmem, hcover⟩

end Buffer
