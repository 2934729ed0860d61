import Mathlib.Data.List.Basic
import Mathlib.Data.List.Count
import Mathlib.Data.List.TakeWhile
import Mathlib.Tactic

/-!
# Words of a line

`strtok` cuts the first word off a line, as `strtok_r` does: it skips delimiters, takes what is not
one, and drops the delimiter after it. `strtoks n` cuts `n`, and `tokens` all of them.

**Theorem (`strtoks_join`).** Words joined by a delimiter are cut into the same words.

**Theorem (`strtoks_weight`).** No cut makes letters: the words and the rest have those of the line.
-/

namespace Tokens

variable {α : Type*} (delim : α → Bool)

/-- The first word, and what follows the delimiter after it. -/
def strtok (s : List α) : Option (List α × List α) :=
  let s := s.dropWhile delim
  if s.isEmpty then none
  else some (s.takeWhile fun a => !delim a, (s.dropWhile fun a => !delim a).tail)

/-- The first `n` words, `none` for those that are missing, and what follows. -/
def strtoks : Nat → List α → List (Option (List α)) × List α
  | 0, s => ([], s)
  | n + 1, s =>
    match strtok delim s with
    | some (word, rest) => (some word :: (strtoks n rest).1, (strtoks n rest).2)
    | none => (none :: (strtoks n []).1, (strtoks n []).2)

/-- All words. -/
def tokens : List α → List (List α)
  | [] => []
  | a :: s =>
    if delim a then tokens s
    else
      match s with
      | [] => [[a]]
      | b :: _ =>
        if delim b then [a] :: tokens s
        else
          match tokens s with
          | word :: words => (a :: word) :: words
          | [] => [[a]]

/-- One word. -/
structure IsWord (w : List α) : Prop where
  ne_nil : w ≠ []
  letters : ∀ a ∈ w, delim a = false

/-- The number of letters. -/
def weight (s : List α) : Nat := s.countP fun a => !delim a

variable {delim}

theorem weight_append (s s' : List α) : weight delim (s ++ s') = weight delim s + weight delim s' :=
  List.countP_append

theorem weight_cons_delim {d : α} (hd : delim d = true) (s : List α) :
    weight delim (d :: s) = weight delim s := by
  unfold weight
  rw [List.countP_cons_of_neg (by rw [hd]; decide)]

theorem weight_letters {s : List α} (h : ∀ a ∈ s, delim a = false) :
    weight delim s = s.length := by
  unfold weight
  rw [List.countP_eq_length]
  intro a ha
  rw [h a ha]
  rfl

theorem dropWhile_letter {a : α} {s rest : List α} (h : s.dropWhile delim = a :: rest) :
    delim a = false := by
  induction s with
  | nil => cases h
  | cons b s ih =>
    rw [List.dropWhile_cons] at h
    split_ifs at h with hb
    · exact ih h
    · obtain ⟨rfl, -⟩ := List.cons.inj h
      exact Bool.eq_false_iff.mpr hb

theorem weight_dropWhile (s : List α) : weight delim (s.dropWhile delim) = weight delim s := by
  induction s with
  | nil => rfl
  | cons b s ih =>
    rw [List.dropWhile_cons]
    split_ifs with hb
    · rw [ih, weight_cons_delim hb]
    · rfl

theorem weight_tail {s : List α} (h : ∀ a rest, s = a :: rest → delim a = true) :
    weight delim s.tail = weight delim s := by
  cases s with
  | nil => rfl
  | cons a rest => exact (weight_cons_delim (h a rest rfl) rest).symm

theorem strtok_isWord {s word rest : List α} (h : strtok delim s = some (word, rest)) :
    IsWord delim word := by
  unfold strtok at h
  dsimp only at h
  split_ifs at h with hempty
  obtain ⟨rfl, -⟩ := Prod.mk.inj (Option.some.inj h)
  constructor
  · cases hs : s.dropWhile delim with
    | nil =>
      rw [hs] at hempty
      exact absurd rfl hempty
    | cons a rest =>
      rw [List.takeWhile_cons, dropWhile_letter hs]
      exact List.cons_ne_nil _ _
  · intro a ha
    have hletter := List.mem_takeWhile_imp ha
    simpa using hletter

theorem strtok_weight {s word rest : List α} (h : strtok delim s = some (word, rest)) :
    weight delim word + weight delim rest = weight delim s := by
  unfold strtok at h
  dsimp only at h
  split_ifs at h
  obtain ⟨rfl, rfl⟩ := Prod.mk.inj (Option.some.inj h)
  have htail : weight delim ((s.dropWhile delim).dropWhile fun a => !delim a).tail =
      weight delim ((s.dropWhile delim).dropWhile fun a => !delim a) := by
    refine weight_tail fun a rest hcons => ?_
    have hletter := @dropWhile_letter α (fun a => !delim a) a _ _ hcons
    simpa using hletter
  rw [htail, ← weight_append, List.takeWhile_append_dropWhile, weight_dropWhile]

theorem strtok_word {word : List α} (hword : IsWord delim word) {d : α} (hd : delim d = true)
    (rest : List α) : strtok delim (word ++ d :: rest) = some (word, rest) := by
  obtain ⟨hne, hletters⟩ := hword
  have hdrop : (word ++ d :: rest).dropWhile delim = word ++ d :: rest := by
    cases word with
    | nil => exact absurd rfl hne
    | cons a word =>
      rw [List.cons_append, List.dropWhile_cons, if_neg]
      rw [hletters a List.mem_cons_self]
      decide
  have htake : (word ++ d :: rest).takeWhile (fun a => !delim a) = word := by
    rw [List.takeWhile_append_of_pos fun a ha => by rw [hletters a ha]; rfl, List.takeWhile_cons,
      if_neg (by rw [hd]; decide), List.append_nil]
  have hafter : (word ++ d :: rest).dropWhile (fun a => !delim a) = d :: rest := by
    rw [List.dropWhile_append_of_pos fun a ha => by rw [hletters a ha]; rfl, List.dropWhile_cons,
      if_neg (by rw [hd]; decide)]
  unfold strtok
  dsimp only
  rw [hdrop, htake, hafter, if_neg (by simp)]
  rfl

theorem strtok_last {word : List α} (hword : IsWord delim word) :
    strtok delim word = some (word, []) := by
  obtain ⟨hne, hletters⟩ := hword
  have hdrop : word.dropWhile delim = word := by
    cases word with
    | nil => exact absurd rfl hne
    | cons a word =>
      rw [List.dropWhile_cons, if_neg]
      rw [hletters a List.mem_cons_self]
      decide
  have hall : ∀ a ∈ word, (!delim a) = true := fun a ha => by rw [hletters a ha]; rfl
  unfold strtok
  dsimp only
  rw [hdrop, List.takeWhile_eq_self_iff.mpr hall, List.dropWhile_eq_nil_iff.mpr hall,
    if_neg (by simpa using hne)]
  rfl

theorem strtok_nil : strtok delim ([] : List α) = none := rfl

theorem strtok_none {s : List α} (h : strtok delim s = none) : weight delim s = 0 := by
  unfold strtok at h
  dsimp only at h
  split_ifs at h with hempty
  rw [← weight_dropWhile, List.isEmpty_iff.mp hempty]
  rfl

/-! ## Several words -/

/-- Words, each followed by a delimiter, and what follows. -/
def join (d : α) (words : List (List α)) (tail : List α) : List α :=
  words.foldr (fun word rest => word ++ d :: rest) tail

/-- The letters of words, missing words having none. -/
def weights (delim : α → Bool) (words : List (Option (List α))) : Nat :=
  (words.map fun word => weight delim (word.getD [])).sum

theorem strtoks_nil (n : Nat) :
    strtoks delim n ([] : List α) = (List.replicate n none, []) := by
  induction n with
  | zero => rfl
  | succ n ih =>
    rw [strtoks, strtok_nil]
    dsimp only
    rw [ih]
    rfl

theorem weights_replicate (n : Nat) :
    weights delim (List.replicate n (none : Option (List α))) = 0 := by
  induction n with
  | zero => rfl
  | succ n ih =>
    rw [List.replicate_succ]
    exact (Nat.zero_add _).trans ih

theorem strtoks_weight (n : Nat) (s : List α) :
    weights delim (strtoks delim n s).1 + weight delim (strtoks delim n s).2 = weight delim s := by
  induction n generalizing s with
  | zero => exact Nat.zero_add _
  | succ n ih =>
    unfold strtoks
    cases h : strtok delim s with
    | none =>
      dsimp only
      rw [strtok_none h, strtoks_nil]
      exact weights_replicate (n + 1)
    | some p =>
      have hrest := ih p.2
      have hweight := @strtok_weight _ _ s p.1 p.2 h
      show weight delim p.1 + weights delim (strtoks delim n p.2).1 + _ = _
      dsimp only
      omega

theorem strtoks_isWord (n : Nat) (s : List α) :
    ∀ word, some word ∈ (strtoks delim n s).1 → IsWord delim word := by
  induction n generalizing s with
  | zero => exact nofun
  | succ n ih =>
    intro word hmem
    unfold strtoks at hmem
    cases h : strtok delim s with
    | none =>
      rw [h] at hmem
      obtain hmem | hmem := List.mem_cons.mp hmem
      · cases hmem
      · exact ih [] word hmem
    | some p =>
      rw [h] at hmem
      obtain hmem | hmem := List.mem_cons.mp hmem
      · obtain rfl := Option.some.inj hmem
        exact @strtok_isWord _ _ s p.1 p.2 h
      · exact ih p.2 word hmem

/-- Words joined are cut into the same words, and the rest is left. -/
theorem strtoks_join {d : α} (hd : delim d = true) {words : List (List α)}
    (hwords : ∀ word ∈ words, IsWord delim word) (tail : List α) :
    strtoks delim words.length (join d words tail) = (words.map some, tail) := by
  induction words with
  | nil => rfl
  | cons word words ih =>
    obtain ⟨hword, hrest⟩ := List.forall_mem_cons.mp hwords
    show strtoks delim (words.length + 1) (word ++ d :: join d words tail) = _
    rw [strtoks, strtok_word hword hd]
    dsimp only
    rw [ih hrest]
    rfl

theorem weight_cons_letter {a : α} (ha : delim a = false) (s : List α) :
    weight delim (a :: s) = weight delim s + 1 := by
  unfold weight
  rw [List.countP_cons_of_pos (by rw [ha]; rfl)]

theorem weight_tokens (s : List α) :
    weights delim ((tokens delim s).map some) = weight delim s := by
  induction s with
  | nil => rfl
  | cons a s ih =>
    unfold tokens
    by_cases ha : delim a = true
    · rw [if_pos ha, ih, weight_cons_delim ha]
    · have hletter := Bool.eq_false_iff.mpr ha
      rw [if_neg ha, weight_cons_letter hletter]
      cases s with
      | nil => exact weight_cons_letter hletter []
      | cons b s =>
        dsimp only
        by_cases hb : delim b = true
        · rw [if_pos hb, ← ih]
          show weight delim [a] + _ = _
          rw [weight_cons_letter hletter, Nat.add_comm]
          rfl
        · rw [if_neg hb, ← ih]
          cases tokens delim (b :: s) with
          | nil => exact weight_cons_letter hletter []
          | cons word words =>
            show weight delim (a :: word) + _ = weight delim word + _ + 1
            rw [weight_cons_letter hletter]
            omega

end Tokens
