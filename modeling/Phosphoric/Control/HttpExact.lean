import Phosphoric.Control.HttpFormats

/-!
# Requests and commands

What `control_dispatch` makes of the line of a request, against what the format means.

**Theorem (`httpRequest_exact_iff`).** Of any request, the line is cut into the command and the
arguments the format names, and its file is inside the root, exactly if every value that stands for
one word is one word and the line does not end in a line end.

A space is enough to fail: the decoder makes one of `+` and of `%20`, and nothing between it and
the dispatch looks for it (`httpRequest_splits`).
-/

namespace Phosphoric

open Tokens (IsWord strtok strtoks tokens weight weights join)

/-! ## The line -/

/-- Values after one another, a space between them. -/
def httpJoin : List CStr → CStr
  | [] => []
  | piece :: pieces => piece ++ pieces.flatMap fun piece => 0x20 :: piece

theorem httpJoin_cons (piece : CStr) {pieces : List CStr} (h : pieces ≠ []) :
    httpJoin (piece :: pieces) = piece ++ 0x20 :: httpJoin pieces := by
  cases pieces with
  | nil => exact absurd rfl h
  | cons next pieces => rfl

theorem httpJoin_append (words : List CStr) (tail : CStr) :
    httpJoin (words ++ [tail]) = join 0x20 words tail := by
  induction words with
  | nil => exact List.append_nil tail
  | cons word words ih =>
    rw [List.cons_append, httpJoin_cons word (by simp), ih]
    rfl

theorem weight_httpJoin (pieces : List CStr) :
    weight ctlBlank (httpJoin pieces) = weights ctlBlank (pieces.map some) := by
  induction pieces with
  | nil => rfl
  | cons piece pieces ih =>
    show _ = weight ctlBlank piece + weights ctlBlank (pieces.map some)
    cases pieces with
    | nil =>
      show weight ctlBlank (piece ++ []) = _
      rw [List.append_nil]
      rfl
    | cons next pieces =>
      rw [httpJoin_cons piece (by simp), Tokens.weight_append, Tokens.weight_cons_delim (by rfl), ih]

/-- Words are cut as they were put, and those that are missing are missing. -/
theorem strtoks_httpJoin {words : List CStr} (hwords : ∀ word ∈ words, IsWord ctlBlank word)
    {n : Nat} (hn : words.length ≤ n) :
    strtoks ctlBlank n (httpJoin words) =
      (words.map some ++ List.replicate (n - words.length) none, []) := by
  induction words generalizing n with
  | nil => exact Tokens.strtoks_nil n
  | cons word words ih =>
    obtain ⟨hword, hrest⟩ := List.forall_mem_cons.mp hwords
    obtain ⟨n, rfl⟩ := Nat.exists_eq_succ_of_ne_zero (Nat.ne_of_gt (Nat.lt_of_lt_of_le
      (Nat.succ_pos words.length) hn))
    rw [List.length_cons] at hn
    cases words with
    | nil =>
      show strtoks ctlBlank (n + 1) (word ++ []) = _
      rw [List.append_nil, strtoks, Tokens.strtok_last hword]
      dsimp only
      rw [Tokens.strtoks_nil]
      simp
    | cons next words =>
      have htake := ih hrest (n := n) (by omega)
      rw [httpJoin_cons word (by simp), strtoks, Tokens.strtok_word hword (by rfl)]
      dsimp only
      rw [htake]
      simp

/-- A line end at the end is cut off, and it counts as a letter. -/
theorem weight_rdropWhile {s : CStr} (h : weight ctlBlank s ≤
    weight ctlBlank (s.rdropWhile ctlLineEnd)) : ∀ b ∈ s.getLast?, ctlLineEnd b = false := by
  intro b hb
  by_contra hend
  rw [Bool.not_eq_false] at hend
  obtain ⟨init, rfl⟩ := List.getLast?_eq_some_iff.mp hb
  have hletter : ctlBlank b = false := by
    unfold ctlLineEnd at hend
    unfold ctlBlank
    obtain hb | hb := Bool.or_eq_true_iff.mp hend <;> rw [eq_of_beq hb] <;> rfl
  have hle : weight ctlBlank (init.rdropWhile ctlLineEnd) ≤ weight ctlBlank init :=
    (List.rdropWhile_prefix ctlLineEnd init).sublist.countP_le
  rw [List.rdropWhile_concat_pos _ _ _ hend, Tokens.weight_append] at h
  have hone : weight ctlBlank [b] = 1 := Tokens.weight_cons_letter hletter []
  omega

/-- Without a line end at the end nothing is cut off. -/
theorem rdropWhile_lineEnd {s : CStr} (h : ∀ b ∈ s.getLast?, ctlLineEnd b = false) :
    s.rdropWhile ctlLineEnd = s := by
  rw [List.rdropWhile_eq_self_iff]
  intro hne hend
  have hlast := h _ (List.getLast?_eq_getLast_of_ne_nil hne)
  exact absurd (hlast.symm.trans hend) Bool.false_ne_true

/-- What `control_dispatch` finds after the command. -/
def HttpCommand.rest (c : HttpCommand) : CStr := httpJoin (c.words ++ c.tail.toList)

theorem HttpCommand.text_eq (c : HttpCommand) :
    c.text = c.verb ++ (if c.words ++ c.tail.toList = [] then [] else 0x20 :: c.rest) := by
  unfold HttpCommand.text HttpCommand.rest
  cases c.words ++ c.tail.toList with
  | nil => rfl
  | cons piece pieces => rfl

theorem join_eq_flatMap (words : List CStr) (tail : CStr) :
    join 0x20 words tail = (words.flatMap fun word => word ++ [0x20]) ++ tail := by
  induction words with
  | nil => rfl
  | cons word words ih =>
    show word ++ 0x20 :: join 0x20 words tail = _
    rw [ih, List.flatMap_cons, List.append_assoc, List.append_assoc, List.singleton_append]

/-- The last byte of the line is the last byte of its last value. -/
theorem httpJoin_getLast (pieces : List CStr) :
    (∀ b ∈ (httpJoin pieces).getLast?, ctlLineEnd b = false) ↔
      ∀ piece ∈ pieces.getLast?, ∀ b ∈ piece.getLast?, ctlLineEnd b = false := by
  obtain rfl | ⟨words, last, rfl⟩ := List.eq_nil_or_concat pieces
  · exact iff_of_true nofun nofun
  · have hlast : (∀ piece ∈ (words ++ [last]).getLast?, ∀ b ∈ piece.getLast?,
        ctlLineEnd b = false) ↔ ∀ b ∈ last.getLast?, ctlLineEnd b = false := by
      rw [List.getLast?_concat]
      exact ⟨fun h => h last rfl, fun h piece hpiece => Option.some.inj hpiece ▸ h⟩
    rw [List.concat_eq_append, hlast, httpJoin_append, join_eq_flatMap, List.getLast?_append]
    obtain rfl | ⟨init, b, rfl⟩ := List.eq_nil_or_concat last
    · refine iff_of_true ?_ nofun
      obtain rfl | ⟨words, word, rfl⟩ := List.eq_nil_or_concat words
      · exact nofun
      · rw [List.concat_eq_append, List.flatMap_append, List.flatMap_singleton, ← List.append_assoc,
          List.getLast?_concat]
        intro b hb
        obtain rfl := Option.some.inj hb
        rfl
    · rw [List.concat_eq_append, List.getLast?_concat]
      rfl

/-- What is cut off a line is cut off what follows any byte that is no line end. -/
theorem rdropWhile_after (front : CStr) {d : Byte} (hd : ctlLineEnd d = false) (s : CStr) :
    (front ++ d :: s).rdropWhile ctlLineEnd = front ++ d :: s.rdropWhile ctlLineEnd := by
  induction s using List.reverseRecOn with
  | nil =>
    refine List.rdropWhile_concat_neg _ _ _ ?_
    rw [hd]
    decide
  | append_singleton s b ih =>
    have hsplit : front ++ d :: (s ++ [b]) = (front ++ d :: s) ++ [b] := by
      rw [List.append_assoc, List.cons_append]
    rw [hsplit]
    by_cases hb : ctlLineEnd b = true
    · rw [List.rdropWhile_concat_pos _ _ _ hb, List.rdropWhile_concat_pos _ _ _ hb, ih]
    · rw [List.rdropWhile_concat_neg _ _ _ hb, List.rdropWhile_concat_neg _ _ _ hb, hsplit]

theorem ctlVerb_word {verb : CStr} {kind : CtlArgs} (h : ctlCommands.lookup verb = some kind) :
    IsWord ctlBlank verb ∧ ∀ b ∈ verb, ctlLineEnd b = false := by
  obtain ⟨front, back, hsplit, -⟩ := List.lookup_eq_some_iff.mp h
  have hmem : (verb, kind) ∈ ctlCommands := by
    rw [hsplit]
    exact List.mem_append_right _ List.mem_cons_self
  have hcheck := List.all_eq_true.mp ctlCommands_word _ hmem
  obtain ⟨hne, hall⟩ := Bool.and_eq_true_iff.mp hcheck
  have hbytes := List.all_eq_true.mp hall
  refine ⟨⟨?_, fun b hb => ?_⟩, fun b hb => ?_⟩
  · rintro rfl
    cases hne
  · simpa using (Bool.and_eq_true_iff.mp (hbytes b hb)).1
  · simpa using (Bool.and_eq_true_iff.mp (hbytes b hb)).2

/-- The command is cut off the line, and the line ends off the rest. -/
theorem controlDispatch_text {c : HttpCommand} {kind : CtlArgs}
    (hverb : ctlCommands.lookup c.verb = some kind) :
    controlDispatch c.text =
      some { verb := c.verb, args := kind.take (c.rest.rdropWhile ctlLineEnd) } := by
  obtain ⟨hword, hends⟩ := ctlVerb_word hverb
  have hstrtok : strtok ctlBlank (c.text.rdropWhile ctlLineEnd) =
      some (c.verb, c.rest.rdropWhile ctlLineEnd) := by
    rw [c.text_eq]
    by_cases hnil : c.words ++ c.tail.toList = []
    · have hrest : c.rest = [] := by
        unfold HttpCommand.rest
        rw [hnil]
        rfl
      have hkeep : c.verb.rdropWhile ctlLineEnd = c.verb :=
        rdropWhile_lineEnd fun b hb => hends b (List.mem_of_getLast? hb)
      rw [if_pos hnil, List.append_nil, hkeep, hrest, Tokens.strtok_last hword]
      rfl
    · rw [if_neg hnil, rdropWhile_after _ (by rfl), Tokens.strtok_word hword (by rfl)]
  unfold controlDispatch
  rw [hstrtok]
  dsimp only
  rw [hverb]
  rfl

/-! ## The arguments -/

/-- The values stand where the command takes its arguments. -/
def CtlArgs.Takes (kind : CtlArgs) (c : HttpCommand) : Prop :=
  match kind with
  | .words n => c.words.length ≤ n ∧ c.tail = none
  | .raw n => c.words.length = n
  | .bytes => ∃ word tail, c.words = [word] ∧ c.tail = some tail
  | .cond => (∃ word, c.words = [word] ∧ c.tail = none) ∨
      ∃ word sep tail, c.words = [word, sep] ∧ isIf sep = true ∧ c.tail = some tail

theorem isIf_letters {sep : CStr} (h : isIf sep = true) :
    IsWord ctlBlank sep ∧ weight ctlBlank sep = 2 := by
  have hmap : sep.map (· ||| 0x20) = [0x69, 0x66] := eq_of_beq h
  have hlength : sep.length = 2 := by
    rw [← List.length_map (f := (· ||| 0x20)), hmap]
    rfl
  obtain ⟨i, f, rfl⟩ := List.length_eq_two.mp hlength
  obtain ⟨hi, hrest⟩ := List.cons.inj hmap
  obtain ⟨hf, -⟩ := List.cons.inj hrest
  have hletter : ∀ {b o : Byte}, b ||| 0x20 = o → o = 0x69 ∨ o = 0x66 → ctlBlank b = false := by
    intro b o hb ho
    unfold ctlBlank
    by_contra hblank
    rw [Bool.not_eq_false, Bool.or_eq_true_iff] at hblank
    obtain hblank | hblank := hblank <;> rw [eq_of_beq hblank] at hb <;> rw [← hb] at ho <;>
      revert ho <;> decide
  have hletters : ∀ b ∈ [i, f], ctlBlank b = false := by
    intro b hb
    obtain rfl | hb := List.mem_cons.mp hb
    · exact hletter hi (.inl rfl)
    · obtain rfl := List.mem_singleton.mp hb
      exact hletter hf (.inr rfl)
  exact ⟨⟨List.cons_ne_nil _ _, hletters⟩, Tokens.weight_letters hletters⟩

theorem weights_append (words words' : List (Option CStr)) :
    weights ctlBlank (words ++ words') = weights ctlBlank words + weights ctlBlank words' := by
  unfold weights
  rw [List.map_append, List.sum_append]

theorem strtoks_length (n : Nat) (s : CStr) : (strtoks ctlBlank n s).1.length = n := by
  induction n generalizing s with
  | zero => rfl
  | succ n ih =>
    unfold strtoks
    cases strtok ctlBlank s with
    | none => exact congrArg (· + 1) (ih [])
    | some p => exact congrArg (· + 1) (ih p.2)

/-- Words that fit are taken as they were put. -/
theorem CtlArgs.take_rest {kind : CtlArgs} {c : HttpCommand} (htakes : kind.Takes c)
    (hwords : ∀ word ∈ c.words, IsWord ctlBlank word) : kind.take c.rest = kind.meant c := by
  have hblank : ctlBlank 0x20 = true := rfl
  unfold HttpCommand.rest
  cases kind with
  | words n =>
    obtain ⟨hn, htail⟩ := htakes
    unfold CtlArgs.take CtlArgs.meant
    rw [htail, Option.toList_none, List.append_nil]
    exact congrArg Prod.fst (strtoks_httpJoin hwords hn)
  | raw n =>
    have hn : c.words.length = n := htakes
    unfold CtlArgs.take CtlArgs.meant
    dsimp only
    cases c.tail with
    | none =>
      rw [Option.toList_none, List.append_nil, strtoks_httpJoin hwords hn.le, hn, Nat.sub_self]
      simp
    | some tail =>
      rw [Option.toList_some, httpJoin_append, ← hn, Tokens.strtoks_join hblank hwords]
      rfl
  | bytes =>
    obtain ⟨word, tail, hword, htail⟩ := htakes
    unfold CtlArgs.take CtlArgs.meant
    have hcut := Tokens.strtoks_join hblank hwords tail
    rw [hword] at hcut
    rw [hword, htail, Option.toList_some, httpJoin_append]
    dsimp only
    rw [show 1 = [word].length from rfl, hcut]
    rfl
  | cond =>
    obtain ⟨word, hword, htail⟩ | ⟨word, sep, tail, hword, hsep, htail⟩ := htakes
    · unfold CtlArgs.take CtlArgs.meant
      rw [hword] at hwords
      have hcut := strtoks_httpJoin hwords (n := 1) le_rfl
      rw [hword, htail, Option.toList_none, List.append_nil]
      dsimp only
      rw [hcut]
      rfl
    · unfold CtlArgs.take CtlArgs.meant
      rw [hword] at hwords
      obtain ⟨hfirst, hsecond⟩ := List.forall_mem_cons.mp hwords
      have hcut := @Tokens.strtoks_join _ _ _ hblank [word] (by simpa using hfirst)
        (sep ++ 0x20 :: tail)
      have hif := Tokens.strtok_word (isIf_letters hsep).1 hblank tail
      rw [hword, htail, Option.toList_some, httpJoin_append]
      have hrest : strtoks ctlBlank 1 (join 0x20 [word, sep] tail) =
        ([word].map some, sep ++ 0x20 :: tail) := hcut
      dsimp only
      rw [hrest]
      dsimp only
      rw [hif]
      dsimp only
      rw [if_pos hsep]
      rfl

/-- What a command with an `if` leaves out. -/
def CtlArgs.skipped (kind : CtlArgs) (args : List (Option CStr)) : Nat :=
  match kind, args with
  | .cond, [_, some _] => 2
  | _, _ => 0

/-- The arguments have no more letters than the line. -/
theorem CtlArgs.take_weight (kind : CtlArgs) (save : CStr) :
    weights ctlBlank (kind.take save) + kind.skipped (kind.take save) ≤ weight ctlBlank save := by
  cases kind with
  | words n =>
    have hcut := @Tokens.strtoks_weight _ ctlBlank n save
    show weights ctlBlank (strtoks ctlBlank n save).1 + 0 ≤ _
    omega
  | raw n =>
    have hcut := @Tokens.strtoks_weight _ ctlBlank n save
    unfold CtlArgs.take CtlArgs.skipped
    dsimp only
    rw [weights_append]
    show _ + (weight ctlBlank (strtoks ctlBlank n save).2 + 0) + 0 ≤ _
    omega
  | bytes =>
    have hcut := @Tokens.strtoks_weight _ ctlBlank 1 save
    unfold CtlArgs.take CtlArgs.skipped
    dsimp only
    rw [weights_append, Tokens.weight_tokens]
    omega
  | cond =>
    have hcut := @Tokens.strtoks_weight _ ctlBlank 1 save
    have hone := strtoks_length 1 save
    unfold CtlArgs.take
    dsimp only
    generalize strtoks ctlBlank 1 save = cut at hcut hone ⊢
    obtain ⟨args, rest⟩ := cut
    obtain ⟨arg, rfl⟩ := List.length_eq_one_iff.mp hone
    dsimp only at hcut ⊢
    cases hrest : strtok ctlBlank rest with
    | none =>
      rw [weights_append]
      show _ + (0 + 0) + 0 ≤ _
      omega
    | some p =>
      have hweight := @Tokens.strtok_weight _ _ rest p.1 p.2 hrest
      dsimp only
      rw [weights_append]
      by_cases hif : isIf p.1 = true
      · have htwo := (isIf_letters hif).2
        rw [if_pos hif]
        show _ + (weight ctlBlank p.2 + 0) + 2 ≤ _
        omega
      · rw [if_neg hif]
        show _ + (0 + 0) + 0 ≤ _
        omega

/-- The arguments meant have all the letters of the line. -/
theorem CtlArgs.meant_weight {kind : CtlArgs} {c : HttpCommand} (htakes : kind.Takes c) :
    weights ctlBlank (kind.meant c) + kind.skipped (kind.meant c) = weight ctlBlank c.rest := by
  unfold HttpCommand.rest
  rw [weight_httpJoin, List.map_append, weights_append]
  cases kind with
  | words n =>
    obtain ⟨-, htail⟩ := htakes
    unfold CtlArgs.meant CtlArgs.skipped
    dsimp only
    rw [htail, weights_append, Tokens.weights_replicate]
    rfl
  | raw n =>
    unfold CtlArgs.meant CtlArgs.skipped
    dsimp only
    rw [weights_append]
    cases c.tail <;> rfl
  | bytes =>
    obtain ⟨word, tail, -, htail⟩ := htakes
    unfold CtlArgs.meant CtlArgs.skipped
    dsimp only
    rw [weights_append, Tokens.weight_tokens, htail]
    rfl
  | cond =>
    obtain ⟨word, hword, htail⟩ | ⟨word, sep, tail, hword, hsep, htail⟩ := htakes
    · unfold CtlArgs.meant
      rw [hword, htail]
      rfl
    · have htwo := (isIf_letters hsep).2
      unfold CtlArgs.meant
      rw [hword, htail]
      show weight ctlBlank word + (weight ctlBlank tail + 0) + 2 =
        weight ctlBlank word + (weight ctlBlank sep + 0) + (weight ctlBlank tail + 0)
      omega

/-- Arguments taken as they were meant are words. -/
theorem CtlArgs.words_of_take {kind : CtlArgs} {c : HttpCommand} {save : CStr}
    (htakes : kind.Takes c) (h : kind.take save = kind.meant c) :
    ∀ word ∈ c.words, IsWord ctlBlank word := by
  have hcut : ∀ n, ∀ word, some word ∈ (strtoks ctlBlank n save).1 → IsWord ctlBlank word :=
    fun n => Tokens.strtoks_isWord n save
  cases kind with
  | words n =>
    intro word hword
    refine hcut n word ?_
    have hargs : (strtoks ctlBlank n save).1 = _ := h
    rw [hargs]
    exact List.mem_append_left _ (List.mem_map_of_mem hword)
  | raw n =>
    have hn : c.words.length = n := htakes
    have hargs := (List.append_inj h (by rw [strtoks_length, List.length_map, hn])).1
    intro word hword
    refine hcut n word ?_
    rw [hargs]
    exact List.mem_map_of_mem hword
  | bytes =>
    obtain ⟨first, tail, hfirst, -⟩ := htakes
    have hargs := (List.append_inj h
      (by rw [strtoks_length, List.length_map, hfirst]; rfl)).1
    intro word hword
    refine hcut 1 word ?_
    rw [hargs]
    exact List.mem_map_of_mem hword
  | cond =>
    have htake : ∀ word ∈ c.words.take 1, IsWord ctlBlank word := by
      have hlength : (c.words.take 1).length = 1 := by
        obtain ⟨first, hfirst, -⟩ | ⟨first, sep, tail, hfirst, -⟩ := htakes <;> rw [hfirst] <;> rfl
      have hargs := (List.append_inj h (by rw [strtoks_length, List.length_map, hlength])).1
      intro word hword
      refine hcut 1 word ?_
      rw [hargs]
      exact List.mem_map_of_mem hword
    obtain ⟨first, hfirst, -⟩ | ⟨first, sep, tail, hfirst, hsep, -⟩ := htakes
    · rw [hfirst] at htake ⊢
      exact htake
    · rw [hfirst] at htake ⊢
      exact List.forall_mem_cons.mpr ⟨htake first List.mem_cons_self, by
        simpa using (isIf_letters hsep).1⟩

/-- The arguments are those meant exactly if the values fit. -/
theorem CtlArgs.take_iff {kind : CtlArgs} {c : HttpCommand} (htakes : kind.Takes c) :
    kind.take (c.rest.rdropWhile ctlLineEnd) = kind.meant c ↔ c.Fits := by
  constructor
  · intro h
    refine ⟨CtlArgs.words_of_take htakes h, (httpJoin_getLast _).mp (weight_rdropWhile ?_)⟩
    have hle := kind.take_weight (c.rest.rdropWhile ctlLineEnd)
    rw [h, CtlArgs.meant_weight htakes] at hle
    exact hle
  · intro hfits
    have hkeep : c.rest.rdropWhile ctlLineEnd = c.rest :=
      rdropWhile_lineEnd ((httpJoin_getLast _).mpr hfits.last)
    rw [hkeep]
    exact CtlArgs.take_rest htakes hfits.words

/-! ## The files -/

theorem HttpFormat.Gives.takes {root src : CStr} {f : HttpFormat} {c : HttpCommand}
    (h : f.Gives root src c) {kind : CtlArgs} (hshaped : kind.shaped f = true) : kind.Takes c := by
  have hlength := h.words.length_eq
  have htail := h.tail
  unfold CtlArgs.shaped at hshaped
  unfold CtlArgs.Takes
  cases kind with
  | words n =>
    obtain ⟨hn, hnone⟩ := Bool.and_eq_true_iff.mp hshaped
    rw [Option.isNone_iff_eq_none] at hnone
    rw [hnone] at htail
    refine ⟨hlength ▸ of_decide_eq_true hn, ?_⟩
    cases hvalue : c.tail with
    | none => rfl
    | some value =>
      rw [hvalue] at htail
      cases htail
  | raw n => exact hlength ▸ eq_of_beq hshaped
  | bytes =>
    obtain ⟨hone, hsome⟩ := Bool.and_eq_true_iff.mp hshaped
    obtain ⟨word, hword⟩ := List.length_eq_one_iff.mp (hlength ▸ eq_of_beq hone)
    obtain ⟨a, ha⟩ := Option.isSome_iff_exists.mp hsome
    rw [ha] at htail
    cases hvalue : c.tail with
    | none =>
      rw [hvalue] at htail
      cases htail
    | some value => exact ⟨word, value, hword, rfl⟩
  | cond =>
    have hwords := h.words
    obtain ⟨verb, args, tail⟩ := f
    obtain ⟨verb', values, value⟩ := c
    dsimp only at hshaped htail hwords ⊢
    split at hshaped
    · cases htail
      obtain ⟨word, rest, -, hrest, rfl⟩ := List.forall₂_cons_left_iff.mp hwords
      cases hrest
      exact .inl ⟨word, rfl, rfl⟩
    · cases htail
      obtain ⟨word, rest, -, hrest, rfl⟩ := List.forall₂_cons_left_iff.mp hwords
      obtain ⟨sep, rest, hsep, hnil, rfl⟩ := List.forall₂_cons_left_iff.mp hrest
      cases hnil
      obtain rfl := Option.some.inj hsep
      exact .inr ⟨word, _, _, rfl, hshaped, rfl⟩
    · cases hshaped

/-- The first argument meant is the first word. -/
theorem CtlArgs.meant_head (kind : CtlArgs) {c : HttpCommand} {word : CStr} {words : List CStr}
    (h : c.words = word :: words) : (kind.meant c).head? = some (some word) := by
  unfold CtlArgs.meant
  rw [h]
  cases kind <;> rfl

/-- With its command known, the call has the arguments meant. -/
theorem HttpCommand.call_eq {c : HttpCommand} {kind : CtlArgs}
    (h : ctlCommands.lookup c.verb = some kind) :
    c.call = { verb := c.verb, args := kind.meant c } := by
  unfold HttpCommand.call
  rw [h]
  rfl

/-- Where the first value stands for a file, it is one of the root. -/
theorem headFile {root src : CStr} {args : List HttpArg} {values : List CStr}
    (h : List.Forall₂ (fun a w => HttpArg.value root src a = some w) args values)
    (hfile : args.head?.any HttpArg.isFile = true) :
    ∃ word words, values = word :: words ∧ InRoot root word := by
  cases h with
  | nil => cases hfile
  | cons hvalue _ => exact ⟨_, _, rfl, HttpArg.value_inRoot hfile hvalue⟩

theorem tailFile {root src : CStr} {args : List HttpArg} {values : List CStr}
    (h : List.Forall₂ (fun a w => HttpArg.value root src a = some w) args values)
    (hfile : args.tail.head?.any HttpArg.isFile = true) :
    ∃ word word' words, values = word :: word' :: words ∧ InRoot root word' := by
  cases h with
  | nil => cases hfile
  | cons _ hrest =>
    obtain ⟨word', words, rfl, hroot⟩ := headFile hrest hfile
    exact ⟨_, word', words, rfl, hroot⟩

theorem restFile {root src : CStr} {arg : Option HttpArg} {value : Option CStr}
    (h : Option.Rel (fun a w => HttpArg.value root src a = some w) arg value)
    (hfile : arg.any HttpArg.isFile = true) : ∃ rest, value = some rest ∧ InRoot root rest := by
  cases h with
  | none => cases hfile
  | some hvalue => exact ⟨_, rfl, HttpArg.value_inRoot hfile hvalue⟩

/-- The file a command opens is in the root. -/
theorem HttpFormat.Gives.file {root src : CStr} {f : HttpFormat} {c : HttpCommand}
    (h : f.Gives root src c) (hsound : f.Sound) : ∀ file ∈ c.call.file, InRoot root file := by
  intro file hfile
  have hfiled := hsound.filed
  unfold HttpFormat.filed at hfiled
  unfold CtlCall.file at hfile
  have hverb : c.call.verb = f.verb := h.verb
  rw [hverb] at hfile
  split_ifs at hfiled with hfirst hdisk htrace
  · -- the first word is a file of the sandbox
    rw [if_pos hfirst] at hfile
    obtain ⟨word, words, hvalues, hroot⟩ := headFile h.words hfiled
    have hhead := ((ctlCommands.lookup c.verb).getD (.words 0)).meant_head hvalues
    have hmem : c.call.args.head?.join = some word := congrArg Option.join hhead
    obtain rfl := Option.some.inj (hmem.symm.trans hfile)
    exact hroot
  · -- the second word is
    have hlookup : ctlCommands.lookup c.verb = some (.words 2) := by
      rw [h.verb, hdisk]
      decide +kernel
    rw [if_neg hfirst, if_pos hdisk, HttpCommand.call_eq hlookup] at hfile
    obtain ⟨letter, word, words, hvalues, hroot⟩ := tailFile h.words hfiled
    have hmem : ((CtlArgs.words 2).meant c).tail.head?.join = some word := by
      show ((c.words.map some ++ _).tail.head?).join = some word
      rw [hvalues]
      rfl
    obtain rfl := Option.some.inj (hmem.symm.trans hfile)
    exact hroot
  · -- the rest of the line of `trace save` is
    have hlookup : ctlCommands.lookup c.verb = some (.raw 1) := by
      rw [h.verb, htrace]
      decide +kernel
    rw [if_neg hfirst, if_neg hdisk, HttpCommand.call_eq hlookup] at hfile
    split at hfiled
    · rename_i sub hargs
      have hwords := h.words
      rw [hargs] at hwords
      obtain ⟨word, words, hvalue, hnil, hvalues⟩ := List.forall₂_cons_left_iff.mp hwords
      cases hnil
      obtain rfl := Option.some.inj hvalue
      have hmeant : (CtlArgs.raw 1).meant c = [some sub, some (c.tail.getD [])] := by
        show c.words.map some ++ [some (c.tail.getD [])] = _
        rw [hvalues]
        rfl
      rw [hmeant] at hfile
      split_ifs at hfile with hsave
      · obtain ⟨-, hsub⟩ := hsave
        obtain rfl := Option.some.inj hsub
        obtain ⟨rest, hrest, hroot⟩ := restFile h.tail (by simpa using hfiled)
        rw [hrest] at hfile
        obtain rfl := Option.some.inj hfile
        exact hroot
      · cases hfile
    · cases hfiled
  · rw [if_neg hfirst, if_neg hdisk, if_neg fun hsave => htrace hsave.1] at hfile
    cases hfile

/-- Of any request that makes a command: its line is cut into what the format means, and its file is
in the root, exactly if its values fit. -/
theorem httpRequest_exact_iff (root : CStr) (req body : List Byte) :
    ∀ c ∈ httpRequest root req body, c.Exact root ↔ c.Fits := by
  intro c hc
  obtain ⟨f, src, hsound, hgives⟩ := httpRequest_gives hc
  obtain ⟨kind, hkind, hshaped⟩ : ∃ kind, ctlCommands.lookup f.verb = some kind ∧
      kind.shaped f = true := by
    have hany := hsound.shaped
    cases hlookup : ctlCommands.lookup f.verb with
    | none =>
      rw [hlookup] at hany
      cases hany
    | some kind =>
      rw [hlookup] at hany
      exact ⟨kind, rfl, hany⟩
  rw [← hgives.verb] at hkind
  have htakes := hgives.takes hshaped
  have hdispatch := controlDispatch_text hkind
  have hiff : controlDispatch c.line = some c.call ↔ c.Fits := by
    rw [hgives.line_eq hsound, hdispatch, HttpCommand.call_eq hkind, ← CtlArgs.take_iff htakes]
    constructor
    · intro heq
      exact congrArg CtlCall.args (Option.some.inj heq)
    · intro heq
      rw [heq]
  constructor
  · exact fun hexact => hiff.mp hexact.call
  · intro hfits
    have hline := hiff.mpr hfits
    refine ⟨hline, fun call hmade => ?_⟩
    obtain rfl := Option.some.inj (hline.symm.trans hmade)
    exact hgives.file hsound

/-- The file `a.tap` of the root. -/
theorem httpRequest_exact_iff_tape :
    (HttpCommand.mk (cstr "load-tap") [cstr "root/a.tap"] none).Exact (cstr "root") ↔
      (HttpCommand.mk (cstr "load-tap") [cstr "root/a.tap"] none).Fits :=
  httpRequest_exact_iff (cstr "root") (cstr "POST /tape HTTP/1.1") (cstr "path=a.tap") _
    (show httpRequest _ _ _ = some _ by decide +kernel)

/-- The file `a b` of the root: the decoder makes a space of `+`, and the dispatch cuts there. -/
theorem httpRequest_splits :
    ¬∀ root req body, ∀ c ∈ httpRequest root req body, HttpCommand.Exact root c := by
  intro hall
  have hrequest : httpRequest (cstr "root") (cstr "POST /tape HTTP/1.1") (cstr "path=a+b") =
      some { verb := cstr "load-tap", words := [cstr "root/a b"], tail := none } := by
    decide +kernel
  have hexact := hall _ _ _ _ hrequest
  exact absurd hexact.call (by decide +kernel)

end Phosphoric
