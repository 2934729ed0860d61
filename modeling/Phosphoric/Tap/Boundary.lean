import Phosphoric.Tap.Basic

/-!
# Keywords that end in another character

A keyword such as `TAB(` or `CHR$` ends a word by itself, but `basic_match_keyword` has one rule for
all keywords of letters: the character that follows must not go on the word.

**Theorem (`basicTokenizeLine_open`).** Where such a keyword starts outside strings and remarks its
token is written if and only if the keyword is one character or what follows is neither a letter,
nor a digit, nor `$`.

No keyword is the start of another one that ends so, and none starts within a match: every place of
a line where such a keyword starts is one the loop comes to (`basicKeywordAt_within`).
-/

namespace Phosphoric

/-! ## Where a byte is written -/

/-- The loop of `basic_tokenize_line`: each byte it writes, with what is left of the line there. -/
def basicTokenizeMarks : Nat → Bool → Bool → CStr → List (CStr × Byte)
  | 0, _, _, _ => []
  | _ + 1, _, _, [] => []
  | room + 1, inString, afterRem, c :: src =>
    if inString then (c :: src, c) :: basicTokenizeMarks room (c != basicQuote) afterRem src
    else if afterRem then (c :: src, c) :: basicTokenizeMarks room inString afterRem src
    else if c == basicQuote then (c :: src, c) :: basicTokenizeMarks room true afterRem src
    else
      match basicMatchKeyword (c :: src) with
      | some (token, klen) =>
        (c :: src, token) ::
          basicTokenizeMarks room inString (afterRem || token == basicRem) ((c :: src).drop klen)
      | none => (c :: src, basicUpper c) :: basicTokenizeMarks room inString afterRem src

/-- A byte is written for a part of the line still to come. -/
theorem basicTokenizeMarks_length {room : Nat} {inString afterRem : Bool} {src rest : CStr}
    {b : Byte} (h : (rest, b) ∈ basicTokenizeMarks room inString afterRem src) :
    rest.length ≤ src.length := by
  induction room generalizing inString afterRem src with
  | zero => cases h
  | succ room ih =>
    cases src with
    | nil => cases h
    | cons c src =>
      have hnext (klen : Nat) {inString afterRem : Bool}
          (h : (rest, b) ∈ basicTokenizeMarks room inString afterRem ((c :: src).drop klen)) :
          rest.length ≤ (c :: src).length :=
        (ih h).trans (List.drop_sublist _ _).length_le
      rw [basicTokenizeMarks] at h
      split_ifs at h
      · obtain heq | h := List.mem_cons.mp h
        · cases heq; rfl
        · exact hnext 1 h
      · obtain heq | h := List.mem_cons.mp h
        · cases heq; rfl
        · exact hnext 1 h
      · obtain heq | h := List.mem_cons.mp h
        · cases heq; rfl
        · exact hnext 1 h
      · cases hmatch : basicMatchKeyword (c :: src) with
        | none =>
          rw [hmatch] at h
          obtain heq | h := List.mem_cons.mp h
          · cases heq; rfl
          · exact hnext 1 h
        | some found =>
          rw [hmatch] at h
          obtain heq | h := List.mem_cons.mp h
          · cases heq; rfl
          · exact hnext _ h

/-- The place after `before` lies outside strings and remarks. -/
def BasicOutside : Bool → CStr → CStr → Prop
  | inString, [], _ => inString = false
  | true, c :: before, rest => BasicOutside (c != basicQuote) before rest
  | false, c :: before, rest =>
    basicKeywordAt (c :: before ++ rest) basicRemark = false ∧
      BasicOutside (c == basicQuote) before rest

instance : ∀ inString before rest, Decidable (BasicOutside inString before rest)
  | inString, [], _ => by
    unfold BasicOutside
    exact inferInstance
  | true, c :: before, rest =>
    have := instDecidableBasicOutside (c != basicQuote) before rest
    inferInstanceAs (Decidable (BasicOutside (c != basicQuote) before rest))
  | false, c :: before, rest =>
    have := instDecidableBasicOutside (c == basicQuote) before rest
    inferInstanceAs (Decidable (_ ∧ BasicOutside (c == basicQuote) before rest))

/-- Text without quotes leaves the string state alone. -/
theorem BasicOutside.drop {before rest : CStr} (h : BasicOutside false before rest) {n : Nat}
    (hquote : basicQuote ∉ before.take n) : BasicOutside false (before.drop n) rest := by
  induction n generalizing before with
  | zero => exact h
  | succ n ih =>
    cases before with
    | nil => exact h
    | cons c before =>
      rw [List.take_succ_cons, List.mem_cons, not_or] at hquote
      have hnext := h.2
      rw [beq_eq_false_iff_ne.mpr (Ne.symm hquote.1)] at hnext
      exact ih hnext hquote.2

/-! ## The keyword -/

section Keyword

variable {before rest keyword : CStr} {index : Nat}

/-- Where the keyword starts it is matched, or nothing is. -/
theorem basicMatchKeyword_open (hindex : basicKeywords[index]? = some keyword)
    (hopen : basicOpen keyword = true)
    (hstart : (rest.take keyword.length).map basicUpper = keyword) :
    basicMatchKeyword rest =
      if basicAlpha keyword = true ∧ basicWordByte (rest.getD keyword.length 0#8) = true then none
      else some (BitVec.ofNat 8 (basicTokenBase + index), keyword.length) := by
  have hkeyword := List.mem_of_getElem? hindex
  cases hmatch : basicMatchKeyword rest with
  | none =>
    have hnot := basicMatchKeyword_none hmatch keyword hkeyword
    rw [← Bool.not_eq_true, basicKeywordAt_iff, not_and, not_not] at hnot
    rw [if_pos (hnot hstart)]
  | some found =>
    obtain ⟨token, klen⟩ := found
    obtain ⟨index', other, hindex', rfl, rfl, hat⟩ := basicMatchKeyword_some hmatch
    have hother := List.mem_of_getElem? hindex'
    obtain rfl : other = keyword := by
      by_contra hne
      exact basicKeywordAt_within hkeyword (.inl hopen) hother hat
        (basicKeywords_pos other hother) (.inl hne) hstart
    have hplace {i : Nat} (hi : basicKeywords[i]? = some other) : basicKeywords.idxOf other = i :=
      (basicKeywords_table.2.2 i (List.getElem?_eq_some_iff.mp hi).1 other hi).2 hopen
    obtain rfl : index' = index := (hplace hindex').symm.trans (hplace hindex)
    rw [if_neg (basicKeywordAt_iff.mp hat).2]

/-- At the keyword itself. -/
theorem basicTokenizeMarks_here (hindex : basicKeywords[index]? = some keyword)
    (hopen : basicOpen keyword = true)
    (hstart : (rest.take keyword.length).map basicUpper = keyword) (room : Nat) :
    (rest, BitVec.ofNat 8 (basicTokenBase + index)) ∈
        basicTokenizeMarks (room + 1) false false rest ↔
      ¬(basicAlpha keyword = true ∧ basicWordByte (rest.getD keyword.length 0#8) = true) := by
  have hkeyword := List.mem_of_getElem? hindex
  have hpos := basicKeywords_pos keyword hkeyword
  cases rest with
  | nil =>
    have hlen := congrArg List.length hstart
    rw [List.take_nil, List.map_nil, List.length_nil] at hlen
    omega
  | cons c src =>
    obtain ⟨k, hk⟩ : ∃ k, keyword.length = k + 1 := ⟨keyword.length - 1, by omega⟩
    have hhead : basicUpper c = keyword.headD 0#8 := by
      rw [← hstart, hk]
      rfl
    have hquote : ¬(c == basicQuote) = true := by
      intro h
      rw [beq_iff_eq.mp h] at hstart
      refine basicKeywords_quote keyword hkeyword ?_
      rw [← hstart, hk]
      exact .head _
    rw [basicTokenizeMarks, if_neg Bool.false_ne_true, if_neg Bool.false_ne_true, if_neg hquote,
      basicMatchKeyword_open hindex hopen hstart]
    by_cases hnext : basicAlpha keyword = true ∧
        basicWordByte ((c :: src).getD keyword.length 0#8) = true
    · rw [if_pos hnext]
      refine iff_of_false ?_ (not_not_intro hnext)
      intro h
      obtain heq | h := List.mem_cons.mp h
      · -- a capital is no token
        have hlow := (basicKeywords_table.1 keyword hkeyword).2.2
        have htoken := (Prod.ext_iff.mp heq).2
        dsimp only at htoken
        rw [← hhead, ← htoken, BitVec.lt_def, basicToken_toNat hindex] at hlow
        exact absurd hlow (Nat.not_lt.mpr (Nat.le_add_right _ _))
      · exact absurd (basicTokenizeMarks_length h) (Nat.not_succ_le_self _)
    · rw [if_neg hnext]
      exact iff_of_true (.head _) hnext

/-- A match before the keyword ends before it. -/
theorem basicMatch_length {other : CStr} (hkeyword : keyword ∈ basicKeywords)
    (hopen : basicOpen keyword = true)
    (hstart : (rest.take keyword.length).map basicUpper = keyword) (hother : other ∈ basicKeywords)
    (hat : basicKeywordAt (before ++ rest) other = true) (hbefore : before ≠ []) :
    other.length ≤ before.length := by
  by_contra hlt
  refine basicKeywordAt_within hkeyword (.inl hopen) hother hat (Nat.lt_of_not_le hlt)
    (.inr (List.length_pos_of_ne_nil hbefore)) ?_
  rw [List.drop_left]
  exact hstart

/-- The loop comes to the keyword. -/
theorem basicTokenizeMarks_open (hindex : basicKeywords[index]? = some keyword)
    (hopen : basicOpen keyword = true)
    (hstart : (rest.take keyword.length).map basicUpper = keyword) (room : Nat) {inString : Bool}
    (hout : BasicOutside inString before rest)
    (hwhole : (basicTokenizeLoop room inString false (before ++ rest)).2 = []) :
    (rest, BitVec.ofNat 8 (basicTokenBase + index)) ∈
        basicTokenizeMarks room inString false (before ++ rest) ↔
      ¬(basicAlpha keyword = true ∧ basicWordByte (rest.getD keyword.length 0#8) = true) := by
  have hkeyword := List.mem_of_getElem? hindex
  have hrest : rest ≠ [] := by
    rintro rfl
    have hpos := basicKeywords_pos keyword hkeyword
    have hlen := congrArg List.length hstart
    rw [List.take_nil, List.map_nil, List.length_nil] at hlen
    omega
  induction room generalizing inString before with
  | zero =>
    rw [basicTokenizeLoop, List.append_eq_nil_iff] at hwhole
    exact absurd hwhole.2 hrest
  | succ room ih =>
    cases before with
    | nil =>
      obtain rfl : inString = false := hout
      exact basicTokenizeMarks_here hindex hopen hstart room
    | cons c before =>
      -- what is written at `c` is written for a longer part of the line
      have hlater (b : Byte) (marks : List (CStr × Byte)) :
          (rest, BitVec.ofNat 8 (basicTokenBase + index)) ∈ (c :: before ++ rest, b) :: marks ↔
            (rest, BitVec.ofNat 8 (basicTokenBase + index)) ∈ marks := by
        rw [List.mem_cons, or_iff_right]
        intro heq
        have hlen := congrArg (fun mark => mark.1.length) heq
        simp at hlen
        omega
      rw [List.cons_append] at hwhole hlater ⊢
      cases inString with
      | true =>
        rw [basicTokenizeLoop_string] at hwhole
        rw [basicTokenizeMarks, if_pos rfl, hlater]
        exact ih hout hwhole
      | false =>
        obtain ⟨hremark, hnext⟩ := hout
        by_cases hquote : c = basicQuote
        · subst hquote
          rw [basicTokenizeLoop_quote] at hwhole
          rw [basicTokenizeMarks, if_neg Bool.false_ne_true, if_neg Bool.false_ne_true,
            if_pos (beq_self_eq_true basicQuote), hlater]
          exact ih hnext hwhole
        · have hneq : ¬(c == basicQuote) = true := fun h => hquote (beq_iff_eq.mp h)
          rw [basicTokenizeLoop_plain room _ hquote] at hwhole
          rw [basicTokenizeMarks, if_neg Bool.false_ne_true, if_neg Bool.false_ne_true,
            if_neg hneq]
          cases hmatch : basicMatchKeyword (c :: (before ++ rest)) with
          | none =>
            rw [hmatch] at hwhole
            rw [beq_eq_false_iff_ne.mpr hquote] at hnext
            dsimp only
            rw [hlater]
            exact ih hnext hwhole
          | some found =>
            obtain ⟨token, klen⟩ := found
            obtain ⟨index', other, hindex', rfl, rfl, hat⟩ := basicMatchKeyword_some hmatch
            have hother := List.mem_of_getElem? hindex'
            have hne : other ≠ basicRemark := by
              rintro rfl
              rw [List.cons_append, hat] at hremark
              cases hremark
            have htoken : (BitVec.ofNat 8 (basicTokenBase + index') == basicRem) = false :=
              beq_eq_false_iff_ne.mpr fun h => hne ((basicKeywords_rem hindex').mp h)
            have hlen : other.length ≤ (c :: before).length :=
              basicMatch_length hkeyword hopen hstart hother hat (List.cons_ne_nil _ _)
            have hdrop : (c :: (before ++ rest)).drop other.length =
                (c :: before).drop other.length ++ rest := by
              rw [← List.cons_append, List.drop_append_of_le_length hlen]
            have hletters : basicQuote ∉ (c :: before).take other.length := by
              intro hmem
              refine basicKeywords_quote other hother ?_
              rw [← (basicKeywordAt_iff.mp hat).1, ← List.cons_append,
                List.take_append_of_le_length hlen]
              exact List.mem_map.mpr ⟨basicQuote, hmem, by decide⟩
            have hafter : BasicOutside false ((c :: before).drop other.length) rest :=
              (show BasicOutside false (c :: before) rest from ⟨hremark, hnext⟩).drop hletters
            rw [hmatch] at hwhole
            dsimp only at hwhole ⊢
            rw [htoken, hdrop] at hwhole
            rw [hlater, Bool.false_or, htoken, hdrop]
            exact ih hafter hwhole

/-- A keyword that ends in another character than a letter or a digit, anywhere in a line that is
tokenised to its end. -/
theorem basicTokenizeLine_open (maxlen : Nat) (hindex : basicKeywords[index]? = some keyword)
    (hopen : basicOpen keyword = true)
    (hstart : (rest.take keyword.length).map basicUpper = keyword)
    (hout : BasicOutside false before rest)
    (hwhole : (basicTokenizeLine (before ++ rest) maxlen).2 = []) :
    (rest, BitVec.ofNat 8 (basicTokenBase + index)) ∈
        basicTokenizeMarks (maxlen - 1) false false (before ++ rest) ↔
      ¬(basicAlpha keyword = true ∧ basicWordByte (rest.getD keyword.length 0#8) = true) :=
  basicTokenizeMarks_open hindex hopen hstart (maxlen - 1) hout hwhole

end Keyword

/-- `TAB(` before an expression that starts with a parenthesis. -/
theorem basicTokenizeLine_open_tab :
    (cstr "TAB((A))", 0xC2#8) ∈
      basicTokenizeMarks 1023 false false (cstr "PRINT " ++ cstr "TAB((A))") := by
  have hline : basicKeywords[66]? = some (cstr "TAB(") ∧ basicOpen (cstr "TAB(") = true ∧
      ((cstr "TAB((A))").take (cstr "TAB(").length).map basicUpper = cstr "TAB(" ∧
      BasicOutside false (cstr "PRINT ") (cstr "TAB((A))") ∧
      (basicTokenizeLine (cstr "PRINT " ++ cstr "TAB((A))") 1024).2 = [] ∧
      ¬(basicAlpha (cstr "TAB(") = true ∧
        basicWordByte ((cstr "TAB((A))").getD (cstr "TAB(").length 0#8) = true) := by
    decide +kernel
  obtain ⟨hindex, hopen, hstart, hout, hwhole, hnext⟩ := hline
  exact (basicTokenizeLine_open 1024 hindex hopen hstart hout hwhole).mpr hnext

/-- `TAB(` before a number is copied. -/
theorem basicTokenizeLine_tab_digit :
    basicKeywords[66]? = some (cstr "TAB(") ∧ basicOpen (cstr "TAB(") = true ∧
      ((cstr "TAB(5)").take (cstr "TAB(").length).map basicUpper = cstr "TAB(" ∧
      BasicOutside false [] (cstr "TAB(5)") ∧
      basicTokenizeLine (cstr "TAB(5)") 1024 = (cstr "TAB(5)", []) ∧
      (cstr "TAB(5)", 0xC2#8) ∉ basicTokenizeMarks 1023 false false (cstr "TAB(5)") := by
  decide +kernel

end Phosphoric
