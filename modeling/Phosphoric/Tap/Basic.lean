import Phosphoric.Tap.Tape
import Phosphoric.Cards.Registry

/-!
# Tokenised BASIC

`basicTokenizeLine` replaces the keywords of a line of BASIC source by their tokens: the longest
keyword at each place that is not the start of a longer word, outside strings and remarks. What is
no keyword is copied, in upper case: names too, and the text of a DATA line.

**Theorem (`basicTokenizeLine_expand`).** For a line of printable characters that is tokenised to its
end, expanding the tokens gives back the line, in upper case outside its strings and its remark; and
a byte from `$80` on is the token of a keyword.
-/

namespace Phosphoric

/-! ## Keywords -/

/-- `basic_keywords`. -/
def basicKeywords : List CStr :=
  ["END", "EDIT", "INVERSE", "NORMAL", "TRON", "TROFF", "POP", "PLOT", "PULL", "LORES", "DOKE",
    "REPEAT", "UNTIL", "FOR", "LLIST", "LPRINT", "NEXT", "DATA", "INPUT", "DIM", "CLS", "READ",
    "LET", "GOTO", "RUN", "IF", "RESTORE", "GOSUB", "RETURN", "REM", "HIMEM", "GRAB", "RELEASE",
    "TEXT", "HIRES", "SHOOT", "EXPLODE", "ZAP", "PING", "SOUND", "MUSIC", "PLAY", "CURSET",
    "CURMOV", "DRAW", "CIRCLE", "PATTERN", "FILL", "CHAR", "PAPER", "INK", "STOP", "ON", "WAIT",
    "CLOAD", "CSAVE", "DEF", "POKE", "PRINT", "CONT", "LIST", "CLEAR", "GET", "CALL", "!", "NEW",
    "TAB(", "TO", "FN", "SPC(", "@", "AUTO", "ELSE", "THEN", "NOT", "STEP", "+", "-", "*", "/",
    "^", "AND", "OR", ">", "=", "<", "SGN", "INT", "ABS", "USR", "FRE", "POS", "HEX$", "&", "SQR",
    "RND", "LN", "EXP", "COS", "SIN", "TAN", "ATN", "PEEK", "DEEK", "LOG", "LEN", "STR$", "VAL",
    "ASC", "CHR$", "PI", "TRUE", "FALSE", "KEY$", "SCRN", "POINT", "LEFT$", "RIGHT$", "MID$",
    "GO"].map cstr

/-- `BASIC_TOKEN_BASE`. -/
def basicTokenBase : Nat := 0x80

/-- The token of REM. -/
def basicRem : Byte := 0x9D#8

/-- `'"'`. -/
def basicQuote : Byte := 0x22#8

/-- A lower-case letter in upper case. -/
def basicUpper (c : Byte) : Byte := if 0x61#8 ≤ c ∧ c ≤ 0x7A#8 then c - 32#8 else c

/-- The characters that go on a word: letters, digits and `$`. -/
def basicWordByte (c : Byte) : Bool :=
  0x41#8 ≤ c && c ≤ 0x5A#8 || 0x61#8 ≤ c && c ≤ 0x7A#8 || 0x30#8 ≤ c && c ≤ 0x39#8 || c == 0x24#8

/-- Only a keyword of letters must not be the start of a longer word. -/
def basicAlpha (keyword : CStr) : Bool := 1 < keyword.length && 0x41#8 ≤ keyword.headD 0#8

/-- The string `src` starts with the keyword. -/
def basicKeywordAt (src keyword : CStr) : Bool :=
  (src.take keyword.length).map basicUpper == keyword &&
    !(basicAlpha keyword && basicWordByte (src.getD keyword.length 0#8))

/-- One keyword, after the best one so far. -/
def basicBest (src : CStr) (best : Option (Nat × Nat)) (keyword : CStr × Nat) :
    Option (Nat × Nat) :=
  if keyword.1.length ≤ (best.map Prod.snd).getD 0 then best
  else if basicKeywordAt src keyword.1 then some (keyword.2, keyword.1.length) else best

/-- `basic_match_keyword`: the token and the length of the keyword. -/
def basicMatchKeyword (src : CStr) : Option (Byte × Nat) :=
  (basicKeywords.zipIdx.foldl (basicBest src) none).map fun best =>
    (BitVec.ofNat 8 (basicTokenBase + best.1), best.2)

-- evaluating it on a variable goes through the whole table
attribute [irreducible] basicMatchKeyword

/-! ## Tokens -/

/-- The loop of `basic_tokenize_line`, with the room left in `out`: what it writes, and what it
leaves of the line. -/
def basicTokenizeLoop : Nat → Bool → Bool → CStr → List Byte × CStr
  | 0, _, _, src => ([], src)
  | _ + 1, _, _, [] => ([], [])
  | room + 1, inString, afterRem, c :: src =>
    if inString then
      let (out, left) := basicTokenizeLoop room (c != basicQuote) afterRem src
      (c :: out, left)
    else if afterRem then
      let (out, left) := basicTokenizeLoop room inString afterRem src
      (c :: out, left)
    else if c == basicQuote then
      let (out, left) := basicTokenizeLoop room true afterRem src
      (c :: out, left)
    else
      match basicMatchKeyword (c :: src) with
      | some (token, klen) =>
        let (out, left) :=
          basicTokenizeLoop room inString (afterRem || token == basicRem) ((c :: src).drop klen)
        (token :: out, left)
      | none =>
        let (out, left) := basicTokenizeLoop room inString afterRem src
        (basicUpper c :: out, left)

/-- `basic_tokenize_line`, with what it leaves of the line. -/
def basicTokenizeLine (src : CStr) (maxlen : Nat) : List Byte × CStr :=
  basicTokenizeLoop (maxlen - 1) false false src

/-! ## What a match is -/

/-- `REM`. -/
def basicRemark : CStr := cstr "REM"

/-- The last character of the keyword is neither a letter nor a digit. -/
def basicOpen (keyword : CStr) : Bool :=
  !(basicWordByte (keyword.getLastD 0#8) && keyword.getLastD 0#8 != 0x24#8)

/-- What the table is like: no keyword has a quote in it, and neither REM nor a keyword that ends in
another character than a letter or a digit starts inside a keyword, except at its last letters and
with a character after them that goes on the word. -/
theorem basicKeywords_table :
    (∀ keyword ∈ basicKeywords, 0 < keyword.length ∧ basicQuote ∉ keyword ∧
      keyword.headD 0#8 < 0x80#8) ∧
    (∀ keyword ∈ basicKeywords, basicOpen keyword = true ∨ keyword = basicRemark →
      ∀ other ∈ basicKeywords, keyword.headD 0#8 ∈ other →
        ∀ j < other.length, other ≠ keyword ∨ 0 < j →
          (other.drop j).take keyword.length = keyword.take (other.length - j) →
            other.length < j + keyword.length ∧ basicAlpha other = true ∧
              basicWordByte (keyword.getD (other.length - j) 0#8) = true) ∧
    (∀ index < basicKeywords.length, ∀ keyword, basicKeywords[index]? = some keyword →
      (BitVec.ofNat 8 (basicTokenBase + index) = basicRem ↔ keyword = basicRemark) ∧
        (basicOpen keyword = true → basicKeywords.idxOf keyword = index)) := by
  -- the kernel reads the characters of the table once for each part
  refine ⟨?_, ?_, ?_⟩ <;> decide +kernel

theorem basicKeywords_pos : ∀ keyword ∈ basicKeywords, 0 < keyword.length :=
  fun keyword h => (basicKeywords_table.1 keyword h).1

theorem basicKeywords_quote : ∀ keyword ∈ basicKeywords, basicQuote ∉ keyword :=
  fun keyword h => (basicKeywords_table.1 keyword h).2.1

theorem basicKeywords_rem {index : Nat} {keyword : CStr}
    (h : basicKeywords[index]? = some keyword) :
    BitVec.ofNat 8 (basicTokenBase + index) = basicRem ↔ keyword = basicRemark :=
  (basicKeywords_table.2.2 index (List.getElem?_eq_some_iff.mp h).1 keyword h).1

theorem foldl_basicBest (src : CStr) (keywords : List (CStr × Nat))
    (hpos : ∀ keyword ∈ keywords, 0 < keyword.1.length) (best : Option (Nat × Nat)) :
    (∀ found, keywords.foldl (basicBest src) best = some found → best = some found ∨
      ∃ keyword, (keyword, found.1) ∈ keywords ∧ found.2 = keyword.length ∧
        basicKeywordAt src keyword = true) ∧
    (keywords.foldl (basicBest src) best = none → best = none ∧
      ∀ keyword ∈ keywords, basicKeywordAt src keyword.1 = false) := by
  induction keywords generalizing best with
  | nil => exact ⟨fun found h => .inl h, fun h => ⟨h, nofun⟩⟩
  | cons keyword keywords ih =>
    obtain ⟨hsome, hnone⟩ :=
      ih (fun k hk => hpos k (.tail _ hk)) (basicBest src best keyword)
    constructor
    · intro found hfound
      rcases hsome found hfound with hbest | ⟨k, hk, hlen, hat⟩
      · unfold basicBest at hbest
        split_ifs at hbest with hshort hat
        · exact .inl hbest
        · cases hbest
          exact .inr ⟨keyword.1, .head _, rfl, hat⟩
        · exact .inl hbest
      · exact .inr ⟨k, .tail _ hk, hlen, hat⟩
    · intro hfold
      obtain ⟨hbest, hrest⟩ := hnone hfold
      unfold basicBest at hbest
      split_ifs at hbest with hshort hat
      · have hkeyword := hpos keyword (.head _)
        subst hbest
        exact absurd hshort (Nat.not_le.mpr hkeyword)
      · refine ⟨hbest, fun k hk => ?_⟩
        cases hk with
        | head => exact Bool.eq_false_of_not_eq_true hat
        | tail _ hk => exact hrest k hk

/-- A match is a keyword of the table. -/
theorem basicMatchKeyword_some {src : CStr} {token : Byte} {klen : Nat}
    (h : basicMatchKeyword src = some (token, klen)) :
    ∃ index keyword, basicKeywords[index]? = some keyword ∧
      token = BitVec.ofNat 8 (basicTokenBase + index) ∧ klen = keyword.length ∧
      basicKeywordAt src keyword = true := by
  unfold basicMatchKeyword at h
  obtain ⟨⟨index, len⟩, hfold, heq⟩ := Option.map_eq_some_iff.mp h
  have hpos : ∀ keyword ∈ basicKeywords.zipIdx, 0 < keyword.1.length := fun k hk =>
    basicKeywords_pos k.1 (List.fst_mem_of_mem_zipIdx hk)
  rcases (foldl_basicBest src _ hpos none).1 _ hfold with hbest | ⟨keyword, hmem, hlen, hat⟩
  · cases hbest
  · cases heq
    exact ⟨index, keyword, List.mem_zipIdx_iff_getElem?.mp hmem, rfl, hlen, hat⟩

/-- Where no keyword is found there is none. -/
theorem basicMatchKeyword_none {src : CStr} (h : basicMatchKeyword src = none) :
    ∀ keyword ∈ basicKeywords, basicKeywordAt src keyword = false := by
  intro keyword hkeyword
  unfold basicMatchKeyword at h
  have hpos : ∀ keyword ∈ basicKeywords.zipIdx, 0 < keyword.1.length := fun k hk =>
    basicKeywords_pos k.1 (List.fst_mem_of_mem_zipIdx hk)
  obtain ⟨index, hindex⟩ := List.getElem?_of_mem hkeyword
  exact ((foldl_basicBest src _ hpos none).2 (Option.map_eq_none_iff.mp h)).2 (keyword, index)
    (List.mem_zipIdx_iff_getElem?.mpr hindex)

theorem basicKeywordAt_iff {src keyword : CStr} :
    basicKeywordAt src keyword = true ↔ (src.take keyword.length).map basicUpper = keyword ∧
      ¬(basicAlpha keyword = true ∧ basicWordByte (src.getD keyword.length 0#8) = true) := by
  simp only [basicKeywordAt, Bool.and_eq_true, beq_iff_eq, Bool.not_eq_true', Bool.and_eq_false_iff,
    not_and, Bool.not_eq_true]
  refine and_congr_right fun _ => ?_
  cases basicAlpha keyword <;> simp

/-- A lower-case letter goes on a word as its capital does. -/
theorem basicWordByte_upper (c : Byte) : basicWordByte (basicUpper c) = basicWordByte c := by
  revert c
  decide

/-- Neither REM nor a keyword with such an end starts within a match of another. -/
theorem basicKeywordAt_within {src keyword other : CStr} (hkeyword : keyword ∈ basicKeywords)
    (hopen : basicOpen keyword = true ∨ keyword = basicRemark) (hother : other ∈ basicKeywords)
    (hat : basicKeywordAt src other = true) {j : Nat} (hj : j < other.length)
    (hne : other ≠ keyword ∨ 0 < j) :
    ((src.drop j).take keyword.length).map basicUpper ≠ keyword := by
  intro hletters
  obtain ⟨htake, hend⟩ := basicKeywordAt_iff.mp hat
  have hcover : (other.drop j).take keyword.length = keyword.take (other.length - j) := by
    have hwhole : other = (src.map basicUpper).take other.length := by
      rw [← List.map_take]
      exact htake.symm
    conv_rhs => rw [← hletters]
    rw [List.map_take, List.map_drop, List.take_take]
    conv_lhs => rw [hwhole]
    rw [List.drop_take, List.take_take, Nat.min_comm]
  have hhead : keyword.headD 0#8 ∈ other := by
    have hlen := basicKeywords_pos keyword hkeyword
    have hfirst := congrArg List.head? hcover
    rw [List.head?_take, List.head?_take, if_neg hlen.ne', if_neg (Nat.sub_ne_zero_of_lt hj),
      List.head?_drop, List.getElem?_eq_getElem hj] at hfirst
    rw [List.headD_eq_head?_getD, ← hfirst]
    exact List.getElem_mem hj
  obtain ⟨hlast, halpha, hword⟩ :=
    basicKeywords_table.2.1 keyword hkeyword hopen other hother hhead j hj hne hcover
  -- the character after the match is one of the keyword's own
  obtain ⟨i, hi⟩ : ∃ i, other.length = j + i := ⟨other.length - j, by omega⟩
  rw [hi, Nat.add_sub_cancel_left] at hword
  have hget := congrArg (fun letters => letters[i]?) hletters
  simp only [List.getElem?_map, List.getElem?_take, List.getElem?_drop, ← hi] at hget
  rw [if_pos (by omega)] at hget
  obtain ⟨c, hc, hup⟩ := Option.map_eq_some_iff.mp
    (hget.trans (List.getElem?_eq_getElem (show i < keyword.length by omega)))
  rw [List.getD_eq_getElem?_getD, List.getElem?_eq_getElem (show i < keyword.length by omega),
    Option.getD_some, ← hup, basicWordByte_upper] at hword
  refine hend ⟨halpha, ?_⟩
  rw [List.getD_eq_getElem?_getD, hc]
  exact hword

theorem basicRemark_mem : basicRemark ∈ basicKeywords := by decide

/-- A remark starts nowhere within a match. -/
theorem basicKeywordAt_remark {src keyword : CStr} (hmem : keyword ∈ basicKeywords)
    (hat : basicKeywordAt src keyword = true) (hne : keyword ≠ basicRemark) {j : Nat}
    (hj : j < keyword.length) : basicKeywordAt (src.drop j) basicRemark = false := by
  rw [Bool.eq_false_iff]
  intro hremark
  exact basicKeywordAt_within basicRemark_mem (.inr rfl) hmem hat hj (.inl hne)
    (basicKeywordAt_iff.mp hremark).1

/-! ## Expanding the tokens -/

/-- The text of tokens, in a string or not. -/
def basicExpand : Bool → List Byte → Option CStr
  | _, [] => some []
  | true, b :: out => (basicExpand (b != basicQuote) out).map (b :: ·)
  | false, b :: out =>
    if b = basicRem then some (basicRemark ++ out)
    else if 0x80#8 ≤ b then do
      let keyword ← basicKeywords[b.toNat - basicTokenBase]?
      let text ← basicExpand false out
      some (keyword ++ text)
    else (basicExpand (b == basicQuote) out).map (b :: ·)

/-- The text of a line in upper case outside its strings and after its remark. -/
def basicText : Bool → CStr → CStr
  | _, [] => []
  | true, c :: src => c :: basicText (c != basicQuote) src
  | false, c :: src =>
    if basicKeywordAt (c :: src) basicRemark then basicRemark ++ src.drop 2
    else basicUpper c :: basicText (c == basicQuote) src

/-- Text with neither a string nor a remark. -/
theorem basicText_take {src : CStr} {n : Nat} (hquote : basicQuote ∉ (src.take n).map basicUpper)
    (hremark : ∀ j < n, basicKeywordAt (src.drop j) basicRemark = false) :
    basicText false src = (src.take n).map basicUpper ++ basicText false (src.drop n) := by
  induction n generalizing src with
  | zero => rfl
  | succ n ih =>
    cases src with
    | nil => rfl
    | cons c src =>
      rw [List.take_succ_cons, List.map_cons, List.mem_cons, not_or] at hquote
      have hupper : basicUpper basicQuote = basicQuote := by decide
      have hc : (c == basicQuote) = false := by
        rw [beq_eq_false_iff_ne]
        rintro rfl
        exact hquote.1 hupper.symm
      have hfirst := hremark 0 (Nat.succ_pos n)
      rw [List.drop_zero] at hfirst
      rw [List.take_succ_cons, List.drop_succ_cons, List.map_cons, List.cons_append,
        ← ih hquote.2 fun j hj => hremark (j + 1) (Nat.succ_lt_succ hj), basicText, hfirst, hc]
      rfl

/-- The text of a keyword. -/
theorem basicText_keyword {src keyword : CStr} (hmem : keyword ∈ basicKeywords)
    (hat : basicKeywordAt src keyword = true) (hne : keyword ≠ basicRemark) :
    basicText false src = keyword ++ basicText false (src.drop keyword.length) := by
  have htake := (basicKeywordAt_iff.mp hat).1
  have hquote : basicQuote ∉ (src.take keyword.length).map basicUpper := by
    rw [htake]
    exact basicKeywords_quote keyword hmem
  rw [basicText_take hquote fun j hj => basicKeywordAt_remark hmem hat hne hj, htake]

/-- A character that can be printed. -/
def Printable (c : Byte) : Prop := 0x20#8 ≤ c ∧ c ≤ 0x7E#8

theorem basicUpper_printable : ∀ c : Byte, Printable c →
    basicUpper c < 0x80#8 ∧ (basicUpper c = basicQuote ↔ c = basicQuote) := by
  unfold Printable
  decide

/-- The token of keyword `index`. -/
theorem basicToken_toNat {index : Nat} {keyword : CStr} (h : basicKeywords[index]? = some keyword) :
    (BitVec.ofNat 8 (basicTokenBase + index)).toNat = basicTokenBase + index := by
  have hlt : index < 120 := (List.getElem?_eq_some_iff.mp h).1
  rw [BitVec.toNat_ofNat, basicTokenBase]
  omega

/-- A byte of tokenised text is that of a character or the token of a keyword. -/
def BasicByte (b : Byte) : Prop :=
  0x80#8 ≤ b → ∃ index keyword, basicKeywords[index]? = some keyword ∧
    b = BitVec.ofNat 8 (basicTokenBase + index)

theorem Printable.basicByte {c : Byte} (h : Printable c) : BasicByte c := by
  intro hle
  have hlt : c.toNat ≤ 0x7E := h.2
  have hge : 0x80 ≤ c.toNat := hle
  omega

section Loop

variable (room : Nat) (c : Byte) (src : CStr)

theorem basicTokenizeLoop_string : basicTokenizeLoop (room + 1) true false (c :: src) =
    (c :: (basicTokenizeLoop room (c != basicQuote) false src).1,
      (basicTokenizeLoop room (c != basicQuote) false src).2) := rfl

theorem basicTokenizeLoop_quote : basicTokenizeLoop (room + 1) false false (basicQuote :: src) =
    (basicQuote :: (basicTokenizeLoop room true false src).1,
      (basicTokenizeLoop room true false src).2) := rfl

/-- Outside strings and remarks, away from a quote. -/
theorem basicTokenizeLoop_plain {c : Byte} (hquote : c ≠ basicQuote) :
    basicTokenizeLoop (room + 1) false false (c :: src) =
      match basicMatchKeyword (c :: src) with
      | some (token, klen) =>
        (token :: (basicTokenizeLoop room false (token == basicRem) ((c :: src).drop klen)).1,
          (basicTokenizeLoop room false (token == basicRem) ((c :: src).drop klen)).2)
      | none =>
        (basicUpper c :: (basicTokenizeLoop room false false src).1,
          (basicTokenizeLoop room false false src).2) := by
  have hneq : ¬(c == basicQuote) = true := fun h => hquote (beq_iff_eq.mp h)
  rw [basicTokenizeLoop, if_neg Bool.false_ne_true, if_neg Bool.false_ne_true, if_neg hneq]
  cases basicMatchKeyword (c :: src) <;> rfl

end Loop

/-- The rest of a remark is copied. -/
theorem basicTokenizeLoop_remark (room : Nat) (src : CStr) :
    basicTokenizeLoop room false true src = (src.take room, src.drop room) := by
  induction room generalizing src with
  | zero => rfl
  | succ room ih =>
    cases src with
    | nil => rfl
    | cons c src =>
      have hstep : basicTokenizeLoop (room + 1) false true (c :: src) =
          (c :: (basicTokenizeLoop room false true src).1,
            (basicTokenizeLoop room false true src).2) := rfl
      rw [hstep, ih]
      rfl

/-- A token is no zero byte, nor is what the characters of a string are copied as. -/
theorem basicTokenizeLoop_ne_zero (room : Nat) (inString : Bool) (src : CStr)
    (hsrc : 0x00#8 ∉ src) : 0x00#8 ∉ (basicTokenizeLoop room inString false src).1 := by
  have hupper : ∀ c : Byte, 0x00#8 ≠ c → 0x00#8 ≠ basicUpper c := by decide
  induction room generalizing inString src with
  | zero => exact List.not_mem_nil
  | succ room ih =>
    cases src with
    | nil => exact List.not_mem_nil
    | cons c src =>
      rw [List.mem_cons, not_or] at hsrc
      obtain ⟨hc, hrest⟩ := hsrc
      cases inString with
      | true =>
        rw [basicTokenizeLoop_string, List.mem_cons, not_or]
        exact ⟨hc, ih _ src hrest⟩
      | false =>
        by_cases hquote : c = basicQuote
        · subst hquote
          rw [basicTokenizeLoop_quote, List.mem_cons, not_or]
          exact ⟨hc, ih true src hrest⟩
        · rw [basicTokenizeLoop_plain room src hquote]
          cases hmatch : basicMatchKeyword (c :: src) with
          | none => exact List.not_mem_cons_of_ne_of_not_mem (hupper c hc) (ih false src hrest)
          | some found =>
            obtain ⟨token, klen⟩ := found
            obtain ⟨index, keyword, hindex, rfl, rfl, -⟩ := basicMatchKeyword_some hmatch
            have hdrop : 0x00#8 ∉ (c :: src).drop keyword.length := fun h =>
              (List.mem_cons.mp (List.mem_of_mem_drop h)).elim hc hrest
            have htoken : 0x00#8 ≠ BitVec.ofNat 8 (basicTokenBase + index) := by
              intro h
              have hnat := basicToken_toNat hindex
              rw [← h] at hnat
              exact absurd hnat (Nat.ne_of_lt (Nat.lt_add_right index (by decide)))
            refine List.not_mem_cons_of_ne_of_not_mem htoken ?_
            cases BitVec.ofNat 8 (basicTokenBase + index) == basicRem with
            | false => exact ih false _ hdrop
            | true =>
              rw [basicTokenizeLoop_remark]
              exact fun h => hdrop (List.mem_of_mem_take h)

/-- What the loop writes of a line it comes to the end of. -/
theorem basicTokenizeLoop_expand (room : Nat) (inString : Bool) (src : CStr)
    (hprint : ∀ c ∈ src, Printable c)
    (hwhole : (basicTokenizeLoop room inString false src).2 = []) :
    basicExpand inString (basicTokenizeLoop room inString false src).1 =
        some (basicText inString src) ∧
      ∀ b ∈ (basicTokenizeLoop room inString false src).1, BasicByte b := by
  induction room generalizing inString src with
  | zero =>
    have hsrc : src = [] := hwhole
    subst hsrc
    cases inString <;> exact ⟨rfl, nofun⟩
  | succ room ih =>
    cases src with
    | nil => cases inString <;> exact ⟨rfl, nofun⟩
    | cons c src =>
      have hc := hprint c (.head _)
      have hsrc : ∀ c ∈ src, Printable c := fun d hd => hprint d (.tail _ hd)
      cases inString with
      | true =>
        rw [basicTokenizeLoop_string] at hwhole ⊢
        obtain ⟨hexpand, hbytes⟩ := ih (c != basicQuote) src hsrc hwhole
        refine ⟨?_, ?_⟩
        · rw [basicExpand, hexpand, basicText]
          rfl
        · exact List.forall_mem_cons.mpr ⟨hc.basicByte, hbytes⟩
      | false =>
        by_cases hquote : c = basicQuote
        · subst hquote
          have hremark : basicKeywordAt (basicQuote :: src) basicRemark = false := by
            rw [Bool.eq_false_iff]
            intro h
            have hletters := congrArg List.head? (basicKeywordAt_iff.mp h).1
            cases hletters
          have hrem : basicQuote ≠ basicRem := by decide
          have hlow : ¬0x80#8 ≤ basicQuote := by decide
          have hupper : basicUpper basicQuote = basicQuote := by decide
          rw [basicTokenizeLoop_quote] at hwhole ⊢
          obtain ⟨hexpand, hbytes⟩ := ih true src hsrc hwhole
          refine ⟨?_, ?_⟩
          · rw [basicExpand, if_neg hrem, if_neg hlow, beq_self_eq_true, hexpand, basicText,
              hremark, hupper, beq_self_eq_true]
            rfl
          · exact List.forall_mem_cons.mpr ⟨hc.basicByte, hbytes⟩
        · have hneq : (c == basicQuote) = false := beq_eq_false_iff_ne.mpr hquote
          cases hmatch : basicMatchKeyword (c :: src) with
          | none =>
            rw [basicTokenizeLoop_plain room src hquote, hmatch] at hwhole ⊢
            have hremark : basicKeywordAt (c :: src) basicRemark = false :=
              basicMatchKeyword_none hmatch _ basicRemark_mem
            obtain ⟨hlt, hupper⟩ := basicUpper_printable c hc
            have hlow : ¬0x80#8 ≤ basicUpper c := BitVec.not_le.mpr hlt
            have hrem : basicUpper c ≠ basicRem := by
              intro h
              rw [h] at hlow
              exact hlow (by decide)
            have hneq' : (basicUpper c == basicQuote) = false :=
              beq_eq_false_iff_ne.mpr fun h => hquote (hupper.mp h)
            obtain ⟨hexpand, hbytes⟩ := ih false src hsrc hwhole
            refine ⟨?_, ?_⟩
            · dsimp only
              rw [basicExpand, if_neg hrem, if_neg hlow, hneq', hexpand, basicText, hremark, hneq]
              rfl
            · exact List.forall_mem_cons.mpr ⟨fun hle => absurd hle hlow, hbytes⟩
          | some found =>
            obtain ⟨token, klen⟩ := found
            rw [basicTokenizeLoop_plain room src hquote, hmatch] at hwhole ⊢
            dsimp only at hwhole ⊢
            obtain ⟨index, keyword, hindex, rfl, rfl, hat⟩ := basicMatchKeyword_some hmatch
            have hmem := List.mem_of_getElem? hindex
            have hdrop : ∀ d ∈ (c :: src).drop keyword.length, Printable d :=
              fun d hd => hprint d (List.mem_of_mem_drop hd)
            have htoken : BasicByte (BitVec.ofNat 8 (basicTokenBase + index)) :=
              fun _ => ⟨index, keyword, hindex, rfl⟩
            by_cases hrem : keyword = basicRemark
            · -- the rest of the line is copied
              subst hrem
              have heq := (basicKeywords_rem hindex).mpr rfl
              rw [heq, beq_self_eq_true, basicTokenizeLoop_remark] at hwhole ⊢
              dsimp only at hwhole ⊢
              rw [List.drop_eq_nil_iff] at hwhole
              rw [List.take_of_length_le hwhole]
              refine ⟨?_, ?_⟩
              · rw [basicExpand, if_pos rfl, basicText, hat]
                rfl
              · rw [heq] at htoken
                exact List.forall_mem_cons.mpr ⟨htoken, fun d hd => (hdrop d hd).basicByte⟩
            · have hne : BitVec.ofNat 8 (basicTokenBase + index) ≠ basicRem :=
                fun h => hrem ((basicKeywords_rem hindex).mp h)
              rw [beq_eq_false_iff_ne.mpr hne] at hwhole ⊢
              obtain ⟨hexpand, hbytes⟩ := ih false _ hdrop hwhole
              have hnat := basicToken_toNat hindex
              have hhigh : 0x80#8 ≤ BitVec.ofNat 8 (basicTokenBase + index) := by
                rw [BitVec.le_def, hnat]
                exact Nat.le_add_right _ _
              refine ⟨?_, List.forall_mem_cons.mpr ⟨htoken, hbytes⟩⟩
              rw [basicExpand, if_neg hne, if_pos hhigh, hnat, Nat.add_sub_cancel_left, hindex,
                hexpand, basicText_keyword hmem hat hrem]
              rfl

/-- The tokens of a line, expanded. -/
theorem basicTokenizeLine_expand (src : CStr) (maxlen : Nat) (hprint : ∀ c ∈ src, Printable c)
    (hwhole : (basicTokenizeLine src maxlen).2 = []) :
    basicExpand false (basicTokenizeLine src maxlen).1 = some (basicText false src) ∧
      ∀ b ∈ (basicTokenizeLine src maxlen).1, BasicByte b :=
  basicTokenizeLoop_expand (maxlen - 1) false src hprint hwhole

/-- A line with a name, a string and a remark. -/
theorem basicTokenizeLine_expand_print :
    basicExpand false (basicTokenizeLine (cstr "print total;\"to\":rem to") 1024).1 =
      some (cstr "PRINT TOTAL;\"to\":REM to") ∧
      ∀ b ∈ (basicTokenizeLine (cstr "print total;\"to\":rem to") 1024).1, BasicByte b := by
  have hline : basicText false (cstr "print total;\"to\":rem to") =
        cstr "PRINT TOTAL;\"to\":REM to" ∧
      (∀ c ∈ cstr "print total;\"to\":rem to", 0x20#8 ≤ c ∧ c ≤ 0x7E#8) ∧
      (basicTokenizeLine (cstr "print total;\"to\":rem to") 1024).2 = [] := by
    decide +kernel
  obtain ⟨htext, hprint, hwhole⟩ := hline
  rw [← htext]
  exact basicTokenizeLine_expand _ 1024 hprint hwhole

/-- The text of a DATA line does not stay as it is. -/
theorem basicTokenizeLine_data :
    (∀ c ∈ cstr "DATA abc", 0x20#8 ≤ c ∧ c ≤ 0x7E#8) ∧
      basicTokenizeLine (cstr "DATA abc") 1024 = (0x91#8 :: cstr " ABC", []) ∧
      basicExpand false (0x91#8 :: cstr " ABC") = some (cstr "DATA ABC") ∧
      cstr "DATA ABC" ≠ cstr "DATA abc" := by
  decide +kernel

end Phosphoric
