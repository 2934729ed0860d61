import Mathlib.Data.List.GetD
import Mathlib.Data.List.TakeWhile
import Phosphoric.Sdimg.Files

/-!
# Names in directories

A directory entry has a name of eight characters and three, padded with spaces. `toFat83` makes one
of a given name, `extractShortName` reads one, and lookups compare what is read with the given name,
upper and lower case alike.

**Theorem (`toFat83_found_iff`).** An entry made for a name is read as that name, and listed, if and
only if the name neither ends with a dot nor starts with the byte `E5`, and what is before its last
dot is neither `.` nor `..`.
-/

namespace Phosphoric.Sdimg

open Store

/-! ## Reading -/

abbrev attrVolumeId : Byte := 0x08#8
abbrev attrLfn : Byte := 0x0F#8

/-- `' '`. -/
abbrev blank : Byte := 0x20#8

/-- `'.'`. -/
abbrev dot : Byte := 0x2E#8

/-- `toupper`, of the C locale. -/
def toupper (c : Byte) : Byte := if 0x61#8 ≤ c ∧ c ≤ 0x7A#8 then c - 0x20#8 else c

/-- `ci_strcmp` gives 0. -/
def ciEq : List Byte → List Byte → Bool
  | [], [] => true
  | a :: s, b :: t => toupper a == toupper b && ciEq s t
  | _, _ => false

/-- What there is at a place of a directory. -/
inductive Slot
  | last
  | skip
  | named (name : List Byte)
  deriving DecidableEq

/-- The characters of a field of an entry that are no blanks. -/
def fieldChars (e : Nat → Byte) (start n : Nat) : List Byte :=
  ((List.range n).map fun i => e (start + i)).filter (· ≠ blank)

/-- The bytes of a C string. -/
def cString (s : List Byte) : List Byte := s.takeWhile (· ≠ 0#8)

/-- `.` or `..`. -/
def isDots (name : List Byte) : Bool := name == [dot] || name == [dot, dot]

/-- `extract_short_name`. -/
def extractShortName (e : Nat → Byte) (keepDotdot : Bool) : Slot :=
  if e 0 = 0x00#8 then .last
  else if e 0 = 0xE5#8 then .skip
  else if e 11 &&& attrLfn = attrLfn then .skip
  else if e 11 &&& attrVolumeId ≠ 0#8 then .skip
  else
    let chars := fieldChars e 0 8
    let name := if e 0 = 0x05#8 then chars.set 0 0xE5#8 else chars
    let ext := fieldChars e 8 3
    if !keepDotdot && isDots name then .skip
    else if 0 < ext.length then .named ((cString name ++ dot :: cString ext).take 12)
    else .named ((cString name).take 12)

/-! ## Making -/

/-- What is before the last dot, and after it. -/
def splitDot : List Byte → List Byte × Option (List Byte)
  | [] => ([], none)
  | c :: s =>
    match splitDot s with
    | (name, some ext) => (c :: name, some ext)
    | (name, none) => if c = dot then ([], some s) else (c :: name, none)

/-- The character may be in a name: none of `/ \ : " * ? < > |`, no blank, no control character. -/
def nameChar (c : Byte) : Bool :=
  !(c < 0x20#8 || c == 0x7F#8 || c == 0x2F#8 || c == 0x5C#8 || c == 0x3A#8 || c == 0x22#8 ||
    c == 0x2A#8 || c == 0x3F#8 || c == 0x3C#8 || c == 0x3E#8 || c == 0x7C#8 || c == blank)

/-- A field of `n` characters. -/
def pad (n : Nat) (s : List Byte) : List Byte := s.map toupper ++ List.replicate (n - s.length) blank

/-- `to_fat_83`: the eleven characters. -/
def toFat83 (name : List Byte) : Option (List Byte) :=
  let (base, ext?) := splitDot name
  let ext := ext?.getD []
  if base = [] ∨ 8 < base.length ∨ 3 < ext.length then none
  else if base.all nameChar && ext.all nameChar then some (pad 8 base ++ pad 3 ext)
  else none

/-! ## What is read of what was made -/

theorem ciEq_iff {s t : List Byte} : ciEq s t = true ↔ s.map toupper = t.map toupper := by
  induction s generalizing t with
  | nil => cases t <;> simp [ciEq]
  | cons a s ih =>
    cases t with
    | nil => simp [ciEq]
    | cons b t => simp [ciEq, ih]

theorem toupper_toupper (c : Byte) : toupper (toupper c) = toupper c := by
  revert c
  decide

theorem nameChar_toupper {c : Byte} (h : nameChar c = true) :
    toupper c ≠ blank ∧ toupper c ≠ 0x00#8 ∧ toupper c ≠ 0x05#8 ∧ (toupper c = 0xE5#8 ↔ c = 0xE5#8) ∧
      (toupper c = dot ↔ c = dot) := by
  revert c
  decide

section Made

variable {name base ext e11 : List Byte} {ext? : Option (List Byte)} {e : Nat → Byte}

theorem splitDot_append (h : splitDot name = (base, ext?)) :
    name = base ++ (ext?.map (dot :: ·)).getD [] := by
  induction name generalizing base ext? with
  | nil =>
    obtain ⟨rfl, rfl⟩ := Prod.mk.inj h
    rfl
  | cons c s ih =>
    rw [splitDot] at h
    split at h
    · rename_i hs
      obtain ⟨rfl, rfl⟩ := Prod.mk.inj h
      rw [ih hs]
      rfl
    · rename_i hs
      have hnone := ih hs
      split_ifs at h with hdot
      · obtain ⟨rfl, rfl⟩ := Prod.mk.inj h
        rw [hdot]
        rfl
      · obtain ⟨rfl, rfl⟩ := Prod.mk.inj h
        rw [hnone]
        rfl

/-- After the last dot there is none. -/
theorem splitDot_no_dot (h : splitDot name = (base, ext?)) : dot ∉ ext?.getD base := by
  induction name generalizing base ext? with
  | nil =>
    obtain ⟨rfl, rfl⟩ := Prod.mk.inj h
    exact List.not_mem_nil
  | cons c s ih =>
    rw [splitDot] at h
    split at h
    · rename_i hs
      obtain ⟨rfl, rfl⟩ := Prod.mk.inj h
      have hext := ih hs
      exact hext
    · rename_i hs
      have hnone := splitDot_append hs
      have hdot := ih hs
      rw [Option.getD_none] at hdot
      split_ifs at h with hc
      · obtain ⟨rfl, rfl⟩ := Prod.mk.inj h
        rw [hnone]
        simpa using hdot
      · obtain ⟨rfl, rfl⟩ := Prod.mk.inj h
        simp [hdot, Ne.symm hc]

/-- The name an entry gives. -/
def shortText (base ext : List Byte) : List Byte := base ++ if ext = [] then [] else dot :: ext

/-- What `toFat83` takes, and what it makes of it. -/
theorem toFat83_eq_some (h : toFat83 name = some e11) :
    ∃ base ext?, splitDot name = (base, ext?) ∧ base ≠ [] ∧ base.length ≤ 8 ∧
      (ext?.getD []).length ≤ 3 ∧ (∀ c ∈ base, nameChar c) ∧ (∀ c ∈ ext?.getD [], nameChar c) ∧
      e11 = pad 8 base ++ pad 3 (ext?.getD []) := by
  rw [toFat83] at h
  simp only [Option.ite_none_left_eq_some, Option.ite_none_right_eq_some, Bool.and_eq_true,
    List.all_eq_true, not_or, Nat.not_lt, Option.some.injEq] at h
  obtain ⟨⟨hne, hbase, hext⟩, ⟨hchars, hexts⟩, rfl⟩ := h
  exact ⟨_, _, rfl, hne, hbase, hext, hchars, hexts, rfl⟩

theorem pad_length {n : Nat} (h : base.length ≤ n) : (pad n base).length = n := by
  simp only [pad, List.length_append, List.length_map, List.length_replicate]
  omega

/-- A padded field gives the characters back. -/
theorem filter_pad {n : Nat} (h : ∀ c ∈ base, nameChar c) :
    (pad n base).filter (· ≠ blank) = base.map toupper := by
  have hblanks : (List.replicate (n - base.length) blank).filter (· ≠ blank) = [] := by simp
  rw [pad, List.filter_append, hblanks, List.append_nil, List.filter_eq_self]
  intro c hc
  obtain ⟨b, hb, rfl⟩ := List.mem_map.mp hc
  exact decide_eq_true (nameChar_toupper (h b hb)).1

theorem cString_upper (h : ∀ c ∈ base, nameChar c) :
    cString (base.map toupper) = base.map toupper := by
  rw [cString, List.takeWhile_eq_self_iff]
  intro c hc
  obtain ⟨b, hb, rfl⟩ := List.mem_map.mp hc
  exact decide_eq_true (nameChar_toupper (h b hb)).2.1

/-- The characters of a field laid out in an entry. -/
theorem fieldChars_eq {start n : Nat} {s : List Byte} (hlen : s.length = n)
    (h : ∀ i < n, e (start + i) = s.getD i 0#8) : fieldChars e start n = s.filter (· ≠ blank) := by
  have hmap : (List.range n).map (fun i => e (start + i)) = s := by
    apply List.ext_getElem
    · simp [hlen]
    · intro i hi hi'
      simp [h i (hlen ▸ hi'), List.getElem?_eq_getElem hi']
  rw [fieldChars, hmap]

/-- The entry has the name, and attributes of a file or a directory. -/
structure HasName (e : Nat → Byte) (e11 : List Byte) : Prop where
  chars : ∀ i < 11, e i = e11.getD i 0#8
  attrib : e 11 = attrArchive ∨ e 11 = attrDirectory

theorem HasName.no_label (h : HasName e e11) :
    ¬e 11 &&& attrLfn = attrLfn ∧ ¬e 11 &&& attrVolumeId ≠ 0#8 := by
  rcases h.attrib with hattrib | hattrib <;> rw [hattrib] <;> decide

/-- The eleven characters are read back without their blanks. -/
theorem HasName.fields (h : HasName e (pad 8 base ++ pad 3 ext)) (hbase : base.length ≤ 8)
    (hext : ext.length ≤ 3) (hchars : ∀ c ∈ base, nameChar c) (hexts : ∀ c ∈ ext, nameChar c) :
    fieldChars e 0 8 = base.map toupper ∧ fieldChars e 8 3 = ext.map toupper := by
  have hlen := pad_length hbase
  have hlen' := pad_length hext
  constructor
  · rw [fieldChars_eq hlen, filter_pad hchars]
    intro i hi
    rw [Nat.zero_add, h.chars i (by omega), List.getD_append _ _ _ _ (by omega)]
  · rw [fieldChars_eq hlen', filter_pad hexts]
    intro i hi
    rw [h.chars (8 + i) (by omega), List.getD_append_right _ _ _ _ (by omega), hlen,
      Nat.add_sub_cancel_left]

/-- What is read of an entry with the name of a file or a directory. -/
theorem HasName.extractShortName (h : HasName e (pad 8 base ++ pad 3 ext)) (hne : base ≠ [])
    (hbase : base.length ≤ 8) (hext : ext.length ≤ 3) (hchars : ∀ c ∈ base, nameChar c)
    (hexts : ∀ c ∈ ext, nameChar c) (keepDotdot : Bool) :
    extractShortName e keepDotdot =
      if base.head? = some 0xE5#8 then .skip
      else if !keepDotdot && isDots (base.map toupper) then .skip
      else .named ((shortText base ext).map toupper) := by
  obtain ⟨hname, hextname⟩ := h.fields hbase hext hchars hexts
  obtain ⟨c, s, rfl⟩ := List.exists_cons_of_ne_nil hne
  have hfirst : e 0 = toupper c := by
    rw [h.chars 0 (by omega)]
    rfl
  obtain ⟨-, hzero, hfive, hdeleted, -⟩ := nameChar_toupper (hchars c List.mem_cons_self)
  rw [Sdimg.extractShortName, hfirst, if_neg hzero, if_neg h.no_label.1, if_neg h.no_label.2]
  simp only [hname, hextname, if_neg hfive, cString_upper hchars, cString_upper hexts, hdeleted,
    List.head?_cons, Option.some.injEq, List.length_map]
  rcases ext with - | ⟨x, xs⟩
  · rw [if_neg (show ¬0 < ([] : List Byte).length from Nat.lt_irrefl 0), List.take_of_length_le]
    · simp [shortText]
    · rw [List.length_map]
      omega
  · rw [List.take_of_length_le]
    · simp [shortText, show toupper dot = dot from rfl]
    · simp only [List.length_append, List.length_map, List.length_cons] at *
      omega

/-! ## The names found again -/

/-- An entry is found by a name, by `dir_find_child` and `find_dir_entry`, and listed under it by
`loci_sdimg_readdir`. -/
def FoundBy (name : List Byte) (e : Nat → Byte) : Prop :=
  ∀ keepDotdot, ∃ raw, extractShortName e keepDotdot = .named raw ∧ ciEq raw name = true

/-- The names that are found again. -/
def FoundAgain (name : List Byte) : Prop :=
  name.head? ≠ some 0xE5#8 ∧ name.getLast? ≠ some dot ∧ ¬isDots (splitDot name).1

instance (name : List Byte) : Decidable (FoundAgain name) :=
  inferInstanceAs (Decidable (_ ∧ _ ∧ _))

theorem isDots_upper (s : List Byte) : isDots (s.map toupper) = isDots s := by
  have hdot : ∀ c, toupper c = dot ↔ c = dot := by decide
  rw [Bool.eq_iff_iff]
  simp [isDots, List.map_eq_cons_iff, hdot]

/-- The name an entry gives is the one it was made for, a dot at the end apart. -/
theorem ciEq_shortText (h : splitDot name = (base, ext?)) :
    ciEq ((shortText base (ext?.getD [])).map toupper) name = true ↔ name.getLast? ≠ some dot := by
  have hname := splitDot_append h
  have hdot := splitDot_no_dot h
  have hlast : ∀ s : List Byte, dot ∉ s → s.getLast? ≠ some dot := fun s hs heq =>
    hs (List.mem_of_getLast? heq)
  rw [ciEq_iff, List.map_map, show toupper ∘ toupper = toupper from funext toupper_toupper]
  rcases ext? with - | ext
  · rw [hname]
    simpa [shortText] using hlast base hdot
  · rcases ext with - | ⟨x, xs⟩
    · have hlen : ((shortText base []).map toupper).length ≠ (name.map toupper).length := by
        simp [shortText, hname]
      simp only [Option.getD_some, hname, Option.map_some, List.getLast?_append,
        List.getLast?_singleton, Option.some_or, ne_eq, not_true_eq_false, iff_false]
      rw [hname] at hlen
      exact fun heq => hlen (congrArg List.length heq)
    · rw [hname]
      simpa [shortText] using hlast (x :: xs) hdot

theorem toFat83_found_iff (h : toFat83 name = some e11) (he : HasName e e11) :
    FoundBy name e ↔ FoundAgain name := by
  obtain ⟨base, ext?, hsplit, hne, hbase, hext, hchars, hexts, rfl⟩ := toFat83_eq_some h
  have hread := he.extractShortName hne hbase hext hchars hexts
  have hname := splitDot_append hsplit
  have hhead : name.head? = base.head? := by
    rw [hname, List.head?_append_of_ne_nil _ hne]
  have hdots : isDots (splitDot name).1 = isDots base := by rw [hsplit]
  have hraw := ciEq_shortText hsplit
  rw [FoundAgain, hhead, hdots, ← hraw]
  constructor
  · intro hfound
    obtain ⟨raw, hshort, hci⟩ := hfound false
    rw [hread] at hshort
    split_ifs at hshort with hdeleted hhidden
    obtain rfl := Slot.named.inj hshort
    refine ⟨hdeleted, hci, ?_⟩
    rw [isDots_upper] at hhidden
    simpa using hhidden
  · rintro ⟨hdeleted, hci, hshown⟩ keepDotdot
    refine ⟨_, ?_, hci⟩
    rw [hread, if_neg hdeleted, if_neg]
    rw [isDots_upper]
    simp [hshown]

end Made

end Phosphoric.Sdimg
