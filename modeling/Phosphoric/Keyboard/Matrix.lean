import Phosphoric.Lib.Machine
import Phosphoric.Lib.Word

/-!
# The keyboard matrix

The keyboard of `src/io/keyboard.c` under SDL events: the positional mapping (`handleQwerty`,
keycode to position) and the symbolic one (`handleSymbolic`, where a text event tells which
character the last key typed).

**Theorem (`oricKeyboard_released`).** The symbolic mapping always shows the union of the keys it
records, and a run that releases every key ends with an empty matrix, *provided* the layout
changes only while the matrix is empty and no key waits for its text, a positional key is
released under the keycode it was pressed under, and `oricKeyboardReleaseAll` is not called while
the symbolic mapping records keys.

The provisos are those of the code: `oricKeyboardSetLayout` changes the mapping and nothing else,
so a key held across it is released under a mapping that does not know how it was pressed
(`oricKeyboard_stuck`).
-/

namespace Phosphoric

/-! ## SDL's names -/

abbrev SdlScancode := Nat
abbrev SdlKeycode := Int

/-- `SDL_Keysym`, without the modifiers. -/
structure SdlKey where
  scancode : SdlScancode
  sym : SdlKeycode
  deriving DecidableEq, Repr

/-- The keycode of a key without a character: its scancode, marked. -/
def sdlScancodeMask (scancode : SdlScancode) : SdlKeycode := 0x40000000 + scancode

abbrev sdlScancodeReturn : SdlScancode := 40
abbrev sdlScancodeEscape : SdlScancode := 41
abbrev sdlScancodeBackspace : SdlScancode := 42
abbrev sdlScancodeTab : SdlScancode := 43
abbrev sdlScancodeDelete : SdlScancode := 76
abbrev sdlScancodeRight : SdlScancode := 79
abbrev sdlScancodeLeft : SdlScancode := 80
abbrev sdlScancodeDown : SdlScancode := 81
abbrev sdlScancodeUp : SdlScancode := 82
abbrev sdlScancodeLctrl : SdlScancode := 224
abbrev sdlScancodeLshift : SdlScancode := 225
abbrev sdlScancodeLalt : SdlScancode := 226
abbrev sdlScancodeRctrl : SdlScancode := 228
abbrev sdlScancodeRshift : SdlScancode := 229
abbrev sdlScancodeRalt : SdlScancode := 230

/-- `KMOD_CTRL`: either of the two keys. -/
abbrev kmodCtrl : Word := 0x00C0#16

/-! ## State -/

inductive OricKbLayout
  | qwerty | azerty
  deriving DecidableEq, Repr

/-- An entry of `char_map` or `special_keys`. -/
structure CharEntry where
  col : Fin 8
  row : Fin 8
  shift : Bool
  deriving DecidableEq, Repr

/-- A key the symbolic mapping records. -/
structure PressedKey extends CharEntry where
  scancode : SdlScancode
  deriving DecidableEq, Repr

/-- `oric_keyboard_t`; `pressed` is the used part of the array. -/
structure OricKeyboard where
  /-- Active low. -/
  matrix : Fin 8 → Byte
  layout : OricKbLayout
  pressed : List PressedKey
  pendingScancode : SdlScancode
  hasPending : Bool

abbrev oricKbMaxPressed : Nat := 16

def oricKeyboardInit : OricKeyboard where
  matrix := fun _ => 0xFF#8
  layout := .qwerty
  pressed := []
  pendingScancode := 0
  hasPending := false

def oricKeyboardReset (kb : OricKeyboard) : OricKeyboard :=
  { oricKeyboardInit with layout := kb.layout }

def oricKeyboardSetLayout (kb : OricKeyboard) (layout : OricKbLayout) : OricKeyboard :=
  { kb with layout := layout }

def oricKeyboardReleaseAll (kb : OricKeyboard) : OricKeyboard :=
  { kb with matrix := fun _ => 0xFF#8 }

/-- `matrix[col] &= ~(1 << row)`. -/
def matrixPress (matrix : Fin 8 → Byte) (col row : Fin 8) : Fin 8 → Byte :=
  Function.update matrix col (matrix col &&& ~~~(1#8 <<< row.val))

/-- `matrix[col] |= (1 << row)`. -/
def matrixRelease (matrix : Fin 8 → Byte) (col row : Fin 8) : Fin 8 → Byte :=
  Function.update matrix col (matrix col ||| (1#8 <<< row.val))

/-! ## The positional mapping -/

/-- `qwerty_tab`: 0 where the matrix has no key. -/
def qwertyTab : List SdlKeycode :=
  [ 0x37, 0x6E, 0x35, 0x76, sdlScancodeMask 228, 0x31, 0x78, 0x33,
    0x6A, 0x74, 0x72, 0x66, 0, 27, 0x71, 0x64,
    0x6D, 0x36, 0x62, 0x34, sdlScancodeMask 224, 0x7A, 0x32, 0x63,
    0x6B, 0x39, 0x3B, 0x2D, 0, 0, 0x5C, 0x27,
    0x20, 0x2C, 0x2E, sdlScancodeMask 82, sdlScancodeMask 225, sdlScancodeMask 80,
    sdlScancodeMask 81, sdlScancodeMask 79,
    0x75, 0x69, 0x6F, 0x70, sdlScancodeMask 226, 8, 0x5D, 0x5B,
    0x79, 0x68, 0x67, 0x65, sdlScancodeMask 230, 0x61, 0x73, 0x77,
    0x38, 0x6C, 0x30, 0x2F, sdlScancodeMask 229, 13, 0x60, 0x3D ]

/-- The first position of a keycode. -/
def qwertyPosition (key : SdlKeycode) : Option (Fin 8 × Fin 8) :=
  ((List.finRange 64).find? fun i => qwertyTab[i.val]? == some key).map fun i =>
    (⟨i.val / 8, by omega⟩, ⟨i.val % 8, by omega⟩)

/-! ## The symbolic mapping -/

def charU (col row : Fin 8) : Option CharEntry := some ⟨col, row, false⟩
def charS (col row : Fin 8) : Option CharEntry := some ⟨col, row, true⟩

/-- The letters, whose case the matrix does not tell. -/
def charMapLetters : List (Option CharEntry) :=
  [ charU 6 5, charU 2 2, charU 2 7, charU 1 7, charU 6 3, charU 1 3, charU 6 2, charU 6 1,
    charU 5 1, charU 1 0, charU 3 0, charU 7 1, charU 2 0, charU 0 1, charU 5 2, charU 5 3,
    charU 1 6, charU 1 2, charU 6 6, charU 1 1, charU 5 0, charU 0 3, charU 6 7, charU 0 6,
    charU 6 0, charU 2 5 ]

/-- `char_map`, for the 128 ASCII characters; `none` is unmapped. -/
def charMap : List (Option CharEntry) :=
  List.replicate 32 none ++
  [ charU 4 0, charS 0 5, charS 3 7, charS 0 7, charS 2 3, charS 0 2, charS 0 0, charU 3 7,
    charS 3 1, charS 7 2, charS 7 0, charS 7 7, charU 4 1, charU 3 3, charU 4 2, charU 7 3,
    charU 7 2, charU 0 5, charU 2 6, charU 0 7, charU 2 3, charU 0 2, charU 2 1, charU 0 0,
    charU 7 0, charU 3 1, charS 3 2, charU 3 2, charS 4 1, charU 7 7, charS 4 2, charS 7 3,
    charS 2 6 ] ++
  charMapLetters ++
  [ charU 5 7, charU 3 6, charU 5 6, charS 2 1, charS 3 3, none ] ++
  charMapLetters ++
  [ charS 5 7, charS 3 6, charS 5 6, none, none ]

def specialKeys : List (SdlScancode × Fin 8 × Fin 8) :=
  [ (sdlScancodeUp, 4, 3), (sdlScancodeDown, 4, 6), (sdlScancodeLeft, 4, 5),
    (sdlScancodeRight, 4, 7), (sdlScancodeReturn, 7, 5), (sdlScancodeEscape, 1, 5),
    (sdlScancodeBackspace, 5, 5), (sdlScancodeDelete, 5, 5), (sdlScancodeLctrl, 2, 4),
    (sdlScancodeRctrl, 0, 4), (sdlScancodeTab, 5, 4) ]

/-- A key past the sixteenth is not recorded. -/
def symAddPressed (kb : OricKeyboard) (scancode : SdlScancode) (entry : CharEntry) :
    OricKeyboard :=
  if kb.pressed.length ≥ oricKbMaxPressed then kb
  else { kb with pressed := kb.pressed ++ [⟨entry, scancode⟩] }

/-- The last entry takes the place of the one removed. -/
def symRemovePressed (kb : OricKeyboard) (scancode : SdlScancode) : OricKeyboard :=
  match kb.pressed.findIdx? (·.scancode == scancode), kb.pressed.getLast? with
  | some i, some last => { kb with pressed := (kb.pressed.set i last).dropLast }
  | _, _ => kb

/-- The matrix of one key more; the shift is the left one. -/
def symPress (matrix : Fin 8 → Byte) (key : PressedKey) : Fin 8 → Byte :=
  let matrix := matrixPress matrix key.col key.row
  if key.shift then matrixPress matrix 4 4 else matrix

def symRebuildMatrix (kb : OricKeyboard) : OricKeyboard :=
  { kb with matrix := kb.pressed.foldl symPress fun _ => 0xFF#8 }

/-- A key recorded in place of its previous record. -/
def symRecord (kb : OricKeyboard) (scancode : SdlScancode) (entry : CharEntry) : OricKeyboard :=
  symRebuildMatrix (symAddPressed (symRemovePressed kb scancode) scancode entry)

/-! ## Events -/

inductive SdlEvent
  | keyDown (key : SdlKey) (mod : Word)
  | keyUp (key : SdlKey) (mod : Word)
  /-- The first byte of the text. -/
  | textInput (c : Byte)
  deriving DecidableEq, Repr

/-- With the answer: the event was for the Oric. -/
def handleQwerty (kb : OricKeyboard) : SdlEvent → Bool × OricKeyboard
  | .keyDown key _ =>
    match qwertyPosition key.sym with
    | some (col, row) => (true, { kb with matrix := matrixPress kb.matrix col row })
    | none => (false, kb)
  | .keyUp key _ =>
    match qwertyPosition key.sym with
    | some (col, row) => (true, { kb with matrix := matrixRelease kb.matrix col row })
    | none => (false, kb)
  | .textInput _ => (false, kb)

/-- The letter a key gives under CTRL, when the system sends no text for it. -/
def ctrlLetter (key : SdlKey) (mod : Word) : Option CharEntry :=
  if mod &&& kmodCtrl != 0#16 && 0x61 ≤ key.sym && key.sym ≤ 0x7A then
    (charMap[key.sym.toNat]?).join
  else none

def handleSymbolic (kb : OricKeyboard) : SdlEvent → Bool × OricKeyboard
  | .textInput c =>
    if c > 127#8 then (false, kb)
    else
      match (charMap[c.toNat]?).join with
      | none => (false, kb)
      | some entry =>
        if kb.hasPending then
          (true, { symRecord kb kb.pendingScancode entry with hasPending := false })
        else (true, kb)
  | .keyDown key mod =>
    match specialKeys.find? (·.1 == key.scancode) with
    | some (_, col, row) => (true, symRecord kb key.scancode ⟨col, row, false⟩)
    | none =>
      match ctrlLetter key mod with
      | some entry => (true, symRecord kb key.scancode entry)
      | none =>
        if key.scancode ∈ [sdlScancodeLshift, sdlScancodeRshift, sdlScancodeLalt, sdlScancodeRalt]
        then (false, kb)
        else (false, { kb with pendingScancode := key.scancode, hasPending := true })
  | .keyUp key _ =>
    let kb :=
      if kb.hasPending && kb.pendingScancode == key.scancode then { kb with hasPending := false }
      else kb
    (true, symRebuildMatrix (symRemovePressed kb key.scancode))

def oricKeyboardHandleSdlEvent (kb : OricKeyboard) (event : SdlEvent) : Bool × OricKeyboard :=
  match kb.layout with
  | .azerty => handleSymbolic kb event
  | .qwerty => handleQwerty kb event

/-! ## What a matrix shows -/

/-- The position is pressed. -/
def MatrixDown (matrix : Fin 8 → Byte) (col row : Fin 8) : Prop :=
  (matrix col).getLsbD row = false

instance (matrix : Fin 8 → Byte) (col row : Fin 8) : Decidable (MatrixDown matrix col row) :=
  inferInstanceAs (Decidable (_ = _))

/-- A position a recorded key presses: its own, and the shift's if it needs one. -/
def PressedKey.Covers (key : PressedKey) (col row : Fin 8) : Prop :=
  (col = key.col ∧ row = key.row) ∨ (key.shift = true ∧ col = 4 ∧ row = 4)

theorem getLsbD_one_shiftLeft :
    ∀ r row : Fin 8, (1#8 <<< r.val).getLsbD row = decide (row = r) := by
  decide

theorem matrixDown_press (matrix : Fin 8 → Byte) (c r col row : Fin 8) :
    MatrixDown (matrixPress matrix c r) col row ↔
      (col = c ∧ row = r) ∨ MatrixDown matrix col row := by
  unfold MatrixDown matrixPress
  by_cases hcol : col = c
  · subst hcol
    rw [Function.update_self, BitVec.getLsbD_and, BitVec.getLsbD_not, getLsbD_one_shiftLeft]
    by_cases hrow : row = r <;> simp [hrow]
  · rw [Function.update_of_ne hcol]
    simp [hcol]

theorem matrixDown_release (matrix : Fin 8 → Byte) (c r col row : Fin 8) :
    MatrixDown (matrixRelease matrix c r) col row ↔
      ¬(col = c ∧ row = r) ∧ MatrixDown matrix col row := by
  unfold MatrixDown matrixRelease
  by_cases hcol : col = c
  · subst hcol
    rw [Function.update_self, BitVec.getLsbD_or, getLsbD_one_shiftLeft]
    by_cases hrow : row = r <;> simp [hrow]
  · rw [Function.update_of_ne hcol]
    simp [hcol]

theorem matrixDown_none (col row : Fin 8) : ¬MatrixDown (fun _ => 0xFF#8) col row := by
  have hfull : ∀ row : Fin 8, (0xFF#8).getLsbD row = true := by decide
  unfold MatrixDown
  rw [hfull row]
  decide

theorem matrix_of_none {matrix : Fin 8 → Byte} (h : ∀ col row, ¬MatrixDown matrix col row)
    (col : Fin 8) : matrix col = 0xFF#8 := by
  refine BitVec.eq_of_getLsbD_eq fun i hi => ?_
  have hfull : ∀ row : Fin 8, (0xFF#8).getLsbD row = true := by decide
  rw [hfull ⟨i, hi⟩]
  exact Bool.of_not_eq_false (h col ⟨i, hi⟩)

theorem matrixDown_symPress (matrix : Fin 8 → Byte) (key : PressedKey) (col row : Fin 8) :
    MatrixDown (symPress matrix key) col row ↔ key.Covers col row ∨ MatrixDown matrix col row := by
  unfold symPress PressedKey.Covers
  dsimp only
  split_ifs with hshift
  · rw [matrixDown_press, matrixDown_press]
    tauto
  · rw [matrixDown_press]
    tauto

theorem matrixDown_foldl (pressed : List PressedKey) (matrix : Fin 8 → Byte) (col row : Fin 8) :
    MatrixDown (pressed.foldl symPress matrix) col row ↔
      (∃ key ∈ pressed, key.Covers col row) ∨ MatrixDown matrix col row := by
  induction pressed generalizing matrix with
  | nil => simp
  | cons key pressed ih =>
    rw [List.foldl_cons, ih, matrixDown_symPress, List.exists_mem_cons_iff, or_left_comm, or_assoc]

/-- The rebuilt matrix is the union. -/
theorem matrixDown_rebuild (kb : OricKeyboard) (col row : Fin 8) :
    MatrixDown (symRebuildMatrix kb).matrix col row ↔
      ∃ key ∈ kb.pressed, key.Covers col row := by
  refine (matrixDown_foldl kb.pressed _ col row).trans ?_
  simp [matrixDown_none]

/-! ## The record -/

/-- One record a scancode. -/
def OricKeyboard.Distinct (kb : OricKeyboard) : Prop := (kb.pressed.map PressedKey.scancode).Nodup

theorem swapRemove_perm {α : Type*} {xs : List α} {i : Nat} {last : α} (hi : i < xs.length)
    (hlast : xs.getLast? = some last) : (xs.set i last).dropLast.Perm (xs.eraseIdx i) := by
  have hend : (xs.set i last).getLast? = some last := by
    rw [List.getLast?_eq_getElem?] at hlast ⊢
    rw [List.length_set, List.getElem?_set]
    split_ifs
    · rfl
    · exact hlast
  have happend := List.dropLast_append_getLast? last hend
  have hperm : ((xs.set i last).dropLast ++ [last]).Perm (last :: xs.eraseIdx i) := by
    rw [happend]
    exact List.set_perm_cons_eraseIdx hi last
  exact (List.perm_append_singleton last _).symm.trans hperm |>.cons_inv

/-- Nothing is left under the scancode removed. -/
theorem symRemovePressed_spec {kb : OricKeyboard} (h : kb.Distinct) (scancode : SdlScancode) :
    (symRemovePressed kb scancode).Distinct ∧
      ∀ key ∈ (symRemovePressed kb scancode).pressed,
        key ∈ kb.pressed ∧ key.scancode ≠ scancode := by
  unfold symRemovePressed
  cases hfound : kb.pressed.findIdx? (·.scancode == scancode) with
  | none =>
    refine ⟨h, fun key hkey => ⟨hkey, ?_⟩⟩
    simpa using List.findIdx?_eq_none_iff.mp hfound key hkey
  | some i =>
    obtain ⟨hi, hkey, -⟩ := List.findIdx?_eq_some_iff_getElem.mp hfound
    obtain ⟨last, hlast⟩ : ∃ last, kb.pressed.getLast? = some last :=
      ⟨_, List.getLast?_eq_some_getLast (List.ne_nil_of_length_pos (Nat.zero_lt_of_lt hi))⟩
    rw [hlast]
    have hperm := swapRemove_perm hi hlast
    have hcons := List.getElem_cons_eraseIdx_perm hi
    have hnodup : (kb.pressed[i].scancode ::
        (kb.pressed.eraseIdx i).map PressedKey.scancode).Nodup :=
      (hcons.map PressedKey.scancode).nodup_iff.mpr h
    obtain ⟨hnot, hrest⟩ := List.nodup_cons.mp hnodup
    refine ⟨(hperm.map PressedKey.scancode).nodup_iff.mpr hrest, fun key hmem => ?_⟩
    have hmem' : key ∈ kb.pressed.eraseIdx i := hperm.mem_iff.mp hmem
    refine ⟨List.mem_of_mem_eraseIdx hmem', fun heq => hnot ?_⟩
    rw [beq_iff_eq.mp hkey, ← heq]
    exact List.mem_map_of_mem hmem'

theorem symRecord_spec {kb : OricKeyboard} (h : kb.Distinct) (scancode : SdlScancode)
    (entry : CharEntry) :
    (symRecord kb scancode entry).Distinct ∧
      ∀ key ∈ (symRecord kb scancode entry).pressed,
        key ∈ kb.pressed ∨ key.scancode = scancode := by
  obtain ⟨hdistinct, hmem⟩ := symRemovePressed_spec h scancode
  show (symAddPressed (symRemovePressed kb scancode) scancode entry).Distinct ∧
    ∀ key ∈ (symAddPressed (symRemovePressed kb scancode) scancode entry).pressed, _
  unfold symAddPressed
  split_ifs with hfull
  · exact ⟨hdistinct, fun key hkey => .inl (hmem key hkey).1⟩
  · constructor
    · unfold OricKeyboard.Distinct at hdistinct ⊢
      rw [List.map_append, List.nodup_append]
      refine ⟨hdistinct, by simp, ?_⟩
      intro a ha b hb
      obtain ⟨key, hkey, rfl⟩ := List.mem_map.mp ha
      rw [List.mem_singleton.mp hb]
      exact (hmem key hkey).2
    · intro key hkey
      rcases List.mem_append.mp hkey with hold | hnew
      · exact .inl (hmem key hold).1
      · rw [List.mem_singleton.mp hnew]
        exact .inr rfl

/-- What a record leaves of the other fields. -/
theorem symRemovePressed_frame (kb : OricKeyboard) (scancode : SdlScancode) :
    (symRemovePressed kb scancode).layout = kb.layout ∧
      (symRemovePressed kb scancode).hasPending = kb.hasPending ∧
      (symRemovePressed kb scancode).pendingScancode = kb.pendingScancode := by
  unfold symRemovePressed
  cases kb.pressed.findIdx? (·.scancode == scancode) <;> cases kb.pressed.getLast? <;>
    exact ⟨rfl, rfl, rfl⟩

theorem symRecord_frame (kb : OricKeyboard) (scancode : SdlScancode) (entry : CharEntry) :
    (symRecord kb scancode entry).layout = kb.layout ∧
      (symRecord kb scancode entry).hasPending = kb.hasPending ∧
      (symRecord kb scancode entry).pendingScancode = kb.pendingScancode := by
  have hadd : ∀ kb : OricKeyboard,
      (symAddPressed kb scancode entry).layout = kb.layout ∧
        (symAddPressed kb scancode entry).hasPending = kb.hasPending ∧
        (symAddPressed kb scancode entry).pendingScancode = kb.pendingScancode := by
    intro kb
    unfold symAddPressed
    split_ifs <;> exact ⟨rfl, rfl, rfl⟩
  obtain ⟨hlayout, hpending, hscancode⟩ := symRemovePressed_frame kb scancode
  obtain ⟨hlayout', hpending', hscancode'⟩ := hadd (symRemovePressed kb scancode)
  exact ⟨hlayout'.trans hlayout, hpending'.trans hpending, hscancode'.trans hscancode⟩

/-! ## Runs -/

inductive KbOp
  | event (event : SdlEvent)
  | setLayout (layout : OricKbLayout)
  | reset
  | releaseAll
  deriving DecidableEq, Repr

/-- The keyboard, and the keys the user holds down. -/
structure KbRun where
  kb : OricKeyboard
  held : List SdlKey

def kbHeld (held : List SdlKey) : SdlEvent → List SdlKey
  | .keyDown key _ => key :: held
  | .keyUp key _ => held.filter (·.scancode != key.scancode)
  | .textInput _ => held

def kbStep (run : KbRun) : KbOp → KbRun
  | .event event => ⟨(oricKeyboardHandleSdlEvent run.kb event).2, kbHeld run.held event⟩
  | .setLayout layout => { run with kb := oricKeyboardSetLayout run.kb layout }
  | .reset => { run with kb := oricKeyboardReset run.kb }
  | .releaseAll => { run with kb := oricKeyboardReleaseAll run.kb }

def kbStart : KbRun := ⟨oricKeyboardInit, []⟩

/-- The steps that leave no key behind. -/
def KbOk (run : KbRun) : KbOp → Prop
  | .event (.keyUp key _) => run.kb.layout = .qwerty →
      ∀ k ∈ run.held, k.scancode = key.scancode → k.sym = key.sym
  | .event _ => True
  | .setLayout layout => layout = run.kb.layout ∨
      (∀ col, run.kb.matrix col = 0xFF#8) ∧ run.kb.hasPending = false
  | .reset => True
  | .releaseAll => run.kb.layout = .azerty → run.kb.pressed = []

instance : ∀ (run : KbRun) (op : KbOp), Decidable (KbOk run op)
  | run, .event (.keyUp key _) =>
    inferInstanceAs (Decidable (run.kb.layout = .qwerty →
      ∀ k ∈ run.held, k.scancode = key.scancode → k.sym = key.sym))
  | _, .event (.keyDown _ _) => isTrue trivial
  | _, .event (.textInput _) => isTrue trivial
  | run, .setLayout layout =>
    inferInstanceAs (Decidable (layout = run.kb.layout ∨
      (∀ col, run.kb.matrix col = 0xFF#8) ∧ run.kb.hasPending = false))
  | _, .reset => isTrue trivial
  | run, .releaseAll =>
    inferInstanceAs (Decidable (run.kb.layout = .azerty → run.kb.pressed = []))

/-- The positional mapping records nothing, and shows keys held down. -/
structure QwertyInv (run : KbRun) : Prop where
  pressed : run.kb.pressed = []
  pending : run.kb.hasPending = false
  held : ∀ col row, MatrixDown run.kb.matrix col row →
    ∃ key ∈ run.held, qwertyPosition key.sym = some (col, row)

/-- The symbolic mapping shows the union of what it records, and what it records or awaits is held
down. -/
structure SymInv (run : KbRun) : Prop where
  distinct : run.kb.Distinct
  union : ∀ col row, MatrixDown run.kb.matrix col row ↔
    ∃ key ∈ run.kb.pressed, key.Covers col row
  held : ∀ key ∈ run.kb.pressed, ∃ k ∈ run.held, k.scancode = key.scancode
  pending : run.kb.hasPending = true → ∃ k ∈ run.held, k.scancode = run.kb.pendingScancode

def KbInv (run : KbRun) : Prop :=
  match run.kb.layout with
  | .qwerty => QwertyInv run
  | .azerty => SymInv run

/-! ## Steps -/

theorem handleQwerty_layout (kb : OricKeyboard) (event : SdlEvent) :
    (handleQwerty kb event).2.layout = kb.layout := by
  cases event with
  | keyDown key mod =>
    rw [handleQwerty]
    cases qwertyPosition key.sym <;> rfl
  | keyUp key mod =>
    rw [handleQwerty]
    cases qwertyPosition key.sym <;> rfl
  | textInput c => rfl

theorem handleSymbolic_layout (kb : OricKeyboard) (event : SdlEvent) :
    (handleSymbolic kb event).2.layout = kb.layout := by
  cases event with
  | keyDown key mod =>
    rw [handleSymbolic]
    split
    · exact (symRecord_frame ..).1
    · split
      · exact (symRecord_frame ..).1
      · split_ifs <;> rfl
  | keyUp key mod =>
    rw [handleSymbolic]
    dsimp only
    split_ifs
    · exact (symRemovePressed_frame ..).1
    · exact (symRemovePressed_frame ..).1
  | textInput c =>
    rw [handleSymbolic]
    cases (charMap[c.toNat]?).join with
    | none => split_ifs <;> rfl
    | some entry =>
      dsimp only
      split_ifs
      · rfl
      · exact (symRecord_frame ..).1
      · rfl

theorem QwertyInv.event {run : KbRun} (h : QwertyInv run) (event : SdlEvent)
    (hqwerty : run.kb.layout = .qwerty) (hok : KbOk run (.event event)) :
    QwertyInv ⟨(handleQwerty run.kb event).2, kbHeld run.held event⟩ := by
  cases event with
  | keyDown key mod =>
    rw [handleQwerty]
    cases hpos : qwertyPosition key.sym with
    | none =>
      refine ⟨h.pressed, h.pending, fun col row hdown => ?_⟩
      obtain ⟨k, hk, hsym⟩ := h.held col row hdown
      exact ⟨k, .tail _ hk, hsym⟩
    | some pos =>
      refine ⟨h.pressed, h.pending, fun col row hdown => ?_⟩
      rcases (matrixDown_press ..).mp hdown with ⟨rfl, rfl⟩ | hold
      · exact ⟨key, .head _, hpos⟩
      · obtain ⟨k, hk, hsym⟩ := h.held col row hold
        exact ⟨k, .tail _ hk, hsym⟩
  | keyUp key mod =>
    -- a key still held was not under this scancode, or was this very key
    have hkept : ∀ col row, qwertyPosition key.sym ≠ some (col, row) →
        MatrixDown run.kb.matrix col row →
        ∃ k ∈ kbHeld run.held (.keyUp key mod), qwertyPosition k.sym = some (col, row) := by
      intro col row hne hdown
      obtain ⟨k, hk, hsym⟩ := h.held col row hdown
      refine ⟨k, List.mem_filter.mpr ⟨hk, bne_iff_ne.mpr fun hsame => hne ?_⟩, hsym⟩
      rw [← hok hqwerty k hk hsame]
      exact hsym
    rw [handleQwerty]
    cases hpos : qwertyPosition key.sym with
    | none =>
      rw [hpos] at hkept
      exact ⟨h.pressed, h.pending, fun col row => hkept col row nofun⟩
    | some pos =>
      rw [hpos] at hkept
      refine ⟨h.pressed, h.pending, fun col row hdown => ?_⟩
      obtain ⟨hne, hold⟩ := (matrixDown_release ..).mp hdown
      refine hkept col row (fun heq => hne ?_) hold
      rw [Option.some.inj heq]
      exact ⟨rfl, rfl⟩
  | textInput c => exact ⟨h.pressed, h.pending, h.held⟩

/-- Recording a key held down. -/
theorem SymInv.record {run : KbRun} (h : SymInv run) {scancode : SdlScancode}
    (entry : CharEntry) {held : List SdlKey} (hmore : ∀ k ∈ run.held, k ∈ held)
    (hheld : ∃ k ∈ held, k.scancode = scancode) :
    SymInv ⟨symRecord run.kb scancode entry, held⟩ := by
  obtain ⟨hdistinct, hmem⟩ := symRecord_spec h.distinct scancode entry
  obtain ⟨-, hpending, hscancode⟩ := symRecord_frame run.kb scancode entry
  refine ⟨hdistinct, matrixDown_rebuild _, fun key hkey => ?_, fun hwait => ?_⟩
  · rcases hmem key hkey with hold | hnew
    · obtain ⟨k, hk, hsame⟩ := h.held key hold
      exact ⟨k, hmore k hk, hsame⟩
    · rw [hnew]
      exact hheld
  · rw [hpending] at hwait
    obtain ⟨k, hk, hsame⟩ := h.pending hwait
    exact ⟨k, hmore k hk, hsame.trans hscancode.symm⟩

theorem SymInv.event {run : KbRun} (h : SymInv run) (event : SdlEvent) :
    SymInv ⟨(handleSymbolic run.kb event).2, kbHeld run.held event⟩ := by
  cases event with
  | keyDown key mod =>
    have hmore : ∀ k ∈ run.held, k ∈ kbHeld run.held (.keyDown key mod) := fun k hk => .tail _ hk
    have hself : ∃ k ∈ kbHeld run.held (.keyDown key mod), k.scancode = key.scancode :=
      ⟨key, .head _, rfl⟩
    have hsame : SymInv ⟨run.kb, kbHeld run.held (.keyDown key mod)⟩ := by
      refine ⟨h.distinct, h.union, fun k hk => ?_, fun hwait => ?_⟩
      · obtain ⟨k', hk', heq⟩ := h.held k hk
        exact ⟨k', hmore k' hk', heq⟩
      · obtain ⟨k', hk', heq⟩ := h.pending hwait
        exact ⟨k', hmore k' hk', heq⟩
    rw [handleSymbolic]
    split
    · exact h.record _ hmore hself
    · split
      · exact h.record _ hmore hself
      · split_ifs
        · exact hsame
        · exact ⟨hsame.distinct, hsame.union, hsame.held, fun _ => hself⟩
  | keyUp key mod =>
    rw [handleSymbolic]
    dsimp only
    generalize hkb : (if (run.kb.hasPending && run.kb.pendingScancode == key.scancode) = true then
      { run.kb with hasPending := false } else run.kb) = kb
    have hpressed : kb.pressed = run.kb.pressed := by
      rw [← hkb]
      split_ifs <;> rfl
    have hwaits : kb.hasPending = true → run.kb.hasPending = true ∧
        kb.pendingScancode = run.kb.pendingScancode ∧ kb.pendingScancode ≠ key.scancode := by
      rw [← hkb]
      split_ifs with hself
      · exact nofun
      · intro hwait
        refine ⟨hwait, rfl, fun heq => hself ?_⟩
        rw [hwait, heq]
        simp
    have hkept : ∀ scancode, scancode ≠ key.scancode → (∃ k ∈ run.held, k.scancode = scancode) →
        ∃ k ∈ kbHeld run.held (.keyUp key mod), k.scancode = scancode := by
      rintro scancode hne ⟨k, hk, rfl⟩
      exact ⟨k, List.mem_filter.mpr ⟨hk, bne_iff_ne.mpr hne⟩, rfl⟩
    have hdistinct : kb.Distinct := by
      unfold OricKeyboard.Distinct
      rw [hpressed]
      exact h.distinct
    obtain ⟨hdistinct', hmem⟩ := symRemovePressed_spec hdistinct key.scancode
    obtain ⟨-, hpending, hscancode⟩ := symRemovePressed_frame kb key.scancode
    refine ⟨hdistinct', matrixDown_rebuild _, fun k hk => ?_, fun hwait => ?_⟩
    · obtain ⟨hold, hne⟩ := hmem k hk
      exact hkept _ hne (h.held k (hpressed ▸ hold))
    · obtain ⟨hwait', hsame, hne⟩ := hwaits (hpending.symm.trans hwait)
      show ∃ k ∈ kbHeld run.held (.keyUp key mod),
        k.scancode = (symRemovePressed kb key.scancode).pendingScancode
      rw [hscancode]
      exact hkept _ hne (hsame ▸ h.pending hwait')
  | textInput c =>
    have hkeep : ∀ k ∈ run.held, k ∈ kbHeld run.held (.textInput c) := fun _ hk => hk
    rw [handleSymbolic]
    cases (charMap[c.toNat]?).join with
    | none => split_ifs <;> exact ⟨h.distinct, h.union, h.held, h.pending⟩
    | some entry =>
      dsimp only
      split_ifs with hascii hwait
      · exact ⟨h.distinct, h.union, h.held, h.pending⟩
      · have hrecord := h.record entry hkeep (h.pending hwait)
        exact ⟨hrecord.distinct, hrecord.union, hrecord.held, nofun⟩
      · exact ⟨h.distinct, h.union, h.held, h.pending⟩

/-! ## Layouts -/

/-- An empty matrix records nothing. -/
theorem SymInv.pressed_nil {run : KbRun} (h : SymInv run)
    (hempty : ∀ col, run.kb.matrix col = 0xFF#8) : run.kb.pressed = [] := by
  refine List.eq_nil_iff_forall_not_mem.mpr fun key hkey => ?_
  have hdown := (h.union key.col key.row).mpr ⟨key, hkey, .inl ⟨rfl, rfl⟩⟩
  have hmatrix : run.kb.matrix = fun _ => 0xFF#8 := funext hempty
  rw [hmatrix] at hdown
  exact matrixDown_none _ _ hdown

theorem kbInv_of_empty {kb : OricKeyboard} {held : List SdlKey} (hpressed : kb.pressed = [])
    (hpending : kb.hasPending = false) (hempty : ∀ col, kb.matrix col = 0xFF#8) :
    KbInv ⟨kb, held⟩ := by
  have hnone : ∀ col row, ¬MatrixDown kb.matrix col row := by
    have hmatrix : kb.matrix = fun _ => 0xFF#8 := funext hempty
    rw [hmatrix]
    exact matrixDown_none
  unfold KbInv
  dsimp only
  cases kb.layout with
  | qwerty => exact ⟨hpressed, hpending, fun col row hdown => absurd hdown (hnone col row)⟩
  | azerty =>
    refine ⟨?_, fun col row => ?_, ?_, ?_⟩
    · simp [OricKeyboard.Distinct, hpressed]
    · simp [hnone, hpressed]
    · simp [hpressed]
    · simp [hpending]

/-- The step lemma. -/
theorem KbInv.step {run : KbRun} (h : KbInv run) (op : KbOp) (hok : KbOk run op) :
    KbInv (kbStep run op) := by
  cases op with
  | event event =>
    cases hlayout : run.kb.layout with
    | qwerty =>
      have hinv : QwertyInv run := by rwa [KbInv, hlayout] at h
      have hnext := hinv.event event hlayout hok
      have hsame := (handleQwerty_layout run.kb event).trans hlayout
      rw [kbStep, oricKeyboardHandleSdlEvent, hlayout, KbInv]
      dsimp only
      rw [hsame]
      exact hnext
    | azerty =>
      have hinv : SymInv run := by rwa [KbInv, hlayout] at h
      have hnext := hinv.event event
      have hsame := (handleSymbolic_layout run.kb event).trans hlayout
      rw [kbStep, oricKeyboardHandleSdlEvent, hlayout, KbInv]
      dsimp only
      rw [hsame]
      exact hnext
  | setLayout layout =>
    rcases hok with rfl | ⟨hempty, hpending⟩
    · exact h
    · refine kbInv_of_empty ?_ hpending hempty
      show run.kb.pressed = []
      unfold KbInv at h
      split at h
      · exact h.pressed
      · exact h.pressed_nil hempty
  | reset => exact kbInv_of_empty rfl rfl fun _ => rfl
  | releaseAll =>
    unfold KbInv at h
    cases hlayout : run.kb.layout with
    | qwerty =>
      rw [hlayout] at h
      exact kbInv_of_empty h.pressed h.pending fun _ => rfl
    | azerty =>
      rw [hlayout] at h
      have hpressed := hok hlayout
      rw [kbStep, KbInv]
      show match run.kb.layout with
        | .qwerty => QwertyInv _
        | .azerty => SymInv _
      rw [hlayout]
      refine ⟨h.distinct, fun col row => ?_, h.held, h.pending⟩
      show MatrixDown (fun _ => 0xFF#8) col row ↔ ∃ key ∈ run.kb.pressed, key.Covers col row
      simp [matrixDown_none, hpressed]

/-- In every state such a run reaches: with nothing held down, nothing is pressed. -/
theorem oricKeyboard_released (ops : List KbOp)
    (hok : Machine.Throughout kbStep KbOk ops kbStart) :
    let run := ops.foldl kbStep kbStart
    (run.kb.layout = .azerty → ∀ col row,
      MatrixDown run.kb.matrix col row ↔ ∃ key ∈ run.kb.pressed, key.Covers col row) ∧
    (run.held = [] → ∀ col, run.kb.matrix col = 0xFF#8) := by
  intro run
  have hinv : KbInv run :=
    Machine.Throughout.invariant (fun run op hrun hok => hrun.step op hok) ops
      (kbInv_of_empty rfl rfl fun _ => rfl) hok
  unfold KbInv at hinv
  split at hinv
  · rename_i hlayout
    refine ⟨fun hazerty => absurd (hlayout.symm.trans hazerty) (by decide), fun hheld => ?_⟩
    refine matrix_of_none fun col row hdown => ?_
    obtain ⟨key, hkey, -⟩ := hinv.held col row hdown
    rw [hheld] at hkey
    exact absurd hkey (by simp)
  · refine ⟨fun _ => hinv.union, fun hheld => matrix_of_none fun col row hdown => ?_⟩
    obtain ⟨key, hkey, -⟩ := (hinv.union col row).mp hdown
    obtain ⟨k, hk, -⟩ := hinv.held key hkey
    rw [hheld] at hk
    exact absurd hk (by simp)

/-- Tab, held while the layout changes. -/
def kbStuckOps : List KbOp :=
  let tab : SdlKey := ⟨sdlScancodeTab, 9⟩
  [ .setLayout .azerty, .event (.keyDown tab 0#16), .setLayout .qwerty, .event (.keyUp tab 0#16) ]

/-- The positional mapping does not know Tab, which the symbolic one took for FUNCT. -/
theorem oricKeyboard_stuck :
    ¬∀ ops : List KbOp, let run := ops.foldl kbStep kbStart
      (run.kb.layout = .azerty → ∀ col row,
        MatrixDown run.kb.matrix col row ↔ ∃ key ∈ run.kb.pressed, key.Covers col row) ∧
      (run.held = [] → ∀ col, run.kb.matrix col = 0xFF#8) := by
  intro h
  have hempty := (h kbStuckOps).2 (by decide) 5
  exact absurd hempty (by decide)

/-- The key right of Tab on a French keyboard: its keycode is `a`, and so is its text. -/
def kbTypedOps : List KbOp :=
  let key : SdlKey := ⟨20, 0x61⟩
  [ .setLayout .azerty, .event (.keyDown key 0#16), .event (.textInput 0x61#8),
    .event (.keyUp key 0#16) ]

theorem oricKeyboard_released_typed :
    let run := kbTypedOps.foldl kbStep kbStart
    (run.kb.layout = .azerty → ∀ col row,
      MatrixDown run.kb.matrix col row ↔ ∃ key ∈ run.kb.pressed, key.Covers col row) ∧
    (run.held = [] → ∀ col, run.kb.matrix col = 0xFF#8) :=
  oricKeyboard_released kbTypedOps (by decide)

end Phosphoric
