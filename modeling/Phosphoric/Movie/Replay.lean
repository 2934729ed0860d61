import Mathlib.Data.Nat.Digits.Lemmas
import Phosphoric.Debugger.Condition
import Phosphoric.Gdb.Packet
import Phosphoric.Tap.Listing

/-!
# Movies

A movie is a text file of the changes of the keyboard matrix, one to a line. The file is read
back whole: its events are kept in an array that doubles as it fills, its capacity being a
`uint32_t`.

**Theorem (`movie_replays_iff`).** A recording is replayed exactly when it has at most `2 ^ 31`
changes.
-/

namespace Phosphoric

/-! ## State -/

/-- `uint8_t matrix[8]`. -/
abbrev MovieMatrix := Fin 8 → Byte

/-- `movie_event_t`. -/
structure MovieEvent where
  frame : BitVec 32
  matrix : MovieMatrix

/-- A `movie_t` that records, with what its file holds. -/
structure MovieRecorder where
  file : List Byte
  /-- `last_matrix`, once there is one. -/
  last : Option MovieMatrix
  eventCount : BitVec 32

/-- A `movie_t` that replays. -/
structure MovieReplay where
  model : Byte
  events : List MovieEvent
  cap : BitVec 32
  endFrame : BitVec 32
  replayIdx : Nat
  cur : MovieMatrix

/-! ## Recording -/

/-- `MOVIE_MAGIC`. -/
def movieMagic : CStr := cstr "PHOSPHORIC-MOVIE 1"

/-- `%u`. -/
def printUnsigned (n : Nat) : CStr :=
  if n = 0 then [hexdig 0] else (Nat.digits 10 n).reverse.map hexdig

/-- ` %02x` for each byte. -/
def printBytes (bytes : List Byte) : CStr := bytes.flatMap fun b => 0x20#8 :: emitByte b

/-- `movie_record_open`, the file being there. -/
def movieRecordOpen (model : Byte) : MovieRecorder where
  file := movieMagic ++ [0x0A#8] ++ (cstr "model " ++ printUnsigned model.toNat ++ [0x0A#8])
  last := none
  eventCount := 0

/-- The line of an event. -/
def movieLine (e : MovieEvent) : CStr :=
  cstr "F " ++ printUnsigned e.frame.toNat ++ printBytes (List.ofFn e.matrix) ++ [0x0A#8]

def movieRecordFrame (m : MovieRecorder) (e : MovieEvent) : MovieRecorder :=
  if m.last = some e.matrix then m
  else
    { file := m.file ++ movieLine e
      last := some e.matrix
      eventCount := m.eventCount + 1 }

/-- The file of a recording. -/
def movieRecord (model : Byte) (recorded : List MovieEvent) : List Byte :=
  (recorded.foldl movieRecordFrame (movieRecordOpen model)).file

/-! ## Loading -/

/-- `%u` and `%x` of `sscanf`: the number and what follows it. -/
def scanNumber (base : Nat) (s : CStr) : Option (BitVec 32 × CStr) :=
  let s := dbgSkipWs s
  let neg := s.head? == some 0x2D#8
  let s := if neg || s.head? == some 0x2B#8 then s.tail else s
  let s := if base == 16 && s.head? == some 0x30#8 && s.tail.head?.map lowerAscii == some 0x78#8
    then s.drop 2 else s
  let digits := s.takeWhile fun c => (digitOf base c).isSome
  if digits = [] then none
  else
    let n := digits.foldl (fun n c => n * base + (digitOf base c).getD 0) 0
    let v := if 2 ^ 64 ≤ n then BitVec.allOnes 32 else if neg then -BitVec.ofNat 32 n
      else BitVec.ofNat 32 n
    some (v, s.drop digits.length)

def scanBytes : Nat → CStr → Option (List Byte)
  | 0, _ => some []
  | n + 1, s =>
    match scanNumber 16 s with
    | none => none
    | some (v, s) => (scanBytes n s).map (v.setWidth 8 :: ·)

/-- `sscanf(line, "model %u", &mv) == 1`. -/
def scanModel (line : CStr) : Option Byte :=
  match afterWord (cstr "model") line with
  | none => none
  | some s => (scanNumber 10 s).map fun v => v.1.setWidth 8

/-- `sscanf(line, "F %u %x %x %x %x %x %x %x %x", ...) == 9`. -/
def scanEvent (line : CStr) : Option MovieEvent :=
  match afterWord (cstr "F") line with
  | none => none
  | some s =>
    match scanNumber 10 s with
    | none => none
    | some (frame, s) => (scanBytes 8 s).map fun b => ⟨frame, fun i => b.getD i 0#8⟩

/-- An event is added; `none` where `realloc` has nothing to allocate. -/
def moviePush (m : MovieReplay) (e : MovieEvent) : Option MovieReplay :=
  let cap := if BitVec.ofNat 32 m.events.length ≥ m.cap then
      if m.cap ≠ 0 then m.cap * 2 else 256
    else m.cap
  if cap = 0 then none
  else some { m with cap := cap, events := m.events ++ [e], endFrame := e.frame }

def movieReadLine (m : MovieReplay) (line : CStr) : Option MovieReplay :=
  if line.head? = some 0x23#8 ∨ line.head? = some 0x0A#8 then some m
  else
    match scanModel line with
    | some model => some { m with model := model }
    | none =>
      match scanEvent line with
      | some e => moviePush m e
      | none => some m

/-- The loop over the lines. A call of `fgets` reads a byte or more. -/
def movieReadLines : Nat → List Byte → MovieReplay → Option MovieReplay
  | 0, _, m => some m
  | _ + 1, [], m => some m
  | fuel + 1, bytes, m =>
    match movieReadLine m ((basicFgets 255 bytes).1.takeWhile (· != 0#8)) with
    | none => none
    | some m => movieReadLines fuel (basicFgets 255 bytes).2 m

/-- All keys released. -/
def movieReleased : MovieMatrix := fun _ => 0xFF#8

/-- `movie_replay_open`, `none` for false. -/
def movieReplayOpen (file : List Byte) : Option MovieReplay :=
  if movieMagic.isPrefixOf (basicFgets 255 file).1 then
    movieReadLines (basicFgets 255 file).2.length (basicFgets 255 file).2
      ⟨0, [], 0, 0, 0, movieReleased⟩
  else none

/-! ## Replaying -/

/-- `movie_replay_frame`: every event reached is applied, the last one wins. -/
def movieReplayFrame (m : MovieReplay) (frame : BitVec 32) : MovieMatrix × MovieReplay :=
  let reached := (m.events.drop m.replayIdx).takeWhile fun e => e.frame ≤ frame
  let cur := reached.foldl (fun _ e => e.matrix) m.cur
  (cur, { m with cur := cur, replayIdx := m.replayIdx + reached.length })

/-- The matrices of the frames, one after the other. -/
def movieReplay (m : MovieReplay) : List (BitVec 32) → List MovieMatrix
  | [] => []
  | frame :: frames =>
    (movieReplayFrame m frame).1 :: movieReplay (movieReplayFrame m frame).2 frames

/-! ## What a recording holds -/

/-- The matrix recorded at the last frame not after `f`. -/
def matrixAt (recorded : List MovieEvent) (f : BitVec 32) : MovieMatrix :=
  match (recorded.filter fun e => e.frame ≤ f).getLast? with
  | some e => e.matrix
  | none => movieReleased

/-- The events written. -/
def movieChanges : Option MovieMatrix → List MovieEvent → List MovieEvent
  | _, [] => []
  | last, e :: es =>
    if last = some e.matrix then movieChanges last es else e :: movieChanges (some e.matrix) es

/-- The movie is loaded, and any increasing frames give the matrices recorded; in particular the
frames recorded. -/
def MovieReplays (model : Byte) (recorded : List MovieEvent) : Prop :=
  ∃ m, movieReplayOpen (movieRecord model recorded) = some m ∧ m.model = model ∧
    (∀ frames : List (BitVec 32), frames.Pairwise (· ≤ ·) →
      movieReplay m frames = frames.map (matrixAt recorded)) ∧
    movieReplay m (recorded.map MovieEvent.frame) = recorded.map MovieEvent.matrix

/-- Frame after frame. -/
def MovieIncreasing (recorded : List MovieEvent) : Prop :=
  recorded.Pairwise fun e e' => e.frame < e'.frame

theorem movieRecord_eq (model : Byte) (recorded : List MovieEvent) :
    movieRecord model recorded =
      (movieRecordOpen model).file ++ (movieChanges none recorded).flatMap movieLine := by
  suffices h : ∀ m : MovieRecorder, (recorded.foldl movieRecordFrame m).file =
      m.file ++ (movieChanges m.last recorded).flatMap movieLine from h _
  induction recorded with
  | nil => exact fun m => (List.append_nil m.file).symm
  | cons e es ih =>
    intro m
    rw [List.foldl_cons, ih, movieRecordFrame, movieChanges]
    split
    next h => rfl
    next h => rw [List.flatMap_cons, List.append_assoc]

/-! ## Events reached -/

theorem movieChanges_mem {last : Option MovieMatrix} {recorded : List MovieEvent} {e : MovieEvent}
    (he : e ∈ movieChanges last recorded) : e ∈ recorded := by
  induction recorded generalizing last with
  | nil => cases he
  | cons e' es ih =>
    rw [movieChanges] at he
    split at he
    next h => exact List.mem_cons_of_mem _ (ih he)
    next h =>
      rcases List.mem_cons.mp he with rfl | he
      · exact List.mem_cons_self
      · exact List.mem_cons_of_mem _ (ih he)

/-- Up to a frame, the changes leave the matrix the recording leaves. -/
theorem movieChanges_reached (f : BitVec 32) {recorded : List MovieEvent}
    (hinc : MovieIncreasing recorded) {last : Option MovieMatrix} {c : MovieMatrix}
    (hlast : ∀ m, last = some m → c = m) :
    ((movieChanges last recorded).takeWhile fun e => e.frame ≤ f).foldl (fun _ e => e.matrix) c =
      (recorded.filter fun e => e.frame ≤ f).foldl (fun _ e => e.matrix) c := by
  induction recorded generalizing last c with
  | nil => rfl
  | cons e es ih =>
    obtain ⟨hfirst, hrest⟩ := List.pairwise_cons.mp hinc
    by_cases hreached : e.frame ≤ f
    · rw [List.filter_cons_of_pos (by simpa using hreached), List.foldl_cons, movieChanges]
      split
      next h =>
        rw [hlast _ h] at *
        exact ih hrest hlast
      next h =>
        rw [List.takeWhile_cons_of_pos (by simpa using hreached), List.foldl_cons]
        exact ih hrest fun m hm => Option.some.inj hm
    · -- nothing is reached any more
      have hlater : ∀ e' ∈ e :: es, ¬ e'.frame ≤ f := by
        intro e' he' hle
        rcases List.mem_cons.mp he' with rfl | he'
        · exact hreached hle
        · exact hreached (BitVec.le_trans (BitVec.le_of_lt (hfirst e' he')) hle)
      have hnone : (e :: es).filter (fun e => decide (e.frame ≤ f)) = [] :=
        List.filter_eq_nil_iff.mpr fun e' he' => by simpa using hlater e' he'
      have htake :
          (movieChanges last (e :: es)).takeWhile (fun e => decide (e.frame ≤ f)) = [] := by
        cases hch : movieChanges last (e :: es) with
        | nil => rfl
        | cons e' es' =>
          have hmem := movieChanges_mem (hch ▸ List.mem_cons_self : e' ∈ _)
          exact List.takeWhile_cons_of_neg (by simpa using hlater e' hmem)
      rw [hnone, htake]

theorem matrixAt_eq (recorded : List MovieEvent) (f : BitVec 32) :
    matrixAt recorded f =
      (recorded.filter fun e => e.frame ≤ f).foldl (fun _ e => e.matrix) movieReleased := by
  have hlast : ∀ (l : List MovieEvent) (c : MovieMatrix),
      l.foldl (fun _ e => e.matrix) c = (l.getLast?.map MovieEvent.matrix).getD c := by
    intro l c
    induction l using List.reverseRecOn with
    | nil => rfl
    | append_singleton l e _ => rw [List.foldl_append, List.getLast?_concat]; rfl
  rw [hlast, matrixAt]
  cases (recorded.filter fun e => e.frame ≤ f).getLast? <;> rfl

/-- What is reached at a later frame is what was reached, and what is reached of the rest. -/
theorem takeWhile_later {α : Type} {p q : α → Bool} (h : ∀ a, p a → q a) (l : List α) :
    l.takeWhile q = l.takeWhile p ++ (l.drop (l.takeWhile p).length).takeWhile q := by
  induction l with
  | nil => rfl
  | cons a l ih =>
    by_cases hp : p a = true
    · rw [List.takeWhile_cons_of_pos hp, List.takeWhile_cons_of_pos (h a hp), List.length_cons,
        List.drop_succ_cons, List.cons_append, ← ih]
    · rw [List.takeWhile_cons_of_neg hp]
      rfl

/-- All the events up to a frame have been applied. -/
structure MovieAt (m : MovieReplay) (f : BitVec 32) : Prop where
  idx : m.replayIdx = (m.events.takeWhile fun e => e.frame ≤ f).length
  cur : m.cur = (m.events.takeWhile fun e => e.frame ≤ f).foldl (fun _ e => e.matrix) movieReleased

/-- A frame applies the events up to it. -/
theorem MovieAt.frame {m : MovieReplay} {f f' : BitVec 32} (h : MovieAt m f) (hle : f ≤ f') :
    MovieAt (movieReplayFrame m f').2 f' := by
  have hsplit := takeWhile_later (p := fun e : MovieEvent => decide (e.frame ≤ f))
    (q := fun e => decide (e.frame ≤ f')) (fun e he => by
      simp only [decide_eq_true_eq] at he ⊢
      exact BitVec.le_trans he hle) m.events
  constructor
  · simp only [movieReplayFrame, hsplit, List.length_append, h.idx]
  · simp only [movieReplayFrame, hsplit, List.foldl_append, h.idx, h.cur]

/-- The first frame shown. -/
theorem MovieAt.first {m : MovieReplay} (hidx : m.replayIdx = 0) (hcur : m.cur = movieReleased)
    (f : BitVec 32) : MovieAt (movieReplayFrame m f).2 f := by
  constructor
  · simp only [movieReplayFrame, hidx, List.drop_zero, Nat.zero_add]
  · simp only [movieReplayFrame, hidx, List.drop_zero, hcur]

/-- The matrix each frame shows, by induction on the frames. -/
theorem movieReplay_matrices {recorded : List MovieEvent} (hinc : MovieIncreasing recorded)
    {m : MovieReplay} (hevents : m.events = movieChanges none recorded) (hidx : m.replayIdx = 0)
    (hcur : m.cur = movieReleased) {frames : List (BitVec 32)} (hframes : frames.Pairwise (· ≤ ·)) :
    movieReplay m frames = frames.map (matrixAt recorded) := by
  have hshown : ∀ {m : MovieReplay} {f : BitVec 32}, m.events = movieChanges none recorded →
      MovieAt m f → m.cur = matrixAt recorded f := by
    intro m f hm hat
    rw [hat.cur, hm, movieChanges_reached f hinc (fun _ h => by cases h), matrixAt_eq]
  suffices hrun : ∀ (frames : List (BitVec 32)) (m : MovieReplay) (f : BitVec 32),
      (f :: frames).Pairwise (· ≤ ·) → m.events = movieChanges none recorded → MovieAt m f →
      movieReplay m frames = frames.map (matrixAt recorded) by
    cases frames with
    | nil => rfl
    | cons f frames =>
      have hat := MovieAt.first hidx hcur f
      have hrest := hrun frames (movieReplayFrame m f).2 f hframes hevents hat
      rw [movieReplay, hrest, List.map_cons, ← hshown (m := (movieReplayFrame m f).2) hevents hat]
      rfl
  intro frames
  induction frames with
  | nil => exact fun _ _ _ _ _ => rfl
  | cons f' frames ih =>
    intro m f hsorted hm hat
    obtain ⟨hfirst, hrest⟩ := List.pairwise_cons.mp hsorted
    have hat' := hat.frame (hfirst f' List.mem_cons_self)
    rw [movieReplay, ih (movieReplayFrame m f').2 f' hrest hm hat', List.map_cons,
      ← hshown (m := (movieReplayFrame m f').2) hm hat']
    rfl

/-- At a frame recorded, the matrix recorded. -/
theorem matrixAt_recorded {recorded : List MovieEvent} (hinc : MovieIncreasing recorded)
    {e : MovieEvent} (he : e ∈ recorded) : matrixAt recorded e.frame = e.matrix := by
  obtain ⟨before, after, rfl⟩ := List.append_of_mem he
  obtain ⟨-, hafter, -⟩ := List.pairwise_append.mp hinc
  have hnone : after.filter (fun e' => decide (e'.frame ≤ e.frame)) = [] := by
    refine List.filter_eq_nil_iff.mpr fun e' he' => ?_
    have hlt := (List.pairwise_cons.mp hafter).1 e' he'
    simpa using BitVec.not_le.mpr hlt
  have hself : decide (e.frame ≤ e.frame) = true := by simp
  have hlast : (List.filter (fun e' => decide (e'.frame ≤ e.frame))
      (before ++ e :: after)).getLast? = some e := by
    rw [List.filter_append,
      List.filter_cons_of_pos (p := fun e' : MovieEvent => decide (e'.frame ≤ e.frame)) hself,
      hnone]
    exact List.getLast?_concat ..
  rw [matrixAt, hlast]

/-! ## Text -/

theorem hexdig_digit : ∀ d < 16, digitOf 16 (hexdig d) = some d ∧ isspace (hexdig d) = false ∧
    hexdig d ≠ 0x2D#8 ∧ hexdig d ≠ 0x2B#8 ∧ lowerAscii (hexdig d) ≠ 0x78#8 ∧
    hexdig d ≠ 0x0A#8 ∧ hexdig d ≠ 0#8 := by
  decide

theorem hexdig_decimal : ∀ d < 10, digitOf 10 (hexdig d) = some d := by
  decide

/-- A number behind a space, up to what is no digit. -/
theorem scanNumber_digits {base : Nat} {ds : List Nat} (hds : ∀ d ∈ ds, d < 16)
    (hbase : ∀ d ∈ ds, digitOf base (hexdig d) = some d) (hne : ds ≠ []) {c : Byte} {rest : CStr}
    (hc : digitOf base c = none) (hx : lowerAscii c ≠ 0x78#8)
    (hsmall : ds.foldl (fun n d => n * base + d) 0 < 2 ^ 64) :
    scanNumber base (0x20#8 :: (ds.map hexdig ++ c :: rest)) =
      some (BitVec.ofNat 32 (ds.foldl (fun n d => n * base + d) 0), c :: rest) := by
  obtain ⟨d, ds', rfl⟩ := List.exists_cons_of_ne_nil hne
  have hd := hexdig_digit d (hds d List.mem_cons_self)
  have hskip : dbgSkipWs (0x20#8 :: ((d :: ds').map hexdig ++ c :: rest)) =
      (d :: ds').map hexdig ++ c :: rest := by
    rw [dbgSkipWs, List.dropWhile_cons_of_pos (by decide)]
    exact List.dropWhile_cons_of_neg (by simp [hd.2.1])
  have hneg : ((hexdig d :: (ds'.map hexdig ++ c :: rest)).head? == some 0x2D#8) = false := by
    simp [hd.2.2.1]
  have hplus : ((hexdig d :: (ds'.map hexdig ++ c :: rest)).head? == some 0x2B#8) = false := by
    simp [hd.2.2.2.1]
  -- what follows the first digit is no x
  have hprefix : ((ds'.map hexdig ++ c :: rest).head?.map lowerAscii == some 0x78#8) = false := by
    cases ds' with
    | nil => simpa using hx
    | cons d' ds' =>
      have hd' := hexdig_digit d' (hds d' (by simp))
      simpa using hd'.2.2.2.2.1
  have htake : ((d :: ds').map hexdig ++ c :: rest).takeWhile
      (fun c => (digitOf base c).isSome) = (d :: ds').map hexdig := by
    have hall : ∀ b ∈ (d :: ds').map hexdig, (digitOf base b).isSome = true := by
      intro b hb
      obtain ⟨n, hn, rfl⟩ := List.mem_map.mp hb
      rw [hbase n hn]
      rfl
    rw [List.takeWhile_append_of_pos hall, List.takeWhile_cons_of_neg (by simp [hc]),
      List.append_nil]
  have hvalue : ((d :: ds').map hexdig).foldl (fun n c => n * base + (digitOf base c).getD 0) 0 =
      (d :: ds').foldl (fun n d => n * base + d) 0 := by
    rw [List.foldl_map]
    refine List.foldl_ext _ _ _ fun n k hk => ?_
    rw [hbase k hk]
    rfl
  unfold scanNumber
  rw [hskip]
  rw [List.map_cons, List.cons_append] at htake ⊢
  simp only [hneg, hplus, Bool.or_false, Bool.false_eq_true, if_false, List.tail_cons, hprefix,
    Bool.and_false, htake]
  rw [← List.map_cons, hvalue, if_neg (by simp), if_neg (Nat.not_le.mpr hsmall),
    ← List.cons_append, ← List.map_cons, List.drop_left]

/-- The digits of `%u`. -/
theorem printUnsigned_digits (n : BitVec 32) :
    ∃ ds : List Nat, printUnsigned n.toNat = ds.map hexdig ∧ (∀ d ∈ ds, d < 10) ∧ ds ≠ [] ∧
      ds.foldl (fun v d => v * 10 + d) 0 = n.toNat ∧ ds.length ≤ 10 := by
  by_cases hn : n.toNat = 0
  · refine ⟨[0], if_pos hn, by simp, by simp, hn.symm, by simp⟩
  · refine ⟨(Nat.digits 10 n.toNat).reverse, if_neg hn, ?_, ?_, ?_, ?_⟩
    · intro d hd
      exact Nat.digits_lt_base (by decide) (List.mem_reverse.mp hd)
    · rw [ne_eq, List.reverse_eq_nil_iff, Nat.digits_eq_nil_iff_eq_zero]
      exact hn
    · rw [List.foldl_reverse]
      have hvalue := Nat.ofDigits_digits 10 n.toNat
      rw [Nat.ofDigits_eq_foldr] at hvalue
      refine Eq.trans (List.foldr_ext _ _ _ fun d _ v => ?_) hvalue
      simp only [Nat.cast_id]
      omega
    · rw [List.length_reverse, Nat.digits_length_le_iff (by decide)]
      have := n.isLt
      omega

theorem emitByte_digits (b : Byte) : emitByte b = [b.toNat / 16, b.toNat % 16].map hexdig := by
  have hhi : (b >>> 4).toNat = b.toNat / 16 := by
    rw [BitVec.toNat_ushiftRight, Nat.shiftRight_eq_div_pow]
  have hlo : (b &&& 0x0F#8).toNat = b.toNat % 16 := by
    rw [BitVec.toNat_and]
    exact Nat.and_two_pow_sub_one_eq_mod b.toNat 4
  rw [emitByte, hhi, hlo]
  rfl

/-- What is no digit and no x: a space, or the end of the line. -/
def NumberEnd (c : Byte) : Prop := c = 0x20#8 ∨ c = 0x0A#8

theorem NumberEnd.none {c : Byte} (h : NumberEnd c) :
    digitOf 10 c = none ∧ digitOf 16 c = none ∧ lowerAscii c ≠ 0x78#8 := by
  rcases h with rfl | rfl <;> decide

theorem scanNumber_unsigned (n : BitVec 32) {c : Byte} (hc : NumberEnd c) (rest : CStr) :
    scanNumber 10 (0x20#8 :: (printUnsigned n.toNat ++ c :: rest)) = some (n, c :: rest) := by
  obtain ⟨ds, hprint, hds, hne, hvalue, -⟩ := printUnsigned_digits n
  have hsmall := n.isLt
  rw [hprint, scanNumber_digits (fun d hd => (hds d hd).trans (by decide))
    (fun d hd => hexdig_decimal d (hds d hd)) hne hc.none.1 hc.none.2.2 (by omega), hvalue,
    BitVec.ofNat_toNat, BitVec.setWidth_eq]

theorem scanNumber_byte (b : Byte) {c : Byte} (hc : NumberEnd c) (rest : CStr) :
    scanNumber 16 (0x20#8 :: (emitByte b ++ c :: rest)) = some (b.setWidth 32, c :: rest) := by
  have hb := b.isLt
  have hds : ∀ d ∈ [b.toNat / 16, b.toNat % 16], d < 16 := by
    simp only [List.mem_cons, List.not_mem_nil, or_false]
    omega
  have hvalue : [b.toNat / 16, b.toNat % 16].foldl (fun n d => n * 16 + d) 0 = b.toNat := by
    simp only [List.foldl_cons, List.foldl_nil]
    omega
  rw [emitByte_digits, scanNumber_digits hds (fun d hd => (hexdig_digit d (hds d hd)).1)
    (by simp) hc.none.2.1 hc.none.2.2 (by omega), hvalue, BitVec.ofNat_toNat]

/-- What follows the bytes is the end of the line. -/
theorem printBytes_head (bytes : List Byte) :
    ∃ c rest, printBytes bytes ++ [0x0A#8] = c :: rest ∧ NumberEnd c := by
  cases bytes with
  | nil => exact ⟨_, _, rfl, .inr rfl⟩
  | cons b bytes => exact ⟨_, _, rfl, .inl rfl⟩

theorem scanBytes_print (bytes : List Byte) :
    scanBytes bytes.length (printBytes bytes ++ [0x0A#8]) = some bytes := by
  induction bytes with
  | nil => rfl
  | cons b bytes ih =>
    obtain ⟨c, rest, hrest, hc⟩ := printBytes_head bytes
    have hline : printBytes (b :: bytes) ++ [0x0A#8] =
        0x20#8 :: (emitByte b ++ (printBytes bytes ++ [0x0A#8])) := by
      simp [printBytes]
    rw [hline, List.length_cons, scanBytes, hrest, scanNumber_byte b hc, ← hrest]
    have hb : (b.setWidth 32).setWidth 8 = b := by simp
    simp only [ih, hb, Option.map_some]

theorem scanEvent_line (e : MovieEvent) : scanEvent (movieLine e) = some e := by
  obtain ⟨c, rest, hrest, hc⟩ := printBytes_head (List.ofFn e.matrix)
  have hafter : afterWord (cstr "F") (movieLine e) =
      some (0x20#8 :: (printUnsigned e.frame.toNat ++
        (printBytes (List.ofFn e.matrix) ++ [0x0A#8]))) := by
    have hline : movieLine e = cstr "F" ++ 0x20#8 :: (printUnsigned e.frame.toNat ++
        (printBytes (List.ofFn e.matrix) ++ [0x0A#8])) := by
      rw [movieLine, List.append_assoc, List.append_assoc]
      rfl
    rw [hline]
    rfl
  have hbytes := scanBytes_print (List.ofFn e.matrix)
  rw [List.length_ofFn] at hbytes
  rw [scanEvent, hafter]
  simp only [hrest, scanNumber_unsigned e.frame hc]
  rw [← hrest, hbytes, Option.map_some]
  congr 2
  funext i
  rw [List.getD_eq_getElem?_getD, List.getElem?_ofFn, dif_pos i.isLt]
  rfl

/-- A line is text, and ends it. -/
structure MovieText (text : CStr) : Prop where
  plain : ∀ c ∈ text, c ≠ 0x0A#8 ∧ c ≠ 0#8
  short : text.length < 200

theorem MovieText.digits {ds : List Nat} (hds : ∀ d ∈ ds, d < 16) :
    ∀ c ∈ ds.map hexdig, c ≠ 0x0A#8 ∧ c ≠ 0#8 := by
  intro c hc
  obtain ⟨d, hd, rfl⟩ := List.mem_map.mp hc
  exact (hexdig_digit d (hds d hd)).2.2.2.2.2

theorem printUnsigned_text (n : BitVec 32) :
    (∀ c ∈ printUnsigned n.toNat, c ≠ 0x0A#8 ∧ c ≠ 0#8) ∧ (printUnsigned n.toNat).length ≤ 10 := by
  obtain ⟨ds, hprint, hds, -, -, hlen⟩ := printUnsigned_digits n
  rw [hprint, List.length_map]
  exact ⟨MovieText.digits fun d hd => (hds d hd).trans (by decide), hlen⟩

theorem printBytes_text (bytes : List Byte) :
    (∀ c ∈ printBytes bytes, c ≠ 0x0A#8 ∧ c ≠ 0#8) ∧
      (printBytes bytes).length = 3 * bytes.length := by
  induction bytes with
  | nil => exact ⟨fun c hc => (by cases hc), rfl⟩
  | cons b bytes ih =>
    have hline : printBytes (b :: bytes) = 0x20#8 :: (emitByte b ++ printBytes bytes) := rfl
    have hb := b.isLt
    have hdigits : ∀ c ∈ emitByte b, c ≠ 0x0A#8 ∧ c ≠ 0#8 := by
      rw [emitByte_digits]
      refine MovieText.digits ?_
      simp only [List.mem_cons, List.not_mem_nil, or_false]
      omega
    rw [hline]
    constructor
    · intro c hc
      rcases List.mem_cons.mp hc with rfl | hc
      · decide
      · exact (List.mem_append.mp hc).elim (hdigits c) (ih.1 c)
    · rw [List.length_cons, List.length_append, ih.2, emitByte_digits, List.length_map,
        List.length_cons]
      simp only [List.length_cons, List.length_nil]
      omega

/-- The text of a line. -/
theorem movieLine_text (e : MovieEvent) :
    ∃ text, movieLine e = text ++ [0x0A#8] ∧ text.head? = some 0x46#8 ∧ MovieText text := by
  obtain ⟨hframe, hframeLen⟩ := printUnsigned_text e.frame
  obtain ⟨hbytes, hbytesLen⟩ := printBytes_text (List.ofFn e.matrix)
  refine ⟨cstr "F " ++ printUnsigned e.frame.toNat ++ printBytes (List.ofFn e.matrix), rfl, rfl,
    ?_, ?_⟩
  · intro c hc
    rcases List.mem_append.mp hc with hc | hc
    · rcases List.mem_append.mp hc with hc | hc
      · exact (by decide : ∀ c ∈ cstr "F ", c ≠ 0x0A#8 ∧ c ≠ 0#8) c hc
      · exact hframe c hc
    · exact hbytes c hc
  · have htwo : (cstr "F ").length = 2 := rfl
    rw [List.length_append, List.length_append, htwo, hbytesLen, List.length_ofFn]
    omega

/-- A call of `fgets` reads the line, and nothing of it is cut. -/
theorem basicFgets_text {text : CStr} (htext : MovieText text) (rest : List Byte) :
    basicFgets 255 (text ++ 0x0A#8 :: rest) = (text ++ [0x0A#8], rest) ∧
      (text ++ [0x0A#8]).takeWhile (· != 0#8) = text ++ [0x0A#8] := by
  constructor
  · exact basicFgets_line rest (fun h => (htext.plain _ h).1 rfl)
      (htext.short.trans (by decide))
  · refine List.takeWhile_eq_self_iff.mpr fun c hc => bne_iff_ne.mpr ?_
    rcases List.mem_append.mp hc with hc | hc
    · exact (htext.plain c hc).2
    · rw [List.mem_singleton.mp hc]
      decide

/-! ## Loading -/

theorem movieReadLine_event (m : MovieReplay) (e : MovieEvent) :
    movieReadLine m (movieLine e) = moviePush m e := by
  obtain ⟨text, hline, hhead, -⟩ := movieLine_text e
  have hfirst : (movieLine e).head? = some 0x46#8 := by
    rw [hline, List.head?_append, hhead]
    rfl
  have hmodel : scanModel (movieLine e) = none := by
    have hnone : afterWord (cstr "model") (movieLine e) = none := rfl
    rw [scanModel, hnone]
  rw [movieReadLine, hfirst, if_neg (by decide), hmodel, scanEvent_line]

/-- A line is read, then the rest of the file. -/
theorem movieReadLines_line {text : CStr} (htext : MovieText text) (hne : text ≠ [])
    (rest : List Byte) (fuel : Nat) (m : MovieReplay) :
    movieReadLines (fuel + 1) (text ++ 0x0A#8 :: rest) m =
      match movieReadLine m (text ++ [0x0A#8]) with
      | none => none
      | some m => movieReadLines fuel rest m := by
  obtain ⟨hfgets, hwhole⟩ := basicFgets_text htext rest
  have hcall : movieReadLines (fuel + 1) (text ++ 0x0A#8 :: rest) m =
      match movieReadLine m ((basicFgets 255 (text ++ 0x0A#8 :: rest)).1.takeWhile (· != 0#8)) with
      | none => none
      | some m => movieReadLines fuel (basicFgets 255 (text ++ 0x0A#8 :: rest)).2 m := by
    obtain ⟨c, text', rfl⟩ := List.exists_cons_of_ne_nil hne
    rfl
  rw [hcall, hfgets]
  dsimp only
  rw [hwhole]

/-- Line by line, the events are added. -/
theorem movieReadLines_events (es : List MovieEvent) {fuel : Nat} {m : MovieReplay}
    (hfuel : (es.flatMap movieLine).length ≤ fuel) :
    movieReadLines fuel (es.flatMap movieLine) m = es.foldlM moviePush m := by
  induction es generalizing fuel m with
  | nil => cases fuel <;> rfl
  | cons e es ih =>
    obtain ⟨text, hline, hhead, htext⟩ := movieLine_text e
    have hne : text ≠ [] := by
      rintro rfl
      cases hhead
    have hbytes : (e :: es).flatMap movieLine = text ++ 0x0A#8 :: es.flatMap movieLine := by
      rw [List.flatMap_cons, hline, List.append_assoc]
      rfl
    rw [hbytes, List.length_append, List.length_cons] at hfuel
    obtain ⟨fuel, rfl⟩ := Nat.exists_eq_succ_of_ne_zero (n := fuel) (by omega)
    rw [hbytes, movieReadLines_line htext hne, ← hline, movieReadLine_event, List.foldlM_cons]
    cases moviePush m e with
    | none => rfl
    | some m => exact ih (by omega)

/-- The capacity is 0, or 256 doubled up to 23 times. -/
structure MovieRoom (m : MovieReplay) : Prop where
  cap : m.cap = 0#32 ∧ m.events = [] ∨ ∃ k ≤ 23, m.cap.toNat = 256 * 2 ^ k
  room : m.events.length ≤ m.cap.toNat

theorem moviePush_spec {m : MovieReplay} (hm : MovieRoom m) (e : MovieEvent) :
    if m.events.length < 2 ^ 31 then
      ∃ m', moviePush m e = some m' ∧ MovieRoom m' ∧ m'.events = m.events ++ [e] ∧
        m'.model = m.model ∧ m'.replayIdx = m.replayIdx ∧ m'.cur = m.cur
    else moviePush m e = none := by
  have hroom := hm.room
  have hbound : m.cap.toNat ≤ 2 ^ 31 := by
    rcases hm.cap with ⟨h, -⟩ | ⟨k, hk, h⟩
    · rw [h]
      decide
    · rw [h]
      exact (Nat.mul_le_mul_left 256 (Nat.pow_le_pow_right (by decide) hk)).trans (by decide)
  have hcount : (BitVec.ofNat 32 m.events.length).toNat = m.events.length := by
    rw [BitVec.toNat_ofNat]
    omega
  have hge : BitVec.ofNat 32 m.events.length ≥ m.cap ↔ m.events.length = m.cap.toNat := by
    rw [ge_iff_le, BitVec.le_def, hcount]
    omega
  -- the capacity after the event
  set cap := if BitVec.ofNat 32 m.events.length ≥ m.cap then
    if m.cap ≠ 0 then m.cap * 2 else 256 else m.cap with hcap
  have hpush : moviePush m e = if cap = 0 then none
      else some { m with cap := cap, events := m.events ++ [e], endFrame := e.frame } := rfl
  have hgrown : m.events.length < 2 ^ 31 → cap ≠ 0 ∧ (∃ k ≤ 23, cap.toNat = 256 * 2 ^ k) ∧
      m.events.length + 1 ≤ cap.toNat := by
    intro hlt
    rcases hm.cap with ⟨hzero, hnil⟩ | ⟨k, hk, hpow⟩
    · have hfirst : cap = 256 := by
        rw [hcap, hnil, hzero]
        rfl
      rw [hfirst, hnil]
      exact ⟨by decide, ⟨0, by decide, rfl⟩, by decide⟩
    · have hpos : 0 < 2 ^ k := Nat.two_pow_pos k
      have hne : m.cap ≠ 0#32 := by
        intro h
        rw [h] at hpow
        exact absurd hpow.symm (Nat.ne_of_gt (Nat.mul_pos (by decide) hpos))
      by_cases hlen : m.events.length = m.cap.toNat
      · have hdouble : cap = m.cap * 2 := by
          rw [hcap, if_pos (hge.mpr hlen)]
          exact if_pos hne
        have hless : k < 23 := by
          refine lt_of_not_ge fun hge => ?_
          have := Nat.pow_le_pow_right (n := 2) (by decide) hge
          omega
        have htwice : cap.toNat = 256 * 2 ^ (k + 1) := by
          have htwo : (2 : BitVec 32).toNat = 2 := rfl
          rw [hdouble, BitVec.toNat_mul, htwo, Nat.mod_eq_of_lt (by omega), hpow, Nat.pow_succ]
          omega
        refine ⟨fun h => ?_, ⟨k + 1, hless, htwice⟩, ?_⟩
        · rw [h] at htwice
          exact absurd htwice.symm (Nat.ne_of_gt (Nat.mul_pos (by decide) (Nat.two_pow_pos _)))
        · rw [htwice, Nat.pow_succ]
          omega
      · have hsame : cap = m.cap := by
          rw [hcap, if_neg (mt hge.mp hlen)]
        rw [hsame]
        exact ⟨hne, ⟨k, hk, hpow⟩, by omega⟩
  split
  next hlt =>
    obtain ⟨hne, hpow, hfits⟩ := hgrown hlt
    rw [hpush, if_neg hne]
    exact ⟨_, rfl, ⟨.inr hpow, by simpa using hfits⟩, rfl, rfl, rfl, rfl⟩
  next hfull =>
    rw [hpush, if_pos]
    have hcapEq : m.cap = BitVec.ofNat 32 (2 ^ 31) := by
      apply BitVec.eq_of_toNat_eq
      rw [BitVec.toNat_ofNat]
      omega
    have hlen : m.events.length = m.cap.toNat := by omega
    rw [hcap, if_pos (hge.mpr hlen), hcapEq]
    decide

/-- The events are all added if they are at most `2 ^ 31`, and not loaded otherwise. -/
theorem moviePush_all (es : List MovieEvent) {m : MovieReplay} (hm : MovieRoom m)
    (hle : m.events.length ≤ 2 ^ 31) :
    if m.events.length + es.length ≤ 2 ^ 31 then
      ∃ m', es.foldlM moviePush m = some m' ∧ m'.events = m.events ++ es ∧
        m'.model = m.model ∧ m'.replayIdx = m.replayIdx ∧ m'.cur = m.cur
    else es.foldlM moviePush m = none := by
  induction es generalizing m with
  | nil =>
    rw [List.length_nil, Nat.add_zero, if_pos hle]
    exact ⟨m, rfl, (List.append_nil _).symm, rfl, rfl, rfl⟩
  | cons e es ih =>
    have hstep := moviePush_spec hm e
    rw [List.foldlM_cons, List.length_cons]
    by_cases hlt : m.events.length < 2 ^ 31
    · rw [if_pos hlt] at hstep
      obtain ⟨m', hpush, hm', hevents, hmodel, hidx, hcur⟩ := hstep
      have hlen : m'.events.length = m.events.length + 1 := by simp [hevents]
      have hrest := ih hm' (hlen ▸ hlt)
      rw [hlen, Nat.add_assoc, Nat.add_comm 1] at hrest
      rw [hpush]
      split at hrest
      next hfits =>
        obtain ⟨m'', hall, hevents', hmodel', hidx', hcur'⟩ := hrest
        rw [if_pos hfits]
        refine ⟨m'', hall, ?_, hmodel'.trans hmodel, hidx'.trans hidx, hcur'.trans hcur⟩
        rw [hevents', hevents, List.append_assoc]
        rfl
      next hfull =>
        rw [if_neg hfull]
        exact hrest
    · rw [if_neg hlt] at hstep
      rw [if_neg (by omega), hstep]
      rfl

/-- The header gives the model, and the events are added after it. -/
theorem movieReplayOpen_record (model : Byte) (recorded : List MovieEvent) :
    movieReplayOpen (movieRecord model recorded) =
      (movieChanges none recorded).foldlM moviePush ⟨model, [], 0, 0, 0, movieReleased⟩ := by
  set events := (movieChanges none recorded).flatMap movieLine with hevents
  have hwide : model.toNat = (model.setWidth 32).toNat := by simp; omega
  obtain ⟨hdigits, hdigitsLen⟩ := printUnsigned_text (model.setWidth 32)
  rw [← hwide] at hdigits hdigitsLen
  have htext : MovieText (cstr "model " ++ printUnsigned model.toNat) := by
    constructor
    · intro c hc
      rcases List.mem_append.mp hc with hc | hc
      · exact (by decide : ∀ c ∈ cstr "model ", c ≠ 0x0A#8 ∧ c ≠ 0#8) c hc
      · exact hdigits c hc
    · have hsix : (cstr "model ").length = 6 := rfl
      rw [List.length_append, hsix]
      omega
  have hfile : movieRecord model recorded =
      movieMagic ++
        0x0A#8 :: ((cstr "model " ++ printUnsigned model.toNat) ++ 0x0A#8 :: events) := by
    rw [movieRecord_eq, movieRecordOpen, hevents]
    simp only [List.append_assoc, List.cons_append, List.nil_append]
  have hfgets := @basicFgets_line 255 movieMagic
    ((cstr "model " ++ printUnsigned model.toNat) ++ 0x0A#8 :: events) (by decide) (by decide)
  have hmagic : movieMagic.isPrefixOf (movieMagic ++ [0x0A#8]) = true := by decide
  have hmodel : scanModel ((cstr "model " ++ printUnsigned model.toNat) ++ [0x0A#8]) =
      some model := by
    have hafter : afterWord (cstr "model")
          ((cstr "model " ++ printUnsigned model.toNat) ++ [0x0A#8]) =
        some (0x20#8 :: (printUnsigned model.toNat ++ [0x0A#8])) := rfl
    rw [scanModel, hafter]
    dsimp only
    rw [hwide, scanNumber_unsigned _ (.inr rfl)]
    simp
  have hline : movieReadLine ⟨0, [], 0, 0, 0, movieReleased⟩
      ((cstr "model " ++ printUnsigned model.toNat) ++ [0x0A#8]) =
        some ⟨model, [], 0, 0, 0, movieReleased⟩ := by
    have hhead : ((cstr "model " ++ printUnsigned model.toNat) ++ [0x0A#8]).head? =
        some 0x6D#8 := rfl
    rw [movieReadLine, hhead, if_neg (by decide), hmodel]
  have hlen : ((cstr "model " ++ printUnsigned model.toNat) ++ 0x0A#8 :: events).length =
      (6 + (printUnsigned model.toNat).length + events.length) + 1 := by
    have hsix : (cstr "model ").length = 6 := rfl
    rw [List.length_append, List.length_append, List.length_cons, hsix, Nat.add_assoc _ _ 1]
  rw [movieReplayOpen, hfile, hfgets, if_pos hmagic]
  dsimp only
  rw [hlen, movieReadLines_line htext (List.cons_ne_nil _ _), hline]
  exact movieReadLines_events _ (Nat.le_add_left _ _)

/-- What a recording gives back. -/
theorem movie_replays_iff (model : Byte) {recorded : List MovieEvent}
    (hinc : MovieIncreasing recorded) :
    MovieReplays model recorded ↔ (movieChanges none recorded).length ≤ 2 ^ 31 := by
  have hload := moviePush_all (movieChanges none recorded)
    (m := ⟨model, [], 0, 0, 0, movieReleased⟩) ⟨.inl ⟨rfl, rfl⟩, Nat.zero_le _⟩ (Nat.zero_le _)
  rw [List.length_nil, Nat.zero_add] at hload
  rw [MovieReplays, movieReplayOpen_record]
  split at hload
  next hfits =>
    refine iff_of_true ?_ hfits
    obtain ⟨m, hm, hevents, hmodel, hidx, hcur⟩ := hload
    have hframes : ∀ frames : List (BitVec 32), frames.Pairwise (· ≤ ·) →
        movieReplay m frames = frames.map (matrixAt recorded) := fun frames =>
      movieReplay_matrices hinc hevents hidx hcur
    refine ⟨m, hm, hmodel, hframes, ?_⟩
    have hsorted : (recorded.map MovieEvent.frame).Pairwise (· ≤ ·) :=
      List.pairwise_map.mpr (hinc.imp fun h => BitVec.le_of_lt h)
    rw [hframes _ hsorted, List.map_map]
    exact List.map_congr_left fun e he => matrixAt_recorded hinc he
  next hfull =>
    refine iff_of_false ?_ hfull
    rintro ⟨m, hm, -⟩
    rw [hload] at hm
    cases hm

/-- Keys pressed in every other frame. -/
def movieBlink : Nat → Nat → List MovieEvent
  | 0, _ => []
  | n + 1, i =>
    ⟨BitVec.ofNat 32 i, fun _ => if i % 2 = 0 then 0xFF#8 else 0#8⟩ :: movieBlink n (i + 1)

theorem movie_replays_blink : MovieReplays 1#8 (movieBlink 3 5) := by
  have hinc : MovieIncreasing (movieBlink 3 5) := by
    rw [MovieIncreasing]
    decide
  have hfew : (movieChanges none (movieBlink 3 5)).length ≤ 2 ^ 31 := by decide
  exact (movie_replays_iff 1#8 hinc).mpr hfew

theorem movieBlink_frames {n i : Nat} (hn : i + n ≤ 2 ^ 32) {e : MovieEvent}
    (he : e ∈ movieBlink n i) : i ≤ e.frame.toNat := by
  induction n generalizing i with
  | zero => cases he
  | succ n ih =>
    rcases List.mem_cons.mp he with rfl | he
    · show i ≤ (BitVec.ofNat 32 i).toNat
      rw [BitVec.toNat_ofNat]
      omega
    · exact Nat.le_of_succ_le (ih (by omega) he)

theorem movieBlink_increasing {n i : Nat} (hn : i + n ≤ 2 ^ 32) :
    MovieIncreasing (movieBlink n i) := by
  induction n generalizing i with
  | zero => exact .nil
  | succ n ih =>
    refine List.pairwise_cons.mpr ⟨fun e he => ?_, ih (by omega)⟩
    have hframe := movieBlink_frames (by omega) he
    show BitVec.ofNat 32 i < e.frame
    rw [BitVec.lt_def, BitVec.toNat_ofNat]
    omega

/-- Every frame of it is a change. -/
theorem movieBlink_changes (n i : Nat) {last : Option MovieMatrix}
    (hlast : last ≠ some fun _ => if i % 2 = 0 then 0xFF#8 else 0#8) :
    (movieChanges last (movieBlink n i)).length = n := by
  induction n generalizing i last with
  | zero => rfl
  | succ n ih =>
    rw [movieBlink, movieChanges, if_neg hlast, List.length_cons, ih]
    intro h
    have hbyte := congrFun (Option.some.inj h) 0
    have hpar : (i + 1) % 2 = 0 ↔ ¬ i % 2 = 0 := by omega
    by_cases hi : i % 2 = 0
    · simp [hpar, hi] at hbyte
    · simp [hpar, hi] at hbyte

theorem not_movieReplays_blink (model : Byte) {n : Nat} (hn : 2 ^ 31 < n) :
    ¬ MovieReplays model (movieBlink n 0) := by
  rintro ⟨m, hm, -⟩
  have hload := moviePush_all (movieChanges none (movieBlink n 0))
    (m := ⟨model, [], 0, 0, 0, movieReleased⟩) ⟨.inl ⟨rfl, rfl⟩, Nat.zero_le _⟩ (Nat.zero_le _)
  rw [List.length_nil, Nat.zero_add, movieBlink_changes n 0 (Option.some_ne_none _).symm,
    if_neg (Nat.not_le.mpr hn)] at hload
  rw [movieReplayOpen_record, hload] at hm
  cases hm

/-- 497 days at 50 frames a second: the capacity wraps to 0. -/
theorem movie_too_long :
    MovieIncreasing (movieBlink (2 ^ 31 + 1) 0) ∧
      ¬ MovieReplays 1#8 (movieBlink (2 ^ 31 + 1) 0) :=
  ⟨movieBlink_increasing (by decide), not_movieReplays_blink 1#8 (Nat.lt_succ_self _)⟩

end Phosphoric
