import Phosphoric.Lib.Word

/-!
# From MFM_DISK to HFE

`src/tools/dsk2hfe.c` turns the bytes of a track into cells, two for a bit, clock and data, and
interleaves the sides of a track by 256 bytes.

**Theorem (`dsk2hfe_mfm`).** The data cells of a track are its bytes. A clock cell is set between two
zeros, but in the three bytes before an address mark, which have the patterns `0x4489` and `0x5224`;
two ones are never adjacent, and at most three zeros stand between two.
-/

open Function (update)

namespace Phosphoric

/-! ## Cells -/

abbrev mfmHdr : Nat := 256
abbrev mfmTrack : Nat := 6400
abbrev hfeBlock : Nat := 512

/-- A buffer, the position of the next cell and the last data bit. -/
structure MfmCells where
  buf : Nat → Byte
  pos : Nat
  prev : Bool

/-- `put_cell`. -/
def putCell (cell : Bool) (o : MfmCells) : MfmCells :=
  { o with
    buf :=
      if cell then update o.buf (o.pos / 8) (o.buf (o.pos / 8) ||| (1#8 <<< (o.pos % 8)))
      else o.buf
    pos := o.pos + 1 }

/-- `mfm_byte`. -/
def mfmByte (b : Byte) (o : MfmCells) : MfmCells :=
  [7, 6, 5, 4, 3, 2, 1, 0].foldl (fun o i =>
    let d := b.getLsbD i
    { putCell d (putCell (!o.prev && !d) o) with prev := d }) o

/-- `mfm_raw16`. -/
def mfmRaw16 (pat : Word) (lastData : Bool) (o : MfmCells) : MfmCells :=
  { [15, 14, 13, 12, 11, 10, 9, 8, 7, 6, 5, 4, 3, 2, 1, 0].foldl
      (fun o i => putCell (pat.getLsbD i) o) o with prev := lastData }

/-- What `spec` says of a byte. -/
inductive MfmKind
  | normal | a1 | c2
  deriving DecidableEq, Repr

/-- Three A1 before FE, FB or FF. -/
def mfmIsA1 (trk : Nat → Byte) (i : Nat) : Bool :=
  trk i == 0xA1#8 && trk (i + 1) == 0xA1#8 && trk (i + 2) == 0xA1#8 &&
    (trk (i + 3) == 0xFE#8 || trk (i + 3) == 0xFB#8 || trk (i + 3) == 0xFF#8)

/-- Three C2 before FC. -/
def mfmIsC2 (trk : Nat → Byte) (i : Nat) : Bool :=
  trk i == 0xC2#8 && trk (i + 1) == 0xC2#8 && trk (i + 2) == 0xC2#8 && trk (i + 3) == 0xFC#8

/-- The first loop of `encode_track`, on the first `n` bytes. -/
def mfmSpec (trk : Nat → Byte) (n : Nat) : Nat → MfmKind :=
  (List.range n).foldl (fun spec i =>
    if mfmIsA1 trk i then update (update (update spec i .a1) (i + 1) .a1) (i + 2) .a1
    else if mfmIsC2 trk i then update (update (update spec i .c2) (i + 1) .c2) (i + 2) .c2
    else spec) fun _ => .normal

/-- The cells of a byte of the track. -/
def mfmCells (kind : MfmKind) (b : Byte) (o : MfmCells) : MfmCells :=
  match kind with
  | .a1 => mfmRaw16 0x4489 true o
  | .c2 => mfmRaw16 0x5224 false o
  | .normal => mfmByte b o

/-- The second loop of `encode_track`, on the first `n` bytes. -/
def mfmEncode (trk : Nat → Byte) (spec : Nat → MfmKind) (n : Nat) : MfmCells :=
  (List.range n).foldl (fun o i => mfmCells (spec i) (trk i) o)
    { buf := fun _ => 0, pos := 0, prev := false }

/-- `encode_track`. -/
def encodeTrack (trk : Nat → Byte) : Nat → Byte :=
  (mfmEncode trk (mfmSpec trk (mfmTrack - 3)) mfmTrack).buf

/-! ## The file -/

/-- Why `dsk2hfe_check` turns an image down. -/
inductive Dsk2hfeError
  /-- `not an MFM_DISK .dsk`. -/
  | notMfmDisk
  /-- `implausible geometry`. -/
  | geometry (sides tracks : Nat)
  /-- `truncated image`. -/
  | truncated (size sides tracks need : Nat)
  deriving DecidableEq, Repr

/-- A 32-bit number, its lowest byte first. -/
def dskU32 (raw : List Byte) (i : Nat) : Nat :=
  (raw.getD i 0).toNat + 256 * ((raw.getD (i + 1) 0).toNat + 256 * ((raw.getD (i + 2) 0).toNat +
    256 * (raw.getD (i + 3) 0).toNat))

/-- `"MFM_DISK"`. -/
def dsk2hfeMagic : List Byte := [0x4D, 0x46, 0x4D, 0x5F, 0x44, 0x49, 0x53, 0x4B]

/-- `dsk2hfe_check`. -/
def dsk2hfeCheck (raw : List Byte) : Except Dsk2hfeError (Nat × Nat) :=
  if raw.length ≤ mfmHdr ∨ raw.take 8 ≠ dsk2hfeMagic then .error .notMfmDisk
  else
    let sides := dskU32 raw 8
    let tracks := dskU32 raw 12
    if sides < 1 ∨ sides > 2 ∨ tracks < 1 ∨ tracks > 84 then .error (.geometry sides tracks)
    else
      let need := mfmHdr + sides * tracks * mfmTrack
      if raw.length < need then .error (.truncated raw.length sides tracks need)
      else .ok (sides, tracks)

/-- `wr16`. -/
def wr16 (v : Nat) : List Byte := [BitVec.ofNat 8 v, BitVec.ofNat 8 (v / 256)]

/-- What `dsk2hfe_convert` writes: a header, the table of the tracks, and a block for each track. -/
structure HfeFile where
  header : List Byte
  lut : List Byte
  blocks : List (List Byte)

/-- Block 0. -/
def hfeHeader (sides tracks bitrate rpm : Nat) : List Byte :=
  [0x48, 0x58, 0x43, 0x50, 0x49, 0x43, 0x46, 0x45] ++
    [0, BitVec.ofNat 8 tracks, BitVec.ofNat 8 sides, 0x00] ++ wr16 bitrate ++ wr16 rpm ++
    [0x00, 1] ++ wr16 1 ++ List.replicate 492 0xFF#8

/-- Block 1: 50 blocks for each track from block 2 on. -/
def hfeLut (tracks : Nat) : List Byte :=
  ((List.range tracks).flatMap fun t => wr16 (2 + t * 50) ++ wr16 25600) ++
    List.replicate (hfeBlock - 4 * tracks) 0xFF#8

/-- `memcpy` to a place of a buffer. -/
def copyTo (dst : Nat → Byte) (place : Nat) (src : Nat → Byte) (len : Nat) : Nat → Byte :=
  fun j => if place ≤ j ∧ j < place + len then src (j - place) else dst j

/-- The first `n` chunks of a block, over what the memory held. -/
def hfeInterleave (memory s0 s1 : Nat → Byte) (n : Nat) : Nat → Byte :=
  (List.range n).foldl (fun blk k =>
    copyTo (copyTo blk (k * hfeBlock) (fun j => s0 (k * 256 + j)) 256) (k * hfeBlock + 256)
      (fun j => s1 (k * 256 + j)) 256) memory

/-- The bytes of an image from a place on. -/
def rawFrom (raw : List Byte) (off : Nat) : Nat → Byte := fun n => raw.getD (off + n) 0

/-- Where the bytes of a track are. -/
def mfmTrackAt (tracks side track : Nat) : Nat := mfmHdr + (side * tracks + track) * mfmTrack

/-- The block of a track. -/
def hfeTrack (memory : Nat → Byte) (raw : List Byte) (sides tracks track : Nat) : List Byte :=
  let s0 := encodeTrack (rawFrom raw (mfmTrackAt tracks 0 track))
  let s1 := if sides = 2 then encodeTrack (rawFrom raw (mfmTrackAt tracks 1 track)) else fun _ => 0
  (List.range 25600).map (hfeInterleave memory s0 s1 50)

/-- `dsk2hfe_convert`, where the memory is given and the file is written. -/
def dsk2hfeConvert (memory : Nat → Byte) (raw : List Byte) (bitrate rpm : Nat) :
    Except Dsk2hfeError HfeFile :=
  match dsk2hfeCheck raw with
  | .error e => .error e
  | .ok (sides, tracks) =>
    .ok { header := hfeHeader sides tracks bitrate rpm
          lut := hfeLut tracks
          blocks := (List.range tracks).map (hfeTrack memory raw sides tracks) }

/-! ## Reading -/

/-- A cell of a buffer, the lowest bit of a byte first. -/
def cellAt (buf : Nat → Byte) (i : Nat) : Bool := (buf (i / 8)).getLsbD (i % 8)

/-- A cell of a side of a block: of each 512 bytes, 256 are of a side. -/
def hfeCell (block : List Byte) (side i : Nat) : Bool :=
  cellAt (fun p => block.getD (p / 256 * hfeBlock + side * 256 + p % 256) 0) i

/-- A byte of an A1 mark. -/
def InA1 (trk : Nat → Byte) (n : Nat) : Prop :=
  ∃ i, i ≤ n ∧ n < i + 3 ∧ i + 3 < mfmTrack ∧ mfmIsA1 trk i = true

/-- A byte of a C2 mark. -/
def InC2 (trk : Nat → Byte) (n : Nat) : Prop :=
  ∃ i, i ≤ n ∧ n < i + 3 ∧ i + 3 < mfmTrack ∧ mfmIsC2 trk i = true

/-- Cells that are the MFM code of a track. Of any four in a row one is set, so that at most three
zeros separate two ones. -/
structure IsMfm (trk : Nat → Byte) (cell : Nat → Bool) : Prop where
  data : ∀ n < mfmTrack, ∀ j < 8, cell (16 * n + 2 * j + 1) = (trk n).getLsbD (7 - j)
  clock : ∀ n < mfmTrack, ¬InA1 trk n → ¬InC2 trk n → ∀ j < 8, cell (16 * n + 2 * j) =
    (!(decide (0 < 16 * n + 2 * j) && cell (16 * n + 2 * j - 1)) && !cell (16 * n + 2 * j + 1))
  a1 : ∀ n < mfmTrack, InA1 trk n → ∀ k < 16, cell (16 * n + k) = (0x4489#16).getLsbD (15 - k)
  c2 : ∀ n < mfmTrack, InC2 trk n → ∀ k < 16, cell (16 * n + k) = (0x5224#16).getLsbD (15 - k)
  apart : ∀ i, i + 1 < 16 * mfmTrack → cell i = true → cell (i + 1) = false
  close : ∀ i, i + 4 ≤ 16 * mfmTrack →
    cell i = true ∨ cell (i + 1) = true ∨ cell (i + 2) = true ∨ cell (i + 3) = true

/-! ## Writing cells -/

/-- Nothing is written from the position on. -/
def MfmCells.Clear (o : MfmCells) : Prop := ∀ i, o.pos ≤ i → cellAt o.buf i = false

theorem putCell_cell {o : MfmCells} (h : o.Clear) (cell : Bool) (i : Nat) :
    cellAt (putCell cell o).buf i = if i = o.pos then cell else cellAt o.buf i := by
  cases cell with
  | false =>
    by_cases hi : i = o.pos
    · rw [if_pos hi]
      exact h i hi.ge
    · rw [if_neg hi]
      rfl
  | true =>
    show (update o.buf (o.pos / 8) _ (i / 8)).getLsbD (i % 8) = _
    by_cases hbyte : i / 8 = o.pos / 8
    · rw [hbyte, Function.update_self, BitVec.getLsbD_or, BitVec.getLsbD_shiftLeft]
      have hold : (o.buf (o.pos / 8)).getLsbD (i % 8) = cellAt o.buf i := by
        rw [cellAt, hbyte]
      rw [hold]
      by_cases hi : i = o.pos
      · have hlt : o.pos % 8 < 8 := Nat.mod_lt _ (by decide)
        rw [hi, if_pos rfl]
        simp [hlt]
      · have hne : i % 8 ≠ o.pos % 8 := by omega
        rw [if_neg hi]
        by_cases hlow : i % 8 < o.pos % 8
        · simp [hlow]
        · have hone : (1#8).getLsbD (i % 8 - o.pos % 8) = false := by
            rw [BitVec.getLsbD_one]
            simp only [Bool.and_eq_false_iff, decide_eq_false_iff_not]
            exact Or.inr (by omega)
          rw [hone, Bool.and_false, Bool.or_false]
    · have hi : i ≠ o.pos := fun heq => hbyte (by rw [heq])
      rw [Function.update_of_ne hbyte, if_neg hi]
      rfl

theorem putCell_clear {o : MfmCells} (h : o.Clear) (cell : Bool) : (putCell cell o).Clear := by
  intro i hi
  have hlt : o.pos + 1 ≤ i := hi
  rw [putCell_cell h, if_neg (by omega)]
  exact h i (by omega)

/-- Cells written one after the other. -/
def putCells (cells : List Bool) (o : MfmCells) : MfmCells := cells.foldl (fun o c => putCell c o) o

theorem putCells_spec (cells : List Bool) {o : MfmCells} (h : o.Clear) :
    (putCells cells o).Clear ∧ (putCells cells o).pos = o.pos + cells.length ∧
      ∀ i, cellAt (putCells cells o).buf i =
        if o.pos ≤ i then cells.getD (i - o.pos) false else cellAt o.buf i := by
  induction cells generalizing o with
  | nil =>
    refine ⟨h, rfl, fun i => ?_⟩
    split_ifs with hi
    · exact h i hi
    · rfl
  | cons c cells ih =>
    obtain ⟨hclear, hpos, hcell⟩ := ih (putCell_clear h c)
    refine ⟨hclear, ?_, fun i => ?_⟩
    · show (putCells cells (putCell c o)).pos = _
      rw [hpos, List.length_cons]
      show o.pos + 1 + cells.length = _
      omega
    · show cellAt (putCells cells (putCell c o)).buf i = _
      rw [hcell i, putCell_cell h]
      show (if o.pos + 1 ≤ i then cells.getD (i - (o.pos + 1)) false else _) = _
      obtain hlt | rfl | hgt := Nat.lt_trichotomy i o.pos
      · rw [if_neg (by omega), if_neg (by omega), if_neg (by omega)]
      · rw [if_neg (by omega), if_pos rfl, if_pos le_rfl, Nat.sub_self]
        rfl
      · rw [if_pos (by omega), if_pos (by omega),
          show i - o.pos = (i - (o.pos + 1)) + 1 by omega, List.getD_cons_succ]

/-- The cells of a bit after another. -/
def bitCells (prev d : Bool) : List Bool := [!prev && !d, d]

def bitsCells (prev : Bool) : List Bool → List Bool
  | [] => []
  | d :: ds => bitCells prev d ++ bitsCells d ds

/-- The bits of a byte, the highest first. -/
def byteBits (b : Byte) : List Bool := [7, 6, 5, 4, 3, 2, 1, 0].map b.getLsbD

/-- The cells of a byte after a bit. -/
def kindCells (kind : MfmKind) (prev : Bool) (b : Byte) : List Bool :=
  match kind with
  | .normal => bitsCells prev (byteBits b)
  | .a1 => [15, 14, 13, 12, 11, 10, 9, 8, 7, 6, 5, 4, 3, 2, 1, 0].map (0x4489#16).getLsbD
  | .c2 => [15, 14, 13, 12, 11, 10, 9, 8, 7, 6, 5, 4, 3, 2, 1, 0].map (0x5224#16).getLsbD

theorem kindCells_length (kind : MfmKind) (prev : Bool) (b : Byte) :
    (kindCells kind prev b).length = 16 := by
  cases kind <;> rfl

/-- The kind of a byte agrees with the byte. -/
def MfmKind.Fits (kind : MfmKind) (b : Byte) : Prop :=
  (kind = .a1 → b = 0xA1#8) ∧ (kind = .c2 → b = 0xC2#8)

/-- The last bit is not looked at by `put_cell`. -/
theorem putCells_prev (cells : List Bool) (o : MfmCells) (prev : Bool) :
    putCells cells { o with prev := prev } = { putCells cells o with prev := prev } := by
  induction cells generalizing o with
  | nil => rfl
  | cons c cells ih => exact ih (putCell c o)

/-- Bits written one after the other, with the clock of each. -/
theorem foldl_bits (ds : List Bool) (o : MfmCells) :
    ds.foldl (fun o d => { putCell d (putCell (!o.prev && !d) o) with prev := d }) o =
      { putCells (bitsCells o.prev ds) o with prev := ds.getLast?.getD o.prev } := by
  induction ds generalizing o with
  | nil => rfl
  | cons d ds ih =>
    rw [List.foldl_cons, ih]
    dsimp only
    rw [putCells_prev, List.getLast?_cons, Option.getD_some]
    rfl

theorem mfmByte_eq (b : Byte) (o : MfmCells) :
    mfmByte b o = { putCells (bitsCells o.prev (byteBits b)) o with prev := b.getLsbD 0 } := by
  have h := foldl_bits (byteBits b) o
  rw [byteBits, List.foldl_map] at h
  exact h

theorem mfmCells_eq {kind : MfmKind} {b : Byte} (hfits : kind.Fits b) (o : MfmCells) :
    mfmCells kind b o =
      { putCells (kindCells kind o.prev b) o with prev := b.getLsbD 0 } := by
  cases kind with
  | normal => exact mfmByte_eq b o
  | a1 =>
    rw [hfits.1 rfl]
    rfl
  | c2 =>
    rw [hfits.2 rfl]
    rfl

/-- The last bit before a byte. -/
def bitBefore (trk : Nat → Byte) : Nat → Bool
  | 0 => false
  | n + 1 => (trk n).getLsbD 0

theorem mfmEncode_spec {trk : Nat → Byte} {spec : Nat → MfmKind} (hfits : ∀ n, (spec n).Fits (trk n))
    (n : Nat) :
    (mfmEncode trk spec n).Clear ∧ (mfmEncode trk spec n).pos = 16 * n ∧
      (mfmEncode trk spec n).prev = bitBefore trk n ∧
      ∀ i < 16 * n, cellAt (mfmEncode trk spec n).buf i =
        (kindCells (spec (i / 16)) (bitBefore trk (i / 16)) (trk (i / 16))).getD (i % 16) false := by
  induction n with
  | zero =>
    refine ⟨fun i _ => ?_, rfl, rfl, fun i hi => absurd hi (by omega)⟩
    show (0#8).getLsbD (i % 8) = false
    exact BitVec.getLsbD_zero
  | succ n ih =>
    obtain ⟨hclear, hpos, hprev, hcell⟩ := ih
    have hstep : mfmEncode trk spec (n + 1) =
        { putCells (kindCells (spec n) (bitBefore trk n) (trk n)) (mfmEncode trk spec n) with
          prev := (trk n).getLsbD 0 } := by
      have hfold : mfmEncode trk spec (n + 1) =
          mfmCells (spec n) (trk n) (mfmEncode trk spec n) := by
        unfold mfmEncode
        rw [List.range_succ, List.foldl_append]
        rfl
      rw [hfold, mfmCells_eq (hfits n), hprev]
    obtain ⟨hclear', hpos', hcell'⟩ :=
      putCells_spec (kindCells (spec n) (bitBefore trk n) (trk n)) hclear
    rw [kindCells_length, hpos] at hpos'
    rw [hpos] at hcell'
    rw [hstep]
    refine ⟨hclear', hpos'.trans (by omega), rfl, fun i hi => ?_⟩
    show cellAt (putCells _ _).buf i = _
    rw [hcell' i]
    by_cases hnew : 16 * n ≤ i
    · rw [if_pos hnew, show i / 16 = n by omega, show i - 16 * n = i % 16 by omega]
    · rw [if_neg hnew]
      exact hcell i (by omega)

/-! ## Marks -/

theorem mfmIsA1_bytes {trk : Nat → Byte} {i n : Nat} (h : mfmIsA1 trk i = true) (hlo : i ≤ n)
    (hhi : n < i + 3) : trk n = 0xA1#8 := by
  simp only [mfmIsA1, Bool.and_eq_true, beq_iff_eq] at h
  obtain rfl | rfl | rfl : n = i ∨ n = i + 1 ∨ n = i + 2 := by omega
  · exact h.1.1.1
  · exact h.1.1.2
  · exact h.1.2

theorem mfmIsC2_bytes {trk : Nat → Byte} {i n : Nat} (h : mfmIsC2 trk i = true) (hlo : i ≤ n)
    (hhi : n < i + 3) : trk n = 0xC2#8 := by
  simp only [mfmIsC2, Bool.and_eq_true, beq_iff_eq] at h
  obtain rfl | rfl | rfl : n = i ∨ n = i + 1 ∨ n = i + 2 := by omega
  · exact h.1.1.1
  · exact h.1.1.2
  · exact h.1.2

/-- Three places set to a value. -/
theorem update_three (spec : Nat → MfmKind) (i : Nat) (kind : MfmKind) (n : Nat) :
    update (update (update spec i kind) (i + 1) kind) (i + 2) kind n =
      if i ≤ n ∧ n < i + 3 then kind else spec n := by
  simp only [Function.update_apply]
  split_ifs <;> first | rfl | omega

theorem mfmSpec_iff (trk : Nat → Byte) (m n : Nat) :
    (mfmSpec trk m n = .a1 ↔ ∃ i < m, i ≤ n ∧ n < i + 3 ∧ mfmIsA1 trk i = true) ∧
      (mfmSpec trk m n = .c2 ↔ ∃ i < m, i ≤ n ∧ n < i + 3 ∧ mfmIsC2 trk i = true) := by
  induction m with
  | zero =>
    refine ⟨iff_of_false (by simp [mfmSpec]) ?_, iff_of_false (by simp [mfmSpec]) ?_⟩
    · rintro ⟨i, hi, -⟩
      omega
    · rintro ⟨i, hi, -⟩
      omega
  | succ m ih =>
    obtain ⟨iha, ihc⟩ := ih
    have hstep : mfmSpec trk (m + 1) n =
        if mfmIsA1 trk m = true ∧ m ≤ n ∧ n < m + 3 then .a1
        else if mfmIsC2 trk m = true ∧ m ≤ n ∧ n < m + 3 then .c2 else mfmSpec trk m n := by
      unfold mfmSpec
      rw [List.range_succ, List.foldl_append, List.foldl_cons, List.foldl_nil]
      cases hA : mfmIsA1 trk m with
      | true =>
        have hC : mfmIsC2 trk m = false := by
          refine Bool.eq_false_iff.mpr fun hC => ?_
          exact absurd ((mfmIsA1_bytes hA le_rfl (by omega)).symm.trans
            (mfmIsC2_bytes hC le_rfl (by omega))) (by decide)
        simp only [if_true, update_three, true_and, hC, Bool.false_eq_true, false_and, if_false]
      | false =>
        simp only [Bool.false_eq_true, if_false, false_and]
        cases mfmIsC2 trk m with
        | true => simp only [if_true, update_three, true_and]
        | false => simp only [Bool.false_eq_true, if_false, false_and]
    have hlast : ∀ P : Nat → Prop, (∃ i < m + 1, P i) ↔ P m ∨ ∃ i < m, P i := by
      intro P
      constructor
      · rintro ⟨i, hi, hP⟩
        obtain hlt | rfl := Nat.lt_succ_iff_lt_or_eq.mp hi
        · exact Or.inr ⟨i, hlt, hP⟩
        · exact Or.inl hP
      · rintro (hP | ⟨i, hi, hP⟩)
        · exact ⟨m, Nat.lt_succ_self m, hP⟩
        · exact ⟨i, Nat.lt_succ_of_lt hi, hP⟩
    have hapart : ∀ i j, i ≤ n → n < i + 3 → mfmIsA1 trk i = true → j ≤ n → n < j + 3 →
        mfmIsC2 trk j = true → False := by
      intro i j hi hi' hA hj hj' hC
      exact absurd ((mfmIsA1_bytes hA hi hi').symm.trans (mfmIsC2_bytes hC hj hj')) (by decide)
    rw [hstep, hlast, hlast, ← iha, ← ihc]
    by_cases hA : mfmIsA1 trk m = true ∧ m ≤ n ∧ n < m + 3
    · rw [if_pos hA]
      refine ⟨iff_of_true rfl (Or.inl ⟨hA.2.1, hA.2.2, hA.1⟩), iff_of_false nofun ?_⟩
      rintro (⟨hlo, hhi, hC⟩ | hold)
      · exact hapart m m hA.2.1 hA.2.2 hA.1 hlo hhi hC
      · obtain ⟨j, -, hlo, hhi, hC⟩ := ihc.mp hold
        exact hapart m j hA.2.1 hA.2.2 hA.1 hlo hhi hC
    rw [if_neg hA]
    have hnoA : ¬(m ≤ n ∧ n < m + 3 ∧ mfmIsA1 trk m = true) :=
      fun h => hA ⟨h.2.2, h.1, h.2.1⟩
    by_cases hC : mfmIsC2 trk m = true ∧ m ≤ n ∧ n < m + 3
    · rw [if_pos hC]
      refine ⟨iff_of_false nofun ?_, iff_of_true rfl (Or.inl ⟨hC.2.1, hC.2.2, hC.1⟩)⟩
      rintro (h | hold)
      · exact hnoA h
      · obtain ⟨j, -, hlo, hhi, hA'⟩ := iha.mp hold
        exact hapart j m hlo hhi hA' hC.2.1 hC.2.2 hC.1
    rw [if_neg hC]
    have hnoC : ¬(m ≤ n ∧ n < m + 3 ∧ mfmIsC2 trk m = true) :=
      fun h => hC ⟨h.2.2, h.1, h.2.1⟩
    exact ⟨(or_iff_right hnoA).symm, (or_iff_right hnoC).symm⟩

/-! ## A track -/

/-- The kinds of the bytes of a track. -/
abbrev trackKind (trk : Nat → Byte) : Nat → MfmKind := mfmSpec trk (mfmTrack - 3)

theorem trackKind_a1 (trk : Nat → Byte) (n : Nat) : trackKind trk n = .a1 ↔ InA1 trk n := by
  rw [(mfmSpec_iff trk _ n).1]
  constructor
  · rintro ⟨i, hi, hlo, hhi, h⟩
    exact ⟨i, hlo, hhi, by omega, h⟩
  · rintro ⟨i, hlo, hhi, hi, h⟩
    exact ⟨i, by omega, hlo, hhi, h⟩

theorem trackKind_c2 (trk : Nat → Byte) (n : Nat) : trackKind trk n = .c2 ↔ InC2 trk n := by
  rw [(mfmSpec_iff trk _ n).2]
  constructor
  · rintro ⟨i, hi, hlo, hhi, h⟩
    exact ⟨i, hlo, hhi, by omega, h⟩
  · rintro ⟨i, hlo, hhi, hi, h⟩
    exact ⟨i, by omega, hlo, hhi, h⟩

theorem trackKind_fits (trk : Nat → Byte) (n : Nat) : (trackKind trk n).Fits (trk n) := by
  constructor
  · intro h
    obtain ⟨i, hlo, hhi, -, hA⟩ := (trackKind_a1 trk n).mp h
    exact mfmIsA1_bytes hA hlo hhi
  · intro h
    obtain ⟨i, hlo, hhi, -, hC⟩ := (trackKind_c2 trk n).mp h
    exact mfmIsC2_bytes hC hlo hhi

/-- A cell of a byte, after a bit. -/
def kindCell (kind : MfmKind) (prev : Bool) (b : Byte) (k : Nat) : Bool :=
  (kindCells kind prev b).getD k false

theorem encodeTrack_cell (trk : Nat → Byte) {n k : Nat} (hn : n < mfmTrack) (hk : k < 16) :
    cellAt (encodeTrack trk) (16 * n + k) = kindCell (trackKind trk n) (bitBefore trk n) (trk n) k := by
  have hcell := (mfmEncode_spec (trackKind_fits trk) mfmTrack).2.2.2 (16 * n + k) (by omega)
  rw [show (16 * n + k) / 16 = n by omega, show (16 * n + k) % 16 = k by omega] at hcell
  exact hcell

/-- The data cells of a byte. -/
theorem kindCell_data {kind : MfmKind} {b : Byte} (hfits : kind.Fits b) (prev : Bool) {j : Nat}
    (hj : j < 8) : kindCell kind prev b (2 * j + 1) = b.getLsbD (7 - j) := by
  cases kind with
  | normal => interval_cases j <;> rfl
  | a1 =>
    rw [hfits.1 rfl]
    interval_cases j <;> rfl
  | c2 =>
    rw [hfits.2 rfl]
    interval_cases j <;> rfl

/-- The bit before a bit of a byte. -/
def bitInto (prev : Bool) (b : Byte) (j : Nat) : Bool :=
  if j = 0 then prev else b.getLsbD (8 - j)

theorem kindCell_clock (prev : Bool) (b : Byte) {j : Nat} (hj : j < 8) :
    kindCell .normal prev b (2 * j) = (!bitInto prev b j && !b.getLsbD (7 - j)) := by
  interval_cases j <;> rfl

/-- A clock cell of a mark is set where the rule sets it, or not at all. -/
theorem kindCell_clock_le {kind : MfmKind} {b : Byte} (hfits : kind.Fits b) (prev : Bool) {j : Nat}
    (hj : j < 8) (hset : kindCell kind prev b (2 * j) = true) :
    bitInto prev b j = false ∧ b.getLsbD (7 - j) = false := by
  cases kind with
  | normal =>
    rw [kindCell_clock prev b hj] at hset
    simpa using hset
  | a1 =>
    have hmark : ∀ prev, ∀ j < 8, kindCell .a1 prev 0xA1 (2 * j) = true →
        bitInto prev 0xA1 j = false ∧ (0xA1#8).getLsbD (7 - j) = false := by decide
    rw [hfits.1 rfl]
    exact hmark prev j hj hset
  | c2 =>
    have hmark : ∀ prev, ∀ j < 8, kindCell .c2 prev 0xC2 (2 * j) = true →
        bitInto prev 0xC2 j = false ∧ (0xC2#8).getLsbD (7 - j) = false := by decide
    rw [hfits.2 rfl]
    exact hmark prev j hj hset

/-- Of four cells of a byte one is set, and of its last three. -/
theorem kindCell_window {kind : MfmKind} {b : Byte} (hfits : kind.Fits b) (prev : Bool) {k : Nat}
    (hk : k < 14) :
    kindCell kind prev b k = true ∨ kindCell kind prev b (k + 1) = true ∨
      kindCell kind prev b (k + 2) = true ∨ kindCell kind prev b (k + 3) = true := by
  cases kind with
  | normal =>
    have hnormal : ∀ b : Byte, ∀ prev, ∀ k < 14, kindCell .normal prev b k = true ∨
        kindCell .normal prev b (k + 1) = true ∨ kindCell .normal prev b (k + 2) = true ∨
          kindCell .normal prev b (k + 3) = true := by
      decide +kernel
    exact hnormal b prev k hk
  | a1 =>
    have hmark : ∀ k < 14, kindCell .a1 false 0xA1 k = true ∨
        kindCell .a1 false 0xA1 (k + 1) = true ∨ kindCell .a1 false 0xA1 (k + 2) = true ∨
          kindCell .a1 false 0xA1 (k + 3) = true := by decide
    exact hmark k hk
  | c2 =>
    have hmark : ∀ k < 14, kindCell .c2 false 0xC2 k = true ∨
        kindCell .c2 false 0xC2 (k + 1) = true ∨ kindCell .c2 false 0xC2 (k + 2) = true ∨
          kindCell .c2 false 0xC2 (k + 3) = true := by decide
    exact hmark k hk

/-- After a zero, one of the first two cells of a byte is set. -/
theorem kindCell_first {kind : MfmKind} {b : Byte} (hfits : kind.Fits b) :
    kindCell kind false b 0 = true ∨ kindCell kind false b 1 = true := by
  have hdata := kindCell_data hfits false (j := 0) (by decide)
  cases kind with
  | normal =>
    have hclock := kindCell_clock false b (j := 0) (by decide)
    rw [show 2 * 0 = 0 from rfl] at hclock
    rw [show 2 * 0 + 1 = 1 from rfl] at hdata
    rw [hclock, hdata, show bitInto false b 0 = false from rfl]
    cases b.getLsbD (7 - 0) <;> decide
  | a1 => exact Or.inr rfl
  | c2 => exact Or.inr rfl

section Track

variable (trk : Nat → Byte)

/-- The data cell before a clock cell. -/
theorem encodeTrack_before {n j : Nat} (hn : n < mfmTrack) (hj : j < 8) :
    (decide (0 < 16 * n + 2 * j) && cellAt (encodeTrack trk) (16 * n + 2 * j - 1)) =
      bitInto (bitBefore trk n) (trk n) j := by
  unfold bitInto
  split_ifs with hfirst
  · subst hfirst
    cases n with
    | zero => rfl
    | succ n =>
      have hcell := encodeTrack_cell trk (n := n) (k := 15) (by omega) (by decide)
      rw [show 16 * (n + 1) + 2 * 0 - 1 = 16 * n + 15 by omega, hcell,
        show 15 = 2 * 7 + 1 from rfl, kindCell_data (trackKind_fits trk n) _ (by decide),
        decide_eq_true (by omega), Bool.true_and]
      rfl
  · have hcell := encodeTrack_cell trk (k := 2 * (j - 1) + 1) hn (by omega)
    rw [show 16 * n + 2 * j - 1 = 16 * n + (2 * (j - 1) + 1) by omega, hcell,
      kindCell_data (trackKind_fits trk n) _ (by omega), decide_eq_true (by omega), Bool.true_and,
      show 7 - (j - 1) = 8 - j by omega]

/-- The cells of a track are its MFM code. -/
theorem encodeTrack_mfm : IsMfm trk (cellAt (encodeTrack trk)) where
  data n hn j hj := by
    rw [show 16 * n + 2 * j + 1 = 16 * n + (2 * j + 1) by omega,
      encodeTrack_cell trk hn (by omega)]
    exact kindCell_data (trackKind_fits trk n) _ hj
  clock n hn hA hC j hj := by
    have hkind : trackKind trk n = .normal := by
      cases hkind : trackKind trk n with
      | normal => rfl
      | a1 => exact absurd ((trackKind_a1 trk n).mp hkind) hA
      | c2 => exact absurd ((trackKind_c2 trk n).mp hkind) hC
    have hdata := encodeTrack_cell trk (k := 2 * j + 1) hn (by omega)
    rw [kindCell_data (trackKind_fits trk n) _ hj] at hdata
    rw [encodeTrack_before trk hn hj, encodeTrack_cell trk hn (by omega), hkind,
      kindCell_clock _ _ hj, show 16 * n + 2 * j + 1 = 16 * n + (2 * j + 1) by omega, hdata]
  a1 n hn hA k hk := by
    rw [encodeTrack_cell trk hn hk, (trackKind_a1 trk n).mpr hA]
    interval_cases k <;> rfl
  c2 n hn hC k hk := by
    rw [encodeTrack_cell trk hn hk, (trackKind_c2 trk n).mpr hC]
    interval_cases k <;> rfl
  apart i hi hset := by
    by_contra hnext
    rw [Bool.not_eq_false] at hnext
    have hn : (i + 1) / 16 < mfmTrack := by omega
    have hfits := trackKind_fits trk ((i + 1) / 16)
    obtain hodd | heven : (i + 1) % 2 = 1 ∨ (i + 1) % 2 = 0 := by omega
    · have hclock := encodeTrack_cell trk (k := 2 * ((i + 1) % 16 / 2)) hn (by omega)
      have hdata := encodeTrack_cell trk (k := 2 * ((i + 1) % 16 / 2) + 1) hn (by omega)
      rw [show 16 * ((i + 1) / 16) + 2 * ((i + 1) % 16 / 2) = i by omega, hset] at hclock
      rw [show 16 * ((i + 1) / 16) + (2 * ((i + 1) % 16 / 2) + 1) = i + 1 by omega, hnext,
        kindCell_data hfits _ (by omega)] at hdata
      have hzero := (kindCell_clock_le hfits _ (by omega) hclock.symm).2
      exact absurd (hdata.trans hzero) (by decide)
    · have hclock := encodeTrack_cell trk (k := 2 * ((i + 1) % 16 / 2)) hn (by omega)
      have hplace : 16 * ((i + 1) / 16) + 2 * ((i + 1) % 16 / 2) = i + 1 := by omega
      rw [hplace, hnext] at hclock
      have hzero := (kindCell_clock_le hfits _ (by omega) hclock.symm).1
      have hbefore := encodeTrack_before trk hn (j := (i + 1) % 16 / 2) (by omega)
      rw [hplace, hzero, Nat.add_sub_cancel, hset, decide_eq_true (by omega)] at hbefore
      exact absurd hbefore (by decide)
  close i hi := by
    have hn : i / 16 < mfmTrack := by omega
    have hfits := trackKind_fits trk (i / 16)
    have hin : ∀ k, i % 16 + k < 16 → cellAt (encodeTrack trk) (i + k) =
        kindCell (trackKind trk (i / 16)) (bitBefore trk (i / 16)) (trk (i / 16)) (i % 16 + k) := by
      intro k hk
      rw [← encodeTrack_cell trk hn hk, show 16 * (i / 16) + (i % 16 + k) = i + k by omega]
    have h0 := hin 0 (by omega)
    rw [Nat.add_zero, Nat.add_zero] at h0
    by_cases hfar : i % 16 < 13
    · rw [h0, hin 1 (by omega), hin 2 (by omega), hin 3 (by omega)]
      exact kindCell_window hfits _ (by omega)
    by_cases hthree : i % 16 = 13
    · have hlast := kindCell_window hfits (bitBefore trk (i / 16)) (k := 13) (by decide)
      have hend : kindCell (trackKind trk (i / 16)) (bitBefore trk (i / 16)) (trk (i / 16))
          (13 + 3) = false := by
        unfold kindCell
        rw [List.getD_eq_getElem?_getD, List.getElem?_eq_none (by rw [kindCells_length])]
        rfl
      rw [hend] at hlast
      rw [h0, hin 1 (by omega), hin 2 (by omega), hthree]
      obtain h | h | h | h := hlast
      · exact Or.inl h
      · exact Or.inr (Or.inl h)
      · exact Or.inr (Or.inr (Or.inl h))
      · exact absurd h (by decide)
    -- the last data cell of the byte, and the first two cells of the next one
    have hnext : i / 16 + 1 < mfmTrack := by omega
    have hbit := encodeTrack_cell trk (k := 15) hn (by decide)
    rw [show 15 = 2 * 7 + 1 from rfl, kindCell_data hfits _ (by decide)] at hbit
    have hfirst := kindCell_first (trackKind_fits trk (i / 16 + 1))
    have hclock := encodeTrack_cell trk (k := 0) hnext (by decide)
    have hdata := encodeTrack_cell trk (k := 1) hnext (by decide)
    cases hlast : (trk (i / 16)).getLsbD (7 - 7) with
    | true =>
      rw [hlast] at hbit
      obtain h14 | h15 : i % 16 = 14 ∨ i % 16 = 15 := by omega
      · rw [show 16 * (i / 16) + (2 * 7 + 1) = i + 1 by omega] at hbit
        exact Or.inr (Or.inl hbit)
      · rw [show 16 * (i / 16) + (2 * 7 + 1) = i by omega] at hbit
        exact Or.inl hbit
    | false =>
      rw [show bitBefore trk (i / 16 + 1) = false from hlast] at hclock hdata
      obtain h14 | h15 : i % 16 = 14 ∨ i % 16 = 15 := by omega
      · rw [show 16 * (i / 16 + 1) + 0 = i + 2 by omega] at hclock
        rw [show 16 * (i / 16 + 1) + 1 = i + 3 by omega] at hdata
        rw [hclock, hdata]
        exact Or.inr (Or.inr hfirst)
      · rw [show 16 * (i / 16 + 1) + 0 = i + 1 by omega] at hclock
        rw [show 16 * (i / 16 + 1) + 1 = i + 2 by omega] at hdata
        rw [hclock, hdata]
        obtain h | h := hfirst
        · exact Or.inr (Or.inl h)
        · exact Or.inr (Or.inr (Or.inl h))

end Track

/-- The cells of a track are what matters. -/
theorem IsMfm.congr {trk : Nat → Byte} {cell cell' : Nat → Bool} (h : IsMfm trk cell)
    (heq : ∀ i < 16 * mfmTrack, cell' i = cell i) : IsMfm trk cell' where
  data n hn j hj := (heq _ (by omega)).trans (h.data n hn j hj)
  clock n hn hA hC j hj := by
    rw [heq _ (by omega), heq _ (by omega), heq _ (by omega)]
    exact h.clock n hn hA hC j hj
  a1 n hn hA k hk := (heq _ (by omega)).trans (h.a1 n hn hA k hk)
  c2 n hn hC k hk := (heq _ (by omega)).trans (h.c2 n hn hC k hk)
  apart i hi hset := by
    rw [heq _ hi]
    exact h.apart i hi ((heq i (by omega)).symm.trans hset)
  close i hi := by
    rw [heq _ (by omega), heq _ (by omega), heq _ (by omega), heq _ (by omega)]
    exact h.close i hi

/-! ## The block -/

theorem hfeInterleave_chunk (memory s0 s1 : Nat → Byte) (n k j : Nat) (hk : k < n) (hj : j < 256) :
    hfeInterleave memory s0 s1 n (k * hfeBlock + j) = s0 (k * 256 + j) ∧
      hfeInterleave memory s0 s1 n (k * hfeBlock + 256 + j) = s1 (k * 256 + j) := by
  induction n with
  | zero => omega
  | succ n ih =>
    have hstep : hfeInterleave memory s0 s1 (n + 1) =
        copyTo (copyTo (hfeInterleave memory s0 s1 n) (n * hfeBlock) (fun j => s0 (n * 256 + j)) 256)
          (n * hfeBlock + 256) (fun j => s1 (n * 256 + j)) 256 := by
      unfold hfeInterleave
      rw [List.range_succ, List.foldl_append]
      rfl
    rw [hstep]
    unfold copyTo
    simp only [hfeBlock] at ih ⊢
    obtain hlt | rfl := Nat.lt_succ_iff_lt_or_eq.mp hk
    · obtain ⟨h0, h1⟩ := ih hlt
      rw [if_neg (by omega), if_neg (by omega), if_neg (by omega), if_neg (by omega)]
      exact ⟨h0, h1⟩
    · rw [if_neg (by omega), if_pos (by omega), if_pos (by omega)]
      constructor
      · rw [show k * hfeBlock + j - k * hfeBlock = j by omega]
      · rw [show k * hfeBlock + 256 + j - (k * hfeBlock + 256) = j by omega]

/-- The cells of a side of a block are those of the side. -/
theorem hfeCell_interleave (memory s0 s1 : Nat → Byte) {i : Nat} (hi : i < 16 * mfmTrack) :
    hfeCell ((List.range 25600).map (hfeInterleave memory s0 s1 50)) 0 i = cellAt s0 i ∧
      hfeCell ((List.range 25600).map (hfeInterleave memory s0 s1 50)) 1 i = cellAt s1 i := by
  have hget : ∀ p < 25600, ((List.range 25600).map (hfeInterleave memory s0 s1 50)).getD p 0 =
      hfeInterleave memory s0 s1 50 p := by
    intro p hp
    rw [List.getD_eq_getElem?_getD, List.getElem?_map, List.getElem?_range hp]
    rfl
  have hcells : 16 * mfmTrack = 102400 := rfl
  obtain ⟨h0, h1⟩ := hfeInterleave_chunk memory s0 s1 50 (i / 8 / 256) (i / 8 % 256) (by omega)
    (Nat.mod_lt _ (by decide))
  rw [show i / 8 / 256 * 256 + i / 8 % 256 = i / 8 by omega] at h0 h1
  unfold hfeCell cellAt
  simp only [hfeBlock] at h0 h1 ⊢
  rw [hget _ (by omega), hget _ (by omega), Nat.zero_mul, Nat.one_mul, Nat.add_zero, h0, h1]
  exact ⟨rfl, rfl⟩

theorem dsk2hfeCheck_ok {raw : List Byte} {sides tracks : Nat}
    (h : dsk2hfeCheck raw = .ok (sides, tracks)) :
    1 ≤ sides ∧ sides ≤ 2 ∧ mfmHdr + sides * tracks * mfmTrack ≤ raw.length := by
  unfold dsk2hfeCheck at h
  dsimp only at h
  split_ifs at h with hmagic hgeometry hsize
  obtain ⟨rfl, rfl⟩ := Prod.mk.inj (Except.ok.inj h)
  exact ⟨by omega, by omega, by omega⟩

/-- The bytes of a track are in the file. -/
theorem mfmTrackAt_le {sides tracks side track len : Nat} (hside : side < sides)
    (htrack : track < tracks) (hlen : mfmHdr + sides * tracks * mfmTrack ≤ len) :
    mfmTrackAt tracks side track + mfmTrack ≤ len := by
  have hnext : side * tracks + track + 1 ≤ sides * tracks := by
    have hmul := Nat.mul_le_mul_right tracks (Nat.succ_le_of_lt hside)
    rw [Nat.succ_mul] at hmul
    omega
  have hbytes := Nat.mul_le_mul_right mfmTrack hnext
  rw [Nat.succ_mul] at hbytes
  unfold mfmTrackAt
  omega

/-- Every side of every track of an image that is taken is converted to its MFM code, and no byte
is read that the image does not have. -/
theorem dsk2hfe_mfm (memory : Nat → Byte) (raw : List Byte) (bitrate rpm : Nat)
    {sides tracks side track : Nat} (hcheck : dsk2hfeCheck raw = .ok (sides, tracks))
    (hside : side < sides) (htrack : track < tracks) :
    ∃ file block, dsk2hfeConvert memory raw bitrate rpm = .ok file ∧
      file.blocks.length = tracks ∧ file.blocks[track]? = some block ∧ block.length = 25600 ∧
      mfmTrackAt tracks side track + mfmTrack ≤ raw.length ∧
      IsMfm (rawFrom raw (mfmTrackAt tracks side track)) (hfeCell block side) := by
  obtain ⟨hlo, hhi, hlen⟩ := dsk2hfeCheck_ok hcheck
  have hconvert : dsk2hfeConvert memory raw bitrate rpm =
      .ok { header := hfeHeader sides tracks bitrate rpm
            lut := hfeLut tracks
            blocks := (List.range tracks).map (hfeTrack memory raw sides tracks) } := by
    unfold dsk2hfeConvert
    rw [hcheck]
  refine ⟨_, hfeTrack memory raw sides tracks track, hconvert, ?_, ?_, ?_,
    mfmTrackAt_le hside htrack hlen, ?_⟩
  · rw [List.length_map, List.length_range]
  · rw [List.getElem?_map, List.getElem?_range htrack]
    rfl
  · rw [hfeTrack, List.length_map, List.length_range]
  obtain rfl | rfl : side = 0 ∨ side = 1 := by omega
  · refine (encodeTrack_mfm _).congr fun i hi => ?_
    unfold hfeTrack
    exact (hfeCell_interleave memory _ _ hi).1
  · refine (encodeTrack_mfm _).congr fun i hi => ?_
    have hsides : sides = 2 := by omega
    unfold hfeTrack
    rw [if_pos hsides]
    exact (hfeCell_interleave memory _ _ hi).2

/-- A side of one track, all zeros. -/
def mfmBlank : List Byte :=
  dsk2hfeMagic ++ [1, 0, 0, 0, 1, 0, 0, 0] ++ List.replicate 6640 0x00#8

theorem dsk2hfe_mfm_blank :
    ∃ file block, dsk2hfeConvert (fun _ => 0) mfmBlank 250 300 = .ok file ∧
      file.blocks.length = 1 ∧ file.blocks[0]? = some block ∧ block.length = 25600 ∧
      mfmTrackAt 1 0 0 + mfmTrack ≤ mfmBlank.length ∧
      IsMfm (rawFrom mfmBlank (mfmTrackAt 1 0 0)) (hfeCell block 0) :=
  dsk2hfe_mfm (fun _ => 0) mfmBlank 250 300
    (show dsk2hfeCheck mfmBlank = .ok (1, 1) by decide +kernel) (by decide) (by decide)

end Phosphoric
