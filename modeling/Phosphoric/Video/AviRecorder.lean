import Phosphoric.Lib.Riff
import Phosphoric.Lib.Splice

/-!
# The AVI recorder

`src/video/avi_recorder.c`. `avi_recorder_open_av` writes a header whose sizes and totals are zero,
`avi_recorder_add_frame` and `avi_recorder_add_audio` each add a chunk and an entry of the index,
and `avi_recorder_close` writes the index and goes back to the places of the header. The JPEG
encoder is a parameter of each frame; writes and allocations succeed.

**Theorem (`aviRecorder_wellFormed`).** Whatever frames and samples are added, as long as the file
stays below 4 GiB it is one RIFF list of nested chunks, each entry of the index points at its
chunk, and the totals of the header are those of the chunks.
-/

namespace Phosphoric

open Riff (FourCc fourcc)

/-! ## The file -/

/-- A file open for writing. -/
structure AviFile where
  bytes : List Byte
  pos : Nat

namespace AviFile

/-- A file at its end. -/
def written (bytes : List Byte) : AviFile where
  bytes := bytes
  pos := bytes.length

def fwrite (fp : AviFile) (data : List Byte) : AviFile where
  bytes := Buffer.splice fp.bytes fp.pos data
  pos := fp.pos + data.length

end AviFile

/-- What `put_u16` writes. -/
def putU16 (v : BitVec 16) : List Byte := Binary.bytesLe 2 v

/-- What `put_u32` writes. -/
def putU32 (v : BitVec 32) : List Byte := Binary.bytesLe 4 v

/-- `patch_u32`. -/
def patchU32 (fp : AviFile) (pos : Nat) (v : BitVec 32) : AviFile :=
  { AviFile.fwrite { fp with pos := pos } (putU32 v) with pos := fp.pos }

/-! ## The header -/

/-- What a recorder is opened with. -/
structure AviParams where
  width : Int
  height : Int
  fps : Int
  quality : Int
  audioRate : Int
  audioChannels : Int
  deriving DecidableEq

/-- `has_audio`. -/
def AviParams.hasAudio (p : AviParams) : Bool :=
  decide (0 < p.audioRate) && decide (0 < p.audioChannels)

theorem AviParams.audioChannels_pos {p : AviParams} (h : p.hasAudio = true) :
    0 < p.audioChannels := by
  unfold AviParams.hasAudio at h
  exact of_decide_eq_true (Bool.and_eq_true_iff.mp h).2

/-- `block_align`. -/
def AviParams.blockAlign (p : AviParams) : BitVec 32 :=
  if p.hasAudio then .ofInt 32 (p.audioChannels * 2) else 0

/-- `avg_bps`. -/
def AviParams.avgBps (p : AviParams) : BitVec 32 :=
  if p.hasAudio then .ofInt 32 p.audioRate * p.blockAlign else 0

/-- The values of the header that `avi_recorder_close` patches. -/
structure AviPatches where
  riffSize : BitVec 32
  moviSize : BitVec 32
  avihTotalFrames : BitVec 32
  avihSuggBuf : BitVec 32
  strhLength : BitVec 32
  strhSuggBuf : BitVec 32
  audioStrhLength : BitVec 32
  audioStrhSuggBuf : BitVec 32

/-- The placeholders. -/
def AviPatches.zero : AviPatches := ⟨0, 0, 0, 0, 0, 0, 0, 0⟩

section Header

variable (p : AviParams) (t : AviPatches)

/-- The data of `avih`. -/
def aviAvih : List Byte :=
  [putU32 (.ofInt 32 (Int.tdiv 1000000 p.fps)), putU32 0, putU32 0, putU32 0x10,
    putU32 t.avihTotalFrames, putU32 0, putU32 (if p.hasAudio then 2 else 1),
    putU32 t.avihSuggBuf, putU32 (.ofInt 32 p.width), putU32 (.ofInt 32 p.height),
    putU32 0, putU32 0, putU32 0, putU32 0].flatten

/-- The data of the `strh` of the video. -/
def aviVideoStrh : List Byte :=
  [(fourcc 'v' 'i' 'd' 's').toList, (fourcc 'M' 'J' 'P' 'G').toList, putU32 0, putU16 0, putU16 0,
    putU32 0, putU32 1, putU32 (.ofInt 32 p.fps), putU32 0, putU32 t.strhLength,
    putU32 t.strhSuggBuf, putU32 0xFFFFFFFF, putU32 0, putU16 0, putU16 0,
    putU16 (.ofInt 16 p.width), putU16 (.ofInt 16 p.height)].flatten

/-- The data of the `strf` of the video. -/
def aviVideoStrf : List Byte :=
  [putU32 40, putU32 (.ofInt 32 p.width), putU32 (.ofInt 32 p.height), putU16 1, putU16 24,
    (fourcc 'M' 'J' 'P' 'G').toList, putU32 (.ofInt 32 (p.width * p.height * 3)), putU32 0,
    putU32 0, putU32 0, putU32 0].flatten

/-- The data of the `strh` of the sound. -/
def aviAudioStrh : List Byte :=
  [(fourcc 'a' 'u' 'd' 's').toList, putU32 1, putU32 0, putU16 0, putU16 0, putU32 0, putU32 1,
    putU32 (.ofInt 32 p.audioRate), putU32 0, putU32 t.audioStrhLength, putU32 t.audioStrhSuggBuf,
    putU32 0xFFFFFFFF, putU32 p.blockAlign, putU16 0, putU16 0, putU16 0, putU16 0].flatten

/-- The data of the `strf` of the sound. -/
def aviAudioStrf : List Byte :=
  [putU16 1, putU16 (.ofInt 16 p.audioChannels), putU32 (.ofInt 32 p.audioRate), putU32 p.avgBps,
    putU16 (p.blockAlign.setWidth 16), putU16 16, putU16 0].flatten

/-- The `strl` of the sound. -/
def aviAudioStrl : List Byte :=
  [(fourcc 'L' 'I' 'S' 'T').toList, putU32 94, (fourcc 's' 't' 'r' 'l').toList,
    (fourcc 's' 't' 'r' 'h').toList, putU32 56, aviAudioStrh p t,
    (fourcc 's' 't' 'r' 'f').toList, putU32 18, aviAudioStrf p].flatten

/-- What `avi_recorder_open_av` writes before the `movi` fourcc. -/
def aviHeader : List Byte :=
  [(fourcc 'R' 'I' 'F' 'F').toList, putU32 t.riffSize, (fourcc 'A' 'V' 'I' ' ').toList,
    (fourcc 'L' 'I' 'S' 'T').toList, putU32 (if p.hasAudio then 192 + 102 else 192),
    (fourcc 'h' 'd' 'r' 'l').toList,
    (fourcc 'a' 'v' 'i' 'h').toList, putU32 56, aviAvih p t,
    (fourcc 'L' 'I' 'S' 'T').toList, putU32 116, (fourcc 's' 't' 'r' 'l').toList,
    (fourcc 's' 't' 'r' 'h').toList, putU32 56, aviVideoStrh p t,
    (fourcc 's' 't' 'r' 'f').toList, putU32 40, aviVideoStrf p,
    if p.hasAudio then aviAudioStrl p t else [],
    (fourcc 'L' 'I' 'S' 'T').toList, putU32 t.moviSize].flatten

end Header

/-! ## The recorder -/

/-- `avi_index_entry_t`. -/
structure AviIndexEntry where
  offset : BitVec 32
  size : BitVec 32
  isAudio : Bool

/-- `avi_recorder_t`, its index a list. -/
structure AviRecorder where
  fp : AviFile
  params : AviParams
  frameCount : BitVec 32
  maxJpegSize : BitVec 32
  moviPos : Nat
  index : List AviIndexEntry
  audioFrames : BitVec 32
  maxAudioChunk : BitVec 32

/-- `avi_recorder_open_av`, on a file that can be written. -/
def aviRecorderOpenAv (p : AviParams) : Option AviRecorder :=
  if p.width ≤ 0 ∨ p.height ≤ 0 ∨ p.fps ≤ 0 then none
  else
    let fp := (AviFile.written []).fwrite (aviHeader p .zero)
    some
      { fp := fp.fwrite (fourcc 'm' 'o' 'v' 'i').toList
        params := { p with quality := max 1 (min 100 p.quality) }
        frameCount := 0
        maxJpegSize := 0
        moviPos := fp.pos
        index := []
        audioFrames := 0
        maxAudioChunk := 0 }

/-- The fourcc of a chunk of the sound or of the video. -/
def aviChunkId (isAudio : Bool) : FourCc :=
  if isAudio then fourcc '0' '1' 'w' 'b' else fourcc '0' '0' 'd' 'c'

/-- A chunk of `len` bytes and its entry of the index. -/
def aviPutChunk (isAudio : Bool) (data : List Byte) (len : BitVec 32) (rec : AviRecorder) :
    AviRecorder :=
  let fp := ((rec.fp.fwrite (aviChunkId isAudio).toList).fwrite (putU32 len)).fwrite data
  { rec with
    index := rec.index ++
      [{ offset := .ofNat 32 (rec.fp.pos - rec.moviPos), size := len, isAudio := isAudio }]
    fp := if len &&& 1 = 1 then fp.fwrite [0] else fp }

/-- `avi_recorder_add_frame`, on what the encoder makes of the picture. -/
def aviRecorderAddFrame (jpeg : Option (List Byte)) (rec : AviRecorder) : Bool × AviRecorder :=
  match jpeg with
  | none => (false, rec)
  | some jpeg =>
    let jlen : BitVec 32 := .ofNat 32 jpeg.length
    let added := aviPutChunk false (jpeg.take jlen.toNat) jlen rec
    (true,
      { added with
        maxJpegSize := if jlen > rec.maxJpegSize then jlen else rec.maxJpegSize
        frameCount := rec.frameCount + 1 })

/-- `avi_recorder_add_audio`; `samples` are the bytes from the pointer on, `none` for `NULL`. -/
def aviRecorderAddAudio (samples : Option (Nat → Byte)) (nframes : Int) (rec : AviRecorder) :
    Bool × AviRecorder :=
  if rec.params.hasAudio then
    match samples with
    | none => (true, rec)
    | some samples =>
      if nframes ≤ 0 then (true, rec)
      else
        let bytes : BitVec 32 := .ofInt 32 nframes * .ofInt 32 (rec.params.audioChannels * 2)
        let added := aviPutChunk true ((List.range bytes.toNat).map samples) bytes rec
        (true,
          { added with
            maxAudioChunk := if bytes > rec.maxAudioChunk then bytes else rec.maxAudioChunk
            audioFrames := rec.audioFrames + .ofInt 32 nframes })
  else (true, rec)

/-- What `avi_recorder_close` writes of an entry of the index. -/
def AviIndexEntry.bytes (entry : AviIndexEntry) : List Byte :=
  (aviChunkId entry.isAudio).toList ++ putU32 (if entry.isAudio then 0 else 0x10) ++
    putU32 entry.offset ++ putU32 entry.size

abbrev aviRiffSizePos : Nat := 4
abbrev aviAvihTotalFramesPos : Nat := 12 + 8 + 4 + 8 + 16
abbrev aviAvihSuggBufPos : Nat := aviAvihTotalFramesPos + 12
abbrev aviStrhDataPos : Nat := 12 + 8 + 4 + 64 + 12 + 8
abbrev aviStrhLengthPos : Nat := aviStrhDataPos + 32
abbrev aviStrhSuggBufPos : Nat := aviStrhDataPos + 36
abbrev aviAudioStrhDataPos : Nat := aviStrhDataPos + 56 + 8 + 40 + 12 + 8
abbrev aviAudioStrhLengthPos : Nat := aviAudioStrhDataPos + 32
abbrev aviAudioStrhSuggBufPos : Nat := aviAudioStrhDataPos + 36

/-- `avi_recorder_close`: the file it leaves. -/
def aviRecorderClose (rec : AviRecorder) : List Byte :=
  let moviSize : BitVec 32 := .ofNat 32 (rec.fp.pos - rec.moviPos)
  let fp := rec.fp.fwrite (fourcc 'i' 'd' 'x' '1').toList
  let fp := fp.fwrite (putU32 (.ofNat 32 rec.index.length * 16))
  let fp := rec.index.foldl (fun fp entry => fp.fwrite entry.bytes) fp
  let fp := patchU32 fp aviRiffSizePos (.ofNat 32 (fp.pos - 8))
  let fp := patchU32 fp (rec.moviPos - 4) moviSize
  let fp := patchU32 fp aviAvihTotalFramesPos rec.frameCount
  let fp := patchU32 fp aviAvihSuggBufPos rec.maxJpegSize
  let fp := patchU32 fp aviStrhLengthPos rec.frameCount
  let fp := patchU32 fp aviStrhSuggBufPos rec.maxJpegSize
  let fp :=
    if rec.params.hasAudio then
      patchU32 (patchU32 fp aviAudioStrhLengthPos rec.audioFrames) aviAudioStrhSuggBufPos
        rec.maxAudioChunk
    else fp
  fp.bytes

inductive AviOp
  | frame (jpeg : Option (List Byte))
  | audio (samples : Option (Nat → Byte)) (nframes : Int)

def aviStep (rec : AviRecorder) : AviOp → AviRecorder
  | .frame jpeg => (aviRecorderAddFrame jpeg rec).2
  | .audio samples nframes => (aviRecorderAddAudio samples nframes rec).2

/-! ## A well-formed file -/

/-- A chunk of the `movi` list. -/
structure AviChunk where
  isAudio : Bool
  data : List Byte

def AviChunk.bytes (c : AviChunk) : List Byte := Riff.chunk (aviChunkId c.isAudio) c.data

/-- The chunk a call is to add: the picture, or the samples where the file has sound. -/
def AviOp.chunk (p : AviParams) : AviOp → Option AviChunk
  | .frame jpeg => jpeg.map fun jpeg => { isAudio := false, data := jpeg }
  | .audio samples nframes =>
    if p.hasAudio ∧ 0 < nframes then
      samples.map fun samples =>
        { isAudio := true
          data := (List.range (nframes.toNat * (2 * p.audioChannels.toNat))).map samples }
    else none

def aviChunks (p : AviParams) (ops : List AviOp) : List AviChunk := ops.filterMap (AviOp.chunk p)

/-- The index of chunks, the first at an offset. -/
def aviIndexFrom : Nat → List AviChunk → List AviIndexEntry
  | _, [] => []
  | offset, c :: chunks =>
    { offset := .ofNat 32 offset, size := .ofNat 32 c.data.length, isAudio := c.isAudio } ::
      aviIndexFrom (offset + c.bytes.length) chunks

/-- The index of a file: the first chunk follows the `movi` fourcc. -/
def aviIndex (chunks : List AviChunk) : List AviIndexEntry := aviIndexFrom 4 chunks

/-- The chunks of the header. -/
def aviHdrl (p : AviParams) (t : AviPatches) : List Byte :=
  Riff.list (fourcc 'L' 'I' 'S' 'T') (fourcc 'h' 'd' 'r' 'l')
    (Riff.chunk (fourcc 'a' 'v' 'i' 'h') (aviAvih p t) ++
      Riff.list (fourcc 'L' 'I' 'S' 'T') (fourcc 's' 't' 'r' 'l')
        (Riff.chunk (fourcc 's' 't' 'r' 'h') (aviVideoStrh p t) ++
          Riff.chunk (fourcc 's' 't' 'r' 'f') (aviVideoStrf p)) ++
      if p.hasAudio then
        Riff.list (fourcc 'L' 'I' 'S' 'T') (fourcc 's' 't' 'r' 'l')
          (Riff.chunk (fourcc 's' 't' 'r' 'h') (aviAudioStrh p t) ++
            Riff.chunk (fourcc 's' 't' 'r' 'f') (aviAudioStrf p))
      else [])

/-- A file of chunks. -/
def aviLayout (p : AviParams) (t : AviPatches) (chunks : List AviChunk) : List Byte :=
  Riff.list (fourcc 'R' 'I' 'F' 'F') (fourcc 'A' 'V' 'I' ' ')
    (aviHdrl p t ++
      Riff.list (fourcc 'L' 'I' 'S' 'T') (fourcc 'm' 'o' 'v' 'i') (chunks.flatMap AviChunk.bytes) ++
      Riff.chunk (fourcc 'i' 'd' 'x' '1') ((aviIndex chunks).flatMap AviIndexEntry.bytes))

/-- The place of the `movi` fourcc. -/
def aviMoviPos (p : AviParams) : Nat := if p.hasAudio then 322 else 220

/-- The entry points at the chunk. -/
def AviIndexEntry.Points (p : AviParams) (file : List Byte) (entry : AviIndexEntry)
    (c : AviChunk) : Prop :=
  entry.isAudio = c.isAudio ∧ entry.size.toNat = c.data.length ∧
    Buffer.slice file (aviMoviPos p + entry.offset.toNat) (8 + c.data.length) =
      (aviChunkId c.isAudio).toList ++ putU32 entry.size ++ c.data

/-- The bytes of the sound. -/
def aviAudioBytes (chunks : List AviChunk) : Nat :=
  ((chunks.filter AviChunk.isAudio).map fun c => c.data.length).sum

/-- The size of a file of chunks. -/
def aviSize (p : AviParams) (chunks : List AviChunk) : Nat :=
  aviMoviPos p + 4 + (chunks.flatMap AviChunk.bytes).length + 8 + 16 * chunks.length

/-- A file of nested chunks, laid out as `avi_recorder.c` says, its index and its totals those of
the chunks. -/
structure AviWellFormed (p : AviParams) (chunks : List AviChunk) (file : List Byte) : Prop where
  tiles : Riff.Tiles file
  length : file.length = aviSize p chunks
  layout : ∃ t, file = aviLayout p t chunks ∧
    t.avihTotalFrames.toNat = chunks.countP (fun c => !c.isAudio) ∧
    t.strhLength.toNat = chunks.countP (fun c => !c.isAudio) ∧
    (p.hasAudio → t.audioStrhLength.toNat * (2 * p.audioChannels.toNat) = aviAudioBytes chunks)
  index : List.Forall₂ (AviIndexEntry.Points p file) (aviIndex chunks) chunks

/-! ## Lengths and places -/

@[simp] theorem putU16_length (v : BitVec 16) : (putU16 v).length = 2 := Binary.bytesLe_length ..

@[simp] theorem putU32_length (v : BitVec 32) : (putU32 v).length = 4 := Binary.bytesLe_length ..

@[simp] theorem aviAvih_length (p : AviParams) (t : AviPatches) : (aviAvih p t).length = 56 := by
  simp [aviAvih]

@[simp] theorem aviVideoStrh_length (p : AviParams) (t : AviPatches) :
    (aviVideoStrh p t).length = 56 := by
  simp [aviVideoStrh]

@[simp] theorem aviVideoStrf_length (p : AviParams) : (aviVideoStrf p).length = 40 := by
  simp [aviVideoStrf]

@[simp] theorem aviAudioStrh_length (p : AviParams) (t : AviPatches) :
    (aviAudioStrh p t).length = 56 := by
  simp [aviAudioStrh]

@[simp] theorem aviAudioStrf_length (p : AviParams) : (aviAudioStrf p).length = 18 := by
  simp [aviAudioStrf]

theorem aviHeader_length (p : AviParams) (t : AviPatches) :
    (aviHeader p t).length = aviMoviPos p := by
  unfold aviHeader aviMoviPos
  cases p.hasAudio <;> simp [aviAudioStrl]

/-- The header, write by write. -/
theorem aviHeader_eq (p : AviParams) (t : AviPatches) (rest : List Byte) :
    aviHeader p t ++ rest =
      (fourcc 'R' 'I' 'F' 'F').toList ++ (putU32 t.riffSize ++ ((fourcc 'A' 'V' 'I' ' ').toList ++
        ((fourcc 'L' 'I' 'S' 'T').toList ++ (putU32 (if p.hasAudio then 192 + 102 else 192) ++
        ((fourcc 'h' 'd' 'r' 'l').toList ++
        ((fourcc 'a' 'v' 'i' 'h').toList ++ (putU32 56 ++ (aviAvih p t ++
        ((fourcc 'L' 'I' 'S' 'T').toList ++ (putU32 116 ++ ((fourcc 's' 't' 'r' 'l').toList ++
        ((fourcc 's' 't' 'r' 'h').toList ++ (putU32 56 ++ (aviVideoStrh p t ++
        ((fourcc 's' 't' 'r' 'f').toList ++ (putU32 40 ++ (aviVideoStrf p ++
        ((if p.hasAudio then aviAudioStrl p t else []) ++
        ((fourcc 'L' 'I' 'S' 'T').toList ++ (putU32 t.moviSize ++ rest)))))))))))))))))))) := by
  simp only [aviHeader, List.flatten_cons, List.flatten_nil, List.append_nil, List.append_assoc]

section Patches

variable (p : AviParams) (t : AviPatches) (rest : List Byte) (v : BitVec 32)

theorem patch_riffSize :
    Buffer.splice (aviHeader p t ++ rest) aviRiffSizePos (putU32 v) =
      aviHeader p { t with riffSize := v } ++ rest := by
  rw [aviHeader_eq, aviHeader_eq]
  simp [Buffer.splice_skip, Buffer.splice_here, aviAvih, aviVideoStrh, aviAudioStrl, aviAudioStrh,
    aviRiffSizePos]

theorem patch_avihTotalFrames :
    Buffer.splice (aviHeader p t ++ rest) aviAvihTotalFramesPos (putU32 v) =
      aviHeader p { t with avihTotalFrames := v } ++ rest := by
  rw [aviHeader_eq, aviHeader_eq]
  simp [Buffer.splice_skip, Buffer.splice_here, aviAvih, aviVideoStrh, aviAudioStrl, aviAudioStrh,
    aviAvihTotalFramesPos]

theorem patch_avihSuggBuf :
    Buffer.splice (aviHeader p t ++ rest) aviAvihSuggBufPos (putU32 v) =
      aviHeader p { t with avihSuggBuf := v } ++ rest := by
  rw [aviHeader_eq, aviHeader_eq]
  simp [Buffer.splice_skip, Buffer.splice_here, aviAvih, aviVideoStrh, aviAudioStrl, aviAudioStrh,
    aviAvihSuggBufPos, aviAvihTotalFramesPos]

theorem patch_strhLength :
    Buffer.splice (aviHeader p t ++ rest) aviStrhLengthPos (putU32 v) =
      aviHeader p { t with strhLength := v } ++ rest := by
  rw [aviHeader_eq, aviHeader_eq]
  simp [Buffer.splice_skip, Buffer.splice_here, aviAvih, aviVideoStrh, aviAudioStrl, aviAudioStrh,
    aviStrhLengthPos, aviStrhDataPos]

theorem patch_strhSuggBuf :
    Buffer.splice (aviHeader p t ++ rest) aviStrhSuggBufPos (putU32 v) =
      aviHeader p { t with strhSuggBuf := v } ++ rest := by
  rw [aviHeader_eq, aviHeader_eq]
  simp [Buffer.splice_skip, Buffer.splice_here, aviAvih, aviVideoStrh, aviAudioStrl, aviAudioStrh,
    aviStrhSuggBufPos, aviStrhDataPos]

theorem patch_moviSize :
    Buffer.splice (aviHeader p t ++ rest) (aviMoviPos p - 4) (putU32 v) =
      aviHeader p { t with moviSize := v } ++ rest := by
  rw [aviHeader_eq, aviHeader_eq]
  cases hp : p.hasAudio <;>
    simp [hp, Buffer.splice_skip, Buffer.splice_here, aviAvih, aviVideoStrh, aviAudioStrl,
      aviAudioStrh, aviMoviPos]

variable {p} (hp : p.hasAudio = true)

include hp

theorem patch_audioStrhLength :
    Buffer.splice (aviHeader p t ++ rest) aviAudioStrhLengthPos (putU32 v) =
      aviHeader p { t with audioStrhLength := v } ++ rest := by
  rw [aviHeader_eq, aviHeader_eq]
  simp [hp, Buffer.splice_skip, Buffer.splice_here, aviAvih, aviVideoStrh, aviAudioStrl,
    aviAudioStrh, aviAudioStrhLengthPos, aviAudioStrhDataPos, aviStrhDataPos]

theorem patch_audioStrhSuggBuf :
    Buffer.splice (aviHeader p t ++ rest) aviAudioStrhSuggBufPos (putU32 v) =
      aviHeader p { t with audioStrhSuggBuf := v } ++ rest := by
  rw [aviHeader_eq, aviHeader_eq]
  simp [hp, Buffer.splice_skip, Buffer.splice_here, aviAvih, aviVideoStrh, aviAudioStrl,
    aviAudioStrh, aviAudioStrhSuggBufPos, aviAudioStrhDataPos, aviStrhDataPos]

end Patches

/-! ## Writing -/

namespace AviFile

theorem fwrite_written (bytes data : List Byte) :
    (written bytes).fwrite data = written (bytes ++ data) := by
  have hend : Buffer.splice bytes bytes.length data = bytes ++ data := by
    rw [Buffer.splice, List.take_length, List.drop_eq_nil_of_le (Nat.le_add_right ..),
      List.append_nil]
  unfold fwrite written
  rw [hend, List.length_append]

theorem patchU32_written {bytes : List Byte} {pos : Nat} (h : pos + 4 ≤ bytes.length)
    (v : BitVec 32) :
    patchU32 (written bytes) pos v = written (Buffer.splice bytes pos (putU32 v)) := by
  have hlength : (Buffer.splice bytes pos (putU32 v)).length = bytes.length :=
    Buffer.splice_length (by rwa [putU32_length])
  unfold patchU32 fwrite written
  rw [hlength]

/-- Values written one after the other. -/
theorem foldl_fwrite {α : Type} (f : α → List Byte) (l : List α) (bytes : List Byte) :
    l.foldl (fun fp a => fp.fwrite (f a)) (written bytes) = written (bytes ++ l.flatMap f) := by
  induction l generalizing bytes with
  | nil => exact (congrArg written (List.append_nil bytes)).symm
  | cons a l ih =>
    rw [List.foldl_cons, fwrite_written, ih, List.flatMap_cons, List.append_assoc]

end AviFile

/-- A recorder after chunks. -/
structure AviRecorder.Holds (p : AviParams) (chunks : List AviChunk) (rec : AviRecorder) :
    Prop where
  fp : rec.fp = .written (aviHeader p .zero ++
    ((fourcc 'm' 'o' 'v' 'i').toList ++ chunks.flatMap AviChunk.bytes))
  hasAudio : rec.params.hasAudio = p.hasAudio
  audioChannels : rec.params.audioChannels = p.audioChannels
  moviPos : rec.moviPos = aviMoviPos p
  index : rec.index = aviIndex chunks
  frameCount : rec.frameCount = .ofNat 32 (chunks.countP fun c => !c.isAudio)
  audioFrames : ∃ n, rec.audioFrames = .ofNat 32 n ∧
    n * (2 * p.audioChannels.toNat) = aviAudioBytes chunks

/-- The place in the `movi` list. -/
theorem AviRecorder.Holds.pos {p : AviParams} {chunks : List AviChunk} {rec : AviRecorder}
    (h : rec.Holds p chunks) :
    rec.fp.pos - rec.moviPos = 4 + (chunks.flatMap AviChunk.bytes).length := by
  rw [h.fp, h.moviPos, AviFile.written]
  dsimp only
  rw [List.length_append, aviHeader_length, Nat.add_sub_cancel_left, List.length_append,
    Vector.length_toList]

theorem aviRecorderOpenAv_holds {p : AviParams} {rec : AviRecorder}
    (h : aviRecorderOpenAv p = some rec) : rec.Holds p [] := by
  unfold aviRecorderOpenAv at h
  split_ifs at h
  obtain rfl := Option.some.inj h
  rw [AviFile.fwrite_written, List.nil_append]
  refine ⟨?_, rfl, rfl, aviHeader_length p .zero, rfl, rfl, 0, rfl, Nat.zero_mul _⟩
  rw [AviFile.fwrite_written]
  rfl

theorem aviIndexFrom_append (offset : Nat) (chunks chunks' : List AviChunk) :
    aviIndexFrom offset (chunks ++ chunks') = aviIndexFrom offset chunks ++
      aviIndexFrom (offset + (chunks.flatMap AviChunk.bytes).length) chunks' := by
  induction chunks generalizing offset with
  | nil => rfl
  | cons c chunks ih =>
    rw [List.cons_append, aviIndexFrom, ih, aviIndexFrom, List.flatMap_cons, List.length_append,
      Nat.add_assoc, List.cons_append]

/-- A chunk is written with its entry. -/
theorem aviPutChunk_holds {p : AviParams} {chunks : List AviChunk} {rec : AviRecorder}
    (h : rec.Holds p chunks) (c : AviChunk) {len : BitVec 32} (hlen : len.toNat = c.data.length) :
    (aviPutChunk c.isAudio c.data len rec).fp =
        .written (aviHeader p .zero ++
          ((fourcc 'm' 'o' 'v' 'i').toList ++ (chunks ++ [c]).flatMap AviChunk.bytes)) ∧
      (aviPutChunk c.isAudio c.data len rec).index = aviIndex (chunks ++ [c]) := by
  have hofNat : len = .ofNat 32 c.data.length := by
    rw [← hlen, BitVec.ofNat_toNat, BitVec.setWidth_eq]
  constructor
  · have hodd : len &&& 1 = 1 ↔ c.data.length % 2 = 1 := by
      rw [← BitVec.toNat_inj, BitVec.toNat_and, hlen]
      show c.data.length &&& 1 = 1 ↔ _
      rw [Nat.and_one_is_mod]
    have hpad : Riff.pad c.data.length = if len &&& 1 = 1 then [0] else [] := by
      unfold Riff.pad
      by_cases hone : c.data.length % 2 = 1
      · rw [if_pos (hodd.mpr hone), hone]
        rfl
      · rw [if_neg fun hand => hone (hodd.mp hand), Nat.mod_two_not_eq_one.mp hone]
        rfl
    have hbytes : c.bytes = (aviChunkId c.isAudio).toList ++ putU32 len ++ c.data ++
        if len &&& 1 = 1 then [0] else [] := by
      rw [← hpad, hofNat]
      rfl
    rw [List.flatMap_append, List.flatMap_singleton, hbytes]
    unfold aviPutChunk
    dsimp only
    rw [h.fp]
    simp only [AviFile.fwrite_written]
    split_ifs <;> simp only [List.append_assoc, List.append_nil]
  · show rec.index ++ [_] = _
    rw [h.index, h.pos, hofNat, aviIndex, aviIndex, aviIndexFrom_append]
    rfl

/-- A call with nothing to add, or a file without sound. -/
theorem aviRecorderAddAudio_skip {rec : AviRecorder} {nframes : Int}
    (h : ¬(rec.params.hasAudio = true ∧ 0 < nframes)) (samples : Option (Nat → Byte)) :
    (aviRecorderAddAudio samples nframes rec).2 = rec := by
  unfold aviRecorderAddAudio
  by_cases haudio : rec.params.hasAudio = true
  · have hnone : nframes ≤ 0 := not_lt.mp fun hpos => h ⟨haudio, hpos⟩
    rw [if_pos haudio]
    cases samples with
    | none => rfl
    | some samples => exact congrArg Prod.snd (if_pos hnone)
  · rw [if_neg haudio]

/-- The bytes of samples, where the product does not wrap. -/
theorem aviAudioLen {n channels : Nat} (h : n * (2 * channels) < 2 ^ 32) :
    (BitVec.ofInt 32 n * BitVec.ofInt 32 ((channels : Int) * 2)).toNat = n * (2 * channels) := by
  have hint : ((channels : Int) * 2) = ((2 * channels : Nat) : Int) := by
    rw [Nat.cast_mul, Int.mul_comm]
    rfl
  rw [hint, BitVec.ofInt_natCast, BitVec.ofInt_natCast, ← BitVec.ofNat_mul, BitVec.toNat_ofNat,
    Nat.mod_eq_of_lt h]

theorem aviStep_holds {p : AviParams} {chunks : List AviChunk} {rec : AviRecorder}
    (h : rec.Holds p chunks) (op : AviOp)
    (hsize : ∀ c ∈ op.chunk p, c.data.length < 2 ^ 32) :
    (aviStep rec op).Holds p (chunks ++ (op.chunk p).toList) := by
  cases op with
  | frame jpeg =>
    cases jpeg with
    | none =>
      show rec.Holds p (chunks ++ [])
      rwa [List.append_nil]
    | some jpeg =>
      have hlt : jpeg.length < 2 ^ 32 := hsize _ rfl
      have hlen : (BitVec.ofNat 32 jpeg.length).toNat = jpeg.length := by
        rw [BitVec.toNat_ofNat, Nat.mod_eq_of_lt hlt]
      have hput := aviPutChunk_holds h { isAudio := false, data := jpeg } hlen
      show AviRecorder.Holds p (chunks ++ [{ isAudio := false, data := jpeg }])
        (aviRecorderAddFrame (some jpeg) rec).2
      unfold aviRecorderAddFrame
      dsimp only
      rw [hlen, List.take_length]
      obtain ⟨n, hframes, hbytes⟩ := h.audioFrames
      refine ⟨hput.1, h.hasAudio, h.audioChannels, h.moviPos, hput.2, ?_, n, hframes, ?_⟩
      · show rec.frameCount + 1 = _
        rw [h.frameCount, List.countP_append, BitVec.ofNat_add]
        rfl
      · rw [hbytes]
        unfold aviAudioBytes
        rw [List.filter_append, List.map_append, List.sum_append]
        rfl
  | audio samples nframes =>
    have hnone : (AviOp.audio samples nframes).chunk p = none →
        aviStep rec (.audio samples nframes) = rec →
        (aviStep rec (.audio samples nframes)).Holds p
          (chunks ++ ((AviOp.audio samples nframes).chunk p).toList) := by
      intro hchunk hsame
      rw [hchunk, hsame, Option.toList_none, List.append_nil]
      exact h
    by_cases hadds : p.hasAudio ∧ 0 < nframes
    · obtain ⟨haudio, hpos⟩ := hadds
      cases samples with
      | none =>
        refine hnone (if_pos ⟨haudio, hpos⟩) ?_
        show (aviRecorderAddAudio none nframes rec).2 = rec
        unfold aviRecorderAddAudio
        split_ifs <;> rfl
      | some samples =>
        have hchunk : (AviOp.audio (some samples) nframes).chunk p = some
            { isAudio := true
              data := (List.range (nframes.toNat * (2 * p.audioChannels.toNat))).map samples } :=
          if_pos ⟨haudio, hpos⟩
        have hlt : nframes.toNat * (2 * p.audioChannels.toNat) < 2 ^ 32 := by
          have hdata := hsize _ hchunk
          rwa [List.length_map, List.length_range] at hdata
        have hchannels := AviParams.audioChannels_pos haudio
        have hcount : ((nframes.toNat : Nat) : Int) = nframes := Int.toNat_of_nonneg hpos.le
        have hlen := aviAudioLen hlt
        rw [Int.toNat_of_nonneg hchannels.le, hcount] at hlen
        have hput := aviPutChunk_holds h
          { isAudio := true
            data := (List.range (nframes.toNat * (2 * p.audioChannels.toNat))).map samples }
          (hlen.trans (by rw [List.length_map, List.length_range]))
        have hstep : aviStep rec (.audio (some samples) nframes) =
            (aviRecorderAddAudio (some samples) nframes rec).2 := rfl
        rw [hstep, hchunk]
        unfold aviRecorderAddAudio
        rw [if_pos (h.hasAudio.trans haudio)]
        dsimp only
        rw [if_neg (not_le.mpr hpos), h.audioChannels, hlen]
        obtain ⟨n, hframes, htotal⟩ := h.audioFrames
        refine ⟨hput.1, h.hasAudio, h.audioChannels, h.moviPos, hput.2, ?_, n + nframes.toNat, ?_,
          ?_⟩
        · show rec.frameCount = _
          rw [h.frameCount, Option.toList_some, List.countP_append]
          rfl
        · show rec.audioFrames + BitVec.ofInt 32 nframes = _
          rw [hframes, ← hcount, BitVec.ofInt_natCast, ← BitVec.ofNat_add, hcount]
        · unfold aviAudioBytes
          rw [Option.toList_some, List.filter_append, List.map_append, List.sum_append, Nat.add_mul,
            htotal]
          show _ = _ + ((List.map samples (List.range _)).length + 0)
          rw [List.length_map, List.length_range]
          rfl
    · refine hnone (if_neg hadds) ?_
      exact aviRecorderAddAudio_skip (by rwa [h.hasAudio]) samples

/-- After any calls the recorder has written their chunks. -/
theorem aviRun_holds {p : AviParams} (ops : List AviOp) {chunks : List AviChunk}
    {rec : AviRecorder} (h : rec.Holds p chunks)
    (hsize : ∀ c ∈ aviChunks p ops, c.data.length < 2 ^ 32) :
    (ops.foldl aviStep rec).Holds p (chunks ++ aviChunks p ops) := by
  induction ops generalizing chunks rec with
  | nil =>
    rw [aviChunks, List.filterMap_nil, List.append_nil]
    exact h
  | cons op ops ih =>
    have hsplit : aviChunks p (op :: ops) = (op.chunk p).toList ++ aviChunks p ops := by
      unfold aviChunks
      rw [List.filterMap_cons]
      cases op.chunk p <;> rfl
    rw [hsplit] at hsize ⊢
    rw [List.foldl_cons, ← List.append_assoc]
    refine ih (aviStep_holds h op fun c hc => ?_) fun c hc => ?_
    · exact hsize c (List.mem_append_left _ (Option.mem_toList.mpr hc))
    · exact hsize c (List.mem_append_right _ hc)

/-! ## Closing -/

theorem aviEntry_length (entry : AviIndexEntry) : entry.bytes.length = 16 := by
  simp [AviIndexEntry.bytes]

theorem aviIndexFrom_length (offset : Nat) (chunks : List AviChunk) :
    (aviIndexFrom offset chunks).length = chunks.length := by
  induction chunks generalizing offset with
  | nil => rfl
  | cons c chunks ih => exact congrArg (· + 1) (ih _)

theorem aviIndex_bytes_length (chunks : List AviChunk) :
    ((aviIndex chunks).flatMap AviIndexEntry.bytes).length = 16 * chunks.length := by
  rw [List.length_flatMap, funext aviEntry_length, List.map_const', List.sum_replicate, aviIndex,
    aviIndexFrom_length, smul_eq_mul, Nat.mul_comm]

theorem aviChunk_even (c : AviChunk) : c.bytes.length % 2 = 0 := Riff.chunk_even ..

/-- A place of the header, patched. -/
theorem patchU32_header {p : AviParams} {t t' : AviPatches} {rest : List Byte} {pos : Nat}
    {v : BitVec 32} (hpos : pos + 4 ≤ aviMoviPos p)
    (hpatch : Buffer.splice (aviHeader p t ++ rest) pos (putU32 v) = aviHeader p t' ++ rest) :
    patchU32 (.written (aviHeader p t ++ rest)) pos v = .written (aviHeader p t' ++ rest) := by
  have hroom : pos + 4 ≤ (aviHeader p t ++ rest).length := by
    rw [List.length_append, aviHeader_length]
    omega
  rw [AviFile.patchU32_written hroom, hpatch]

/-- What follows the header of a file of chunks. -/
def aviRest (chunks : List AviChunk) : List Byte :=
  (fourcc 'm' 'o' 'v' 'i').toList ++ chunks.flatMap AviChunk.bytes ++
    ((fourcc 'i' 'd' 'x' '1').toList ++ putU32 (.ofNat 32 (16 * chunks.length)) ++
      (aviIndex chunks).flatMap AviIndexEntry.bytes)

/-- What a recorder patches. -/
def AviRecorder.patches (rec : AviRecorder) (p : AviParams) (chunks : List AviChunk) :
    AviPatches where
  riffSize := .ofNat 32 (aviSize p chunks - 8)
  moviSize := .ofNat 32 (4 + (chunks.flatMap AviChunk.bytes).length)
  avihTotalFrames := rec.frameCount
  avihSuggBuf := rec.maxJpegSize
  strhLength := rec.frameCount
  strhSuggBuf := rec.maxJpegSize
  audioStrhLength := if p.hasAudio then rec.audioFrames else 0
  audioStrhSuggBuf := if p.hasAudio then rec.maxAudioChunk else 0

theorem aviRest_length (p : AviParams) (t : AviPatches) (chunks : List AviChunk) :
    (aviHeader p t ++ aviRest chunks).length = aviSize p chunks := by
  unfold aviRest aviSize
  simp only [List.length_append, aviHeader_length, Vector.length_toList, putU32_length,
    aviIndex_bytes_length]
  omega

theorem aviRecorderClose_eq {p : AviParams} {chunks : List AviChunk} {rec : AviRecorder}
    (h : rec.Holds p chunks) :
    aviRecorderClose rec = aviHeader p (rec.patches p chunks) ++ aviRest chunks := by
  have hmovi : aviMoviPos p = if p.hasAudio then 322 else 220 := rfl
  have hcount : BitVec.ofNat 32 rec.index.length * 16 = .ofNat 32 (16 * chunks.length) := by
    rw [h.index, aviIndex, aviIndexFrom_length, Nat.mul_comm, BitVec.ofNat_mul]
    rfl
  have hwritten : rec.index.foldl (fun fp entry => fp.fwrite entry.bytes)
      ((rec.fp.fwrite (fourcc 'i' 'd' 'x' '1').toList).fwrite
        (putU32 (.ofNat 32 rec.index.length * 16))) =
      .written (aviHeader p .zero ++ aviRest chunks) := by
    rw [hcount, h.fp, AviFile.fwrite_written, AviFile.fwrite_written, AviFile.foldl_fwrite, h.index]
    unfold aviRest
    simp only [List.append_assoc]
  unfold aviRecorderClose
  dsimp only
  rw [h.pos, hwritten, h.moviPos, h.hasAudio]
  have hend : (AviFile.written (aviHeader p .zero ++ aviRest chunks)).pos = aviSize p chunks :=
    aviRest_length ..
  rw [hend,
    patchU32_header (by rw [hmovi]; split_ifs <;> decide) (patch_riffSize ..),
    patchU32_header (by rw [hmovi]; split_ifs <;> decide) (patch_moviSize ..),
    patchU32_header (by rw [hmovi]; split_ifs <;> decide) (patch_avihTotalFrames ..),
    patchU32_header (by rw [hmovi]; split_ifs <;> decide) (patch_avihSuggBuf ..),
    patchU32_header (by rw [hmovi]; split_ifs <;> decide) (patch_strhLength ..),
    patchU32_header (by rw [hmovi]; split_ifs <;> decide) (patch_strhSuggBuf ..)]
  unfold AviRecorder.patches
  by_cases haudio : p.hasAudio = true
  · rw [if_pos haudio, if_pos haudio, if_pos haudio,
      patchU32_header (by rw [hmovi, if_pos haudio]; decide) (patch_audioStrhLength _ _ _ haudio),
      patchU32_header (by rw [hmovi, if_pos haudio]; decide) (patch_audioStrhSuggBuf _ _ _ haudio)]
    rfl
  · rw [if_neg haudio, if_neg haudio, if_neg haudio]
    rfl

/-! ## The file is well formed -/

theorem aviHdrl_eq (p : AviParams) (t : AviPatches) (rest : List Byte) :
    aviHdrl p t ++ rest =
      (fourcc 'L' 'I' 'S' 'T').toList ++ (putU32 (if p.hasAudio then 192 + 102 else 192) ++
        ((fourcc 'h' 'd' 'r' 'l').toList ++
        ((fourcc 'a' 'v' 'i' 'h').toList ++ (putU32 56 ++ (aviAvih p t ++
        ((fourcc 'L' 'I' 'S' 'T').toList ++ (putU32 116 ++ ((fourcc 's' 't' 'r' 'l').toList ++
        ((fourcc 's' 't' 'r' 'h').toList ++ (putU32 56 ++ (aviVideoStrh p t ++
        ((fourcc 's' 't' 'r' 'f').toList ++ (putU32 40 ++ (aviVideoStrf p ++
        ((if p.hasAudio then aviAudioStrl p t else []) ++ rest))))))))))))))) := by
  cases hp : p.hasAudio <;>
    simp [hp, aviHdrl, aviAudioStrl, Riff.list, Riff.chunk, Riff.pad, Riff.size, putU32]

theorem aviHdrl_length (p : AviParams) (t : AviPatches) :
    (aviHdrl p t).length = aviMoviPos p - 20 := by
  have h := congrArg List.length (aviHdrl_eq p t [])
  rw [List.append_nil] at h
  rw [h]
  unfold aviMoviPos
  cases hp : p.hasAudio <;> simp [aviAudioStrl]

theorem aviBody_even (chunks : List AviChunk) :
    (chunks.flatMap AviChunk.bytes).length % 2 = 0 := by
  induction chunks with
  | nil => rfl
  | cons c chunks ih =>
    rw [List.flatMap_cons, List.length_append, Nat.add_mod, aviChunk_even, ih]

/-- The `movi` list. -/
theorem aviMovi_eq (chunks : List AviChunk) :
    Riff.list (fourcc 'L' 'I' 'S' 'T') (fourcc 'm' 'o' 'v' 'i')
        (chunks.flatMap AviChunk.bytes) =
      (fourcc 'L' 'I' 'S' 'T').toList ++
        (putU32 (.ofNat 32 (4 + (chunks.flatMap AviChunk.bytes).length)) ++
        ((fourcc 'm' 'o' 'v' 'i').toList ++ chunks.flatMap AviChunk.bytes)) := by
  have heven := aviBody_even chunks
  have hlength : ((fourcc 'm' 'o' 'v' 'i').toList ++ chunks.flatMap AviChunk.bytes).length =
      4 + (chunks.flatMap AviChunk.bytes).length := by
    rw [List.length_append, Vector.length_toList]
  rw [Riff.list, Riff.chunk_of_even _ (by omega), hlength, List.append_assoc]
  rfl

/-- The `idx1` chunk. -/
theorem aviIdx1_eq (chunks : List AviChunk) :
    Riff.chunk (fourcc 'i' 'd' 'x' '1') ((aviIndex chunks).flatMap AviIndexEntry.bytes) =
      (fourcc 'i' 'd' 'x' '1').toList ++ (putU32 (.ofNat 32 (16 * chunks.length)) ++
        (aviIndex chunks).flatMap AviIndexEntry.bytes) := by
  have hlength := aviIndex_bytes_length chunks
  rw [Riff.chunk_of_even _ (by omega), hlength, List.append_assoc]
  rfl

/-- What the outer list holds after its form. -/
theorem aviInner_length (p : AviParams) (t : AviPatches) (chunks : List AviChunk) :
    (aviHdrl p t ++
      Riff.list (fourcc 'L' 'I' 'S' 'T') (fourcc 'm' 'o' 'v' 'i') (chunks.flatMap AviChunk.bytes) ++
      Riff.chunk (fourcc 'i' 'd' 'x' '1') ((aviIndex chunks).flatMap AviIndexEntry.bytes)).length =
      aviSize p chunks - 12 := by
  have hmovi : 220 ≤ aviMoviPos p := by
    unfold aviMoviPos
    split_ifs <;> decide
  rw [aviMovi_eq, aviIdx1_eq]
  simp only [List.length_append, aviHdrl_length, Vector.length_toList, putU32_length,
    aviIndex_bytes_length]
  unfold aviSize
  omega

/-- The bytes written are nested chunks. -/
theorem aviLayout_eq {p : AviParams} {t : AviPatches} {chunks : List AviChunk}
    (hriff : t.riffSize = .ofNat 32 (aviSize p chunks - 8))
    (hmovi : t.moviSize = .ofNat 32 (4 + (chunks.flatMap AviChunk.bytes).length)) :
    aviHeader p t ++ aviRest chunks = aviLayout p t chunks := by
  have hinner := aviInner_length p t chunks
  have heven := aviBody_even chunks
  have hsize : aviSize p chunks % 2 = 0 ∧ 12 ≤ aviSize p chunks := by
    unfold aviSize aviMoviPos
    split_ifs <;> omega
  have hlength : ((fourcc 'A' 'V' 'I' ' ').toList ++ (aviHdrl p t ++
      Riff.list (fourcc 'L' 'I' 'S' 'T') (fourcc 'm' 'o' 'v' 'i') (chunks.flatMap AviChunk.bytes) ++
      Riff.chunk (fourcc 'i' 'd' 'x' '1')
        ((aviIndex chunks).flatMap AviIndexEntry.bytes))).length = aviSize p chunks - 8 := by
    rw [List.length_append, hinner, Vector.length_toList]
    omega
  unfold aviLayout
  rw [Riff.list, Riff.chunk_of_even _ (by omega), hlength, aviMovi_eq, aviIdx1_eq, ← hmovi]
  show _ = (fourcc 'R' 'I' 'F' 'F').toList ++ putU32 (.ofNat 32 (aviSize p chunks - 8)) ++ _
  rw [← hriff, aviHeader_eq]
  unfold aviRest
  simp only [List.append_assoc, aviHdrl_eq]

theorem aviChunkId_leaf (isAudio : Bool) : aviChunkId isAudio ∉ Riff.listIds := by
  cases isAudio <;> decide

theorem aviHdrl_tiles (p : AviParams) (t : AviPatches) : Riff.Tiles (aviHdrl p t) := by
  have hstrl : ∀ {strh strf : List Byte}, strh.length = 56 → strf.length ≤ 40 →
      Riff.Tiles (Riff.list (fourcc 'L' 'I' 'S' 'T') (fourcc 's' 't' 'r' 'l')
        (Riff.chunk (fourcc 's' 't' 'r' 'h') strh ++ Riff.chunk (fourcc 's' 't' 'r' 'f') strf)) := by
    intro strh strf hstrh hstrf
    have htiles : Riff.Tiles (Riff.chunk (fourcc 's' 't' 'r' 'h') strh ++
        Riff.chunk (fourcc 's' 't' 'r' 'f') strf) :=
      .chunk (by decide) (by omega) (.one (by decide) (by omega))
    refine .oneList (by decide) htiles ?_
    rw [List.length_append, Riff.chunk_length, Riff.chunk_length]
    omega
  have havih : Riff.Tiles (Riff.chunk (fourcc 'a' 'v' 'i' 'h') (aviAvih p t)) :=
    .one (by decide) (by rw [aviAvih_length]; decide)
  have hvideo := hstrl (aviVideoStrh_length p t) (aviVideoStrf_length p).le
  have hlength := aviHdrl_length p t
  unfold aviMoviPos at hlength
  unfold aviHdrl at hlength ⊢
  rw [Riff.list, Riff.chunk_length, List.length_append] at hlength
  refine .oneList (by decide) ((havih.append hvideo).append ?_) ?_
  · split_ifs
    · exact hstrl (aviAudioStrh_length p t) (by rw [aviAudioStrf_length]; decide)
    · exact .nil
  · split_ifs at hlength ⊢ <;> omega

/-- A chunk is no longer than the chunks it is among. -/
theorem aviChunk_le {chunks : List AviChunk} {c : AviChunk} (hc : c ∈ chunks) :
    c.data.length + 8 ≤ (chunks.flatMap AviChunk.bytes).length := by
  obtain ⟨pre, post, rfl⟩ := List.append_of_mem hc
  have hlength : c.bytes.length = 8 + c.data.length + c.data.length % 2 := Riff.chunk_length ..
  rw [List.flatMap_append, List.flatMap_cons, List.length_append, List.length_append, hlength]
  omega

/-- The chunks of a file below 4 GiB tile it. -/
theorem aviLayout_tiles {p : AviParams} {chunks : List AviChunk}
    (hsize : aviSize p chunks < 2 ^ 32) (t : AviPatches) : Riff.Tiles (aviLayout p t chunks) := by
  have hinner := aviInner_length p t chunks
  have hbody : ∀ c ∈ chunks, c.data.length < 2 ^ 32 := by
    intro c hc
    have hle := aviChunk_le hc
    unfold aviSize at hsize
    omega
  have hmovi : Riff.Tiles (Riff.list (fourcc 'L' 'I' 'S' 'T') (fourcc 'm' 'o' 'v' 'i')
      (chunks.flatMap AviChunk.bytes)) := by
    refine .oneList (by decide) (.flatMap chunks fun c hc => ?_) ?_
    · exact .one (aviChunkId_leaf c.isAudio) (hbody c hc)
    · unfold aviSize at hsize
      omega
  have hidx : Riff.Tiles (Riff.chunk (fourcc 'i' 'd' 'x' '1')
      ((aviIndex chunks).flatMap AviIndexEntry.bytes)) := by
    refine .one (by decide) ?_
    rw [aviIndex_bytes_length]
    unfold aviSize at hsize
    omega
  refine .oneList (by decide) (((aviHdrl_tiles p t).append hmovi).append hidx) ?_
  rw [hinner]
  omega

theorem aviAudioBytes_le (chunks : List AviChunk) :
    aviAudioBytes chunks ≤ (chunks.flatMap AviChunk.bytes).length := by
  induction chunks with
  | nil => exact Nat.le_refl 0
  | cons c chunks ih =>
    have hlength : c.bytes.length = 8 + c.data.length + c.data.length % 2 := Riff.chunk_length ..
    unfold aviAudioBytes at ih ⊢
    rw [List.flatMap_cons, List.length_append, hlength, List.filter_cons]
    split_ifs
    · rw [List.map_cons, List.sum_cons]
      omega
    · omega

/-- Each entry of the index points at its chunk, from any chunk on. -/
theorem aviIndexFrom_points {p : AviParams} {file front back : List Byte}
    (hfront : front.length = aviMoviPos p + 4) (post pre : List AviChunk)
    (hfile : file = front ++ ((pre ++ post).flatMap AviChunk.bytes ++ back))
    (hsize : 4 + ((pre ++ post).flatMap AviChunk.bytes).length < 2 ^ 32) :
    List.Forall₂ (AviIndexEntry.Points p file)
      (aviIndexFrom (4 + (pre.flatMap AviChunk.bytes).length) post) post := by
  induction post generalizing pre with
  | nil => exact .nil
  | cons c post ih =>
    have hle := aviChunk_le (List.mem_append_right pre (List.mem_cons_self (a := c) (l := post)))
    have hmono : (pre.flatMap AviChunk.bytes).length ≤
        ((pre ++ c :: post).flatMap AviChunk.bytes).length := by
      rw [List.flatMap_append, List.length_append]
      exact Nat.le_add_right ..
    refine .cons ⟨rfl, ?_, ?_⟩ ?_
    · show (BitVec.ofNat 32 c.data.length).toNat = _
      rw [BitVec.toNat_ofNat, Nat.mod_eq_of_lt (by omega)]
    · show Buffer.slice file (aviMoviPos p +
          (BitVec.ofNat 32 (4 + (pre.flatMap AviChunk.bytes).length)).toNat) _ =
        (aviChunkId c.isAudio).toList ++ Riff.size c.data.length ++ c.data
      have hcut := Buffer.slice_append (front ++ pre.flatMap AviChunk.bytes)
        ((aviChunkId c.isAudio).toList ++ Riff.size c.data.length ++ c.data)
        (Riff.pad c.data.length ++ (post.flatMap AviChunk.bytes ++ back))
      rw [List.length_append, hfront, List.length_append, List.length_append, Vector.length_toList,
        Riff.size_length, Nat.add_assoc (aviMoviPos p)] at hcut
      rw [BitVec.toNat_ofNat, Nat.mod_eq_of_lt (by omega), hfile]
      refine Eq.trans ?_ hcut
      rw [List.flatMap_append, List.flatMap_cons]
      have hbytes : c.bytes = (aviChunkId c.isAudio).toList ++ Riff.size c.data.length ++ c.data ++
        Riff.pad c.data.length := rfl
      rw [hbytes]
      simp only [List.append_assoc]
    · have hsplit : pre ++ c :: post = (pre ++ [c]) ++ post := by
        rw [List.append_assoc, List.singleton_append]
      have hnext : 4 + (pre.flatMap AviChunk.bytes).length + c.bytes.length =
          4 + ((pre ++ [c]).flatMap AviChunk.bytes).length := by
        rw [List.flatMap_append, List.length_append, List.flatMap_singleton, Nat.add_assoc]
      rw [hnext]
      exact ih (pre ++ [c]) (by rw [hfile, hsplit]) (by rwa [← hsplit])

/-- Whatever frames and samples are added to a recorder that opened, in any order: if the file they
make is below 4 GiB, what `avi_recorder_close` leaves is that file, well formed. -/
theorem aviRecorder_wellFormed {p : AviParams} {rec : AviRecorder}
    (hopen : aviRecorderOpenAv p = some rec) (ops : List AviOp)
    (hsize : aviSize p (aviChunks p ops) < 2 ^ 32) :
    AviWellFormed p (aviChunks p ops) (aviRecorderClose (ops.foldl aviStep rec)) := by
  have hbody : ∀ c ∈ aviChunks p ops, c.data.length < 2 ^ 32 := by
    intro c hc
    have hle := aviChunk_le hc
    unfold aviSize at hsize
    omega
  have hrun := aviRun_holds ops (aviRecorderOpenAv_holds hopen) hbody
  rw [List.nil_append] at hrun
  have hclose := aviRecorderClose_eq hrun
  have hlayout : aviRecorderClose (ops.foldl aviStep rec) = aviLayout p _ (aviChunks p ops) :=
    hclose.trans (aviLayout_eq rfl rfl)
  have hchunks : (aviChunks p ops).length < 2 ^ 32 := by
    unfold aviSize at hsize
    omega
  have hframes : ((ops.foldl aviStep rec).frameCount).toNat =
      (aviChunks p ops).countP fun c => !c.isAudio := by
    have hle := List.countP_le_length (p := fun c : AviChunk => !c.isAudio) (l := aviChunks p ops)
    rw [hrun.frameCount, BitVec.toNat_ofNat, Nat.mod_eq_of_lt (by omega)]
  refine ⟨?_, ?_, ⟨_, hlayout, hframes, hframes, ?_⟩, ?_⟩
  · rw [hlayout]
    exact aviLayout_tiles hsize _
  · rw [hclose, aviRest_length]
  · intro haudio
    obtain ⟨n, hn, htotal⟩ := hrun.audioFrames
    show (if p.hasAudio then _ else 0 : BitVec 32).toNat * _ = _
    have hchannels := AviParams.audioChannels_pos haudio
    have hle : n ≤ n * (2 * p.audioChannels.toNat) := Nat.le_mul_of_pos_right n (by omega)
    have hbytes := aviAudioBytes_le (aviChunks p ops)
    unfold aviSize at hsize
    rw [if_pos haudio, hn, BitVec.toNat_ofNat, Nat.mod_eq_of_lt (by omega), htotal]
  · have hfront : (aviHeader p ((ops.foldl aviStep rec).patches p (aviChunks p ops)) ++
        (fourcc 'm' 'o' 'v' 'i').toList).length = aviMoviPos p + 4 := by
      rw [List.length_append, aviHeader_length, Vector.length_toList]
    have hfile : aviHeader p ((ops.foldl aviStep rec).patches p (aviChunks p ops)) ++
        aviRest (aviChunks p ops) =
        (aviHeader p ((ops.foldl aviStep rec).patches p (aviChunks p ops)) ++
          (fourcc 'm' 'o' 'v' 'i').toList) ++
        (([] ++ aviChunks p ops).flatMap AviChunk.bytes ++
          ((fourcc 'i' 'd' 'x' '1').toList ++ putU32 (.ofNat 32 (16 * (aviChunks p ops).length)) ++
            (aviIndex (aviChunks p ops)).flatMap AviIndexEntry.bytes)) := by
      unfold aviRest
      rw [List.nil_append]
      simp only [List.append_assoc]
    rw [hclose]
    refine aviIndexFrom_points hfront (aviChunks p ops) [] hfile ?_
    unfold aviSize at hsize
    rw [List.nil_append]
    omega

/-- Pictures of 2 by 2 with sound. -/
def aviSampleParams : AviParams where
  width := 2
  height := 2
  fps := 50
  quality := 85
  audioRate := 44100
  audioChannels := 1

/-- A picture of an odd number of bytes, a sample, and a picture that fails. -/
def aviSampleOps : List AviOp :=
  [.frame (some [0xFF, 0xD8, 0xD9]), .audio (some fun _ => 0) 1, .frame none]

theorem aviRecorder_wellFormed_sample : ∃ rec, aviRecorderOpenAv aviSampleParams = some rec ∧
    AviWellFormed aviSampleParams (aviChunks aviSampleParams aviSampleOps)
      (aviRecorderClose (aviSampleOps.foldl aviStep rec)) :=
  ⟨_, if_neg (by decide), aviRecorder_wellFormed (if_neg (by decide)) aviSampleOps (by decide)⟩

end Phosphoric
