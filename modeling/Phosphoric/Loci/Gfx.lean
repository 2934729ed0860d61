import Phosphoric.Loci.Api

/-!
# The LOCI's graphics assist

`src/io/loci_gfx.c`: a back buffer in a 16 KiB bank of the xram, drawn on by bytes, and a map of
the bytes that changed, returned as spans.

The drawing is a function of the xram (`composeRow`, `composeRect`), as in the source's pure half.
-/

open Function (update)

namespace Phosphoric

/-! ## Constants -/

abbrev gfxInit : Byte := 0x00
abbrev gfxResetDirty : Byte := 0x01
abbrev gfxGetDirty : Byte := 0x02
abbrev gfxClear : Byte := 0x03
abbrev gfxBlitRect : Byte := 0x11
abbrev gfxComposeRect : Byte := 0x18
abbrev gfxCollide : Byte := 0x28

abbrev gfxModeCopy : Byte := 0
abbrev gfxModeOr : Byte := 1
abbrev gfxModeAnd : Byte := 2
abbrev gfxModeXor : Byte := 3

abbrev gfxHiresWb : Nat := 40
abbrev gfxHiresRows : Nat := 200
abbrev gfxTextWb : Nat := 40
abbrev gfxTextRows : Nat := 28
abbrev gfxSpanBudget : Nat := 100

/-- The statics before `GFX_INIT`. -/
def LociGfx.initial : LociGfx where
  dirty := fun _ => false
  bank := 0
  wb := gfxHiresWb
  rows := gfxHiresRows
  bytes := gfxHiresWb * gfxHiresRows
  ready := false

/-! ## Dirty spans -/

structure GfxSpan where
  off : Nat
  len : Nat
  deriving DecidableEq, Repr

/-- `d_mark`. -/
def dMark (dirty : Nat → Bool) (off len cap : Nat) : Nat → Bool := fun i =>
  dirty i || (off ≤ i && i < off + len && i < cap)

/-- The length of the run of dirty bytes at `off`, within `n`. -/
def dirtyRun (dirty : Nat → Bool) (off : Nat) : Nat → Nat
  | 0 => 0
  | n + 1 => if dirty off then dirtyRun dirty (off + 1) n + 1 else 0

/-- The runs of dirty bytes among the `n` bytes from `off`. -/
def rowSpans (dirty : Nat → Bool) (off n : Nat) : List GfxSpan :=
  if hn : n = 0 then []
  else if dirty off then
    let len := dirtyRun dirty off n
    ⟨off, len⟩ :: rowSpans dirty (off + max len 1) (n - max len 1)
  else rowSpans dirty (off + 1) (n - 1)
termination_by n
decreasing_by all_goals omega

/-- The one span from the first to the last dirty byte of a row. -/
def rowSpan (dirty : Nat → Bool) (base wb : Nat) : Option GfxSpan :=
  let cols := (List.range wb).filter fun col => dirty (base + col)
  match cols.head?, cols.getLast? with
  | some first, some last => some ⟨base + first, last - first + 1⟩
  | _, _ => none

/-- The spans, and whether there were too many of them: then one for each row, or one in all. -/
def coalesceSpans (dirty : Nat → Bool) (wb rows maxOut : Nat) : List GfxSpan × Bool :=
  let spans := (List.range rows).flatMap fun row => rowSpans dirty (row * wb) wb
  if spans.length ≤ maxOut then (spans, false)
  else
    let spans := (List.range rows).filterMap fun row => rowSpan dirty (row * wb) wb
    if spans.length ≤ maxOut then (spans, true) else ([⟨0, wb * rows⟩], true)

/-! ## Drawing -/

def composeByte (mode s dd : Byte) : Byte :=
  if mode = gfxModeOr then dd ||| s
  else if mode = gfxModeAnd then dd &&& s
  else if mode = gfxModeXor then dd ^^^ s
  else s

/-- The bytes go from left to right, also where source and destination overlap. -/
def composeRow (mem : Nat → Byte) (dst src : Nat) (mask : Option Nat) (mode : Byte) :
    Nat → Nat → Byte
  | 0 => mem
  | n + 1 =>
    let mem := composeRow mem dst src mask mode n
    let dd := mem (dst + n)
    let op := composeByte mode (mem (src + n)) dd
    update mem (dst + n)
      (match mask with
      | some m => (dd &&& ~~~mem (m + n)) ||| (op &&& mem (m + n))
      | none => op)

/-- The first `h` rows of a rectangle, `wb` bytes apart. -/
def composeRect (mem : Nat → Byte) (wb dst src : Nat) (mask : Option Nat) (mode : Byte) (w : Nat) :
    Nat → Nat → Byte
  | 0 => mem
  | r + 1 =>
    composeRow (composeRect mem wb dst src mask mode w r) (dst + r * wb) (src + r * wb)
      (mask.map (· + r * wb)) mode w

def markRect (gfx : LociGfx) (dst w : Nat) : Nat → Nat → Bool
  | 0 => gfx.dirty
  | r + 1 => dMark (markRect gfx dst w r) (dst + r * gfx.wb) w gfx.bytes

/-- `memset` of the back buffer. -/
def clearBytes (mem : Nat → Byte) (base n : Nat) (value : Byte) : Nat → Byte := fun i =>
  if base ≤ i ∧ i < base + n then value else mem i

def gfxBase (gfx : LociGfx) : Nat := gfx.bank <<< 14

def rectOk (gfx : LociGfx) (off w h : Nat) : Bool :=
  !(w == 0 || h == 0 || gfx.wb < w) && off + (h - 1) * gfx.wb + w ≤ gfx.bytes

/-- Whether two boxes meet. -/
def collideBbox (ax ay aw ah bx b_y bw bh : Nat) : Bool :=
  !(bx + bw ≤ ax || ax + aw ≤ bx || b_y + bh ≤ ay || ay + ah ≤ b_y)

/-! ## Drawings -/

/-- What a drawing operation draws, at offsets in the back buffer. -/
inductive GfxDraw
  | clear (value : Byte)
  | rect (dst src : Nat) (mask : Option Nat) (mode : Byte) (w h : Nat)

def GfxDraw.mem (draw : GfxDraw) (gfx : LociGfx) (mem : Nat → Byte) : Nat → Byte :=
  match draw with
  | .clear value => clearBytes mem (gfxBase gfx) gfx.bytes value
  | .rect dst src mask mode w h =>
    composeRect mem gfx.wb (gfxBase gfx + dst) (gfxBase gfx + src) (mask.map (gfxBase gfx + ·))
      mode w h

def GfxDraw.dirty (draw : GfxDraw) (gfx : LociGfx) : Nat → Bool :=
  match draw with
  | .clear _ => fun i => i < (gfx.bytes + 7) / 8 * 8 || gfx.dirty i
  | .rect dst _ _ _ w h => markRect gfx dst w h

/-- The parameters of `GFX_CLEAR`. -/
def clearArgs (_ : LociGfx) (args : List Byte) : Option GfxDraw := some (.clear (args.getD 0 0#8))

/-- The parameters of `GFX_BLIT_RECT`. -/
def blitArgs (gfx : LociGfx) (args : List Byte) : Option GfxDraw :=
  let h := (args.getD 0 0#8).toNat
  let w := (args.getD 1 0#8).toNat
  let dst := (wordAt args 2).toNat
  let src := (wordAt args 4).toNat
  if rectOk gfx src w h && rectOk gfx dst w h then some (.rect dst src none gfxModeCopy w h)
  else none

/-- The parameters of `GFX_COMPOSE_RECT`; no mask is 0xFFFF. -/
def composeArgs (gfx : LociGfx) (args : List Byte) : Option GfxDraw :=
  let mask := (wordAt args 0).toNat
  let mode := args.getD 2 0#8
  let h := (args.getD 3 0#8).toNat
  let w := (args.getD 4 0#8).toNat
  let dst := (wordAt args 5).toNat
  let src := (wordAt args 7).toNat
  if mode ≤ gfxModeXor && rectOk gfx src w h && rectOk gfx dst w h &&
      (mask == 0xFFFF || rectOk gfx mask w h) then
    some (.rect dst src (if mask = 0xFFFF then none else some mask) mode w h)
  else none

/-! ## The operation -/

/-- The `n` bytes of parameters are popped, one after another, and the xstack is left empty. -/
def withGfxArgs (loci : Loci) (n : Nat) (k : List Byte → Loci → Loci) : Loci :=
  if loci.xstackPtr + n > lociXstackSize then apiReturnErrno loci lociEinval
  else k (loci.popBytes n).1 (xstackZero (loci.popBytes n).2)

def opGfxInit (loci : Loci) : Loci :=
  withGfxArgs loci 2 fun args loci =>
    let bank := (args.getD 0 0#8).toNat
    let mode := args.getD 1 0#8
    if bank > 3 ∨ mode > 1#8 then apiReturnErrno loci lociEinval
    else
      let wb := if mode = 1#8 then gfxTextWb else gfxHiresWb
      let rows := if mode = 1#8 then gfxTextRows else gfxHiresRows
      apiReturnAx { loci with gfx := ⟨fun _ => false, bank, wb, rows, wb * rows, true⟩ } 0

/-- Nothing is dirty any more. -/
def Loci.cleanGfx (loci : Loci) : Loci :=
  { loci with gfx := { loci.gfx with dirty := fun _ => false } }

def opGfxResetDirty (loci : Loci) : Loci := apiReturnAx (xstackZero loci.cleanGfx) 0

/-- `GFX_CLEAR`, `GFX_BLIT_RECT` and `GFX_COMPOSE_RECT`. -/
def opGfxDraw (loci : Loci) (n : Nat) (parse : LociGfx → List Byte → Option GfxDraw) : Loci :=
  withGfxArgs loci n fun args loci =>
    match parse loci.gfx args with
    | none => apiReturnErrno loci lociEinval
    | some draw =>
      apiReturnAx
        { loci with
          xram := draw.mem loci.gfx loci.xram
          gfx := { loci.gfx with dirty := draw.dirty loci.gfx } } 0

def opGfxCollide (loci : Loci) : Loci :=
  withGfxArgs loci 16 fun args loci =>
    let arg := fun i => (wordAt args i).toNat
    let met := collideBbox (arg 14) (arg 12) (arg 10) (arg 8) (arg 6) (arg 4) (arg 2) (arg 0)
    apiReturnAx loci (if met then 1 else 0)

/-- Each span is pushed with its offset on top; what does not fit is dropped. -/
def pushSpan (span : GfxSpan) (loci : Loci) : Loci :=
  (xstackPushN (xstackPushN loci (le16 (BitVec.ofNat 16 span.len))).2
    (le16 (BitVec.ofNat 16 span.off))).2

def opGfxGetDirty (loci : Loci) : Loci :=
  let spans := coalesceSpans loci.gfx.dirty loci.gfx.wb loci.gfx.rows gfxSpanBudget
  let count := BitVec.ofNat 16 (spans.1.length % 0x8000 + if spans.2 then 0x8000 else 0)
  let loci := spans.1.foldr pushSpan (xstackZero loci)
  let loci := (xstackPushN loci (le16 count)).2
  apiReturnAx loci.cleanGfx 0

def opGfx (loci : Loci) : Loci :=
  let a := loci.regs lociRegApiA
  if a ≠ gfxInit ∧ !loci.gfx.ready then apiReturnErrno loci lociEinval
  else if a = gfxInit then opGfxInit loci
  else if a = gfxResetDirty then opGfxResetDirty loci
  else if a = gfxClear then opGfxDraw loci 1 clearArgs
  else if a = gfxBlitRect then opGfxDraw loci 6 blitArgs
  else if a = gfxComposeRect then opGfxDraw loci 9 composeArgs
  else if a = gfxCollide then opGfxCollide loci
  else if a = gfxGetDirty then opGfxGetDirty loci
  else apiReturnErrno loci lociEinval

end Phosphoric
