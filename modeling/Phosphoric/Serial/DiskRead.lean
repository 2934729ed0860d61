import Mathlib.Data.List.TakeWhile
import Phosphoric.Serial.Telnet

/-!
# The disk read of the PicoWiFi modem

`ATDISKRD` (`pw_disk_read`): the head of an HTTP reply is read line by line, the length of its body
is announced to the Oric, and the body is pushed into the receive ring. A reply is the bytes that
come before the server closes, or says nothing for 8 seconds.

**Theorem (`pwDiskRead_good_iff`).** What is announced is delivered, and what ends with `OK` is
delivered whole, exactly if each reply that is announced has its body, the line reader ends the
head where the body begins, and the ring has room for all of it.

The length is announced before the body is there: the error that follows a body too short is
delivered in its place (`pwDiskRead_short`).
-/

namespace Phosphoric

/-! ## The receive ring -/

/-- What waits in the ring. -/
structure PwRing where
  rx : List Byte
  fits : rx.length ≤ pwRxBufsz

namespace PwRing

theorem append_fits (ring : PwRing) (b : Byte) (hroom : ¬ring.rx.length ≥ pwRxBufsz) :
    (ring.rx ++ [b]).length ≤ pwRxBufsz := by
  rw [List.length_append, List.length_singleton]
  omega

theorem tail_fits (ring : PwRing) : ring.rx.tail.length ≤ pwRxBufsz := by
  rw [List.length_tail]
  exact (Nat.sub_le _ _).trans ring.fits

/-- `pw_rx_push`: a byte for a full ring is lost. -/
def push (ring : PwRing) (b : Byte) : PwRing :=
  if hroom : ring.rx.length ≥ pwRxBufsz then ring else ⟨ring.rx ++ [b], ring.append_fits b hroom⟩

/-- `pw_rx_pop`. -/
def pop (ring : PwRing) : Option Byte × PwRing := (ring.rx.head?, ⟨ring.rx.tail, ring.tail_fits⟩)

/-- `pw_rx_str`, and the loop that pushes a chunk. -/
def str (ring : PwRing) (bytes : List Byte) : PwRing := bytes.foldl push ring

/-- The ring is the one of the telnet decoder. -/
theorem push_eq (pw : TelnetModem) (fits : pw.rx.length ≤ pwRxBufsz) (b : Byte) :
    (push ⟨pw.rx, fits⟩ b).rx = (pwRxPush pw b).rx := by
  unfold push pwRxPush
  dsimp only
  split_ifs <;> rfl

theorem push_rx (ring : PwRing) (b : Byte) :
    (ring.push b).rx = (ring.rx ++ [b]).take pwRxBufsz := by
  unfold push
  split_ifs with hfull
  · have hlen : ring.rx.length = pwRxBufsz := Nat.le_antisymm ring.fits hfull
    rw [← hlen, List.take_left]
  · exact (List.take_of_length_le (ring.append_fits b hfull)).symm

theorem str_rx (ring : PwRing) (bytes : List Byte) :
    (ring.str bytes).rx = (ring.rx ++ bytes).take pwRxBufsz := by
  unfold str
  induction bytes generalizing ring with
  | nil => rw [List.foldl_nil, List.append_nil, List.take_of_length_le ring.fits]
  | cons b bytes ih =>
    rw [List.foldl_cons, ih, push_rx]
    by_cases hfull : ring.rx.length ≥ pwRxBufsz
    · have hlen : ring.rx.length = pwRxBufsz := Nat.le_antisymm ring.fits hfull
      rw [← hlen, List.take_left, List.take_left, List.take_left]
    · rw [List.take_of_length_le (ring.append_fits b hfull), List.append_assoc]
      rfl

end PwRing

/-- What happens to the ring later on. -/
inductive PwRingOp
  | read
  | push (b : Byte)

namespace PwRing

/-- The bytes that the Oric is given. -/
def deliver : List PwRingOp → PwRing → List Byte
  | [], _ => []
  | .read :: ops, ring => ring.pop.1.toList ++ deliver ops ring.pop.2
  | .push b :: ops, ring => deliver ops (ring.push b)

/-- Whatever happens later, the bytes `told` are the next ones, as far as the Oric reads. -/
def Delivers (ring : PwRing) (told : List Byte) : Prop :=
  ∀ ops, ring.deliver ops <+: told ∨ told <+: ring.deliver ops

theorem deliver_of_prefix {ring : PwRing} {told : List Byte} (h : told <+: ring.rx) :
    ring.Delivers told := by
  intro ops
  induction ops generalizing ring told with
  | nil => exact .inl (List.nil_prefix)
  | cons op ops ih =>
    cases op with
    | push b =>
      refine ih ?_
      rw [push_rx]
      exact List.prefix_take_iff.mpr ⟨h.trans (List.prefix_append _ _), h.length_le.trans ring.fits⟩
    | read =>
      cases told with
      | nil => exact .inr List.nil_prefix
      | cons b told =>
        obtain ⟨rest, hrest⟩ := h
        have hpop : ring.pop.1 = some b := congrArg List.head? hrest.symm
        have htail : told <+: ring.pop.2.rx := ⟨rest, congrArg List.tail hrest⟩
        unfold deliver
        rw [hpop]
        exact (ih htail).imp (List.prefix_cons_inj b).mpr (List.prefix_cons_inj b).mpr

/-- As many reads as bytes wait empty the ring. -/
theorem deliver_reads (ring : PwRing) (ops : List PwRingOp) :
    ∃ empty : PwRing, empty.rx = [] ∧
      ring.deliver (List.replicate ring.rx.length .read ++ ops) = ring.rx ++ empty.deliver ops := by
  obtain ⟨rx, fits⟩ := ring
  induction rx with
  | nil => exact ⟨⟨[], fits⟩, rfl, rfl⟩
  | cons b rx ih =>
    obtain ⟨empty, hempty, hdeliver⟩ := ih (Nat.le_of_succ_le fits)
    exact ⟨empty, hempty, congrArg (b :: ·) hdeliver⟩

/-- The bytes told are delivered exactly if they wait in front. -/
theorem delivers_iff {ring : PwRing} {told : List Byte} :
    ring.Delivers told ↔ told <+: ring.rx := by
  refine ⟨fun h => ?_, deliver_of_prefix⟩
  obtain ⟨empty, hempty, hdeliver⟩ := ring.deliver_reads []
  have hall := h (List.replicate ring.rx.length .read ++ [])
  rw [hdeliver, deliver, List.append_nil] at hall
  obtain hprefix | hprefix := hall
  · -- a ring with less than was told: another byte comes
    obtain ⟨rest, rfl⟩ := hprefix
    cases rest with
    | nil => rw [List.append_nil]
    | cons next rest =>
      obtain ⟨empty, hempty, hdeliver⟩ := ring.deliver_reads [.push (next + 1), .read]
      have hother : empty.deliver [.push (next + 1), .read] = [next + 1] := by
        simp [deliver, push, pop, hempty, pwRxBufsz]
      have hnext := h (List.replicate ring.rx.length .read ++ [.push (next + 1), .read])
      rw [hdeliver, hother, List.prefix_append_right_inj, List.prefix_append_right_inj,
        List.cons_prefix_cons, List.cons_prefix_cons] at hnext
      exact absurd hnext (by simp)
  · exact hprefix

end PwRing

/-! ## Numbers and results -/

def pwIsSpace (b : Byte) : Bool := b = 0x20 || (0x09 ≤ b && b ≤ 0x0D)

def pwIsDigit (b : Byte) : Bool := 0x30 ≤ b && b ≤ 0x39

/-- `strtol` in base 10. -/
def strtol (text : List Byte) : Int :=
  let text := text.dropWhile pwIsSpace
  let signed := text.head? = some 0x2D || text.head? = some 0x2B
  let digits := (if signed then text.tail else text).takeWhile pwIsDigit
  let value : Int := digits.foldl (fun n b => 10 * n + (b.toNat - 0x30 : Nat)) 0
  max (-2 ^ 63) (min (2 ^ 63 - 1) (if text.head? = some 0x2D then -value else value))

/-- `atoi` is `strtol`, narrowed to an `int`. -/
def atoi (text : List Byte) : Int := (strtol text).bmod (2 ^ 32)

/-- The results `pw_result` gives here. -/
inductive PwDiskResult
  | ok | error
  deriving DecidableEq

def PwDiskResult.code : PwDiskResult → Int
  | .ok => 0
  | .error => 4

def PwDiskResult.text : PwDiskResult → List Byte
  | .ok => tnText "OK"
  | .error => tnText "ERROR"

/-- What `pw_result` pushes. -/
def pwDiskResult (quiet verbose : Bool) (result : PwDiskResult) : List Byte :=
  if quiet then []
  else if !verbose then tnText "\r\n" ++ decimal result.code ++ tnText "\r\n"
  else tnText "\r\n" ++ result.text ++ tnText "\r\n"

/-! ## The reply -/

/-- `pw_disk_read_line`, with room for `n` bytes: the line and what is left of the reply. -/
def pwDiskReadLine : Nat → List Byte → List Byte × List Byte
  | _, [] => ([], [])
  | 0, reply => ([], reply)
  | n + 1, c :: reply =>
    if c = 0x0A then ([], reply)
    else if c ≠ 0x0D then
      let rest := pwDiskReadLine n reply
      (c :: rest.1, rest.2)
    else pwDiskReadLine (n + 1) reply

/-- The status of the first line, as the C string it is stored in. -/
def pwDiskStatus (line : List Byte) : Int :=
  if line = [] then 0
  else
    let sp := (line.takeWhile (· ≠ 0)).dropWhile (· ≠ 0x20)
    if sp = [] then 0 else atoi sp.tail

def pwLower (b : Byte) : Byte := if 0x41 ≤ b && b ≤ 0x5A then b + 0x20 else b

/-- `strncasecmp` with the name of the length. -/
def pwIsContentLength (line : List Byte) : Bool :=
  (line.take 15).map pwLower = tnText "content-length:"

/-- The lines after the first, up to a blank one or the end of the reply: the length, and what is
left of the reply. -/
def pwDiskHeaders : Nat → List Byte → Int → Int × List Byte
  | 0, reply, clen => (clen, reply)
  | rounds + 1, reply, clen =>
    let line := pwDiskReadLine 255 reply
    if line.1 = [] then (clen, line.2)
    else
      pwDiskHeaders rounds line.2
        (if pwIsContentLength line.1 then strtol (line.1.drop 15) else clen)

/-- The head of a reply: the status, the length and what is left. A line takes a byte at least. -/
def pwDiskHead (reply : List Byte) : Int × Int × List Byte :=
  let first := pwDiskReadLine 255 reply
  (pwDiskStatus first.1, pwDiskHeaders (first.2.length + 1) first.2 (-1))

/-- What is left of a reply after its head. -/
def pwDiskAfter (reply : List Byte) : List Byte := (pwDiskHead reply).2.2

/-- The length of a reply that is announced. -/
def pwDiskAnnounced (reply : List Byte) : Option Nat :=
  let head := pwDiskHead reply
  if (head.1 ≠ 200 ∧ head.1 ≠ 206) ∨ head.2.1 < 0 ∨ 60000 < head.2.1 then none
  else some head.2.1.toNat

def pwDiskHdr (clen : Nat) : List Byte :=
  tnText "\r\n+DISK:" ++ decimal clen ++ tnText "\r\n"

/-- The loop over the body, by chunks of 1024 bytes at most: the bytes pushed, and the bytes that
are missing. -/
def pwDiskBody : Nat → Nat → List Byte → List Byte × Nat
  | 0, remaining, _ => ([], remaining)
  | rounds + 1, remaining, reply =>
    if remaining = 0 then ([], 0)
    else
      let got := reply.take (min 1024 remaining)
      if got = [] then ([], remaining)
      else
        let rest := pwDiskBody rounds (remaining - got.length) (reply.drop got.length)
        (got ++ rest.1, rest.2)

/-- `pw_disk_read`. No reply is a URL that is not one, a server that does not answer, or a request
that is not sent. -/
def pwDiskRead (quiet verbose : Bool) (reply : Option (List Byte)) (ring : PwRing) :
    PwDiskResult × PwRing :=
  match reply with
  | none => (.error, ring.str (pwDiskResult quiet verbose .error))
  | some reply =>
    match pwDiskAnnounced reply with
    | none => (.error, ring.str (pwDiskResult quiet verbose .error))
    | some clen =>
      let body := pwDiskBody clen clen (pwDiskAfter reply)
      let result := if 0 < body.2 then .error else .ok
      let ring := (ring.str (pwDiskHdr clen)).str body.1
      (result, ring.str (pwDiskResult quiet verbose result))

/-! ## What it should do -/

/-- The body of a message, from within its head: what follows the first blank line. `seen` says
whether the line so far has a byte other than a CR. -/
def httpBodyFrom : Bool → List Byte → List Byte
  | _, [] => []
  | seen, b :: bytes =>
    if b = 0x0A then if seen then httpBodyFrom false bytes else bytes
    else httpBodyFrom (seen || b != 0x0D) bytes

def httpBody (reply : List Byte) : List Byte := httpBodyFrom false reply

/-- What a disk read promises, `told` being what it announces and delivers. -/
structure PwDiskGood (quiet verbose : Bool) (reply : Option (List Byte)) (ring : PwRing) :
    Prop where
  /-- What is announced is followed by that many bytes of the body. -/
  announced : ∀ text ∈ reply, ∀ clen ∈ pwDiskAnnounced text, clen ≤ (httpBody text).length ∧
    (pwDiskRead quiet verbose reply ring).2.Delivers
      (ring.rx ++ (pwDiskHdr clen ++ (httpBody text).take clen))
  /-- What ends with `OK` is delivered whole. -/
  ok : (pwDiskRead quiet verbose reply ring).1 = .ok →
    ∃ text ∈ reply, ∃ clen ∈ pwDiskAnnounced text, clen ≤ (httpBody text).length ∧
      (pwDiskRead quiet verbose reply ring).2.Delivers (ring.rx ++
        (pwDiskHdr clen ++ ((httpBody text).take clen ++ pwDiskResult quiet verbose .ok)))

/-! ## Where the head ends -/

theorem httpBodyFrom_suffix (seen : Bool) (bytes : List Byte) :
    httpBodyFrom seen bytes <:+ bytes := by
  induction bytes generalizing seen with
  | nil => exact List.suffix_refl []
  | cons b bytes ih =>
    unfold httpBodyFrom
    split_ifs
    · exact (ih _).trans (List.suffix_cons b bytes)
    · exact List.suffix_cons b bytes
    · exact (ih _).trans (List.suffix_cons b bytes)

/-- A line that is not blank does not lose the body: it is found from some place of a line. -/
theorem pwDiskReadLine_body (n : Nat) (reply : List Byte) (seen : Bool)
    (h : (pwDiskReadLine n reply).1 ≠ [] ∨ seen = true) :
    ∃ seen', httpBodyFrom seen reply = httpBodyFrom seen' (pwDiskReadLine n reply).2 := by
  fun_induction pwDiskReadLine n reply generalizing seen with
  | case1 n => exact ⟨seen, rfl⟩
  | case2 b bytes => exact ⟨seen, rfl⟩
  | case3 n bytes =>
    obtain rfl := h.resolve_left (not_not.mpr rfl)
    exact ⟨false, rfl⟩
  | case4 n c bytes hlf hcr rest ih =>
    obtain ⟨seen', hseen'⟩ := ih true (.inr rfl)
    refine ⟨seen', ?_⟩
    rw [← hseen', httpBodyFrom, if_neg hlf, bne_iff_ne.mpr hcr, Bool.or_true]
  | case5 n c bytes hlf hcr ih =>
    obtain ⟨seen', hseen'⟩ := ih seen h
    refine ⟨seen', ?_⟩
    rw [← hseen', httpBodyFrom, if_neg hlf]
    simp [not_not.mp hcr]

/-- After a blank line the body is not behind. -/
theorem pwDiskReadLine_blank (n : Nat) (reply : List Byte) (seen : Bool)
    (h : (pwDiskReadLine (n + 1) reply).1 = []) :
    httpBodyFrom seen reply <:+ (pwDiskReadLine (n + 1) reply).2 := by
  induction reply with
  | nil => exact List.suffix_refl []
  | cons c bytes ih =>
    unfold pwDiskReadLine at h ⊢
    -- a byte that is kept is no blank line
    split_ifs at h ⊢ with hlf hcr
    · unfold httpBodyFrom
      rw [if_pos hlf]
      split_ifs
      · exact httpBodyFrom_suffix false bytes
      · exact List.suffix_refl bytes
    · have hkept : httpBodyFrom seen (c :: bytes) = httpBodyFrom seen bytes := by
        rw [httpBodyFrom, if_neg hlf]
        simp [not_not.mp hcr]
      rw [hkept]
      exact ih h

theorem pwDiskReadLine_length (n : Nat) (reply : List Byte) :
    (pwDiskReadLine n reply).1.length + (pwDiskReadLine n reply).2.length ≤ reply.length := by
  fun_induction pwDiskReadLine n reply with
  | case1 n => exact le_rfl
  | case2 b bytes => exact (Nat.zero_add _).le
  | case3 n bytes => simp
  | case4 n c bytes hlf hcr rest ih =>
    show rest.1.length + 1 + rest.2.length ≤ bytes.length + 1
    have hrest : rest.1.length + rest.2.length ≤ bytes.length := ih
    omega
  | case5 n c bytes hlf hcr ih => exact ih.trans (Nat.le_succ _)

/-- The line reader does not go past the head. -/
theorem pwDiskHeaders_body (rounds : Nat) (reply : List Byte) (seen : Bool) (clen : Int)
    (hrounds : reply.length < rounds) :
    httpBodyFrom seen reply <:+ (pwDiskHeaders rounds reply clen).2 := by
  induction rounds generalizing reply seen clen with
  | zero => exact absurd hrounds (Nat.not_lt_zero _)
  | succ rounds ih =>
    unfold pwDiskHeaders
    dsimp only
    split_ifs with hblank
    · exact pwDiskReadLine_blank 254 reply seen hblank
    all_goals
      obtain ⟨seen', hseen'⟩ := pwDiskReadLine_body 255 reply seen (.inl hblank)
      have hlength := pwDiskReadLine_length 255 reply
      have hline := List.length_pos_iff.mpr hblank
      rw [hseen']
      exact ih _ _ _ (by omega)

/-- The body of a reply that is announced is at the end of what is left of it. -/
theorem pwDiskAfter_body {text : List Byte} {clen : Nat} (h : clen ∈ pwDiskAnnounced text) :
    httpBody text <:+ pwDiskAfter text := by
  have hline : (pwDiskReadLine 255 text).1 ≠ [] := by
    intro hblank
    have hnone : pwDiskAnnounced text = none := by
      unfold pwDiskAnnounced pwDiskHead pwDiskStatus
      dsimp only
      rw [if_pos hblank]
      exact if_pos (.inl ⟨by decide, by decide⟩)
    rw [hnone] at h
    exact absurd h (Option.not_mem_none clen)
  obtain ⟨seen, hseen⟩ := pwDiskReadLine_body 255 text false (.inl hline)
  unfold httpBody pwDiskAfter pwDiskHead
  rw [hseen]
  exact pwDiskHeaders_body _ _ _ _ (Nat.lt_succ_self _)

/-! ## What is delivered -/

theorem pwDiskBody_eq {rounds remaining : Nat} (hrounds : remaining ≤ rounds)
    (reply : List Byte) :
    pwDiskBody rounds remaining reply = (reply.take remaining, remaining - reply.length) := by
  induction rounds generalizing remaining reply with
  | zero =>
    obtain rfl := Nat.le_zero.mp hrounds
    simp [pwDiskBody]
  | succ rounds ih =>
    unfold pwDiskBody
    dsimp only
    split_ifs with hdone hnone
    · subst hdone
      simp
    · have hlength := congrArg List.length hnone
      rw [List.length_take, List.length_nil] at hlength
      have hreply : reply = [] := List.length_eq_zero_iff.mp (by omega)
      simp [hreply]
    · have hpos := List.length_pos_iff.mpr hnone
      have hgot : (reply.take (min 1024 remaining)).length =
          min (min 1024 remaining) reply.length := List.length_take
      rw [ih (by omega)]
      generalize hk : (reply.take (min 1024 remaining)).length = k at *
      have htake : reply.take (min 1024 remaining) = reply.take k := by
        rw [hgot, List.take_eq_take_iff]
        omega
      rw [htake, List.length_drop]
      refine Prod.ext ?_ (by dsimp only; omega)
      show reply.take k ++ (reply.drop k).take (remaining - k) = reply.take remaining
      rw [← List.take_add, Nat.add_sub_cancel' (by omega)]

section Read

variable {quiet verbose : Bool} {text : List Byte} {clen : Nat} {ring : PwRing}

/-- A length announced that the reply has. -/
theorem pwDiskRead_whole (h : clen ∈ pwDiskAnnounced text)
    (hafter : clen ≤ (pwDiskAfter text).length) :
    (pwDiskRead quiet verbose (some text) ring).1 = .ok ∧
      (pwDiskRead quiet verbose (some text) ring).2.rx =
        (ring.rx ++ (pwDiskHdr clen ++ ((pwDiskAfter text).take clen ++
          pwDiskResult quiet verbose .ok))).take pwRxBufsz := by
  have hbody := pwDiskBody_eq (Nat.le_refl clen) (pwDiskAfter text)
  rw [Nat.sub_eq_zero_of_le hafter] at hbody
  have hread : pwDiskRead quiet verbose (some text) ring =
      (.ok, ((ring.str (pwDiskHdr clen)).str ((pwDiskAfter text).take clen)).str
        (pwDiskResult quiet verbose .ok)) := by
    unfold pwDiskRead
    dsimp only
    rw [Option.mem_def.mp h]
    dsimp only
    rw [hbody]
    rfl
  have hstr : ((ring.str (pwDiskHdr clen)).str ((pwDiskAfter text).take clen)).str
      (pwDiskResult quiet verbose .ok) = ring.str (pwDiskHdr clen ++
        ((pwDiskAfter text).take clen ++ pwDiskResult quiet verbose .ok)) := by
    unfold PwRing.str
    rw [List.foldl_append, List.foldl_append]
  rw [hread, hstr]
  exact ⟨rfl, PwRing.str_rx ring _⟩

/-- For one reply that is announced. -/
theorem pwDiskRead_delivers_iff (h : clen ∈ pwDiskAnnounced text)
    (hclen : clen ≤ (httpBody text).length) :
    (pwDiskRead quiet verbose (some text) ring).2.Delivers (ring.rx ++
        (pwDiskHdr clen ++ ((httpBody text).take clen ++ pwDiskResult quiet verbose .ok))) ↔
      (pwDiskAfter text).take clen = (httpBody text).take clen ∧
        ring.rx.length + (pwDiskHdr clen).length + clen +
          (pwDiskResult quiet verbose .ok).length ≤ pwRxBufsz := by
  have hafter : clen ≤ (pwDiskAfter text).length := hclen.trans (pwDiskAfter_body h).length_le
  rw [PwRing.delivers_iff, (pwDiskRead_whole h hafter).2]
  have htaken : ((pwDiskAfter text).take clen).length = clen := List.length_take_of_le hafter
  have hbody : ((httpBody text).take clen).length = clen := List.length_take_of_le hclen
  constructor
  · intro hprefix
    obtain ⟨hwhole, hfits⟩ := List.prefix_take_iff.mp hprefix
    have heq := hwhole.eq_of_length (by simp only [List.length_append, htaken, hbody])
    have hrest := List.append_cancel_left (List.append_cancel_left heq)
    refine ⟨(List.append_cancel_right hrest).symm, ?_⟩
    simp only [List.length_append, hbody] at hfits
    omega
  · rintro ⟨htake, hfits⟩
    rw [htake]
    refine List.prefix_take_iff.mpr ⟨List.prefix_refl _, ?_⟩
    simp only [List.length_append, hbody]
    omega

end Read

/-- A disk read keeps its promises exactly if each reply that is announced has its body, the head is
ended where the body begins, and the ring has room for all of it. -/
theorem pwDiskRead_good_iff (quiet verbose : Bool) (reply : Option (List Byte)) (ring : PwRing) :
    PwDiskGood quiet verbose reply ring ↔
      ∀ text ∈ reply, ∀ clen ∈ pwDiskAnnounced text,
        clen ≤ (httpBody text).length ∧
        (pwDiskAfter text).take clen = (httpBody text).take clen ∧
        ring.rx.length + (pwDiskHdr clen).length + clen +
          (pwDiskResult quiet verbose .ok).length ≤ pwRxBufsz := by
  constructor
  · rintro ⟨hannounced, hok⟩ text rfl clen hclen
    have hlong := (hannounced text rfl clen hclen).1
    have hafter : clen ≤ (pwDiskAfter text).length :=
      hlong.trans (pwDiskAfter_body hclen).length_le
    obtain ⟨_, htext, other, hother, -, hdelivers⟩ := hok (pwDiskRead_whole hclen hafter).1
    obtain rfl := Option.some.inj htext
    obtain rfl : other = clen := Option.mem_unique hother hclen
    exact ⟨hlong, (pwDiskRead_delivers_iff hclen hlong).mp hdelivers⟩
  · intro hall
    have hwhole : ∀ text ∈ reply, ∀ clen ∈ pwDiskAnnounced text,
        clen ≤ (httpBody text).length ∧
          (pwDiskRead quiet verbose reply ring).2.Delivers (ring.rx ++ (pwDiskHdr clen ++
            ((httpBody text).take clen ++ pwDiskResult quiet verbose .ok))) := by
      rintro text rfl clen hclen
      obtain ⟨hlong, hrest⟩ := hall text rfl clen hclen
      exact ⟨hlong, (pwDiskRead_delivers_iff hclen hlong).mpr hrest⟩
    constructor
    · intro text htext clen hclen
      obtain ⟨hlong, hdelivers⟩ := hwhole text htext clen hclen
      refine ⟨hlong, PwRing.delivers_iff.mpr ?_⟩
      refine List.IsPrefix.trans ?_ (PwRing.delivers_iff.mp hdelivers)
      refine ⟨pwDiskResult quiet verbose .ok, ?_⟩
      simp only [List.append_assoc]
    · intro hok
      cases reply with
      | none => exact absurd hok (by simp [pwDiskRead])
      | some text =>
        cases hannounced : pwDiskAnnounced text with
        | none => exact absurd hok (by simp [pwDiskRead, hannounced])
        | some clen => exact ⟨text, rfl, clen, hannounced, hwhole text rfl clen hannounced⟩

/-- A server that closes after two of four bytes. -/
def pwDiskShort : List Byte := tnText "HTTP/1.1 200 OK\r\nContent-Length: 4\r\n\r\nab"

/-- What follows the two bytes is the error. -/
theorem pwDiskRead_short :
    ¬∀ quiet verbose reply ring, PwDiskGood quiet verbose reply ring := by
  intro hall
  have hgood := hall false true (some pwDiskShort) ⟨[], Nat.zero_le _⟩
  have hlong := (hgood.announced pwDiskShort rfl 4 (by decide +kernel)).1
  exact absurd hlong (by decide +kernel)

end Phosphoric
