import Phosphoric.Smf.Parse

/-!
# What a track encodes

A track is a list of messages, each after its delta; a channel message may leave its status to the
running one. The relations here say which bytes encode which messages.

**Theorem (`parseTracks_iff`).** The parser accepts the tracks exactly if they encode lists of
messages, and adds the messages one after another.

**Theorem (`parseTracks_checked`).** It reads nothing outside its bytes, and comes to an end.
-/

namespace Phosphoric.Smf

/-! ## Messages -/

inductive SmfMessage
  | metaEvent (mtype : Byte) (data : List Byte)
  | sysex (b : Byte) (data : List Byte)
  | channel (status : Byte) (data : List Byte)
  deriving DecidableEq

/-- The number in the bytes of a variable-length quantity, after `v`. -/
def vlqFrom (v : Nat) (bytes : List Byte) : Nat :=
  bytes.foldl (fun v b => v * 2 ^ 7 + b.toNat % 2 ^ 7) v

/-- A variable-length quantity of at most `n` bytes. -/
def IsVlq (n : Nat) (bytes : List Byte) : Prop :=
  ∃ high low, bytes = high ++ [low] ∧ high.length < n ∧ (∀ b ∈ high, ¬b < 0x80#8) ∧ low < 0x80#8

/-- The bytes encode the message, under a running status. -/
inductive Encodes (running : Byte) : List Byte → SmfMessage → Prop
  | metaEvent {mtype : Byte} {size data : List Byte} (hvlq : IsVlq 4 size)
      (hsize : vlqFrom 0 size = data.length) :
      Encodes running (0xFF#8 :: mtype :: (size ++ data)) (.metaEvent mtype data)
  | sysex {b : Byte} {size data : List Byte} (hb : b = 0xF0#8 ∨ b = 0xF7#8) (hvlq : IsVlq 4 size)
      (hsize : vlqFrom 0 size = data.length) :
      Encodes running (b :: (size ++ data)) (.sysex b data)
  | status {status : Byte} {data : List Byte} (hstatus : 0x80#8 ≤ status)
      (hdata : channelMsgData status = some data.length) :
      Encodes running (status :: data) (.channel status data)
  | running {b : Byte} {data : List Byte} (hb : b < 0x80#8)
      (hdata : channelMsgData running = some (b :: data).length) :
      Encodes running (b :: data) (.channel running (b :: data))

/-- The running status after a message. -/
def SmfMessage.next : SmfMessage → Byte
  | .channel status _ => status
  | _ => 0x00#8

/-- The bytes of a track encode timed messages. -/
inductive EncodesTrack : Byte → List Byte → List (Nat × SmfMessage) → Prop
  | nil (running : Byte) : EncodesTrack running [] []
  | cons {running : Byte} {delta bytes rest : List Byte} {msg : SmfMessage}
      {events : List (Nat × SmfMessage)} (hdelta : IsVlq 4 delta) (hmsg : Encodes running bytes msg)
      (hrest : EncodesTrack msg.next rest events) :
      EncodesTrack running (delta ++ (bytes ++ rest)) ((vlqFrom 0 delta, msg) :: events)

/-- The bytes encode at most `n` tracks. What is too short for one more is left. -/
inductive EncodesTracks : Nat → List Byte → List (List (Nat × SmfMessage)) → Prop
  | done (rest : List Byte) : EncodesTracks 0 rest []
  | short {n : Nat} {rest : List Byte} (h : rest.length < 8) : EncodesTracks (n + 1) rest []
  | track {n : Nat} {size body rest : List Byte} {events : List (Nat × SmfMessage)}
      {tracks : List (List (Nat × SmfMessage))} (hlen : size.length = 4)
      (hsize : beNat size = body.length) (hbody : EncodesTrack 0x00#8 body events)
      (hrest : EncodesTracks n rest tracks) :
      EncodesTracks (n + 1) (trackMagic ++ (size ++ (body ++ rest))) (events :: tracks)

/-! ## What they add -/

/-- A message after its delta. -/
def SmfState.add (st : SmfState) (event : Nat × SmfMessage) : SmfState :=
  let tick := (st.tick + event.1) % 2 ^ 32
  match event.2 with
  | .metaEvent mtype data =>
    { if mtype = 0x51#8 ∧ data.length = 3 then st.tempo tick (beNat data) else { st with tick } with
      running := 0x00#8 }
  | .sysex b data => { st.message tick (b :: data) with running := 0x00#8 }
  | .channel status data => { st.message tick (status :: data) with running := status }

/-- The messages of a track. -/
def SmfState.addTrack (st : SmfState) (events : List (Nat × SmfMessage)) : SmfState :=
  events.foldl SmfState.add { st with tick := 0, running := 0x00#8 }

/-! ## Readers -/

/-- A parser that ends with a result, or refuses its bytes. -/
def Checked {α : Type} (r : Except SmfError α) : Prop := ∀ e, r = .error e → e = .malformed

theorem Checked.ok {α : Type} (x : α) : Checked (.ok x : Except SmfError α) := nofun

theorem Checked.malformed {α : Type} : Checked (.error .malformed : Except SmfError α) := by
  intro e h
  cases h
  rfl

theorem Checked.bind {α β : Type} {r : Except SmfError α} {f : α → Except SmfError β}
    (h : Checked r) (hf : ∀ x, r = .ok x → Checked (f x)) : Checked (r >>= f) := by
  cases r with
  | error e =>
    intro e' he
    cases he
    exact h e rfl
  | ok x => exact hf x rfl

theorem Checked.ite {α : Type} {p : Prop} [Decidable p] {r s : Except SmfError α} (hr : p → Checked r)
    (hs : ¬p → Checked s) : Checked (if p then r else s) := by
  split_ifs with hp
  · exact hr hp
  · exact hs hp

theorem bind_eq_ok {α β : Type} {r : Except SmfError α} {f : α → Except SmfError β} {y : β} :
    r >>= f = .ok y ↔ ∃ x, r = .ok x ∧ f x = .ok y := by
  cases r with
  | error e => exact iff_of_false nofun nofun
  | ok x =>
    constructor
    · intro h
      exact ⟨x, rfl, h⟩
    · rintro ⟨x', hx, h⟩
      cases hx
      exact h

theorem rdBytes_of_le {n : Nat} {rest : List Byte} (h : n ≤ rest.length) :
    rdBytes n rest = .ok (rest.take n, rest.drop n) := if_pos h

theorem rdVlq_checked (n v : Nat) (rest : List Byte) : Checked (rdVlq n v rest) := by
  induction n generalizing v rest with
  | zero => exact .malformed
  | succ n ih =>
    cases rest with
    | nil => exact .malformed
    | cons b rest =>
      rw [rdVlq, if_neg (List.cons_ne_nil b rest)]
      exact Checked.bind (.ok _) fun x _ => .ite (fun _ => .ok _) fun _ => ih _ _

theorem rdVlq_cons (n v : Nat) (b : Byte) (rest : List Byte) :
    rdVlq (n + 1) v (b :: rest) =
      if b < 0x80#8 then .ok (v * 2 ^ 7 + b.toNat % 2 ^ 7, rest)
      else rdVlq n (v * 2 ^ 7 + b.toNat % 2 ^ 7) rest := by
  rw [rdVlq, if_neg (List.cons_ne_nil b rest)]
  rfl

/-- A variable-length quantity is read, and nothing else. -/
theorem rdVlq_iff {n v x : Nat} {rest rest' : List Byte} :
    rdVlq n v rest = .ok (x, rest') ↔
      ∃ bytes, IsVlq n bytes ∧ vlqFrom v bytes = x ∧ rest = bytes ++ rest' := by
  induction n generalizing v rest with
  | zero =>
    refine iff_of_false nofun ?_
    rintro ⟨bytes, ⟨high, low, -, hlen, -, -⟩, -, -⟩
    exact Nat.not_lt_zero _ hlen
  | succ n ih =>
    cases rest with
    | nil =>
      refine iff_of_false nofun ?_
      rintro ⟨bytes, ⟨high, low, rfl, -, -, -⟩, -, hrest⟩
      simp at hrest
    | cons b rest =>
      rw [rdVlq_cons]
      by_cases hb : b < 0x80#8
      · rw [if_pos hb]
        constructor
        · intro h
          cases h
          exact ⟨[b], ⟨[], b, rfl, Nat.succ_pos n, nofun, hb⟩, rfl, rfl⟩
        · rintro ⟨bytes, ⟨high, low, rfl, -, hhigh, -⟩, hx, hrest⟩
          cases high with
          | nil =>
            cases hrest
            exact congrArg (fun x => Except.ok (x, rest')) hx
          | cons c high =>
            cases hrest
            exact absurd hb (hhigh b (.head _))
      · rw [if_neg hb, ih]
        constructor
        · rintro ⟨bytes, ⟨high, low, rfl, hlen, hhigh, hlow⟩, hx, rfl⟩
          exact ⟨b :: (high ++ [low]), ⟨b :: high, low, rfl, Nat.succ_lt_succ hlen,
            List.forall_mem_cons.mpr ⟨hb, hhigh⟩, hlow⟩, hx, rfl⟩
        · rintro ⟨bytes, ⟨high, low, rfl, hlen, hhigh, hlow⟩, hx, hrest⟩
          cases high with
          | nil =>
            cases hrest
            exact absurd hlow hb
          | cons c high =>
            cases hrest
            exact ⟨high ++ [low], ⟨high, low, rfl, Nat.lt_of_succ_lt_succ hlen,
              fun d hd => hhigh d (.tail _ hd), hlow⟩, hx, rfl⟩

theorem rdVlq_append {bytes : List Byte} (h : IsVlq 4 bytes) (rest : List Byte) :
    rdVlq 4 0 (bytes ++ rest) = .ok (vlqFrom 0 bytes, rest) :=
  rdVlq_iff.mpr ⟨bytes, h, rfl, rfl⟩

theorem IsVlq.ne_nil {n : Nat} {bytes : List Byte} (h : IsVlq n bytes) : bytes ≠ [] := by
  obtain ⟨high, low, rfl, -⟩ := h
  simp

theorem channelMsgData_pos {status : Byte} {n : Nat} (h : channelMsgData status = some n) :
    0 < n := by
  unfold channelMsgData at h
  dsimp only at h
  split_ifs at h <;> cases h <;> decide

/-- The bytes the parser has a case of their own for are the status of no channel message. -/
theorem channelMsgData_none :
    channelMsgData 0x00#8 = none ∧ channelMsgData 0xF0#8 = none ∧
      channelMsgData 0xF7#8 = none ∧ channelMsgData 0xFF#8 = none := by
  decide

theorem Encodes.ne_nil {running : Byte} {bytes : List Byte} {msg : SmfMessage}
    (h : Encodes running bytes msg) : bytes ≠ [] := by
  cases h <;> exact List.cons_ne_nil _ _

/-! ## One message -/

namespace SmfState

variable {st st' : SmfState} {rest rest' : List Byte}

/-- The data of a message, in front of what follows it. -/
theorem withData_iff {n : Nat} {f : List Byte → SmfState} :
    withData n rest f = .ok (st', rest') ↔
      ∃ data, data.length = n ∧ rest = data ++ rest' ∧ st' = f data := by
  rw [withData]
  by_cases hlen : rest.length < n
  · rw [if_pos hlen]
    refine iff_of_false nofun ?_
    rintro ⟨data, rfl, rfl, -⟩
    rw [List.length_append] at hlen
    exact absurd hlen (Nat.not_lt.mpr (Nat.le_add_right _ _))
  · rw [if_neg hlen, rdBytes_of_le (Nat.le_of_not_lt hlen)]
    constructor
    · intro h
      cases h
      exact ⟨rest.take n, List.length_take_of_le (Nat.le_of_not_lt hlen),
        (List.take_append_drop n rest).symm, rfl⟩
    · rintro ⟨data, rfl, rfl, rfl⟩
      rw [List.take_left, List.drop_left]
      rfl

theorem withData_checked (n : Nat) (rest : List Byte) (f : List Byte → SmfState) :
    Checked (withData n rest f) := by
  refine .ite (fun _ => .malformed) fun hlen => ?_
  rw [rdBytes_of_le (Nat.le_of_not_lt hlen)]
  exact .ok _

theorem parseMeta_iff {tick : Nat} : st.parseMeta tick rest = .ok (st', rest') ↔
    ∃ mtype size data, IsVlq 4 size ∧ vlqFrom 0 size = data.length ∧
      rest = mtype :: (size ++ (data ++ rest')) ∧
      st' = { if mtype = 0x51#8 ∧ data.length = 3 then st.tempo tick (beNat data)
        else { st with tick } with running := 0x00#8 } := by
  cases rest with
  | nil => exact iff_of_false nofun nofun
  | cons mtype rest =>
    rw [parseMeta, if_neg (List.cons_ne_nil mtype rest)]
    constructor
    · intro h
      cases hvlq : rdVlq 4 0 rest with
      | error e => simp [rdByte, bind, Except.bind, hvlq] at h
      | ok read =>
        obtain ⟨mlen, after⟩ := read
        obtain ⟨size, hsize, rfl, rfl⟩ := rdVlq_iff.mp hvlq
        simp only [rdByte, bind, Except.bind, hvlq] at h
        obtain ⟨data, hlen, rfl, rfl⟩ := withData_iff.mp h
        exact ⟨mtype, size, data, hsize, hlen.symm, rfl, by rw [hlen]⟩
    · rintro ⟨mtype', size, data, hvlq, hsize, hrest, rfl⟩
      cases hrest
      simp only [rdByte, bind, Except.bind, rdVlq_append hvlq]
      exact withData_iff.mpr ⟨data, hsize.symm, rfl, by rw [hsize]⟩

theorem parseSysex_iff {tick : Nat} {b : Byte} : st.parseSysex tick b rest = .ok (st', rest') ↔
    ∃ size data, IsVlq 4 size ∧ vlqFrom 0 size = data.length ∧ rest = size ++ (data ++ rest') ∧
      st' = { st.message tick (b :: data) with running := 0x00#8 } := by
  rw [parseSysex]
  constructor
  · intro h
    cases hvlq : rdVlq 4 0 rest with
    | error e => simp [bind, Except.bind, hvlq] at h
    | ok read =>
      obtain ⟨slen, after⟩ := read
      obtain ⟨size, hsize, rfl, rfl⟩ := rdVlq_iff.mp hvlq
      simp only [bind, Except.bind, hvlq] at h
      obtain ⟨data, hlen, rfl, rfl⟩ := withData_iff.mp h
      exact ⟨size, data, hsize, hlen.symm, rfl, rfl⟩
  · rintro ⟨size, data, hvlq, hsize, rfl, rfl⟩
    simp only [bind, Except.bind, rdVlq_append hvlq]
    exact withData_iff.mpr ⟨data, hsize.symm, rfl, rfl⟩

theorem parseData_iff {tick : Nat} {status : Byte} :
    st.parseData tick status rest = .ok (st', rest') ↔
      ∃ data, channelMsgData status = some data.length ∧ rest = data ++ rest' ∧
        st' = { st.message tick (status :: data) with running := status } := by
  rw [parseData]
  cases hdata : channelMsgData status with
  | none => exact iff_of_false nofun nofun
  | some n =>
    dsimp only
    rw [withData_iff]
    simp only [Option.some.injEq, eq_comm]

/-- A turn of the loop reads a delta and a message. -/
theorem parseEvent_iff : st.parseEvent rest = .ok (st', rest') ↔
    ∃ delta bytes msg, IsVlq 4 delta ∧ Encodes st.running bytes msg ∧
      rest = delta ++ (bytes ++ rest') ∧ st' = st.add (vlqFrom 0 delta, msg) := by
  rw [parseEvent]
  constructor
  · intro h
    cases hvlq : rdVlq 4 0 rest with
    | error e => simp [bind, Except.bind, hvlq] at h
    | ok read =>
      obtain ⟨value, after⟩ := read
      obtain ⟨delta, hdelta, rfl, rfl⟩ := rdVlq_iff.mp hvlq
      refine ⟨delta, ?_⟩
      simp only [bind, Except.bind, hvlq] at h
      cases after with
      | nil => simp at h
      | cons b after =>
        rw [if_neg (List.cons_ne_nil b after)] at h
        simp only [rdByte] at h
        split_ifs at h with hmeta hsysex hstatus hrunning
        · subst hmeta
          obtain ⟨mtype, size, data, hsize, hlen, rfl, rfl⟩ := parseMeta_iff.mp h
          exact ⟨_, _, hdelta, .metaEvent hsize hlen, by simp, rfl⟩
        · obtain ⟨size, data, hsize, hlen, rfl, rfl⟩ := parseSysex_iff.mp h
          exact ⟨_, _, hdelta, .sysex hsysex hsize hlen, by simp, rfl⟩
        · obtain ⟨data, hdata, rfl, rfl⟩ := parseData_iff.mp h
          exact ⟨_, _, hdelta, .status hstatus hdata, rfl, rfl⟩
        · obtain ⟨data, hdata, hrest, rfl⟩ := parseData_iff.mp h
          cases data with
          | nil => exact absurd (channelMsgData_pos hdata) (Nat.lt_irrefl 0)
          | cons c data =>
            cases hrest
            exact ⟨_, _, hdelta, .running (BitVec.not_le.mp hstatus) hdata, rfl, rfl⟩
  · rintro ⟨delta, bytes, msg, hdelta, hmsg, rfl, rfl⟩
    simp only [bind, Except.bind, rdVlq_append hdelta]
    rw [if_neg (by simp [hmsg.ne_nil])]
    obtain ⟨hzero, hf0, hf7, hff⟩ := channelMsgData_none
    cases hmsg with
    | metaEvent hvlq hsize =>
      simp only [List.cons_append, rdByte, if_pos]
      exact parseMeta_iff.mpr ⟨_, _, _, hvlq, hsize, by simp, rfl⟩
    | sysex hb hvlq hsize =>
      simp only [List.cons_append, rdByte]
      rw [if_neg (by rcases hb with rfl | rfl <;> decide), if_pos hb]
      exact parseSysex_iff.mpr ⟨_, _, hvlq, hsize, by simp, rfl⟩
    | @status status data hstatus hdata =>
      simp only [List.cons_append, rdByte]
      have hmeta : status ≠ 0xFF#8 := by
        rintro rfl
        rw [hff] at hdata
        cases hdata
      have hsysex : ¬(status = 0xF0#8 ∨ status = 0xF7#8) := by
        rintro (rfl | rfl)
        · rw [hf0] at hdata
          cases hdata
        · rw [hf7] at hdata
          cases hdata
      rw [if_neg hmeta, if_neg hsysex, if_pos hstatus]
      exact parseData_iff.mpr ⟨data, hdata, rfl, rfl⟩
    | @running b data hb hdata =>
      simp only [List.cons_append, rdByte]
      have hlow : ∀ c : Byte, 0x80#8 ≤ c → b ≠ c := by
        rintro c hc rfl
        exact absurd hb (BitVec.not_lt.mpr hc)
      have hrunning : st.running ≠ 0x00#8 := by
        intro h
        rw [h, hzero] at hdata
        cases hdata
      rw [if_neg (hlow _ (by decide)), if_neg (not_or.mpr ⟨hlow _ (by decide), hlow _ (by decide)⟩),
        if_neg (BitVec.not_le.mpr hb), if_neg hrunning]
      exact parseData_iff.mpr ⟨b :: data, hdata, rfl, rfl⟩

theorem parseEvent_checked : Checked (st.parseEvent rest) := by
  rw [parseEvent]
  refine (rdVlq_checked _ _ _).bind fun read _ => .ite (fun _ => .malformed) fun hne => ?_
  obtain ⟨value, after⟩ := read
  cases after with
  | nil => exact absurd rfl hne
  | cons b after =>
    refine Checked.bind (.ok _) fun _ hread => ?_
    cases hread
    have hdata (tick : Nat) (status : Byte) (rest : List Byte) :
        Checked (st.parseData tick status rest) := by
      rw [parseData]
      cases channelMsgData status with
      | none => exact .malformed
      | some n => exact withData_checked _ _ _
    refine .ite (fun _ => ?_) fun _ => .ite (fun _ => ?_) fun _ => .ite (fun _ => hdata _ _ _)
      fun _ => .ite (fun _ => .malformed) fun _ => hdata _ _ _
    · rw [parseMeta]
      refine .ite (fun _ => .malformed) fun hne => ?_
      cases after with
      | nil => exact absurd rfl hne
      | cons mtype after =>
        refine Checked.bind (.ok _) fun _ hread => ?_
        cases hread
        exact (rdVlq_checked _ _ _).bind fun _ _ => withData_checked _ _ _
    · exact (rdVlq_checked _ _ _).bind fun _ _ => withData_checked _ _ _

/-! ## Tracks -/

theorem add_running (st : SmfState) (event : Nat × SmfMessage) :
    (st.add event).running = event.2.next := by
  rw [add]
  cases event.2 <;> rfl

theorem parseEvents_cons (fuel : Nat) (st : SmfState) (hrest : rest ≠ []) :
    parseEvents (fuel + 1) st rest =
      st.parseEvent rest >>= fun p => parseEvents fuel p.1 p.2 := by
  cases rest with
  | nil => exact absurd rfl hrest
  | cons b rest => rfl

/-- A turn leaves less of the track. -/
theorem parseEvent_length (h : st.parseEvent rest = .ok (st', rest')) :
    rest'.length < rest.length := by
  obtain ⟨delta, bytes, msg, hdelta, hmsg, rfl, -⟩ := parseEvent_iff.mp h
  have hpos := List.length_pos_iff.mpr hdelta.ne_nil
  simp only [List.length_append]
  omega

/-- The loop adds the messages the track encodes, one after another. -/
theorem parseEvents_iff {fuel : Nat} (hfuel : rest.length ≤ fuel) :
    parseEvents fuel st rest = .ok st' ↔
      ∃ events, EncodesTrack st.running rest events ∧ st' = events.foldl add st := by
  induction fuel generalizing st rest with
  | zero =>
    obtain rfl := List.eq_nil_of_length_eq_zero (Nat.le_zero.mp hfuel)
    constructor
    · intro h
      cases h
      exact ⟨[], .nil _, rfl⟩
    · rintro ⟨events, hevents, rfl⟩
      generalize hnil : ([] : List Byte) = bytes at hevents
      cases hevents with
      | nil => rfl
      | cons hdelta hmsg hrest => simp [hdelta.ne_nil] at hnil
  | succ fuel ih =>
    by_cases hnil : rest = []
    · subst hnil
      constructor
      · intro h
        cases h
        exact ⟨[], .nil _, rfl⟩
      · rintro ⟨events, hevents, rfl⟩
        generalize hnil : ([] : List Byte) = bytes at hevents
        cases hevents with
        | nil => rfl
        | cons hdelta hmsg hrest => simp [hdelta.ne_nil] at hnil
    · rw [parseEvents_cons fuel st hnil]
      constructor
      · intro h
        cases hevent : st.parseEvent rest with
        | error e =>
          rw [hevent] at h
          cases h
        | ok next =>
          obtain ⟨st₁, rest₁⟩ := next
          rw [hevent] at h
          have hlen := parseEvent_length hevent
          obtain ⟨events, hevents, rfl⟩ := (ih (show rest₁.length ≤ fuel by omega)).mp h
          obtain ⟨delta, bytes, msg, hdelta, hmsg, rfl, rfl⟩ := parseEvent_iff.mp hevent
          rw [add_running] at hevents
          exact ⟨_, .cons hdelta hmsg hevents, rfl⟩
      · rintro ⟨events, hevents, rfl⟩
        cases hevents with
        | nil => exact absurd rfl hnil
        | @cons _ delta bytes rest₁ msg events hdelta hmsg hevents =>
          have hevent : st.parseEvent (delta ++ (bytes ++ rest₁)) =
              .ok (st.add (vlqFrom 0 delta, msg), rest₁) :=
            parseEvent_iff.mpr ⟨delta, bytes, msg, hdelta, hmsg, rfl, rfl⟩
          have hlen := parseEvent_length hevent
          rw [hevent]
          refine (ih (show rest₁.length ≤ fuel by omega)).mpr ⟨events, ?_, rfl⟩
          rw [add_running]
          exact hevents

theorem parseEvents_checked {fuel : Nat} (hfuel : rest.length ≤ fuel) :
    Checked (parseEvents fuel st rest) := by
  induction fuel generalizing st rest with
  | zero =>
    obtain rfl := List.eq_nil_of_length_eq_zero (Nat.le_zero.mp hfuel)
    exact .ok _
  | succ fuel ih =>
    by_cases hnil : rest = []
    · subst hnil
      exact .ok _
    · rw [parseEvents_cons fuel st hnil]
      refine parseEvent_checked.bind fun next hevent => ?_
      obtain ⟨st₁, rest₁⟩ := next
      have hlen := parseEvent_length hevent
      exact ih (show rest₁.length ≤ fuel by omega)

theorem parseTrack_iff {body : List Byte} : st.parseTrack body = .ok st' ↔
    ∃ events, EncodesTrack 0x00#8 body events ∧ st' = st.addTrack events :=
  parseEvents_iff (Nat.le_refl _)

theorem parseTrack_checked {body : List Byte} : Checked (st.parseTrack body) :=
  parseEvents_checked (Nat.le_refl _)

theorem rdBe_of_le {n : Nat} (h : n ≤ rest.length) :
    rdBe n rest = .ok (beNat (rest.take n), rest.drop n) := by
  rw [rdBe, if_neg (Nat.not_lt.mpr h), rdBytes_of_le h]
  rfl

/-- The loop over the tracks, where there are bytes for one more. -/
theorem parseTracks_long (n : Nat) (st : SmfState) (hlen : 8 ≤ rest.length) :
    parseTracks (n + 1) st rest =
      if rest.take 4 ≠ trackMagic then .error .malformed
      else if (rest.drop 8).length < beNat ((rest.drop 4).take 4) then .error .malformed
      else
        st.parseTrack ((rest.drop 8).take (beNat ((rest.drop 4).take 4))) >>= fun st =>
          parseTracks n st ((rest.drop 8).drop (beNat ((rest.drop 4).take 4))) := by
  rw [parseTracks, if_neg (Nat.not_lt.mpr hlen), rdBytes_of_le (by omega)]
  simp only [bind, Except.bind]
  by_cases hmagic : rest.take 4 = trackMagic
  · have hdrop : (rest.drop 4).drop 4 = rest.drop 8 := by rw [List.drop_drop]
    rw [if_neg (not_not_intro hmagic), if_neg (not_not_intro hmagic),
      rdBe_of_le (by rw [List.length_drop]; omega), hdrop]
    dsimp only
    by_cases hshort : (rest.drop 8).length < beNat ((rest.drop 4).take 4)
    · rw [if_pos hshort, if_pos hshort]
    · rw [if_neg hshort, if_neg hshort, rdBytes_of_le (Nat.le_of_not_lt hshort)]
  · rw [if_pos hmagic, if_pos hmagic]

/-- The tracks the bytes encode are added one after another. -/
theorem parseTracks_iff {n : Nat} : parseTracks n st rest = .ok st' ↔
    ∃ tracks, EncodesTracks n rest tracks ∧ st' = tracks.foldl addTrack st := by
  induction n generalizing st rest with
  | zero =>
    constructor
    · intro h
      cases h
      exact ⟨[], .done rest, rfl⟩
    · rintro ⟨tracks, htracks, rfl⟩
      cases htracks
      rfl
  | succ n ih =>
    by_cases hlen : rest.length < 8
    · rw [parseTracks, if_pos hlen]
      constructor
      · intro h
        cases h
        exact ⟨[], .short hlen, rfl⟩
      · rintro ⟨tracks, htracks, rfl⟩
        cases htracks with
        | short => rfl
        | track hsize =>
          simp only [List.length_append, trackMagic, List.length_cons, hsize] at hlen
          omega
    · rw [parseTracks_long n st (Nat.le_of_not_lt hlen)]
      constructor
      · intro h
        split_ifs at h with hmagic hshort
        rw [not_not] at hmagic
        obtain ⟨st₁, htrack, htracks⟩ := bind_eq_ok.mp h
        obtain ⟨events, hevents, rfl⟩ := parseTrack_iff.mp htrack
        obtain ⟨tracks, hrest, rfl⟩ := ih.mp htracks
        have hsplit : rest = trackMagic ++ ((rest.drop 4).take 4 ++
            ((rest.drop 8).take (beNat ((rest.drop 4).take 4)) ++
              (rest.drop 8).drop (beNat ((rest.drop 4).take 4)))) := by
          rw [List.take_append_drop, ← List.drop_drop (i := 4) (j := 4), List.take_append_drop,
            ← hmagic, List.take_append_drop]
        refine ⟨events :: tracks, ?_, rfl⟩
        rw [hsplit]
        refine .track ?_ ?_ hevents hrest
        · rw [List.length_take, List.length_drop]
          omega
        · rw [List.length_take_of_le (Nat.le_of_not_lt hshort)]
      · rintro ⟨tracks, htracks, rfl⟩
        cases htracks with
        | short hshort => exact absurd hshort hlen
        | @track _ size body after events tracks hsize hbody hevents htracks =>
          have hmagic : (trackMagic ++ (size ++ (body ++ after))).take 4 = trackMagic := rfl
          have hfour : (trackMagic ++ (size ++ (body ++ after))).drop 4 =
              size ++ (body ++ after) := rfl
          have hnumber : (size ++ (body ++ after)).take 4 = size := by
            rw [← hsize, List.take_left]
          have height : (trackMagic ++ (size ++ (body ++ after))).drop 8 = body ++ after := by
            rw [show 8 = 4 + 4 from rfl, ← List.drop_drop, hfour, ← hsize, List.drop_left]
          rw [if_neg (not_not_intro hmagic), height, hfour, hnumber, hbody, List.length_append,
            if_neg (Nat.not_lt.mpr (Nat.le_add_right _ _)), List.take_left, List.drop_left,
            parseTrack_iff.mpr ⟨events, hevents, rfl⟩]
          exact ih.mpr ⟨tracks, htracks, rfl⟩

theorem parseTracks_checked (n : Nat) : Checked (parseTracks n st rest) := by
  induction n generalizing st rest with
  | zero => exact .ok _
  | succ n ih =>
    by_cases hlen : rest.length < 8
    · rw [parseTracks, if_pos hlen]
      exact .ok _
    · rw [parseTracks_long n st (Nat.le_of_not_lt hlen)]
      exact .ite (fun _ => .malformed) fun _ => .ite (fun _ => .malformed) fun _ =>
        parseTrack_checked.bind fun _ _ => ih

end SmfState

end Phosphoric.Smf
