import Phosphoric.Smf.Pool

/-!
# Running status and the merged tracks

A channel message may leave its status byte to the one before. `encodeTrack` encodes a list of
timed messages with all status bytes or without those that are running.

**Theorem (`smfParse_merge`).** Both files of some tracks give the same song. Its events are in time
with the tracks as long as no track comes to a tick past 32 bits and there are no more messages than
32 bits can number; where a track does come to such a tick, they are not.
-/

namespace Phosphoric.Smf

/-! ## Encoders -/

/-- A number in `n` bytes, the highest first. -/
def beBytes : Nat → Nat → List Byte
  | 0, _ => []
  | n + 1, v => BitVec.ofNat 8 (v / 256 ^ n) :: beBytes n v

/-- The bytes of a variable-length quantity before the last one, at most `n` of them. -/
def vlqHigh : Nat → Nat → List Byte
  | 0, _ => []
  | n + 1, v => if v = 0 then [] else vlqHigh n (v / 2 ^ 7) ++ [BitVec.ofNat 8 (2 ^ 7 + v % 2 ^ 7)]

/-- A number as a variable-length quantity. -/
def vlqBytes (v : Nat) : List Byte := vlqHigh 3 (v / 2 ^ 7) ++ [BitVec.ofNat 8 (v % 2 ^ 7)]

/-- A message, with its status byte or, where it is running, without. -/
def encodeMessage (explicit : Bool) (running : Byte) : SmfMessage → List Byte
  | .metaEvent mtype data => 0xFF#8 :: mtype :: (vlqBytes data.length ++ data)
  | .sysex b data => b :: (vlqBytes data.length ++ data)
  | .channel status data => if explicit = false ∧ status = running then data else status :: data

/-- A track of timed messages. -/
def encodeTrack (explicit : Bool) : Byte → List (Nat × SmfMessage) → List Byte
  | _, [] => []
  | running, (delta, msg) :: events =>
    vlqBytes delta ++ (encodeMessage explicit running msg ++ encodeTrack explicit msg.next events)

/-- A file of tracks. -/
def encodeFile (format division : Nat) (bodies : List (List Byte)) : List Byte :=
  headerMagic ++ (beBytes 4 6 ++ (beBytes 2 format ++ (beBytes 2 bodies.length ++
    (beBytes 2 division ++ (bodies.map fun body =>
      trackMagic ++ (beBytes 4 body.length ++ body)).flatten))))

/-- A channel or a system-exclusive message, as there can be one in a track. -/
def SmfMessage.Valid : SmfMessage → Prop
  | .metaEvent _ _ => False
  | .sysex b data => (b = 0xF0#8 ∨ b = 0xF7#8) ∧ data.length < 2 ^ 28
  | .channel status data =>
    0x80#8 ≤ status ∧ channelMsgData status = some data.length ∧ ∀ d ∈ data, d < 0x80#8

instance : DecidablePred SmfMessage.Valid
  | .metaEvent _ _ => inferInstanceAs (Decidable False)
  | .sysex b data => inferInstanceAs (Decidable ((b = _ ∨ b = _) ∧ data.length < 2 ^ 28))
  | .channel status data =>
    inferInstanceAs (Decidable (0x80#8 ≤ status ∧ channelMsgData status = some data.length ∧
      ∀ d ∈ data, d < 0x80#8))

/-- A track of such messages, each after a delta of at most four bytes. -/
def ValidTrack (events : List (Nat × SmfMessage)) : Prop :=
  ∀ event ∈ events, event.1 < 2 ^ 28 ∧ event.2.Valid

theorem foldl_beBytes (n v acc : Nat) :
    (beBytes n v).foldl (fun v b => v * 256 + b.toNat) acc = acc * 256 ^ n + v % 256 ^ n := by
  induction n generalizing acc with
  | zero => simp [beBytes, Nat.mod_one]
  | succ n ih =>
    have hbyte : v / 256 ^ n % 256 * 256 ^ n + v % 256 ^ n = v % 256 ^ (n + 1) := by
      rw [Nat.pow_succ, Nat.mod_mul, Nat.mul_comm]
      omega
    rw [beBytes, List.foldl_cons, ih, BitVec.toNat_ofNat, ← hbyte, Nat.add_mul, Nat.pow_succ']
    ring

theorem beBytes_length (n v : Nat) : (beBytes n v).length = n := by
  induction n with
  | zero => rfl
  | succ n ih => exact congrArg (· + 1) ih

theorem beNat_beBytes {n v : Nat} (h : v < 256 ^ n) : beNat (beBytes n v) = v := by
  rw [beNat, foldl_beBytes, Nat.zero_mul, Nat.zero_add, Nat.mod_eq_of_lt h]

theorem vlqHigh_spec (n v : Nat) :
    (vlqHigh n v).length ≤ n ∧ (∀ b ∈ vlqHigh n v, ¬b < 0x80#8) ∧
      vlqFrom 0 (vlqHigh n v) = v % 2 ^ (7 * n) := by
  induction n generalizing v with
  | zero => simp [vlqHigh, vlqFrom, Nat.mod_one]
  | succ n ih =>
    rw [vlqHigh]
    by_cases hv : v = 0
    · simp [hv, vlqFrom]
    · obtain ⟨hlen, hhigh, hvalue⟩ := ih (v / 2 ^ 7)
      rw [if_neg hv]
      refine ⟨?_, ?_, ?_⟩
      · simp only [List.length_append, List.length_singleton]
        omega
      · intro b hb
        rcases List.mem_append.mp hb with hb | hb
        · exact hhigh b hb
        · rw [List.mem_singleton.mp hb, BitVec.lt_def, BitVec.toNat_ofNat]
          change ¬_ < 128
          omega
      · rw [vlqFrom] at hvalue ⊢
        rw [List.foldl_append, hvalue, List.foldl_cons, List.foldl_nil, BitVec.toNat_ofNat,
          Nat.mul_succ, Nat.pow_add, Nat.mul_comm (2 ^ (7 * n)), Nat.mod_mul]
        omega

theorem vlqBytes_isVlq (v : Nat) : IsVlq 4 (vlqBytes v) := by
  obtain ⟨hlen, hhigh, -⟩ := vlqHigh_spec 3 (v / 2 ^ 7)
  refine ⟨_, _, rfl, Nat.lt_succ_of_le hlen, hhigh, ?_⟩
  rw [BitVec.lt_def, BitVec.toNat_ofNat]
  change _ < 128
  omega

theorem vlqFrom_vlqBytes {v : Nat} (h : v < 2 ^ 28) : vlqFrom 0 (vlqBytes v) = v := by
  obtain ⟨-, -, hvalue⟩ := vlqHigh_spec 3 (v / 2 ^ 7)
  rw [vlqFrom] at hvalue
  rw [vlqFrom, vlqBytes, List.foldl_append, hvalue, List.foldl_cons, List.foldl_nil,
    BitVec.toNat_ofNat]
  omega

theorem encodeMessage_encodes (explicit : Bool) (running : Byte) {msg : SmfMessage}
    (h : msg.Valid) : Encodes running (encodeMessage explicit running msg) msg := by
  cases msg with
  | metaEvent mtype data => exact h.elim
  | sysex b data => exact .sysex h.1 (vlqBytes_isVlq _) (vlqFrom_vlqBytes h.2)
  | channel status data =>
    obtain ⟨hstatus, hdata, hlow⟩ := h
    rw [encodeMessage]
    split_ifs with hrunning
    · obtain ⟨-, rfl⟩ := hrunning
      cases data with
      | nil => exact absurd (channelMsgData_pos hdata) (Nat.lt_irrefl 0)
      | cons b data => exact .running (hlow b (.head _)) hdata
    · exact .status hstatus hdata

/-- The bytes of a track encode it, with or without the running status bytes. -/
theorem encodeTrack_encodes (explicit : Bool) (running : Byte) {events : List (Nat × SmfMessage)}
    (h : ValidTrack events) :
    EncodesTrack running (encodeTrack explicit running events) events := by
  induction events generalizing running with
  | nil => exact .nil running
  | cons event events ih =>
    obtain ⟨delta, msg⟩ := event
    obtain ⟨hdelta, hmsg⟩ := h _ (.head _)
    have hrest := EncodesTrack.cons (vlqBytes_isVlq delta) (encodeMessage_encodes explicit running hmsg)
      (ih msg.next fun event hevent => h event (.tail _ hevent))
    rw [vlqFrom_vlqBytes hdelta] at hrest
    exact hrest

theorem encodesTracks_bodies {bodies : List (List Byte)} {tracks : List (List (Nat × SmfMessage))}
    (h : List.Forall₂ (EncodesTrack 0x00#8) bodies tracks)
    (hlen : ∀ body ∈ bodies, body.length < 2 ^ 32) :
    EncodesTracks bodies.length
      (bodies.map fun body => trackMagic ++ (beBytes 4 body.length ++ body)).flatten tracks := by
  induction h with
  | nil => exact .done _
  | cons hbody htracks ih =>
    have hsize := beNat_beBytes (n := 4) (hlen _ (.head _))
    have hrest := ih fun body hmem => hlen body (.tail _ hmem)
    have hall := EncodesTracks.track rfl hsize hbody hrest
    rw [List.map_cons, List.flatten_cons, List.append_assoc, List.append_assoc]
    exact hall

/-- The song of a file of tracks, however they are encoded. -/
theorem smfParse_encodeFile {format division : Nat} (hformat : format < 2 ^ 16)
    (hdivision : division < 2 ^ 16) (hgood : ¬BadDivision division) {bodies : List (List Byte)}
    {tracks : List (List (Nat × SmfMessage))} (h : List.Forall₂ (EncodesTrack 0x00#8) bodies tracks)
    (hcount : bodies.length < 2 ^ 16) (hlen : ∀ body ∈ bodies, body.length < 2 ^ 32) :
    smfParse (encodeFile format division bodies) = .ok {
      events := ((tracks.foldl SmfState.addTrack .start).recs.insertionSort RecLe).filterMap
        SmfRec.event
      pool := (tracks.foldl SmfState.addTrack .start).pool, format, ntracks := tracks.length } := by
  have hparse : SmfState.parseTracks bodies.length .start
      (bodies.map fun body => trackMagic ++ (beBytes 4 body.length ++ body)).flatten =
        .ok (tracks.foldl SmfState.addTrack .start) :=
    SmfState.parseTracks_iff.mpr ⟨tracks, encodesTracks_bodies h hlen, rfl⟩
  have hfields : (encodeFile format division bodies).take 4 = headerMagic ∧
      ((encodeFile format division bodies).drop 8).take 2 = beBytes 2 format ∧
      ((encodeFile format division bodies).drop 10).take 2 = beBytes 2 bodies.length ∧
      ((encodeFile format division bodies).drop 12).take 2 = beBytes 2 division ∧
      ((encodeFile format division bodies).drop 4).take 4 = beBytes 4 6 ∧
      (encodeFile format division bodies).drop 14 =
        (bodies.map fun body => trackMagic ++ (beBytes 4 body.length ++ body)).flatten :=
    ⟨rfl, rfl, rfl, rfl, rfl, rfl⟩
  obtain ⟨hmagic, hformat', hcount', hdivision', hsize, hbodies⟩ := hfields
  have hstart : trackStart (encodeFile format division bodies) = 14 := by
    rw [trackStart, hsize, beNat_beBytes (by decide)]
    rfl
  have hlong : 14 ≤ (encodeFile format division bodies).length := by
    have hmagicLen : headerMagic.length = 4 := rfl
    simp only [encodeFile, List.length_append, beBytes_length, hmagicLen]
    omega
  rw [smfParse_long hlong, if_neg (not_not_intro hmagic), hformat', hcount', hdivision', hstart,
    hbodies, beNat_beBytes (show format < 256 ^ 2 from hformat),
    beNat_beBytes (show division < 256 ^ 2 from hdivision),
    beNat_beBytes (show bodies.length < 256 ^ 2 from hcount), hparse, ← h.length_eq]
  exact if_neg hgood

/-! ## The records of a track -/

/-- The record of a message in the state. -/
def SmfState.messageRec (st : SmfState) (event : Nat × SmfMessage) : SmfRec where
  tick := (st.tick + event.1) % 2 ^ 32
  seq := st.seq
  isTempo := false
  tempoUs := 0
  off := st.pool.length % 2 ^ 32
  len := (event.2.wire.getD []).length % 2 ^ 16

/-- The records of the messages of a track. -/
def trackRecs : SmfState → List (Nat × SmfMessage) → List SmfRec
  | _, [] => []
  | st, event :: events => st.messageRec event :: trackRecs (st.add event) events

/-- The records of each track. -/
def fileRecs : SmfState → List (List (Nat × SmfMessage)) → List (List SmfRec)
  | _, [] => []
  | st, events :: tracks =>
    trackRecs { st with tick := 0, running := 0x00#8 } events ::
      fileRecs (st.addTrack events) tracks

/-- The events of a track whose bytes start at `n` of the pool: the tick of each is the sum of the
deltas up to it. -/
def placeTrack : Nat → Nat → List (Nat × SmfMessage) → List SmfEvent
  | _, _, [] => []
  | n, tick, (delta, msg) :: events =>
    { tick := tick + delta, off := n % 2 ^ 32, len := (msg.wire.getD []).length % 2 ^ 16 } ::
      placeTrack (n + (msg.wire.getD []).length) (tick + delta) events

/-- The events of each track. -/
def placeTracks : Nat → List (List (Nat × SmfMessage)) → List (List SmfEvent)
  | _, [] => []
  | n, events :: tracks =>
    placeTrack n 0 events ::
      placeTracks (n + (events.filterMap fun event => event.2.wire).flatten.length) tracks

/-- The tick in 32 bits. -/
def SmfEvent.wrap (e : SmfEvent) : SmfEvent := { e with tick := e.tick % 2 ^ 32 }

section Records

variable {st : SmfState} {event : Nat × SmfMessage} {events : List (Nat × SmfMessage)}

theorem add_of_valid (st : SmfState) (h : event.2.Valid) :
    (st.add event).recs = st.recs ++ [st.messageRec event] ∧
      (st.add event).tick = (st.tick + event.1) % 2 ^ 32 ∧
      (st.add event).seq = (st.seq + 1) % 2 ^ 32 := by
  obtain ⟨delta, msg⟩ := event
  cases msg with
  | metaEvent mtype data => exact h.elim
  | sysex b data => exact ⟨rfl, rfl, rfl⟩
  | channel status data => exact ⟨rfl, rfl, rfl⟩

theorem foldl_add_recs (h : ValidTrack events) :
    (events.foldl SmfState.add st).recs = st.recs ++ trackRecs st events := by
  induction events generalizing st with
  | nil => exact (List.append_nil _).symm
  | cons event events ih =>
    have hfirst := (add_of_valid st (h event (.head _)).2).1
    rw [List.foldl_cons, ih fun e he => h e (.tail _ he), hfirst, trackRecs, List.append_assoc]
    rfl

/-- The number of the next record, after the messages of a track. -/
theorem foldl_add_seq (h : ValidTrack events) {seq : Nat} (hseq : st.seq = seq % 2 ^ 32) :
    (events.foldl SmfState.add st).seq = (seq + events.length) % 2 ^ 32 := by
  induction events generalizing st seq with
  | nil => exact hseq
  | cons event events ih =>
    have hfirst := (add_of_valid st (h event (.head _)).2).2.2
    have hnext : (st.add event).seq = (seq + 1) % 2 ^ 32 := by omega
    rw [List.foldl_cons, ih (fun e he => h e (.tail _ he)) hnext, List.length_cons, Nat.add_assoc,
      Nat.add_comm 1]

theorem trackRecs_tick_lt : ∀ r ∈ trackRecs st events, r.tick < 2 ^ 32 := by
  induction events generalizing st with
  | nil => exact fun _ h => nomatch h
  | cons event events ih =>
    exact List.forall_mem_cons.mpr ⟨Nat.mod_lt _ (by decide), ih⟩

theorem trackRecs_event (h : ValidTrack events) {tick : Nat} (htick : st.tick = tick % 2 ^ 32) :
    (trackRecs st events).filterMap SmfRec.event =
      (placeTrack st.pool.length tick events).map SmfEvent.wrap := by
  induction events generalizing st tick with
  | nil => rfl
  | cons event events ih =>
    obtain ⟨-, hnext, -⟩ := add_of_valid st (h event (.head _)).2
    have htick' : (st.tick + event.1) % 2 ^ 32 = (tick + event.1) % 2 ^ 32 := by
      rw [htick, Nat.mod_add_mod]
    have hrest := ih (fun e he => h e (.tail _ he)) (hnext.trans htick')
    rw [add_pool, List.length_append] at hrest
    rw [trackRecs, List.filterMap_cons]
    change SmfEvent.mk _ _ _ :: _ = _
    rw [hrest, placeTrack, List.map_cons]
    refine congrArg (· :: _) ?_
    rw [SmfEvent.wrap]
    dsimp only [SmfState.messageRec]
    rw [htick']

/-- The records of a track are in order where neither its ticks nor the numbers of its records
come past 32 bits. -/
theorem trackRecs_pairwise (h : ValidTrack events) {tick seq : Nat} (htick : st.tick = tick % 2 ^ 32)
    (hseq : st.seq = seq % 2 ^ 32) (hsum : tick + (events.map Prod.fst).sum < 2 ^ 32)
    (hcount : seq + events.length ≤ 2 ^ 32) :
    (trackRecs st events).Pairwise RecLe ∧
      ∀ r ∈ trackRecs st events, tick ≤ r.tick ∧ seq ≤ r.seq := by
  induction events generalizing st tick seq with
  | nil => exact ⟨.nil, fun _ h => nomatch h⟩
  | cons event events ih =>
    obtain ⟨-, hnext, hnextSeq⟩ := add_of_valid st (h event (.head _)).2
    rw [List.map_cons, List.sum_cons] at hsum
    rw [List.length_cons] at hcount
    obtain ⟨hrest, hafter⟩ := ih (fun e he => h e (.tail _ he))
      (show (st.add event).tick = (tick + event.1) % 2 ^ 32 by rw [hnext]; omega)
      (show (st.add event).seq = (seq + 1) % 2 ^ 32 by rw [hnextSeq]; omega)
      (by omega) (by omega)
    have hfirst : (st.messageRec event).tick = tick + event.1 ∧ (st.messageRec event).seq = seq := by
      rw [SmfState.messageRec]
      dsimp only
      omega
    refine ⟨List.pairwise_cons.mpr ⟨fun r hr => ?_, hrest⟩,
      List.forall_mem_cons.mpr ⟨by omega, fun r hr => ?_⟩⟩
    · have := hafter r hr
      rw [RecLe]
      omega
    · have := hafter r hr
      omega

theorem placeTrack_last {n tick : Nat} (hne : events ≠ []) :
    ∃ e ∈ placeTrack n tick events, e.tick = tick + (events.map Prod.fst).sum := by
  induction events generalizing n tick with
  | nil => exact absurd rfl hne
  | cons event events ih =>
    obtain ⟨delta, msg⟩ := event
    by_cases hlast : events = []
    · subst hlast
      exact ⟨_, .head _, by simp⟩
    · obtain ⟨e, he, htick⟩ := ih hlast
      refine ⟨e, .tail _ he, ?_⟩
      rw [htick, List.map_cons, List.sum_cons, Nat.add_assoc]

theorem placeTrack_tick_le {n tick : Nat} :
    ∀ e ∈ placeTrack n tick events, e.tick ≤ tick + (events.map Prod.fst).sum := by
  induction events generalizing n tick with
  | nil => exact fun _ h => nomatch h
  | cons event events ih =>
    obtain ⟨delta, msg⟩ := event
    rw [List.map_cons, List.sum_cons]
    refine List.forall_mem_cons.mpr ⟨by dsimp only; omega, fun e he => ?_⟩
    have := ih e he
    dsimp only
    omega

end Records

/-! ## The records of the file -/

section File

variable {st : SmfState} {tracks : List (List (Nat × SmfMessage))}

/-- The records of all tracks. -/
theorem foldl_addTrack_recs (h : ∀ events ∈ tracks, ValidTrack events) :
    (tracks.foldl SmfState.addTrack st).recs = st.recs ++ (fileRecs st tracks).flatten := by
  induction tracks generalizing st with
  | nil => exact (List.append_nil _).symm
  | cons events tracks ih =>
    have hfirst : (st.addTrack events).recs =
        st.recs ++ trackRecs { st with tick := 0, running := 0x00#8 } events :=
      foldl_add_recs (h events (.head _))
    rw [List.foldl_cons, ih fun e he => h e (.tail _ he), hfirst, fileRecs, List.flatten_cons,
      List.append_assoc]

theorem fileRecs_tick_lt : ∀ recs ∈ fileRecs st tracks, ∀ r ∈ recs, r.tick < 2 ^ 32 := by
  induction tracks generalizing st with
  | nil => exact fun _ h => nomatch h
  | cons events tracks ih => exact List.forall_mem_cons.mpr ⟨trackRecs_tick_lt, ih⟩

theorem fileRecs_event (h : ∀ events ∈ tracks, ValidTrack events) :
    (fileRecs st tracks).map (·.filterMap SmfRec.event) =
      (placeTracks st.pool.length tracks).map (·.map SmfEvent.wrap) := by
  induction tracks generalizing st with
  | nil => rfl
  | cons events tracks ih =>
    have hfirst : (trackRecs { st with tick := 0, running := 0x00#8 } events).filterMap
        SmfRec.event = (placeTrack st.pool.length 0 events).map SmfEvent.wrap :=
      trackRecs_event (h events (.head _)) rfl
    have hpool : (st.addTrack events).pool.length = st.pool.length +
        (events.filterMap fun event => event.2.wire).flatten.length := by
      rw [SmfState.addTrack, foldl_add_pool, List.length_append]
    rw [fileRecs, List.map_cons, ih fun e he => h e (.tail _ he), hfirst, hpool]
    rfl

/-- Each track's records are in order. -/
theorem fileRecs_pairwise (h : ∀ events ∈ tracks, ValidTrack events)
    (hsum : ∀ events ∈ tracks, (events.map Prod.fst).sum < 2 ^ 32) {seq : Nat}
    (hseq : st.seq = seq % 2 ^ 32) (hcount : seq + tracks.flatten.length ≤ 2 ^ 32) :
    ∀ recs ∈ fileRecs st tracks, recs.Pairwise RecLe := by
  induction tracks generalizing st seq with
  | nil => exact fun _ h => nomatch h
  | cons events tracks ih =>
    rw [List.flatten_cons, List.length_append] at hcount
    have hvalid := h events (.head _)
    have hlt : 0 + (events.map Prod.fst).sum < 2 ^ 32 := by
      rw [Nat.zero_add]
      exact hsum events (.head _)
    have hfirst : (trackRecs { st with tick := 0, running := 0x00#8 } events).Pairwise RecLe :=
      (@trackRecs_pairwise { st with tick := 0, running := 0x00#8 } events hvalid 0 seq rfl hseq hlt
        (by omega)).1
    have hnext : (st.addTrack events).seq = (seq + events.length) % 2 ^ 32 :=
      foldl_add_seq hvalid hseq
    exact List.forall_mem_cons.mpr ⟨hfirst, ih (fun e he => h e (.tail _ he))
      (fun e he => hsum e (.tail _ he)) hnext (by omega)⟩

end File

/-! ## The song -/

/-- The events of the song: in time, those of all tracks at the sums of their deltas, and each
track's in its own order. -/
structure InTime (song : Song) (tracks : List (List (Nat × SmfMessage))) : Prop where
  sorted : song.events.Pairwise fun a b => a.tick ≤ b.tick
  all : song.events.Perm (placeTracks 0 tracks).flatten
  own : ∀ part ∈ placeTracks 0 tracks, part.Sublist song.events

instance : IsTrans SmfRec RecLe where
  trans a b c hab hbc := by
    unfold RecLe at *
    omega

instance : Std.Total RecLe where
  total a b := by
    unfold RecLe
    omega

/-- The events the parser makes of the tracks. -/
def songEvents (tracks : List (List (Nat × SmfMessage))) : List SmfEvent :=
  ((tracks.foldl SmfState.addTrack .start).recs.insertionSort RecLe).filterMap SmfRec.event

section Song

variable {tracks : List (List (Nat × SmfMessage))}

theorem songEvents_sorted : (songEvents tracks).Pairwise fun a b => a.tick ≤ b.tick := by
  refine (List.pairwise_insertionSort RecLe _).filterMap SmfRec.event ?_
  intro r r' hle e he e' he'
  rw [SmfRec.event] at he he'
  split_ifs at he he'
  cases he
  cases he'
  rw [RecLe] at hle
  dsimp only
  omega

theorem start_recs (h : ∀ events ∈ tracks, ValidTrack events) :
    (tracks.foldl SmfState.addTrack .start).recs = (fileRecs .start tracks).flatten :=
  foldl_addTrack_recs h

theorem songEvents_tick_lt (h : ∀ events ∈ tracks, ValidTrack events) :
    ∀ e ∈ songEvents tracks, e.tick < 2 ^ 32 := by
  intro e he
  obtain ⟨r, hr, hevent⟩ := List.mem_filterMap.mp he
  rw [List.mem_insertionSort, start_recs h] at hr
  obtain ⟨recs, hrecs, hr⟩ := List.mem_flatten.mp hr
  have hlt := fileRecs_tick_lt recs hrecs r hr
  rw [SmfRec.event] at hevent
  split_ifs at hevent
  cases hevent
  exact hlt

theorem placeTracks_tick_lt (hsum : ∀ events ∈ tracks, (events.map Prod.fst).sum < 2 ^ 32)
    (n : Nat) : ∀ part ∈ placeTracks n tracks, ∀ e ∈ part, e.tick < 2 ^ 32 := by
  induction tracks generalizing n with
  | nil => exact fun _ h => nomatch h
  | cons events tracks ih =>
    refine List.forall_mem_cons.mpr ⟨fun e he => ?_, ih (fun e he => hsum e (.tail _ he)) _⟩
    have hle := placeTrack_tick_le e he
    have hlt := hsum events (.head _)
    omega

/-- Below 32 bits nothing is wrapped. -/
theorem fileRecs_place (h : ∀ events ∈ tracks, ValidTrack events)
    (hsum : ∀ events ∈ tracks, (events.map Prod.fst).sum < 2 ^ 32) :
    (fileRecs .start tracks).map (·.filterMap SmfRec.event) = placeTracks 0 tracks := by
  have hwrap : (placeTracks 0 tracks).map (·.map SmfEvent.wrap) = placeTracks 0 tracks := by
    have hlt := placeTracks_tick_lt hsum 0
    have hpart : ∀ part ∈ placeTracks 0 tracks, part.map SmfEvent.wrap = id part := by
      intro part hpart
      have hevent : ∀ e ∈ part, e.wrap = id e := by
        intro e he
        rw [SmfEvent.wrap, Nat.mod_eq_of_lt (hlt part hpart e he)]
        rfl
      rw [List.map_congr_left hevent, List.map_id]
      rfl
    rw [List.map_congr_left hpart, List.map_id]
  exact (fileRecs_event h).trans hwrap

/-- Where no tick and no number comes past 32 bits the events are in time. -/
theorem songEvents_inTime (h : ∀ events ∈ tracks, ValidTrack events)
    (hsum : ∀ events ∈ tracks, (events.map Prod.fst).sum < 2 ^ 32)
    (hcount : tracks.flatten.length ≤ 2 ^ 32) {song : Song} (hsong : song.events = songEvents tracks) :
    InTime song tracks := by
  have hplace := fileRecs_place h hsum
  refine ⟨?_, ?_, ?_⟩
  · rw [hsong]
    exact songEvents_sorted
  · have hperm := (List.perm_insertionSort RecLe
      (tracks.foldl SmfState.addTrack .start).recs).filterMap SmfRec.event
    rw [start_recs h] at hperm
    rw [hsong, songEvents, start_recs h, ← hplace, ← List.filterMap_flatten]
    exact hperm
  · intro part hpart
    rw [← hplace] at hpart
    obtain ⟨recs, hrecs, rfl⟩ := List.mem_map.mp hpart
    have hpairwise := fileRecs_pairwise h hsum (show 0 = 0 % 2 ^ 32 from rfl) (by omega) recs hrecs
    rw [hsong, songEvents, start_recs h]
    exact (List.sublist_insertionSort hpairwise
      (List.sublist_flatten_of_mem hrecs)).filterMap SmfRec.event

theorem placeTracks_mem {events : List (Nat × SmfMessage)} (h : events ∈ tracks) (m : Nat) :
    ∃ n, placeTrack n 0 events ∈ placeTracks m tracks := by
  induction tracks generalizing m with
  | nil => cases h
  | cons first tracks ih =>
    obtain rfl | h := List.mem_cons.mp h
    · exact ⟨m, .head _⟩
    · obtain ⟨n, hn⟩ := ih h _
      exact ⟨n, .tail _ hn⟩

/-- Events in time have their ticks in 32 bits. -/
theorem InTime.sum_lt {song : Song} (h : ∀ events ∈ tracks, ValidTrack events)
    (hsong : song.events = songEvents tracks) (htime : InTime song tracks) :
    ∀ events ∈ tracks, (events.map Prod.fst).sum < 2 ^ 32 := by
  intro events hevents
  by_cases hnil : events = []
  · subst hnil
    exact Nat.two_pow_pos 32
  · obtain ⟨n, hpart⟩ := placeTracks_mem hevents 0
    obtain ⟨e, he, htick⟩ := @placeTrack_last events n 0 hnil
    have hmem := (htime.own _ hpart).subset he
    rw [hsong] at hmem
    have hlt := songEvents_tick_lt h e hmem
    omega

end Song

/-- The song of some tracks, with all status bytes or without the running ones. -/
theorem smfParse_tracks {format division : Nat} (hformat : format < 2 ^ 16)
    (hdivision : division < 2 ^ 16) (hgood : ¬BadDivision division)
    {tracks : List (List (Nat × SmfMessage))} (hvalid : ∀ events ∈ tracks, ValidTrack events)
    (hcount : tracks.length < 2 ^ 16) (explicit : Bool)
    (hlen : ∀ events ∈ tracks, (encodeTrack explicit 0x00#8 events).length < 2 ^ 32) :
    smfParse (encodeFile format division (tracks.map (encodeTrack explicit 0x00#8))) = .ok {
      events := songEvents tracks, pool := (tracks.foldl SmfState.addTrack .start).pool, format
      ntracks := tracks.length } := by
  refine smfParse_encodeFile hformat hdivision hgood ?_ (by rw [List.length_map]; exact hcount) ?_
  · rw [List.forall₂_map_left_iff, List.forall₂_same]
    exact fun events h => encodeTrack_encodes explicit 0x00#8 (hvalid events h)
  · intro body hbody
    obtain ⟨events, hevents, rfl⟩ := List.mem_map.mp hbody
    exact hlen events hevents

/-- The two files of some tracks. -/
theorem smfParse_merge {format division : Nat} (hformat : format < 2 ^ 16)
    (hdivision : division < 2 ^ 16) (hgood : ¬BadDivision division)
    {tracks : List (List (Nat × SmfMessage))} (hvalid : ∀ events ∈ tracks, ValidTrack events)
    (hcount : tracks.length < 2 ^ 16)
    (hlen : ∀ explicit, ∀ events ∈ tracks, (encodeTrack explicit 0x00#8 events).length < 2 ^ 32) :
    smfParse (encodeFile format division (tracks.map (encodeTrack false 0x00#8))) =
        smfParse (encodeFile format division (tracks.map (encodeTrack true 0x00#8))) ∧
      ∃ song, smfParse (encodeFile format division (tracks.map (encodeTrack true 0x00#8))) =
          .ok song ∧
        ((∀ events ∈ tracks, (events.map Prod.fst).sum < 2 ^ 32) →
          tracks.flatten.length ≤ 2 ^ 32 → InTime song tracks) ∧
        (InTime song tracks → ∀ events ∈ tracks, (events.map Prod.fst).sum < 2 ^ 32) := by
  have hparse (explicit : Bool) :=
    smfParse_tracks hformat hdivision hgood hvalid hcount explicit (hlen explicit)
  exact ⟨(hparse false).trans (hparse true).symm, _, hparse true,
    fun hsum hmany => songEvents_inTime hvalid hsum hmany rfl, InTime.sum_lt hvalid rfl⟩

/-- Two notes, the second under the running status, and a system-exclusive message between. -/
def noteTracks : List (List (Nat × SmfMessage)) :=
  [[(10, .channel 0x90#8 [60#8, 64#8]), (5, .channel 0x90#8 [62#8, 64#8])],
    [(12, .sysex 0xF0#8 [0x7E#8, 0xF7#8])]]

theorem smfParse_merge_notes :
    smfParse (encodeFile 1 96 (noteTracks.map (encodeTrack false 0x00#8))) =
        smfParse (encodeFile 1 96 (noteTracks.map (encodeTrack true 0x00#8))) ∧
      ∃ song, smfParse (encodeFile 1 96 (noteTracks.map (encodeTrack true 0x00#8))) = .ok song ∧
        InTime song noteTracks := by
  have hvalid : ∀ events ∈ noteTracks, ValidTrack events := by
    unfold ValidTrack
    decide
  obtain ⟨hsame, song, hsong, htime, -⟩ := smfParse_merge (show 1 < 2 ^ 16 by decide)
    (show 96 < 2 ^ 16 by decide) (by decide) hvalid (by decide) (by decide)
  exact ⟨hsame, song, hsong, htime (by decide) (by decide)⟩

/-- Messages so far apart that the last one's tick is past 32 bits. -/
def lateTrack : List (Nat × SmfMessage) :=
  List.replicate 17 (2 ^ 28 - 1, .channel 0xC0#8 [0x01#8])

/-- They are not in time. -/
theorem smfParse_late :
    ∃ song, smfParse (encodeFile 0 96 ([lateTrack].map (encodeTrack true 0x00#8))) = .ok song ∧
      ¬InTime song [lateTrack] := by
  have hvalid : ∀ events ∈ [lateTrack], ValidTrack events := by
    unfold ValidTrack
    decide
  refine ⟨_, smfParse_tracks (by decide) (by decide) (by decide) hvalid (by decide) true
    (by decide), fun htime => ?_⟩
  have hlt := InTime.sum_lt hvalid rfl htime lateTrack (.head _)
  revert hlt
  decide

end Phosphoric.Smf
