import Phosphoric.Smf.Track

/-!
# The pool of wire bytes

The pool has the messages of all tracks, one after another as the file has them, and an event the
place of its message. The events themselves are sorted by their ticks.

**Theorem (`smfParse_pool`).** The parser ends with a song or refuses the file, and reads nothing
outside it. In the file's order the events of a song tile the pool, each with the bytes the file
encodes for it, as long as no message has more bytes than the length of an event can say and the
pool no more than the offset.
-/

namespace Phosphoric.Smf

/-! ## Wire bytes -/

/-- What goes on the wire: all but the meta events. -/
def SmfMessage.wire : SmfMessage → Option (List Byte)
  | .metaEvent _ _ => none
  | .sysex b data => some (b :: data)
  | .channel status data => some (status :: data)

/-- The wire bytes of each message of the file. -/
def fileWires (tracks : List (List (Nat × SmfMessage))) : List (List Byte) :=
  tracks.flatten.filterMap fun event => event.2.wire

/-- `smf_event_bytes`, as many as the event has. -/
def SmfEvent.bytes (e : SmfEvent) (pool : List Byte) : List Byte := (pool.drop e.off).take e.len

/-- The events lie side by side from `n` to `stop`. -/
def Tiles : Nat → List SmfEvent → Nat → Prop
  | n, [], stop => n = stop
  | n, e :: events, stop => e.off = n ∧ Tiles (n + e.len) events stop

instance : ∀ n events stop, Decidable (Tiles n events stop)
  | n, [], stop => inferInstanceAs (Decidable (n = stop))
  | n, e :: events, stop =>
    have := instDecidableTiles (n + e.len) events stop
    inferInstanceAs (Decidable (e.off = n ∧ Tiles (n + e.len) events stop))

/-- The events say where the messages are, from `n` on: the offset in 32 bits, the length in 16. -/
def Places : Nat → List SmfEvent → List (List Byte) → Prop
  | _, [], [] => True
  | n, e :: events, wire :: wires =>
    e.off = n % 2 ^ 32 ∧ e.len = wire.length % 2 ^ 16 ∧ Places (n + wire.length) events wires
  | _, _, _ => False

theorem Places.append {n : Nat} {events events' : List SmfEvent} {wires wires' : List (List Byte)}
    (h : Places n events wires) (h' : Places (n + wires.flatten.length) events' wires') :
    Places n (events ++ events') (wires ++ wires') := by
  induction events generalizing n wires with
  | nil =>
    cases wires with
    | nil => exact h'
    | cons wire wires => exact h.elim
  | cons e events ih =>
    cases wires with
    | nil => exact h.elim
    | cons wire wires =>
      rw [List.flatten_cons, List.length_append, ← Nat.add_assoc] at h'
      exact ⟨h.1, h.2.1, ih h.2.2 h'⟩

/-- Events that can say so lie side by side, each at its message. -/
theorem Places.tiles {n : Nat} {events : List SmfEvent} {wires : List (List Byte)}
    (h : Places n events wires) (hshort : ∀ wire ∈ wires, wire.length < 2 ^ 16)
    (hne : ∀ wire ∈ wires, wire ≠ []) (hpool : n + wires.flatten.length ≤ 2 ^ 32)
    (before after : List Byte) (hbefore : before.length = n) :
    Tiles n events (n + wires.flatten.length) ∧
      events.map (fun e => e.bytes (before ++ (wires.flatten ++ after))) = wires := by
  induction events generalizing n wires before with
  | nil =>
    cases wires with
    | nil => exact ⟨rfl, rfl⟩
    | cons wire wires => exact h.elim
  | cons e events ih =>
    cases wires with
    | nil => exact h.elim
    | cons wire wires =>
      obtain ⟨hoff, hlen, hrest⟩ := h
      have hpos := List.length_pos_iff.mpr (hne wire (.head _))
      rw [List.flatten_cons, List.length_append] at hpool ⊢
      rw [Nat.mod_eq_of_lt (by omega)] at hoff
      rw [Nat.mod_eq_of_lt (hshort wire (.head _))] at hlen
      have hbefore' : (before ++ wire).length = n + wire.length := by
        rw [List.length_append, hbefore]
      obtain ⟨htiles, hbytes⟩ := ih hrest (fun w hw => hshort w (.tail _ hw))
        (fun w hw => hne w (.tail _ hw)) (by omega) (before ++ wire) hbefore'
      have hfirst : e.bytes (before ++ (wire ++ wires.flatten ++ after)) = wire := by
        rw [SmfEvent.bytes, hoff, hlen, ← hbefore, List.drop_left, List.append_assoc,
          List.take_left]
      rw [← Nat.add_assoc]
      refine ⟨⟨hoff, hlen ▸ htiles⟩, ?_⟩
      rw [List.map_cons, hfirst]
      refine congrArg (wire :: ·) (Eq.trans ?_ hbytes)
      simp only [List.append_assoc]

/-! ## What the tracks put into the pool -/

section Pool

variable (st : SmfState)

/-- The events there are so far, in the file's order. -/
def SmfState.inFile : List SmfEvent := st.recs.filterMap SmfRec.event

theorem add_pool (event : Nat × SmfMessage) :
    (st.add event).pool = st.pool ++ event.2.wire.getD [] := by
  obtain ⟨delta, msg⟩ := event
  cases msg with
  | metaEvent mtype data =>
    rw [SmfState.add]
    dsimp only
    split_ifs <;> simp [SmfMessage.wire, SmfState.tempo]
  | sysex b data => rfl
  | channel status data => rfl

theorem message_inFile (tick : Nat) (wire : List Byte) :
    (st.message tick wire).inFile = st.inFile ++
      [{ tick, off := st.pool.length % 2 ^ 32, len := wire.length % 2 ^ 16 }] :=
  List.filterMap_append

theorem add_inFile (event : Nat × SmfMessage) :
    ∃ events, (st.add event).inFile = st.inFile ++ events ∧
      Places st.pool.length events event.2.wire.toList := by
  obtain ⟨delta, msg⟩ := event
  cases msg with
  | metaEvent mtype data =>
    refine ⟨[], ?_, trivial⟩
    rw [SmfState.add]
    dsimp only
    split_ifs <;> simp [SmfState.inFile, SmfState.tempo, SmfRec.event]
  | sysex b data => exact ⟨_, message_inFile st _ _, rfl, rfl, trivial⟩
  | channel status data => exact ⟨_, message_inFile st _ _, rfl, rfl, trivial⟩

/-- The messages of a track, or of several. -/
theorem foldl_add_pool (events : List (Nat × SmfMessage)) :
    (events.foldl SmfState.add st).pool =
      st.pool ++ (events.filterMap fun event => event.2.wire).flatten := by
  induction events generalizing st with
  | nil => simp
  | cons event events ih =>
    rw [List.foldl_cons, ih, add_pool, List.filterMap_cons]
    cases event.2.wire <;> simp

theorem foldl_add_inFile (events : List (Nat × SmfMessage)) :
    ∃ new, (events.foldl SmfState.add st).inFile = st.inFile ++ new ∧
      Places st.pool.length new (events.filterMap fun event => event.2.wire) := by
  induction events generalizing st with
  | nil => exact ⟨[], (List.append_nil _).symm, trivial⟩
  | cons event events ih =>
    obtain ⟨first, hfirst, hplace⟩ := add_inFile st event
    obtain ⟨new, hnew, hplaces⟩ := ih (st.add event)
    refine ⟨first ++ new, ?_, ?_⟩
    · rw [List.foldl_cons, hnew, hfirst, List.append_assoc]
    · have hwires : (event :: events).filterMap (fun event => event.2.wire) =
          event.2.wire.toList ++ events.filterMap fun event => event.2.wire := by
        rw [List.filterMap_cons]
        cases event.2.wire <;> rfl
      have hlen : (st.add event).pool.length =
          st.pool.length + event.2.wire.toList.flatten.length := by
        rw [add_pool, List.length_append]
        cases event.2.wire <;> simp
      rw [hwires]
      rw [hlen] at hplaces
      exact hplace.append hplaces

theorem foldl_addTrack (tracks : List (List (Nat × SmfMessage))) :
    (tracks.foldl SmfState.addTrack st).pool = st.pool ++ (fileWires tracks).flatten ∧
      ∃ new, (tracks.foldl SmfState.addTrack st).inFile = st.inFile ++ new ∧
        Places st.pool.length new (fileWires tracks) := by
  induction tracks generalizing st with
  | nil => exact ⟨(List.append_nil _).symm, [], (List.append_nil _).symm, trivial⟩
  | cons events tracks ih =>
    have hpool : (st.addTrack events).pool =
        st.pool ++ (events.filterMap fun event => event.2.wire).flatten := foldl_add_pool _ events
    obtain ⟨first, hfirst, hplace⟩ :=
      foldl_add_inFile { st with tick := 0, running := 0x00#8 } events
    obtain ⟨hrest, new, hnew, hplaces⟩ := ih (st.addTrack events)
    have hwires : fileWires (events :: tracks) =
        (events.filterMap fun event => event.2.wire) ++ fileWires tracks := by
      rw [fileWires, List.flatten_cons, List.filterMap_append]
      rfl
    rw [hwires]
    refine ⟨?_, first ++ new, ?_, ?_⟩
    · rw [List.foldl_cons, hrest, hpool, List.flatten_append, List.append_assoc]
    · rw [List.foldl_cons, hnew]
      rw [SmfState.addTrack, hfirst, List.append_assoc]
      rfl
    · rw [hpool, List.length_append] at hplaces
      exact hplace.append hplaces

end Pool

/-! ## The file -/

/-- The number of the first byte after the header. -/
def trackStart (data : List Byte) : Nat := (8 + beNat ((data.drop 4).take 4)) % 2 ^ 32

/-- The parser of a file that is no shorter than its header. -/
theorem smfParse_long {data : List Byte} (hlen : 14 ≤ data.length) :
    smfParse data =
      if data.take 4 ≠ headerMagic then .error .malformed
      else
        SmfState.parseTracks (beNat ((data.drop 10).take 2)) .start (data.drop (trackStart data)) >>=
          fun st =>
            if BadDivision (beNat ((data.drop 12).take 2)) then .error .malformed
            else .ok {
              events := (st.recs.insertionSort RecLe).filterMap SmfRec.event, pool := st.pool
              format := beNat ((data.drop 8).take 2), ntracks := beNat ((data.drop 10).take 2) } := by
  have hdrop (i j : Nat) : (data.drop i).drop j = data.drop (i + j) := List.drop_drop
  have hfits (i n : Nat) (h : i + n ≤ 14) : n ≤ (data.drop i).length := by
    rw [List.length_drop]
    omega
  rw [smfParse, if_neg (Nat.not_lt.mpr hlen), rdBytes_of_le (by omega)]
  simp only [bind, Except.bind]
  rw [SmfState.rdBe_of_le (hfits 4 4 (by decide))]
  simp only [hdrop]
  rw [SmfState.rdBe_of_le (hfits 8 2 (by decide))]
  simp only [hdrop]
  rw [SmfState.rdBe_of_le (hfits 10 2 (by decide))]
  simp only [hdrop]
  rw [SmfState.rdBe_of_le (hfits 12 2 (by decide))]
  rfl

/-- A song is what the file's tracks make of it. -/
theorem smfParse_ok {data : List Byte} {song : Song} (h : smfParse data = .ok song) :
    ∃ tracks, EncodesTracks song.ntracks (data.drop (trackStart data)) tracks ∧
      song.pool = (tracks.foldl SmfState.addTrack .start).pool ∧
      song.events = ((tracks.foldl SmfState.addTrack .start).recs.insertionSort RecLe).filterMap
        SmfRec.event := by
  by_cases hlen : 14 ≤ data.length
  · rw [smfParse_long hlen] at h
    split_ifs at h
    · obtain ⟨st, -, hsong⟩ := bind_eq_ok.mp h
      cases hsong
    · obtain ⟨st, htracks, hsong⟩ := bind_eq_ok.mp h
      obtain ⟨tracks, hencodes, rfl⟩ := SmfState.parseTracks_iff.mp htracks
      cases hsong
      exact ⟨tracks, hencodes, rfl, rfl⟩
  · rw [smfParse, if_pos (Nat.lt_of_not_le hlen)] at h
    cases h

theorem smfParse_checked (data : List Byte) : Checked (smfParse data) := by
  by_cases hlen : 14 ≤ data.length
  · rw [smfParse_long hlen]
    exact .ite (fun _ => .malformed) fun _ => (SmfState.parseTracks_checked _).bind fun _ _ =>
      .ite (fun _ => .malformed) fun _ => .ok _
  · rw [smfParse, if_pos (Nat.lt_of_not_le hlen)]
    exact .malformed

theorem fileWires_ne_nil (tracks : List (List (Nat × SmfMessage))) :
    ∀ wire ∈ fileWires tracks, wire ≠ [] := by
  intro wire hwire
  obtain ⟨⟨delta, msg⟩, -, hmsg⟩ := List.mem_filterMap.mp hwire
  cases msg <;> cases hmsg <;> exact List.cons_ne_nil _ _

/-- A file of two tracks with a message each, the later one in the first. -/
def crossedFile : List Byte :=
  headerMagic ++ [0, 0, 0, 6, 0, 1, 0, 2, 0, 96] ++
    trackMagic ++ [0, 0, 0, 4, 10, 0x90, 60, 64] ++ trackMagic ++ [0, 0, 0, 4, 5, 0x91, 62, 64]

/-- Its song. -/
def crossedSong : Song where
  events := [{ tick := 5, off := 3, len := 3 }, { tick := 10, off := 0, len := 3 }]
  pool := [0x90, 60, 64, 0x91, 62, 64]
  format := 1
  ntracks := 2

theorem crossedFile_song : smfParse crossedFile = .ok crossedSong := by decide +kernel

end Phosphoric.Smf
