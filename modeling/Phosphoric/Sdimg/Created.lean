import Phosphoric.Sdimg.Errors

/-!
# Names looked up again

A file that is made is looked up again by the search that did not find it before. The entry made is
the first that may stop the search, so it is found if it is read as its name.

**Theorem (`fopenEx_found_iff`).** A file made in a well-formed directory is looked up by its name,
listed, and not made a second time, if and only if the name neither ends with a dot nor starts with
the byte `E5`, and what is before its last dot is neither `.` nor `..`.
-/

namespace Phosphoric.Sdimg

open Function (update)
open Store

section Created

variable {v : Volume} {d d' : Disk} {first : Nat}

/-! ## Slots that are not written -/

theorem extractShortName_congr {e e' : Nat → Byte} (h : ∀ j < 12, e j = e' j) (keepDotdot : Bool) :
    extractShortName e keepDotdot = extractShortName e' keepDotdot := by
  have hfield : ∀ start n, start + n ≤ 12 → fieldChars e start n = fieldChars e' start n := by
    intro start n hn
    rw [fieldChars, fieldChars]
    refine congrArg _ (List.map_congr_left fun i hi => ?_)
    exact h _ (by have := List.mem_range.mp hi; omega)
  rw [extractShortName, extractShortName, h 0 (by decide), h 11 (by decide),
    hfield 0 8 (by decide), hfield 8 3 (by decide)]

/-- What is listed under a name is looked up under it. -/
theorem extractShortName_listed {e : Nat → Byte} {raw : List Byte}
    (h : extractShortName e false = .named raw) : extractShortName e true = .named raw := by
  rw [extractShortName] at h ⊢
  dsimp only at h ⊢
  split_ifs at h ⊢ <;> simp_all

theorem look_congr {i : Nat} {keepDotdot : Bool} {accept : List Byte → Bool} {e e' : DirEntry}
    (he : dirEntry v d first i = some e) (he' : dirEntry v d' first i = some e')
    (h : ∀ j < 12, e.bytes j = e'.bytes j) :
    look v d first keepDotdot accept i = none ↔ look v d' first keepDotdot accept i = none := by
  rw [look, look, he, he']
  dsimp only
  rw [extractShortName_congr h]
  cases extractShortName e'.bytes keepDotdot with
  | last => simp
  | skip => simp
  | named raw =>
    dsimp only
    split_ifs <;> simp

/-! ## The slot taken -/

/-- Slot `k` of a directory is taken on the disk: the slots before it are in use, and as they were
before. -/
structure Taken (v : Volume) (d₀ d : Disk) (first k lba off : Nat) : Prop where
  laid : LaidOut v d
  slots : ∃ n lbas, k * 32 < n * v.bytesPerSector ∧ lbas (k * 32 / v.bytesPerSector) = lba ∧
    k * 32 % v.bytesPerSector = off ∧
      ∀ S d', Changes v ∅ S d d' → Dir v d' first n lbas
  before : ∀ j < k, ∃ e, dirEntry v d first j = some e ∧ dirEntry v d₀ first j = some e ∧
    e.bytes 0 ≠ 0x00#8

/-- The sectors of a well-formed directory stay when the FAT does. -/
theorem DirOk.dir_kept (h : DirOk v d first) :
    ∃ n lbas, ∀ S d', Changes v ∅ S d d' → Dir v d' first n lbas := by
  rcases h with ⟨hroot, hshort⟩ | ⟨chain, hchain, hshort⟩
  · exact ⟨_, _, fun S d' hchanges => hroot.dir hchanges.laid hshort⟩
  · have hlen : chain.length * v.sectorsPerCluster * v.bytesPerSector < 2 ^ 32 :=
      (Nat.mul_le_mul_right _ (Nat.mul_le_mul_right _ (Nat.le_succ _))).trans_lt hshort
    exact ⟨_, _, fun S d' hchanges =>
      (hchain.changed hchanges fun _ _ => Set.notMem_empty _).dir hchanges.laid hlen⟩

/-- The first free slot comes before the entry numbers come round. -/
theorem FreeSlot.lt_lap {k : Nat} (h : FreeSlot v d first k)
    (hbefore : ∀ j < k, ¬FreeSlot v d first j) : k < lap := by
  by_contra hge
  have hprev : FreeSlot v d first (k - lap) := by
    rw [FreeSlot, ← dirEntry_lap, Nat.sub_add_cancel (Nat.le_of_not_lt hge)]
    exact h
  have hpos : 0 < lap := by decide
  exact hbefore _ (by omega) hprev

/-- A slot that is not free is in use. -/
theorem Dir.used {n : Nat} {lbas : Nat → Nat} (h : Dir v d first n lbas) (hlaid : LaidOut v d)
    {j : Nat} (hj : j * 32 < n * v.bytesPerSector) (hused : ¬FreeSlot v d first j) :
    ∃ e, dirEntry v d first j = some e ∧ e.bytes 0 ≠ 0x00#8 := by
  obtain ⟨-, -, sec, -, hentry⟩ := h.slot hlaid hj
  exact ⟨_, hentry, fun hzero => hused ⟨_, hentry, .inl hzero⟩⟩

theorem chainSector_append {chain : List Nat} {c s : Nat} (hlaid : LaidOut v d)
    (hs : s < chain.length * v.sectorsPerCluster) :
    chainSector v (chain ++ [c]) s = chainSector v chain s := by
  have hlt : s / v.sectorsPerCluster < chain.length :=
    (Nat.div_lt_iff_lt_mul hlaid.cluster_pos).mpr hs
  rw [chainSector, chainSector, List.getD_append _ _ _ _ hlt]

/-- The slot `alloc_dir_entry` gives. -/
theorem DirOk.taken (h : DirOk v d first) (hlaid : LaidOut v d) (hro : v.readOnly = false)
    {lba off : Nat} (halloc : Sdimg.allocDirEntry v first d = some (.ok (lba, off), d')) :
    ∃ k < lap, Taken v d d' first k lba off := by
  rcases h.allocDirEntry hlaid hro with
    ⟨k, e, he, hfree, hbefore, -, hdir⟩ | ⟨-, -, hdir⟩ |
      ⟨hnoslot, chain, c, d₁, hchain, hshort, hfree, hdir, hchain', hchanges, -⟩
  · rw [hdir] at halloc
    cases halloc
    have hk := hfree.lt_lap hbefore
    obtain ⟨n, lbas, hkept⟩ := h.dir_kept
    have hall := hkept ∅ d (.refl hlaid)
    obtain ⟨sec, hread, -, hoff, hsector⟩ := dirEntry_sector he
    have hword : u32 (k * 32) = k * 32 := by
      have hlap : lap = 2 ^ 27 := rfl
      exact u32_of_lt (by omega)
    rw [hword] at hoff hsector
    have hin : k * 32 / v.bytesPerSector < n := by
      by_contra hge
      rw [hall.past _ (Nat.le_of_not_lt hge)] at hsector
      cases hsector
    have hlba := (hall.inside _ hin).symm.trans hsector
    have hslot : k * 32 < n * v.bytesPerSector := (Nat.div_lt_iff_lt_mul hlaid.sector_pos).mp hin
    refine ⟨k, hk, hlaid, ⟨n, lbas, hslot, Option.some.inj hlba, hoff.symm, hkept⟩, ?_⟩
    intro j hj
    obtain ⟨e', he', hused⟩ := hall.used hlaid (show j * 32 < n * v.bytesPerSector by omega)
      (hbefore j hj)
    exact ⟨e', he', he', hused⟩
  · rw [hdir] at halloc
    cases halloc
  · rw [hdir] at halloc
    cases halloc
    have hlen : chain.length * v.sectorsPerCluster * v.bytesPerSector < 2 ^ 32 :=
      (Nat.mul_le_mul_right _ (Nat.mul_le_mul_right _ (Nat.le_succ _))).trans_lt hshort
    have hlen' : (chain ++ [c]).length * v.sectorsPerCluster * v.bytesPerSector < 2 ^ 32 := by
      rw [List.length_append]
      exact hshort
    have hold := hchain.dir hlaid hlen
    have hnew := hchain'.dir hchanges.laid hlen'
    obtain ⟨k, hk, hslots⟩ := hold.slots hlaid
    have hsector : k * 32 / v.bytesPerSector = chain.length * v.sectorsPerCluster := by
      rw [hslots, Nat.mul_div_cancel _ hlaid.sector_pos]
    have hin : k * 32 < (chain ++ [c]).length * v.sectorsPerCluster * v.bytesPerSector := by
      rw [hslots, List.length_append, List.length_singleton]
      refine Nat.mul_lt_mul_of_pos_right ?_ hlaid.sector_pos
      exact Nat.mul_lt_mul_of_pos_right (Nat.lt_succ_self _) hlaid.cluster_pos
    refine ⟨k, hk, hchanges.laid, ⟨_, _, hin, ?_, ?_, fun S d' hch =>
      (hchain'.changed hch fun _ _ => Set.notMem_empty _).dir hch.laid hlen'⟩, ?_⟩
    · rw [hsector, chainSector, Nat.mul_div_cancel _ hlaid.cluster_pos, Nat.mul_mod_left,
        List.getD_append_right _ _ _ _ le_rfl, Nat.sub_self, Nat.add_zero]
      rfl
    · rw [hslots, Nat.mul_mod_left]
    · intro j hj
      have hj' : j * 32 < chain.length * v.sectorsPerCluster * v.bytesPerSector := by omega
      obtain ⟨e, he, hused⟩ := hold.used hlaid hj' fun hslot => hnoslot ⟨j, hslot⟩
      refine ⟨e, ?_, he, hused⟩
      obtain ⟨hoff, hs, -⟩ := hold.slot hlaid hj'
      have hs' : j * 32 / v.bytesPerSector < (chain ++ [c]).length * v.sectorsPerCluster :=
        hs.trans_le (Nat.mul_le_mul_right _ (by rw [List.length_append]; omega))
      rw [← he, dirEntry, dirEntry, hoff]
      dsimp only
      rw [hold.inside _ hs, hnew.inside _ hs', chainSector_append hlaid hs, Option.bind_some,
        Option.bind_some, hchanges.sector _ (hold.data _ hs)
          (hchain.sector_notMem hlaid hfree.1 (hchain.not_free hfree) hs)]

/-- A directory ends with its last sector. -/
theorem Dir.hasEnd {n : Nat} {lbas : Nat → Nat} (h : Dir v d first n lbas) (hlaid : LaidOut v d) :
    HasEnd v d first := by
  obtain ⟨k, hk, hslots⟩ := h.slots hlaid
  refine ⟨k, hk, fun e he => ?_⟩
  obtain ⟨-, -, -, -, hsector⟩ := dirEntry_sector he
  have hword : u32 (k * 32) = n * v.bytesPerSector := by
    rw [hslots]
    exact u32_of_lt h.short
  rw [hword, Nat.mul_div_cancel _ hlaid.sector_pos, h.past n le_rfl] at hsector
  cases hsector

/-- The new entry is at the slot taken, and the slots before it are as they were. -/
theorem Taken.written {d₀ : Disk} {k lba off : Nat} (h : Taken v d₀ d first k lba off)
    (hro : v.readOnly = false) (name83 : Nat → Byte) (attrib : Byte) :
    ∃ d', writeNewEntry v lba off name83 attrib 0 0 d = some d' ∧
      HasEnd v d' first ∧ (∃ e, dirEntry v d' first k = some e ∧ e.lba = lba ∧ e.off = off ∧
        ∀ j < 32, e.bytes j = freshBytes name83 attrib j) ∧
      ∀ j < k, ∃ e₀ e, dirEntry v d₀ first j = some e₀ ∧ dirEntry v d' first j = some e ∧
        ∀ i < 32, e₀.bytes i = e.bytes i := by
  obtain ⟨n, lbas, hslot, hlba, hoff, hkept⟩ := h.slots
  have hdir := hkept ∅ d (.refl h.laid)
  obtain ⟨hword, hsec, -⟩ := hdir.slot h.laid hslot
  obtain ⟨sec, d', hread, hwrite, hchanges, hnew⟩ := h.laid.changeSector_data hro
    (hdir.data _ hsec) fun sec =>
      putEntry (update (blit (blit sec off 32 fun _ => 0#8) off 11 name83) (off + 11) attrib) off 0 0
  have hdir' := hkept _ d' hchanges
  have hfits : ∀ i, i * 32 < n * v.bytesPerSector →
      i * 32 % v.bytesPerSector + 32 ≤ v.bytesPerSector := by
    intro i hi
    have hi' := h.laid.entry_fits i
    rwa [(hdir.slot h.laid hi).1] at hi'
  have hfit := hfits k hslot
  rw [hoff] at hfit
  rw [hlba] at hread hwrite hnew hchanges
  refine ⟨d', hwrite, hdir'.hasEnd hchanges.laid, ?_, fun j hj => ?_⟩
  · obtain ⟨-, -, sec', hread', hentry⟩ := hdir'.slot hchanges.laid hslot
    rw [hlba, hnew] at hread'
    refine ⟨_, hentry, hlba, hoff, fun j hj => ?_⟩
    rw [← Option.some.inj hread']
    dsimp only
    rw [hoff, clip, if_pos (by omega), freshEntry, if_pos (by omega), Nat.add_sub_cancel_left]
  · obtain ⟨e, he, he₀, -⟩ := h.before j hj
    have hjslot : j * 32 < n * v.bytesPerSector := by omega
    obtain ⟨-, hjsec, secj, hreadj, hentryj⟩ := hdir.slot h.laid hjslot
    obtain ⟨-, -, secj', hreadj', hentryj'⟩ := hdir'.slot hchanges.laid hjslot
    refine ⟨e, _, he₀, hentryj', fun i hi => ?_⟩
    rw [hentryj, Option.some.injEq] at he
    rw [← he]
    dsimp only
    by_cases hsame : lbas (j * 32 / v.bytesPerSector) = lba
    · -- an earlier slot of the sector written
      have hsector := hdir.inj _ hjsec _ hsec (hsame.trans hlba.symm)
      have hj₁ := Nat.div_add_mod (j * 32) v.bytesPerSector
      have hk₁ := Nat.div_add_mod (k * 32) v.bytesPerSector
      have hjfit := hfits j hjslot
      rw [hsector] at hj₁
      rw [hsame, hread] at hreadj
      rw [hsame, hnew] at hreadj'
      rw [← Option.some.inj hreadj, ← Option.some.inj hreadj', clip, if_pos (by omega), freshEntry,
        if_neg (by omega)]
    · rw [hchanges.sector _ (hdir.data _ hjsec) hsame, hreadj] at hreadj'
      rw [Option.some.inj hreadj']

/-! ## Searches that reach a slot -/

/-- A name that is not found is not at a slot in use either. -/
theorem findDirEntry_none {name : List Byte} {k : Nat}
    (hfind : findDirEntry v d first name = some none)
    (hused : ∀ j < k, ∃ e, dirEntry v d first j = some e ∧ e.bytes 0 ≠ 0x00#8) {j : Nat}
    (hj : j < k) : look v d first true (ciEq · name) j = none := by
  obtain ⟨m, -, -, hm, hbefore⟩ := search_eq_some.mp hfind
  refine hbefore j (Nat.zero_le _) (hj.trans_le ?_)
  by_contra hlt
  obtain ⟨e, he, hne⟩ := hused m (Nat.lt_of_not_le hlt)
  rcases look_eq_some hm with ⟨-, hend⟩ | ⟨_, _, hr, -⟩
  · exact hne (hend e he)
  · cases hr

/-- What is listed is an entry with a name. -/
theorem readdirAll_named {n cursor : Nat} {l : List DirEntry}
    (h : readdirAll v d first n cursor = some l) {e : DirEntry} (he : e ∈ l) :
    ∃ i raw, dirEntry v d first i = some e ∧ extractShortName e.bytes false = .named raw := by
  induction n generalizing cursor l with
  | zero => cases h
  | succ n ih =>
    rw [readdirAll] at h
    split at h
    · cases h
    · cases h
      cases he
    · rename_i i e' hread
      obtain ⟨l', hl', rfl⟩ := Option.map_eq_some_iff.mp h
      rcases List.mem_cons.mp he with rfl | hmem
      · obtain ⟨raw, hentry, hraw, -⟩ := search_found hread
        exact ⟨i, raw, hentry, hraw⟩
      · exact ih hl' hmem

/-- Listing to the end comes by every entry with a name before it. -/
theorem readdirAll_mem {n cursor k : Nat} {l : List DirEntry}
    (h : readdirAll v d first n cursor = some l) (hcursor : cursor ≤ k) (hk : k < lap)
    (hbefore : ∀ j < k, ¬EndsAt v d first j) {e : DirEntry} (he : dirEntry v d first k = some e)
    {raw : List Byte} (hraw : extractShortName e.bytes false = .named raw) : e ∈ l := by
  have hlook : look v d first false (fun _ => true) k = some (some (k, e)) :=
    look_named he hraw rfl
  induction n generalizing cursor l with
  | zero => cases h
  | succ n ih =>
    have hstop : ∀ j r, cursor ≤ j → look v d first false (fun _ => true) j = some r →
        (∀ i, cursor ≤ i → i < j → look v d first false (fun _ => true) i = none) → j ≤ k := by
      intro j r hj hr hnone
      by_contra hlt
      have hskip := hnone k hcursor (Nat.lt_of_not_le hlt)
      rw [hlook] at hskip
      cases hskip
    rw [readdirAll] at h
    split at h
    · cases h
    · rename_i hread
      obtain ⟨j, hj, -, hr, hnone⟩ := search_eq_some.mp hread
      rcases look_eq_some hr with ⟨-, hend⟩ | ⟨_, _, hsome, -⟩
      · rcases (hstop j _ hj hr hnone).eq_or_lt with rfl | hlt
        · rw [hlook] at hr
          cases hr
        · exact absurd hend (hbefore j hlt)
      · cases hsome
    · rename_i i e' hread
      obtain ⟨j, hj, -, hr, hnone⟩ := search_eq_some.mp hread
      obtain ⟨l', hl', rfl⟩ := Option.map_eq_some_iff.mp h
      obtain rfl : i = j := by
        rcases look_eq_some hr with ⟨hend, -⟩ | ⟨_, _, hsome, -⟩
        · cases hend
        · exact congrArg Prod.fst (Option.some.inj hsome)
      rcases (hstop i _ hj hr hnone).eq_or_lt with rfl | hlt
      · rw [hlook] at hr
        cases hr
        exact List.mem_cons_self
      · exact List.mem_cons_of_mem _ (ih hl' hlt)

/-! ## Calls that make a file -/

/-- What is done by a call that makes a file. -/
theorem createFile_ok {path : List Byte} {img img' : Image} {slot : Fin 16}
    (h : createFile v path img = some (.ok slot, img')) :
    v.readOnly = false ∧ ∃ r lba off d₁, newName v img.disk true path = some (.ok r) ∧
      allocDirEntry v r.1 img.disk = some (.ok (lba, off), d₁) ∧
      writeNewEntry v lba off (nameBytes r.2) attrArchive 0 0 d₁ = some img'.disk ∧
      (img'.files slot).dirEntryLba = lba ∧ (img'.files slot).dirEntryOff = off := by
  rw [createFile] at h
  split_ifs at h with hro
  · cases h
  refine ⟨Bool.eq_false_iff.mpr hro, ?_⟩
  rcases hname : newName v img.disk true path with - | (err | ⟨first, name83⟩)
  · rw [hname] at h
    cases h
  · rw [hname] at h
    cases h
  rw [hname] at h
  dsimp only at h
  rcases halloc : allocDirEntry v first img.disk with - | ⟨err | ⟨lba, off⟩, d₁⟩
  · rw [halloc] at h
    cases h
  · rw [halloc] at h
    cases h
  rw [halloc] at h
  dsimp only at h
  rcases hwrite : writeNewEntry v lba off (nameBytes name83) attrArchive 0 0 d₁ with - | d₂
  · rw [hwrite] at h
    cases h
  rw [hwrite] at h
  dsimp only at h
  rw [createNewFile, hwrite] at h
  dsimp only at h
  rcases hhandle : allocFile img.files with - | slot'
  · rw [hhandle] at h
    cases h
  rw [hhandle] at h
  obtain ⟨hslot, rfl⟩ := Prod.mk.inj (Option.some.inj h)
  obtain rfl : slot' = slot := by
    rw [Option.elim_some] at hslot
    exact Except.ok.inj hslot
  refine ⟨(first, name83), lba, off, d₁, rfl, halloc, hwrite, ?_, ?_⟩
  all_goals
    dsimp only
    rw [Function.update_self]

/-! ## Looking up again -/

/-- The entry at a place is found by a name in a directory: it is what is looked up, it is listed,
and a file of that name is not made a second time. -/
structure FoundIn (v : Volume) (d : Disk) (first : Nat) (name : List Byte) (lba off : Nat) : Prop where
  looked : ∃ i e, findDirEntry v d first name = some (some (i, e)) ∧ e.lba = lba ∧ e.off = off
  listed : ∃ n l, readdirAll v d first n 0 = some l ∧ ∃ e ∈ l, e.lba = lba ∧ e.off = off
  refused : ∀ path parent, splitParent path = some (parent, name) →
    parentOf v d true parent = some (.ok first) → newName v d true path = some (.error .eexist)

/-- The bytes of an entry are those at its place. -/
theorem dirEntry_bytes {i j first' : Nat} {e e' : DirEntry} (he : dirEntry v d first i = some e)
    (he' : dirEntry v d first' j = some e') (hlba : e.lba = e'.lba) (hoff : e.off = e'.off) :
    e.bytes = e'.bytes := by
  obtain ⟨sec, hread, hbytes, -⟩ := dirEntry_sector he
  obtain ⟨sec', hread', hbytes', -⟩ := dirEntry_sector he'
  rw [hlba, hread'] at hread
  rw [hbytes, hbytes', hoff, Option.some.inj hread]

/-- An entry found in its directory is read as the name. -/
theorem FoundIn.foundBy {name : List Byte} {lba off k : Nat} {e : DirEntry}
    (h : FoundIn v d first name lba off) (he : dirEntry v d first k = some e) (hlba : e.lba = lba)
    (hoff : e.off = off) : FoundBy name e.bytes := by
  obtain ⟨i, e₁, hfind, hlba₁, hoff₁⟩ := h.looked
  obtain ⟨n, l, hl, e₂, hmem, hlba₂, hoff₂⟩ := h.listed
  obtain ⟨raw, he', hraw, hci⟩ := search_found hfind
  obtain ⟨i₂, raw₂, he₂, hraw₂⟩ := readdirAll_named hl hmem
  rw [dirEntry_bytes he' he (hlba₁.trans hlba.symm) (hoff₁.trans hoff.symm)] at hraw
  rw [dirEntry_bytes he₂ he (hlba₂.trans hlba.symm) (hoff₂.trans hoff.symm)] at hraw₂
  obtain rfl : raw = raw₂ :=
    Slot.named.inj (hraw.symm.trans (extractShortName_listed hraw₂))
  intro keepDotdot
  cases keepDotdot with
  | false => exact ⟨raw, hraw₂, hci⟩
  | true => exact ⟨raw, hraw, hci⟩

/-- The first entry that may be taken for the name is found by it. -/
theorem foundIn_of_foundBy {name name83 : List Byte} {k : Nat} {e : DirEntry}
    (hname : toFat83 name = some name83) (hk : k < lap)
    (hend : HasEnd v d first) (he : dirEntry v d first k = some e)
    (hbefore : ∀ j < k, look v d first true (ciEq · name) j = none ∧ ¬EndsAt v d first j)
    (h : FoundBy name e.bytes) : FoundIn v d first name e.lba e.off := by
  obtain ⟨raw, hraw, hci⟩ := h true
  obtain ⟨raw', hraw', -⟩ := h false
  have hfind : findDirEntry v d first name = some (some (k, e)) :=
    findDirEntry_named hk he hraw hci fun j hj => (hbefore j hj).1
  refine ⟨⟨k, e, hfind, rfl, rfl⟩, ?_, fun path parent hsplit hparent => ?_⟩
  · obtain ⟨n, hn⟩ := readdirAll_returns_iff.mpr hend
    obtain ⟨l, hl⟩ := Option.isSome_iff_exists.mp hn
    exact ⟨n, l, hl, e, readdirAll_mem hl (Nat.zero_le _) hk (fun j hj => (hbefore j hj).2) he hraw',
      rfl, rfl⟩
  · rw [newName, hsplit]
    dsimp only
    rw [hname]
    dsimp only
    rw [hparent, andThen_ok, hfind]
    rfl

/-- The bytes of a new entry have its name. -/
theorem hasName_fresh {name83 : List Byte} {e : Nat → Byte}
    (h : ∀ j < 32, e j = freshBytes (nameBytes name83) attrArchive j) : HasName e name83 where
  chars i hi := by
    rw [h i (by omega), freshBytes, if_pos hi]
    rfl
  attrib := .inl (h 11 (by decide))

/-! ## A file made -/

theorem createFile_found_iff {img img' : Image} (hlaid : LaidOut v img.disk)
    {path parent base : List Byte} (hsplit : splitParent path = some (parent, base))
    (hparent : parentOf v img.disk true parent = some (.ok first)) (hok : DirOk v img.disk first)
    {slot : Fin 16} (h : createFile v path img = some (.ok slot, img')) :
    FoundIn v img'.disk first base (img'.files slot).dirEntryLba (img'.files slot).dirEntryOff ↔
      FoundAgain base := by
  obtain ⟨hro, ⟨first', name83⟩, lba, off, d₁, hnew, halloc, hwrite, hlba, hoff⟩ := createFile_ok h
  obtain ⟨parent', base', hsplit', hname, hparent', hfind⟩ := newName_ok hnew
  obtain ⟨rfl, rfl⟩ : parent = parent' ∧ base = base' := by
    rw [hsplit] at hsplit'
    cases hsplit'
    exact ⟨rfl, rfl⟩
  obtain rfl : first = first' := by
    have heq := hparent.symm.trans hparent'
    cases heq
    rfl
  obtain ⟨k, hk, htaken⟩ := hok.taken hlaid hro halloc
  obtain ⟨d₂, hwrite', hend, ⟨e, he, helba, heoff, hbytes⟩, hbefore⟩ :=
    htaken.written hro (nameBytes name83) attrArchive
  obtain rfl : img'.disk = d₂ := Option.some.inj (hwrite.symm.trans hwrite')
  have hused : ∀ j < k, ∃ e, dirEntry v img.disk first j = some e ∧ e.bytes 0 ≠ 0x00#8 := by
    intro j hj
    obtain ⟨e, -, he₀, hne⟩ := htaken.before j hj
    exact ⟨e, he₀, hne⟩
  have hearlier : ∀ j < k, look v img'.disk first true (ciEq · base) j = none ∧
      ¬EndsAt v img'.disk first j := by
    intro j hj
    obtain ⟨e₀, e₁, he₀, he₁, hsame⟩ := hbefore j hj
    refine ⟨?_, fun hends => ?_⟩
    · rw [← look_congr he₀ he₁ fun i hi => hsame i (by omega)]
      exact findDirEntry_none hfind hused hj
    · obtain ⟨e', he', hne⟩ := hused j hj
      obtain rfl : e₀ = e' := Option.some.inj (he₀.symm.trans he')
      rw [hsame 0 (by decide)] at hne
      exact hne (hends e₁ he₁)
  rw [hlba, hoff, ← toFat83_found_iff hname (hasName_fresh hbytes)]
  constructor
  · intro hfound
    exact hfound.foundBy he helba heoff
  · intro hfound
    rw [← helba, ← heoff]
    exact foundIn_of_foundBy hname hk hend he hearlier hfound

/-- A creating `loci_sdimg_fopen_ex` makes an entry that is found again by its name if and only if
the name is one that is. -/
theorem fopenEx_found_iff {img img' : Image} (hlaid : LaidOut v img.disk)
    {path parent base : List Byte} (hsplit : splitParent path = some (parent, base))
    (hparent : parentOf v img.disk true parent = some (.ok first)) (hok : DirOk v img.disk first)
    (hnew : oldName v img.disk true path = some (.error .enoent)) {slot : Fin 16}
    (h : fopenEx v path img = some (.ok slot, img')) :
    FoundIn v img'.disk first base (img'.files slot).dirEntryLba (img'.files slot).dirEntryOff ↔
      FoundAgain base := by
  rw [fopenEx] at h
  split_ifs at h with hro
  · cases h
  rw [hnew] at h
  exact createFile_found_iff hlaid hsplit hparent hok h

/-! ## A card -/

/-- A file with a name that is new is made in the root directory. -/
theorem sample_created {name name83 : List Byte}
    (hnew : newName sampleVolume sampleDisk true name = some (.ok (2, name83))) :
    ∃ img', fopenEx sampleVolume name sampleImage = some (.ok 0, img') ∧
      createFile sampleVolume name sampleImage = some (.ok 0, img') := by
  have hwritable : ¬sampleVolume.readOnly = true := by decide
  have hold : oldName sampleVolume sampleImage.disk true name = some (.error .enoent) :=
    oldName_of_newName hnew
  have hhandle : allocFile sampleImage.files = some 0 := by decide
  rcases sample_dirOk.allocDirEntry sampleDisk_laidOut rfl with
    ⟨k, e, he, hfree, hbefore, hlba, hdir⟩ | ⟨hnoslot, -⟩ | ⟨hnoslot, -⟩
  · obtain ⟨d', hwrite, -⟩ := sampleDisk_laidOut.writeNewEntry_slot rfl he hlba hfree hbefore
      (nameBytes name83) attrArchive
    have hcreate : ∃ img', createFile sampleVolume name sampleImage = some (.ok 0, img') := by
      rw [createFile, if_neg hwritable, show newName sampleVolume sampleImage.disk true name = _ from
        hnew]
      dsimp only
      rw [show allocDirEntry sampleVolume 2 sampleImage.disk = _ from hdir]
      dsimp only
      rw [hwrite, hhandle]
      exact ⟨_, rfl⟩
    obtain ⟨img', hcreate⟩ := hcreate
    refine ⟨img', ?_, hcreate⟩
    rw [fopenEx, if_neg hwritable, hold]
    exact hcreate
  · exact absurd ⟨1, sample_freeSlot⟩ hnoslot
  · exact absurd ⟨1, sample_freeSlot⟩ hnoslot

end Created

/-- A file `B` is found again. -/
theorem fopenEx_found_sample : ∃ img',
    fopenEx sampleVolume [0x42#8] sampleImage = some (.ok 0, img') ∧
      FoundIn sampleVolume img'.disk 2 [0x42#8] (img'.files 0).dirEntryLba
        (img'.files 0).dirEntryOff := by
  have hnew := sample_newName true
  obtain ⟨img', hopen, -⟩ := sample_created hnew
  refine ⟨img', hopen, ?_⟩
  exact (@fopenEx_found_iff _ _ sampleImage img' sampleDisk_laidOut _ [] _ (by decide) rfl
    sample_dirOk (oldName_of_newName hnew) _ hopen).mpr (by decide)

/-- A file `B.` is made, and is not found by its name. -/
theorem fopenEx_lost : ∃ img',
    fopenEx sampleVolume [0x42#8, dot] sampleImage = some (.ok 0, img') ∧
      ¬FoundIn sampleVolume img'.disk 2 [0x42#8, dot] (img'.files 0).dirEntryLba
        (img'.files 0).dirEntryOff := by
  have hsplit : splitParent [0x42#8, dot] = some ([], [0x42#8, dot]) := by decide
  have hname : toFat83 [0x42#8, dot] = some (0x42#8 :: List.replicate 10 blank) := by decide
  obtain ⟨img', hopen, hcreate⟩ := sample_created (sample_new true hsplit hname (by decide))
  refine ⟨img', hopen, fun hfound => ?_⟩
  have hagain := (@createFile_found_iff _ _ sampleImage img' sampleDisk_laidOut _ [] _ hsplit rfl
    sample_dirOk _ hcreate).mp hfound
  revert hagain
  decide

end Phosphoric.Sdimg
