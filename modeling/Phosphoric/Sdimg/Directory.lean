import Phosphoric.Sdimg.Mirror
import Phosphoric.Sdimg.Names

/-!
# Directories

The searches of `src/io/loci_sdimg.c`. A directory is the root directory of a FAT16 volume, of so
many sectors, or a chain of clusters. A search looks at one entry after another until it finds the
name, the entry that marks the end, or no sector any more. It has no other bound: entry numbers
come round again after 2^27.

**Theorem (`find_returns_iff`, `readdirAll_returns_iff`).** Looking up every name in a directory
comes to an end, and so does listing it, if and only if the directory has an end.
-/

namespace Phosphoric.Sdimg

open Store

variable (v : Volume) (d : Disk)

/-! ## Entries -/

/-- Sector `sec` of the directory that starts at a cluster, 0 being the root of FAT16; `none` past
its end. -/
def dirSector (first sec : Nat) : Option Nat :=
  if v.fsKind = .fat16 ∧ first = 0 then
    if v.rootDirSectors ≤ sec then none else some (u32 (v.rootDirStartSector + sec))
  else
    (walkChain v d (sec / v.sectorsPerCluster) first).map fun c =>
      u32 (clusterFirstSector v c + sec % v.sectorsPerCluster)

/-- An entry, and where it is. -/
structure DirEntry where
  lba : Nat
  off : Nat
  bytes : Nat → Byte

/-- `load_dir_sector`, and the same lines of `find_dir_entry`: entry `i` of a directory. -/
def dirEntry (first i : Nat) : Option DirEntry :=
  let bytesOff := u32 (i * 32)
  (dirSector v d first (bytesOff / v.bytesPerSector)).bind fun lba =>
    (readSector v d lba).map fun sec =>
      let off := bytesOff % v.bytesPerSector
      { lba, off, bytes := fun j => sec (off + j) }

/-! ## Searches -/

/-- What a turn of a search comes to. `none` is going on, and `some none` the end. -/
def look (first : Nat) (keepDotdot : Bool) (accept : List Byte → Bool) (i : Nat) :
    Option (Option (Nat × DirEntry)) :=
  match dirEntry v d first i with
  | none => some none
  | some e =>
    match extractShortName e.bytes keepDotdot with
    | .last => some none
    | .skip => none
    | .named raw => if accept raw then some (some (i, e)) else none

/-- `n` turns of a search, from entry `i` on. -/
def search (first : Nat) (keepDotdot : Bool) (accept : List Byte → Bool) (n i : Nat) :
    Option (Option (Nat × DirEntry)) :=
  (List.range' i n).findSome? (look v d first keepDotdot accept)

/-- The entries of a directory: `i * 32` is a `uint32_t`. -/
abbrev lap : Nat := 2 ^ 27

/-- `find_dir_entry`, and the search of `dir_find_child`. `none` is a search without end. -/
def findDirEntry (first : Nat) (name : List Byte) : Option (Option (Nat × DirEntry)) :=
  search v d first true (ciEq · name) lap 0

/-- `loci_sdimg_readdir`; the cursor is then past the entry. -/
def readdir (first cursor : Nat) : Option (Option (Nat × DirEntry)) :=
  search v d first false (fun _ => true) lap cursor

/-- `loci_sdimg_readdir` called until it gives nothing, at most `n` times. -/
def readdirAll (first : Nat) : Nat → Nat → Option (List DirEntry)
  | 0, _ => none
  | n + 1, cursor =>
    match readdir v d first cursor with
    | none => none
    | some none => some []
    | some (some (i, e)) => (readdirAll first n (i + 1)).map (e :: ·)

/-! ## Paths -/

/-- `/` or `\`. -/
def isSlash (c : Byte) : Bool := c == 0x2F#8 || c == 0x5C#8

/-- The components of a path of at most `n` characters that does not start with a slash. What is
past the 63rd character of a component is the next one. -/
def splitPath : Nat → List Byte → List (List Byte)
  | 0, _ => []
  | n + 1, path =>
    if path = [] then []
    else
      let comp := (path.takeWhile (!isSlash ·)).take 63
      comp :: splitPath n ((path.drop comp.length).dropWhile isSlash)

def components (path : List Byte) : List (List Byte) :=
  splitPath path.length (path.dropWhile isSlash)

/-- What a path leads to. -/
structure Target where
  cluster : Nat
  size : Nat
  isDir : Bool

/-- What `dir_find_child` gives of an entry. -/
def DirEntry.target (e : DirEntry) : Target where
  cluster := entryCluster e.bytes 0
  size := getLe e.bytes 28 4
  isDir := e.bytes 11 &&& attrDirectory ≠ 0#8

def rootTarget : Target where
  cluster := if v.fsKind = .fat32 then v.rootCluster else 0
  size := 0
  isDir := true

/-- The components of a path looked up one after another. -/
def resolveFrom : List (List Byte) → Target → Option (Option Target)
  | [], at' => some (some at')
  | name :: names, at' =>
    if at'.isDir then
      match findDirEntry v d at'.cluster name with
      | none => none
      | some none => some none
      | some (some (_, e)) => resolveFrom names e.target
    else some none

/-- `resolve_path`: `some none` is a path that leads nowhere, `none` one that is never resolved. -/
def resolvePath (path : List Byte) : Option (Option Target) :=
  resolveFrom v d (components path) (rootTarget v)

/-! ## Where searches end -/

/-- The directory ends at entry `i`: there is no sector for it, or it is the mark of the end. -/
def EndsAt (first i : Nat) : Prop := ∀ e, dirEntry v d first i = some e → e.bytes 0 = 0x00#8

/-- The directory has an end. -/
def HasEnd (first : Nat) : Prop := ∃ i < lap, EndsAt v d first i

section Searches

variable {v d}
variable {first i n : Nat} {keepDotdot : Bool} {accept : List Byte → Bool}

theorem extractShortName_last {e : Nat → Byte} : extractShortName e keepDotdot = .last ↔ e 0 = 0#8 := by
  rw [extractShortName]
  dsimp only
  split_ifs <;> simp_all

/-- A name read is of twelve characters at most. -/
theorem extractShortName_length {e : Nat → Byte} {raw : List Byte}
    (h : extractShortName e keepDotdot = .named raw) : raw.length ≤ 12 := by
  rw [extractShortName] at h
  dsimp only at h
  split_ifs at h <;> cases h <;> exact List.length_take_le _ _

theorem dirEntry_lap (first i : Nat) : dirEntry v d first (i + lap) = dirEntry v d first i := by
  have hoff : u32 ((i + lap) * 32) = u32 (i * 32) := by
    rw [u32, u32, Nat.add_mul, show lap * 32 = 2 ^ 32 from rfl, Nat.add_mod_right]
  rw [dirEntry, dirEntry, hoff]

theorem EndsAt.look (h : EndsAt v d first i) : look v d first keepDotdot accept i = some none := by
  rw [Sdimg.look]
  cases he : dirEntry v d first i with
  | none => rfl
  | some e =>
    have hlast := (@extractShortName_last keepDotdot e.bytes).mpr (h e he)
    simp only [hlast]

/-- Where a search stops there is the end, or a name it takes. -/
theorem look_eq_some {r : Option (Nat × DirEntry)}
    (h : look v d first keepDotdot accept i = some r) :
    (r = none ∧ EndsAt v d first i) ∨ ∃ e raw, r = some (i, e) ∧ dirEntry v d first i = some e ∧
      extractShortName e.bytes keepDotdot = .named raw ∧ accept raw = true := by
  rw [Sdimg.look] at h
  split at h
  · rename_i hnone
    refine .inl ⟨(Option.some.inj h).symm, fun e he => ?_⟩
    rw [hnone] at he
    cases he
  · rename_i e he
    split at h
    · rename_i hlast
      refine .inl ⟨(Option.some.inj h).symm, fun e' he' => ?_⟩
      obtain rfl : e = e' := Option.some.inj (he.symm.trans he')
      exact extractShortName_last.mp hlast
    · cases h
    · rename_i raw hraw
      split_ifs at h with haccept
      exact .inr ⟨e, raw, (Option.some.inj h).symm, he, hraw, haccept⟩

theorem search_isSome : (search v d first keepDotdot accept n i).isSome ↔
    ∃ j, i ≤ j ∧ j < i + n ∧ (look v d first keepDotdot accept j).isSome := by
  simp only [search, List.findSome?_isSome_iff, List.mem_range'_1, and_assoc]

/-- A search gives what its first turn to stop does. -/
theorem search_eq_some {r : Option (Nat × DirEntry)} :
    search v d first keepDotdot accept n i = some r ↔ ∃ k, i ≤ k ∧ k < i + n ∧
      look v d first keepDotdot accept k = some r ∧
        ∀ j, i ≤ j → j < k → look v d first keepDotdot accept j = none := by
  induction n generalizing i with
  | zero =>
    simp only [search, List.range'_zero, List.findSome?_nil, reduceCtorEq, false_iff]
    rintro ⟨k, hlo, hhi, -⟩
    omega
  | succ n ih =>
    rw [search, List.range'_succ, List.findSome?_cons]
    cases hi : look v d first keepDotdot accept i with
    | none =>
      refine ih.trans ⟨?_, ?_⟩
      · rintro ⟨k, hlo, hhi, hk, hbefore⟩
        refine ⟨k, by omega, by omega, hk, fun j hj hjk => ?_⟩
        rcases hj.eq_or_lt with rfl | hlt
        · exact hi
        · exact hbefore j hlt hjk
      · rintro ⟨k, hlo, hhi, hk, hbefore⟩
        have hne : k ≠ i := by
          rintro rfl
          rw [hi] at hk
          cases hk
        exact ⟨k, by omega, by omega, hk, fun j hj => hbefore j (by omega)⟩
    | some r' =>
      constructor
      · intro h
        exact ⟨i, le_rfl, by omega, hi.trans h, fun j hj hji => absurd hji (by omega)⟩
      · rintro ⟨k, hlo, hhi, hk, hbefore⟩
        rcases hlo.eq_or_lt with rfl | hlt
        · exact hi.symm.trans hk
        · have hnone := hbefore i le_rfl hlt
          rw [hi] at hnone
          cases hnone

/-- What a search gives is an entry with a name it takes. -/
theorem search_found {k : Nat} {e : DirEntry}
    (h : search v d first keepDotdot accept n i = some (some (k, e))) :
    ∃ raw, dirEntry v d first k = some e ∧ extractShortName e.bytes keepDotdot = .named raw ∧
      accept raw = true := by
  obtain ⟨m, -, -, hlook, -⟩ := search_eq_some.mp h
  rcases look_eq_some hlook with ⟨hnone, -⟩ | ⟨e', raw, hsome, hentry, hraw, haccept⟩
  · cases hnone
  · cases hsome
    exact ⟨raw, hentry, hraw, haccept⟩

theorem look_named {e : DirEntry} {raw : List Byte} (he : dirEntry v d first i = some e)
    (hraw : extractShortName e.bytes keepDotdot = .named raw) (haccept : accept raw = true) :
    look v d first keepDotdot accept i = some (some (i, e)) := by
  simp only [look, he, hraw, haccept, if_true]

/-- The first entry of the name is found. -/
theorem findDirEntry_named {name raw : List Byte} {k : Nat} {e : DirEntry} (hk : k < lap)
    (he : dirEntry v d first k = some e) (hraw : extractShortName e.bytes true = .named raw)
    (hci : ciEq raw name = true) (hbefore : ∀ j < k, look v d first true (ciEq · name) j = none) :
    findDirEntry v d first name = some (some (k, e)) :=
  search_eq_some.mpr
    ⟨k, Nat.zero_le _, by omega, look_named he hraw hci, fun j _ hj => hbefore j hj⟩

/-- Looking up every name comes to an end if and only if the directory has one. -/
theorem find_returns_iff : (∀ name, (findDirEntry v d first name).isSome) ↔ HasEnd v d first := by
  constructor
  · intro h
    -- a name that is too long is not found
    obtain ⟨i, -, hlt, hlook⟩ := search_isSome.mp (h (List.replicate 13 0x41#8))
    obtain ⟨r, hr⟩ := Option.isSome_iff_exists.mp hlook
    rcases look_eq_some hr with ⟨-, hend⟩ | ⟨e, raw, -, -, hraw, hci⟩
    · exact ⟨i, by omega, hend⟩
    · have hlen := congrArg List.length (ciEq_iff.mp hci)
      have hmax := extractShortName_length hraw
      rw [List.length_map, List.length_map, List.length_replicate] at hlen
      omega
  · rintro ⟨i, hi, hend⟩ name
    exact search_isSome.mpr ⟨i, Nat.zero_le _, by omega, by rw [hend.look]; rfl⟩

theorem EndsAt.mod_lap (h : EndsAt v d first i) : EndsAt v d first (i % lap) := by
  have hsum := Nat.mod_add_div i lap
  have hstep : ∀ k, dirEntry v d first (i % lap + lap * k) = dirEntry v d first (i % lap) := by
    intro k
    induction k with
    | zero => rfl
    | succ k ih => rw [Nat.mul_succ, ← Nat.add_assoc, dirEntry_lap, ih]
  rw [EndsAt, ← hstep (i / lap), hsum]
  exact h

theorem readdirAll_end {cursor : Nat} (h : (readdirAll v d first n cursor).isSome) :
    ∃ i, EndsAt v d first i := by
  induction n generalizing cursor with
  | zero => cases h
  | succ n ih =>
    rw [readdirAll] at h
    split at h
    · cases h
    · rename_i hnone
      obtain ⟨k, -, -, hk, -⟩ := search_eq_some.mp hnone
      rcases look_eq_some hk with ⟨-, hend⟩ | ⟨e, raw, hr, -⟩
      · exact ⟨k, hend⟩
      · cases hr
    · rename_i j e hsome
      rw [Option.isSome_map] at h
      exact ih h

/-- Listing goes on to the end. -/
theorem EndsAt.readdirAll (hend : EndsAt v d first i) (n : Nat) {cursor : Nat} (hi : i < lap)
    (hcursor : cursor ≤ i) (hn : i < cursor + n) : (readdirAll v d first n cursor).isSome := by
  induction n generalizing cursor with
  | zero => omega
  | succ n ih =>
    have hreturns : (readdir v d first cursor).isSome :=
      search_isSome.mpr ⟨i, hcursor, by omega, by rw [hend.look]; rfl⟩
    obtain ⟨r, hr⟩ := Option.isSome_iff_exists.mp hreturns
    rw [Sdimg.readdirAll, hr]
    rcases r with - | ⟨k, e⟩
    · rfl
    · obtain ⟨j, hlo, -, hj, hbefore⟩ := search_eq_some.mp hr
      obtain rfl : k = j := by
        rcases look_eq_some hj with ⟨hnone, -⟩ | ⟨e', raw, hsome, -⟩
        · cases hnone
        · exact congrArg Prod.fst (Option.some.inj hsome)
      have hlt : k < i := by
        by_contra hge
        rcases (Nat.le_of_not_lt hge).eq_or_lt with rfl | hlt
        · rw [hend.look] at hj
          cases hj
        · have hstop := hbefore i hcursor hlt
          rw [hend.look] at hstop
          cases hstop
      rw [Option.isSome_map]
      exact ih (by omega) (by omega)

/-- Listing comes to an end if and only if the directory has one. -/
theorem readdirAll_returns_iff :
    (∃ n, (readdirAll v d first n 0).isSome) ↔ HasEnd v d first := by
  constructor
  · rintro ⟨n, hn⟩
    obtain ⟨i, hend⟩ := readdirAll_end hn
    exact ⟨i % lap, Nat.mod_lt _ (by decide), hend.mod_lap⟩
  · rintro ⟨i, hi, hend⟩
    exact ⟨i + 1, hend.readdirAll (i + 1) hi (Nat.zero_le _) (by omega)⟩

end Searches

/-! ## A card -/

/-- The slots of the first sector of a directory. -/
theorem firstSector_slot {d : Disk} {first lba i : Nat} {sec : Nat → Byte} (hi : i < 16)
    (hsector : dirSector sampleVolume d first 0 = some lba)
    (hread : readSector sampleVolume d lba = some sec) :
    dirEntry sampleVolume d first i =
      some { lba, off := i * 32, bytes := fun j => sec (i * 32 + j) } := by
  have hoff : u32 (i * 32) = i * 32 := u32_of_lt (by omega)
  rw [dirEntry, hoff]
  dsimp only
  rw [show sampleVolume.bytesPerSector = 512 from rfl, Nat.div_eq_of_lt (by omega),
    Nat.mod_eq_of_lt (by omega), hsector, Option.bind_some, hread, Option.map_some]

theorem sample_slot {i : Nat} (hi : i < 16) : dirEntry sampleVolume sampleDisk 2 i = some
    { lba := 1056, off := i * 32
      bytes := fun j => clip sampleVolume (fun q => sampleDisk.bytes (540672 + q)) (i * 32 + j) } :=
  firstSector_slot hi (by decide) rfl

theorem sample_end : EndsAt sampleVolume sampleDisk 2 1 := by
  intro e he
  obtain rfl := Option.some.inj ((sample_slot (by decide)).symm.trans he)
  decide

/-- The one file is no directory. -/
theorem sample_file {e : DirEntry} (he : dirEntry sampleVolume sampleDisk 2 0 = some e) :
    e.target.isDir = false := by
  obtain rfl := Option.some.inj ((sample_slot (by decide)).symm.trans he)
  decide

/-- A name that is not the file's is not found. -/
theorem sample_find {name : List Byte} (h : ciEq [0x41#8, dot] name = false) :
    findDirEntry sampleVolume sampleDisk 2 name = some none := by
  refine search_eq_some.mpr ⟨1, Nat.zero_le _, by decide, sample_end.look, fun j _ hj => ?_⟩
  obtain rfl : j = 0 := by omega
  have hname : extractShortName (fun j => clip sampleVolume
      (fun q => sampleDisk.bytes (540672 + q)) (0 * 32 + j)) true = .named [0x41#8, dot] := by
    decide
  rw [look, sample_slot (by decide)]
  simp only [hname, h]
  rfl

end Phosphoric.Sdimg
