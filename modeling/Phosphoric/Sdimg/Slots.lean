import Phosphoric.Sdimg.Alloc
import Phosphoric.Sdimg.Directory

/-!
# Free slots

`alloc_dir_entry` takes the first slot of a directory that is deleted or past the end. A directory
without one is extended by a cluster, unless it is the root directory of FAT16 or the volume is
full.

**Theorem (`allocDirEntry_slot`, `allocDirEntry_full`).** On a laid out volume the search for a slot
returns: with the first free slot, or with an error that changes nothing, or with the first slot of
a new cluster.
-/

namespace Phosphoric.Sdimg

open Store

variable (v : Volume)

/-! ## The search -/

/-- The errors the calls return. -/
inductive Errno
  | einval | erofs | enoent | enotdir | eexist | enospc | eisdir | emfile | eio
  deriving DecidableEq, Repr

/-- The walk of `alloc_dir_entry` to the cluster `k` links on: the chain is extended at its end.
`none` is a volume without room. The zeros are written, since the chain was. -/
def allocWalk : Nat → Nat → Disk → Option Nat × Disk
  | 0, c, d => (some c, d)
  | k + 1, c, d =>
    let next := readFatEntry v d c
    if next = eoc then
      let (newc, d) := extendChain v d c
      if newc = 0 then (none, d)
      else allocWalk k newc (zeroSectors v (clusterFirstSector v newc) v.sectorsPerCluster 0 d)
    else allocWalk k next d

/-- Sector `sec` of a directory, for `alloc_dir_entry`. -/
def allocSector (first sec : Nat) (d : Disk) : Option Nat × Disk :=
  if v.fsKind = .fat16 ∧ first = 0 then
    (if v.rootDirSectors ≤ sec then none else some (u32 (v.rootDirStartSector + sec)), d)
  else
    let (c, d) := allocWalk v (sec / v.sectorsPerCluster) first d
    (c.map fun c => u32 (clusterFirstSector v c + sec % v.sectorsPerCluster), d)

/-- The sector in the buffer, or read. -/
def cachedSector (cached : Option (Nat × (Nat → Byte))) (lba : Nat) (d : Disk) :
    Option (Nat → Byte) :=
  match cached with
  | none => readSector v d lba
  | some (lba', sec) => if lba' = lba then some sec else readSector v d lba

/-- The loop of `alloc_dir_entry` from slot `i` on, `n` turns of it. -/
def allocScan (first : Nat) :
    Nat → Nat → Option (Nat × (Nat → Byte)) → Disk → Option (Except Errno (Nat × Nat) × Disk)
  | 0, _, _, _ => none
  | n + 1, i, cached, d =>
    let bytesOff := u32 (i * 32)
    match allocSector v first (bytesOff / v.bytesPerSector) d with
    | (none, d) => some (.error .enospc, d)
    | (some lba, d) =>
      match cachedSector v cached lba d with
      | none => some (.error .eio, d)
      | some sec =>
        let off := bytesOff % v.bytesPerSector
        if sec off = 0x00#8 ∨ sec off = 0xE5#8 then some (.ok (lba, off), d)
        else allocScan first n (i + 1) (some (lba, sec)) d

/-- `alloc_dir_entry`. `none` is a search without end. -/
def allocDirEntry (first : Nat) (d : Disk) : Option (Except Errno (Nat × Nat) × Disk) :=
  allocScan v first lap 0 none d

/-! ## Directories as sectors -/

/-- A directory: `n` sectors past the FATs, each at a place of its own. -/
structure Dir (v : Volume) (d : Disk) (first n : Nat) (lba : Nat → Nat) : Prop where
  inside : ∀ s < n, dirSector v d first s = some (lba s)
  alloc : ∀ s < n, allocSector v first s d = (some (lba s), d)
  past : ∀ s, n ≤ s → dirSector v d first s = none
  data : ∀ s < n, DataSector v (lba s)
  inj : ∀ s < n, ∀ t < n, lba s = lba t → s = t
  short : n * v.bytesPerSector < 2 ^ 32

/-- Slot `i` of a directory is deleted, or past the end. -/
def FreeSlot (d : Disk) (first i : Nat) : Prop :=
  ∃ e, dirEntry v d first i = some e ∧ (e.bytes 0 = 0x00#8 ∨ e.bytes 0 = 0xE5#8)

section Slots

variable {v} {d : Disk} {first n : Nat} {lba : Nat → Nat}

/-- The slots of a directory. -/
theorem Dir.slot (h : Dir v d first n lba) (hlaid : LaidOut v d) {i : Nat}
    (hi : i * 32 < n * v.bytesPerSector) : u32 (i * 32) = i * 32 ∧ i * 32 / v.bytesPerSector < n ∧
      ∃ sec, readSector v d (lba (i * 32 / v.bytesPerSector)) = some sec ∧
        dirEntry v d first i = some
          { lba := lba (i * 32 / v.bytesPerSector), off := i * 32 % v.bytesPerSector
            bytes := fun j => sec (i * 32 % v.bytesPerSector + j) } := by
  have hoff : u32 (i * 32) = i * 32 := u32_of_lt (by have := h.short; omega)
  have hsec : i * 32 / v.bytesPerSector < n := (Nat.div_lt_iff_lt_mul hlaid.sector_pos).mpr hi
  have hread := hlaid.readSector_of_data (h.data _ hsec)
  refine ⟨hoff, hsec, _, hread, ?_⟩
  rw [dirEntry, hoff]
  dsimp only
  rw [h.inside _ hsec, Option.bind_some, hread]
  rfl

/-- A slot that is not free is passed. -/
theorem Dir.allocScan_next (h : Dir v d first n lba) (hlaid : LaidOut v d) {i : Nat}
    (hi : i * 32 < n * v.bytesPerSector) {cached : Option (Nat × (Nat → Byte))}
    (hcached : ∀ lba' sec, cached = some (lba', sec) → readSector v d lba' = some sec) (m : Nat) :
    (FreeSlot v d first i ∧ allocScan v first (m + 1) i cached d =
        some (.ok (lba (i * 32 / v.bytesPerSector), i * 32 % v.bytesPerSector), d)) ∨
      (¬FreeSlot v d first i ∧ ∃ sec,
        readSector v d (lba (i * 32 / v.bytesPerSector)) = some sec ∧
          allocScan v first (m + 1) i cached d = allocScan v first m (i + 1)
            (some (lba (i * 32 / v.bytesPerSector), sec)) d) := by
  obtain ⟨hoff, hsec, sec, hread, hentry⟩ := h.slot hlaid hi
  have hbuffer : cachedSector v cached (lba (i * 32 / v.bytesPerSector)) d = some sec := by
    unfold cachedSector
    split
    · exact hread
    · rename_i lba' sec' heq
      split_ifs with hlba
      · have := hcached _ _ rfl
        rw [hlba, hread] at this
        exact this.symm
      · exact hread
  have hfree : FreeSlot v d first i ↔
      sec (i * 32 % v.bytesPerSector) = 0x00#8 ∨ sec (i * 32 % v.bytesPerSector) = 0xE5#8 := by
    constructor
    · rintro ⟨e, he, hfirst⟩
      obtain rfl := Option.some.inj (hentry.symm.trans he)
      exact hfirst
    · intro hfirst
      exact ⟨_, hentry, hfirst⟩
  rw [allocScan, hoff]
  dsimp only
  rw [h.alloc _ hsec]
  dsimp only
  rw [hbuffer]
  dsimp only
  by_cases hslot : FreeSlot v d first i
  · rw [if_pos (hfree.mp hslot)]
    exact .inl ⟨hslot, rfl⟩
  · rw [if_neg fun hfirst => hslot (hfree.mpr hfirst)]
    exact .inr ⟨hslot, sec, hread, rfl⟩

/-- The first free slot is found. -/
theorem Dir.allocScan_slot (h : Dir v d first n lba) (hlaid : LaidOut v d) {i k : Nat}
    (hk : k * 32 < n * v.bytesPerSector) (hslot : FreeSlot v d first k) (hik : i ≤ k)
    (hbefore : ∀ j, i ≤ j → j < k → ¬FreeSlot v d first j) {cached : Option (Nat × (Nat → Byte))}
    (hcached : ∀ lba' sec, cached = some (lba', sec) → readSector v d lba' = some sec) {m : Nat}
    (hm : k < i + m) : allocScan v first m i cached d =
      some (.ok (lba (k * 32 / v.bytesPerSector), k * 32 % v.bytesPerSector), d) := by
  induction m generalizing i cached with
  | zero => omega
  | succ m ih =>
    rcases h.allocScan_next hlaid (show i * 32 < n * v.bytesPerSector by omega) hcached m with
      ⟨hfree, hscan⟩ | ⟨hused, sec, hread, hscan⟩
    · rcases hik.eq_or_lt with rfl | hlt
      · exact hscan
      · exact absurd hfree (hbefore i le_rfl hlt)
    · rcases hik.eq_or_lt with rfl | hlt
      · exact absurd hslot hused
      · rw [hscan]
        refine ih hlt (fun j hj => hbefore j (by omega)) ?_ (by omega)
        rintro _ _ ⟨⟩
        exact hread

/-- Without a free slot the loop goes on past the sectors there are. -/
theorem Dir.allocScan_full (h : Dir v d first n lba) (hlaid : LaidOut v d) {i k : Nat}
    (hk : k * 32 = n * v.bytesPerSector) (hik : i ≤ k)
    (hnone : ∀ j, i ≤ j → j < k → ¬FreeSlot v d first j) {cached : Option (Nat × (Nat → Byte))}
    (hcached : ∀ lba' sec, cached = some (lba', sec) →
      readSector v d lba' = some sec ∧ ∃ s < n, lba' = lba s) (m : Nat) :
    ∃ cached' : Option (Nat × (Nat → Byte)), (∀ lba' sec, cached' = some (lba', sec) →
      readSector v d lba' = some sec ∧ ∃ s < n, lba' = lba s) ∧
        allocScan v first (m + (k - i)) i cached d = allocScan v first m k cached' d := by
  induction hgap : k - i generalizing i cached with
  | zero =>
    obtain rfl : i = k := by omega
    exact ⟨cached, hcached, rfl⟩
  | succ gap ih =>
    have hi : i * 32 < n * v.bytesPerSector := by omega
    rcases h.allocScan_next hlaid hi (fun _ _ heq => (hcached _ _ heq).1) (m + gap) with
      ⟨hfree, -⟩ | ⟨-, sec, hread, hscan⟩
    · exact absurd hfree (hnone i le_rfl (by omega))
    · have hsec := (h.slot hlaid hi).2.1
      obtain ⟨cached', hcached', hrest⟩ := ih (i := i + 1) (by omega)
        (fun j hj => hnone j (by omega)) (show ∀ lba' sec',
          some (lba (i * 32 / v.bytesPerSector), sec) = some (lba', sec') →
            readSector v d lba' = some sec' ∧ ∃ s < n, lba' = lba s by
            rintro _ _ ⟨⟩
            exact ⟨hread, _, hsec, rfl⟩) (by omega)
      exact ⟨cached', hcached', by rw [← Nat.add_assoc, hscan]; exact hrest⟩

/-- The number of the slots. -/
theorem Dir.slots (h : Dir v d first n lba) (hlaid : LaidOut v d) :
    ∃ k < lap, k * 32 = n * v.bytesPerSector := by
  have hshort := h.short
  obtain ⟨m, hm⟩ := hlaid.sector_dvd
  refine ⟨n * m, ?_, by rw [hm]; ring⟩
  rw [hm] at hshort
  have hsum : n * (32 * m) = n * m * 32 := by ring
  have hlap : lap = 2 ^ 27 := rfl
  omega

/-- A free slot is one of them. -/
theorem FreeSlot.inside (hdir : Dir v d first n lba) (hlaid : LaidOut v d) {i : Nat}
    (h : FreeSlot v d first i) : ∃ k, k * 32 < n * v.bytesPerSector ∧ FreeSlot v d first k := by
  have hoff : u32 (i * 32) = u32 (i * 32) / 32 * 32 := by
    rw [u32]
    omega
  have hsame : dirEntry v d first (u32 (i * 32) / 32) = dirEntry v d first i := by
    have hagain : u32 (u32 (i * 32)) = u32 (i * 32) := Nat.mod_mod _ _
    rw [dirEntry, dirEntry, ← hoff, hagain]
  refine ⟨u32 (i * 32) / 32, ?_, ?_⟩
  · rw [← hoff]
    by_contra hge
    have hout : n ≤ u32 (i * 32) / v.bytesPerSector :=
      (Nat.le_div_iff_mul_le hlaid.sector_pos).mpr (Nat.le_of_not_lt hge)
    obtain ⟨e, he, -⟩ := h
    rw [dirEntry] at he
    dsimp only at he
    rw [hdir.past _ hout] at he
    cases he
  · rw [FreeSlot, hsame]
    exact h

/-- The first free slot is taken. -/
theorem Dir.allocDirEntry_slot (h : Dir v d first n lba) (hlaid : LaidOut v d)
    (hslot : ∃ i, FreeSlot v d first i) : ∃ k e, dirEntry v d first k = some e ∧
      FreeSlot v d first k ∧ (∀ j < k, ¬FreeSlot v d first j) ∧
        (∃ s < n, e.lba = lba s) ∧ allocDirEntry v first d = some (.ok (e.lba, e.off), d) := by
  classical
  obtain ⟨i, hi⟩ := hslot
  obtain ⟨k, hk, hfree⟩ := hi.inside h hlaid
  have hex : ∃ k, k * 32 < n * v.bytesPerSector ∧ FreeSlot v d first k := ⟨k, hk, hfree⟩
  obtain ⟨hin, hfirst⟩ := Nat.find_spec hex
  have hbefore : ∀ j < Nat.find hex, ¬FreeSlot v d first j := by
    intro j hj hfree
    exact Nat.find_min hex hj ⟨by omega, hfree⟩
  obtain ⟨-, hsec, sec, -, hentry⟩ := h.slot hlaid hin
  have hlt : Nat.find hex < 0 + lap := by
    have hshort := h.short
    have hlap : lap = 2 ^ 27 := rfl
    omega
  refine ⟨_, _, hentry, hfirst, hbefore, ⟨_, hsec, rfl⟩, ?_⟩
  exact h.allocScan_slot hlaid hin hfirst (Nat.zero_le _) (fun j _ hj => hbefore j hj)
    (fun _ _ heq => by cases heq) hlt

/-- Without a free slot, what there is past the sectors decides. -/
theorem Dir.allocDirEntry_end (h : Dir v d first n lba) (hlaid : LaidOut v d)
    (hnone : ¬∃ i, FreeSlot v d first i) {next : Option Nat} {d' : Disk}
    (hend : allocSector v first n d = (next, d'))
    (hnew : ∀ lba' ∈ next, readSector v d' lba' = (some fun _ => 0#8) ∧ ∀ s < n, lba' ≠ lba s) :
    allocDirEntry v first d =
      some (next.elim (.error .enospc) fun lba' => .ok (lba', 0), d') := by
  obtain ⟨k, hk, hslots⟩ := h.slots hlaid
  have hempty : ∀ lba' sec, (none : Option (Nat × (Nat → Byte))) = some (lba', sec) →
      readSector v d lba' = some sec ∧ ∃ s < n, lba' = lba s := fun _ _ heq => by cases heq
  obtain ⟨cached, hcached, hscan⟩ := h.allocScan_full hlaid hslots (Nat.zero_le k)
    (fun j _ _ hj => hnone ⟨j, hj⟩) hempty (lap - k)
  rw [Nat.sub_zero, Nat.sub_add_cancel hk.le] at hscan
  obtain ⟨m, hm⟩ := Nat.exists_eq_succ_of_ne_zero (show lap - k ≠ 0 by omega)
  have hoff : u32 (k * 32) = n * v.bytesPerSector := by
    rw [hslots, u32_of_lt h.short]
  rw [allocDirEntry, hscan, hm, allocScan, hoff, Nat.mul_div_cancel _ hlaid.sector_pos,
    Nat.mul_mod_left, hend]
  rcases next with - | lba'
  · rfl
  · obtain ⟨hread, hne⟩ := hnew lba' rfl
    have hbuffer : cachedSector v cached lba' d' = some fun _ => 0#8 := by
      unfold cachedSector
      split
      · exact hread
      · rename_i lba₀ sec
        split_ifs with hlba
        · obtain ⟨-, s, hs, heq⟩ := hcached _ _ rfl
          exact absurd (hlba.symm.trans heq) (hne s hs)
        · exact hread
    dsimp only
    rw [hbuffer]
    rfl

end Slots

/-! ## Chains -/

/-- A chain of clusters of the volume, to its end. -/
structure Chain (v : Volume) (d : Disk) (first : Nat) (chain : List Nat) : Prop where
  starts : chain.head? = some first
  clusters : ∀ c ∈ chain, 2 ≤ c ∧ c < v.countOfClusters + 2
  linked : ∀ i (hi : i < chain.length), readFatEntry v d chain[i] = chain.getD (i + 1) eoc

/-- Sector `s` of a chain. -/
def chainSector (v : Volume) (chain : List Nat) (s : Nat) : Nat :=
  v.dataStartSector + (chain.getD (s / v.sectorsPerCluster) 0 - 2) * v.sectorsPerCluster +
    s % v.sectorsPerCluster

/-- The root directory of FAT16. -/
abbrev IsRoot16 (v : Volume) (first : Nat) : Prop := v.fsKind = .fat16 ∧ first = 0

/-- A well-formed directory: the root directory of FAT16, or a chain to its end; 4 GiB are more than
it and one cluster more. -/
def DirOk (v : Volume) (d : Disk) (first : Nat) : Prop :=
  (IsRoot16 v first ∧ v.rootDirSectors * v.bytesPerSector < 2 ^ 32) ∨
    ∃ chain, Chain v d first chain ∧
      (chain.length + 1) * v.sectorsPerCluster * v.bytesPerSector < 2 ^ 32

section Chains

variable {v} {d : Disk} {first : Nat} {chain : List Nat}

theorem LaidOut.lt_eoc (h : LaidOut v d) {c : Nat} (hc : c < v.countOfClusters + 2) : c < eoc := by
  have hmax := h.entry_max
  have heoc : eoc = 0xFFFFFFFF := rfl
  split_ifs at hmax <;> omega

namespace Chain

variable (h : Chain v d first chain)
include h

theorem zero_lt : 0 < chain.length := by
  rcases chain with - | ⟨c, chain⟩
  · cases h.starts
  · exact Nat.succ_pos _

theorem getElem_zero : getElem chain 0 h.zero_lt = first := by
  have hstarts := h.starts
  rw [List.head?_eq_getElem?, List.getElem?_eq_getElem h.zero_lt] at hstarts
  exact Option.some.inj hstarts

theorem not_root : ¬IsRoot16 v first := by
  rintro ⟨-, rfl⟩
  have hfirst := h.clusters _ (List.getElem_mem h.zero_lt)
  rw [h.getElem_zero] at hfirst
  omega

theorem link {i : Nat} (hi : i + 1 < chain.length) :
    readFatEntry v d (getElem chain i (by omega)) = chain[i + 1] := by
  rw [h.linked i (by omega), List.getD_eq_getElem _ _ hi]

theorem end_link {i : Nat} (hi : i + 1 = chain.length) :
    readFatEntry v d (getElem chain i (by omega)) = eoc := by
  rw [h.linked i (by omega), List.getD_eq_default _ _ (by omega)]

theorem next (hlaid : LaidOut v d) {i : Nat} (hi : i < chain.length) :
    nextCluster v d chain[i] = chain[i + 1]? := by
  rw [nextCluster]
  rcases Nat.lt_or_ge (i + 1) chain.length with hnext | hlast
  · have hc := h.clusters _ (List.getElem_mem hnext)
    have hlt := hlaid.lt_eoc hc.2
    rw [h.link hnext, if_neg (by omega), List.getElem?_eq_getElem hnext]
  · rw [h.end_link (show i + 1 = chain.length by omega), if_pos (.inr rfl),
      List.getElem?_eq_none hlast]

theorem walkChain (hlaid : LaidOut v d) (k : Nat) {i : Nat} (hi : i < chain.length) :
    walkChain v d k chain[i] = chain[i + k]? :=
  walkChain_getElem (fun _ hlt => h.next hlaid hlt) k hi

theorem allocWalk (hlaid : LaidOut v d) (k : Nat) {i : Nat} (hi : i + k < chain.length) :
    allocWalk v k (getElem chain i (by omega)) d = (some chain[i + k], d) := by
  induction k generalizing i with
  | zero => rfl
  | succ k ih =>
    have hc := h.clusters _ (List.getElem_mem (show i + 1 < chain.length by omega))
    have hlt := hlaid.lt_eoc hc.2
    rw [Sdimg.allocWalk, h.link (show i + 1 < chain.length by omega)]
    dsimp only
    rw [if_neg (by omega), ih (show i + 1 + k < chain.length by omega)]
    simp only [Nat.add_right_comm, Nat.add_assoc]

/-- No cluster is in a chain twice: the links after it would never end. -/
theorem getElem_inj (hlaid : LaidOut v d) {i j : Nat} (hij : i < j) (hj : j < chain.length) :
    getElem chain i (by omega) ≠ chain[j] := by
  intro heq
  have hsame : ∀ m (hm : j + m < chain.length),
      getElem chain (i + m) (by omega) = chain[j + m] := by
    intro m hm
    induction m with
    | zero => exact heq
    | succ m ih =>
      have hlink := h.link (show i + m + 1 < chain.length by omega)
      rw [ih (by omega), h.link (show j + m + 1 < chain.length by omega)] at hlink
      exact hlink.symm
  have hlast := hsame (chain.length - 1 - j) (by omega)
  have hend := h.end_link (show j + (chain.length - 1 - j) + 1 = chain.length by omega)
  rw [← hlast, h.link (show i + (chain.length - 1 - j) + 1 < chain.length by omega)] at hend
  have hc := hlaid.lt_eoc (h.clusters _ (List.getElem_mem
    (show i + (chain.length - 1 - j) + 1 < chain.length by omega))).2
  omega

theorem sector (hlaid : LaidOut v d) {s : Nat} (hs : s < chain.length * v.sectorsPerCluster) :
    ∃ c ∈ chain, chain[s / v.sectorsPerCluster]? = some c ∧
      u32 (clusterFirstSector v c + s % v.sectorsPerCluster) = chainSector v chain s ∧
        DataSector v (chainSector v chain s) := by
  have hlt : s / v.sectorsPerCluster < chain.length :=
    (Nat.div_lt_iff_lt_mul hlaid.cluster_pos).mpr hs
  have hmem := List.getElem_mem hlt
  obtain ⟨hlo, hhi⟩ := h.clusters _ hmem
  have hsector := hlaid.clusterSector hlo hhi (Nat.mod_lt s hlaid.cluster_pos)
  rw [chainSector, List.getD_eq_getElem _ _ hlt]
  exact ⟨_, hmem, List.getElem?_eq_getElem hlt, hsector⟩

theorem walk (hlaid : LaidOut v d) (k : Nat) : Sdimg.walkChain v d k first = chain[k]? := by
  have hwalk := h.walkChain hlaid k h.zero_lt
  rwa [h.getElem_zero, Nat.zero_add] at hwalk

theorem dir (hlaid : LaidOut v d)
    (hshort : chain.length * v.sectorsPerCluster * v.bytesPerSector < 2 ^ 32) :
    Dir v d first (chain.length * v.sectorsPerCluster) (chainSector v chain) where
  inside := by
    intro s hs
    obtain ⟨c, -, hc, hsector, -⟩ := h.sector hlaid hs
    rw [dirSector, if_neg h.not_root, h.walk hlaid, hc, Option.map_some, hsector]
  alloc := by
    intro s hs
    obtain ⟨c, -, hc, hsector, -⟩ := h.sector hlaid hs
    obtain ⟨hlt, rfl⟩ := List.getElem?_eq_some_iff.mp hc
    have hwalk := h.allocWalk hlaid (s / v.sectorsPerCluster) (i := 0) (by omega)
    simp only [h.getElem_zero, Nat.zero_add] at hwalk
    rw [allocSector, if_neg h.not_root, hwalk]
    dsimp only
    rw [Option.map_some, hsector]
  past := by
    intro s hs
    have hout : chain.length ≤ s / v.sectorsPerCluster :=
      (Nat.le_div_iff_mul_le hlaid.cluster_pos).mpr hs
    rw [dirSector, if_neg h.not_root, h.walk hlaid, List.getElem?_eq_none hout]
    rfl
  data s hs := (h.sector hlaid hs).elim fun _ hc => hc.2.2.2
  inj := by
    intro s hs t ht heq
    obtain ⟨c, hmem, hc, -, -⟩ := h.sector hlaid hs
    obtain ⟨c', hmem', hc', -, -⟩ := h.sector hlaid ht
    obtain ⟨hlt, rfl⟩ := List.getElem?_eq_some_iff.mp hc
    obtain ⟨hlt', rfl⟩ := List.getElem?_eq_some_iff.mp hc'
    rw [chainSector, chainSector, List.getD_eq_getElem _ _ hlt, List.getD_eq_getElem _ _ hlt',
      Nat.add_assoc, Nat.add_assoc, Nat.add_left_cancel_iff] at heq
    have hpos := hlaid.cluster_pos
    have hmod := Nat.mod_lt s hpos
    have hmod' := Nat.mod_lt t hpos
    have hcluster : chain[s / v.sectorsPerCluster] - 2 = chain[t / v.sectorsPerCluster] - 2 := by
      have hdiv := congrArg (· / v.sectorsPerCluster) heq
      simpa [Nat.mul_add_div hpos, Nat.mul_comm _ v.sectorsPerCluster, Nat.div_eq_of_lt hmod,
        Nat.div_eq_of_lt hmod'] using hdiv
    have hlo := (h.clusters _ hmem).1
    have hlo' := (h.clusters _ hmem').1
    have hindex : s / v.sectorsPerCluster = t / v.sectorsPerCluster := by
      by_contra hne
      rcases Nat.lt_or_gt_of_ne hne with hless | hmore
      · exact h.getElem_inj hlaid hless hlt' (by omega)
      · exact h.getElem_inj hlaid hmore hlt (by omega)
    rw [hcluster, Nat.add_left_cancel_iff] at heq
    rw [← Nat.div_add_mod s v.sectorsPerCluster, ← Nat.div_add_mod t v.sectorsPerCluster, hindex, heq]
  short := hshort

/-- At its end the chain is extended, if there is a free cluster. -/
theorem allocSector_end (hlaid : LaidOut v d) (hro : v.readOnly = false) :
    ((¬∃ c, Free v d c) ∧
        allocSector v first (chain.length * v.sectorsPerCluster) d = (none, d)) ∨
      ∃ c d', Free v d c ∧ allocSector v first (chain.length * v.sectorsPerCluster) d =
          (some (v.dataStartSector + (c - 2) * v.sectorsPerCluster), d') ∧
        Changes v {c, getElem chain (chain.length - 1) (by have := h.zero_lt; omega)}
          (clusterSectors v c) d d' ∧
        readFatEntry v d' c = eoc ∧
        readFatEntry v d' (getElem chain (chain.length - 1) (by have := h.zero_lt; omega)) = c ∧
        ∀ s < v.sectorsPerCluster,
          readSector v d' (v.dataStartSector + (c - 2) * v.sectorsPerCluster + s) =
            some fun _ => 0#8 := by
  have hpos := h.zero_lt
  have hlast : chain.length - 1 < chain.length := by omega
  have hend := h.end_link (show chain.length - 1 + 1 = chain.length by omega)
  have hrange := h.clusters _ (List.getElem_mem hlast)
  have hwalk : ∀ k i (hi : i < chain.length), i + k = chain.length →
      Sdimg.allocWalk v k chain[i] d =
        Sdimg.allocWalk v 1 chain[chain.length - 1] d := by
    intro k
    induction k with
    | zero => exact fun i hi hik => absurd hik (by omega)
    | succ k ih =>
      intro i hi hik
      rcases Nat.eq_zero_or_pos k with rfl | hkpos
      · obtain rfl : i = chain.length - 1 := by omega
        rfl
      · have hc := h.clusters _ (List.getElem_mem (show i + 1 < chain.length by omega))
        have hlt := hlaid.lt_eoc hc.2
        rw [Sdimg.allocWalk, h.link (show i + 1 < chain.length by omega)]
        dsimp only
        rw [if_neg (by omega), ih (i + 1) (by omega) (by omega)]
  have hwhole := hwalk chain.length 0 hpos (Nat.zero_add _)
  rw [h.getElem_zero] at hwhole
  rw [allocSector, if_neg h.not_root, Nat.mul_div_cancel _ hlaid.cluster_pos, hwhole,
    Sdimg.allocWalk, hend]
  dsimp only
  rw [if_pos rfl, Nat.mul_mod_left]
  rcases hlaid.extendChain_spec hro hrange.2 (by rw [hend]; decide) with
    ⟨hnone, hextend⟩ | ⟨c, d₁, hfree, hextend, hchanges, hnew, hlink⟩
  · rw [hextend]
    exact .inl ⟨hnone, rfl⟩
  · obtain ⟨hzeroed, hzero⟩ := hchanges.laid.zeroCluster hro hfree.1 hfree.2.1
    have hc : c ≠ 0 := by
      have := hfree.1
      omega
    rw [hextend]
    dsimp only
    rw [if_neg hc]
    refine .inr ⟨c, _, hfree, ?_, ?_, ?_, ?_, hzero⟩
    · rw [Sdimg.allocWalk]
      dsimp only
      rw [Option.map_some, (hlaid.clusterSector hfree.1 hfree.2.1 hlaid.cluster_pos).1]
      rfl
    · exact (hchanges.mono subset_rfl (Set.empty_subset _)).trans
        (hzeroed.mono (Set.empty_subset _) subset_rfl)
    · exact (hzeroed.entry c hfree.2.1 (Set.notMem_empty _)).trans hnew
    · exact (hzeroed.entry _ hrange.2 (Set.notMem_empty _)).trans hlink

omit h in
theorem last_link {c : Nat} (h : Chain v d first (chain ++ [c])) : readFatEntry v d c = eoc := by
  have hend := h.end_link (i := chain.length) (by rw [List.length_append, List.length_singleton])
  rwa [List.getElem_append_right le_rfl, List.getElem_singleton] at hend

/-- A cluster of a chain is not free. -/
theorem not_free {c : Nat} (hfree : Free v d c) : c ∉ chain := by
  intro hmem
  obtain ⟨i, hi, rfl⟩ := List.getElem_of_mem hmem
  have hused := hfree.2.2
  rcases Nat.lt_or_ge (i + 1) chain.length with hnext | hlast
  · have hrange := h.clusters _ (List.getElem_mem hnext)
    rw [h.link hnext] at hused
    omega
  · rw [h.end_link (show i + 1 = chain.length by omega)] at hused
    cases hused

/-- The sectors of a chain are none of another cluster's. -/
theorem sector_notMem (hlaid : LaidOut v d) {c : Nat} (hc : 2 ≤ c) (hnot : c ∉ chain) {s : Nat}
    (hs : s < chain.length * v.sectorsPerCluster) : chainSector v chain s ∉ clusterSectors v c := by
  rintro ⟨t, ht, heq⟩
  obtain ⟨c', hmem, hc', -, -⟩ := h.sector hlaid hs
  obtain ⟨hlt, rfl⟩ := List.getElem?_eq_some_iff.mp hc'
  have hpos := hlaid.cluster_pos
  have hmod := Nat.mod_lt s hpos
  rw [chainSector, List.getD_eq_getElem _ _ hlt, Nat.add_assoc, Nat.add_assoc,
    Nat.add_left_cancel_iff] at heq
  have hdiv := congrArg (· / v.sectorsPerCluster) heq
  have hsame : chain[s / v.sectorsPerCluster] - 2 = c - 2 := by
    simpa [Nat.mul_add_div hpos, Nat.mul_comm _ v.sectorsPerCluster, Nat.div_eq_of_lt hmod,
      Nat.div_eq_of_lt ht] using hdiv
  have hlo := (h.clusters _ hmem).1
  refine hnot ?_
  rw [show c = chain[s / v.sectorsPerCluster] by omega]
  exact hmem

/-- The chain with the cluster at its end. -/
theorem extended {d' : Disk} {c : Nat} (hlaid : LaidOut v d) (hfree : Free v d c) {S : Set Nat}
    (hchanges : Changes v {c, getElem chain (chain.length - 1) (by have := h.zero_lt; omega)} S d d')
    (hnew : readFatEntry v d' c = eoc)
    (hlink : readFatEntry v d' (getElem chain (chain.length - 1) (by have := h.zero_lt; omega)) = c) :
    Chain v d' first (chain ++ [c]) where
  starts := by
    rw [List.head?_append_of_ne_nil _ (List.ne_nil_of_length_pos h.zero_lt)]
    exact h.starts
  clusters := by
    intro c' hc'
    rcases List.mem_append.mp hc' with hmem | hmem
    · exact h.clusters c' hmem
    · rw [List.mem_singleton.mp hmem]
      exact ⟨hfree.1, hfree.2.1⟩
  linked := by
    intro i hi
    rw [List.length_append, List.length_singleton] at hi
    rcases Nat.lt_or_ge (i + 1) chain.length with hnext | hlast
    · have hmem := List.getElem_mem (show i < chain.length by omega)
      have hne : getElem chain i (by omega) ∉
          ({c, getElem chain (chain.length - 1) (by omega)} : Set Nat) := by
        rintro (heq | heq)
        · have hused := h.link hnext
          have hrange := h.clusters _ (List.getElem_mem hnext)
          rw [heq, hfree.2.2] at hused
          omega
        · exact h.getElem_inj hlaid (show i < chain.length - 1 by omega) (by omega) heq
      rw [List.getElem_append_left (by omega), hchanges.entry _ (h.clusters _ hmem).2 hne,
        h.link hnext, List.getD_eq_getElem _ _ (by rw [List.length_append]; omega),
        List.getElem_append_left hnext]
    · rcases Nat.lt_or_ge i chain.length with hin | hout
      · obtain rfl : i = chain.length - 1 := by omega
        rw [List.getElem_append_left hin, hlink, show chain.length - 1 + 1 = chain.length by omega,
          List.getD_append_right _ _ _ _ le_rfl, Nat.sub_self]
        rfl
      · obtain rfl : i = chain.length := by omega
        rw [List.getElem_append_right le_rfl,
          List.getD_eq_default _ _ (by rw [List.length_append, List.length_singleton])]
        simpa using hnew

end Chain

/-- The root directory of FAT16. -/
theorem IsRoot16.dir (h : IsRoot16 v first) (hlaid : LaidOut v d)
    (hshort : v.rootDirSectors * v.bytesPerSector < 2 ^ 32) :
    Dir v d first v.rootDirSectors (v.rootDirStartSector + ·) where
  inside s hs := by rw [dirSector, if_pos h, if_neg (Nat.not_le.mpr hs), (hlaid.rootSector hs).1]
  alloc s hs := by rw [allocSector, if_pos h, if_neg (Nat.not_le.mpr hs), (hlaid.rootSector hs).1]
  past s hs := by rw [dirSector, if_pos h, if_pos hs]
  data s hs := (hlaid.rootSector hs).2
  inj s _ t _ heq := Nat.add_left_cancel heq
  short := hshort

/-- What `alloc_dir_entry` comes to in a well-formed directory: the first free slot, an error that
changes nothing, or the first slot of a new cluster. -/
theorem DirOk.allocDirEntry (h : DirOk v d first) (hlaid : LaidOut v d) (hro : v.readOnly = false) :
    (∃ k e, dirEntry v d first k = some e ∧ FreeSlot v d first k ∧
        (∀ j < k, ¬FreeSlot v d first j) ∧ DataSector v e.lba ∧
          allocDirEntry v first d = some (.ok (e.lba, e.off), d)) ∨
      ((¬∃ k, FreeSlot v d first k) ∧ (IsRoot16 v first ∨ ¬∃ c, Free v d c) ∧
        allocDirEntry v first d = some (.error .enospc, d)) ∨
      ((¬∃ k, FreeSlot v d first k) ∧ ∃ chain c d', Chain v d first chain ∧
        (chain.length + 1) * v.sectorsPerCluster * v.bytesPerSector < 2 ^ 32 ∧ Free v d c ∧
          allocDirEntry v first d =
            some (.ok (v.dataStartSector + (c - 2) * v.sectorsPerCluster, 0), d') ∧
          Chain v d' first (chain ++ [c]) ∧
          Changes v {c, chain.getD (chain.length - 1) 0} (clusterSectors v c) d d' ∧
          readSector v d' (v.dataStartSector + (c - 2) * v.sectorsPerCluster) =
            some fun _ => 0#8) := by
  rcases h with ⟨hroot, hshort⟩ | ⟨chain, hchain, hshort⟩
  · have hdir := hroot.dir hlaid hshort
    by_cases hslot : ∃ k, FreeSlot v d first k
    · obtain ⟨k, e, he, hfree, hbefore, ⟨s, hs, hlba⟩, halloc⟩ := hdir.allocDirEntry_slot hlaid hslot
      exact .inl ⟨k, e, he, hfree, hbefore, hlba ▸ hdir.data s hs, halloc⟩
    · have hend : allocSector v first v.rootDirSectors d = (none, d) := by
        rw [allocSector, if_pos hroot, if_pos le_rfl]
      have halloc := hdir.allocDirEntry_end hlaid hslot hend (fun _ hmem => by cases hmem)
      exact .inr (.inl ⟨hslot, .inl hroot, halloc⟩)
  · have hlen : chain.length * v.sectorsPerCluster * v.bytesPerSector < 2 ^ 32 :=
      (Nat.mul_le_mul_right _ (Nat.mul_le_mul_right _ (Nat.le_succ _))).trans_lt hshort
    have hdir := hchain.dir hlaid hlen
    have hlast : chain.length - 1 < chain.length := by
      have := hchain.zero_lt
      omega
    by_cases hslot : ∃ k, FreeSlot v d first k
    · obtain ⟨k, e, he, hfree, hbefore, ⟨s, hs, hlba⟩, halloc⟩ := hdir.allocDirEntry_slot hlaid hslot
      exact .inl ⟨k, e, he, hfree, hbefore, hlba ▸ hdir.data s hs, halloc⟩
    · rcases hchain.allocSector_end hlaid hro with
        ⟨hnone, hend⟩ | ⟨c, d', hfree, hend, hchanges, hnew, hlink, hzero⟩
      · have halloc := hdir.allocDirEntry_end hlaid hslot hend (fun _ hmem => by cases hmem)
        exact .inr (.inl ⟨hslot, .inr hnone, halloc⟩)
      · have hread := hzero 0 hlaid.cluster_pos
        rw [Nat.add_zero] at hread
        have halloc := hdir.allocDirEntry_end hlaid hslot hend fun lba' hmem => by
          obtain rfl := Option.some.inj hmem
          exact ⟨hread, fun s hs heq => hchain.sector_notMem hlaid hfree.1
            (hchain.not_free hfree) hs ⟨0, hlaid.cluster_pos, heq.symm⟩⟩
        have hgetD : chain.getD (chain.length - 1) 0 = chain[chain.length - 1] :=
          List.getD_eq_getElem _ _ hlast
        exact .inr (.inr ⟨hslot, chain, c, d', hchain, hshort, hfree, halloc,
          hchain.extended hlaid hfree hchanges hnew hlink, by rw [hgetD]; exact hchanges, hread⟩)

end Chains

end Phosphoric.Sdimg
