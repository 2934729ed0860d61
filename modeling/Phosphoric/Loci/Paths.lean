import Phosphoric.Loci.Served

/-!
# Where the names of the 6502 lead

An operation pops a name into a buffer of its own (`popZstring`) and resolves it under the root of
the volume (`resolvePath`). What comes out should be that root, a slash, and the name behind its
drive and its leading separators (`InsideRoot`).

The buffer cuts a name that does not fit, and what is left is resolved as a name of its own. The
resolver takes one drive off and looks for no second one.

**Theorem (`insideRoot_iff`).** A path that is accepted leads where the name says exactly when the
name fits the buffer, or names the root itself, and no drive follows its drive and separators.
-/

namespace Phosphoric

variable {loci : Loci} {name path rel root : List Byte}

/-! ## What a name says -/

/-- The name on the xstack: up to its terminator, or to the end of the stack. -/
def Loci.guestName (loci : Loci) : List Byte :=
  (loci.stackBytes loci.xstackPtr (lociXstackSize - loci.xstackPtr)).takeWhile (· != 0#8)

/-- A byte and a colon in front are the drive. -/
def HasDrive (name : List Byte) : Prop := name.getD 1 0#8 = 0x3A#8

instance : DecidablePred HasDrive := fun name => decEq (name.getD 1 0#8) 0x3A#8

/-- The name behind its drive. -/
def behindDrive (name : List Byte) : List Byte := if HasDrive name then name.drop 2 else name

/-- The configured root, or that of the USB device the drive selects. -/
def SelectedRoot (loci : Loci) (name root : List Byte) : Prop :=
  root = (if loci.flashRoot ≠ [] then loci.flashRoot else ascii ".") ∨
    ∃ device < lociUsbDevMax, HasDrive name ∧ (name.getD 0 0#8).toNat = 0x31 + device ∧
      root = loci.usbRoot.getD device [] ∧ root ≠ []

/-- A path that stays below the root it is put under. -/
structure Relative (rel : List Byte) : Prop where
  inside : ascii ".." ∉ rel.splitOnP isSlash
  notRooted : ∀ c ∈ rel.head?, isSlash c = false
  noDrive : ¬ HasDrive rel

/-- The host's path is the root the name selects and, below it, all the name has behind its drive
and its leading separators. -/
structure InsideRoot (loci : Loci) (name hostPath : List Byte) : Prop where
  root : SelectedRoot loci name (volumeRoot loci name)
  below : ∃ slashes rel, behindDrive name = slashes ++ rel ∧ (∀ c ∈ slashes, isSlash c = true) ∧
    Relative rel ∧ hostPath = volumeRoot loci name ++ ascii "/" ++ rel

/-! ## The stripped name -/

theorem stripVolume_eq (name : List Byte) :
    stripVolume name = (behindDrive name).dropWhile isSlash := rfl

theorem stripVolume_notRooted (name : List Byte) :
    ∀ c ∈ (stripVolume name).head?, isSlash c = false := by
  intro c hc
  have hhead := List.head?_dropWhile_not isSlash (behindDrive name)
  rw [← stripVolume_eq, Option.mem_def.mp hc] at hhead
  simpa using hhead

theorem stripVolume_unique {slashes : List Byte} (hname : behindDrive name = slashes ++ rel)
    (hslashes : ∀ c ∈ slashes, isSlash c = true) (hrel : ∀ c ∈ rel.head?, isSlash c = false) :
    stripVolume name = rel := by
  rw [stripVolume_eq, hname, List.dropWhile_append_of_pos hslashes]
  cases rel with
  | nil => rfl
  | cons c rest => exact List.dropWhile_cons_of_neg (by simp [hrel c rfl])

theorem volumeRoot_selected (loci : Loci) (name : List Byte) :
    SelectedRoot loci name (volumeRoot loci name) := by
  simp only [volumeRoot]
  by_cases hdevice : name.getD 1 0#8 = 0x3A#8 ∧ 0x31 ≤ (name.getD 0 0#8).toNat ∧
      (name.getD 0 0#8).toNat ≤ 0x30 + lociUsbDevMax
  · rw [if_pos hdevice]
    by_cases husb : loci.usbRoot.getD ((name.getD 0 0#8).toNat - 0x31) [] ≠ []
    · rw [if_pos husb]
      exact .inr ⟨(name.getD 0 0#8).toNat - 0x31, by omega, hdevice.1, by omega, rfl, husb⟩
    · rw [if_neg husb]
      exact .inl rfl
  · rw [if_neg hdevice]
    exact .inl rfl

/-! ## A name and its beginning -/

section Cut

variable {k : Nat}

theorem getD_take (hk : 2 ≤ k) {i : Nat} (hi : i < 2) :
    (name.take k).getD i 0#8 = name.getD i 0#8 := by
  rw [List.getD_eq_getElem?_getD, List.getD_eq_getElem?_getD, List.getElem?_take_of_lt (by omega)]

theorem volumeRoot_take (hk : 2 ≤ k) : volumeRoot loci (name.take k) = volumeRoot loci name := by
  simp only [volumeRoot, getD_take hk (by decide : 0 < 2), getD_take hk (by decide : 1 < 2)]

/-- The cut takes the end off what is behind the drive. -/
theorem behindDrive_take (hk : 2 ≤ k) :
    behindDrive name = behindDrive (name.take k) ++ name.drop k := by
  have hdrive : HasDrive (name.take k) ↔ HasDrive name := by
    rw [HasDrive, HasDrive, getD_take hk (by decide)]
  simp only [behindDrive, hdrive]
  split
  · rw [List.drop_take, show name.drop k = (name.drop 2).drop (k - 2) by
      rw [List.drop_drop, Nat.add_sub_cancel' hk]]
    exact (List.take_append_drop _ _).symm
  · exact (List.take_append_drop _ _).symm

theorem stripVolume_take (hk : 2 ≤ k) :
    stripVolume name = if stripVolume (name.take k) = [] then (name.drop k).dropWhile isSlash
      else stripVolume (name.take k) ++ name.drop k := by
  rw [stripVolume_eq name, behindDrive_take hk, List.dropWhile_append, ← stripVolume_eq]
  simp only [List.isEmpty_iff]

/-- The cut leaves the stripped name as it is when there is nothing to cut, or nothing but
separators. -/
theorem stripVolume_take_eq_iff (hk : 2 ≤ k) :
    stripVolume (name.take k) = stripVolume name ↔ name.length ≤ k ∨ stripVolume name = [] := by
  have hwhole := @stripVolume_take name k hk
  by_cases hempty : stripVolume (name.take k) = []
  · rw [if_pos hempty] at hwhole
    refine ⟨fun h => .inr (h ▸ hempty), ?_⟩
    rintro (hfits | hroot)
    · rw [List.take_of_length_le hfits]
    · rw [hempty, hroot]
  · rw [if_neg hempty] at hwhole
    rw [hwhole]
    simp [hempty]

end Cut

/-! ## Accepted paths -/

theorem resolvePath_eq_some {hostPath : List Byte} (hpath : resolvePath loci path = some hostPath) :
    ascii ".." ∉ (stripVolume path).splitOnP isSlash ∧
      hostPath = volumeRoot loci path ++ ascii "/" ++ stripVolume path := by
  simp only [resolvePath, Option.ite_none_left_eq_some, Option.ite_none_right_eq_some,
    Option.some.injEq] at hpath
  obtain ⟨hinside, -, rfl⟩ := hpath
  exact ⟨by simpa using hinside, rfl⟩

/-- What was accepted of a name cut to `k` bytes. -/
theorem insideRoot_take_iff {k : Nat} (hk : 2 ≤ k) {hostPath : List Byte}
    (hpath : resolvePath loci (name.take k) = some hostPath) :
    InsideRoot loci name hostPath ↔
      (name.length ≤ k ∨ stripVolume name = []) ∧ ¬ HasDrive (stripVolume name) := by
  obtain ⟨hinside, rfl⟩ := resolvePath_eq_some hpath
  rw [← stripVolume_take_eq_iff hk, volumeRoot_take hk]
  constructor
  · rintro ⟨-, slashes, rel, hname, hslashes, hrel, hhost⟩
    obtain rfl := stripVolume_unique hname hslashes hrel.notRooted
    exact ⟨List.append_cancel_left hhost, hrel.noDrive⟩
  · rintro ⟨hcut, hdrive⟩
    rw [hcut] at hinside ⊢
    refine ⟨volumeRoot_selected loci name, (behindDrive name).takeWhile isSlash,
      stripVolume name, ?_, fun c hc => ?_, ⟨hinside, stripVolume_notRooted name, hdrive⟩, rfl⟩
    · exact List.takeWhile_append_dropWhile.symm
    · exact List.all_eq_true.mp List.all_takeWhile c hc

/-! ## Popped names -/

/-- The buffer holds one byte less than its size. -/
theorem popZstring_eq_some {outsize : Nat} (hpop : (popZstring loci outsize).1 = some path) :
    path = loci.guestName.take (outsize - 1) := by
  simp only [popZstring, Option.filter_eq_some_iff] at hpop
  have hkept := hpop.1
  simp only [popZstringKeep] at hkept
  by_cases hempty : loci.xstackPtr ≥ lociXstackSize
  · rw [if_pos hempty] at hkept
    cases hkept
  · rw [if_neg hempty, Option.ite_none_right_eq_some, Option.some.injEq] at hkept
    rw [← hkept.2, Loci.guestName, List.take_takeWhile, Loci.stackBytes, Loci.stackBytes,
      ← List.map_take, List.take_range, Nat.min_comm]

theorem Loci.checked_roots (loci : Loci) (off n : Nat) :
    (loci.checked off n).flashRoot = loci.flashRoot ∧
      (loci.checked off n).usbRoot = loci.usbRoot := by
  simp only [Loci.checked]
  split
  · exact ⟨rfl, rfl⟩
  · exact ⟨rfl, rfl⟩

theorem xstackZero_roots (loci : Loci) :
    (xstackZero loci).flashRoot = loci.flashRoot ∧ (xstackZero loci).usbRoot = loci.usbRoot := by
  rw [xstackZero, xstackSync_eq]
  exact ⟨rfl, rfl⟩

theorem popZstring_roots (outsize : Nat) :
    (popZstring loci outsize).2.flashRoot = loci.flashRoot ∧
      (popZstring loci outsize).2.usbRoot = loci.usbRoot := by
  have hzeroed := xstackZero_roots (popZstringKeep loci outsize).2
  refine ⟨hzeroed.1.trans ?_, hzeroed.2.trans ?_⟩ <;> simp only [popZstringKeep] <;> split
  · rfl
  · exact (loci.checked_roots _ _).1
  · rfl
  · exact (loci.checked_roots _ _).2

theorem resolvePath_popped (outsize : Nat) (path : List Byte) :
    resolvePath (popZstring loci outsize).2 path = resolvePath loci path := by
  simp only [resolvePath, volumeRoot, popZstring_roots outsize]

/-- The operations pop a name into 260 bytes, a mount into 256. -/
theorem insideRoot_iff {outsize : Nat} (hsize : outsize = 260 ∨ outsize = 256)
    {hostPath : List Byte} (hpop : (popZstring loci outsize).1 = some path)
    (hpath : resolvePath (popZstring loci outsize).2 path = some hostPath) :
    InsideRoot loci loci.guestName hostPath ↔
      (loci.guestName.length < outsize ∨ stripVolume loci.guestName = []) ∧
        ¬ HasDrive (stripVolume loci.guestName) := by
  rw [resolvePath_popped, popZstring_eq_some hpop] at hpath
  rw [insideRoot_take_iff (by omega) hpath, Nat.le_sub_one_iff_lt (by omega)]

/-- A name as the test of the operations pushes it, under the root of the first device. -/
def shortName : Loci :=
  { lociInit ⟨fun _ => 0#8, []⟩ 0 with
    usbRoot := [ascii "/usb"], xstackPtr := lociXstackSize - 4
    xstack := fun i => (ascii "1:/a").getD (i - (lociXstackSize - 4)) 0#8 }

theorem shortName_inside : InsideRoot shortName shortName.guestName (ascii "/usb/a") :=
  (@insideRoot_iff shortName (ascii "1:/a") 260 (.inl rfl) _ (by decide) (by decide)).mpr
    (by decide)

/-- 300 bytes. -/
def longName : Loci :=
  { lociInit ⟨fun _ => 0#8, []⟩ 0 with xstackPtr := lociXstackSize - 300, xstack := fun _ => 0x61#8 }

theorem longName_stackBytes (off n : Nat) :
    longName.stackBytes off n = List.replicate n 0x61#8 := by
  have hbytes : (fun i => longName.xstack (off + i)) = fun _ => 0x61#8 := rfl
  rw [Loci.stackBytes, hbytes, List.map_const', List.length_range]

theorem longName_guestName : longName.guestName = List.replicate 300 0x61#8 := by
  rw [Loci.guestName, longName_stackBytes, List.takeWhile_replicate]
  rfl

theorem longName_popped :
    (popZstring longName 260).1 = some (longName.guestName.take 259) := by
  rw [longName_guestName, List.take_replicate]
  simp only [popZstring, popZstringKeep, longName_stackBytes, List.takeWhile_replicate]
  rfl

theorem stripVolume_replicate (n : Nat) :
    stripVolume (List.replicate n 0x61#8) = List.replicate n 0x61#8 := by
  have hdrive : ¬ HasDrive (List.replicate n 0x61#8) := by
    rw [HasDrive, List.getD_eq_getElem?_getD, List.getElem?_replicate]
    split <;> decide
  rw [stripVolume_eq, behindDrive, if_neg hdrive, List.dropWhile_replicate]
  rfl

theorem longName_resolved {n : Nat} (hn : n + 2 < 512) :
    (resolvePath longName (List.replicate n 0x61#8)).isSome := by
  have hplain : ∀ c ∈ List.replicate n 0x61#8, isSlash c = false := by
    intro c hc
    rw [List.eq_of_mem_replicate hc]
    rfl
  have hroot : volumeRoot longName (List.replicate n 0x61#8) = ascii "." := by
    rw [volumeRoot, if_neg]
    · rfl
    · rintro ⟨hcolon, -⟩
      rw [List.getD_eq_getElem?_getD, List.getElem?_replicate] at hcolon
      split at hcolon <;> exact absurd hcolon (by decide)
  have hname : List.replicate n 0x61#8 ≠ ascii ".." := by
    cases n with
    | zero => decide
    | succ n => exact fun h => absurd (List.cons.inj h).1 (by decide)
  simp only [resolvePath, stripVolume_replicate, List.splitOnP_eq_singleton hplain, hroot]
  rw [if_neg (by simpa using hname), if_pos (by simp [ascii]; omega)]
  rfl

/-- The name is cut to 259 bytes, and the file of that name is taken. -/
theorem longName_cut : ∃ path hostPath : List Byte,
    (popZstring longName 260).1 = some path ∧
      resolvePath (popZstring longName 260).2 path = some hostPath ∧
      ¬ InsideRoot longName longName.guestName hostPath := by
  have hcut : longName.guestName.take 259 = List.replicate 259 0x61#8 := by
    rw [longName_guestName, List.take_replicate]
    rfl
  obtain ⟨hostPath, hhost⟩ := Option.isSome_iff_exists.mp (@longName_resolved 259 (by decide))
  rw [← hcut] at hhost
  refine ⟨_, hostPath, longName_popped, (resolvePath_popped 260 _).trans hhost, ?_⟩
  rw [insideRoot_take_iff (by decide) hhost, longName_guestName, stripVolume_replicate,
    List.length_replicate]
  exact fun h => h.1.elim (by decide) (by decide)

end Phosphoric
