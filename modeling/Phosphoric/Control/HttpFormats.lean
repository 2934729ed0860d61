import Phosphoric.Control.HttpApi

/-!
# The formats of the HTTP API

What holds of every format of `route`: its command is one the dispatch knows, the values stand where
that command takes its arguments, the file of a command that opens one comes from `sandbox_path`,
and the line fits `cmd`.

**Theorem (`httpRequest_gives`).** A request that makes a command gives the values of such a format.
-/

namespace Phosphoric

/-! ## What the formats are -/

/-- At most so many bytes. -/
def HttpArg.bound : HttpArg → Nat
  | .lit s => s.length
  | .param _ size => size - 1
  | .file _ => httpRootMax - 1
  | .text piece => piece.length

def HttpArg.isFile : HttpArg → Bool
  | .file _ => true
  | _ => false

/-- The number of words and the rest of the line are those the command takes. -/
def CtlArgs.shaped (kind : CtlArgs) (f : HttpFormat) : Bool :=
  match kind with
  | .words n => f.words.length ≤ n && f.tail.isNone
  | .raw n => f.words.length == n
  | .bytes => f.words.length == 1 && f.tail.isSome
  | .cond =>
    match f.words, f.tail with
    | [_], none => true
    | [_, .lit word], some _ => isIf word
    | _, _ => false

/-- Where the command opens a file, it is one of the sandbox. -/
def HttpFormat.filed (f : HttpFormat) : Bool :=
  if f.verb ∈ [cstr "load-tap", cstr "load-sym", cstr "save-mem", cstr "load-mem",
      cstr "state-save", cstr "state-load", cstr "load-rom"] then
    f.words.head?.any HttpArg.isFile
  else if f.verb = cstr "load-disk" then f.words.tail.head?.any HttpArg.isFile
  else if f.verb = cstr "trace" then
    match f.words with
    | [.lit sub] => sub != cstr "save" || f.tail.any HttpArg.isFile
    | _ => false
  else true

/-- The command is a word known to the dispatch, which takes its arguments as the format puts them;
the line fits its buffer. -/
structure HttpFormat.Sound (f : HttpFormat) : Prop where
  shaped : (ctlCommands.lookup f.verb).any fun kind => kind.shaped f
  filed : f.filed
  bound : f.verb.length +
    ((f.words ++ f.tail.toList).map fun a => a.bound + 1).sum < httpCmdMax

theorem HttpFormat.sound_iff (f : HttpFormat) : f.Sound ↔
    ((ctlCommands.lookup f.verb).any fun kind => kind.shaped f) = true ∧ f.filed = true ∧
      f.verb.length + ((f.words ++ f.tail.toList).map fun a => a.bound + 1).sum < httpCmdMax :=
  ⟨fun h => ⟨h.shaped, h.filed, h.bound⟩, fun ⟨hshaped, hfiled, hbound⟩ => ⟨hshaped, hfiled, hbound⟩⟩

instance (f : HttpFormat) : Decidable f.Sound := decidable_of_iff' _ f.sound_iff

/-- The commands are words without line ends. -/
theorem ctlCommands_word : (ctlCommands.all fun p =>
    !p.1.isEmpty && p.1.all fun b => !ctlBlank b && !ctlLineEnd b) = true := by
  decide +kernel

theorem httpGet_sound {path : CStr} (hpath : path.length ≤ 2047) :
    ∀ branch ∈ httpGet path, ∀ f ∈ branch.2, f.Sound := by
  unfold httpGet
  simp only [List.forall_mem_cons, List.not_mem_nil, false_imp_iff, implies_true, and_true,
    true_and]
  refine ⟨?_, ?_, ⟨?_, ?_⟩, ?_, ?_, ?_, ?_, ?_, ?_, ?_⟩
  -- only one format has a piece of the path in it
  any_goals decide +kernel
  refine ⟨rfl, rfl, ?_⟩
  show 4 + (path.drop 6).length + 1 < 2048
  rw [List.length_drop]
  omega

theorem httpExec_sound : ∀ verb ∈ httpExec, HttpFormat.Sound ⟨verb, [], none⟩ := by
  decide +kernel

theorem httpPost_sound (path : CStr) :
    ∀ branch ∈ httpPost path, branch.1 = true → ∀ f ∈ branch.2, f.Sound := by
  unfold httpPost
  simp only [List.forall_mem_cons, List.not_mem_nil, false_imp_iff, implies_true, and_true]
  refine ⟨fun _ => ?_, fun _ => ?_, fun _ => ?_, fun _ f hf => ?_, fun _ => ?_, fun _ => ?_,
    fun hguard => ?_, fun _ => ⟨?_, ?_⟩, fun _ => ⟨?_, ?_⟩, fun _ => ?_, fun _ => ⟨?_, ?_⟩,
    fun _ => ⟨?_, ?_, ?_⟩, fun _ => ⟨?_, ?_⟩, fun _ => ?_, fun _ => ?_, fun _ => ?_,
    fun _ => ⟨?_, ?_⟩, fun _ => ⟨?_, ?_⟩, fun _ => ?_, fun _ => ?_, fun _ => ?_, fun _ => ?_,
    fun _ => ?_⟩
  any_goals decide +kernel
  · obtain ⟨verb, hverb, rfl⟩ := List.mem_map.mp hf
    exact httpExec_sound verb (List.mem_of_mem_filter hverb)
  · refine ⟨rfl, rfl, ?_⟩
    have hlength : path.length = 7 := eq_of_beq (Bool.and_eq_true_iff.mp hguard).2
    show 9 + ((path.drop 6).length + 1 + (1024 - 1 + 1 + 0)) < 2048
    rw [List.length_drop]
    omega

theorem httpDelete_sound (path : CStr) :
    ∀ branch ∈ httpDelete path, branch.1 = true → ∀ f ∈ branch.2, f.Sound := by
  unfold httpDelete
  simp only [List.forall_mem_cons, List.not_mem_nil, false_imp_iff, implies_true, and_true]
  have hcut : ∀ n, ((path.drop n).take 15).length ≤ 15 := fun n => List.length_take_le ..
  refine ⟨fun _ => ?_, fun hguard => ?_, fun _ => ?_, fun _ => ?_, fun _ => ?_, fun _ => ?_,
    fun _ => ?_⟩
  any_goals decide +kernel
  · refine ⟨rfl, rfl, ?_⟩
    have hlength : path.length = 7 := eq_of_beq (Bool.and_eq_true_iff.mp hguard).2
    show 10 + ((path.drop 6).length + 1 + 0) < 2048
    rw [List.length_drop]
    omega
  · refine ⟨rfl, rfl, ?_⟩
    show 7 + (((path.drop 7).take 15).length + 1 + 0) < 2048
    have hle := hcut 7
    omega
  · refine ⟨rfl, rfl, ?_⟩
    show 7 + (((path.drop 7).take 15).length + 1 + 0) < 2048
    have hle := hcut 7
    omega
  · refine ⟨rfl, rfl, ?_⟩
    show 8 + (((path.drop 8).take 15).length + 1 + 0) < 2048
    have hle := hcut 8
    omega

/-! ## Values -/

theorem urlDecodeBytes_length (s : List Byte) : (urlDecodeBytes s).length ≤ s.length := by
  fun_induction urlDecodeBytes s with
  | case1 => exact Nat.le_refl 0
  | case2 s ih => exact Nat.succ_le_succ ih
  | case3 =>
    simp only [List.length_cons] at *
    omega
  | case4 =>
    simp only [List.length_cons] at *
    omega
  | case5 =>
    simp only [List.length_cons] at *
    omega

theorem getParam_length {qs key value : CStr} {outsz : Nat}
    (h : getParam qs key outsz = some value) : value.length ≤ outsz - 1 := by
  unfold getParam at h
  obtain ⟨pair, -, hpair⟩ := List.exists_of_findSome?_eq_some h
  split_ifs at hpair
  obtain rfl := Option.some.inj hpair
  calc (urlDecode _).length
      ≤ (urlDecodeBytes ((pair.dropWhile (· ≠ 0x3D)).tail.take (outsz - 1))).length :=
        (List.takeWhile_sublist _).length_le
    _ ≤ ((pair.dropWhile (· ≠ 0x3D)).tail.take (outsz - 1)).length := urlDecodeBytes_length _
    _ ≤ outsz - 1 := List.length_take_le ..

theorem sandboxPath_eq {root rel file : CStr} {outsz : Nat}
    (h : sandboxPath root rel outsz = some file) :
    InRoot root file ∧ file.length < outsz := by
  unfold sandboxPath at h
  split_ifs at h with hbad hfits
  obtain rfl := Option.some.inj h
  refine ⟨⟨rel, rfl, ?_⟩, hfits⟩
  exact Bool.eq_false_iff.mpr fun hdots => hbad (.inr (.inr hdots))

theorem HttpArg.value_length {root src w : CStr} {a : HttpArg}
    (h : a.value root src = some w) : w.length ≤ a.bound := by
  cases a with
  | lit s =>
    obtain rfl := Option.some.inj h
    exact Nat.le_refl _
  | param key size => exact getParam_length h
  | file key =>
    obtain ⟨rel, -, hfile⟩ := Option.bind_eq_some_iff.mp h
    exact Nat.le_sub_one_of_lt (sandboxPath_eq hfile).2
  | text piece =>
    obtain rfl := Option.some.inj h
    exact Nat.le_refl _

theorem HttpArg.value_inRoot {root src w : CStr} {a : HttpArg} (hfile : a.isFile = true)
    (h : a.value root src = some w) : InRoot root w := by
  cases a with
  | file key =>
    obtain ⟨rel, -, hsandbox⟩ := Option.bind_eq_some_iff.mp h
    exact (sandboxPath_eq hsandbox).1
  | lit s => cases hfile
  | param key size => cases hfile
  | text piece => cases hfile

/-- The values of a format, one for each of its pieces. -/
structure HttpFormat.Gives (root src : CStr) (f : HttpFormat) (c : HttpCommand) : Prop where
  verb : c.verb = f.verb
  words : List.Forall₂ (fun a w => HttpArg.value root src a = some w) f.words c.words
  tail : Option.Rel (fun a w => HttpArg.value root src a = some w) f.tail c.tail

theorem mapM_value {root src : CStr} {args : List HttpArg} {values : List CStr}
    (h : args.mapM (HttpArg.value root src) = some values) :
    List.Forall₂ (fun a w => HttpArg.value root src a = some w) args values := by
  induction args generalizing values with
  | nil =>
    obtain rfl := Option.some.inj h
    exact .nil
  | cons a args ih =>
    rw [List.mapM_cons] at h
    obtain ⟨w, hw, hrest⟩ := Option.bind_eq_some_iff.mp h
    obtain ⟨ws, hws, hcons⟩ := Option.bind_eq_some_iff.mp hrest
    obtain rfl := Option.some.inj hcons
    exact .cons hw (ih hws)

theorem HttpFormat.eval_gives {root src : CStr} {f : HttpFormat} {c : HttpCommand}
    (h : f.eval root src = some c) : f.Gives root src c := by
  unfold HttpFormat.eval at h
  cases hwords : f.words.mapM (HttpArg.value root src) with
  | none =>
    rw [hwords] at h
    cases h
  | some words =>
    rw [hwords] at h
    cases htail : f.tail with
    | none =>
      rw [htail] at h
      obtain rfl := Option.some.inj h
      exact ⟨rfl, mapM_value hwords, htail ▸ .none⟩
    | some a =>
      rw [htail] at h
      obtain ⟨w, hw, hmk⟩ := Option.map_eq_some_iff.mp h
      obtain rfl := hmk
      exact ⟨rfl, mapM_value hwords, htail ▸ .some hw⟩

/-- The formats tried are those of a branch whose guard holds. -/
theorem httpBranch_sound {branches : List (Bool × List HttpFormat)}
    (h : ∀ branch ∈ branches, branch.1 = true → ∀ f ∈ branch.2, f.Sound) :
    ∀ f ∈ httpBranch branches, f.Sound := by
  unfold httpBranch
  cases hfind : branches.find? Prod.fst with
  | none => exact nofun
  | some branch => exact h branch (List.mem_of_find?_eq_some hfind) (List.find?_some hfind)

theorem httpBranch_gives {branches : List (Bool × List HttpFormat)} {root src : CStr}
    {c : HttpCommand} (hsound : ∀ branch ∈ branches, branch.1 = true → ∀ f ∈ branch.2, f.Sound)
    (h : (httpBranch branches).findSome? (HttpFormat.eval root src) = some c) :
    ∃ (f : HttpFormat) (src : CStr), f.Sound ∧ f.Gives root src c := by
  obtain ⟨f, hf, heval⟩ := List.exists_of_findSome?_eq_some h
  exact ⟨f, src, httpBranch_sound hsound f hf, HttpFormat.eval_gives heval⟩

theorem httpRoute_gives {root method path body : CStr} {query : Option CStr} {c : HttpCommand}
    (hpath : path.length ≤ 2047) (h : httpRoute root method path query body = some c) :
    ∃ (f : HttpFormat) (src : CStr), f.Sound ∧ f.Gives root src c := by
  unfold httpRoute at h
  split_ifs at h
  · exact httpBranch_gives (fun branch hmem _ => httpGet_sound hpath branch hmem) h
  · exact httpBranch_gives (httpPost_sound path) h
  · exact httpBranch_gives (httpDelete_sound path) h

/-- The command of a request is written by a sound format. -/
theorem httpRequest_gives {root : CStr} {req body : List Byte} {c : HttpCommand}
    (h : httpRequest root req body = some c) :
    ∃ (f : HttpFormat) (src : CStr), f.Sound ∧ f.Gives root src c := by
  unfold httpRequest at h
  obtain ⟨⟨method, rest⟩, -, htarget⟩ := Option.bind_eq_some_iff.mp h
  obtain ⟨⟨target, rest'⟩, hscan, hroute⟩ := Option.bind_eq_some_iff.mp htarget
  refine httpRoute_gives ?_ hroute
  unfold scanWord at hscan
  dsimp only at hscan
  split_ifs at hscan
  obtain ⟨rfl, -⟩ := Prod.mk.inj (Option.some.inj hscan)
  exact (List.takeWhile_sublist _).length_le.trans (List.length_take_le ..)

/-! ## The length of the line -/

theorem httpWords_length {root src : CStr} {args : List HttpArg} {values : List CStr}
    (h : List.Forall₂ (fun a w => HttpArg.value root src a = some w) args values) :
    (values.flatMap fun piece => (0x20 : Byte) :: piece).length ≤
      (args.map fun a => a.bound + 1).sum := by
  induction h with
  | nil => exact Nat.le_refl 0
  | cons hvalue _ ih =>
    have hle := HttpArg.value_length hvalue
    rw [List.flatMap_cons, List.length_append, List.map_cons, List.sum_cons, List.length_cons]
    omega

/-- The line of a sound format fits its buffer. -/
theorem HttpFormat.Gives.line_eq {root src : CStr} {f : HttpFormat} {c : HttpCommand}
    (h : f.Gives root src c) (hsound : f.Sound) : c.line = c.text := by
  have htail : List.Forall₂ (fun a w => HttpArg.value root src a = some w) f.tail.toList
      c.tail.toList := by
    have hrel := h.tail
    generalize f.tail = tail at hrel ⊢
    generalize c.tail = value at hrel ⊢
    cases hrel with
    | none => exact .nil
    | some hvalue => exact .cons hvalue .nil
  have hpieces := httpWords_length (List.rel_append h.words htail)
  dsimp only at hpieces
  have hbound := hsound.bound
  have hlength : c.text.length < httpCmdMax := by
    unfold HttpCommand.text
    rw [List.length_append, h.verb]
    omega
  exact List.take_of_length_le (Nat.le_sub_one_of_lt hlength)

end Phosphoric
