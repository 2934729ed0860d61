import Phosphoric.Sdimg.Slots

/-!
# Calls that make entries

The calls of `src/io/loci_sdimg.c` that take paths: a path is split into its parent and a name, the
parent is resolved, and the name looked up in it. `some (.error e)` is an error returned, and `none`
a search that never ends.
-/

namespace Phosphoric.Sdimg

open Store

variable (v : Volume) (d : Disk)

/-! ## Paths and names -/

/-- What is before the last slash, and after it. -/
def splitSlash : List Byte → Option (List Byte) × List Byte
  | [] => (none, [])
  | c :: s =>
    match splitSlash s with
    | (some parent, base) => (some (c :: parent), base)
    | (none, base) => if isSlash c then (some [], base) else (none, c :: base)

/-- `split_parent`: the buffers are of 256 and 64 bytes. -/
def splitParent (path : List Byte) : Option (List Byte × List Byte) :=
  let (parent?, base) := splitSlash (path.dropWhile isSlash)
  let parent := parent?.getD []
  if 256 ≤ parent.length ∨ base = [] then none else some (parent, base.take 63)

/-- What follows a step that may return an error. -/
def andThen {α β : Type} (x : Option (Except Errno α)) (f : α → Option (Except Errno β)) :
    Option (Except Errno β) :=
  match x with
  | none => none
  | some (.error e) => some (.error e)
  | some (.ok a) => f a

@[simp] theorem andThen_error {α β : Type} (e : Errno) (f : α → Option (Except Errno β)) :
    andThen (some (.error e)) f = some (.error e) := rfl

@[simp] theorem andThen_ok {α β : Type} (a : α) (f : α → Option (Except Errno β)) :
    andThen (some (.ok a)) f = f a := rfl

/-- The first cluster of the parent. Only the calls that open files check that it is a directory. -/
def parentOf (checkDir : Bool) (parent : List Byte) : Option (Except Errno Nat) :=
  (resolvePath v d parent).map fun
    | none => .error .enoent
    | some t => if checkDir && !t.isDir then .error .enotdir else .ok t.cluster

/-- The directory and the eleven characters of a name that is to be new. -/
def newName (checkDir : Bool) (path : List Byte) : Option (Except Errno (Nat × List Byte)) :=
  match splitParent path with
  | none => some (.error .einval)
  | some (parent, base) =>
    match toFat83 base with
    | none => some (.error .einval)
    | some name83 =>
      andThen (parentOf v d checkDir parent) fun first =>
        (findDirEntry v d first base).map fun
          | none => .ok (first, name83)
          | some _ => .error .eexist

/-- The entry of a path. -/
def oldName (checkDir : Bool) (path : List Byte) : Option (Except Errno DirEntry) :=
  match splitParent path with
  | none => some (.error .einval)
  | some (parent, base) =>
    andThen (parentOf v d checkDir parent) fun first =>
      (findDirEntry v d first base).map fun
        | none => .error .enoent
        | some (_, e) => .ok e

/-- Eleven characters as bytes. -/
def nameBytes (name83 : List Byte) (i : Nat) : Byte := name83.getD i 0#8

/-! ## Files -/

/-- `create_new_file`. -/
def createFile (path : List Byte) (img : Image) : Option (Except Errno (Fin 16) × Image) :=
  if v.readOnly then some (.error .erofs, img)
  else
    match newName v img.disk true path with
    | none => none
    | some (.error e) => some (.error e, img)
    | some (.ok (first, name83)) =>
      match allocDirEntry v first img.disk with
      | none => none
      | some (.error e, d) => some (.error e, { img with disk := d })
      | some (.ok (lba, off), d) =>
        match writeNewEntry v lba off (nameBytes name83) attrArchive 0 0 d with
        | none => some (.error .eio, { img with disk := d })
        | some _ =>
          some ((allocFile img.files).elim (.error .emfile) .ok,
            createNewFile v lba off (nameBytes name83) { img with disk := d })

/-- What `fopen_existing_read` returns when it opens nothing. -/
def openError (lba off : Nat) : Errno :=
  match readSector v d lba with
  | none => .eio
  | some sec => if sec (off + 11) &&& attrDirectory ≠ 0#8 then .eisdir else .emfile

/-- `loci_sdimg_fopen_ex` for writing: a file is truncated, or made. -/
def fopenEx (path : List Byte) (img : Image) : Option (Except Errno (Fin 16) × Image) :=
  if v.readOnly then some (.error .erofs, img)
  else
    match oldName v img.disk true path with
    | none => none
    | some (.error .enoent) => createFile v path img
    | some (.error e) => some (.error e, img)
    | some (.ok e) =>
      match (fopenExistingRead v true e.lba e.off img).1 with
      | none => some (.error (openError v img.disk e.lba e.off), img)
      | some slot => some (.ok slot, fopenWrite v e.lba e.off img)

/-! ## Directories -/

/-- `loci_sdimg_mkdir`. The zeros and the dots are written, since the FAT was. -/
def mkdir (path : List Byte) (d : Disk) : Option (Except Errno Unit × Disk) :=
  if v.readOnly then some (.error .erofs, d)
  else
    match newName v d false path with
    | none => none
    | some (.error e) => some (.error e, d)
    | some (.ok (first, name83)) =>
      let newc := (allocFreeCluster v d 2).1
      if newc = 0 then some (.error .enospc, makeDir v first d)
      else
        match allocDirEntry v first (makeDir v first d) with
        | none => none
        | some (.error e, d) => some (.error e, d)
        | some (.ok (lba, off), d) =>
          match writeNewEntry v lba off (nameBytes name83) attrDirectory newc 0 d with
          | none => some (.error .eio, d)
          | some d => some (.ok (), d)

/-! ## Removing and renaming -/

/-- `loci_sdimg_unlink`. -/
def unlinkPath (path : List Byte) (d : Disk) : Option (Except Errno Unit × Disk) :=
  if v.readOnly then some (.error .erofs, d)
  else
    match oldName v d false path with
    | none => none
    | some (.error e) => some (.error e, d)
    | some (.ok e) =>
      match readSector v d e.lba with
      | none => some (.error .eio, d)
      | some sec =>
        if sec (e.off + 11) &&& attrDirectory ≠ 0#8 then some (.error .eisdir, d)
        else
          let d' := freeClusters v (entryCluster sec e.off) d
          match markEntryDeleted v e.lba e.off d' with
          | none => some (.error .eio, d')
          | some d => some (.ok (), d)

/-- The entry moved by `loci_sdimg_rename` to another directory: a new one is written with its
attributes, cluster and size, and it is marked deleted. -/
def moveEntry (e : DirEntry) (first : Nat) (new83 : List Byte) (d : Disk) :
    Option (Except Errno Unit × Disk) :=
  match allocDirEntry v first d with
  | none => none
  | some (.error err, d) => some (.error err, d)
  | some (.ok (lba, off), d) =>
    match writeNewEntry v lba off (nameBytes new83) (e.bytes 11) (entryCluster e.bytes 0)
        (getLe e.bytes 28 4) d with
    | none => some (.error .eio, d)
    | some d =>
      match markEntryDeleted v e.lba e.off d with
      | none => some (.error .eio, d)
      | some d => some (.ok (), d)

/-- `loci_sdimg_rename`. Within one directory, by the text of the paths, the name is rewritten in
place; it is not looked up there. -/
def rename (oldPath newPath : List Byte) (d : Disk) : Option (Except Errno Unit × Disk) :=
  if v.readOnly then some (.error .erofs, d)
  else
    match splitParent oldPath, splitParent newPath with
    | some (oldParent, _), some (newParent, newBase) =>
      match toFat83 newBase with
      | none => some (.error .einval, d)
      | some new83 =>
        match oldName v d false oldPath with
        | none => none
        | some (.error err) => some (.error err, d)
        | some (.ok e) =>
          if oldParent = newParent then
            match renameEntry v e.lba e.off (nameBytes new83) d with
            | none => some (.error .eio, d)
            | some d => some (.ok (), d)
          else
            match newName v d false newPath with
            | none => none
            | some (.error err) => some (.error err, d)
            | some (.ok (first, _)) => moveEntry v e first new83 d
    | _, _ => some (.error .einval, d)

end Phosphoric.Sdimg
