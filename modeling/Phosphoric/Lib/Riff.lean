import Phosphoric.Lib.Binary

/-!
# RIFF files

A chunk is an identifier, the number of its bytes, the bytes, and one more where the number is odd.
A list is a chunk whose bytes are a form and chunks one after the other; a file is one list.

`Tiles bs`: the bytes are chunks, those of lists down to the last level, and each size fits its
field.

**Theorem (`Tiles.append`, `Tiles.flatMap`).** Chunks written one after the other tile what they
make.
-/

namespace Riff

open Binary

abbrev FourCc := Vector Byte 4

def fourcc (a b c d : Char) : FourCc :=
  #v[.ofNat 8 a.toNat, .ofNat 8 b.toNat, .ofNat 8 c.toNat, .ofNat 8 d.toNat]

/-- A size. -/
def size (n : Nat) : List Byte := bytesLe 4 (BitVec.ofNat 32 n)

/-- What makes the number of bytes even. -/
def pad (n : Nat) : List Byte := List.replicate (n % 2) 0

def chunk (id : FourCc) (data : List Byte) : List Byte :=
  id.toList ++ size data.length ++ data ++ pad data.length

def list (id form : FourCc) (chunks : List Byte) : List Byte := chunk id (form.toList ++ chunks)

/-- The identifiers of lists. -/
def listIds : List FourCc := [fourcc 'R' 'I' 'F' 'F', fourcc 'L' 'I' 'S' 'T']

/-- Chunks one after the other. -/
inductive Tiles : List Byte → Prop
  | nil : Tiles []
  | chunk {id : FourCc} {data rest : List Byte} : id ∉ listIds → data.length < 2 ^ 32 →
      Tiles rest → Tiles (chunk id data ++ rest)
  | list {id : FourCc} {form : FourCc} {chunks rest : List Byte} : id ∈ listIds → Tiles chunks →
      4 + chunks.length < 2 ^ 32 → Tiles rest → Tiles (list id form chunks ++ rest)

@[simp] theorem size_length (n : Nat) : (size n).length = 4 := bytesLe_length ..

theorem pad_length (n : Nat) : (pad n).length = n % 2 := List.length_replicate

theorem chunk_length (id : FourCc) (data : List Byte) :
    (chunk id data).length = 8 + data.length + data.length % 2 := by
  simp only [chunk, List.length_append, Vector.length_toList, size_length, pad_length]

theorem chunk_even (id : FourCc) (data : List Byte) : (chunk id data).length % 2 = 0 := by
  rw [chunk_length]
  omega

/-- A chunk of an even number of bytes has no more. -/
theorem chunk_of_even (id : FourCc) {data : List Byte} (h : data.length % 2 = 0) :
    chunk id data = id.toList ++ size data.length ++ data := by
  rw [chunk, pad, h, List.replicate_zero, List.append_nil]

theorem Tiles.append {bs bs' : List Byte} (h : Tiles bs) (h' : Tiles bs') : Tiles (bs ++ bs') := by
  induction h with
  | nil => exact h'
  | chunk hid hdata _ ih =>
    rw [List.append_assoc]
    exact .chunk hid hdata ih
  | list hid hchunks hsize _ _ ih =>
    rw [List.append_assoc]
    exact .list hid hchunks hsize ih

theorem Tiles.one {id : FourCc} {data : List Byte} (hid : id ∉ listIds)
    (hdata : data.length < 2 ^ 32) : Tiles (Riff.chunk id data) := by
  have h := Tiles.chunk hid hdata .nil
  rwa [List.append_nil] at h

theorem Tiles.oneList {id form : FourCc} {chunks : List Byte} (hid : id ∈ listIds)
    (h : Tiles chunks) (hsize : 4 + chunks.length < 2 ^ 32) : Tiles (Riff.list id form chunks) := by
  have h' := @Tiles.list id form _ _ hid h hsize .nil
  rwa [List.append_nil] at h'

theorem Tiles.flatMap {α : Type*} {f : α → List Byte} (l : List α) (h : ∀ a ∈ l, Tiles (f a)) :
    Tiles (l.flatMap f) := by
  induction l with
  | nil => exact .nil
  | cons a l ih =>
    obtain ⟨hfirst, hrest⟩ := List.forall_mem_cons.mp h
    rw [List.flatMap_cons]
    exact hfirst.append (ih hrest)

end Riff
