/-!
# File data

The bytes of a file. A file can be far longer than what was ever written to it, so its bytes are
kept as extents one after another: bytes that were written, and gaps, which read as zeros.

* `FileData.toList` is the view: all bytes of the file, in order. Every operation is stated by it.
* `read_eq` says that reading takes what lies between two offsets, `toList_write` that writing
  replaces it, with zeros up to an offset past the end, and `toList_resize` that a file is cut or
  filled up with zeros.
-/

namespace Rowstore

/-- The bytes with others written over them from an offset on. -/
def overwrite (old : List UInt8) (offset : Nat) (new : List UInt8) : List UInt8 :=
  if new.isEmpty then old
  else old.take offset ++ List.replicate (offset - old.length) 0 ++ new ++
    old.drop (offset + new.length)

/-- Neighbouring bytes of a file. -/
inductive Extent
  /-- Bytes that nobody has written. -/
  | gap (length : Nat)
  | written (bytes : List UInt8)
deriving DecidableEq

namespace Extent

/-- The count of bytes. -/
def size : Extent → Nat
  | gap n => n
  | written bytes => bytes.length

/-- The bytes, those of a gap being zeros. -/
def toList : Extent → List UInt8
  | gap n => List.replicate n 0
  | written bytes => bytes

/-- The bytes before an offset. -/
def take (n : Nat) : Extent → Extent
  | gap m => gap (Nat.min n m)
  | written bytes => written (bytes.take n)

/-- The bytes from an offset on. -/
def drop (n : Nat) : Extent → Extent
  | gap m => gap (m - n)
  | written bytes => written (bytes.drop n)

@[simp] theorem toList_gap (n : Nat) : (gap n).toList = List.replicate n 0 := rfl

@[simp] theorem length_toList (x : Extent) : x.toList.length = x.size := by
  cases x <;> simp [toList, size]

@[simp] theorem toList_take (n : Nat) (x : Extent) : (x.take n).toList = x.toList.take n := by
  cases x with
  | gap m => simp only [take, toList, List.take_replicate]
  | written bytes => rfl

@[simp] theorem toList_drop (n : Nat) (x : Extent) : (x.drop n).toList = x.toList.drop n := by
  cases x <;> simp [drop, toList]

/-- The bytes of extents one after another. -/
def join (xs : List Extent) : List UInt8 := xs.flatMap toList

/-- The count of bytes of extents one after another. -/
def totalSize : List Extent → Nat
  | [] => 0
  | x :: xs => x.size + totalSize xs

/-- The extents that hold the bytes before an offset. -/
def before (n : Nat) : List Extent → List Extent
  | [] => []
  | x :: xs => if n ≤ x.size then [x.take n] else x :: before (n - x.size) xs

/-- The extents that hold the bytes from an offset on. -/
def after (n : Nat) : List Extent → List Extent
  | [] => []
  | x :: xs => if n < x.size then x.drop n :: xs else after (n - x.size) xs

@[simp] theorem join_nil : join [] = [] := rfl

@[simp] theorem join_cons (x : Extent) (xs : List Extent) :
    join (x :: xs) = x.toList ++ join xs := rfl

@[simp] theorem join_append (xs ys : List Extent) : join (xs ++ ys) = join xs ++ join ys := by
  simp [join]

@[simp] theorem length_join (xs : List Extent) : (join xs).length = totalSize xs := by
  induction xs with
  | nil => rfl
  | cons x xs ih => simp [totalSize, ih]

@[simp] theorem join_before (n : Nat) (xs : List Extent) :
    join (before n xs) = (join xs).take n := by
  induction xs generalizing n with
  | nil => simp [before]
  | cons x xs ih =>
    unfold before
    split
    · rename_i h
      rw [join_cons, join_nil, List.append_nil, join_cons, toList_take,
        List.take_append_of_le_length (by rw [length_toList]; exact h)]
    · rename_i h
      have hx : x.toList.length ≤ n := by
        rw [length_toList]
        omega
      rw [join_cons, ih, join_cons, List.take_append, length_toList, List.take_of_length_le hx]

@[simp] theorem join_after (n : Nat) (xs : List Extent) :
    join (after n xs) = (join xs).drop n := by
  induction xs generalizing n with
  | nil => simp [after]
  | cons x xs ih =>
    unfold after
    split
    · rename_i h
      rw [join_cons, join_cons, toList_drop,
        List.drop_append_of_le_length (by rw [length_toList]; omega)]
    · rename_i h
      have hx : x.toList.length ≤ n := by
        rw [length_toList]
        omega
      rw [ih, join_cons, List.drop_append, length_toList, List.drop_of_length_le hx,
        List.nil_append]

end Extent

/-- The bytes of a file. -/
structure FileData where
  extents : List Extent := []
deriving DecidableEq

namespace FileData

/-- All bytes of the file. -/
def toList (f : FileData) : List UInt8 := Extent.join f.extents

/-- The length of the file. -/
def size (f : FileData) : Nat := Extent.totalSize f.extents

/-- The bytes from an offset on, at most so many. -/
def read (f : FileData) (offset count : Nat) : List UInt8 :=
  Extent.join (Extent.before count (Extent.after offset f.extents))

/-- Put an extent in the place of the bytes from an offset on. -/
def put (f : FileData) (offset : Nat) (x : Extent) : FileData :=
  if x.size = 0 then f
  else ⟨Extent.before offset f.extents ++ .gap (offset - f.size) :: x ::
    Extent.after (offset + x.size) f.extents⟩

/-- Write bytes from an offset on. -/
def write (f : FileData) (offset : Nat) (bytes : List UInt8) : FileData :=
  f.put offset (.written bytes)

/-- Write so many zeros from an offset on. -/
def clear (f : FileData) (offset count : Nat) : FileData := f.put offset (.gap count)

/-- Cut the file to a length, or fill it up with zeros. -/
def resize (f : FileData) (length : Nat) : FileData :=
  ⟨Extent.before length f.extents ++ [.gap (length - f.size)]⟩

@[simp] theorem toList_empty : ({} : FileData).toList = [] := rfl

@[simp] theorem length_toList (f : FileData) : f.toList.length = f.size :=
  Extent.length_join f.extents

theorem read_eq (f : FileData) (offset count : Nat) :
    f.read offset count = (f.toList.drop offset).take count := by
  rw [read, Extent.join_before, Extent.join_after, toList]

theorem toList_put (f : FileData) (offset : Nat) (x : Extent) :
    (f.put offset x).toList = overwrite f.toList offset x.toList := by
  by_cases h : x.size = 0
  · have hx : x.toList = [] := by rw [← List.length_eq_zero_iff, Extent.length_toList, h]
    simp [put, overwrite, h, hx]
  · have hx : x.toList ≠ [] := by rwa [ne_eq, ← List.length_eq_zero_iff, Extent.length_toList]
    simp [put, overwrite, toList, size, h, hx]

theorem toList_write (f : FileData) (offset : Nat) (bytes : List UInt8) :
    (f.write offset bytes).toList = overwrite f.toList offset bytes :=
  f.toList_put offset (.written bytes)

theorem toList_clear (f : FileData) (offset count : Nat) :
    (f.clear offset count).toList = overwrite f.toList offset (List.replicate count 0) :=
  f.toList_put offset (.gap count)

theorem toList_resize (f : FileData) (length : Nat) :
    (f.resize length).toList = f.toList.take length ++ List.replicate (length - f.size) 0 := by
  simp [resize, toList]

end FileData

end Rowstore
