import Rowstore.FileData

/-!
# The disk

One directory of files. A file is written in place: bytes past its end are zeros up to where the
writing begins, and the rest of the file stays.

* `Disk.fileName?` reads a path. There are no directories below the one, so a path leads to a file
  only by a plain name, after any number of steps that stay in the directory.
* `Disk.openFile?` makes an empty file if there is none of the name.
* `Disk.contents` is the view: the bytes of the file with a name. Writing to one file changes its
  bytes as `overwrite` says, and no other file.
-/

namespace Rowstore

/-- The files of a directory, with their bytes. -/
structure Disk where
  files : List (String × FileData) := []
deriving DecidableEq

namespace Disk

/-- The most bytes the name of a file may have. -/
def maxNameBytes : Nat := 255

/-- The most bytes a path may have. The system takes 4095, and some of them lead to the
directory. -/
def maxPathBytes : Nat := 4064

/-- The name of the file that a path leads to, if it can lead to one. -/
def fileName? (path : String) : Option String :=
  let parts := path.splitOn "/"
  match parts.reverse with
  | [] => none
  | name :: above =>
    if name.isEmpty || name == "." || name == ".." then none
    else if name.utf8ByteSize > maxNameBytes || name.contains '\x00' then none
    else if path.utf8ByteSize > maxPathBytes || parts.head? == some "" then none
    else if above.all fun part => part.isEmpty || part == "." then some name
    else none

/-- The file with a name, if there is one. -/
def file? (d : Disk) (name : String) : Option FileData :=
  (d.files.find? fun file => file.1 = name).map Prod.snd

/-- The file with a name; an empty one if there is none. -/
def file (d : Disk) (name : String) : FileData := (d.file? name).getD {}

/-- The bytes of the file with a name. -/
def contents (d : Disk) (name : String) : List UInt8 := (d.file name).toList

/-- The disk with one file replaced. -/
def store (d : Disk) (name : String) (data : FileData) : Disk :=
  if (d.file? name).isSome then
    ⟨d.files.map fun file => if file.1 = name then (name, data) else file⟩
  else ⟨d.files ++ [(name, data)]⟩

/-- Open a file, making it empty if there is none: its name, and the disk after that. -/
def openFile? (d : Disk) (path : String) : Option (String × Disk) :=
  (fileName? path).map fun name =>
    (name, if (d.file? name).isSome then d else d.store name {})

/-- Write bytes into a file from an offset on. -/
def write (d : Disk) (name : String) (offset : Nat) (bytes : List UInt8) : Disk :=
  d.store name ((d.file name).write offset bytes)

/-- Write so many zeros into a file from an offset on. -/
def clear (d : Disk) (name : String) (offset count : Nat) : Disk :=
  d.store name ((d.file name).clear offset count)

/-- Cut a file to a length, or fill it up with zeros. -/
def resize (d : Disk) (name : String) (length : Nat) : Disk :=
  d.store name ((d.file name).resize length)

/-- A file holds what was stored in it last. -/
@[simp] theorem file?_store_self (d : Disk) (name : String) (data : FileData) :
    (d.store name data).file? name = some data := by
  unfold store
  split
  · rename_i h
    obtain ⟨files⟩ := d
    simp only [file?] at h ⊢
    induction files with
    | nil => simp at h
    | cons file files ih =>
      by_cases hname : file.1 = name
      · simp [hname]
      · simp only [List.map_cons, hname, if_false, List.find?_cons, decide_false] at h ⊢
        exact ih h
  · rename_i h
    have hnone : (d.files.find? fun file => file.1 = name) = none := by
      rw [Option.not_isSome_iff_eq_none, file?, Option.map_eq_none_iff] at h
      exact h
    simp [file?, List.find?_append, hnone]

/-- Storing one file leaves the others as they were. -/
theorem file?_store_ne (d : Disk) {name other : String} (data : FileData)
    (h : other ≠ name) : (d.store name data).file? other = d.file? other := by
  have hne : ¬ name = other := Ne.symm h
  unfold store
  split
  · obtain ⟨files⟩ := d
    simp only [file?]
    congr 1
    rename_i h
    clear h
    induction files with
    | nil => rfl
    | cons file files ih =>
      by_cases hname : file.1 = name
      · simp only [List.map_cons, hname, if_true, List.find?_cons, hne, decide_false]
        exact ih
      · simp only [List.map_cons, hname, if_false, List.find?_cons, ih]
  · simp [file?, List.find?_append, hne]

@[simp] theorem file_store_self (d : Disk) (name : String) (data : FileData) :
    (d.store name data).file name = data := by simp [file]

theorem file_store_ne (d : Disk) {name other : String} (data : FileData)
    (h : other ≠ name) : (d.store name data).file other = d.file other := by
  rw [file, file?_store_ne d data h, file]

@[simp] theorem length_contents (d : Disk) (name : String) :
    (d.contents name).length = (d.file name).size := (d.file name).length_toList

theorem contents_write_self (d : Disk) (name : String) (offset : Nat) (bytes : List UInt8) :
    (d.write name offset bytes).contents name = overwrite (d.contents name) offset bytes := by
  rw [contents, write, file_store_self, FileData.toList_write, contents]

theorem contents_write_ne (d : Disk) {name other : String} (offset : Nat) (bytes : List UInt8)
    (h : other ≠ name) : (d.write name offset bytes).contents other = d.contents other := by
  rw [contents, write, file_store_ne d _ h, contents]

theorem contents_clear_self (d : Disk) (name : String) (offset count : Nat) :
    (d.clear name offset count).contents name =
      overwrite (d.contents name) offset (List.replicate count 0) := by
  rw [contents, clear, file_store_self, FileData.toList_clear, contents]

theorem contents_clear_ne (d : Disk) {name other : String} (offset count : Nat)
    (h : other ≠ name) : (d.clear name offset count).contents other = d.contents other := by
  rw [contents, clear, file_store_ne d _ h, contents]

theorem contents_resize_self (d : Disk) (name : String) (length : Nat) :
    (d.resize name length).contents name =
      (d.contents name).take length ++ List.replicate (length - (d.contents name).length) 0 := by
  rw [contents, resize, file_store_self, FileData.toList_resize, length_contents, contents]

end Disk

end Rowstore
