import Rowstore.Disk
import Rowstore.Page

/-!
# Heap files

The file of one table: pages of one size one after another, with nothing before them. The count of
pages is always that of the whole pages the file holds now, so bytes after the last of them belong
to no page.

* `HeapFile.readPage` reads a page of the table, and `HeapFile.writePage` writes one at its place
  and marks it clean. A place that ends past the last offset of a file cannot be reached.
* `HeapFile.appendPage` adds a page of zeros, over a partial page if the file ends in one.
* Pages are counted with the 32 bits of their numbers, so the count starts over after the last.
-/

namespace Rowstore

/-- Where a table is stored. -/
structure HeapFile where
  table : TableId
  /-- The name of the file on the disk. -/
  name : String
  schema : Schema
  pageSize : Nat
deriving DecidableEq

namespace HeapFile

/-- The count of page numbers, which have 32 bits. -/
def pageNumbers : Nat := 0x100000000

/-- The last offset in a file, which has 63 bits. -/
def maxOffset : Nat := 0x7fffffffffffffff

/-- The count of whole pages in the file. -/
def pageCount (f : HeapFile) (disk : Disk) : Except DbError Nat :=
  if f.pageSize = 0 then .error .badPageSize
  else .ok ((disk.file f.name).size / f.pageSize % pageNumbers)

/-- The offset of a page in the file, if all of the page can be reached. -/
def place (f : HeapFile) (id : PageId) : Except DbError Nat :=
  if id.offset f.pageSize + f.pageSize > maxOffset then .error .io
  else .ok (id.offset f.pageSize)

/-- The bytes in the place of a page, unless the file ends before they do. -/
def image (f : HeapFile) (disk : Disk) (id : PageId) : Except DbError (List UInt8) := do
  let offset ← f.place id
  let file := disk.file f.name
  if file.size - offset < f.pageSize then
    throw (.shortRead id.number (file.size - offset) f.pageSize)
  return file.read offset f.pageSize

/-- Read a page. -/
def readPage (f : HeapFile) (disk : Disk) (id : PageId) : Except DbError Page :=
  if id.table ≠ f.table then .error (.invalidPage id)
  else if f.pageSize > Page.maxSize then .error .badPageSize
  else do
    let bytes ← f.image disk id
    Page.decode id f.schema bytes

/-- Write a page at its place. The page is clean after that. -/
def writePage (f : HeapFile) (disk : Disk) (page : Page) : Except DbError (Page × Disk) :=
  if page.id.table ≠ f.table then .error (.invalidPage page.id)
  else do
    let bytes ← page.encode
    if bytes.length ≠ f.pageSize then throw (.pageSizeMismatch f.pageSize bytes.length)
    let offset ← f.place page.id
    return (page.mark none, disk.write f.name offset bytes)

/-- Add a page of zeros after the last whole page. -/
def appendPage (f : HeapFile) (disk : Disk) : Except DbError (PageId × Disk) := do
  let count ← f.pageCount disk
  if f.pageSize > Page.maxSize then throw .badPageSize
  let id : PageId := ⟨f.table, count⟩
  let offset ← f.place id
  return (id, disk.clear f.name offset f.pageSize)

end HeapFile

end Rowstore
