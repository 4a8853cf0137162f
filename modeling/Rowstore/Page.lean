import Rowstore.Bitmap
import Rowstore.Tuple

/-!
# Pages

A page holds rows of one schema in slots of equal size, with a bitmap that tells which slots are
used. On disk it is the bitmap, the slots, and zeros up to the page size.

* `slotCount` is how many slots fit a page, a bit of bitmap counted for each, and `bitmapBytes` the
  whole bytes that the bits take. Bits past the last slot belong to no slot and are kept.
* A row is stored in the first free slot, which becomes its record. Slots have numbers of 16 bits:
  a page that would need a larger one is unusable.
* `Page.encode` writes a page and `Page.decode` reads one; a free slot is written as zeros, and its
  bytes are not looked at when it is read.
* A page remembers the transaction that changed it last, until it is written or given up.
-/

namespace Rowstore

/-- How many rows of a size fit a page. -/
def slotCount (pageSize rowSize : Nat) : Nat := pageSize * 8 / (rowSize * 8 + 1)

/-- The bytes of a bitmap with a bit for each slot. -/
def bitmapBytes (slots : Nat) : Nat := (slots + 7) / 8

/-- The largest number of a slot. -/
def maxSlot : Nat := 65535

/-- Cut a list into pieces of one width, as many as asked for. -/
def pieces {α : Type} (width : Nat) : Nat → List α → List (List α)
  | 0, _ => []
  | n + 1, l => l.take width :: pieces width n (l.drop width)

@[simp] theorem length_pieces {α : Type} (width n : Nat) (l : List α) :
    (pieces width n l).length = n := by
  induction n generalizing l with
  | zero => rfl
  | succ n ih => simp [pieces, ih]

/-- A page. -/
structure Page where
  id : PageId
  schema : Schema
  /-- The bytes of the page on disk. -/
  size : Nat
  /-- The bits of the whole bitmap bytes, those past the last slot too. -/
  bitmap : List Bool
  /-- The stored rows, one entry for each slot. -/
  slots : List (Option Tuple)
  /-- The transaction that changed the page last. -/
  dirtiedBy : Option TxId
deriving DecidableEq

namespace Page

/-- The page of a size with every slot free. -/
def empty (id : PageId) (schema : Schema) (size : Nat) : Page :=
  let slots := slotCount size schema.size
  { id, schema, size
    bitmap := List.replicate (8 * bitmapBytes slots) false
    slots := List.replicate slots none
    dirtiedBy := none }

/-- The most bytes of a page that memory can address. -/
def maxSize : Nat := 0x7fffffffffffffff

/-- A page of a size with every slot free, if memory can address it. -/
def create (id : PageId) (schema : Schema) (size : Nat) : Except DbError Page :=
  if size > maxSize then .error .badPageSize else .ok (empty id schema size)

/-- The bits of the slots: true for those used. -/
def occupancy (p : Page) : List Bool := p.bitmap.take p.slots.length

/-- Whether a slot holds a row. -/
def isUsed (p : Page) (slot : Nat) : Bool := p.occupancy.getD slot false

/-- The count of free slots. -/
def freeCount (p : Page) : Nat := p.occupancy.count false

/-- The first free slot. -/
def firstFree? (p : Page) : Option Nat := p.occupancy.findIdx? (! ·)

/-- The stored rows in slot order. -/
def rows (p : Page) : List Tuple := p.slots.filterMap fun row => row

/-- Whether a transaction has changed the page since it was read or written. -/
def isDirty (p : Page) : Bool := p.dirtiedBy.isSome

/-- Mark the page as changed by a transaction, or as clean. -/
def mark (p : Page) (tx : Option TxId) : Page := { p with dirtiedBy := tx }

/-- Put a row, or none, into a slot, and set the slot's bit to match. -/
def setSlot (p : Page) (slot : Nat) (row : Option Tuple) : Page :=
  { p with bitmap := p.bitmap.set slot row.isSome, slots := p.slots.set slot row }

/-- Store a row in the first free slot. -/
def insert (p : Page) (row : Tuple) : Except DbError (RecordId × Page) := do
  row.checkStorable p.schema
  match p.firstFree? with
  | none => throw (.pageFull p.id)
  | some slot =>
    if slot > maxSlot then throw (.invalidPage p.id)
    let record : RecordId := ⟨p.id, slot⟩
    return (record, p.setSlot slot (some { row with record := some record }))

/-- Free the slot that a row was read from. -/
def delete (p : Page) (row : Tuple) : Except DbError Page :=
  match row.record with
  | none => throw .missingRecordId
  | some record =>
    if record.page ≠ p.id then throw (.foreignTuple record)
    else if ¬ p.isUsed record.slot then throw (.slotNotOccupied p.id record.slot)
    else return p.setSlot record.slot none

/-! ### Images -/

/-- The bytes of a slot. -/
def encodeSlot (rowSize : Nat) : Option Tuple → Except DbError (List UInt8)
  | some row => row.encode
  | none => .ok (List.replicate rowSize 0)

/-- The bytes of a page. -/
def encode (p : Page) : Except DbError (List UInt8) := do
  let slots ← p.slots.mapM (encodeSlot p.schema.size)
  let used := Bitmap.pack p.bitmap ++ slots.flatten
  return used ++ List.replicate (p.size - used.length) 0

/-- The row in a slot with the given bit and bytes. -/
def decodeSlot (id : PageId) (schema : Schema) (slot : Nat) (used : Bool) (cell : List UInt8) :
    Except DbError (Option Tuple) :=
  if ¬ used then .ok none
  else match (Tuple.read schema cell).1 with
    | none => .error (.invalidPage id)
    | some row =>
      if slot > maxSlot then .error (.invalidPage id)
      else .ok (some { row with record := some ⟨id, slot⟩ })

/-- The page with the given bytes. -/
def decode (id : PageId) (schema : Schema) (image : List UInt8) : Except DbError Page := do
  let count := slotCount image.length schema.size
  let header := bitmapBytes count
  let bitmap := Bitmap.unpack (image.take header)
  let cells := pieces schema.size count (image.drop header)
  let slots ← ((bitmap.zip cells).zipIdx).mapM fun ((used, cell), slot) =>
    decodeSlot id schema slot used cell
  return { id, schema, size := image.length, bitmap, slots, dirtiedBy := none }

@[simp] theorem dirtiedBy_mark (p : Page) (tx : Option TxId) : (p.mark tx).dirtiedBy = tx := rfl

@[simp] theorem id_mark (p : Page) (tx : Option TxId) : (p.mark tx).id = p.id := rfl

@[simp] theorem rows_mark (p : Page) (tx : Option TxId) : (p.mark tx).rows = p.rows := rfl

@[simp] theorem id_setSlot (p : Page) (slot : Nat) (row : Option Tuple) :
    (p.setSlot slot row).id = p.id := rfl

@[simp] theorem freeCount_empty (id : PageId) (schema : Schema) (size : Nat) :
    (empty id schema size).freeCount = slotCount size schema.size := by
  have h : slotCount size schema.size ≤ 8 * bitmapBytes (slotCount size schema.size) := by
    unfold bitmapBytes
    omega
  simp [freeCount, occupancy, empty, Nat.min_eq_left h]

end Page

end Rowstore
