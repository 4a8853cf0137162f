import Rowstore.Store

/-!
# Inserting and deleting rows

Rows are stored first fit: in the first free slot of the first page of the file that has one. When
every page is full a page is added to the file, and the row is stored in it and written at once.

* Pages found full are let go. The page that takes a row stays held by the transaction, and is
  marked as changed by it.
* When a page was in the pool before the file grew to it, the new page may turn out full. The
  search then starts again; each such page is one of the pool's, so the rounds are bounded by them.
* A row is deleted from the slot it was read from, whatever that slot holds now.
-/

namespace Rowstore

namespace Store

/-- Store a row in a page if it has a free slot: the page after that, which stays held. -/
def insertIntoPage (s : Store) (tx : TxId) (row : Tuple) (id : PageId) :
    Outcome Store (Option Page) :=
  match s.acquire tx id with
  | .error cause => (.error cause, s)
  | .ok (page, s) =>
    if page.freeCount = 0 then (.ok none, s.release tx id)
    else match page.insert row with
      | .error cause => (.error cause, s.release tx id)
      | .ok (_, page) => (.ok (some page), s.put page)

/-- Store a row in the first that has a free slot of so many pages of a table, from a number on. -/
def insertFirstFit (s : Store) (tx : TxId) (row : Tuple) (table : TableId) (first : Nat) :
    Nat → Outcome Store (Option PageId)
  | 0 => (.ok none, s)
  | pages + 1 =>
    (s.insertIntoPage tx row ⟨table, first⟩).andThen id fun
      | some page, s => (.ok (some page.id), s)
      | none, s => s.insertFirstFit tx row table (first + 1) pages

/-- Add a page to a file and store a row in it. A page that was in the pool already may be full. -/
def insertIntoNewPage (s : Store) (tx : TxId) (row : Tuple) (file : HeapFile) :
    Outcome Store (Option PageId) :=
  match file.appendPage s.disk with
  | .error cause => (.error cause, s)
  | .ok (new, disk) =>
    ({ s with disk }.insertIntoPage tx row new).andThen id fun
      | none, s => (.ok none, s)
      | some page, s =>
        match file.writePage s.disk page with
        | .error cause => (.error cause, s.release tx new)
        | .ok (page, disk) => (.ok (some new), { s with disk, pool := s.pool.put page })

/-- Store a row in the first page that has a free slot, adding a page when there is none, for at
most so many rounds. -/
def insertWithin (s : Store) (tx : TxId) (row : Tuple) (file : HeapFile) :
    Nat → Outcome Store PageId
  | 0 => (.error .unfinished, s)
  | rounds + 1 =>
    match file.pageCount s.disk with
    | .error cause => (.error cause, s)
    | .ok count =>
      (s.insertFirstFit tx row file.table 0 count).andThen id fun
        | some id, s => (.ok id, s)
        | none, s => (s.insertIntoNewPage tx row file).andThen id fun
          | some id, s => (.ok id, s)
          | none, s => s.insertWithin tx row file rounds

/-- Store a row in a file: the page that took it, which is not marked as changed. -/
def insertIntoFile (s : Store) (tx : TxId) (file : HeapFile) (row : Tuple) :
    Outcome Store PageId :=
  match row.checkStorable file.schema with
  | .error cause => (.error cause, s)
  | .ok () => s.insertWithin tx row file (s.pool.frames.length + 1)

/-- Delete a row of a file: the page it was on, which is not marked as changed. -/
def deleteFromFile (s : Store) (tx : TxId) (file : HeapFile) (row : Tuple) :
    Outcome Store PageId :=
  match row.record with
  | none => (.error .missingRecordId, s)
  | some record =>
    if record.page.table ≠ file.table then (.error (.foreignTuple record), s)
    else match file.pageCount s.disk with
      | .error cause => (.error cause, s)
      | .ok count =>
        if record.page.number ≥ count then (.error (.foreignTuple record), s)
        else match s.acquire tx record.page with
          | .error cause => (.error cause, s)
          | .ok (page, s) =>
            match page.delete row with
            | .error cause => (.error cause, s.release tx record.page)
            | .ok page => (.ok record.page, s.put page)

/-- Mark a page of the pool as changed by a transaction. -/
def markDirty (s : Store) (tx : TxId) (id : PageId) : Store :=
  { s with pool := s.pool.modify id fun page => page.mark (some tx) }

/-- Store a row in a table. -/
def insertRow (s : Store) (tx : TxId) (table : TableId) (row : Tuple) : Outcome Store Unit :=
  match s.catalog.file table with
  | .error cause => (.error cause, s)
  | .ok file => (s.insertIntoFile tx file row).andThen id fun id s =>
    (.ok (), s.markDirty tx id)

/-- Delete the row stored where a row was read from. -/
def deleteRow (s : Store) (tx : TxId) (row : Tuple) : Outcome Store Unit :=
  match row.record with
  | none => (.error .missingRecordId, s)
  | some record =>
    match s.catalog.file record.page.table with
    | .error cause => (.error cause, s)
    | .ok file => (s.deleteFromFile tx file row).andThen id fun id s =>
      (.ok (), s.markDirty tx id)

end Store

end Rowstore
