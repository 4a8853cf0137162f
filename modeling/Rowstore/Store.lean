import Rowstore.Catalog
import Rowstore.Outcome
import Rowstore.Pool

/-!
# Stores

A disk, the catalog of one database on it, and the database's pool.

* `Store.acquire` gives a page to a transaction, from the pool or else from disk. When it fails it
  changes nothing.
* `Store.flushPage` writes a changed page to disk and keeps it. A page of a table that is no longer
  registered has nowhere to go and leaves the pool.
* `Store.complete` ends a transaction. All its holds end; the pages it changed last are written if
  it commits, and leave the pool unwritten if it aborts. Every page is tried, and the first failure
  is told.
-/

namespace Rowstore

/-- A database: its tables and its pages in memory. -/
structure Database where
  catalog : Catalog
  pool : Pool
deriving DecidableEq

/-- The database of a configuration, with no tables. -/
def Database.new (config : Config) : Database := ⟨{ config }, { capacity := config.poolPages }⟩

/-- A database and the disk its files are on. -/
structure Store extends Database where
  disk : Disk
deriving DecidableEq

namespace Store

/-! ### Pages in memory -/

/-- Give a page to a transaction, reading it if it is not in the pool. -/
def acquire (s : Store) (tx : TxId) (id : PageId) : Except DbError (Page × Store) :=
  match s.pool.page? id with
  | some page => .ok (page, { s with pool := s.pool.hold tx id })
  | none => do
    let file ← s.catalog.file id.table
    let page ← file.readPage s.disk id
    let pool ← s.pool.load page
    return (page, { s with pool := pool.hold tx id })

/-- End a transaction's hold on a page. -/
def release (s : Store) (tx : TxId) (id : PageId) : Store :=
  { s with pool := s.pool.release tx id }

/-- Put a changed page back into the pool. -/
def put (s : Store) (page : Page) : Store := { s with pool := s.pool.put page }

/-- Take a page out of the pool without writing it. -/
def discard (s : Store) (id : PageId) : Store := { s with pool := s.pool.discard id }

/-- Write a page of the pool to disk if it has changed. -/
def flushPage (s : Store) (id : PageId) : Except DbError Store :=
  match s.pool.page? id with
  | none => .ok s
  | some page =>
    match s.catalog.file id.table with
    | .error _ => .ok (s.discard id)
    | .ok file =>
      if page.isDirty then do
        let (page, disk) ← file.writePage s.disk page
        return { s with disk, pool := s.pool.put page }
      else .ok s

/-- Write pages to disk one after another, up to the first that fails. -/
def flushPages (s : Store) : List PageId → Outcome Store Unit
  | [] => (.ok (), s)
  | id :: ids =>
    match s.flushPage id with
    | .error cause => (.error cause, s)
    | .ok s => s.flushPages ids

/-- Write all changed pages of the pool to disk. -/
def flushAll (s : Store) : Outcome Store Unit := s.flushPages (s.pool.pages.map Page.id)

/-! ### The end of a transaction -/

/-- Write or drop one page of a transaction that ends, keeping the first failure. -/
def settle (commit : Bool) (o : Outcome Store Unit) (id : PageId) : Outcome Store Unit :=
  match commit, o with
  | false, (first, s) => (first, s.discard id)
  | true, (first, s) =>
    match s.flushPage id with
    | .ok s => (first, s)
    | .error cause => (first.bind fun _ => .error cause, s)

/-- The pages of the pool that a transaction changed last. -/
def dirtiedBy (s : Store) (tx : TxId) : List PageId :=
  (s.pool.pages.filter fun page => page.dirtiedBy = some tx).map Page.id

/-- End a transaction. -/
def complete (s : Store) (tx : TxId) (commit : Bool) : Outcome Store Unit :=
  (s.dirtiedBy tx).foldl (settle commit) (.ok (), { s with pool := s.pool.releaseAll tx })

/-! ### Tables -/

/-- Register a table under a name, with its file at a path. -/
def createTable (s : Store) (name path : String) (schema : Schema) :
    Except DbError (TableId × Store) :=
  (s.catalog.createTable s.disk name path schema).map fun (id, catalog, disk) =>
    (id, { s with catalog, disk })

/-- The count of pages of a table. -/
def pageCount (s : Store) (table : TableId) : Except DbError Nat := do
  let file ← s.catalog.file table
  file.pageCount s.disk

/-- Acquiring a page that is in the pool does not change what is in the pool. -/
theorem acquire_of_page? {s : Store} {tx : TxId} {id : PageId} {page : Page}
    (h : s.pool.page? id = some page) :
    s.acquire tx id = .ok (page, { s with pool := s.pool.hold tx id }) := by
  simp [acquire, h]

end Store

end Rowstore
