import Rowstore.Mutation
import Rowstore.Scan

/-!
# Engines

Several databases over one disk, and the numbers of their transactions. Each database has its own
tables and its own pool; two of them can have tables in one file, and then each reads what the
other has written. An operation on a database is one on its store.
-/

namespace Rowstore

/-- Databases over one disk. -/
structure Engine where
  disk : Disk
  databases : List Database
  /-- The number the next transaction gets. -/
  nextTx : Nat := 1
deriving DecidableEq

namespace Engine

/-- The databases of some configurations, over an empty disk. -/
def new (configs : List Config) : Engine :=
  { disk := {}, databases := configs.map Database.new }

/-- The store of a database. A database that is not there has no tables. -/
def store (e : Engine) (db : Nat) : Store :=
  { (e.databases[db]?.getD (Database.new {})) with disk := e.disk }

/-- Put a changed store back. -/
def setStore (e : Engine) (db : Nat) (s : Store) : Engine :=
  { e with disk := s.disk, databases := e.databases.set db s.toDatabase }

/-- Do an operation on a database. -/
def run {α : Type} (e : Engine) (db : Nat) (operation : Store → Outcome Store α) :
    Outcome Engine α :=
  let (result, s) := operation (e.store db)
  (result, e.setStore db s)

/-- Begin a transaction. -/
def begin (e : Engine) : TxId × Engine := (⟨e.nextTx⟩, { e with nextTx := e.nextTx + 1 })

/-- The store of a database is the one put back last. -/
theorem store_setStore (e : Engine) {db : Nat} (s : Store) (h : db < e.databases.length) :
    (e.setStore db s).store db = s := by
  simp [store, setStore, h]

end Engine

end Rowstore
