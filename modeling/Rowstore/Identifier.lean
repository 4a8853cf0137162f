/-!
# Identifiers

The numbers that name tables, pages, stored rows and transactions.

* A page is a page number within one table, and lies in the table's file at that many page sizes.
* A record is a slot of a page, and stays where it was stored until it is deleted.
* Pages are ordered by table and then by page number.
-/

namespace Rowstore

/-- The number a catalog gives to a table when it registers it. -/
structure TableId where
  number : Nat
deriving DecidableEq

/-- A page of a table. -/
structure PageId where
  table : TableId
  number : Nat
deriving DecidableEq

/-- The slot of a page in which a row is stored. -/
structure RecordId where
  page : PageId
  slot : Nat
deriving DecidableEq

/-- A transaction. -/
structure TxId where
  number : Nat
deriving DecidableEq

/-- The written form of a table's number. -/
def TableId.text (t : TableId) : String := s!"TableId({t.number})"

namespace PageId

/-- The written form of a page. -/
def text (p : PageId) : String := s!"PageId({p.table.number}, {p.number})"

/-- Where the page begins in its table's file. The product is exact: a page for which it is no word
of 64 bits is far beyond what a file can hold. -/
def offset (p : PageId) (pageSize : Nat) : Nat := p.number * pageSize

instance : Ord PageId where
  compare a b := (compare a.table.number b.table.number).then (compare a.number b.number)

/-- Pages of one table follow one another without gaps. -/
theorem offset_succ (t : TableId) (n pageSize : Nat) :
    (PageId.mk t (n + 1)).offset pageSize = (PageId.mk t n).offset pageSize + pageSize :=
  Nat.succ_mul n pageSize

end PageId

/-- The written form of a record's place. -/
def RecordId.text (r : RecordId) : String :=
  let page := r.page.text
  let slot := r.slot
  s!"RecordId({page}, slot {slot})"

end Rowstore
