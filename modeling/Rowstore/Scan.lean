import Rowstore.Store

/-!
# Scans

A place in the rows of a file, in page order and slot order. The count of pages is taken when the
scan starts, and the rows of a page when the scan comes to it; every page it has read stays held by
the transaction.

* A scan that has not started, or is closed, has no rows.
* Pages without rows are passed over. A page counts as come to even when it cannot be read.
-/

namespace Rowstore

/-- A place in the rows of a file. -/
structure Scan where
  file : HeapFile
  tx : TxId
  /-- The page the scan is on. -/
  page : Nat := 0
  /-- The count of pages when the scan started. -/
  pageCount : Nat := 0
  /-- The rows of the page that are still to come; none when the scan is closed. -/
  rest : Option (List Tuple) := none
deriving DecidableEq

namespace Scan

/-- The rows of a page, which stays held. -/
def load (scan : Scan) (s : Store) (page : Nat) : Outcome Store (List Tuple) :=
  Outcome.ofExcept s ((s.acquire scan.tx ⟨scan.file.table, page⟩).map fun (page, s) =>
    (page.rows, s))

/-- Go to the first page. -/
def start (scan : Scan) (s : Store) : Outcome (Scan × Store) Unit :=
  match scan.file.pageCount s.disk with
  | .error cause => (.error cause, scan, s)
  | .ok pageCount =>
    let scan := { scan with page := 0, pageCount }
    if pageCount = 0 then (.ok (), { scan with rest := some [] }, s)
    else (scan.load s 0).andThen (fun s => (scan, s)) fun rows s =>
      (.ok (), { scan with rest := some rows }, s)

/-- Close the scan. -/
def close (scan : Scan) : Scan := { scan with rest := none }

/-- Start again from the first page. -/
def rewind (scan : Scan) (s : Store) : Outcome (Scan × Store) Unit := scan.close.start s

/-- Go on to the next page that has rows, over at most so many pages. -/
def seek (scan : Scan) (s : Store) : Nat → Outcome (Scan × Store) Bool
  | 0 => (.ok false, scan, s)
  | pages + 1 =>
    let scan := { scan with page := scan.page + 1 }
    (scan.load s scan.page).andThen (fun s => (scan, s)) fun rows s =>
      let scan := { scan with rest := some rows }
      if rows.isEmpty then scan.seek s pages else (.ok true, scan, s)

/-- Whether there is another row. -/
def hasNext (scan : Scan) (s : Store) : Outcome (Scan × Store) Bool :=
  match scan.rest with
  | none => (.ok false, scan, s)
  | some (_ :: _) => (.ok true, scan, s)
  | some [] => scan.seek s (scan.pageCount - (scan.page + 1))

/-- The next row. -/
def next (scan : Scan) (s : Store) : Outcome (Scan × Store) Tuple :=
  (scan.hasNext s).andThen id fun _ (scan, s) =>
    match scan.rest with
    | some (row :: rest) => (.ok row, { scan with rest := some rest }, s)
    | _ => (.error .noSuchElement, scan, s)

end Scan

/-- A scan of a file that has not started. -/
def HeapFile.scan (f : HeapFile) (tx : TxId) : Scan := { file := f, tx }

end Rowstore
