import Mathlib
import Rowstore.Proofs.Query.Asking
import Rowstore.Proofs.Query.Copying
import Rowstore.Proofs.Run.Thinning

/-!
# Deletions of the rows of a table

The rows of a table, or those of them that satisfy a predicate, are deleted:
`Operator.deletionFrom`. The scan under the deletion takes a page before its first row is deleted,
and deletes rows of that page only.

* Between two rows the scan has passed over rows that do not satisfy the predicate, and these are
  all that is left of the pages it has come to, `Operator.Thinning`. Deleting the next row that
  satisfies it keeps this so, `Operator.Thinning.delete`.
* In the end no row of the counted pages is left that satisfies the predicate, and the count is that
  of the rows that did when the deletion was opened: `Operator.deletion_of_rows`. The next one after
  a rewinding finds nothing.
-/

namespace Rowstore

namespace Operator

variable {db : Nat} {tx tx' : TxId} {table : TableId} {label : String} {schema : Schema}
  {f : HeapFile} {p : Option Predicate} {e e' : Engine} {op op' child : Operator}
  {place place' : Scan} {o : Option Tuple} {n count : Nat} {s t u : Store} {kept : List Row}

/-- A deletion of the rows of a table, or of those that satisfy a predicate. -/
def deletionFrom (db : Nat) (tx tx' : TxId) (f : HeapFile) (label : String)
    (p : Option Predicate) : Operator :=
  delete db tx (picked {} (scan db f.table label (f.schema.qualified label) (f.scan tx') {}) p)
    false {}

/-- It is built from a scan of the table. -/
theorem deletionFrom_of_built (hf : (e.store db).catalog.file table = .ok f)
    (hchild : ofTable e db tx' table label = .ok child) :
    deleting db tx (picked {} child p) = deletionFrom db tx tx' f label p := by
  obtain rfl := Catalog.table_of_file hf
  unfold ofTable at hchild
  rw [hf] at hchild
  cases hchild
  rfl

/-- The deletion when it is open. -/
def deletingFrom (db : Nat) (tx : TxId) (table : TableId) (label : String) (schema : Schema)
    (p : Option Predicate) (place : Scan) (done : Bool) : Operator :=
  delete db tx (picking db table label schema p place) done .ready

/-! ### Between two rows -/

/-- Rows that a scan gave are being deleted. Those that it passed over do not satisfy the predicate,
and no other row is left behind it. -/
structure Thinning (p : Option Predicate) (t : Store) (f : HeapFile) (count : Nat) (place : Scan)
    (kept : List Row) : Prop where
  scanned : Copying t t f count place kept []
  fails : ∀ row ∈ kept, ¬ row.passes p

/-- A scan is told about in the store that it has come to, as long as no row is copied. -/
theorem Copying.here (h : Copying s t f count place kept []) : Copying t t f count place kept [] :=
  ⟨h.backed, rfl, .refl t f.table, h.gathers, h.count_eq⟩

theorem Skimmed.here (h : Skimmed p s f count kept [] o (place, t)) :
    Skimmed p t f count kept [] o (place, t) := by
  cases o with
  | none => exact ⟨h.1.here, h.2⟩
  | some row => exact ⟨h.1, h.2.1.here, h.2.2⟩

/-- When the scan has come to its end, the rows that it passed over are all that is left. -/
theorem Skimmed.rows_eq (h : Skimmed p t f count kept [] none (place, t)) :
    rowsOf t.shownAt f.table count f.slots = kept := by
  obtain ⟨hscanned, hrest, hlast⟩ := h
  obtain ⟨rest, hrest', hall⟩ := hscanned.gathers.rows_eq
  cases hrest.symm.trans hrest'
  rw [hscanned.count_eq, Nat.min_eq_left hlast, Scan.found_nil, List.map_nil,
    List.append_nil] at hall
  exact hall.symm

/-- The child goes on to its next row. -/
theorem Thinning.pull (h : Thinning p (e.store db) f count place kept)
    (hf : (e.store db).catalog.file f.table = .ok f)
    (hpull : (picking db f.table label schema p place).pull n e = (.ok o, child, e')) :
    ∃ kept' last place' t, child = picking db f.table label schema p place' ∧
      e' = e.setStore db t ∧ o = last.map (Tuple.relabel · schema) ∧ (e.store db).Stays t ∧
      (∀ row ∈ kept', ¬ row.passes p) ∧ Skimmed p t f count kept' [] last (place', t) := by
  have hdb := Engine.lt_of_file hf
  have hborrows := (Lent.of_pull (h.scanned.readable hf) hpull).borrows
  obtain ⟨skipped, last, place', t, hskims, rfl, rfl, rfl⟩ := skims_of_pull hdb hpull
  obtain ⟨hskipped, hskimmed⟩ := Copying.skim hskims h.scanned hf
  have hstays := (hborrows.store db).stays h.scanned.backed
  rw [e.store_setStore t hdb] at hstays
  refine ⟨kept ++ skipped, last, place', t, rfl, rfl, rfl, hstays, fun row hrow => ?_,
    hskimmed.here⟩
  exact (List.mem_append.1 hrow).elim (h.fails row) (hskipped row)

/-- The row that the child gave is deleted. -/
theorem Thinning.delete {row : Tuple} (hfails : ∀ row ∈ kept, ¬ row.passes p)
    (h : Skimmed p t f count kept [] (some row) (place, t))
    (hdelete : t.deleteRow tx (row.relabel schema) = (.ok (), u)) :
    t.Thins u f count (Row.passes p) 1 ∧ Thinning p u f count place kept := by
  obtain ⟨hpass, hscanned, -⟩ := h
  obtain ⟨rest, -, hall⟩ := hscanned.gathers.rows_eq
  rw [Scan.found_nil, hscanned.count_eq] at hall
  -- the row is on one of the pages up to the one that the scan is on, which are counted
  have hrow : row.row ∈ rowsOf t.shownAt f.table count f.slots := by
    obtain ⟨number, slot, hnumber, hslot, hfound⟩ :=
      mem_rowsOf.1 (hall ▸ List.mem_append_left _ (List.mem_append_right _ List.mem_cons_self))
    exact mem_rowsOf.2 ⟨number, slot, hnumber.trans_le (min_le_left _ _), hslot, hfound⟩
  obtain ⟨record, hfound, hdeleted, hthins⟩ :=
    hscanned.backed.thins_of_delete hrow rfl hpass hdelete
  exact ⟨hthins, ⟨hthins.backed, rfl, .refl u f.table,
    hscanned.gathers.delete hscanned.backed hfound hdeleted, hscanned.count_eq⟩, hfails⟩

/-- All rows of the child are deleted. None is left that satisfies the predicate. -/
theorem Thinning.whole {now last : Operator × Engine}
    (hfed : Fed (fun row e => e.run db fun s => s.deleteRow tx row) now n last)
    (hnow : now.1 = picking db f.table label schema p place)
    (h : Thinning p (now.2.store db) f count place kept)
    (hf : (now.2.store db).catalog.file f.table = .ok f) :
    ∃ place' t, last = (picking db f.table label schema p place', now.2.setStore db t) ∧
      place'.file = f ∧ (now.2.store db).Thins t f count (Row.passes p) n ∧
      ∀ row ∈ rowsOf t.shownAt f.table count f.slots, ¬ row.passes p := by
  induction hfed generalizing place kept with
  | @ended now last k hpull =>
    obtain ⟨op, e⟩ := now
    obtain rfl : op = picking db f.table label schema p place := hnow
    obtain ⟨child, e'⟩ := last
    obtain ⟨kept', o, place', t, rfl, rfl, ho, hstays, hfails, hskimmed⟩ := h.pull hf hpull
    obtain rfl : o = none := Option.map_eq_none_iff.1 ho.symm
    refine ⟨place', t, rfl, hskimmed.1.gathers.file_eq, .of_stays hstays, ?_⟩
    rwa [hskimmed.rows_eq]
  | @more now mid last e'' k n row hpull hput _ ih =>
    obtain ⟨op, e⟩ := now
    obtain rfl : op = picking db f.table label schema p place := hnow
    have hdb := Engine.lt_of_file hf
    obtain ⟨child, e'⟩ := mid
    obtain ⟨kept', o, place', t, rfl, rfl, ho, hstays, hfails, hskimmed⟩ := h.pull hf hpull
    obtain ⟨row, rfl, rfl⟩ := Option.map_eq_some_iff.1 ho.symm
    cases hdelete : t.deleteRow tx (row.relabel schema) with | mk result u
    simp only [Engine.run, e.store_setStore t hdb, hdelete] at hput
    cases hput
    obtain ⟨hthins, hthinning⟩ := Thinning.delete hfails hskimmed hdelete
    have hu : ((e.setStore db t).setStore db u).store db = u := by
      rw [setStore_setStore, e.store_setStore u hdb]
    have hall := (Store.Thins.of_stays hstays).trans hthins
    have hfile : u.catalog.file f.table = .ok f := hall.catalog_eq ▸ hf
    rw [hu] at ih
    obtain ⟨place'', v, hlast, hplace, hrest, hnone⟩ := ih rfl hthinning hfile
    refine ⟨place'', v, ?_, hplace, ?_, hnone⟩
    · rw [hlast, setStore_setStore, setStore_setStore]
    · have := hall.trans hrest
      rwa [Nat.zero_add, Nat.add_comm] at this

/-! ### The whole deletion -/

theorem start_deletionFrom
    (h : (deletionFrom db tx tx' f label p).start e = (.ok (), op, e')) :
    ∃ place t, (f.scan tx').start (e.store db) = (.ok (), place, t) ∧ e' = e.setStore db t ∧
      op = deletingFrom db tx f.table label (f.schema.qualified label) p place false := by
  obtain ⟨_, ⟨child, e₁⟩, hstart, h⟩ := Outcome.andThen_eq_ok_iff.1 h
  cases h
  obtain ⟨place, t, hplace, rfl, rfl⟩ := start_picked hstart
  exact ⟨place, t, hplace, rfl, rfl⟩

theorem rewind_deletingFrom {done : Bool}
    (h : (deletingFrom db tx table label schema p place done).rewind e = (.ok (), op, e')) :
    ∃ place' t, place.close.start (e.store db) = (.ok (), place', t) ∧ e' = e.setStore db t ∧
      op = deletingFrom db tx table label schema p place' false := by
  have hscan : ∀ {child : Operator} {e' : Engine},
      (scan db table label schema place .ready).rewind e = (.ok (), child, e') →
      ∃ place' t, place.close.start (e.store db) = (.ok (), place', t) ∧
        e' = e.setStore db t ∧ child = scan db table label schema place' .ready := by
    intro child e' h
    unfold rewind Scan.rewind at h
    dsimp only at h
    generalize place.close.start (e.store db) = o at h ⊢
    obtain ⟨cause | u, place', t⟩ := o
    · cases h
    · cases h
      exact ⟨place', t, rfl, rfl, rfl⟩
  obtain ⟨_, ⟨child, e₁⟩, hrewind, h⟩ := Outcome.andThen_eq_ok_iff.1 h
  cases h
  cases p with
  | none =>
    obtain ⟨place', t, hplace, rfl, rfl⟩ := hscan hrewind
    exact ⟨place', t, hplace, rfl, rfl⟩
  | some p =>
    obtain ⟨_, ⟨child₁, e₂⟩, hchild, h⟩ := Outcome.andThen_eq_ok_iff.1 hrewind
    cases h
    obtain ⟨place', t, hplace, rfl, rfl⟩ := hscan hchild
    exact ⟨place', t, hplace, rfl, rfl⟩

/-- The first pull deletes all rows of the child. -/
theorem fed_of_pull_deletingFrom
    (h : (deletingFrom db tx table label schema p place false).pull n e = (.ok o, op, e')) :
    ∃ count child, o = some (countRow count) ∧ op = delete db tx child true .ready ∧
      Fed (fun row e => e.run db fun s => s.deleteRow tx row)
        (picking db table label schema p place, e) count (child, e') := by
  rw [deletingFrom, Operator.pull, pullWith_eq_of_ready rfl] at h
  cases n with
  | zero => cases h
  | succ n =>
    obtain ⟨count, ⟨child, e₁⟩, hdrained, h⟩ := Outcome.andThen_eq_ok_iff.1 h
    cases h
    obtain ⟨rows, rfl, hfed⟩ := fed_of_drainWith (fun count row e => rfl) hdrained
    exact ⟨rows, child, by rw [Nat.zero_add], rfl, hfed⟩

/-- A pull after a scan has been opened, or opened again, clears the pages that are counted. -/
theorem cleared_of_pull (hs : (e.store db).Backed)
    (hf : (e.store db).catalog.file f.table = .ok f) (hplace : place.file = f)
    (hstart : place.start (e.store db) = (.ok (), place', t))
    (hpull : (deletingFrom db tx f.table label schema p place' false).pull n (e.setStore db t) =
      (.ok o, op, e')) :
    ∃ place'' u, op = deletingFrom db tx f.table label schema p place'' true ∧ place''.file = f ∧
      e' = e.setStore db u ∧
      o = some (countRow (((e.store db).tableRows f.table).countP (Row.passes p))) ∧
      (e.store db).Cleared u f ((e.store db).wholePages f.table % HeapFile.pageNumbers)
        (Row.passes p) := by
  subst hplace
  have hdb := Engine.lt_of_file hf
  obtain ⟨hstays, hcounted, hgathers⟩ := Scan.gathers_of_start hs hf hstart
  rw [← Store.wholePages_eq hf] at hcounted
  have hf' : t.catalog.file place.file.table = .ok place.file := hstays.1.catalog_eq ▸ hf
  have hthinning : Thinning p t place.file place'.pageCount place' [] :=
    ⟨⟨hstays.1.backed, rfl, .refl t _, hgathers, rfl⟩, nofun⟩
  obtain ⟨count, child, rfl, rfl, hfed⟩ := fed_of_pull_deletingFrom hpull
  rw [← e.store_setStore t hdb] at hthinning hf'
  obtain ⟨place'', u, hlast, hfile, hthins, hnone⟩ := hthinning.whole hfed rfl hf'
  cases hlast
  rw [e.store_setStore t hdb] at hthins
  have hall := (Store.Thins.of_stays hstays).trans hthins
  rw [Nat.zero_add, hcounted] at hall
  rw [hcounted] at hnone
  have hcleared := hall.cleared hs hf hnone
  refine ⟨place'', u, rfl, hfile, setStore_setStore .., ?_, hcleared⟩
  rw [hcleared.count_eq hall, hs.tableRows_eq_counted hf]

/-- A pull of a deletion has found no row to delete. -/
structure FindsNone (db : Nat) (e : Engine) (o : Option Tuple) (e' : Engine) : Prop where
  count : o = some (countRow 0)
  catalog_eq : (e'.store db).catalog = (e.store db).catalog
  disk_eq : e'.disk = e.disk
  shownAt_eq : (e'.store db).shownAt = (e.store db).shownAt
  databases : ∀ other, other ≠ db → e'.store other = e.store other

/-- A pull of a deletion has deleted the rows of a table that satisfied a predicate. -/
structure Deletes (db : Nat) (f : HeapFile) (p : Option Predicate) (e : Engine) (o : Option Tuple)
    (s' : Operator × Engine) : Prop where
  /-- It tells how many they were. -/
  count : o = some (countRow (((e.store db).tableRows f.table).countP (Row.passes p)))
  /-- They are gone from the pages that are counted. -/
  cleared : (e.store db).Cleared (s'.2.store db) f
    ((e.store db).wholePages f.table % HeapFile.pageNumbers) (Row.passes p)
  /-- The others are what the table has now, with their values and records. -/
  rows : (s'.2.store db).tableRows f.table =
    ((e.store db).tableRows f.table).filter fun row => !row.passes p
  /-- If all pages are counted, then so it is with every record of the table. -/
  records : f.Countable e.disk → ∀ record : RecordId, record.page.table = f.table →
    (s'.2.store db).shownAt record = ((e.store db).shownAt record).filter fun row => !row.passes p
  other_tables : ∀ table, table ≠ f.table →
    (s'.2.store db).tableRows table = (e.store db).tableRows table
  page_counts : ∀ table, (s'.2.store db).pageCount table = (e.store db).pageCount table
  databases : ∀ other, other ≠ db → s'.2.store other = e.store other
  /-- When the deletion has been sent back, the next pull that succeeds deletes nothing. -/
  again : ∀ (back t : Operator × Engine) (m : Nat) (o' : Option Tuple),
    s'.1.rewind s'.2 = (.ok (), back) → back.1.pull m back.2 = (.ok o', t) →
    FindsNone db s'.2 o' t.2

/-- **Deletions delete the rows that satisfy their predicate**, at the first pull that succeeds. -/
theorem deletion_of_rows {e₁ e₂ : Engine} (hs : (e.store db).Backed)
    (hf : (e.store db).catalog.file f.table = .ok f)
    (hopens : (deletionFrom db tx tx' f label p).start e = (.ok (), op, e₁))
    (hpull : op.pull n e₁ = (.ok o, op', e₂)) : Deletes db f p e o (op', e₂) := by
  have hdb := Engine.lt_of_file hf
  obtain ⟨place, t₁, hstart, rfl, rfl⟩ := start_deletionFrom hopens
  obtain ⟨place', u, rfl, hplace, rfl, rfl, hcleared⟩ := cleared_of_pull hs hf rfl hstart hpull
  have hnow : (e.setStore db u).store db = u := e.store_setStore u hdb
  exact {
    count := rfl
    cleared := hnow.symm ▸ hcleared
    rows := hnow.symm ▸ hcleared.tableRows_eq hs hf
    records := fun hcount record htable => by
      rw [hnow]
      exact hcleared.shownAt_of_countable hs hf hcount htable
    other_tables := fun table hne => by
      rw [hnow]
      exact hcleared.tableRows_of_ne hs hne
    page_counts := fun table => by
      rw [hnow]
      exact hcleared.pageCount_eq table
    databases := fun other hne => Engine.store_setStore_of_ne hcleared.disk_eq hne
    again := by
      intro back t m o' hrewind hpull'
      obtain ⟨op₁, e₃⟩ := back
      obtain ⟨op₂, e₄⟩ := t
      obtain ⟨place₁, t₁, hrestart, rfl, rfl⟩ := rewind_deletingFrom hrewind
      have hclosed : place'.close.file = f := hplace
      rw [← hnow] at hcleared
      obtain ⟨place₂, v, rfl, -, rfl, rfl, hagain⟩ :=
        cleared_of_pull hcleared.backed (hcleared.catalog_eq ▸ hf) hclosed hrestart hpull'
      have hpages : ((e.setStore db u).store db).wholePages = (e.store db).wholePages :=
        Store.wholePages_congr hcleared.catalog_eq hcleared.disk_eq
      rw [hpages] at hagain
      have hlast : ((e.setStore db u).setStore db v).store db = v := by
        rw [setStore_setStore, e.store_setStore v hdb]
      exact {
        count := by rw [hcleared.countP_tableRows hs hf]
        catalog_eq := by rw [hlast, hagain.catalog_eq]
        disk_eq := hagain.disk_eq
        shownAt_eq := by rw [hlast, hcleared.again hagain]
        databases := fun other hne => Engine.store_setStore_of_ne hagain.disk_eq hne } }

/-- The numbers above 5 are deleted from a table of numbers. -/
def deleteAboveFive (pageSize : Nat) : Operator :=
  deletionFrom 0 ⟨1⟩ ⟨2⟩ ⟨Store.only, "rows", Store.numbers, pageSize⟩ "r"
    (some ⟨0, .greater, .int 5⟩)

/-- A table of two pages of two slots each, the numbers 7 and 2 in the first one and 9 and 1 in the
second one. -/
def fourNumbers : Engine :=
  alone (Store.single Store.numbers 10 4
    [3, 7, 0, 0, 0, 2, 0, 0, 0, 0, 3, 9, 0, 0, 0, 1, 0, 0, 0, 0] 0)

/-- The 7 and the 9 are deleted, and none again after that. -/
theorem deletion_of_rows_fourNumbers :
    let opened := (deleteAboveFive 10).start fourNumbers
    let pulled := opened.2.1.pull 9 opened.2.2
    let rewound := pulled.2.1.rewind pulled.2.2
    let again := rewound.2.1.pull 9 rewound.2.2
    let rows := (fourNumbers.store 0).tableRows Store.only
    let left := (pulled.2.2.store 0).tableRows Store.only
    let above := Row.passes (some ⟨0, .greater, .int 5⟩)
    (fourNumbers.store 0).Backed ∧ opened.1 = .ok () ∧ rewound.1 = .ok () ∧
      pulled.1 = .ok (some (countRow 2)) ∧ countRow 2 = countRow (rows.countP above) ∧
      left = [(Store.number 2).rowAt ⟨⟨Store.only, 0⟩, 1⟩,
        (Store.number 1).rowAt ⟨⟨Store.only, 1⟩, 1⟩] ∧
      left = rows.filter (fun row => !above row) ∧ again.1 = .ok (some (countRow 0)) ∧
      (again.2.2.store 0).shownAt = (pulled.2.2.store 0).shownAt := by
  intro opened pulled rewound again rows left above
  have hs : (fourNumbers.store 0).Backed := Store.single_unread.backed
  have hf : (fourNumbers.store 0).catalog.file Store.only =
      .ok ⟨Store.only, "rows", Store.numbers, 10⟩ := rfl
  have hopened : opened.1 = .ok () := by decide +kernel
  have hpulled : pulled.1 = .ok (some (countRow 2)) := by decide +kernel
  have hrewound : rewound.1 = .ok () := by decide +kernel
  have hagain : again.1 = .ok (some (countRow 0)) := by decide +kernel
  have hopens : (deleteAboveFive 10).start fourNumbers = (.ok (), opened.2.1, opened.2.2) :=
    Prod.ext hopened rfl
  have hpull : opened.2.1.pull 9 opened.2.2 =
      (.ok (some (countRow 2)), pulled.2.1, pulled.2.2) := Prod.ext hpulled rfl
  have hrewind : pulled.2.1.rewind pulled.2.2 = (.ok (), rewound.2.1, rewound.2.2) :=
    Prod.ext hrewound rfl
  have hpull' : rewound.2.1.pull 9 rewound.2.2 =
      (.ok (some (countRow 0)), again.2.1, again.2.2) := Prod.ext hagain rfl
  have hdeletes := deletion_of_rows hs hf hopens hpull
  have hnone := hdeletes.again _ _ _ _ hrewind hpull'
  exact ⟨hs, hopened, hrewound, hpulled, Option.some.inj hdeletes.count, by decide +kernel,
    hdeletes.rows, hagain, hnone.shownAt_eq⟩

/-- The 7 stays, where the page numbers are used up: no page is counted, and none is scanned. -/
theorem row_stays_though_it_passes :
    let e := alone Store.sevenAndZeros
    let opened := (deleteAboveFive 5).start e
    let pulled := opened.2.1.pull 9 opened.2.2
    let record : RecordId := ⟨⟨Store.only, 0⟩, 0⟩
    let seven := (Store.number 7).rowAt record
    Store.sevenAndZeros.Initial ∧ (e.store 0).shownAt record = some seven ∧
      seven.passes (some ⟨0, .greater, .int 5⟩) ∧ opened.1 = .ok () ∧
      pulled.1 = .ok (some (countRow 0)) ∧
      HeapFile.Has ⟨Store.only, "rows", Store.numbers, 5⟩ pulled.2.2.disk 0 ∧
      (pulled.2.2.store 0).shownAt record = some seven := by
  refine ⟨Store.sevenAndZeros_initial, ?_⟩
  decide +kernel

end Operator

end Rowstore
