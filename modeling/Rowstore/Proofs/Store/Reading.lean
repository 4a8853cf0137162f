import Mathlib
import Rowstore.Engine
import Rowstore.Proofs.Store.Moves
import Rowstore.Proofs.Store.Scans

/-!
# Stores that are only read

What readers see of a table while nothing but reading goes on, in any store. Reading changes which
pages are in the pool: a page that nobody has changed may leave it, and comes back from the disk. So
the rows of a table are well determined if the disk has such pages as the pool has them,
`Store.Current`. That is so for all tables of a sound store; where two tables have one file, it can
fail for a table whose file was changed through the other.

* `Store.Reads` says that nothing but reading leads from one store to another, and
  `Engine.Reads` the same of databases over one disk.
* A scan finds the rows that the first of the stores shows: `Store.Reads.start`,
  `Store.Reads.hasNext`.
-/

namespace Rowstore

/-- A scan as it was before it started. -/
def Scan.fresh (scan : Scan) : Scan := scan.file.scan scan.tx

theorem Scan.file_congr {scan scan' : Scan} (h : scan'.fresh = scan.fresh) :
    scan'.file = scan.file := by
  show scan'.fresh.file = scan.fresh.file
  rw [h]

namespace Store

variable {s t u : Store} {tx : TxId} {table : TableId} {id : PageId} {scan : Scan}

/-- The disk has the pages of a table that nobody has changed as the pool has them. -/
structure Current (s : Store) (table : TableId) : Prop where
  distinct : s.pool.Distinct
  clean : ∀ page ∈ s.pool.pages, page.id.table = table → page.dirtiedBy = none →
    ∀ cells, s.stored page.id = some cells → page.cells = cells

/-- All tables of a store are current if what is in its pool belongs to its files. -/
theorem Backed.current (h : s.Backed) (table : TableId) : s.Current table where
  distinct := h.pages
  clean := by
    intro page hpage _ hclean cells hcells
    obtain ⟨f, hf, -, hstored⟩ := h.cached (h.pages.page?_of_mem hpage)
    rw [stored_eq _ hf, hstored hclean] at hcells
    exact Option.some.inj hcells

/-- All tables of a sound store are current. -/
theorem Sound.current (h : s.Sound) (table : TableId) : s.Current table := h.backed.current table

/-- A table of which no page is in the pool is current. -/
theorem current_of_no_pages (h : s.pool.pages = []) : s.Current table where
  distinct := by
    rw [Pool.Distinct, h]
    exact List.nodup_nil
  clean := by
    rw [h]
    exact fun _ hpage => absurd hpage List.not_mem_nil

/-- Nothing but reading leads from one store to another. -/
structure Reads (s t : Store) : Prop where
  catalog_eq : t.catalog = s.catalog
  disk_eq : t.disk = s.disk
  current : ∀ {table : TableId}, s.Current table → t.Current table
  shown : ∀ {id : PageId} {cells : List (Option Row)}, s.Current id.table →
    t.shown id = some cells → s.shown id = some cells

namespace Reads

theorem refl (s : Store) : s.Reads s := ⟨rfl, rfl, id, fun _ h => h⟩

theorem trans (h : s.Reads t) (h' : t.Reads u) : s.Reads u where
  catalog_eq := h'.catalog_eq.trans h.catalog_eq
  disk_eq := h'.disk_eq.trans h.disk_eq
  current := fun hcurrent => h'.current (h.current hcurrent)
  shown := fun hcurrent hcells => h.shown hcurrent (h'.shown (h.current hcurrent) hcells)

theorem stored_eq (h : s.Reads t) : t.stored = s.stored := stored_congr h.catalog_eq h.disk_eq

/-- Holding a page is no more than reading. -/
theorem of_pages (hcatalog : t.catalog = s.catalog) (hdisk : t.disk = s.disk)
    (hpages : t.pool.pages = s.pool.pages) : s.Reads t where
  catalog_eq := hcatalog
  disk_eq := hdisk
  current := by
    intro table h
    refine ⟨?_, ?_⟩
    · rw [Pool.Distinct, hpages]
      exact h.distinct
    · rw [hpages, stored_congr hcatalog hdisk]
      exact h.clean
  shown := by
    intro id cells _ hcells
    rwa [Store.shown, Pool.page?, hpages, stored_congr hcatalog hdisk] at hcells

end Reads

/-- Giving out a page is reading. -/
theorem reads_of_acquire {page : Page} (h : s.acquire tx id = .ok (page, t)) :
    s.Reads t ∧ (s.Current id.table → t.pool.page? id = some page) := by
  rcases acquire_cases h with ⟨hpage, rfl⟩ | ⟨f, pool, hmiss, hf, hread, hload, rfl⟩
  · exact ⟨.of_pages rfl rfl rfl, fun _ => hpage⟩
  · obtain ⟨-, rfl, hfresh⟩ := HeapFile.holds_of_readPage hread
    have hstored : s.stored page.id = some page.cells := by
      rw [stored_eq _ hf]
      exact HeapFile.cells?_eq_some_iff.2 ⟨page, hread, rfl⟩
    refine ⟨⟨rfl, rfl, fun {table} hcurrent => ⟨?_, ?_⟩, fun {id cells} hcurrent hcells => ?_⟩,
      fun hcurrent => (Pool.page?_load hcurrent.distinct hmiss hload).1⟩
    · show pool.Distinct
      exact hcurrent.distinct.load hmiss hload
    · intro other hother htable hclean cells hcells
      rcases Pool.mem_of_load hload hother with hold | rfl
      · exact hcurrent.clean other hold htable hclean cells hcells
      · exact Option.some.inj (hstored.symm.trans hcells)
    · obtain ⟨hself, hothers⟩ := Pool.page?_load hcurrent.distinct hmiss hload
      by_cases hid : id = page.id
      · subst hid
        rw [shown_of_none hmiss, hstored]
        rwa [shown_of_page? hself] at hcells
      · rcases hothers id hid with hsame | ⟨hgone, gone, hfound, hclean⟩
        · rwa [shown, Pool.page?_hold, hsame] at hcells
        · -- a page that made room was clean, so the disk has no other cells than the page had
          rw [shown_of_none hgone] at hcells
          obtain ⟨hmem, rfl⟩ := Pool.mem_of_page? hfound
          rw [shown_of_page? hfound, hcurrent.clean gone hmem rfl hclean cells hcells]

/-- Acquiring pages one after another is reading. -/
theorem Acquires.reads (h : Acquires tx s t) : s.Reads t := by
  induction h with
  | refl => exact .refl _
  | tail _ hacquire ih =>
    obtain ⟨id, page, hacquire⟩ := hacquire
    exact ih.trans (reads_of_acquire hacquire).1

/-! ### Scans -/

namespace Reads

/-- A page that is read has the rows that were shown at first. -/
theorem load (h : s.Reads t) (hcurrent : s.Current scan.file.table) {number : Nat}
    {rows : List Tuple} (hload : scan.load t number = (.ok rows, u)) :
    s.Reads u ∧ rows.map Tuple.row = s.pageRows ⟨scan.file.table, number⟩ := by
  unfold Scan.load at hload
  cases hacquire : t.acquire scan.tx ⟨scan.file.table, number⟩ with
  | error cause =>
    rw [hacquire] at hload
    cases hload
  | ok result =>
    obtain ⟨page, v⟩ := result
    rw [hacquire] at hload
    cases hload
    obtain ⟨hreads, hpage⟩ := reads_of_acquire hacquire
    have hshown : s.shown ⟨scan.file.table, number⟩ = some page.cells :=
      (h.trans hreads).shown hcurrent (shown_of_page? (hpage (h.current hcurrent)))
    refine ⟨h.trans hreads, ?_⟩
    rw [pageRows, hshown]
    simp [Page.rows, Page.cells, List.reduceOption, List.map_filterMap, List.filterMap_map]

/-- Pages without rows are passed over. -/
theorem seek (h : s.Reads t) (hcurrent : s.Current scan.file.table)
    (hrest : scan.rest = some []) {pages : Nat} {more : Bool} {scan' : Scan}
    (hseek : scan.seek t pages = (.ok more, scan', u)) :
    s.Reads u ∧ scan'.fresh = scan.fresh ∧ scan'.pageCount = scan.pageCount ∧
      ∃ rows left, scan'.rest = some rows ∧ scan.page ≤ scan'.page ∧
        scan'.page + left = scan.page + pages ∧
        rows.map Tuple.row ++ s.rowsFrom scan.file.table (scan'.page + 1) left =
          s.rowsFrom scan.file.table (scan.page + 1) pages ∧
        (more = true ↔ rows ≠ []) ∧ (rows = [] → left = 0) := by
  induction pages generalizing t scan with
  | zero =>
    cases hseek
    exact ⟨h, rfl, rfl, [], 0, hrest, le_rfl, rfl, rfl, by simp, fun _ => rfl⟩
  | succ pages ih =>
    unfold Scan.seek at hseek
    simp only at hseek
    generalize hload : Scan.load { scan with page := scan.page + 1 } t (scan.page + 1) = o at hseek
    obtain ⟨cause | rows, v⟩ := o
    · cases hseek
    · obtain ⟨hreads, hrows⟩ := h.load hcurrent hload
      simp only [Outcome.andThen_ok, List.isEmpty_iff] at hseek
      rw [rowsFrom_succ, ← hrows]
      split_ifs at hseek with hnil
      · subst hnil
        obtain ⟨hreads, hfresh, hcount, rows, left, hrest', hle, hpage, hfrom, hmore, hleft⟩ :=
          @ih v { scan with page := scan.page + 1, rest := some [] } hreads hcurrent rfl hseek
        simp only at hle hpage
        exact ⟨hreads, hfresh, hcount, rows, left, hrest', by omega, by omega, hfrom, hmore, hleft⟩
      · cases hseek
        exact ⟨hreads, rfl, rfl, rows, pages, rfl, Nat.le_succ _, by simp only; omega, rfl,
          by simpa using hnil, fun h => absurd h hnil⟩

/-- There is another row as long as some of those that were shown at first are still to come. -/
theorem hasNext (h : s.Reads t) (hcurrent : s.Current scan.file.table) (hopen : scan.rest.isSome)
    {more : Bool} {scan' : Scan} (hmore : scan.hasNext t = (.ok more, scan', u)) :
    s.Reads u ∧ scan'.fresh = scan.fresh ∧ s.remaining scan' = s.remaining scan ∧
      ∃ rows, scan'.rest = some rows ∧ (more = true ↔ rows ≠ []) ∧
        (more = true ↔ s.remaining scan ≠ []) := by
  obtain ⟨rows, hrest⟩ := Option.isSome_iff_exists.1 hopen
  cases rows with
  | cons row rows =>
    rw [Scan.hasNext_of_rest hrest] at hmore
    cases hmore
    exact ⟨h, rfl, rfl, _, hrest, by simp, by simp [remaining, hrest]⟩
  | nil =>
    rw [Scan.hasNext, hrest] at hmore
    obtain ⟨hreads, hfresh, hcount, rows, left, hrest', hle, hpage, hfrom, hrows, hleft⟩ :=
      h.seek hcurrent hrest hmore
    have hleft' : scan'.pageCount - (scan'.page + 1) = left := by omega
    have hsame : s.remaining scan' = s.remaining scan := by
      rw [remaining, remaining, hrest', hrest, Scan.file_congr hfresh, hleft']
      exact hfrom
    refine ⟨hreads, hfresh, hsame, rows, hrest', hrows, hrows.trans ?_⟩
    rw [← hsame, remaining, hrest', hleft']
    by_cases hnil : rows = []
    · simp [hnil, hleft hnil, rowsFrom]
    · simp [hnil]

/-- A scan that has started has all rows of its table to come. -/
theorem start (h : s.Reads t) (hcurrent : s.Current scan.file.table)
    (hfile : s.catalog.file scan.file.table = .ok scan.file) {scan' : Scan}
    (hstart : scan.start t = (.ok (), scan', u)) :
    s.Reads u ∧ scan'.fresh = scan.fresh ∧ scan'.rest.isSome ∧
      s.remaining scan' = s.tableRows scan.file.table := by
  unfold Scan.start at hstart
  rw [h.disk_eq] at hstart
  cases hcount : scan.file.pageCount s.disk with
  | error cause =>
    rw [hcount] at hstart
    cases hstart
  | ok count =>
    have hrows : s.tableRows scan.file.table = s.rowsFrom scan.file.table 0 count := by
      have hpages : s.pageCount scan.file.table = .ok count := by
        rw [pageCount, hfile]
        exact hcount
      rw [tableRows, hpages]
    simp only [hcount] at hstart
    split_ifs at hstart with hzero
    · cases hstart
      subst hzero
      exact ⟨h, rfl, rfl, hrows.symm⟩
    · generalize hload : Scan.load { scan with page := 0, pageCount := count } t 0 = o at hstart
      obtain ⟨cause | rows, v⟩ := o
      · cases hstart
      · cases hstart
        obtain ⟨hreads, hfirst⟩ := h.load hcurrent hload
        obtain ⟨pages, rfl⟩ := Nat.exists_eq_succ_of_ne_zero hzero
        refine ⟨hreads, rfl, rfl, ?_⟩
        rw [hrows, rowsFrom_succ]
        exact congrArg (· ++ _) hfirst

end Reads

end Store

/-! ### Databases -/

namespace Engine

variable {e e' e'' : Engine} {db : Nat}

/-- Nothing but reading leads from some databases to others. -/
structure Reads (e e' : Engine) : Prop where
  disk_eq : e'.disk = e.disk
  length_eq : e'.databases.length = e.databases.length
  store : ∀ db, (e.store db).Reads (e'.store db)

/-- A database with a table is there. -/
theorem lt_of_file {table : TableId} {f : HeapFile} (h : (e.store db).catalog.file table = .ok f) :
    db < e.databases.length := by
  by_contra hle
  rw [store, List.getElem?_eq_none (not_lt.1 hle)] at h
  cases h

/-- The other databases are as they were when one is put back over the same disk. -/
theorem store_setStore_of_ne {s : Store} {other : Nat} (hdisk : s.disk = e.disk)
    (hne : other ≠ db) : (e.setStore db s).store other = e.store other := by
  simp only [store, setStore, hdisk, List.getElem?_set_ne hne.symm]

namespace Reads

theorem refl (e : Engine) : e.Reads e := ⟨rfl, rfl, fun _ => .refl _⟩

theorem trans (h : e.Reads e') (h' : e'.Reads e'') : e.Reads e'' where
  disk_eq := h'.disk_eq.trans h.disk_eq
  length_eq := h'.length_eq.trans h.length_eq
  store := fun db => (h.store db).trans (h'.store db)

/-- One of the databases is read. -/
theorem setStore (h : e.Reads e') {s : Store} (hdb : db < e.databases.length)
    (hs : (e.store db).Reads s) : e.Reads (e'.setStore db s) where
  disk_eq := hs.disk_eq
  length_eq := by
    rw [← h.length_eq]
    exact List.length_set
  store := by
    intro other
    by_cases hother : other = db
    · rw [hother, store_setStore _ _ (h.length_eq ▸ hdb)]
      exact hs
    · rw [store_setStore_of_ne (hs.disk_eq.trans h.disk_eq.symm) hother]
      exact h.store other

/-- A database that is not there can be read too: it stays as it is. -/
theorem of_store {s : Store} (hs : (e.store db).Reads s) : e.Reads (e.setStore db s) := by
  by_cases hdb : db < e.databases.length
  · exact (refl e).setStore hdb hs
  · have hsame : e.setStore db s = e := by
      unfold Engine.setStore
      rw [hs.disk_eq, List.set_eq_of_length_le (not_lt.1 hdb)]
      rfl
    rw [hsame]
    exact refl e

end Reads

end Engine

end Rowstore
