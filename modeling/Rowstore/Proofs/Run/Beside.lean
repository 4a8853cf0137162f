import Mathlib
import Rowstore.Proofs.Store.Deriving
import Rowstore.Proofs.Store.Reading
import Rowstore.Proofs.Store.Searching
import Rowstore.Proofs.Store.Typing

/-!
# Tables beside the one that changes

A row is stored in one table, and the tables with other files stay as they are, in the same database
and in the others over the disk. So readers of those tables see the same rows before and after.

* `Store.SameTable` says that a table has the same pages in two stores. Reading keeps it so,
  `Store.Reads.sameTable`, if the pages in memory are stored as they are unless they are marked:
  `Store.Faithful`, which holds of all tables of a store that is backed.
* An insertion leaves the other tables the same, `Engine.sameTable_insertRow`.
-/

namespace Rowstore

namespace HeapFile

variable {f : HeapFile} {disk disk' : Disk}

/-- What is read from a file does not depend on the other files. -/
theorem cells?_congr (h : disk'.file f.name = disk.file f.name) (id : PageId) :
    f.cells? disk' id = f.cells? disk id := by
  unfold cells? readPage image
  rw [h]

theorem pageCount_congr (h : disk'.file f.name = disk.file f.name) :
    f.pageCount disk' = f.pageCount disk := by
  unfold pageCount
  rw [h]

end HeapFile

namespace View

variable {v w : View} {tx : TxId} {blank : List (Option Row)} {id : PageId} {table : TableId}

/-- Other pages are shown as before when a row is stored. -/
theorem shown_insert_of_ne {record : RecordId} (h : id ≠ record.page) (row : Row) :
    (v.insert tx blank record row).shown id = v.shown id := by
  unfold insert
  split_ifs
  · rw [shown_save, Function.update_of_ne h]
  · rw [shown_change, Function.update_of_ne h]

theorem Grown.shown_of_ne (h : v.Grown w table blank) (hid : id.table ≠ table) :
    w.shown id = v.shown id := by
  rcases h.pages id with ⟨-, hshown⟩ | ⟨htable, -⟩
  · exact hshown
  · exact absurd htable hid

end View

namespace Store

variable {s t u : Store} {tx : TxId} {row : Tuple} {table : TableId} {f g : HeapFile}

/-! ### The same table -/

/-- The pages of a table in memory are stored, as they are unless they are marked. -/
structure Faithful (s : Store) (table : TableId) : Prop where
  current : s.Current table
  legible : ∀ {id : PageId}, id.table = table → (s.shown id).isSome → (s.stored id).isSome

theorem Backed.faithful (h : s.Backed) (table : TableId) : s.Faithful table where
  current := h.current table
  legible := fun _ => h.shown_isSome_iff.1

/-- A table has the same pages in two stores, and can be read in the second one. -/
structure SameTable (s t : Store) (table : TableId) : Prop where
  file_eq : t.catalog.file table = s.catalog.file table
  pageCount_eq : t.pageCount table = s.pageCount table
  shown_eq : ∀ {id : PageId}, id.table = table → t.shown id = s.shown id
  faithful : t.Faithful table

theorem Faithful.sameTable (h : s.Faithful table) : s.SameTable s table :=
  ⟨rfl, rfl, fun _ => rfl, h⟩

namespace SameTable

theorem trans (h : s.SameTable t table) (h' : t.SameTable u table) : s.SameTable u table where
  file_eq := h'.file_eq.trans h.file_eq
  pageCount_eq := h'.pageCount_eq.trans h.pageCount_eq
  shown_eq := fun hid => (h'.shown_eq hid).trans (h.shown_eq hid)
  faithful := h'.faithful

theorem rowsFrom_eq (h : s.SameTable t table) (first pages : Nat) :
    t.rowsFrom table first pages = s.rowsFrom table first pages := by
  have hpage : ∀ n, t.pageRows ⟨table, n⟩ = s.pageRows ⟨table, n⟩ := fun n => by
    rw [pageRows, h.shown_eq rfl, pageRows]
  simp only [rowsFrom, hpage]

theorem tableRows_eq (h : s.SameTable t table) : t.tableRows table = s.tableRows table := by
  unfold tableRows
  simp only [h.pageCount_eq, h.rowsFrom_eq]

theorem remaining_eq {scan : Scan} (h : s.SameTable t scan.file.table) :
    t.remaining scan = s.remaining scan := by
  rw [remaining, h.rowsFrom_eq, remaining]

end SameTable

/-- Reading keeps a table that is faithful the same. -/
theorem Reads.sameTable (h : s.Reads t) (hs : s.Faithful table) : s.SameTable t table := by
  have hshown : ∀ {id : PageId}, id.table = table → t.shown id = s.shown id := by
    rintro id rfl
    cases hbefore : s.shown id with
    | none =>
      refine Option.eq_none_iff_forall_ne_some.2 fun cells hcells => ?_
      cases hbefore.symm.trans (h.shown hs.current hcells)
    | some cells =>
      -- the page is stored, so it is shown as well when it is no longer in memory
      have hafter : (t.shown id).isSome := by
        cases hpage : t.pool.page? id with
        | some page =>
          rw [shown_of_page? hpage]
          rfl
        | none =>
          rw [shown_of_none hpage, h.stored_eq]
          exact hs.legible rfl (by rw [hbefore]; rfl)
      obtain ⟨cells', hcells'⟩ := Option.isSome_iff_exists.1 hafter
      rw [hcells', ← hbefore, h.shown hs.current hcells']
  refine ⟨by rw [h.catalog_eq], ?_, hshown, h.current hs.current, fun {id} hid hsome => ?_⟩
  · unfold pageCount
    rw [h.catalog_eq, h.disk_eq]
  · rw [h.stored_eq]
    exact hs.legible hid (hshown hid ▸ hsome)

/-! ### Insertions -/

/-- Another table of the database, when a row is stored or is not. -/
theorem Backed.sameTable_insertRow (h : s.Backed) (hf : s.catalog.file f.table = .ok f)
    (hrow : row.Complete) (hcount : f.Countable s.disk) (hother : table ≠ f.table) :
    s.SameTable (s.insertRow tx f.table row).2 table := by
  have houtcome : s.InsertOutcome tx f.table row (s.insertRow tx f.table row) :=
    h.insertOutcome hf hrow hcount rfl
  have hedits := edits_insertRow hf tx row
  generalize s.insertRow tx f.table row = o at houtcome hedits ⊢
  obtain ⟨result, t⟩ := o
  obtain ⟨hcatalog, hbacked, hshown⟩ : t.catalog = s.catalog ∧ t.Backed ∧
      ∀ {id : PageId}, id.table = table → t.shown id = s.shown id := by
    rcases result with cause | u
    · rcases houtcome with hstays | ⟨g, hg, ⟨w, hshows, hgrown⟩, -⟩
      · exact ⟨hstays.1.catalog_eq, hstays.1.backed, fun _ => by rw [hstays.shown_eq]⟩
      · cases hf.symm.trans hg
        refine ⟨hshows.catalog_eq, hshows.backed, fun hid => ?_⟩
        rw [← view_shown, hshows.view_eq, hgrown.shown_of_ne (hid ▸ hother), view_shown]
    · obtain ⟨g, record, -, -, hlands, -, -, hshows⟩ := houtcome
      refine ⟨hshows.catalog_eq, hshows.backed, fun {id} hid => ?_⟩
      have hne : id ≠ record.page := by
        rintro rfl
        exact hother (hid.symm.trans hlands.1)
      rw [← view_shown, hshows.view_eq, View.shown_insert_of_ne hne, view_shown]
  refine ⟨by rw [hcatalog], ?_, hshown, hbacked.faithful table⟩
  unfold pageCount
  rw [hcatalog]
  cases hg : s.catalog.file table with
  | error cause => rfl
  | ok g =>
    have hname : g.name ≠ f.name := fun hname => hother (h.files _ _ _ _ hg hf hname)
    exact HeapFile.pageCount_congr (hedits.file_eq hname)

/-- A table over another file, when a file is changed through another database. -/
theorem Faithful.sameTable_disk (h : s.Faithful table) {disk : Disk}
    (hg : s.catalog.file table = .ok g) (hdisk : disk.file g.name = s.disk.file g.name) :
    s.SameTable { s with disk } table := by
  have hstored : ∀ {id : PageId}, id.table = table →
      ({ s with disk } : Store).stored id = s.stored id := by
    rintro id rfl
    rw [stored_eq (s := { s with disk }) id hg, stored_eq id hg]
    exact HeapFile.cells?_congr hdisk id
  have hshown : ∀ {id : PageId}, id.table = table →
      ({ s with disk } : Store).shown id = s.shown id := by
    intro id hid
    unfold shown
    rw [hstored hid]
  refine ⟨rfl, ?_, hshown, ⟨h.current.distinct, fun page hpage htable hclean cells hcells => ?_⟩,
    fun {id} hid hsome => ?_⟩
  · unfold pageCount
    rw [hg]
    exact HeapFile.pageCount_congr hdisk
  · rw [hstored htable] at hcells
    exact h.current.clean page hpage htable hclean cells hcells
  · rw [hstored hid]
    exact h.legible hid (hshown hid ▸ hsome)

end Store

namespace Engine

variable {e : Engine} {db other : Nat} {tx : TxId} {row : Tuple} {table : TableId}
  {f g : HeapFile}

/-- An insertion leaves the tables with other files as they are, whatever it comes to. -/
theorem sameTable_insertRow (h : (e.store db).Backed)
    (hf : (e.store db).catalog.file f.table = .ok f) (hrow : row.Complete) (hcount : f.Countable e.disk)
    (hg : (e.store other).catalog.file table = .ok g) (hname : g.name ≠ f.name)
    (hfaithful : (e.store other).Faithful table) :
    (e.store other).SameTable
      ((e.setStore db ((e.store db).insertRow tx f.table row).2).store other) table := by
  rcases e.store_setStore_cases db ((e.store db).insertRow tx f.table row).2 other with
    ⟨rfl, -, hstore⟩ | hstore <;> rw [hstore]
  · refine h.sameTable_insertRow hf hrow hcount ?_
    rintro rfl
    cases hf.symm.trans hg
    exact hname rfl
  · exact hfaithful.sameTable_disk hg ((Store.edits_insertRow hf tx row).file_eq hname)

end Engine

end Rowstore
