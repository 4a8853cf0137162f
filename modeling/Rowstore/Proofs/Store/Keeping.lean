import Mathlib
import Rowstore.Proofs.File.Places
import Rowstore.Proofs.Run.Action

/-!
# What operations keep

Every operation on a store is made of a few kinds of steps: a page is acquired, a row is stored in a
page of the pool or deleted from it, pages are marked and put back, pages leave the pool, holds
change, and files change but never become shorter. What each of these steps keeps, `Store.Stable`,
is kept by all operations, `Store.Stable.after`, whether they succeed or fail half-way.
-/

namespace Rowstore

namespace Store

variable {s t : Store} {tx : TxId} {id : PageId} {row : Tuple} {I : Store → Prop} {Q : Tuple → Prop}

/-- Something is kept by all steps that operations are made of, if the rows that are stored are of a
kind. -/
structure Stable (Q : Tuple → Prop) (I : Store → Prop) : Prop where
  acquire {s t : Store} {tx : TxId} {id : PageId} {page : Page} (h : I s)
    (hacquire : s.acquire tx id = .ok (page, t)) : I t
  insert {s : Store} {page page' : Page} {row : Tuple} {record : RecordId} (h : I s)
    (hpage : page ∈ s.pool.pages) (hrow : Q row) (hinsert : page.insert row = .ok (record, page')) :
    I (s.put page')
  delete {s : Store} {page page' : Page} {row : Tuple} (h : I s) (hpage : page ∈ s.pool.pages)
    (hdelete : page.delete row = .ok page') : I (s.put page')
  mark {s : Store} {page : Page} (tx : Option TxId) (h : I s) (hpage : page ∈ s.pool.pages) :
    I (s.put (page.mark tx))
  markDirty {s : Store} (tx : TxId) (id : PageId) (h : I s) : I (s.markDirty tx id)
  discard {s : Store} (id : PageId) (h : I s) : I (s.discard id)
  holds {s : Store} (holds : List (TxId × PageId)) (h : I s) :
    I { s with pool := { s.pool with holds } }
  disk {s : Store} {disk : Disk} (h : I s) (hextends : disk.Extends s.disk) : I { s with disk }

/-- A page that is given out is in the pool. -/
theorem mem_of_acquire {page : Page} (h : s.acquire tx id = .ok (page, t)) :
    page ∈ t.pool.pages := by
  rcases acquire_cases h with ⟨hpage, rfl⟩ | ⟨f, pool, -, -, -, hload, rfl⟩
  · exact (Pool.mem_of_page? hpage).1
  · show page ∈ pool.pages
    exact Pool.mem_of_load_self hload

/-- A page of the pool is put back under its number. -/
theorem mem_put {page page' : Page} (hpage : page ∈ s.pool.pages) (hid : page'.id = page.id) :
    page' ∈ (s.put page').pool.pages := by
  show page' ∈ (s.pool.modify page'.id fun _ => page').pages
  rw [Pool.pages_modify, List.mem_map]
  exact ⟨page, hpage, if_pos hid.symm⟩

/-- A page of the pool after one was put back. -/
theorem mem_of_mem_put {page page' : Page} (h : page ∈ (s.put page').pool.pages) :
    page = page' ∨ page ∈ s.pool.pages := by
  change page ∈ (s.pool.modify page'.id fun _ => page').pages at h
  rw [Pool.pages_modify, List.mem_map] at h
  obtain ⟨old, hold, rfl⟩ := h
  split_ifs
  · exact .inl rfl
  · exact .inr hold

/-- A page of the pool after one was marked. -/
theorem mem_of_mem_markDirty {page : Page} (h : page ∈ (s.markDirty tx id).pool.pages) :
    ∃ old ∈ s.pool.pages, page = old ∨ page = old.mark (some tx) := by
  change page ∈ (s.pool.modify id fun page => page.mark (some tx)).pages at h
  rw [Pool.pages_modify, List.mem_map] at h
  obtain ⟨old, hold, rfl⟩ := h
  refine ⟨old, hold, ?_⟩
  split_ifs
  · exact .inr rfl
  · exact .inl rfl

/-- A page that stays in the pool when one leaves it. -/
theorem mem_of_mem_discard {page : Page} (h : page ∈ (s.discard id).pool.pages) :
    page ∈ s.pool.pages := by
  change page ∈ (s.pool.discard id).pages at h
  rw [Pool.pages_discard] at h
  exact List.mem_of_mem_filter h

namespace Stable

section Operations

variable (hstable : Stable Q I)

include hstable

theorem release (h : I s) (tx : TxId) (id : PageId) : I (s.release tx id) := hstable.holds _ h

/-- A page that has taken a row is in the pool. -/
theorem insertIntoPage (h : I s) (hrow : Q row) (tx : TxId) (id : PageId) :
    I (s.insertIntoPage tx row id).2 ∧ ∀ page, (s.insertIntoPage tx row id).1 = .ok (some page) →
      page ∈ (s.insertIntoPage tx row id).2.pool.pages := by
  rcases s.insertIntoPage_cases tx row id with ⟨cause, -, heq⟩ | ⟨page, t, hacquire, hcases⟩
  · rw [heq]
    exact ⟨h, nofun⟩
  · have ht := hstable.acquire h hacquire
    have hpage := mem_of_acquire hacquire
    rcases hcases with ⟨-, heq⟩ | ⟨cause, -, -, heq⟩ | ⟨record, filled, -, hinsert, heq⟩
    · rw [heq]
      exact ⟨hstable.release ht tx id, nofun⟩
    · rw [heq]
      exact ⟨hstable.release ht tx id, nofun⟩
    · rw [heq]
      refine ⟨hstable.insert ht hpage hrow hinsert, ?_⟩
      rintro _ ⟨⟩
      exact mem_put hpage (Page.id_of_insert hinsert)

theorem insertFirstFit (h : I s) (hrow : Q row) (tx : TxId) (table : TableId)
    (first pages : Nat) : I (s.insertFirstFit tx row table first pages).2 := by
  induction pages generalizing s first with
  | zero => exact h
  | succ pages ih =>
    obtain ⟨hpage, -⟩ := hstable.insertIntoPage h hrow tx ⟨table, first⟩
    unfold Store.insertFirstFit
    generalize s.insertIntoPage tx row ⟨table, first⟩ = o at hpage ⊢
    obtain ⟨cause | (_ | stored), t⟩ := o
    · exact hpage
    · exact ih hpage (first + 1)
    · exact hpage

theorem insertIntoNewPage (h : I s) (hrow : Q row) (tx : TxId) (f : HeapFile) :
    I (s.insertIntoNewPage tx row f).2 := by
  unfold Store.insertIntoNewPage
  cases happend : f.appendPage s.disk with
  | error cause => exact h
  | ok added =>
    obtain ⟨new, disk⟩ := added
    obtain ⟨hpage, hmem⟩ := hstable.insertIntoPage
      (hstable.disk h (HeapFile.extends_of_appendPage happend)) hrow tx new
    dsimp only
    generalize { s with disk }.insertIntoPage tx row new = o at hpage hmem ⊢
    obtain ⟨cause | (_ | stored), t⟩ := o
    · exact hpage
    · exact hpage
    · simp only [Outcome.andThen_ok]
      cases hwrite : f.writePage t.disk stored with
      | error cause => exact hstable.release hpage tx new
      | ok written =>
        obtain ⟨clean, disk'⟩ := written
        obtain rfl := HeapFile.mark_of_writePage hwrite
        exact hstable.disk (hstable.mark none hpage (hmem stored rfl))
          (HeapFile.extends_of_writePage hwrite)

theorem insertWithin (h : I s) (hrow : Q row) (tx : TxId) (f : HeapFile) (rounds : Nat) :
    I (s.insertWithin tx row f rounds).2 := by
  induction rounds generalizing s with
  | zero => exact h
  | succ rounds ih =>
    unfold Store.insertWithin
    cases f.pageCount s.disk with
    | error cause => exact h
    | ok count =>
      have hfit := hstable.insertFirstFit h hrow tx f.table 0 count
      dsimp only
      generalize s.insertFirstFit tx row f.table 0 count = o at hfit ⊢
      obtain ⟨cause | (_ | found), t⟩ := o
      · exact hfit
      · have hnew := hstable.insertIntoNewPage hfit hrow tx f
        simp only [Outcome.andThen_ok]
        generalize t.insertIntoNewPage tx row f = o at hnew ⊢
        obtain ⟨cause | (_ | found), u⟩ := o
        · exact hnew
        · exact ih hnew
        · exact hnew
      · exact hfit

theorem insertRow (h : I s) (hrow : Q row) (tx : TxId) (table : TableId) :
    I (s.insertRow tx table row).2 := by
  unfold Store.insertRow insertIntoFile
  cases s.catalog.file table with
  | error cause => exact h
  | ok f =>
    dsimp only
    cases row.checkStorable f.schema with
    | error cause => exact h
    | ok u =>
      have hfile := hstable.insertWithin h hrow tx f (s.pool.frames.length + 1)
      dsimp only
      generalize s.insertWithin tx row f (s.pool.frames.length + 1) = o at hfile ⊢
      obtain ⟨cause | found, t⟩ := o
      · exact hfile
      · exact hstable.markDirty tx found hfile

theorem deleteRow (h : I s) (tx : TxId) (row : Tuple) : I (s.deleteRow tx row).2 := by
  unfold Store.deleteRow
  cases row.record with
  | none => exact h
  | some record =>
    dsimp only
    cases s.catalog.file record.page.table with
    | error cause => exact h
    | ok f =>
      dsimp only
      rcases s.deleteFromFile_cases tx f row with
        ⟨cause, heq⟩ | ⟨record, count, page, t, -, -, -, -, hacquire, hcases⟩
      · rw [heq]
        exact h
      · have ht := hstable.acquire h hacquire
        rcases hcases with ⟨cause, -, heq⟩ | ⟨left, hdelete, heq⟩
        · rw [heq]
          exact hstable.release ht tx record.page
        · rw [heq]
          exact hstable.markDirty tx record.page
            (hstable.delete ht (mem_of_acquire hacquire) hdelete)

theorem flushPage (h : I s) (hflush : s.flushPage id = .ok t) : I t := by
  rcases flushPage_cases hflush with ⟨rfl, -⟩ | ⟨rfl, -⟩ | ⟨f, page, disk, -, hpage, -, hwrite, rfl⟩
  · exact h
  · exact hstable.discard id h
  · exact hstable.disk (hstable.mark none h (Pool.mem_of_page? hpage).1)
      (HeapFile.extends_of_writePage hwrite)

theorem clears (h : I s) (hclears : s.Clears t) : I t := by
  induction hclears with
  | refl => exact h
  | tail _ hlast ih =>
    obtain ⟨id, rfl | hflush⟩ := hlast
    · exact hstable.discard id ih
    · exact hstable.flushPage ih hflush

theorem acquires (h : I s) (hacquires : Acquires tx s t) : I t := by
  induction hacquires with
  | refl => exact h
  | tail _ hlast ih =>
    obtain ⟨id, page, hacquire⟩ := hlast
    exact hstable.acquire ih hacquire

theorem appendPage (h : I s) (table : TableId) : I (s.appendPage table).2 := by
  unfold Store.appendPage
  cases s.catalog.file table with
  | error cause => exact h
  | ok f =>
    simp only [Bind.bind, Except.bind]
    cases happend : f.appendPage s.disk with
    | error cause => exact h
    | ok added => exact hstable.disk h (HeapFile.extends_of_appendPage happend)

end Operations

/-- What the steps keep whatever is stored, they keep when the rows are of a kind. -/
theorem of_any (hstable : Stable (fun _ => True) I) : Stable Q I :=
  { hstable with insert := fun h hpage _ hinsert => hstable.insert h hpage trivial hinsert }

/-- Two things that are kept are kept together. -/
theorem and {J : Store → Prop} (hI : Stable Q I) (hJ : Stable Q J) :
    Stable Q fun s => I s ∧ J s where
  acquire h hacquire := ⟨hI.acquire h.1 hacquire, hJ.acquire h.2 hacquire⟩
  insert h hpage hrow hinsert :=
    ⟨hI.insert h.1 hpage hrow hinsert, hJ.insert h.2 hpage hrow hinsert⟩
  delete h hpage hdelete := ⟨hI.delete h.1 hpage hdelete, hJ.delete h.2 hpage hdelete⟩
  mark tx h hpage := ⟨hI.mark tx h.1 hpage, hJ.mark tx h.2 hpage⟩
  markDirty tx id h := ⟨hI.markDirty tx id h.1, hJ.markDirty tx id h.2⟩
  discard id h := ⟨hI.discard id h.1, hJ.discard id h.2⟩
  holds _ h := ⟨hI.holds _ h.1, hJ.holds _ h.2⟩
  disk h hextends := ⟨hI.disk h.1 hextends, hJ.disk h.2 hextends⟩

/-- What is kept by the steps is kept by every operation. -/
theorem after (hstable : Stable Tuple.Complete I) (h : I s) (a : Action) : I (s.after a) := by
  show I (s.perform a).2
  cases a with
  | acquire tx id =>
    show I (Outcome.ofExcept s _).2
    cases hacquire : s.acquire tx id with
    | error cause => exact h
    | ok given => exact hstable.acquire h hacquire
  | release tx id => exact hstable.release h tx id
  | insert tx table row complete => exact hstable.insertRow h complete tx table
  | delete tx row => exact hstable.deleteRow h tx row
  | flush id =>
    show I (Outcome.ofExcept s _).2
    cases hflush : s.flushPage id with
    | error cause => exact h
    | ok t => exact hstable.flushPage h hflush
  | flushAll => exact hstable.clears h (s.clears_flushPages _)
  | discard id => exact hstable.discard id h
  | complete tx commit => exact hstable.clears (hstable.holds _ h) (s.clears_complete tx commit)
  | append table => exact hstable.appendPage h table
  | scan scan move => exact hstable.acquires h (s.acquires_moveScan scan move)

end Stable

/-- No operation changes the tables. -/
theorem stable_catalog (c : Catalog) : Stable (fun _ => True) fun s => s.catalog = c where
  acquire h hacquire := by rw [eq_of_acquire hacquire]; exact h
  insert h _ _ _ := h
  delete h _ _ := h
  mark _ h _ := h
  markDirty _ _ h := h
  discard _ h := h
  holds _ h := h
  disk h _ := h

section Catalog

variable (s : Store) (tx : TxId) (row : Tuple)

theorem catalog_insertIntoPage (id : PageId) :
    (s.insertIntoPage tx row id).2.catalog = s.catalog :=
  ((stable_catalog s.catalog).insertIntoPage rfl trivial tx id).1

theorem catalog_insertFirstFit (table : TableId) (first pages : Nat) :
    (s.insertFirstFit tx row table first pages).2.catalog = s.catalog :=
  (stable_catalog s.catalog).insertFirstFit rfl trivial tx table first pages

theorem catalog_insertIntoNewPage (f : HeapFile) :
    (s.insertIntoNewPage tx row f).2.catalog = s.catalog :=
  (stable_catalog s.catalog).insertIntoNewPage rfl trivial tx f

theorem catalog_insertRow (table : TableId) : (s.insertRow tx table row).2.catalog = s.catalog :=
  (stable_catalog s.catalog).insertRow rfl trivial tx table

theorem catalog_after (a : Action) : (s.after a).catalog = s.catalog :=
  (stable_catalog s.catalog).of_any.after rfl a

end Catalog

end Store

end Rowstore
