import Mathlib
import Rowstore.Proofs.File.Pages
import Rowstore.Store

/-!
# What a store shows

A store, seen page by page: the cells that its file holds, the cells that a reader gets, and the
transaction that changed it last. A reader gets the page from the pool if it is there and else from
the file, `Store.view`.

The operations on a store are few when they are seen so. Most change nothing; `View.change` changes
what is shown, `View.save` what is stored as well, and a transaction ends with `View.commit` or
`View.abort`.
-/

namespace Rowstore

/-- What is stored and shown of the pages, and which transactions have changed them. -/
@[ext] structure View where
  /-- The cells of a page on the disk. -/
  stored : PageId → Option (List (Option Row))
  /-- The cells of a page as a reader gets them. -/
  shown : PageId → Option (List (Option Row))
  /-- The transaction that changed a page last, until the page is written or given up. -/
  mark : PageId → Option TxId

namespace View

variable (v : View) (id : PageId) (cells : Option (List (Option Row))) (tx : TxId)

/-- A page is changed in memory. -/
def change (mark : Option TxId) : View where
  stored := v.stored
  shown := Function.update v.shown id cells
  mark := Function.update v.mark id mark

/-- A page is changed on the disk and in memory. -/
def save (mark : Option TxId) : View where
  stored := Function.update v.stored id cells
  shown := Function.update v.shown id cells
  mark := Function.update v.mark id mark

/-- A page is changed on the disk and in memory without being marked. -/
def grow : View := v.save id cells (v.mark id)

@[simp] theorem stored_change (mark : Option TxId) :
    (v.change id cells mark).stored = v.stored := rfl

@[simp] theorem shown_change (mark : Option TxId) :
    (v.change id cells mark).shown = Function.update v.shown id cells := rfl

@[simp] theorem mark_change (mark : Option TxId) :
    (v.change id cells mark).mark = Function.update v.mark id mark := rfl

@[simp] theorem stored_save (mark : Option TxId) :
    (v.save id cells mark).stored = Function.update v.stored id cells := rfl

@[simp] theorem shown_save (mark : Option TxId) :
    (v.save id cells mark).shown = Function.update v.shown id cells := rfl

@[simp] theorem mark_save (mark : Option TxId) :
    (v.save id cells mark).mark = Function.update v.mark id mark := rfl

@[simp] theorem stored_grow : (v.grow id cells).stored = Function.update v.stored id cells := rfl

@[simp] theorem shown_grow : (v.grow id cells).shown = Function.update v.shown id cells := rfl

@[simp] theorem mark_grow : (v.grow id cells).mark = v.mark := Function.update_eq_self _ _

/-- A page is written. -/
def flush : View := v.save id (v.shown id) none

/-- A page is given up. -/
def drop : View := v.change id (v.stored id) none

/-- Some of the pages are written. -/
def flushOn (p : PageId → Prop) [DecidablePred p] : View where
  stored := fun id => if p id then v.shown id else v.stored id
  shown := v.shown
  mark := fun id => if p id then none else v.mark id

/-- Some of the pages are given up. -/
def dropOn (p : PageId → Prop) [DecidablePred p] : View where
  stored := v.stored
  shown := fun id => if p id then v.stored id else v.shown id
  mark := fun id => if p id then none else v.mark id

/-- The pages that a transaction changed last are written. -/
def commit : View := v.flushOn fun id => v.mark id = some tx

/-- The pages that a transaction changed last are given up. -/
def abort : View := v.dropOn fun id => v.mark id = some tx

theorem flushOn_congr {p q : PageId → Prop} [DecidablePred p] [DecidablePred q]
    (h : ∀ id, p id ↔ q id) : v.flushOn p = v.flushOn q := by simp only [flushOn, h]

theorem dropOn_congr {p q : PageId → Prop} [DecidablePred p] [DecidablePred q]
    (h : ∀ id, p id ↔ q id) : v.dropOn p = v.dropOn q := by simp only [dropOn, h]

theorem flush_eq_flushOn : v.flush id = v.flushOn fun other => other = id := by
  refine View.ext (funext fun other => ?_) (funext fun other => ?_) (funext fun other => ?_)
  all_goals
    by_cases hid : other = id
    · subst hid
      simp [flushOn, flush, save]
    · simp [flushOn, flush, save, hid]

theorem drop_eq_dropOn : v.drop id = v.dropOn fun other => other = id := by
  refine View.ext (funext fun other => ?_) (funext fun other => ?_) (funext fun other => ?_)
  all_goals
    by_cases hid : other = id
    · subst hid
      simp [dropOn, drop, change]
    · simp [dropOn, drop, change, hid]

theorem flush_flushOn (ids : List PageId) :
    (v.flush id).flushOn (· ∈ ids) = v.flushOn (· ∈ id :: ids) := by
  refine View.ext (funext fun other => ?_) (funext fun other => ?_) (funext fun other => ?_)
  all_goals
    by_cases hid : other = id
    · subst hid
      simp [flushOn, flush, save]
    · simp [flushOn, flush, save, hid]

/-- Pages are written one after another. -/
theorem foldl_flush (ids : List PageId) : ids.foldl flush v = v.flushOn (· ∈ ids) := by
  induction ids generalizing v with
  | nil => simp [flushOn]
  | cons id ids ih => rw [List.foldl_cons, ih, flush_flushOn]

theorem drop_dropOn (ids : List PageId) :
    (v.drop id).dropOn (· ∈ ids) = v.dropOn (· ∈ id :: ids) := by
  refine View.ext (funext fun other => ?_) (funext fun other => ?_) (funext fun other => ?_)
  all_goals
    by_cases hid : other = id
    · subst hid
      simp [dropOn, drop, change]
    · simp [dropOn, drop, change, hid]

/-- Pages are given up one after another. -/
theorem foldl_drop (ids : List PageId) : ids.foldl drop v = v.dropOn (· ∈ ids) := by
  induction ids generalizing v with
  | nil => simp [dropOn]
  | cons id ids ih => rw [List.foldl_cons, ih, drop_dropOn]

/-- A page that is not marked is shown as it is stored. -/
def Clean : Prop := ∀ id, v.mark id = none → v.shown id = v.stored id

variable {v id}

theorem Clean.flush_eq (h : v.Clean) (hmark : v.mark id = none) : v.flush id = v := by
  rw [flush, save, h id hmark, Function.update_eq_self, ← h id hmark, Function.update_eq_self,
    ← hmark, Function.update_eq_self]

end View

namespace Store

variable (s : Store) (id : PageId)

/-- The cells of a page on the disk. -/
def stored : Option (List (Option Row)) :=
  (s.catalog.file id.table).toOption.bind fun f => f.cells? s.disk id

/-- The cells of a page as a reader gets them. -/
def shown : Option (List (Option Row)) :=
  match s.pool.page? id with
  | some page => some page.cells
  | none => s.stored id

/-- The transaction that changed a page of the pool last. -/
def mark : Option TxId := (s.pool.page? id).bind Page.dirtiedBy

/-- What the store shows of its pages. -/
def view : View := ⟨s.stored, s.shown, s.mark⟩

variable {s id}

@[simp] theorem view_stored : s.view.stored = s.stored := rfl

@[simp] theorem view_shown : s.view.shown = s.shown := rfl

@[simp] theorem view_mark : s.view.mark = s.mark := rfl

theorem stored_eq (id : PageId) {f : HeapFile} (h : s.catalog.file id.table = .ok f) :
    s.stored id = f.cells? s.disk id := by rw [stored, h]; rfl

theorem shown_of_page? {page : Page} (h : s.pool.page? id = some page) :
    s.shown id = some page.cells := by rw [shown, h]

theorem shown_of_none (h : s.pool.page? id = none) : s.shown id = s.stored id := by rw [shown, h]

theorem mark_of_page? {page : Page} (h : s.pool.page? id = some page) :
    s.mark id = page.dirtiedBy := by rw [mark, h]; rfl

theorem mark_of_none (h : s.pool.page? id = none) : s.mark id = none := by rw [mark, h]; rfl

/-- Only pages in memory are marked. -/
theorem isSome_of_mark {tx : TxId} (h : s.mark id = some tx) : (s.pool.page? id).isSome := by
  obtain ⟨page, hpage, -⟩ := Option.bind_eq_some_iff.1 h
  rw [hpage]
  rfl

/-- What is stored depends on the tables and the disk. -/
theorem stored_congr {t : Store} (hcatalog : t.catalog = s.catalog) (hdisk : t.disk = s.disk) :
    t.stored = s.stored := by
  funext id
  rw [stored, stored, hcatalog, hdisk]

/-- The view depends on the tables, the disk and the pages of the pool. -/
theorem view_congr {t : Store} (hcatalog : t.catalog = s.catalog) (hdisk : t.disk = s.disk)
    (hpage : ∀ id, t.pool.page? id = s.pool.page? id) : t.view = s.view := by
  have hstored := stored_congr hcatalog hdisk
  refine View.ext hstored (funext fun id => ?_) (funext fun id => ?_)
  · simp only [view_shown, shown, hpage, hstored]
  · simp only [view_mark, mark, hpage]

/-- Two stores that differ in one page show the other pages alike. -/
theorem view_eq_of_page {t : Store}
    (hstored : ∀ other, other ≠ id → t.stored other = s.stored other)
    (hpage : ∀ other, other ≠ id → t.pool.page? other = s.pool.page? other) :
    t.view = ⟨Function.update s.stored id (t.stored id), Function.update s.shown id (t.shown id),
      Function.update s.mark id (t.mark id)⟩ := by
  have hupdate : ∀ {α : Type} (f g : PageId → α), (∀ other, other ≠ id → g other = f other) →
      g = Function.update f id (g id) := fun f g hsame => by
    funext other
    by_cases hid : other = id
    · rw [hid, Function.update_self]
    · rw [Function.update_of_ne hid, hsame other hid]
  refine View.ext (hupdate _ _ hstored) (hupdate _ _ fun other hid => ?_)
    (hupdate _ _ fun other hid => ?_)
  · simp only [view_shown, shown, hpage other hid, hstored other hid]
  · simp only [view_mark, mark, hpage other hid]

/-! ### Pages of a table -/

section WholePages

variable {s t : Store} {table : TableId} {f : HeapFile}

/-- The count of whole pages in the file of a table. -/
def wholePages (s : Store) (table : TableId) : Nat :=
  ((s.catalog.file table).toOption.map fun f => f.wholePages s.disk).getD 0

theorem wholePages_eq (hf : s.catalog.file table = .ok f) :
    s.wholePages table = f.wholePages s.disk := by rw [wholePages, hf]; rfl

theorem wholePages_congr (hcatalog : t.catalog = s.catalog) (hdisk : t.disk = s.disk) :
    t.wholePages = s.wholePages := by
  funext table
  rw [wholePages, wholePages, hcatalog, hdisk]

end WholePages

end Store

namespace Catalog

/-- The file of a table is one of that table. -/
theorem table_of_file {c : Catalog} {id : TableId} {f : HeapFile} (h : c.file id = .ok f) :
    f.table = id := by
  unfold file table at h
  split at h
  · rename_i t ht
    cases h
    simpa using List.find?_some ht
  · cases h

/-- A table has no file only if it is not registered. -/
theorem file_eq_error_iff {c : Catalog} {id : TableId} {cause : DbError} :
    c.file id = .error cause ↔ (∀ f, c.file id ≠ .ok f) ∧ cause = .tableNotFound id := by
  unfold file table
  cases c.tables.find? fun t => t.file.table = id with
  | none => exact ⟨fun h => ⟨nofun, (Except.error.inj h).symm⟩, fun h => h.2 ▸ rfl⟩
  | some t => exact ⟨nofun, fun h => absurd rfl (h.1 t.file)⟩

/-- No two tables share a file. -/
def DistinctFiles (c : Catalog) : Prop :=
  ∀ a b f g, c.file a = .ok f → c.file b = .ok g → f.name = g.name → a = b

end Catalog

end Rowstore
