import Mathlib
import Rowstore.Mutation
import Rowstore.Proofs.Page.Slots
import Rowstore.Proofs.Store.Paging

/-!
# Altering pages

An insertion alters a page in the pool first, and marks it last; in between the invariant of the
store does not hold. `Store.Alters` describes such a store by the one before it. From there the
invariant holds again when the page is marked, `Store.Alters.markDirty`, also with the page written
before that, `Store.Alters.persist`.

The pages of a file are tried in order: `Store.Backed.insertFirstFit` finds the first that has a
free slot and puts the row there, or finds that all of them are full.
-/

namespace Rowstore

namespace Store

variable {s t u : Store} {tx : TxId} {row : Tuple} {table : TableId} {id : PageId} {f : HeapFile}

/-- The page has no free slot. -/
def Full (s : Store) (id : PageId) : Prop :=
  ∃ cells, s.shown id = some cells ∧ Page.freeSlot? cells = none

theorem full_iff : s.Full id ↔ (s.shown id).map Page.freeSlot? = some none :=
  Option.map_eq_some_iff.symm

instance (s : Store) (id : PageId) : Decidable (s.Full id) := decidable_of_iff' _ full_iff

/-! ### A page that is changed but not marked yet -/

/-- A page was put into the pool in the place of one that is there. -/
def Alters (s t : Store) (page : Page) : Prop :=
  ∃ r old f, s.Stays r ∧ r.pool.page? page.id = some old ∧ t = r.put page ∧
    s.catalog.file page.id.table = .ok f ∧ f.Holds s.disk page

theorem Stays.alters {page : Page} (h : s.Stays t) (h' : t.Alters u page) : s.Alters u page := by
  obtain ⟨r, old, f, hstays, hold, rfl, hf, hholds⟩ := h'
  exact ⟨r, old, f, h.trans hstays, hold, rfl, h.1.catalog_eq ▸ hf, h.2 ▸ hholds⟩

theorem Alters.disk_eq {page : Page} (h : s.Alters t page) : t.disk = s.disk := by
  obtain ⟨r, old, f, hstays, -, rfl, -⟩ := h
  exact hstays.2

theorem page?_markDirty (s : Store) (tx : TxId) (id other : PageId) :
    (s.markDirty tx id).pool.page? other =
      if other = id then (s.pool.page? id).map fun page => page.mark (some tx)
      else s.pool.page? other :=
  Pool.page?_modify id other fun _ hid => hid

theorem page?_put (s : Store) (page : Page) (other : PageId) :
    (s.put page).pool.page? other =
      if other = page.id then (s.pool.page? page.id).map fun _ => page
      else s.pool.page? other :=
  Pool.page?_put page other

theorem distinct_markDirty (h : s.pool.Distinct) (tx : TxId) (id : PageId) :
    (s.markDirty tx id).pool.Distinct := h.modify id fun _ hid => hid

/-- Marking a page of the pool. -/
theorem Backed.markDirty (h : s.Backed) {page : Page} (hpage : s.pool.page? id = some page) :
    s.Shows (s.markDirty tx id) (s.view.change id (some page.cells) (some tx)) := by
  obtain rfl := (Pool.mem_of_page? hpage).2
  obtain ⟨f, hf, hholds, -⟩ := h.cached hpage
  have hback : s.Backs (page.mark (some tx)) := ⟨f, hf, hholds.mark (some tx), nofun⟩
  have hother : ∀ other, other ≠ page.id →
      (s.markDirty tx page.id).pool.page? other = s.pool.page? other := fun other hne => by
    rw [page?_markDirty, if_neg hne]
  obtain ⟨hbacked, hview⟩ := h.replace (t := s.markDirty tx page.id) rfl rfl
    (distinct_markDirty h.pages tx page.id) hback (h.legible hpage)
    (by rw [page?_markDirty, Page.id_mark, if_pos rfl, hpage]; rfl) hother
  exact ⟨rfl, hbacked, fun hread => hread, hview⟩

/-- The changed page is marked. -/
theorem Alters.markDirty {page : Page} (h : s.Alters t page) :
    s.Shows (t.markDirty tx page.id) (s.view.change page.id (some page.cells) (some tx)) := by
  obtain ⟨r, old, f, ⟨hshows, hdisk⟩, hold, rfl, hf, hholds⟩ := h
  have hbacked := hshows.backed
  have hback : r.Backs (page.mark (some tx)) :=
    ⟨f, hshows.catalog_eq ▸ hf, hdisk ▸ hholds.mark (some tx), nofun⟩
  have hother : ∀ other, other ≠ page.id →
      ((r.put page).markDirty tx page.id).pool.page? other = r.pool.page? other :=
    fun other hne => by simp only [page?_markDirty, page?_put, if_neg hne]
  obtain ⟨hbacked', hview⟩ := hbacked.replace (t := (r.put page).markDirty tx page.id) rfl rfl
    (distinct_markDirty (hbacked.pages.put page) tx page.id) hback (hbacked.legible hold)
    (by rw [page?_markDirty, page?_put, Page.id_mark, if_pos rfl, if_pos rfl, hold]; rfl) hother
  rw [hshows.view_eq] at hview
  exact ⟨hshows.catalog_eq, hbacked', hshows.readable, hview⟩

/-- The changed page is written, and then marked. -/
theorem Alters.persist (tx : TxId) {page : Page} (h : s.Alters t page)
    (hf : s.catalog.file page.id.table = .ok f) :
    ∃ disk, f.writePage t.disk page = .ok (page.mark none, disk) ∧
      f.Writes s.disk disk page.id page.cells ∧ f.Has s.disk page.id.number ∧
      s.Shows
        (({ t with disk, pool := t.pool.put (page.mark none) } : Store).markDirty tx page.id)
        (s.view.save page.id (some page.cells) (some tx)) := by
  obtain ⟨r, old, g, ⟨hshows, hdisk⟩, hold, rfl, hg, hholds⟩ := h
  cases hf.symm.trans hg
  have hholds' : f.Holds r.disk page := hdisk ▸ hholds
  have hf' : r.catalog.file page.id.table = .ok f := hshows.catalog_eq ▸ hf
  have hput : ∀ other, ((r.pool.put page).put (page.mark none)).page? other =
      if other = page.id then some (page.mark none) else r.pool.page? other := by
    intro other
    rw [Pool.page?_put, Page.id_mark, Pool.page?_put, Pool.page?_put, if_pos rfl, hold]
    split_ifs <;> rfl
  obtain ⟨disk, hwrite, hwrites⟩ := HeapFile.writePage_eq_ok hholds'
  let u : Store := { r with disk, pool := (r.pool.put page).put (page.mark none) }
  have hself : u.pool.page? page.id = some (page.mark none) := by rw [hput, if_pos rfl]
  obtain ⟨hbacked, hview⟩ := hshows.backed.write_page (t := u) rfl hf' hwrites
    ((hshows.backed.pages.put page).put _) hholds' hself fun other hne => by rw [hput, if_neg hne]
  have hread : r.Readable → u.Readable := hshows.backed.readable_of_writes rfl hf' hwrites
  have hmark : u.Shows (u.markDirty tx page.id)
      (u.view.change page.id (some (page.mark none).cells) (some tx)) := hbacked.markDirty hself
  refine ⟨disk, hwrite, hdisk ▸ hwrites, hholds.has, hshows.catalog_eq, hmark.backed,
    hmark.readable ∘ hread ∘ hshows.readable, hmark.view_eq.trans ?_⟩
  rw [hview, hshows.view_eq]
  simp only [View.save, View.change, Function.update_idem, Page.cells_mark]

/-! ### Trying the pages of a file -/

/-- A row was put into the first free slot of a page, which is still to be marked. -/
def Fills (s t : Store) (row : Tuple) (page : Page) : Prop :=
  s.Alters t page ∧ ∃ cells slot, s.shown page.id = some cells ∧
    Page.freeSlot? cells = some slot ∧
    page.cells = cells.set slot (some (row.rowAt ⟨page.id, slot⟩))

theorem Stays.fills {page : Page} (h : s.Stays t) (h' : t.Fills u row page) :
    s.Fills u row page := by
  obtain ⟨halters, cells, slot, hshown, hrest⟩ := h'
  exact ⟨h.alters halters, cells, slot, h.shown_eq ▸ hshown, hrest⟩

theorem Stays.full (h : s.Stays t) (h' : t.Full id) : s.Full id := by
  obtain ⟨cells, hshown, hfull⟩ := h'
  exact ⟨cells, h.shown_eq ▸ hshown, hfull⟩

/-- What storing a row in a page comes to. -/
def PageOutcome (s : Store) (tx : TxId) (row : Tuple) (id : PageId) :
    Outcome Store (Option Page) → Prop
  | (.error _, t) => s.Stays t
  | (.ok none, t) => s.Stays t ∧ s.Full id
  | (.ok (some page), t) => page.id = id ∧ s.Fills t row page ∧ t.pool.isHeldBy tx id = true

/-- A page takes the row in its first free slot, or is full, or nothing changes. -/
theorem Backed.insertIntoPage (h : s.Backed) (hrow : row.Complete) :
    s.PageOutcome tx row id (s.insertIntoPage tx row id) := by
  rcases s.insertIntoPage_cases tx row id with ⟨cause, -, heq⟩ | ⟨page, r, hacquire, hcases⟩
  · rw [heq]
    exact h.stays_self
  obtain ⟨hstays, hpage⟩ := h.acquire hacquire
  have hheld := isHeldBy_of_acquire hacquire
  have hrelease := hstays.trans (hstays.1.backed.release tx id)
  have hshown : s.shown id = some page.cells := by
    rw [← hstays.shown_eq, shown_of_page? hpage]
  obtain ⟨f, hf, hholds, -⟩ := hstays.1.backed.cached hpage
  obtain rfl := (Pool.mem_of_page? hpage).2
  rcases hcases with ⟨hfull, heq⟩ | ⟨cause, -, -, heq⟩ | ⟨record, filled, -, hinsert, heq⟩
  · rw [heq]
    exact ⟨hrelease, _, hshown, hholds.sound.freeCount_eq_zero_iff.1 hfull⟩
  · rw [heq]
    exact hrelease
  · obtain ⟨hsound, hid, hschema, hsize, hrecord, hslot, hcells⟩ :=
      hholds.sound.insert_eq_ok hrow hinsert
    obtain ⟨recordPage, slot⟩ := record
    cases hrecord
    rw [heq]
    refine ⟨hid, ⟨⟨r, page, f, hstays, hid ▸ hpage, rfl, ?_, ?_⟩, page.cells, slot, ?_, hslot, ?_⟩,
      hheld⟩
    · rw [hid, ← hstays.1.catalog_eq, hf]
    · exact ⟨hsound, hschema.trans hholds.schema_eq, hsize.trans hholds.size_eq,
        hid ▸ hholds.addresses, hid ▸ hstays.2 ▸ hholds.has⟩
    · rw [hid, hshown]
    · rw [hid, hcells]

/-- What trying so many pages of a table comes to, from a number on. -/
def FitOutcome (s : Store) (tx : TxId) (row : Tuple) (table : TableId) (first pages : Nat) :
    Outcome Store (Option PageId) → Prop
  | (.error _, t) => s.Stays t
  | (.ok none, t) => s.Stays t ∧ ∀ n, first ≤ n → n < first + pages → s.Full ⟨table, n⟩
  | (.ok (some id), t) => id.table = table ∧
      (∀ n, first ≤ n → n < id.number → s.Full ⟨table, n⟩) ∧ id.number < first + pages ∧
      t.pool.isHeldBy tx id = true ∧ ∃ page, page.id = id ∧ s.Fills t row page

/-- The first page with a free slot takes the row. -/
theorem Backed.insertFirstFit (h : s.Backed) (hrow : row.Complete) (first pages : Nat) :
    s.FitOutcome tx row table first pages (s.insertFirstFit tx row table first pages) := by
  induction pages generalizing s first with
  | zero => exact ⟨h.stays_self, fun n hle hlt => by omega⟩
  | succ pages ih =>
    have hpage : s.PageOutcome tx row ⟨table, first⟩ (s.insertIntoPage tx row ⟨table, first⟩) :=
      h.insertIntoPage hrow
    unfold Store.insertFirstFit
    generalize s.insertIntoPage tx row ⟨table, first⟩ = o at hpage ⊢
    obtain ⟨cause | _ | page, t⟩ := o
    · exact hpage
    · obtain ⟨hstays, hfull⟩ := hpage
      have hfirst : ∀ n, first ≤ n → ¬ first + 1 ≤ n → s.Full ⟨table, n⟩ := fun n hle hlt => by
        rwa [show n = first by omega]
      have hrest := ih hstays.1.backed (first + 1)
      simp only [Outcome.andThen_ok]
      generalize t.insertFirstFit tx row table (first + 1) pages = o at hrest ⊢
      obtain ⟨cause | _ | id, u⟩ := o
      · exact hstays.trans hrest
      · refine ⟨hstays.trans hrest.1, fun n hle hlt => ?_⟩
        by_cases hn : first + 1 ≤ n
        · exact hstays.full (hrest.2 n hn (by omega))
        · exact hfirst n hle hn
      · obtain ⟨htable, hbefore, hnumber, hheld, page, hid, hfills⟩ := hrest
        refine ⟨htable, fun n hle hlt => ?_, by omega, hheld, page, hid, hstays.fills hfills⟩
        by_cases hn : first + 1 ≤ n
        · exact hstays.full (hbefore n hn hlt)
        · exact hfirst n hle hn
    · obtain ⟨hid, hfills, hheld⟩ := hpage
      have hnumber : page.id.number < first + (pages + 1) := by
        rw [hid]
        exact Nat.lt_add_of_pos_right (Nat.succ_pos pages)
      rw [← hid] at hheld
      refine ⟨by rw [hid], fun n hle hlt => ?_, hnumber, hheld, page, rfl, hfills⟩
      rw [hid] at hlt
      exact absurd hlt (Nat.not_lt.2 hle)

end Store

end Rowstore
