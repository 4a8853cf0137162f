import Mathlib
import Rowstore.Proofs.Pool.Lookup
import Rowstore.Proofs.Store.View

/-!
# Sound stores

The invariant of a store, `Store.Backed`: tables have files of their own, no page is in the pool
twice, and a page of the pool belongs to a table's file, where it can be read, with the same cells
unless it is marked. The files may have pages that cannot be read. If they have none, the store is
sound: `Store.Sound`.

What is stored and shown in such a store is about the same pages, and the same unless it is marked.
Writing a page keeps the invariant, and changes what is stored there and nowhere else:
`Store.Backed.write`.
-/

namespace Rowstore

namespace Store

variable {s t : Store} {id : PageId} {f : HeapFile}

/-- A page belongs to a table's file, and is stored there as it is unless it is marked. -/
def Backs (s : Store) (page : Page) : Prop :=
  ∃ f, s.catalog.file page.id.table = .ok f ∧ f.Holds s.disk page ∧
    (page.dirtiedBy = none → f.cells? s.disk page.id = some page.cells)

/-- No page in memory has changes that the disk has not. -/
def AllClean (s : Store) : Prop := ∀ page ∈ s.pool.pages, page.dirtiedBy = none

instance (s : Store) : Decidable s.AllClean :=
  inferInstanceAs (Decidable (∀ page ∈ s.pool.pages, page.dirtiedBy = none))

/-- The whole pages of the files can be read. -/
def Readable (s : Store) : Prop :=
  ∀ (id : PageId) {f : HeapFile}, s.catalog.file id.table = .ok f →
    f.Has s.disk id.number → ∃ cells, f.cells? s.disk id = some cells

/-- What holds of a store at all times, whatever its files hold. -/
structure Backed (s : Store) : Prop where
  files : s.catalog.DistinctFiles
  pages : s.pool.Distinct
  cached : ∀ {id : PageId} {page : Page}, s.pool.page? id = some page → s.Backs page
  legible : ∀ {id : PageId} {page : Page}, s.pool.page? id = some page → (s.stored id).isSome

/-- What holds of a store at all times. -/
structure Sound (s : Store) : Prop where
  files : s.catalog.DistinctFiles
  pages : s.pool.Distinct
  readable : ∀ (id : PageId) {f : HeapFile}, s.catalog.file id.table = .ok f →
    f.Has s.disk id.number → ∃ cells, f.cells? s.disk id = some cells
  cached : ∀ {id : PageId} {page : Page}, s.pool.page? id = some page → s.Backs page

/-- A page of a table that is not registered is not stored. -/
theorem stored_eq_none (hf : ∀ f, s.catalog.file id.table ≠ .ok f) : s.stored id = none := by
  unfold stored
  cases hfile : s.catalog.file id.table with
  | error cause => rfl
  | ok f => exact absurd hfile (hf f)

/-- A page that is stored is a page of its file. -/
theorem has_of_stored (hf : s.catalog.file id.table = .ok f) (hstored : (s.stored id).isSome) :
    f.Has s.disk id.number := by
  obtain ⟨cells, hcells⟩ := Option.isSome_iff_exists.1 hstored
  rw [stored_eq _ hf] at hcells
  obtain ⟨page, hread, -⟩ := HeapFile.cells?_eq_some_iff.1 hcells
  exact (HeapFile.readPage_eq_ok_iff.1 hread).2.1

/-- If whole pages can be read, the pages of the files are those that are stored. -/
theorem Readable.stored_isSome_iff (h : s.Readable) (id : PageId)
    (hf : s.catalog.file id.table = .ok f) : (s.stored id).isSome ↔ f.Has s.disk id.number := by
  refine ⟨has_of_stored hf, fun hhas => ?_⟩
  rw [stored_eq _ hf, Option.isSome_iff_exists]
  exact h _ hf hhas

namespace Backed

/-! ### What is stored and shown -/

/-- Nothing is marked exactly if every page in memory is clean. -/
theorem allClean_iff (h : s.Backed) : s.AllClean ↔ ∀ id, s.mark id = none := by
  constructor
  · intro hclean id
    cases hpage : s.pool.page? id with
    | none => exact mark_of_none hpage
    | some page =>
      rw [mark_of_page? hpage]
      exact hclean page (Pool.mem_of_page? hpage).1
  · intro hmark page hpage
    rw [← mark_of_page? (h.pages.page?_of_mem hpage)]
    exact hmark page.id

/-- A page is shown when it is stored. -/
theorem shown_isSome_iff (h : s.Backed) : (s.shown id).isSome ↔ (s.stored id).isSome := by
  cases hpage : s.pool.page? id with
  | none => rw [shown_of_none hpage]
  | some page => simp [shown_of_page? hpage, h.legible hpage]

theorem shown_eq_none_iff (h : s.Backed) : s.shown id = none ↔ s.stored id = none := by
  simpa using not_congr h.shown_isSome_iff

/-- A page that is shown is a page of its table's file. -/
theorem exists_page (h : s.Backed) {cells : List (Option Row)} (hshown : s.shown id = some cells) :
    ∃ f page, s.catalog.file id.table = .ok f ∧ f.Holds s.disk page ∧ page.id = id ∧
      page.cells = cells := by
  cases hpage : s.pool.page? id with
  | some page =>
    obtain ⟨f, hf, hholds, -⟩ := h.cached hpage
    obtain rfl := (Pool.mem_of_page? hpage).2
    cases (shown_of_page? hpage).symm.trans hshown
    exact ⟨f, page, hf, hholds, rfl, rfl⟩
  | none =>
    rw [shown_of_none hpage] at hshown
    by_cases hf : ∃ f, s.catalog.file id.table = .ok f
    · obtain ⟨f, hf⟩ := hf
      rw [stored_eq _ hf] at hshown
      obtain ⟨page, hread, hcells⟩ := HeapFile.cells?_eq_some_iff.1 hshown
      obtain ⟨hholds, hid, -⟩ := HeapFile.holds_of_readPage hread
      exact ⟨f, page, hf, hholds, hid, hcells⟩
    · rw [stored_eq_none (not_exists.1 hf)] at hshown
      cases hshown

/-- A page has as many cells as the layout of its file gives. -/
theorem length_shown (h : s.Backed) (id : PageId) (hf : s.catalog.file id.table = .ok f)
    {cells : List (Option Row)} (hshown : s.shown id = some cells) :
    cells.length = slotCount f.pageSize f.schema.size := by
  obtain ⟨g, page, hg, hholds, -, rfl⟩ := h.exists_page hshown
  cases hf.symm.trans hg
  rw [Page.length_cells, hholds.sound.length_slots, hholds.size_eq, hholds.schema_eq]

/-- A page that is not marked is shown as it is stored. -/
theorem clean (h : s.Backed) : s.view.Clean := by
  intro id hmark
  simp only [view_mark, view_shown, view_stored] at hmark ⊢
  cases hpage : s.pool.page? id with
  | none => exact shown_of_none hpage
  | some page =>
    rw [mark_of_page? hpage] at hmark
    obtain ⟨f, hf, -, hclean⟩ := h.cached hpage
    obtain rfl := (Pool.mem_of_page? hpage).2
    rw [shown_of_page? hpage, stored_eq _ hf, hclean hmark]

/-! ### Changing the pool and the disk -/

/-- The invariant is kept with other pages that belong to the files. -/
theorem with_pool (h : s.Backed) (hcatalog : t.catalog = s.catalog) (hdisk : t.disk = s.disk)
    (hdistinct : t.pool.Distinct)
    (hback : ∀ id page, t.pool.page? id = some page → s.Backs page ∧ (s.stored id).isSome) :
    t.Backed where
  files := hcatalog ▸ h.files
  pages := hdistinct
  cached := by
    intro id page hpage
    rw [Backs, hcatalog, hdisk]
    exact (hback id page hpage).1
  legible := by
    intro id page hpage
    rw [stored_congr hcatalog hdisk]
    exact (hback id page hpage).2

/-- One page of the pool is replaced. -/
theorem replace (h : s.Backed) (hcatalog : t.catalog = s.catalog) (hdisk : t.disk = s.disk)
    (hdistinct : t.pool.Distinct) {page : Page} (hback : s.Backs page)
    (hlegible : (s.stored page.id).isSome) (hself : t.pool.page? page.id = some page)
    (hother : ∀ other, other ≠ page.id → t.pool.page? other = s.pool.page? other) :
    t.Backed ∧ t.view = s.view.change page.id (some page.cells) page.dirtiedBy := by
  have hstored := stored_congr hcatalog hdisk
  refine ⟨h.with_pool hcatalog hdisk hdistinct fun other q hq => ?_, ?_⟩
  · by_cases hid : other = page.id
    · rw [hid, hself] at hq
      cases hq
      exact ⟨hback, hid ▸ hlegible⟩
    · rw [hother other hid] at hq
      exact ⟨h.cached hq, h.legible hq⟩
  · rw [view_eq_of_page (fun other _ => congrFun hstored other) hother, hstored,
      Function.update_eq_self, shown_of_page? hself, mark_of_page? hself]
    rfl

/-- A file has pages of one table only. -/
theorem file_unique (h : s.Backed) {g : HeapFile} {other : PageId}
    (hf : s.catalog.file id.table = .ok f) (hg : s.catalog.file other.table = .ok g)
    (hname : g.name = f.name) : g = f ∧ (other.number = id.number ↔ other = id) := by
  have htable := h.files _ _ _ _ hg hf hname
  rw [htable, hf] at hg
  cases hg
  obtain ⟨table, number⟩ := other
  obtain ⟨_, number'⟩ := id
  cases htable
  exact ⟨rfl, by simp⟩

/-- Different pages are in different files or in different places of one. -/
theorem apart (h : s.Backed) {g : HeapFile} {other : PageId}
    (hf : s.catalog.file id.table = .ok f) (hg : s.catalog.file other.table = .ok g)
    (hne : other ≠ id) : f.Apart id g other := by
  by_cases hname : g.name = f.name
  · obtain ⟨rfl, hnumber⟩ := h.file_unique hf hg hname
    exact .inr ⟨rfl, fun heq => hne (hnumber.1 heq)⟩
  · exact .inl hname

/-- Which pages a file has after a page was written. -/
theorem has_of_writes (h : s.Backed) {disk : Disk} {cells : List (Option Row)}
    (hf : s.catalog.file id.table = .ok f) (hwrites : f.Writes s.disk disk id cells)
    {g : HeapFile} {other : PageId} (hg : s.catalog.file other.table = .ok g) :
    g.Has disk other.number ↔ g.Has s.disk other.number ∨ other = id := by
  by_cases hname : g.name = f.name
  · obtain ⟨rfl, hnumber⟩ := h.file_unique hf hg hname
    rw [hwrites.has_iff, hnumber]
  · have hne : other ≠ id := by
      rintro rfl
      rw [hf] at hg
      cases hg
      exact hname rfl
    rw [HeapFile.Has, HeapFile.Has, hwrites.size_eq _ hname, or_iff_left hne]

/-- The other pages are the same on the disk after a page was written. -/
theorem cells?_of_writes (h : s.Backed) {disk : Disk} {cells : List (Option Row)}
    (hf : s.catalog.file id.table = .ok f) (hwrites : f.Writes s.disk disk id cells)
    {g : HeapFile} {other : PageId} (hg : s.catalog.file other.table = .ok g) (hne : other ≠ id) :
    g.cells? disk other = g.cells? s.disk other :=
  (hwrites.sameOn _ _ (h.apart hf hg hne)).cells?_eq

/-- A page is stored when it is written, and nothing else is. -/
theorem stored_of_writes (h : s.Backed) (hcatalog : t.catalog = s.catalog)
    (hf : s.catalog.file id.table = .ok f) {cells : List (Option Row)}
    (hwrites : f.Writes s.disk t.disk id cells) :
    t.stored = Function.update s.stored id (some cells) := by
  funext other
  by_cases hne : other = id
  · subst hne
    rw [Function.update_self, stored_eq _ (hcatalog ▸ hf)]
    exact hwrites.cells?_eq
  · rw [Function.update_of_ne hne]
    by_cases hg : ∃ g, s.catalog.file other.table = .ok g
    · obtain ⟨g, hg⟩ := hg
      rw [stored_eq _ (hcatalog ▸ hg), stored_eq _ hg]
      exact h.cells?_of_writes hf hwrites hg hne
    · rw [not_exists] at hg
      rw [stored_eq_none hg, stored_eq_none (hcatalog ▸ hg)]

/-- Whole pages can still be read after a page was written. -/
theorem readable_of_writes (h : s.Backed) (hcatalog : t.catalog = s.catalog)
    (hf : s.catalog.file id.table = .ok f) {cells : List (Option Row)}
    (hwrites : f.Writes s.disk t.disk id cells) (hread : s.Readable) : t.Readable := by
  intro other g hg hhas
  rw [hcatalog] at hg
  by_cases hne : other = id
  · subst hne
    rw [hf] at hg
    cases hg
    exact ⟨cells, hwrites.cells?_eq⟩
  · obtain ⟨cells', hcells⟩ := hread _ hg
      (((h.has_of_writes hf hwrites hg).1 hhas).resolve_right hne)
    exact ⟨cells', (h.cells?_of_writes hf hwrites hg hne).trans hcells⟩

/-- A page is written, and with it the pool may change in that page. -/
theorem write (h : s.Backed) (hcatalog : t.catalog = s.catalog)
    (hf : s.catalog.file id.table = .ok f) {cells : List (Option Row)}
    (hwrites : f.Writes s.disk t.disk id cells) (hdistinct : t.pool.Distinct)
    (hself : ∀ page, t.pool.page? id = some page →
      f.Holds s.disk page ∧ (page.dirtiedBy = none → page.cells = cells))
    (hother : ∀ other, other ≠ id → t.pool.page? other = s.pool.page? other) :
    t.Backed ∧ t.stored = Function.update s.stored id (some cells) := by
  have hfile : ∀ {table : TableId}, t.catalog.file table = s.catalog.file table := by
    rw [hcatalog]
    exact rfl
  have hstored := h.stored_of_writes hcatalog hf hwrites
  refine ⟨⟨hcatalog ▸ h.files, hdistinct, fun {other page} hpage => ?_,
    fun {other page} hpage => ?_⟩, hstored⟩
  · -- what is in memory still belongs to a file, which may have grown
    obtain rfl := (Pool.mem_of_page? hpage).2
    rw [Backs, hfile]
    by_cases hne : page.id = id
    · obtain ⟨hholds, hclean⟩ := hself page (hne ▸ hpage)
      have hhas := (h.has_of_writes hf hwrites (hne ▸ hf)).2 (.inr hne)
      refine ⟨f, hne ▸ hf, ⟨hholds.sound, hholds.schema_eq, hholds.size_eq, hholds.addresses,
        hhas⟩, fun hmark => ?_⟩
      rw [hne, hclean hmark]
      exact hwrites.cells?_eq
    · obtain ⟨g, hg, hholds, hclean⟩ := h.cached ((hother _ hne).symm.trans hpage)
      have hhas := (h.has_of_writes hf hwrites hg).2 (.inl hholds.has)
      exact ⟨g, hg, ⟨hholds.sound, hholds.schema_eq, hholds.size_eq, hholds.addresses, hhas⟩,
        fun hmark => (h.cells?_of_writes hf hwrites hg hne).trans (hclean hmark)⟩
  · -- and it can be read there, also the page that was written
    rw [hstored]
    by_cases hne : other = id
    · rw [hne, Function.update_self]
      rfl
    · rw [Function.update_of_ne hne]
      exact h.legible ((hother other hne).symm.trans hpage)

/-- A page of the pool is replaced by one that was written. -/
theorem write_page (h : s.Backed) (hcatalog : t.catalog = s.catalog) {page : Page}
    (hf : s.catalog.file page.id.table = .ok f)
    (hwrites : f.Writes s.disk t.disk page.id page.cells) (hdistinct : t.pool.Distinct)
    (hholds : f.Holds s.disk page) (hself : t.pool.page? page.id = some (page.mark none))
    (hother : ∀ other, other ≠ page.id → t.pool.page? other = s.pool.page? other) :
    t.Backed ∧ t.view = s.view.save page.id (some page.cells) none := by
  obtain ⟨hbacked, hstored⟩ := h.write hcatalog hf hwrites hdistinct (fun q hq => by
    cases hself.symm.trans hq
    exact ⟨hholds.mark none, fun _ => rfl⟩) hother
  have hstored' : ∀ other, other ≠ page.id → t.stored other = s.stored other :=
    fun other hid => by rw [hstored, Function.update_of_ne hid]
  refine ⟨hbacked, ?_⟩
  rw [view_eq_of_page hstored' hother, hstored, Function.update_self, shown_of_page? hself,
    mark_of_page? hself, Page.cells_mark, Page.dirtiedBy_mark]
  rfl

end Backed

namespace Sound

theorem backed (h : s.Sound) : s.Backed where
  files := h.files
  pages := h.pages
  cached := h.cached
  legible := by
    intro id page hpage
    obtain ⟨f, hf, hholds, -⟩ := h.cached hpage
    obtain rfl := (Pool.mem_of_page? hpage).2
    exact (Readable.stored_isSome_iff h.readable _ hf).2 hholds.has

theorem allClean_iff (h : s.Sound) : s.AllClean ↔ ∀ id, s.mark id = none := h.backed.allClean_iff

/-- The pages of the files are those that are stored. -/
theorem stored_isSome_iff (h : s.Sound) (id : PageId) (hf : s.catalog.file id.table = .ok f) :
    (s.stored id).isSome ↔ f.Has s.disk id.number := Readable.stored_isSome_iff h.readable id hf

theorem shown_isSome_iff (h : s.Sound) : (s.shown id).isSome ↔ (s.stored id).isSome :=
  h.backed.shown_isSome_iff

theorem shown_eq_none_iff (h : s.Sound) : s.shown id = none ↔ s.stored id = none :=
  h.backed.shown_eq_none_iff

theorem clean (h : s.Sound) : s.view.Clean := h.backed.clean

end Sound

/-- A store is sound if its pages can be read. -/
theorem Backed.sound (h : s.Backed) (hread : s.Readable) : s.Sound :=
  ⟨h.files, h.pages, hread, h.cached⟩

end Store

end Rowstore
