import Mathlib
import Rowstore.Proofs.Store.Moves
import Rowstore.Proofs.Store.Sound

/-!
# Reading and writing pages

The operations of a store on its pages. Each keeps the invariant of the store and is one of the few
operations on views, `Store.Shows`. A sound store stays sound with it, `Store.Reaches`.

* Giving out a page changes no view, whether it was in the pool, is loaded, or takes the place of
  another one: `Store.Backed.acquire`.
* Writing a page always succeeds: `Store.Backed.flushPage`. So do `Store.Backed.complete_commit`,
  which writes the pages of a transaction, and `Store.Backed.complete_abort`, which gives them up.
-/

namespace Rowstore

namespace Store

variable {s t u : Store} {id : PageId} {f : HeapFile} {tx : TxId} {v w : View}

/-- A store with the same tables, which shows a view. Pages that can be read remain so. -/
structure Shows (s t : Store) (v : View) : Prop where
  catalog_eq : t.catalog = s.catalog
  backed : t.Backed
  readable : s.Readable → t.Readable
  view_eq : t.view = v

theorem Shows.trans (h : s.Shows t v) (h' : t.Shows u w) : s.Shows u w :=
  ⟨h'.catalog_eq.trans h.catalog_eq, h'.backed, h'.readable ∘ h.readable, h'.view_eq⟩

theorem Shows.of_eq (h : s.Shows t v) (hview : v = w) : s.Shows t w := hview ▸ h

/-- Nothing has changed but which pages are in the pool and who holds them. -/
def Stays (s t : Store) : Prop := s.Shows t s.view ∧ t.disk = s.disk

theorem Stays.trans (h : s.Stays t) (h' : t.Stays u) : s.Stays u :=
  ⟨h.1.trans (h'.1.of_eq h.1.view_eq), h'.2.trans h.2⟩

theorem Stays.stored_eq (h : s.Stays t) : t.stored = s.stored := by
  rw [← view_stored, h.1.view_eq, view_stored]

theorem Stays.shown_eq (h : s.Stays t) : t.shown = s.shown := by
  rw [← view_shown, h.1.view_eq, view_shown]

/-- A sound store with the same tables, which shows a view. -/
structure Reaches (s t : Store) (v : View) : Prop where
  catalog_eq : t.catalog = s.catalog
  sound : t.Sound
  view_eq : t.view = v

/-- A sound store stays sound. -/
theorem Shows.reaches (h : s.Shows t v) (hs : s.Sound) : s.Reaches t v :=
  ⟨h.catalog_eq, h.backed.sound (h.readable hs.readable), h.view_eq⟩

/-- Nothing has changed but which pages are in the pool and who holds them, in a sound store. -/
def Keeps (s t : Store) : Prop := s.Reaches t s.view ∧ t.disk = s.disk

theorem Stays.keeps (h : s.Stays t) (hs : s.Sound) : s.Keeps t := ⟨h.1.reaches hs, h.2⟩

theorem Keeps.trans (h : s.Keeps t) (h' : t.Keeps u) : s.Keeps u :=
  ⟨⟨h'.1.catalog_eq.trans h.1.catalog_eq, h'.1.sound, h'.1.view_eq.trans h.1.view_eq⟩,
    h'.2.trans h.2⟩

theorem Keeps.stored_eq (h : s.Keeps t) : t.stored = s.stored := by
  rw [← view_stored, h.1.view_eq, view_stored]

theorem Keeps.shown_eq (h : s.Keeps t) : t.shown = s.shown := by
  rw [← view_shown, h.1.view_eq, view_shown]

/-- The pages of the pool that a transaction has changed are those it has marked. -/
theorem mem_dirtiedBy (h : s.pool.Distinct) : id ∈ s.dirtiedBy tx ↔ s.mark id = some tx := by
  simp only [dirtiedBy, List.mem_map, List.mem_filter, decide_eq_true_eq]
  constructor
  · rintro ⟨page, ⟨hpage, hmark⟩, rfl⟩
    rw [mark_of_page? (h.page?_of_mem hpage), hmark]
  · intro hmark
    obtain ⟨page, hpage, hdirty⟩ := Option.bind_eq_some_iff.1 hmark
    obtain ⟨hmem, hid⟩ := Pool.mem_of_page? hpage
    exact ⟨page, ⟨hmem, hdirty⟩, hid⟩

namespace Backed

/-- Whole pages can still be read when the disk stays the same. -/
theorem readable_of_disk (hcatalog : t.catalog = s.catalog) (hdisk : t.disk = s.disk)
    (h : s.Readable) : t.Readable := by
  unfold Readable
  rw [hcatalog, hdisk]
  exact h

theorem shows_self (h : s.Backed) : s.Shows s s.view := ⟨rfl, h, id, rfl⟩

theorem stays_self (h : s.Backed) : s.Stays s := ⟨h.shows_self, rfl⟩

/-- Nothing changes in a store when its pages stay the same. -/
theorem shows_of_pages (h : s.Backed) (hcatalog : t.catalog = s.catalog)
    (hdisk : t.disk = s.disk) (hpages : t.pool.pages = s.pool.pages) : s.Shows t s.view := by
  have hpage : ∀ id, t.pool.page? id = s.pool.page? id := fun id => by
    rw [Pool.page?, hpages, Pool.page?]
  refine ⟨hcatalog, h.with_pool hcatalog hdisk ?_ fun id page hid => ?_,
    readable_of_disk hcatalog hdisk, view_congr hcatalog hdisk hpage⟩
  · rw [Pool.Distinct, hpages]
    exact h.pages
  · rw [hpage id] at hid
    exact ⟨h.cached hid, h.legible hid⟩

theorem release (h : s.Backed) (tx : TxId) (id : PageId) : s.Stays (s.release tx id) :=
  ⟨h.shows_of_pages rfl rfl rfl, rfl⟩

/-! ### Giving out pages -/

/-- Giving out a page changes no view. -/
theorem acquire (h : s.Backed) {page : Page} (hacquire : s.acquire tx id = .ok (page, t)) :
    s.Stays t ∧ t.pool.page? id = some page := by
  rcases acquire_cases hacquire with ⟨hpage, rfl⟩ | ⟨f, pool, hmiss, hf, hread, hload, rfl⟩
  · exact ⟨⟨h.shows_of_pages rfl rfl rfl, rfl⟩, hpage⟩
  · obtain ⟨hholds, rfl, hfresh⟩ := HeapFile.holds_of_readPage hread
    have hcells : f.cells? s.disk page.id = some page.cells :=
      HeapFile.cells?_eq_some_iff.2 ⟨page, hread, rfl⟩
    obtain ⟨hself, hother⟩ := Pool.page?_load h.pages hmiss hload
    have hdistinct : pool.Distinct := h.pages.load hmiss hload
    refine ⟨⟨⟨rfl, h.with_pool rfl rfl hdistinct fun other q hq => ?_, id,
      View.ext rfl (funext fun other => ?_) (funext fun other => ?_)⟩, rfl⟩, hself⟩
    all_goals by_cases hid : other = page.id
    · rw [hid] at hq
      cases hself.symm.trans hq
      refine ⟨⟨f, hf, hholds, fun _ => hcells⟩, ?_⟩
      rw [hid, stored_eq _ hf, hcells]
      rfl
    · rcases hother other hid with hsame | ⟨hnone, -⟩
      · have hold := hsame.symm.trans hq
        exact ⟨h.cached hold, h.legible hold⟩
      · cases hnone.symm.trans hq
    · subst hid
      simp only [view_shown]
      rw [shown_of_page? hself, shown_of_none hmiss, stored_eq _ hf, hcells]
    · simp only [view_shown, shown, Pool.page?_hold]
      rcases hother other hid with hsame | ⟨hnone, gone, hgone, hclean⟩
      · rw [hsame]
        rfl
      · -- the page that made room was clean, so the disk has it as it was shown
        have hshown := h.clean other ((mark_of_page? hgone).trans hclean)
        rw [view_shown, view_stored, shown_of_page? hgone] at hshown
        rw [hnone, hgone]
        exact hshown.symm
    · subst hid
      simp only [view_mark]
      rw [mark_of_page? hself, mark_of_none hmiss, hfresh]
    · simp only [view_mark, mark, Pool.page?_hold]
      rcases hother other hid with hsame | ⟨hnone, gone, hgone, hclean⟩
      · rw [hsame]
      · rw [hnone, hgone]
        exact hclean.symm

/-- Giving out pages one after another changes no view. -/
theorem stays_of_acquires (h : s.Backed) (hmoves : s.Acquires tx t) : s.Stays t := by
  induction hmoves with
  | refl => exact h.stays_self
  | tail _ hlast ih =>
    obtain ⟨id, page, hacquire⟩ := hlast
    exact ih.trans (ih.1.backed.acquire hacquire).1

/-! ### Writing pages -/

/-- A page that belongs to a file takes the place of one of the pool, and is written. -/
theorem persist (h : s.Backed) {old page : Page} (hold : s.pool.page? page.id = some old)
    (hf : s.catalog.file page.id.table = .ok f) (hholds : f.Holds s.disk page) :
    ∃ disk, f.writePage s.disk page = .ok (page.mark none, disk) ∧
      s.Shows { s with disk, pool := s.pool.put (page.mark none) }
        (s.view.save page.id (some page.cells) none) := by
  obtain ⟨disk, hwrite, hwrites⟩ := HeapFile.writePage_eq_ok hholds
  have hself : (s.pool.put (page.mark none)).page? page.id = some (page.mark none) := by
    rw [Pool.page?_put, Page.id_mark, if_pos rfl, hold]
    rfl
  have hother : ∀ other, other ≠ page.id →
      (s.pool.put (page.mark none)).page? other = s.pool.page? other := fun other hne => by
    rw [Pool.page?_put, Page.id_mark, if_neg hne]
  have hwritten := h.write_page (t := { s with disk, pool := s.pool.put (page.mark none) })
    rfl hf hwrites (h.pages.put _) hholds hself hother
  exact ⟨disk, hwrite, rfl, hwritten.1, h.readable_of_writes rfl hf hwrites, hwritten.2⟩

/-- Writing a page of the pool succeeds. -/
theorem flushPage (h : s.Backed) (id : PageId) :
    ∃ t, s.flushPage id = .ok t ∧ s.Shows t (s.view.flush id) := by
  unfold Store.flushPage
  cases hpage : s.pool.page? id with
  | none =>
    rw [h.clean.flush_eq (mark_of_none hpage)]
    exact ⟨s, rfl, h.shows_self⟩
  | some page =>
    obtain ⟨f, hf, hholds, -⟩ := h.cached hpage
    obtain rfl := (Pool.mem_of_page? hpage).2
    simp only [hf]
    by_cases hdirty : page.isDirty
    · obtain ⟨disk, hwrite, hshows⟩ := h.persist hpage hf hholds
      refine ⟨_, ?_, hshows.of_eq ?_⟩
      · rw [if_pos hdirty, hwrite]
        rfl
      · rw [View.flush, view_shown, shown_of_page? hpage]
    · have hclean : page.dirtiedBy = none := by simpa [Page.isDirty] using hdirty
      rw [h.clean.flush_eq ((mark_of_page? hpage).trans hclean), if_neg hdirty]
      exact ⟨s, rfl, h.shows_self⟩

/-- Writing pages one after another succeeds. -/
theorem flushPages (h : s.Backed) (ids : List PageId) :
    ∃ t, s.flushPages ids = (.ok (), t) ∧ s.Shows t (ids.foldl View.flush s.view) := by
  induction ids generalizing s with
  | nil => exact ⟨s, rfl, h.shows_self⟩
  | cons id ids ih =>
    obtain ⟨t, ht, hshows⟩ := h.flushPage id
    obtain ⟨u, hu, hrest⟩ := ih hshows.backed
    rw [hshows.view_eq] at hrest
    refine ⟨u, ?_, hshows.trans hrest⟩
    simp only [Store.flushPages, ht, hu]

/-- Writing all changed pages succeeds. -/
theorem flushAll (h : s.Backed) :
    ∃ t, s.flushAll = (.ok (), t) ∧ s.Shows t (s.view.flushOn fun _ => True) := by
  obtain ⟨t, ht, hshows⟩ := h.flushPages (s.pool.pages.map Page.id)
  refine ⟨t, ht, hshows.of_eq ?_⟩
  rw [View.foldl_flush]
  -- a page that is not in memory has no mark, so it is stored as it is shown
  refine View.ext (funext fun id => ?_) rfl (funext fun id => ?_)
  all_goals by_cases hid : id ∈ s.pool.pages.map Page.id
  · simp only [View.flushOn, hid, if_true]
  · simp only [View.flushOn, hid, if_false, if_true]
    exact (h.clean id (mark_of_none (Pool.page?_eq_none_iff.2 hid))).symm
  · simp only [View.flushOn, hid, if_true]
  · simp only [View.flushOn, hid, if_false, if_true]
    exact mark_of_none (Pool.page?_eq_none_iff.2 hid)

/-! ### Giving up pages -/

/-- A page that is given up is shown as it is stored. -/
theorem discard (h : s.Backed) (id : PageId) : s.Shows (s.discard id) (s.view.drop id) := by
  have hself : (s.discard id).pool.page? id = none := by
    rw [Store.discard, Pool.page?_discard, if_pos rfl]
  have hother : ∀ other, other ≠ id → (s.discard id).pool.page? other = s.pool.page? other :=
    fun other hne => by rw [Store.discard, Pool.page?_discard, if_neg hne]
  have hstored : (s.discard id).stored = s.stored := stored_congr rfl rfl
  refine ⟨rfl, h.with_pool rfl rfl (h.pages.discard id) fun other q hq => ?_,
    fun hread => hread, ?_⟩
  · by_cases hid : other = id
    · rw [hid, hself] at hq
      cases hq
    · rw [hother other hid] at hq
      exact ⟨h.cached hq, h.legible hq⟩
  · rw [view_eq_of_page (fun other _ => congrFun hstored other) hother, shown_of_none hself,
      mark_of_none hself, hstored, Function.update_eq_self]
    rfl

/-! ### The end of a transaction -/

/-- The pages of a transaction that commits are written. -/
theorem foldl_settle_commit (h : s.Backed) (ids : List PageId) :
    ∃ t, ids.foldl (settle true) (.ok (), s) = (.ok (), t) ∧
      s.Shows t (ids.foldl View.flush s.view) := by
  induction ids generalizing s with
  | nil => exact ⟨s, rfl, h.shows_self⟩
  | cons id ids ih =>
    obtain ⟨t, ht, hshows⟩ := h.flushPage id
    obtain ⟨u, hu, hrest⟩ := ih hshows.backed
    rw [hshows.view_eq] at hrest
    refine ⟨u, ?_, hshows.trans hrest⟩
    rw [List.foldl_cons]
    simp only [settle, ht, hu]

/-- The pages of a transaction that aborts are given up. -/
theorem foldl_settle_abort (h : s.Backed) (ids : List PageId) :
    ∃ t, ids.foldl (settle false) (.ok (), s) = (.ok (), t) ∧
      s.Shows t (ids.foldl View.drop s.view) := by
  induction ids generalizing s with
  | nil => exact ⟨s, rfl, h.shows_self⟩
  | cons id ids ih =>
    have hshows := h.discard id
    obtain ⟨u, hu, hrest⟩ := ih hshows.backed
    rw [hshows.view_eq] at hrest
    exact ⟨u, hu, hshows.trans hrest⟩

/-- Ending the holds of a transaction changes nothing. -/
theorem releaseAll (h : s.Backed) (tx : TxId) :
    s.Shows { s with pool := s.pool.releaseAll tx } s.view :=
  h.shows_of_pages rfl rfl rfl

/-- A transaction that commits succeeds, and its pages are written. -/
theorem complete_commit (h : s.Backed) (tx : TxId) :
    ∃ t, s.complete tx true = (.ok (), t) ∧ s.Shows t (s.view.commit tx) := by
  obtain ⟨t, ht, hshows⟩ := (h.releaseAll tx).backed.foldl_settle_commit (s.dirtiedBy tx)
  rw [(h.releaseAll tx).view_eq, View.foldl_flush] at hshows
  refine ⟨t, ht, (h.releaseAll tx).trans (hshows.of_eq ?_)⟩
  exact s.view.flushOn_congr fun id => mem_dirtiedBy h.pages

/-- A transaction that aborts succeeds, and its pages are given up. -/
theorem complete_abort (h : s.Backed) (tx : TxId) :
    ∃ t, s.complete tx false = (.ok (), t) ∧ s.Shows t (s.view.abort tx) := by
  obtain ⟨t, ht, hshows⟩ := (h.releaseAll tx).backed.foldl_settle_abort (s.dirtiedBy tx)
  rw [(h.releaseAll tx).view_eq, View.foldl_drop] at hshows
  refine ⟨t, ht, (h.releaseAll tx).trans (hshows.of_eq ?_)⟩
  exact s.view.dropOn_congr fun id => mem_dirtiedBy h.pages

end Backed

namespace Sound

theorem keeps_self (h : s.Sound) : s.Keeps s := h.backed.stays_self.keeps h

theorem acquire (h : s.Sound) {page : Page} (hacquire : s.acquire tx id = .ok (page, t)) :
    s.Keeps t ∧ t.pool.page? id = some page :=
  (h.backed.acquire hacquire).imp_left fun hstays => hstays.keeps h

end Sound

end Store

end Rowstore
