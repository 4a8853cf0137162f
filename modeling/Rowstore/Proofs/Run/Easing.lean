import Mathlib
import Rowstore.Proofs.Run.FirstFit
import Rowstore.Proofs.Store.Caching

/-!
# Stores with fewer pages in use

A row is stored while somebody reads other tables: their pages are in the pool, and held. Without
the reader the same insertion has more room, and comes to the same.

* `Store.Lighter` says that two stores have the same files and show the same, and that one of them
  has no more pages in use. Every page that can be acquired in the other can be acquired there,
  `Store.Lighter.acquire`, for a pool is full only of pages in use.
* So an insertion that succeeds in one store succeeds in a lighter one, and the stores it leaves are
  alike again, `Store.Lighter.insertRow`.
* `Store.insertRows` are insertions one after another.
-/

namespace Rowstore

namespace Pool

variable {p q r : Pool} {tx : TxId} {id : PageId} {page : Page}

/-- What is held in the second pool is held in the first, and if it is in the second then it is in
the first as well. -/
structure Eases (p q : Pool) : Prop where
  capacity_eq : q.capacity = p.capacity
  holds : q.holds ⊆ p.holds
  cached : ∀ {id}, q.isHeld id → (q.page? id).isSome → (p.page? id).isSome

theorem isHeld_iff : p.isHeld id ↔ ∃ tx, (tx, id) ∈ p.holds := by
  simp [isHeld, List.any_eq_true]

theorem isHeld_mono (h : q.holds ⊆ p.holds) (hheld : q.isHeld id) : p.isHeld id := by
  obtain ⟨tx, hmem⟩ := isHeld_iff.1 hheld
  exact isHeld_iff.2 ⟨tx, h hmem⟩

namespace Eases

theorem refl (p : Pool) : p.Eases p := ⟨rfl, List.Subset.refl _, fun _ => id⟩

theorem trans (h : p.Eases q) (h' : q.Eases r) : p.Eases r where
  capacity_eq := h'.capacity_eq.trans h.capacity_eq
  holds := List.Subset.trans h'.holds h.holds
  cached := fun hheld hpage => h.cached (isHeld_mono h'.holds hheld) (h'.cached hheld hpage)

theorem release (h : p.Eases q) (tx : TxId) (id : PageId) :
    (p.release tx id).Eases (q.release tx id) where
  capacity_eq := h.capacity_eq
  holds := by
    intro x hx
    obtain ⟨hmem, hne⟩ := List.mem_filter.1 hx
    exact List.mem_filter.2 ⟨h.holds hmem, hne⟩
  cached := by
    intro other hheld hcached
    obtain ⟨tx', hmem⟩ := isHeld_iff.1 hheld
    exact h.cached (isHeld_iff.2 ⟨tx', (List.mem_filter.1 hmem).1⟩) hcached

/-- Pages are changed in both pools, and none comes or goes. -/
theorem change (h : p.Eases q) {p' q' : Pool} (hp : p'.capacity = p.capacity)
    (hq : q'.capacity = q.capacity) (hholds : p'.holds = p.holds) (hholds' : q'.holds = q.holds)
    (hpage : ∀ id, (p'.page? id).isSome = (p.page? id).isSome)
    (hpage' : ∀ id, (q'.page? id).isSome = (q.page? id).isSome) : p'.Eases q' where
  capacity_eq := hq.trans (h.capacity_eq.trans hp.symm)
  holds := by
    rw [hholds, hholds']
    exact h.holds
  cached := by
    intro id hheld hcached
    rw [isHeld, hholds'] at hheld
    rw [hpage'] at hcached
    rw [hpage]
    exact h.cached hheld hcached

theorem modify (h : p.Eases q) (id id' : PageId) {change change' : Page → Page}
    (hid : ∀ page, page.id = id → (change page).id = id)
    (hid' : ∀ page, page.id = id' → (change' page).id = id') :
    (p.modify id change).Eases (q.modify id' change') := by
  refine h.change rfl rfl rfl rfl (fun other => ?_) fun other => ?_
  · rw [page?_modify _ _ hid]
    split_ifs with hother
    · rw [hother, Option.isSome_map]
    · rfl
  · rw [page?_modify _ _ hid']
    split_ifs with hother
    · rw [hother, Option.isSome_map]
    · rfl

theorem put (h : p.Eases q) (page page' : Page) : (p.put page).Eases (q.put page') :=
  h.modify _ _ (fun _ _ => rfl) fun _ _ => rfl

end Eases

end Pool

namespace Store

variable {s s' t u : Store} {tx : TxId} {id : PageId} {page : Page} {row : Tuple} {f : HeapFile}
  {table : TableId}

/-- A page that is acquired takes the place of none that is held. -/
theorem eases_of_acquire (h : s.Tidy) (hacquire : s.acquire tx id = .ok (page, t)) :
    t.pool.Eases s.pool where
  capacity_eq := ((h.acquire hacquire).1.safe h).2.1.symm
  holds := by
    rcases acquire_cases hacquire with ⟨-, rfl⟩ | ⟨f, pool, -, -, -, hload, rfl⟩
    · exact fun x hx => List.mem_insert_of_mem hx
    · intro x hx
      rw [← Pool.holds_of_load hload] at hx
      exact List.mem_insert_of_mem hx
  cached := by
    intro other hheld hcached
    rcases acquire_cases hacquire with ⟨-, rfl⟩ | ⟨f, pool, hmiss, -, hread, hload, rfl⟩
    · exact hcached
    · obtain ⟨tx', hmem⟩ := Pool.isHeld_iff.1 hheld
      obtain ⟨held, hpage⟩ := Option.isSome_iff_exists.1 hcached
      obtain rfl := (HeapFile.holds_of_readPage hread).2.1
      have hkept := Pool.page?_load_of_held hmiss hload (decide_eq_true hmem) hpage
      rw [Pool.page?_hold, hkept]
      rfl

/-- A page that one pool has, and that a transaction holds there, is acquired for the transaction in
a store with fewer pages in use. -/
theorem eases_acquire {p : Pool} (h : p.Eases t.pool) (ht : t.pool.Distinct)
    (hacquire : t.acquire tx id = .ok (page, u)) (hcapacity : u.pool.capacity = t.pool.capacity)
    (hheld : (tx, id) ∈ p.holds) (hcached : (p.page? id).isSome) : p.Eases u.pool := by
  have hholds : ∀ x ∈ u.pool.holds, x = (tx, id) ∨ x ∈ t.pool.holds := by
    intro x hx
    rcases acquire_cases hacquire with ⟨-, rfl⟩ | ⟨f, pool, -, -, -, hload, rfl⟩
    · exact List.mem_insert_iff.1 hx
    · rw [← Pool.holds_of_load hload]
      exact List.mem_insert_iff.1 hx
  have hpages : ∀ other, other ≠ id → (u.pool.page? other).isSome →
      (t.pool.page? other).isSome := by
    intro other hid hin
    rcases acquire_cases hacquire with ⟨-, rfl⟩ | ⟨f, pool, hmiss, -, hread, hload, rfl⟩
    · exact hin
    · obtain rfl := (HeapFile.holds_of_readPage hread).2.1
      rcases (Pool.page?_load ht hmiss hload).2 other hid with hsame | ⟨hnone, -⟩
      · rwa [Pool.page?_hold, hsame] at hin
      · rw [Pool.page?_hold, hnone] at hin
        cases hin
  refine ⟨hcapacity.trans h.capacity_eq, fun x hx => ?_, fun {other} hother hin => ?_⟩
  · rcases hholds x hx with rfl | hmem
    · exact hheld
    · exact h.holds hmem
  · by_cases hid : other = id
    · rw [hid]
      exact hcached
    · obtain ⟨tx', hmem⟩ := Pool.isHeld_iff.1 hother
      have hold := (hholds _ hmem).resolve_left fun heq => hid (Prod.mk.inj heq).2
      exact h.cached (Pool.isHeld_iff.2 ⟨tx', hold⟩) (hpages other hid hin)

/-- Both stores have the same files and show the same, and the second has no more pages in use. -/
structure Lighter (s t : Store) : Prop where
  catalog_eq : t.catalog = s.catalog
  disk_eq : t.disk = s.disk
  view_eq : t.view = s.view
  backed : s.Backed
  backed' : t.Backed
  tidy : s.Tidy
  tidy' : t.Tidy
  eases : s.pool.Eases t.pool

namespace Lighter

theorem shown_eq (h : s.Lighter t) : t.shown = s.shown := by
  rw [← view_shown, h.view_eq, view_shown]

theorem stored_eq (h : s.Lighter t) : t.stored = s.stored := by
  rw [← view_stored, h.view_eq, view_stored]

/-- Pages are acquired in the first store alone. -/
theorem acquired (h : s.Lighter t) (hacquire : s.acquire tx id = .ok (page, s')) :
    s'.Lighter t := by
  obtain ⟨hstays, -⟩ := h.backed.acquire hacquire
  exact ⟨h.catalog_eq.trans hstays.1.catalog_eq.symm, h.disk_eq.trans hstays.2.symm,
    h.view_eq.trans hstays.1.view_eq.symm, hstays.1.backed, h.backed',
    (h.tidy.acquire hacquire).1.tidy h.tidy, h.tidy',
    (eases_of_acquire h.tidy hacquire).trans h.eases⟩

/-- A pool is full only of pages in use. So that of a lighter store is not full if it is without a
page that the other one has. -/
theorem not_full (h : s.Lighter t) (hpage : s.pool.page? id = some page)
    (hmiss : id ∉ t.pool.cache.pages) : ¬ t.pool.cache.Full := by
  rintro ⟨hsize, hpinned⟩
  -- every page of the full pool is in the other pool, which has one page more
  have hsubset : insert id t.pool.cache.pages.keys ⊆ s.pool.cache.pages.keys := by
    intro other hother
    rw [Finmap.mem_keys, Pool.mem_cache]
    rw [Finset.mem_insert, Finmap.mem_keys] at hother
    rw [← Option.isSome_iff_ne_none]
    rcases hother with rfl | hother
    · rw [hpage]
      rfl
    · have hcached : (t.pool.page? other).isSome :=
        Option.isSome_iff_ne_none.2 (Pool.mem_cache.1 hother)
      rcases hpinned other hother with ⟨found, hfound, hdirty⟩ | ⟨tx, hheld⟩
      · rw [Pool.cache_page?] at hfound
        obtain ⟨tx, htx⟩ := Option.isSome_iff_exists.1 hdirty
        apply isSome_of_mark (s := s)
        rw [← view_mark, ← h.view_eq, view_mark, mark_of_page? hfound, htx]
      · rw [Pool.cache_heldBy, Pool.mem_heldBy] at hheld
        exact h.eases.cached (Pool.isHeld_iff.2 ⟨tx, hheld⟩) hcached
  have hcard := Finset.card_le_card hsubset
  rw [Finset.card_insert_of_notMem (by rwa [Finmap.mem_keys])] at hcard
  have hle := h.tidy.size_le
  have hcapacity := h.eases.capacity_eq
  rw [Cache.size] at hsize hle
  simp only [Pool.cache] at hcard hsize hle
  omega

/-- There is room in a lighter store for a page that another one has. -/
theorem exists_acquire (h : s.Lighter t) (hpage : s.pool.page? id = some page) (tx : TxId) :
    ∃ page t', t.acquire tx id = .ok (page, t') := by
  cases hmiss : t.pool.page? id with
  | some page' => exact ⟨page', _, acquire_of_page? hmiss⟩
  | none =>
    obtain ⟨cells, hcells⟩ := Option.isSome_iff_exists.1 (h.backed.legible hpage)
    rw [← h.stored_eq] at hcells
    obtain ⟨f, hf, -, -⟩ := h.backed.cached hpage
    obtain rfl := (Pool.mem_of_page? hpage).2
    rw [← h.catalog_eq] at hf
    rw [Store.stored_eq _ hf, HeapFile.cells?_eq_some_iff] at hcells
    obtain ⟨page', hread, -⟩ := hcells
    have hread : t.read page.id = .ok page' := by
      rw [Store.read, hf]
      exact hread
    have hnew : page.id ∉ t.pool.cache.pages := by
      rw [Pool.mem_cache, hmiss]
      exact fun hne => hne rfl
    obtain ⟨hfull, hcause⟩ :
        (t.acquire tx page.id = .error .bufferPoolFull ↔ t.pool.cache.Full) ∧
          ∀ cause, t.acquire tx page.id = .error cause → cause = .bufferPoolFull :=
      h.tidy'.acquire_eq_full_iff hread hnew
    cases hacquire : t.acquire tx page.id with
    | ok given => exact ⟨given.1, given.2, rfl⟩
    | error cause =>
      cases hcause cause hacquire
      exact absurd (hfull.1 hacquire) (h.not_full hpage hnew)

/-- A page that can be acquired in a store can be acquired in a lighter one, and has the same
cells there. It is the very same if both read it from the disk. -/
theorem acquire (h : s.Lighter t) (hacquire : s.acquire tx id = .ok (page, s')) :
    ∃ page' t', t.acquire tx id = .ok (page', t') ∧ s'.Lighter t' ∧ page'.cells = page.cells ∧
      (s.pool.page? id = none → t.pool.page? id = none → page' = page) := by
  have hmid := h.acquired hacquire
  obtain ⟨-, hpage⟩ := h.backed.acquire hacquire
  obtain ⟨page', t', hacquire'⟩ := hmid.exists_acquire hpage tx
  obtain ⟨hstays, hpage'⟩ := h.backed'.acquire hacquire'
  refine ⟨page', t', hacquire', ?_, ?_, fun hmiss hmiss' => ?_⟩
  · refine ⟨hstays.1.catalog_eq.trans hmid.catalog_eq, hstays.2.trans hmid.disk_eq,
      hstays.1.view_eq.trans hmid.view_eq, hmid.backed, hstays.1.backed, hmid.tidy,
      (h.tidy'.acquire hacquire').1.tidy h.tidy', ?_⟩
    have hheld : (tx, id) ∈ s'.pool.holds := by
      simpa [Pool.isHeldBy] using isHeldBy_of_acquire hacquire
    have hcached : (s'.pool.page? id).isSome := by rw [hpage]; rfl
    exact eases_acquire hmid.eases h.backed'.pages hacquire'
      (eases_of_acquire h.tidy' hacquire').capacity_eq.symm hheld hcached
  · have hshown : s'.shown id = some page.cells := shown_of_page? hpage
    have hshown' : t'.shown id = some page'.cells := shown_of_page? hpage'
    rw [hstays.shown_eq, hmid.shown_eq, hshown] at hshown'
    exact (Option.some.inj hshown').symm
  · rcases acquire_cases hacquire with ⟨hhit, -⟩ | ⟨f, pool, -, hf, hread, -, -⟩
    · cases hmiss.symm.trans hhit
    rcases acquire_cases hacquire' with ⟨hhit, -⟩ | ⟨g, pool, -, hg, hread', -, -⟩
    · cases hmiss'.symm.trans hhit
    rw [h.catalog_eq, hf] at hg
    cases hg
    rw [h.disk_eq, hread] at hread'
    exact (Except.ok.inj hread').symm

theorem release (h : s.Lighter t) (tx : TxId) (id : PageId) :
    (s.release tx id).Lighter (t.release tx id) := by
  have hstays := h.backed.release tx id
  have hstays' := h.backed'.release tx id
  exact ⟨h.catalog_eq, h.disk_eq,
    hstays'.1.view_eq.trans (h.view_eq.trans hstays.1.view_eq.symm), hstays.1.backed,
    hstays'.1.backed, (calls_release s tx id).tidy h.tidy, (calls_release t tx id).tidy h.tidy',
    h.eases.release tx id⟩

/-! ### Storing a row -/

/-- The page that both stores give out belongs to one file. -/
theorem page_alike (h : s'.Lighter t) {page' : Page} (hpage : s'.pool.page? id = some page)
    (hpage' : t.pool.page? id = some page') :
    page.Sound ∧ page'.Sound ∧ page'.id = page.id ∧ page'.schema = page.schema := by
  obtain ⟨f, hf, hholds, -⟩ := h.backed.cached hpage
  obtain ⟨g, hg, hholds', -⟩ := h.backed'.cached hpage'
  have hid := (Pool.mem_of_page? hpage).2
  have hid' := (Pool.mem_of_page? hpage').2
  rw [hid', h.catalog_eq, ← hid, hf] at hg
  cases hg
  exact ⟨hholds.sound, hholds'.sound, hid'.trans hid.symm,
    hholds'.schema_eq.trans hholds.schema_eq.symm⟩

/-- A page that is full in one store is so in the other, and is let go in both. -/
theorem insertIntoPage_none (h : s.Lighter t)
    (hinsert : s.insertIntoPage tx row id = (.ok none, s')) :
    ∃ t', t.insertIntoPage tx row id = (.ok none, t') ∧ s'.Lighter t' := by
  rcases s.insertIntoPage_cases tx row id with ⟨cause, -, heq⟩ | ⟨page, r, hacquire, hcases⟩
  · cases hinsert.symm.trans heq
  rcases hcases with ⟨hfull, heq⟩ | ⟨cause, -, -, heq⟩ | ⟨record, filled, -, -, heq⟩
  · cases hinsert.symm.trans heq
    obtain ⟨page', r', hacquire', hlighter, hcells, -⟩ := h.acquire hacquire
    obtain ⟨hsound, hsound', -⟩ := hlighter.page_alike (h.backed.acquire hacquire).2
      (h.backed'.acquire hacquire').2
    have hfull' : page'.freeCount = 0 := by
      rw [hsound'.freeCount_eq_zero_iff, hcells, ← hsound.freeCount_eq_zero_iff]
      exact hfull
    refine ⟨_, ?_, hlighter.release tx id⟩
    rw [Store.insertIntoPage, hacquire']
    exact if_pos hfull'
  · cases hinsert.symm.trans heq
  · cases hinsert.symm.trans heq

/-- The page that takes a row in one store takes it in the other. It is the very same if both read
it from the disk. -/
theorem insertIntoPage_some (h : s.Lighter t) {filled : Page}
    (hinsert : s.insertIntoPage tx row id = (.ok (some filled), s')) :
    ∃ filled' t', t.insertIntoPage tx row id = (.ok (some filled'), t') ∧ filled'.id = filled.id ∧
      s'.pool.Eases t'.pool ∧ t'.disk = s'.disk ∧
      (s.pool.page? id = none → t.pool.page? id = none → filled' = filled) := by
  rcases s.insertIntoPage_cases tx row id with ⟨cause, -, heq⟩ | ⟨page, r, hacquire, hcases⟩
  · cases hinsert.symm.trans heq
  rcases hcases with ⟨-, heq⟩ | ⟨cause, -, -, heq⟩ | ⟨record, stored, hfree, hstore, heq⟩
  · cases hinsert.symm.trans heq
  · cases hinsert.symm.trans heq
  · cases hinsert.symm.trans heq
    obtain ⟨page', r', hacquire', hlighter, hcells, hsame⟩ := h.acquire hacquire
    obtain ⟨hsound, hsound', hid, hschema⟩ := hlighter.page_alike (h.backed.acquire hacquire).2
      (h.backed'.acquire hacquire').2
    obtain ⟨hstorable, hrecord, hslot, hmax, rfl⟩ := Page.insert_eq_ok_iff.1 hstore
    rw [hsound.firstFree?_eq, ← hcells, ← hsound'.firstFree?_eq] at hslot
    obtain ⟨filled', hfilled⟩ :
        ∃ q, q = page'.setSlot record.slot (some { row with record := some record }) := ⟨_, rfl⟩
    have hstore' : page'.insert row = .ok (record, filled') := Page.insert_eq_ok_iff.2
      ⟨hschema ▸ hstorable, hrecord.trans hid.symm, hslot, hmax, hfilled⟩
    have hfree' : page'.freeCount ≠ 0 := by
      rwa [ne_eq, hsound'.freeCount_eq_zero_iff, hcells, ← hsound.freeCount_eq_zero_iff]
    refine ⟨filled', r'.put filled', ?_, hfilled ▸ hid, hlighter.eases.put _ _, hlighter.disk_eq,
      fun hmiss hmiss' => ?_⟩
    · rw [Store.insertIntoPage, hacquire']
      dsimp only
      rw [if_neg hfree', hstore']
    · rw [hfilled, hsame hmiss hmiss']

theorem insertFirstFit_none (h : s.Lighter t) {first pages : Nat}
    (hinsert : s.insertFirstFit tx row table first pages = (.ok none, s')) :
    ∃ t', t.insertFirstFit tx row table first pages = (.ok none, t') ∧ s'.Lighter t' := by
  induction pages generalizing s t first with
  | zero =>
    cases hinsert
    exact ⟨t, rfl, h⟩
  | succ pages ih =>
    obtain ⟨stored, r, hpage, hinsert⟩ := Outcome.andThen_eq_ok_iff.1 hinsert
    cases stored with
    | some filled => cases hinsert
    | none =>
      obtain ⟨r', hpage', hlighter⟩ := h.insertIntoPage_none hpage
      obtain ⟨t', hrest, hlighter'⟩ := ih hlighter hinsert
      refine ⟨t', ?_, hlighter'⟩
      rw [Store.insertFirstFit, hpage']
      exact hrest

theorem insertFirstFit_some (h : s.Lighter t) {first pages : Nat}
    (hinsert : s.insertFirstFit tx row table first pages = (.ok (some id), s')) :
    ∃ t', t.insertFirstFit tx row table first pages = (.ok (some id), t') ∧
      s'.pool.Eases t'.pool ∧ t'.disk = s'.disk := by
  induction pages generalizing s t first with
  | zero => cases hinsert
  | succ pages ih =>
    obtain ⟨stored, r, hpage, hinsert⟩ := Outcome.andThen_eq_ok_iff.1 hinsert
    cases stored with
    | some filled =>
      cases hinsert
      obtain ⟨filled', t', hpage', hid, heases, hdisk, -⟩ := h.insertIntoPage_some hpage
      refine ⟨t', ?_, heases, hdisk⟩
      rw [Store.insertFirstFit, hpage', Outcome.andThen_ok]
      dsimp only
      rw [hid]
    | none =>
      obtain ⟨r', hpage', hlighter⟩ := h.insertIntoPage_none hpage
      obtain ⟨t', hrest, heases, hdisk⟩ := ih hlighter hinsert
      refine ⟨t', ?_, heases, hdisk⟩
      rw [Store.insertFirstFit, hpage']
      exact hrest

/-- A page that is added is read from the disk in both stores. -/
theorem insertIntoNewPage (h : s.Lighter t) (hf : s.catalog.file f.table = .ok f)
    (hcount : f.Countable s.disk)
    (hinsert : s.insertIntoNewPage tx row f = (.ok (some id), s')) :
    ∃ t', t.insertIntoNewPage tx row f = (.ok (some id), t') ∧ s'.pool.Eases t'.pool ∧
      t'.disk = s'.disk := by
  unfold Store.insertIntoNewPage at hinsert ⊢
  rw [h.disk_eq]
  cases happend : f.appendPage s.disk with
  | error cause =>
    rw [happend] at hinsert
    cases hinsert
  | ok added =>
    obtain ⟨new, disk⟩ := added
    rw [happend] at hinsert
    dsimp only at hinsert ⊢
    obtain ⟨hshows, -, hnew⟩ := h.backed.append hf happend (.inl hcount)
    have hf' : t.catalog.file f.table = .ok f := h.catalog_eq ▸ hf
    have happend' : f.appendPage t.disk = .ok (new, disk) := h.disk_eq.symm ▸ happend
    obtain ⟨hshows', -, -⟩ :=
      h.backed'.append hf' happend' (.inl (h.disk_eq.symm ▸ hcount))
    have hlighter : ({ s with disk } : Store).Lighter { t with disk } :=
      ⟨h.catalog_eq, rfl, by rw [hshows'.view_eq, hshows.view_eq, h.view_eq], hshows.backed,
        hshows'.backed, h.tidy, h.tidy', h.eases⟩
    -- neither pool has a page that is not stored
    have hmiss : s.pool.page? new = none := by
      cases hpage : s.pool.page? new with
      | none => rfl
      | some page => exact absurd (h.backed.legible hpage) (by simp [hnew hcount])
    have hmiss' : t.pool.page? new = none := by
      cases hpage : t.pool.page? new with
      | none => rfl
      | some page =>
        exact absurd (h.backed'.legible hpage) (by simp [h.stored_eq, hnew hcount])
    obtain ⟨stored, r, hpage, hinsert⟩ := Outcome.andThen_eq_ok_iff.1 hinsert
    cases stored with
    | none => cases hinsert
    | some filled =>
      obtain ⟨filled', r', hpage', -, heases, hdisk, hsame⟩ := hlighter.insertIntoPage_some hpage
      cases hsame hmiss hmiss'
      rw [hpage', Outcome.andThen_ok]
      dsimp only at hinsert ⊢
      rw [hdisk]
      cases hwrite : f.writePage r.disk filled with
      | error cause =>
        rw [hwrite] at hinsert
        cases hinsert
      | ok written =>
        rw [hwrite] at hinsert
        cases hinsert
        exact ⟨_, rfl, heases.put _ _, rfl⟩

theorem insertWithin (h : s.Lighter t) (hf : s.catalog.file f.table = .ok f)
    (hrow : row.Complete) (hcount : f.Countable s.disk)
    (hinsert : s.insertWithin tx row f 1 = (.ok id, s')) :
    ∃ t', t.insertWithin tx row f 1 = (.ok id, t') ∧ s'.pool.Eases t'.pool ∧
      t'.disk = s'.disk := by
  unfold Store.insertWithin at hinsert ⊢
  rw [h.disk_eq]
  cases hpages : f.pageCount s.disk with
  | error cause =>
    rw [hpages] at hinsert
    cases hinsert
  | ok pages =>
    rw [hpages] at hinsert
    obtain ⟨stored, r, hfit, hinsert⟩ := Outcome.andThen_eq_ok_iff.1 hinsert
    cases stored with
    | some page =>
      cases hinsert
      obtain ⟨t', hfit', heases, hdisk⟩ := h.insertFirstFit_some hfit
      refine ⟨t', ?_, heases, hdisk⟩
      dsimp only
      rw [hfit', Outcome.andThen_ok]
    | none =>
      obtain ⟨r', hfit', hlighter⟩ := h.insertFirstFit_none hfit
      obtain ⟨stored, u, hnew, hinsert⟩ := Outcome.andThen_eq_ok_iff.1 hinsert
      cases stored with
      | none => cases hinsert
      | some page =>
        cases hinsert
        have houtcome : s.FitOutcome tx row f.table 0 pages (.ok none, r) := by
          rw [← hfit]
          exact h.backed.insertFirstFit hrow 0 pages
        have hstays : s.Stays r := houtcome.1
        obtain ⟨t', hnew', heases, hdisk⟩ := hlighter.insertIntoNewPage
          (hstays.1.catalog_eq ▸ hf) (hstays.2.symm ▸ hcount) hnew
        refine ⟨t', ?_, heases, hdisk⟩
        dsimp only
        rw [hfit', Outcome.andThen_ok]
        dsimp only
        rw [hnew', Outcome.andThen_ok]

theorem insertIntoFile (h : s.Lighter t) (hf : s.catalog.file f.table = .ok f)
    (hslots : 0 < slotCount f.pageSize f.schema.size) (hrow : row.Complete)
    (hcount : f.Countable s.disk) (hinsert : s.insertIntoFile tx f row = (.ok id, s')) :
    ∃ t', t.insertIntoFile tx f row = (.ok id, t') ∧ s'.pool.Eases t'.pool ∧
      t'.disk = s'.disk := by
  have hf' : t.catalog.file f.table = .ok f := h.catalog_eq ▸ hf
  have hcount' : f.Countable t.disk := h.disk_eq ▸ hcount
  unfold Store.insertIntoFile at hinsert ⊢
  cases hcheck : row.checkStorable f.schema with
  | error cause =>
    rw [hcheck] at hinsert
    cases hinsert
  | ok u =>
    rw [hcheck] at hinsert
    dsimp only at hinsert ⊢
    -- one round is enough in both stores, whatever their pools have
    rw [(h.backed.insertWithin_succ hrow hf hslots (fun _ => .inl hcount) _).1] at hinsert
    rw [(h.backed'.insertWithin_succ hrow hf' hslots (fun _ => .inl hcount') _).1]
    exact h.insertWithin hf hrow hcount hinsert

/-- The next row of a table goes to the same place in both stores. -/
theorem landing_eq (h : s.Lighter t) (table : TableId) : t.landing table = s.landing table := by
  have hfree : t.freeRecord = s.freeRecord := by
    funext id
    rw [freeRecord, freeRecord, h.shown_eq]
  rw [landing, landing, hfree, wholePages_congr h.catalog_eq h.disk_eq]

/-- An insertion that succeeds does so in a lighter store too, and comes to the same. -/
theorem insertRow (h : s.Lighter t) (hf : s.catalog.file table = .ok f)
    (hslots : 0 < slotCount f.pageSize f.schema.size) (hrow : row.Complete)
    (hcount : f.Countable s.disk) (hinsert : s.insertRow tx table row = (.ok (), s')) :
    ∃ t', t.insertRow tx table row = (.ok (), t') ∧ s'.Lighter t' := by
  obtain rfl := Catalog.table_of_file hf
  have hf' : t.catalog.file f.table = .ok f := h.catalog_eq ▸ hf
  have houtcome := h.backed.insertOutcome hf hrow hcount hinsert
  have htidy := (h.tidy.insertRow tx f.table row).tidy h.tidy
  have htidy' := (h.tidy'.insertRow tx f.table row).tidy h.tidy'
  rw [hinsert] at htidy
  obtain ⟨t', hinsert', heases, hdisk⟩ : ∃ t', t.insertRow tx f.table row = (.ok (), t') ∧
      s'.pool.Eases t'.pool ∧ t'.disk = s'.disk := by
    unfold Store.insertRow at hinsert ⊢
    rw [hf] at hinsert
    rw [hf']
    obtain ⟨id, r, hfile, hinsert⟩ := Outcome.andThen_eq_ok_iff.1 hinsert
    cases hinsert
    obtain ⟨r', hfile', heases, hdisk⟩ := h.insertIntoFile hf hslots hrow hcount hfile
    refine ⟨r'.markDirty tx id, ?_, ?_, hdisk⟩
    · dsimp only
      rw [hfile', Outcome.andThen_ok]
    · show (r.pool.modify id fun page => page.mark (some tx)).Eases
        (r'.pool.modify id fun page => page.mark (some tx))
      exact heases.modify _ _ (fun _ hid => hid) fun _ hid => hid
  have houtcome' := h.backed'.insertOutcome hf' hrow (h.disk_eq.symm ▸ hcount) hinsert'
  rw [hinsert'] at htidy'
  -- the row lands in the same place, and that is all that is seen of it
  obtain ⟨g, record, hg, -, hlands, -, -, hshows⟩ := houtcome
  obtain ⟨g', record', hg', -, hlands', -, -, hshows'⟩ := houtcome'
  cases hf.symm.trans hg
  cases hf'.symm.trans hg'
  have hrecord : record' = record := by
    rw [← h.backed'.landing_eq hlands', h.landing_eq, h.backed.landing_eq hlands]
  refine ⟨t', hinsert', hshows'.catalog_eq.trans (h.catalog_eq.trans hshows.catalog_eq.symm),
    hdisk, ?_, hshows.backed, hshows'.backed, htidy, htidy', heases⟩
  rw [hshows'.view_eq, hshows.view_eq, h.view_eq, hrecord]

end Lighter

end Store

/-! ### Storing rows -/

namespace Store

variable {s t : Store} {tx : TxId} {table : TableId} {row : Tuple}

/-- Store rows in a table, one after another. -/
def insertRows (s : Store) (tx : TxId) (table : TableId) : List Tuple → Outcome Store Unit
  | [] => (.ok (), s)
  | row :: rows =>
    (s.insertRow tx table row).andThen id fun _ s => s.insertRows tx table rows

theorem insertRows_cons (h : s.insertRow tx table row = (.ok (), t)) (rows : List Tuple) :
    s.insertRows tx table (row :: rows) = t.insertRows tx table rows := by
  rw [insertRows, h, Outcome.andThen_ok]

end Store

end Rowstore
