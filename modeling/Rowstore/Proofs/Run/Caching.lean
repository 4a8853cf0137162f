import Mathlib
import Rowstore.Proofs.Run.Action
import Rowstore.Proofs.Store.Caching

/-!
# The cache along a run

A store whose pool starts with nothing in it, and then any operations, in any order, while others
change the tables and the disk. Nothing is asked of the files: pages may not decode, and writing
them may fail.

* `Store.Permits` says which calls an operation makes of the cache. Only discarding a page, the end
  of a transaction and the writing of pages take pages out by hand.
* `Store.containers_in_step`: in every store that is visited the containers of the pool are in
  step, `Store.InStep`. The cached pages are at most as many as the capacity, the load order names
  each of them once, each is the page of its number, and no transaction has an empty set. A page
  leaves only because a call discards it, or because another page takes its place: then the capacity
  was used up, and the page was the earliest loaded of those that were clean and held by nobody.
-/

namespace Rowstore

/-- What can happen to a store. -/
inductive Event
  | action (a : Action)
  /-- A row is stored that may have columns without values. -/
  | insert (tx : TxId) (table : TableId) (row : Tuple)
  /-- The tables and the disk are changed by others. -/
  | elsewhere (catalog : Catalog) (disk : Disk)

namespace Store

variable {s : Store}

/-- The store after an event. -/
def meet (s : Store) : Event → Store
  | .action a => s.after a
  | .insert tx table row => (s.insertRow tx table row).2
  | .elsewhere catalog disk => { s with catalog, disk }

/-- The stores that are come to from one with nothing in its pool. -/
inductive Visited (capacity : Nat) : Store → Prop
  | new {s : Store} (h : s.pool = { capacity }) : Visited capacity s
  | meet {s : Store} (h : Visited capacity s) (e : Event) : Visited capacity (s.meet e)

/-- The calls that an event may make of the cache. -/
def Permits (s : Store) : Event → Cache → Cache.Call → Prop
  | .insert tx _ _, c, x => c.Works tx x
  | .elsewhere _ _, _, _ => False
  | .action (.acquire tx _), c, x => c.Works tx x
  | .action (.release tx _), c, x => c.Works tx x
  | .action (.insert tx _ _ _), c, x => c.Works tx x
  | .action (.delete tx _), c, x => c.Works tx x
  | .action (.scan scan _), c, x => c.Works scan.tx x
  | .action (.append _), _, _ => False
  | .action (.discard id), _, x => x = .discard id
  | .action (.flush id), c, x => c.Flushes (fun other => other = id ∧ s.Unregistered other) x
  | .action .flushAll, c, x => c.Flushes s.Unregistered x
  -- the pages that the transaction marked last: all of them when it aborts, and when it commits
  -- those that cannot be written
  | .action (.complete tx commit), c, x => x = .releaseAll tx ∨
      c.Flushes (fun id => s.mark id = some tx ∧ (commit = false ∨ s.Unregistered id)) x

theorem Tidy.complete (h : s.Tidy) (tx : TxId) (commit : Bool) :
    s.Calls (s.Permits (.action (.complete tx commit))) (s.complete tx commit).2 := by
  have hrelease : s.Calls (s.Permits (.action (.complete tx commit)))
      { s with pool := s.pool.releaseAll tx } :=
    .of_call (x := .releaseAll tx) trivial (.inl rfl) (s.pool.cache_releaseAll tx).symm
  refine hrelease.trans ((calls_settle commit (s.dirtiedBy tx) ?_ (.ok ())).mono fun c x => .inr)
  exact fun id hid hgone => ⟨(mem_dirtiedBy h.nodup).1 hid, hgone⟩

/-- A file grows without the pool. -/
theorem pool_appendPage (s : Store) (table : TableId) : (s.appendPage table).2.pool = s.pool := by
  unfold appendPage
  cases s.catalog.file table with
  | error cause => rfl
  | ok f =>
    simp only [Bind.bind, Except.bind]
    cases f.appendPage s.disk with
    | error cause => rfl
    | ok added => rfl

/-- An event makes the calls it may make. -/
theorem Tidy.meet (h : s.Tidy) (e : Event) : s.Calls (s.Permits e) (s.meet e) := by
  cases e with
  | insert tx table row => exact h.insertRow tx table row
  | elsewhere catalog disk => exact .refl s
  | action a =>
    show s.Calls _ (s.perform a).2
    cases a with
    | acquire tx id =>
      show s.Calls _ (Outcome.ofExcept s _).2
      cases hacquire : s.acquire tx id with
      | error cause => exact .refl s
      | ok given => exact (h.acquire hacquire).1
    | release tx id => exact s.calls_release tx id
    | insert tx table row complete => exact h.insertRow tx table row
    | delete tx row => exact h.deleteRow tx row
    | flush id =>
      show s.Calls _ (Outcome.ofExcept s _).2
      cases hflush : s.flushPage id with
      | error cause => exact .refl s
      | ok t => exact calls_flushPage hflush fun hun => ⟨rfl, hun⟩
    | flushAll => exact calls_flushPages _ fun id _ hun => hun
    | discard id => exact .of_call (x := .discard id) trivial rfl (s.pool.cache_discard id).symm
    | complete tx commit => exact h.complete tx commit
    | append table =>
      show s.Calls _ (s.appendPage table).2
      rw [Calls, pool_appendPage]
      exact .refl
    | scan scan move => exact h.calls_of_acquires (s.acquires_moveScan scan move)

/-- The containers of a store that is visited come about by calls that are safe. -/
theorem Visited.safe {capacity : Nat} (h : Visited capacity s) :
    Cache.Calls Cache.Safe (.empty capacity) s.pool.cache := by
  induction h with
  | new hpool =>
    rw [hpool, Pool.cache_new]
    exact .refl
  | @meet s _ e ih =>
    have htidy : s.Tidy := (ih.safe (Cache.wellFormed_empty capacity)).1
    exact ih.trans ((Cache.Calls.safe (htidy.meet e) htidy).2.2.mono fun c x => And.right)

/-- The containers of a pool are in step, and everything that happens is calls of them. -/
structure InStep (capacity : Nat) (s : Store) : Prop where
  wellFormed : s.pool.cache.WellFormed
  capacity_eq : s.pool.cache.capacity = capacity
  safe : Cache.Calls Cache.Safe (.empty capacity) s.pool.cache
  /-- Every event is safe calls of the kinds that it may make. -/
  permitted : ∀ e, Cache.Calls (fun c x => s.Permits e c x ∧ c.Safe x) s.pool.cache
    (s.meet e).pool.cache
  /-- A page is given out as the cache gives it out. -/
  acquire_eq : ∀ tx id, s.pool.cache.acquire tx id (s.read id) = Outcome.ofExcept s.pool.cache
    ((s.acquire tx id).map fun (page, t) => (page, t.pool.cache))
  /-- A page that can be read and is not cached is refused exactly by a full cache. -/
  full_iff : ∀ tx id page, s.read id = .ok page → id ∉ s.pool.cache.pages →
    (s.acquire tx id = .error .bufferPoolFull ↔ s.pool.cache.Full) ∧
      ∀ cause, s.acquire tx id = .error cause → cause = .bufferPoolFull
  /-- A refusal leaves the containers as they are. -/
  refused : ∀ tx id cause, s.acquire tx id = .error cause →
    s.pool.cache.acquire tx id (s.read id) = (.error cause, s.pool.cache)

/-- **The containers stay in step**, whatever happens. -/
theorem containers_in_step {capacity : Nat} (h : Visited capacity s) : InStep capacity s := by
  obtain ⟨htidy, hcapacity, -⟩ := h.safe.safe (Cache.wellFormed_empty capacity)
  change s.Tidy at htidy
  exact {
    wellFormed := htidy
    capacity_eq := hcapacity
    safe := h.safe
    permitted := fun e => ((htidy.meet e).safe htidy).2.2
    acquire_eq := htidy.cache_acquire
    full_iff := fun tx id page hread hmiss => htidy.acquire_eq_full_iff hread hmiss
    refused := fun tx id cause hfails => htidy.acquire_eq_error_iff.1 hfails }

/-- A page that is held fills a cache for one page, and makes room for another one when it is let
go. -/
theorem held_page_fills_cache :
    let pages := single numbers 5 1 [1, 7, 0, 0, 0] 5
    let s := pages.meet (.action (.acquire ⟨1⟩ ⟨only, 0⟩))
    let t := s.meet (.action (.release ⟨1⟩ ⟨only, 0⟩))
    Visited 1 s ∧ s.acquire ⟨2⟩ ⟨only, 1⟩ = .error .bufferPoolFull ∧ s.pool.cache.Full ∧
      Visited 1 t ∧ (t.acquire ⟨2⟩ ⟨only, 1⟩).toOption.isSome ∧ ¬ t.pool.cache.Full := by
  intro pages s t
  have hs : Visited 1 s := .meet (.new rfl) _
  have ht : Visited 1 t := .meet hs _
  have hrefused : s.acquire ⟨2⟩ ⟨only, 1⟩ = .error .bufferPoolFull := by decide +kernel
  have hgiven : (t.acquire ⟨2⟩ ⟨only, 1⟩).toOption.isSome := by decide +kernel
  have hfull : ∀ u, Visited 1 u → (u.read ⟨only, 1⟩).toOption.isSome →
      u.pool.page? ⟨only, 1⟩ = none →
      (u.acquire ⟨2⟩ ⟨only, 1⟩ = .error .bufferPoolFull ↔ u.pool.cache.Full) := by
    intro u hu hread hnone
    cases hpage : u.read ⟨only, 1⟩ with
    | error cause =>
      rw [hpage] at hread
      cases hread
    | ok page =>
      exact ((containers_in_step hu).full_iff ⟨2⟩ _ page hpage fun hmem =>
        Pool.mem_cache.1 hmem hnone).1
  -- the page is in the file in both stores, and in neither it is in memory
  have hs_full := hfull s hs (by decide +kernel) (by decide +kernel)
  have ht_full := hfull t ht (by decide +kernel) (by decide +kernel)
  refine ⟨hs, hrefused, hs_full.1 hrefused, ht, hgiven, fun hfull => ?_⟩
  rw [ht_full.2 hfull] at hgiven
  cases hgiven

end Store

end Rowstore
