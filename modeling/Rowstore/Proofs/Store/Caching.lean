import Mathlib
import Rowstore.Mutation
import Rowstore.Proofs.Page.Slots
import Rowstore.Proofs.Pool.Containers
import Rowstore.Proofs.Store.Moves

/-!
# What operations ask of the cache

Every operation on a store is calls of the cache that its pool is, one after another. Which calls
an operation makes is said here; what a call does to the containers is said with the cache.

* An operation of a transaction acquires pages and lets them go, and changes and marks pages only
  while it holds them, `Cache.Works`. It takes no page out.
* Writing pages puts them back clean, and takes out those of tables that are not registered,
  `Cache.Flushes`.
* `Store.Tidy.cache_acquire`: a page is given out, or refused, as the cache does it.
-/

namespace Rowstore

namespace Cache

variable {K L : Cache → Call → Prop} {c d : Cache}

/-- From one cache to another by calls of a kind. -/
def Calls (K : Cache → Call → Prop) : Cache → Cache → Prop :=
  Relation.ReflTransGen fun c d => ∃ x, x.Fair ∧ K c x ∧ c.call x = d

theorem Calls.of_call {x : Call} (hfair : x.Fair) (hkind : K c x) (h : c.call x = d) :
    Calls K c d :=
  .single ⟨x, hfair, hkind, h⟩

theorem Calls.mono (h : Calls K c d) (hKL : ∀ c x, K c x → L c x) : Calls L c d :=
  Relation.ReflTransGen.mono (fun c _ ⟨x, hfair, hkind, hx⟩ => ⟨x, hfair, hKL c x hkind, hx⟩) _ _ h

/-- Calls keep the containers in step, and each of them takes out only what it may. -/
theorem Calls.safe (h : Calls K c d) (hc : c.WellFormed) :
    d.WellFormed ∧ d.capacity = c.capacity ∧ Calls (fun c x => K c x ∧ c.Safe x) c d := by
  induction h with
  | refl => exact ⟨hc, rfl, .refl⟩
  | tail _ hlast ih =>
    obtain ⟨x, hfair, hkind, rfl⟩ := hlast
    obtain ⟨hmid, hcapacity, hcalls⟩ := ih
    have hsafe := hmid.safe hfair
    exact ⟨hsafe.wellFormed, hsafe.capacity_eq.trans hcapacity,
      hcalls.tail ⟨x, hfair, ⟨hkind, hsafe⟩, rfl⟩⟩

/-- The calls of an operation of a transaction. -/
def Works (tx : TxId) (c : Cache) : Call → Prop
  | .acquire other _ _ => other = tx
  | .release other _ => other = tx
  | .put page => page.id ∈ c.heldBy tx
  | .mark other page => other = tx ∧ page.id ∈ c.heldBy tx ∧ c.page? page.id = some page
  | .discard _ => False
  | .releaseAll _ => False

/-- The calls of an operation that writes pages, and gives up some that it cannot write. -/
def Flushes (gone : PageId → Prop) (_ : Cache) : Call → Prop
  | .put page => ¬ page.isDirty
  | .discard id => gone id
  | .acquire _ _ _ => False
  | .release _ _ => False
  | .mark _ _ => False
  | .releaseAll _ => False

end Cache

namespace Store

variable {s t u : Store} {tx : TxId} {K : Cache → Cache.Call → Prop} {α β : Type}

/-- The page as it is read from the file of its table. -/
def read (s : Store) (id : PageId) : Except DbError Page := do
  let file ← s.catalog.file id.table
  file.readPage s.disk id

/-- The containers of the pool are in step. -/
def Tidy (s : Store) : Prop := s.pool.cache.WellFormed

/-- From one store to another the cache changes by calls of a kind. -/
def Calls (s : Store) (K : Cache → Cache.Call → Prop) (t : Store) : Prop :=
  Cache.Calls K s.pool.cache t.pool.cache

theorem Calls.refl (s : Store) : s.Calls K s := Relation.ReflTransGen.refl

theorem Calls.trans (h : s.Calls K t) (h' : t.Calls K u) : s.Calls K u :=
  Relation.ReflTransGen.trans h h'

theorem Calls.tidy (h : s.Calls K t) (hs : s.Tidy) : t.Tidy := (h.safe hs).1

/-- A page is cached and held by a transaction, which may change it. -/
structure Lends (s : Store) (tx : TxId) (id : PageId) : Prop where
  cached : ∃ page, s.pool.page? id = some page
  held : id ∈ s.pool.heldBy tx

/-! ### The calls of an operation -/

/-- What an operation of a transaction comes to: its calls, and what holds of its result. -/
def Does (s : Store) (tx : TxId) (o : Outcome Store α) (P : α → Store → Prop) : Prop :=
  s.Calls (Cache.Works tx) o.2 ∧ ∀ a, o.1 = .ok a → P a o.2

theorem Does.error (h : s.Calls (Cache.Works tx) t) (cause : DbError) (P : α → Store → Prop) :
    s.Does tx (.error cause, t) P :=
  ⟨h, nofun⟩

theorem Does.ok {a : α} {P : α → Store → Prop} (h : s.Calls (Cache.Works tx) t) (ha : P a t) :
    s.Does tx (.ok a, t) P := by
  refine ⟨h, ?_⟩
  rintro _ ⟨⟩
  exact ha

theorem Does.from {o : Outcome Store α} {P : α → Store → Prop} (h : s.Calls (Cache.Works tx) t)
    (ho : t.Does tx o P) : s.Does tx o P :=
  ⟨h.trans ho.1, ho.2⟩

/-- An operation that goes on from the result of another one. -/
theorem Does.andThen {o : Outcome Store α} {next : α → Store → Outcome Store β}
    {P : α → Store → Prop} {Q : β → Store → Prop} (h : s.Does tx o P) (hs : s.Tidy)
    (hnext : ∀ a t, t.Tidy → P a t → t.Does tx (next a t) Q) :
    s.Does tx (o.andThen id next) Q := by
  obtain ⟨result, t⟩ := o
  obtain ⟨hcalls, hresult⟩ := h
  cases result with
  | error cause => exact .error hcalls cause Q
  | ok a => exact (hnext a t (hcalls.tidy hs) (hresult a rfl)).from hcalls

variable {id : PageId} {page : Page} {row : Tuple} {f : HeapFile}

/-! ### Giving out pages -/

theorem id_of_read (h : s.read id = .ok page) : page.id = id := by
  obtain ⟨f, -, hread⟩ := bind_eq_ok_iff.1 h
  exact (HeapFile.holds_of_readPage hread).2.1

theorem acquire_of_none (h : s.pool.page? id = none) : s.acquire tx id = do
    let page ← s.read id
    let pool ← s.pool.load page
    return (page, { s with pool := pool.hold tx id }) := by
  simp only [acquire, h, read, bind_assoc]

/-- A page is given out, or refused, as the cache does it. A refusal leaves the cache as it is. -/
theorem Tidy.cache_acquire (h : s.Tidy) (tx : TxId) (id : PageId) :
    s.pool.cache.acquire tx id (s.read id) = Outcome.ofExcept s.pool.cache
      ((s.acquire tx id).map fun (page, t) => (page, t.pool.cache)) := by
  cases hpage : s.pool.page? id with
  | some page =>
    rw [acquire_of_page? hpage, Cache.acquire_hit tx _ ((s.pool.cache_page? id).trans hpage),
      ← Pool.cache_hold]
    rfl
  | none =>
    have hmiss := (s.pool.cache_page? id).trans hpage
    rw [acquire_of_none hpage]
    cases hread : s.read id with
    | error cause => exact Cache.acquire_unread tx cause hmiss
    | ok page =>
      obtain rfl := id_of_read hread
      rw [Cache.acquire_miss tx page hmiss, Pool.cache_load h hpage]
      show _ = Outcome.ofExcept _ (Except.map _ (s.pool.load page >>= fun pool => _))
      cases s.pool.load page with
      | error cause => rfl
      | ok pool =>
        show (Except.ok page, pool.cache.hold tx page.id) = (Except.ok page, _)
        rw [← Pool.cache_hold]

theorem Tidy.acquire_eq_error_iff (h : s.Tidy) {cause : DbError} :
    s.acquire tx id = .error cause ↔
      s.pool.cache.acquire tx id (s.read id) = (.error cause, s.pool.cache) := by
  rw [h.cache_acquire tx id]
  cases s.acquire tx id with
  | error other => simp [Except.map]
  | ok given => simp [Except.map]

/-- A page that can be read and is not cached is refused exactly by a full cache, and for nothing
else. -/
theorem Tidy.acquire_eq_full_iff (h : s.Tidy) (hread : s.read id = .ok page)
    (hmiss : id ∉ s.pool.cache.pages) :
    (s.acquire tx id = .error .bufferPoolFull ↔ s.pool.cache.Full) ∧
      ∀ cause, s.acquire tx id = .error cause → cause = .bufferPoolFull := by
  simp only [h.acquire_eq_error_iff, hread]
  rcases Cache.WellFormed.acquire_of_miss h tx hmiss page with ⟨d, htakes, heq⟩ | ⟨hfull, heq⟩
  · rw [heq]
    exact ⟨⟨nofun, fun hfull => absurd hfull htakes.not_full⟩, nofun⟩
  · rw [heq]
    refine ⟨⟨fun _ => hfull, fun _ => rfl⟩, ?_⟩
    rintro _ ⟨⟩
    rfl

/-- A page that was given out is cached and held. -/
theorem Tidy.acquire (h : s.Tidy) (hacquire : s.acquire tx id = .ok (page, t)) :
    s.Calls (Cache.Works tx) t ∧ page.id = id ∧ t.Lends tx id := by
  have hcache := h.cache_acquire tx id
  rw [hacquire] at hcache
  refine ⟨.of_call (x := .acquire tx id (s.read id)) (fun _ => id_of_read) rfl ?_, ?_⟩
  · show (s.pool.cache.acquire tx id (s.read id)).2 = _
    rw [hcache]
    rfl
  obtain rfl := id_of_acquire hacquire
  refine ⟨rfl, ?_⟩
  rcases acquire_cases hacquire with ⟨hpage, rfl⟩ | ⟨f, pool, hmiss, -, -, hload, rfl⟩
  · refine ⟨⟨page, hpage⟩, ?_⟩
    rw [Pool.heldBy_hold, if_pos rfl]
    exact Finset.mem_insert_self _ _
  · refine ⟨⟨page, (Pool.page?_load h.nodup hmiss hload).1⟩, ?_⟩
    rw [Pool.heldBy_hold, if_pos rfl]
    exact Finset.mem_insert_self _ _

theorem calls_release (s : Store) (tx : TxId) (id : PageId) :
    s.Calls (Cache.Works tx) (s.release tx id) :=
  .of_call (x := .release tx id) trivial rfl (s.pool.cache_release tx id).symm

/-! ### Changing pages -/

/-- A page that is lent can be changed, and stays lent. -/
theorem Lends.put (h : s.Lends tx id) (hid : page.id = id) :
    s.Calls (Cache.Works tx) (s.put page) ∧ (s.put page).Lends tx id := by
  subst hid
  obtain ⟨old, hold⟩ := h.cached
  refine ⟨.of_call (x := .put page) trivial ?_ (Pool.cache_put hold).symm, ⟨page, ?_⟩, h.held⟩
  · rw [Cache.Works, Pool.cache_heldBy]
    exact h.held
  · rw [Store.put, Pool.page?_put, if_pos rfl, hold]
    rfl

theorem Lends.markDirty (h : s.Lends tx id) : s.Calls (Cache.Works tx) (s.markDirty tx id) := by
  obtain ⟨page, hpage⟩ := h.cached
  have hid := (Pool.mem_of_page? hpage).2
  refine .of_call (x := .mark tx page) trivial ⟨rfl, ?_, ?_⟩ (Pool.cache_mark tx hpage).symm
  · rw [Pool.cache_heldBy, hid]
    exact h.held
  · rw [Pool.cache_page?, hid, hpage]

/-! ### Storing and deleting rows -/

/-- The page that took a row stays lent. -/
theorem Tidy.insertIntoPage (h : s.Tidy) (row : Tuple) (id : PageId) :
    s.Does tx (s.insertIntoPage tx row id) fun stored t =>
      ∀ page, stored = some page → page.id = id ∧ t.Lends tx id := by
  rcases s.insertIntoPage_cases tx row id with ⟨cause, -, heq⟩ | ⟨page, t, hacquire, hcases⟩
  · rw [heq]
    exact .error (.refl s) _ _
  · obtain ⟨hcalls, hid, hlends⟩ := h.acquire hacquire
    have hrelease := hcalls.trans (t.calls_release tx id)
    rcases hcases with ⟨-, heq⟩ | ⟨cause, -, -, heq⟩ | ⟨record, filled, -, hinsert, heq⟩
    · rw [heq]
      exact .ok hrelease nofun
    · rw [heq]
      exact .error hrelease _ _
    · have hfilled : filled.id = id := (Page.id_of_insert hinsert).trans hid
      obtain ⟨hput, hlends⟩ := hlends.put hfilled
      rw [heq]
      refine .ok (hcalls.trans hput) ?_
      rintro _ ⟨⟩
      exact ⟨hfilled, hlends⟩

theorem Tidy.insertFirstFit (h : s.Tidy) (row : Tuple) (table : TableId) (first pages : Nat) :
    s.Does tx (s.insertFirstFit tx row table first pages) fun stored t =>
      ∀ id, stored = some id → t.Lends tx id := by
  induction pages generalizing s first with
  | zero => exact .ok (.refl s) nofun
  | succ pages ih =>
    refine (h.insertIntoPage row ⟨table, first⟩).andThen h fun stored t ht hstored => ?_
    cases stored with
    | none => exact ih ht (first + 1)
    | some page =>
      obtain ⟨hid, hlends⟩ := hstored page rfl
      refine .ok (.refl t) ?_
      rintro _ ⟨⟩
      rwa [hid]

theorem Tidy.insertIntoNewPage (h : s.Tidy) (row : Tuple) (f : HeapFile) :
    s.Does tx (s.insertIntoNewPage tx row f) fun stored t =>
      ∀ id, stored = some id → t.Lends tx id := by
  unfold Store.insertIntoNewPage
  split
  · exact .error (.refl s) _ _
  · rename_i new disk happend
    -- the file has grown, and the cache is as before
    have hgrown : ({ s with disk } : Store).Tidy := h
    have hsame : s.Calls (Cache.Works tx) { s with disk } := .refl s
    refine Does.from hsame ?_
    refine (hgrown.insertIntoPage row new).andThen hgrown fun stored t ht hstored => ?_
    cases stored with
    | none => exact .ok (.refl t) nofun
    | some page =>
      obtain ⟨hid, hlends⟩ := hstored page rfl
      dsimp only
      split
      · exact .error (t.calls_release tx new) _ _
      · rename_i written disk' hwrite
        have hwritten : written.id = new := by
          rw [HeapFile.mark_of_writePage hwrite, Page.id_mark, hid]
        obtain ⟨hput, hlends⟩ := hlends.put hwritten
        refine .ok hput ?_
        rintro _ ⟨⟩
        exact ⟨hlends.cached, hlends.held⟩

theorem Tidy.insertWithin (h : s.Tidy) (row : Tuple) (f : HeapFile) (rounds : Nat) :
    s.Does tx (s.insertWithin tx row f rounds) fun id t => t.Lends tx id := by
  induction rounds generalizing s with
  | zero => exact .error (.refl s) _ _
  | succ rounds ih =>
    unfold Store.insertWithin
    split
    · exact .error (.refl s) _ _
    · rename_i count hcount
      refine (h.insertFirstFit row f.table 0 count).andThen h fun stored t ht hstored => ?_
      cases stored with
      | some id => exact .ok (.refl t) (hstored id rfl)
      | none =>
        refine (ht.insertIntoNewPage row f).andThen ht fun stored u hu hstored => ?_
        cases stored with
        | some id => exact .ok (.refl u) (hstored id rfl)
        | none => exact ih hu

/-- The page that an operation changed is marked, if there is one. -/
theorem Does.markDirty {o : Outcome Store PageId} (ho : s.Does tx o fun id t => t.Lends tx id)
    (h : s.Tidy) : s.Calls (Cache.Works tx)
      (o.andThen (fun t => t) fun id t => (.ok (), t.markDirty tx id)).2 := by
  have hmarked : s.Does tx (o.andThen (fun t => t) fun id t => (.ok (), t.markDirty tx id))
      fun _ _ => True :=
    ho.andThen h fun id t _ hlends => .ok hlends.markDirty trivial
  exact hmarked.1

/-- Storing a row is work of the transaction. -/
theorem Tidy.insertRow (h : s.Tidy) (tx : TxId) (table : TableId) (row : Tuple) :
    s.Calls (Cache.Works tx) (s.insertRow tx table row).2 := by
  unfold Store.insertRow
  split
  · exact .refl s
  · rename_i f hf
    have hfile : s.Does tx (s.insertIntoFile tx f row) fun id t => t.Lends tx id := by
      unfold Store.insertIntoFile
      split
      · exact .error (.refl s) _ _
      · exact h.insertWithin row f _
    exact hfile.markDirty h

/-- Deleting a row is work of the transaction. -/
theorem Tidy.deleteRow (h : s.Tidy) (tx : TxId) (row : Tuple) :
    s.Calls (Cache.Works tx) (s.deleteRow tx row).2 := by
  unfold Store.deleteRow
  split
  · exact .refl s
  rename_i record hrecord
  split
  · exact .refl s
  rename_i f hf
  have hfile : s.Does tx (s.deleteFromFile tx f row) fun id t => t.Lends tx id := by
    rcases s.deleteFromFile_cases tx f row with
      ⟨cause, heq⟩ | ⟨record, count, page, t, -, -, -, -, hacquire, hcases⟩
    · rw [heq]
      exact .error (.refl s) _ _
    · obtain ⟨hcalls, hid, hlends⟩ := h.acquire hacquire
      rcases hcases with ⟨cause, -, heq⟩ | ⟨left, hdelete, heq⟩
      · rw [heq]
        exact .error (hcalls.trans (t.calls_release tx _)) _ _
      · have hleft : left.id = record.page := (Page.id_of_delete hdelete).trans hid
        obtain ⟨hput, hlends⟩ := hlends.put hleft
        rw [heq]
        exact .ok (hcalls.trans hput) hlends
  exact hfile.markDirty h

/-! ### Scanning -/

/-- Acquiring pages is work of the transaction. -/
theorem Tidy.calls_of_acquires (h : s.Tidy) (hmoves : s.Acquires tx t) :
    s.Calls (Cache.Works tx) t := by
  induction hmoves with
  | refl => exact .refl s
  | tail _ hlast ih =>
    obtain ⟨id, page, hacquire⟩ := hlast
    exact ih.trans ((ih.tidy h).acquire hacquire).1

/-! ### Writing pages and giving them up -/

/-- The table of the page is not registered, so the page cannot be written. -/
def Unregistered (s : Store) (id : PageId) : Prop := ∀ f, s.catalog.file id.table ≠ .ok f

theorem catalog_of_flushPage (h : s.flushPage id = .ok t) : t.catalog = s.catalog := by
  rcases flushPage_cases h with ⟨rfl, -⟩ | ⟨rfl, -⟩ | ⟨f, page, disk, -, -, -, -, rfl⟩
  · rfl
  · rfl
  · rfl

theorem calls_discard {P : PageId → Prop} (s : Store) (hid : P id) :
    s.Calls (Cache.Flushes P) (s.discard id) :=
  .of_call (x := .discard id) trivial hid (s.pool.cache_discard id).symm

theorem calls_flushPage {P : PageId → Prop} (h : s.flushPage id = .ok t)
    (hid : s.Unregistered id → P id) : s.Calls (Cache.Flushes P) t := by
  rcases flushPage_cases h with ⟨rfl, -⟩ | ⟨rfl, hun⟩ | ⟨f, page, disk, -, hpage, -, -, rfl⟩
  · exact .refl _
  · exact s.calls_discard (hid hun)
  · obtain rfl := (Pool.mem_of_page? hpage).2
    have hput : (s.pool.put (page.mark none)).cache = s.pool.cache.put (page.mark none) :=
      Pool.cache_put hpage
    refine .of_call (x := .put (page.mark none)) trivial ?_ hput.symm
    simp [Cache.Flushes, Page.isDirty]

theorem calls_flushPages {P : PageId → Prop} (ids : List PageId)
    (hids : ∀ id ∈ ids, s.Unregistered id → P id) :
    s.Calls (Cache.Flushes P) (s.flushPages ids).2 := by
  induction ids generalizing s with
  | nil => exact .refl s
  | cons id ids ih =>
    unfold flushPages
    split
    · exact .refl s
    · rename_i t hflush
      have hcatalog := catalog_of_flushPage hflush
      refine (calls_flushPage hflush (hids id (by simp))).trans (ih fun other hother hun => ?_)
      refine hids other (List.mem_cons_of_mem id hother) ?_
      rwa [Unregistered, ← hcatalog]

/-- The pages of a transaction that ends are written, or given up. -/
theorem calls_settle {P : PageId → Prop} (commit : Bool) (ids : List PageId)
    (hids : ∀ id ∈ ids, commit = false ∨ s.Unregistered id → P id) (first : Except DbError Unit) :
    s.Calls (Cache.Flushes P) (ids.foldl (settle commit) (first, s)).2 := by
  induction ids generalizing s first with
  | nil => exact .refl s
  | cons id ids ih =>
    have hrest : ∀ other ∈ ids, commit = false ∨ s.Unregistered other → P other :=
      fun other hother => hids other (List.mem_cons_of_mem id hother)
    rw [List.foldl_cons]
    cases commit with
    | false =>
      have hgone := hids id (by simp) (.inl rfl)
      exact (s.calls_discard hgone).trans (ih (s := s.discard id) hrest first)
    | true =>
      simp only [settle]
      split
      · rename_i t hflush
        have hcatalog := catalog_of_flushPage hflush
        refine (calls_flushPage hflush fun hun => hids id (by simp) (.inr hun)).trans (ih ?_ first)
        intro other hother hun
        refine hrest other hother (hun.imp nofun fun hun => ?_)
        rwa [Unregistered, ← hcatalog]
      · exact ih hrest _

end Store

end Rowstore
