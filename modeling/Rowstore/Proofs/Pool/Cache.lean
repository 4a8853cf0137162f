import Mathlib
import Rowstore.Outcome
import Rowstore.Page

/-!
# Caches

A pool as three containers side by side: the cached pages by their numbers, the numbers in the
order the pages were loaded, and the set of pages that each transaction holds. Every call touches
some of the containers, and they have to stay in step, `Cache.WellFormed`.

* A page that is loaded needs room. While the cache is at its capacity the earliest loaded page
  that is clean and held by nobody leaves; if there is none the cache is full.
* `Cache.WellFormed.makeRoom_eq`: one eviction always makes room, so a load takes out one page or
  fails before it has changed anything.
* `Cache.WellFormed.safe`: every call keeps the containers in step, and takes out no page but the
  one that is discarded or the one that an eviction may take.
* `Cache.WellFormed.acquire_of_miss`: a page that can be read is refused exactly by a full cache.
-/

namespace Rowstore

/-- The pages in memory, in three containers. -/
structure Cache where
  capacity : Nat
  pages : Finmap fun _ : PageId => Page
  /-- The numbers of the cached pages, the earliest loaded first. -/
  loadOrder : List PageId
  holds : Finmap fun _ : TxId => Finset PageId

/-- What a cache can be asked to do. -/
inductive Cache.Call
  /-- A page is given to a transaction. A page that is not cached is read, which may fail. -/
  | acquire (tx : TxId) (id : PageId) (read : Except DbError Page)
  | release (tx : TxId) (id : PageId)
  /-- A cached page is changed in its place. -/
  | put (page : Page)
  | mark (tx : TxId) (page : Page)
  | discard (id : PageId)
  | releaseAll (tx : TxId)

namespace Cache

variable {c : Cache} {id : PageId} {page : Page} {tx : TxId}

/-- A cache with nothing in it. -/
def empty (capacity : Nat) : Cache := ⟨capacity, ∅, [], ∅⟩

/-- The count of cached pages. -/
def size (c : Cache) : Nat := c.pages.keys.card

/-- The cached page with a number. -/
def page? (c : Cache) (id : PageId) : Option Page := c.pages.lookup id

/-! ### Holding -/

/-- The pages that a transaction holds. -/
def heldBy (c : Cache) (tx : TxId) : Finset PageId := (c.holds.lookup tx).getD ∅

/-- Whether any transaction holds a page. -/
def isHeld (c : Cache) (id : PageId) : Bool := decide (∃ tx ∈ c.holds.keys, id ∈ c.heldBy tx)

/-- Let a transaction hold a page. -/
def hold (c : Cache) (tx : TxId) (id : PageId) : Cache :=
  { c with holds := c.holds.insert tx (insert id (c.heldBy tx)) }

/-- End a transaction's hold on a page. A set that has become empty is dropped. -/
def release (c : Cache) (tx : TxId) (id : PageId) : Cache :=
  match c.holds.lookup tx with
  | none => c
  | some held =>
    if held.erase id = ∅ then { c with holds := c.holds.erase tx }
    else { c with holds := c.holds.insert tx (held.erase id) }

/-- End all holds of a transaction. -/
def releaseAll (c : Cache) (tx : TxId) : Cache := { c with holds := c.holds.erase tx }

/-! ### Loading -/

/-- Whether a page is cached, clean and held by nobody. -/
def isLoose (c : Cache) (id : PageId) : Bool :=
  !c.isHeld id && (c.page? id).any fun page => !page.isDirty

/-- The page that an eviction takes: the earliest loaded that is clean and held by nobody. -/
def victim? (c : Cache) : Option PageId := c.loadOrder.find? c.isLoose

/-- Take out the page that an eviction has found. -/
def evict (c : Cache) (id : PageId) : Cache :=
  { c with pages := c.pages.erase id, loadOrder := c.loadOrder.erase id }

/-- Evict pages until there is room for another one. -/
def makeRoom (c : Cache) : Outcome Cache Unit :=
  if c.size < c.capacity then (.ok (), c)
  else match h : c.victim? with
    | none => (.error .bufferPoolFull, c)
    | some id =>
      have : (c.loadOrder.erase id).length < c.loadOrder.length := by
        have hmem := List.mem_of_find?_eq_some h
        have := List.length_pos_of_mem hmem
        rw [List.length_erase_of_mem hmem]
        omega
      (c.evict id).makeRoom
termination_by c.loadOrder.length

/-- Put a page in, behind all others. -/
def add (c : Cache) (id : PageId) (page : Page) : Cache :=
  { c with pages := c.pages.insert id page, loadOrder := c.loadOrder ++ [id] }

/-- Cache a page when there is room or room can be made. -/
def cachePage (c : Cache) (id : PageId) (page : Page) : Outcome Cache Unit :=
  c.makeRoom.andThen (fun c => c) fun _ c => (.ok (), c.add id page)

/-- Give a page to a transaction. -/
def acquire (c : Cache) (tx : TxId) (id : PageId) (read : Except DbError Page) :
    Outcome Cache Page :=
  match c.page? id with
  | some page => (.ok page, c.hold tx id)
  | none =>
    match read with
    | .error cause => (.error cause, c)
    | .ok page => (c.cachePage id page).andThen (fun c => c) fun _ c => (.ok page, c.hold tx id)

/-! ### Changing -/

/-- Change a page in its place, if it is cached. -/
def put (c : Cache) (page : Page) : Cache :=
  if page.id ∈ c.pages then { c with pages := c.pages.insert page.id page } else c

/-- Mark a page as changed by a transaction. A page that is not cached any more is cached again. -/
def mark (c : Cache) (tx : TxId) (page : Page) : Outcome Cache Unit :=
  if page.id ∈ c.pages then (.ok (), c.put (page.mark (some tx)))
  else c.cachePage page.id (page.mark (some tx))

/-- Take a page out without writing it. -/
def discard (c : Cache) (id : PageId) : Cache :=
  { c with pages := c.pages.erase id, loadOrder := c.loadOrder.filter fun other => other ≠ id }

/-- The cache after a call. -/
def call (c : Cache) : Call → Cache
  | .acquire tx id read => (c.acquire tx id read).2
  | .release tx id => c.release tx id
  | .put page => c.put page
  | .mark tx page => (c.mark tx page).2
  | .discard id => c.discard id
  | .releaseAll tx => c.releaseAll tx

/-- A page that is read for a number has that number. -/
def Call.Fair : Call → Prop
  | .acquire _ id read => ∀ page, read = .ok page → page.id = id
  | _ => True

/-! ### What is cached -/

theorem mem_pages : id ∈ c.pages ↔ ∃ page, c.page? id = some page := Finmap.mem_iff

theorem page?_eq_none : c.page? id = none ↔ id ∉ c.pages := Finmap.lookup_eq_none

theorem page?_add (id other : PageId) (page : Page) :
    (c.add id page).page? other = if other = id then some page else c.page? other := by
  split_ifs with hother
  · subst hother
    exact Finmap.lookup_insert _
  · exact Finmap.lookup_insert_of_ne _ hother

theorem page?_discard (id other : PageId) :
    (c.discard id).page? other = if other = id then none else c.page? other := by
  split_ifs with hother
  · subst hother
    exact Finmap.lookup_erase _ _
  · exact Finmap.lookup_erase_ne hother

theorem page?_put (page : Page) (other : PageId) : (c.put page).page? other =
    if other = page.id then (c.page? page.id).map fun _ => page else c.page? other := by
  unfold put
  by_cases hmem : page.id ∈ c.pages
  · obtain ⟨old, hold⟩ := mem_pages.1 hmem
    rw [if_pos hmem, hold]
    exact page?_add page.id other page
  · rw [if_neg hmem, page?_eq_none.2 hmem]
    split_ifs with hother
    · rw [hother, page?_eq_none.2 hmem]
      rfl
    · rfl

theorem mem_put {other : PageId} : other ∈ (c.put page).pages ↔ other ∈ c.pages := by
  simp only [mem_pages, page?_put]
  split_ifs with hother
  · simp [hother]
  · rfl

/-- Changing a page in its place touches nothing but the pages. -/
theorem put_frame (c : Cache) (page : Page) : (c.put page).capacity = c.capacity ∧
    (c.put page).loadOrder = c.loadOrder ∧ (c.put page).holds = c.holds := by
  unfold put
  split_ifs <;> exact ⟨rfl, rfl, rfl⟩

/-! ### Giving out pages -/

theorem acquire_hit (tx : TxId) (read : Except DbError Page) (h : c.page? id = some page) :
    c.acquire tx id read = (.ok page, c.hold tx id) := by simp only [acquire, h]

theorem acquire_unread (tx : TxId) (cause : DbError) (h : c.page? id = none) :
    c.acquire tx id (.error cause) = (.error cause, c) := by simp only [acquire, h]

theorem acquire_miss (tx : TxId) (page : Page) (h : c.page? id = none) :
    c.acquire tx id (.ok page) =
      (c.cachePage id page).andThen (fun c => c) fun _ c => (.ok page, c.hold tx id) := by
  simp only [acquire, h]

/-! ### What is held and what is loose -/

theorem isHeld_iff : c.isHeld id ↔ ∃ tx, id ∈ c.heldBy tx := by
  simp only [isHeld, decide_eq_true_eq]
  constructor
  · rintro ⟨tx, -, hheld⟩
    exact ⟨tx, hheld⟩
  · rintro ⟨tx, hheld⟩
    refine ⟨tx, ?_, hheld⟩
    cases hset : c.holds.lookup tx with
    | none => simp [heldBy, hset] at hheld
    | some held => exact Finmap.mem_keys.2 (Finmap.mem_of_lookup_eq_some hset)

/-- The page is changed, or somebody holds it. -/
def Pinned (c : Cache) (id : PageId) : Prop :=
  (∃ page, c.page? id = some page ∧ page.isDirty) ∨ ∃ tx, id ∈ c.heldBy tx

theorem isLoose_iff : c.isLoose id ↔ id ∈ c.pages ∧ ¬ c.Pinned id := by
  rw [isLoose, Bool.and_eq_true, Bool.not_eq_true', Bool.eq_false_iff, ne_eq, isHeld_iff,
    Option.any_eq_true, Pinned, mem_pages]
  constructor
  · rintro ⟨hunheld, page, hpage, hclean⟩
    refine ⟨⟨page, hpage⟩, ?_⟩
    rintro (⟨other, hother, hdirty⟩ | hheld)
    · cases hpage.symm.trans hother
      simp [hdirty] at hclean
    · exact hunheld hheld
  · rintro ⟨⟨page, hpage⟩, hloose⟩
    refine ⟨fun hheld => hloose (.inr hheld), page, hpage, ?_⟩
    by_contra hdirty
    exact hloose (.inl ⟨page, hpage, by simpa using hdirty⟩)

/-- No page can be loaded: the cache is at its capacity, and every page is changed or held. -/
def Full (c : Cache) : Prop := c.size = c.capacity ∧ ∀ id ∈ c.pages, c.Pinned id

/-- The page is the one that an eviction takes: the cache is at its capacity, and the page is the
earliest loaded of those that are clean and held by nobody. -/
structure Evicts (c : Cache) (id : PageId) : Prop where
  at_capacity : c.size = c.capacity
  loose : ¬ c.Pinned id
  earliest : ∃ before after, c.loadOrder = before ++ id :: after ∧ ∀ other ∈ before, c.Pinned other

/-- The cache after a page was taken in: there was room for it, or another page made room. -/
inductive TakesIn (c : Cache) (id : PageId) (page : Page) : Cache → Prop
  | room (h : c.size < c.capacity) : TakesIn c id page (c.add id page)
  | evict {victim : PageId} (hmem : victim ∈ c.pages) (h : c.Evicts victim) :
      TakesIn c id page ((c.discard victim).add id page)

/-! ### Containers in step -/

/-- The containers are in step. -/
structure WellFormed (c : Cache) : Prop where
  size_le : c.size ≤ c.capacity
  /-- The load order names no page twice. It names the cached pages. -/
  nodup : c.loadOrder.Nodup
  mem_loadOrder : ∀ id, id ∈ c.loadOrder ↔ id ∈ c.pages
  id_eq : ∀ id page, c.page? id = some page → page.id = id
  nonempty : ∀ tx held, c.holds.lookup tx = some held → held ≠ ∅

/-- What a call may do: the containers stay in step, and a page leaves when it is discarded, or else
by an eviction, and then another page takes its place. -/
structure Safe (c : Cache) (x : Call) : Prop where
  wellFormed : (c.call x).WellFormed
  capacity_eq : (c.call x).capacity = c.capacity
  leaves : ∀ id ∈ c.pages, id ∉ (c.call x).pages →
    x = .discard id ∨ c.Evicts id ∧ ∃ new ∉ c.pages, new ∈ (c.call x).pages

theorem wellFormed_empty (capacity : Nat) : (empty capacity).WellFormed where
  size_le := by simp [size, empty]
  nodup := List.nodup_nil
  mem_loadOrder id := by simp [empty, Finmap.notMem_empty]
  id_eq id page h := by simp [empty, page?] at h
  nonempty tx held h := by simp [empty] at h

namespace WellFormed

/-- As many pages are cached as the load order names. -/
theorem size_eq (h : c.WellFormed) : c.size = c.loadOrder.length := by
  have hkeys : c.pages.keys = c.loadOrder.toFinset := by
    ext id
    rw [Finmap.mem_keys, List.mem_toFinset, h.mem_loadOrder]
  rw [size, hkeys, List.toFinset_card_of_nodup h.nodup]

/-- Changing who holds what keeps the containers in step, when no set is left empty. -/
theorem with_holds (h : c.WellFormed) {holds : Finmap fun _ : TxId => Finset PageId}
    (hnonempty : ∀ tx held, holds.lookup tx = some held → held ≠ ∅) :
    ({ c with holds } : Cache).WellFormed :=
  ⟨h.size_le, h.nodup, h.mem_loadOrder, h.id_eq, hnonempty⟩

theorem holds_insert (h : c.WellFormed) (tx : TxId) {held : Finset PageId} (hheld : held ≠ ∅) :
    ({ c with holds := c.holds.insert tx held } : Cache).WellFormed := by
  refine h.with_holds fun other set hset => ?_
  by_cases htx : other = tx
  · rw [htx, Finmap.lookup_insert] at hset
    cases hset
    exact hheld
  · rw [Finmap.lookup_insert_of_ne _ htx] at hset
    exact h.nonempty other set hset

theorem releaseAll (h : c.WellFormed) (tx : TxId) : (c.releaseAll tx).WellFormed := by
  refine h.with_holds fun other set hset => ?_
  by_cases htx : other = tx
  · rw [htx, Finmap.lookup_erase] at hset
    cases hset
  · rw [Finmap.lookup_erase_ne htx] at hset
    exact h.nonempty other set hset

theorem hold (h : c.WellFormed) (tx : TxId) (id : PageId) : (c.hold tx id).WellFormed :=
  h.holds_insert tx (Finset.insert_ne_empty id _)

theorem release (h : c.WellFormed) (tx : TxId) (id : PageId) : (c.release tx id).WellFormed := by
  unfold Cache.release
  cases c.holds.lookup tx with
  | none => exact h
  | some held =>
    show (if held.erase id = ∅ then _ else _ : Cache).WellFormed
    split_ifs with hempty
    · exact h.releaseAll tx
    · exact h.holds_insert tx hempty

theorem discard (h : c.WellFormed) (id : PageId) : (c.discard id).WellFormed where
  size_le := by
    refine le_trans (Finset.card_le_card ?_) h.size_le
    rw [Cache.discard, Finmap.keys_erase]
    exact Finset.erase_subset id _
  nodup := h.nodup.filter _
  mem_loadOrder other := by
    simp only [Cache.discard, List.mem_filter, decide_eq_true_eq, Finmap.mem_erase,
      h.mem_loadOrder other]
    exact and_comm
  id_eq other page hpage := by
    rw [page?_discard] at hpage
    split_ifs at hpage
    exact h.id_eq other page hpage
  nonempty := h.nonempty

/-- An eviction takes a page out of both containers, as giving it up does. -/
theorem evict_eq (h : c.WellFormed) (id : PageId) : c.evict id = c.discard id := by
  have horder : c.loadOrder.erase id = c.loadOrder.filter fun other => other ≠ id := by
    rw [h.nodup.erase_eq_filter]
    exact List.filter_congr fun other _ => Bool.eq_iff_iff.2 (by simp)
  rw [evict, horder, Cache.discard]

theorem size_discard (h : id ∈ c.pages) : (c.discard id).size + 1 = c.size := by
  rw [size, Cache.discard, Finmap.keys_erase]
  exact Finset.card_erase_add_one (Finmap.mem_keys.2 h)

theorem put (h : c.WellFormed) (page : Page) : (c.put page).WellFormed := by
  have hkeys : (c.put page).pages.keys = c.pages.keys := by
    ext id
    rw [Finmap.mem_keys, Finmap.mem_keys, mem_put]
  obtain ⟨hcapacity, horder, hholds⟩ := put_frame c page
  refine ⟨?_, horder ▸ h.nodup, fun id => ?_, fun id found hfound => ?_, hholds ▸ h.nonempty⟩
  · rw [hcapacity, size, hkeys]
    exact h.size_le
  · rw [horder, h.mem_loadOrder, mem_put]
  · rw [page?_put] at hfound
    split_ifs at hfound with hid
    · obtain ⟨-, -, rfl⟩ := Option.map_eq_some_iff.1 hfound
      exact hid.symm
    · exact h.id_eq id found hfound

/-! ### Making room -/

theorem add (h : c.WellFormed) (hsize : c.size < c.capacity) (hnew : id ∉ c.pages)
    (hid : page.id = id) : (c.add id page).WellFormed where
  size_le := by
    have hkeys : (c.pages.insert id page).keys = insert id c.pages.keys := by
      ext other
      simp [Finmap.mem_keys, Finmap.mem_insert]
    show (c.pages.insert id page).keys.card ≤ c.capacity
    rw [hkeys]
    exact (Finset.card_insert_le _ _).trans hsize
  nodup := by
    rw [Cache.add, List.nodup_append]
    refine ⟨h.nodup, List.nodup_singleton id, ?_⟩
    rintro other hother _ hsingle rfl
    rw [List.mem_singleton] at hsingle
    exact hnew (hsingle ▸ (h.mem_loadOrder other).1 hother)
  mem_loadOrder other := by
    simp only [Cache.add, List.mem_append, List.mem_singleton, Finmap.mem_insert,
      h.mem_loadOrder other]
    exact or_comm
  id_eq other found hfound := by
    rw [page?_add] at hfound
    split_ifs at hfound with hother
    · cases hfound
      exact hid.trans hother.symm
    · exact h.id_eq other found hfound
  nonempty := h.nonempty

/-- The page that an eviction finds is cached. -/
theorem mem_of_victim (h : c.WellFormed) (hvictim : c.victim? = some id) : id ∈ c.pages :=
  (h.mem_loadOrder id).1 (List.mem_of_find?_eq_some hvictim)

theorem evicts_of_victim (h : c.WellFormed) (hsize : ¬ c.size < c.capacity)
    (hvictim : c.victim? = some id) : c.Evicts id := by
  obtain ⟨hloose, before, after, horder, hbefore⟩ := List.find?_eq_some_iff_append.1 hvictim
  have hle := h.size_le
  refine ⟨by omega, (isLoose_iff.1 hloose).2, before, after, horder, fun other hother => ?_⟩
  by_contra hpinned
  have hmem : other ∈ c.pages := by
    rw [← h.mem_loadOrder, horder]
    exact List.mem_append_left _ hother
  simpa [isLoose_iff.2 ⟨hmem, hpinned⟩] using hbefore other hother

/-- The cache is full exactly when it is at its capacity and no page can leave. -/
theorem full_iff (h : c.WellFormed) : c.Full ↔ ¬ c.size < c.capacity ∧ c.victim? = none := by
  have hle := h.size_le
  have hsize : c.size = c.capacity ↔ ¬ c.size < c.capacity := by omega
  rw [Full, hsize, victim?, List.find?_eq_none]
  refine and_congr_right fun _ => forall_congr' fun id => ?_
  rw [h.mem_loadOrder, isLoose_iff]
  by_cases hpinned : c.Pinned id <;> simp [hpinned]

/-- One eviction makes room, and when none is possible nothing has changed. -/
theorem makeRoom_eq (h : c.WellFormed) : c.makeRoom =
    if c.size < c.capacity then (.ok (), c)
    else match c.victim? with
      | none => (.error .bufferPoolFull, c)
      | some id => (.ok (), c.discard id) := by
  rw [makeRoom]
  split_ifs with hsize
  · rfl
  · split
    · rename_i hvictim
      rw [hvictim]
    · rename_i id hvictim
      have hroom := size_discard (h.mem_of_victim hvictim)
      have hle := h.size_le
      have hlt : (c.discard id).size < (c.discard id).capacity := by
        show (c.discard id).size < c.capacity
        omega
      simp only [hvictim, h.evict_eq id]
      rw [makeRoom, if_pos hlt]

/-- A page is taken in, unless the cache is full. Then nothing has changed. -/
theorem cachePage_cases (h : c.WellFormed) (id : PageId) (page : Page) :
    (∃ d, c.TakesIn id page d ∧ c.cachePage id page = (.ok (), d)) ∨
    (c.Full ∧ c.cachePage id page = (.error .bufferPoolFull, c)) := by
  rw [cachePage, h.makeRoom_eq, h.full_iff]
  by_cases hsize : c.size < c.capacity
  · rw [if_pos hsize]
    exact .inl ⟨_, .room hsize, rfl⟩
  · rw [if_neg hsize]
    cases hvictim : c.victim? with
    | none => exact .inr ⟨⟨hsize, rfl⟩, rfl⟩
    | some victim =>
      have hevicts := h.evicts_of_victim hsize hvictim
      exact .inl ⟨_, .evict (h.mem_of_victim hvictim) hevicts, rfl⟩

end WellFormed

namespace TakesIn

variable {d : Cache}

theorem wellFormed (ht : c.TakesIn id page d) (h : c.WellFormed) (hnew : id ∉ c.pages)
    (hid : page.id = id) : d.WellFormed := by
  cases ht with
  | room hsize => exact h.add hsize hnew hid
  | evict hmem hevicts =>
    rename_i victim
    have hroom := WellFormed.size_discard hmem
    have hcapacity := hevicts.at_capacity
    refine (h.discard victim).add ?_ ?_ hid
    · show (c.discard victim).size < c.capacity
      omega
    · simp only [discard, Finmap.mem_erase, not_and]
      exact fun _ => hnew

theorem capacity_eq (ht : c.TakesIn id page d) : d.capacity = c.capacity := by
  cases ht <;> rfl

/-- A page that is lost when another one is taken in was evicted. -/
theorem evicts (ht : c.TakesIn id page d) {gone : PageId} (hcached : gone ∈ c.pages)
    (hgone : gone ∉ d.pages) : c.Evicts gone := by
  cases ht with
  | room => exact absurd (Finmap.mem_insert.2 (.inr hcached)) hgone
  | evict hmem hevicts =>
    rename_i victim
    by_cases hvictim : gone = victim
    · exact hvictim ▸ hevicts
    · exact absurd (Finmap.mem_insert.2 (.inr (Finmap.mem_erase.2 ⟨hvictim, hcached⟩))) hgone

theorem mem_pages (ht : c.TakesIn id page d) : id ∈ d.pages := by
  cases ht <;> exact Finmap.mem_insert.2 (.inl rfl)

theorem not_full (ht : c.TakesIn id page d) : ¬ c.Full := by
  intro hfull
  cases ht with
  | room hsize => exact absurd hfull.1 hsize.ne
  | evict hmem hevicts => exact hevicts.loose (hfull.2 _ hmem)

end TakesIn

namespace WellFormed

/-! ### Calls -/

/-- A page that is not cached but can be read is given out, unless the cache is full. Then nothing
has changed. -/
theorem acquire_of_miss (h : c.WellFormed) (tx : TxId) (hmiss : id ∉ c.pages) (page : Page) :
    (∃ d, c.TakesIn id page d ∧ c.acquire tx id (.ok page) = (.ok page, d.hold tx id)) ∨
    (c.Full ∧ c.acquire tx id (.ok page) = (.error .bufferPoolFull, c)) := by
  rw [acquire_miss tx page (page?_eq_none.2 hmiss)]
  rcases h.cachePage_cases id page with ⟨d, htakes, heq⟩ | ⟨hfull, heq⟩
  · exact .inl ⟨d, htakes, by rw [heq]; rfl⟩
  · exact .inr ⟨hfull, by rw [heq]; rfl⟩

/-- A call that takes nothing out. -/
theorem safe_of_subset {x : Call} (hstep : (c.call x).WellFormed)
    (hcapacity : (c.call x).capacity = c.capacity)
    (hpages : ∀ id ∈ c.pages, id ∈ (c.call x).pages) : c.Safe x :=
  ⟨hstep, hcapacity, fun id hcached hgone => absurd (hpages id hcached) hgone⟩

/-- A call that takes another page in, and changes the holds after that or not. -/
theorem safe_of_takesIn {x : Call} {d : Cache} (htakes : c.TakesIn id page d) (hmiss : id ∉ c.pages)
    (hstep : (c.call x).WellFormed) (hcapacity : (c.call x).capacity = d.capacity)
    (hpages : (c.call x).pages = d.pages) : c.Safe x := by
  refine ⟨hstep, hcapacity.trans htakes.capacity_eq, fun gone hcached hgone => .inr ?_⟩
  rw [hpages] at hgone ⊢
  exact ⟨htakes.evicts hcached hgone, id, hmiss, htakes.mem_pages⟩

theorem safe_acquire (h : c.WellFormed) (tx : TxId) {read : Except DbError Page}
    (hfair : ∀ page, read = .ok page → page.id = id) : c.Safe (.acquire tx id read) := by
  have hsame : c.call (.acquire tx id read) = c → c.Safe (.acquire tx id read) := by
    intro hcall
    refine safe_of_subset ?_ ?_ ?_
    all_goals rw [hcall]
    exacts [h, fun _ hcached => hcached]
  cases hpage : c.page? id with
  | some page =>
    have hcall : c.call (.acquire tx id read) = c.hold tx id := by
      rw [Cache.call, acquire_hit tx read hpage]
    refine safe_of_subset ?_ ?_ ?_
    all_goals rw [hcall]
    exacts [h.hold tx id, rfl, fun _ hcached => hcached]
  | none =>
    cases read with
    | error cause =>
      refine hsame ?_
      rw [Cache.call, acquire_unread tx cause hpage]
    | ok page =>
      have hmiss := page?_eq_none.1 hpage
      rcases h.acquire_of_miss tx hmiss page with ⟨d, htakes, heq⟩ | ⟨-, heq⟩
      · have hcall : c.call (.acquire tx id (.ok page)) = d.hold tx id := by rw [Cache.call, heq]
        refine safe_of_takesIn htakes hmiss ?_ ?_ ?_
        all_goals rw [hcall]
        exacts [(htakes.wellFormed h hmiss (hfair page rfl)).hold tx id, rfl, rfl]
      · refine hsame ?_
        rw [Cache.call, heq]

theorem safe_put (h : c.WellFormed) {x : Call} (hcall : c.call x = c.put page) : c.Safe x := by
  refine safe_of_subset ?_ ?_ ?_
  all_goals rw [hcall]
  · exact h.put page
  · exact (put_frame c page).1
  · exact fun id hcached => mem_put.2 hcached

/-- Every call keeps the containers in step, and takes out only what it may. -/
theorem safe (h : c.WellFormed) {x : Call} (hfair : x.Fair) : c.Safe x := by
  cases x with
  | acquire tx id read => exact h.safe_acquire tx hfair
  | release tx id =>
    have hrest : (c.release tx id).capacity = c.capacity ∧ (c.release tx id).pages = c.pages := by
      unfold Cache.release
      split
      · exact ⟨rfl, rfl⟩
      · split_ifs <;> exact ⟨rfl, rfl⟩
    exact safe_of_subset (h.release tx id) hrest.1 fun other hcached => hrest.2 ▸ hcached
  | put page => exact h.safe_put rfl
  | mark tx page =>
    by_cases hmem : page.id ∈ c.pages
    · have hcall : c.call (.mark tx page) = c.put (page.mark (some tx)) := by
        rw [Cache.call, mark, if_pos hmem]
      exact h.safe_put hcall
    · -- the page is cached again
      have hcall : c.call (.mark tx page) = (c.cachePage page.id (page.mark (some tx))).2 := by
        rw [Cache.call, mark, if_neg hmem]
      rcases h.cachePage_cases page.id (page.mark (some tx)) with ⟨d, htakes, heq⟩ | ⟨-, heq⟩
      · refine safe_of_takesIn htakes hmem ?_ ?_ ?_
        all_goals rw [hcall, heq]
        exact htakes.wellFormed h hmem rfl
      · refine safe_of_subset ?_ ?_ ?_
        all_goals rw [hcall, heq]
        exacts [h, fun _ hcached => hcached]
  | discard id =>
    refine ⟨h.discard id, rfl, fun gone hcached hgone => .inl ?_⟩
    by_contra hne
    refine hgone (Finmap.mem_erase.2 ⟨fun hid => hne ?_, hcached⟩)
    rw [hid]
  | releaseAll tx => exact safe_of_subset (h.releaseAll tx) rfl fun _ hcached => hcached

end WellFormed

end Cache

end Rowstore
