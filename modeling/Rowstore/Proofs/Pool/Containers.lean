import Mathlib
import Rowstore.Proofs.Pool.Cache
import Rowstore.Proofs.Pool.Lookup

/-!
# The containers of a pool

A pool keeps its pages in one list, in the order they were loaded, and who holds what in another.
`Pool.cache` spreads them over the three containers of a cache, and every operation on the pool is
the one call on the containers: none of them loses step with the lists.
-/

namespace Rowstore

/-- Caches are the same when they say the same of every page and every transaction. -/
theorem Cache.ext_of {c d : Cache} (hcapacity : c.capacity = d.capacity)
    (hpage : ∀ id, c.page? id = d.page? id) (horder : c.loadOrder = d.loadOrder)
    (hholds : ∀ tx, c.holds.lookup tx = d.holds.lookup tx) : c = d := by
  have hpages : c.pages = d.pages := Finmap.ext_lookup hpage
  have hsets : c.holds = d.holds := Finmap.ext_lookup hholds
  cases c
  cases d
  simp_all

namespace Pool

variable {p : Pool} {id : PageId} {page : Page} {tx : TxId}

/-- The pages that a transaction holds. -/
def heldBy (p : Pool) (tx : TxId) : Finset PageId :=
  ((p.holds.filter fun h => h.1 = tx).map Prod.snd).toFinset

/-- The containers of a pool. -/
def cache (p : Pool) : Cache where
  capacity := p.capacity
  pages := (p.pages.map fun page => (⟨page.id, page⟩ : (_ : PageId) × Page)).toFinmap
  loadOrder := p.pages.map Page.id
  holds := (p.holds.map fun h => (⟨h.1, p.heldBy h.1⟩ : (_ : TxId) × Finset PageId)).toFinmap

theorem cache_new (capacity : Nat) : ({ capacity } : Pool).cache = Cache.empty capacity := rfl

/-! ### What the containers say -/

theorem cache_page? (p : Pool) (id : PageId) : p.cache.page? id = p.page? id := by
  rw [Cache.page?, cache, Finmap.dlookup_list_toFinmap, page?]
  induction p.pages with
  | nil => rfl
  | cons page pages ih =>
    by_cases hid : page.id = id
    · subst hid
      rw [List.map_cons, List.dlookup_cons_eq, List.find?_cons_of_pos (by simp)]
    · rw [List.map_cons, List.dlookup_cons_ne _ _ (Ne.symm hid),
        List.find?_cons_of_neg (by simpa using hid), ih]

theorem mem_cache : id ∈ p.cache.pages ↔ p.page? id ≠ none := by
  rw [← cache_page?, ne_eq, Cache.page?_eq_none, not_not]

theorem mem_heldBy : id ∈ p.heldBy tx ↔ (tx, id) ∈ p.holds := by
  simp [heldBy]

/-- A transaction has a set exactly when it holds something. -/
theorem lookup_holds (p : Pool) (tx : TxId) : p.cache.holds.lookup tx =
    if p.heldBy tx = ∅ then none else some (p.heldBy tx) := by
  show Finmap.lookup tx (List.toFinmap _) = _
  have hmem : p.heldBy tx = ∅ ↔ ∀ h ∈ p.holds, h.1 ≠ tx := by
    simp only [Finset.eq_empty_iff_forall_notMem, mem_heldBy]
    constructor
    · rintro hnone ⟨other, id⟩ hother rfl
      exact hnone id hother
    · exact fun hnone id hid => hnone (tx, id) hid rfl
  simp only [hmem, Finmap.dlookup_list_toFinmap]
  -- the set of each entry is read off the whole list, so it stays the same as entries are passed
  generalize p.heldBy = sets
  induction p.holds with
  | nil => simp
  | cons h holds ih =>
    by_cases htx : h.1 = tx
    · rw [List.map_cons, ← htx, List.dlookup_cons_eq, if_neg (by simp)]
    · rw [List.map_cons, List.dlookup_cons_ne _ _ (Ne.symm htx), ih]
      simp only [List.forall_mem_cons, htx, ne_eq, not_false_eq_true, true_and]

@[simp] theorem cache_heldBy (p : Pool) (tx : TxId) : p.cache.heldBy tx = p.heldBy tx := by
  rw [Cache.heldBy, lookup_holds]
  split_ifs with hempty
  · rw [hempty]
    rfl
  · rfl

theorem cache_isHeld (p : Pool) (id : PageId) : p.cache.isHeld id = p.isHeld id := by
  rw [Bool.eq_iff_iff, Cache.isHeld_iff, isHeld, List.any_eq_true]
  simp [mem_heldBy]

/-! ### Holding -/

theorem heldBy_hold (p : Pool) (tx other : TxId) (id : PageId) :
    (p.hold tx id).heldBy other =
      if other = tx then insert id (p.heldBy tx) else p.heldBy other := by
  ext x
  split_ifs with h <;> simp [mem_heldBy, hold, h]

theorem heldBy_release (p : Pool) (tx other : TxId) (id : PageId) :
    (p.release tx id).heldBy other =
      if other = tx then (p.heldBy tx).erase id else p.heldBy other := by
  ext x
  split_ifs with h <;> simp [mem_heldBy, release, h, and_comm]

theorem heldBy_releaseAll (p : Pool) (tx other : TxId) :
    (p.releaseAll tx).heldBy other = if other = tx then ∅ else p.heldBy other := by
  ext x
  split_ifs with h <;> simp [mem_heldBy, releaseAll, h]

/-- A pool with other holds has other sets in its containers, and nothing else. -/
theorem cache_with_holds {q : Pool} {sets : Finmap fun _ : TxId => Finset PageId}
    (hcapacity : q.capacity = p.capacity) (hpages : q.pages = p.pages)
    (hsets : ∀ tx, sets.lookup tx = if q.heldBy tx = ∅ then none else some (q.heldBy tx)) :
    q.cache = { p.cache with holds := sets } := by
  refine Cache.ext_of hcapacity (fun id => ?_) ?_ fun tx => ?_
  · show q.cache.page? id = p.cache.page? id
    rw [cache_page?, cache_page?, page?, hpages, page?]
  · show q.pages.map Page.id = p.pages.map Page.id
    rw [hpages]
  · rw [lookup_holds, hsets]

theorem cache_hold (p : Pool) (tx : TxId) (id : PageId) :
    (p.hold tx id).cache = p.cache.hold tx id := by
  refine cache_with_holds rfl rfl fun other => ?_
  rw [heldBy_hold, cache_heldBy]
  by_cases hother : other = tx
  · subst hother
    rw [if_pos rfl, if_neg (Finset.insert_ne_empty _ _), Finmap.lookup_insert]
  · rw [if_neg hother, Finmap.lookup_insert_of_ne _ hother, lookup_holds]

theorem cache_releaseAll (p : Pool) (tx : TxId) :
    (p.releaseAll tx).cache = p.cache.releaseAll tx := by
  refine cache_with_holds rfl rfl fun other => ?_
  rw [heldBy_releaseAll]
  by_cases hother : other = tx
  · subst hother
    rw [if_pos rfl, if_pos rfl, Finmap.lookup_erase]
  · rw [if_neg hother, Finmap.lookup_erase_ne hother, lookup_holds]

theorem cache_release (p : Pool) (tx : TxId) (id : PageId) :
    (p.release tx id).cache = p.cache.release tx id := by
  rw [Cache.release, lookup_holds]
  by_cases hnone : p.heldBy tx = ∅
  · rw [if_pos hnone]
    refine cache_with_holds (p := p) rfl rfl fun other => ?_
    have hsame : (p.release tx id).heldBy other = p.heldBy other := by
      rw [heldBy_release]
      split_ifs with hother
      · rw [hother, hnone, Finset.erase_empty]
      · rfl
    rw [hsame]
    exact lookup_holds p other
  · simp only [if_neg hnone]
    split_ifs with hempty
    -- the last page that the transaction held
    · refine cache_with_holds rfl rfl fun other => ?_
      rw [heldBy_release]
      by_cases hother : other = tx
      · subst hother
        rw [if_pos rfl, if_pos hempty, Finmap.lookup_erase]
      · rw [if_neg hother, Finmap.lookup_erase_ne hother, lookup_holds]
    · refine cache_with_holds rfl rfl fun other => ?_
      rw [heldBy_release]
      by_cases hother : other = tx
      · subst hother
        rw [if_pos rfl, if_neg hempty, Finmap.lookup_insert]
      · rw [if_neg hother, Finmap.lookup_insert_of_ne _ hother, lookup_holds]

/-! ### Changing -/

theorem cache_discard (p : Pool) (id : PageId) : (p.discard id).cache = p.cache.discard id := by
  refine Cache.ext_of rfl (fun other => ?_) ?_ fun other => ?_
  · rw [cache_page?, page?_discard, Cache.page?_discard, cache_page?]
  · show (p.discard id).pages.map Page.id = (p.pages.map Page.id).filter fun other => other ≠ id
    rw [pages_discard, List.filter_map]
    rfl
  · rw [lookup_holds, Cache.discard, lookup_holds]
    rfl

/-- A changed page keeps its place in the load order. -/
theorem order_modify (p : Pool) (id : PageId) {change : Page → Page}
    (hchange : ∀ page, page.id = id → (change page).id = id) :
    (p.modify id change).cache.loadOrder = p.cache.loadOrder := by
  show (p.modify id change).pages.map Page.id = p.pages.map Page.id
  rw [pages_modify, List.map_map]
  refine List.map_congr_left fun page _ => ?_
  simp only [Function.comp]
  split_ifs with hpage
  · rw [hchange page hpage, hpage]
  · rfl

/-- Changing a page that is cached is putting the changed page into its place. -/
theorem cache_modify {change : Page → Page} (hchange : ∀ page, page.id = id → (change page).id = id)
    (h : p.page? id = some page) : (p.modify id change).cache = p.cache.put (change page) := by
  obtain ⟨-, hid⟩ := mem_of_page? h
  have hchanged := hchange page hid
  have hmem : (change page).id ∈ p.cache.pages := by
    rw [hchanged, mem_cache, h]
    exact nofun
  refine Cache.ext_of ?_ (fun other => ?_) ?_ fun other => ?_
  · rw [Cache.put, if_pos hmem]
    rfl
  · rw [cache_page?, page?_modify id other hchange, Cache.page?_put, hchanged, cache_page?,
      cache_page?, h]
    rfl
  · rw [order_modify p id hchange, Cache.put, if_pos hmem]
  · rw [Cache.put, if_pos hmem, lookup_holds, lookup_holds]
    rfl

theorem cache_put {old : Page} (h : p.page? page.id = some old) :
    (p.put page).cache = p.cache.put page :=
  cache_modify (fun _ _ => rfl) h

/-- Marking a page that is cached is marking it in its place. -/
theorem cache_mark (tx : TxId) (h : p.page? id = some page) :
    (p.modify id fun page => page.mark (some tx)).cache = (p.cache.mark tx page).2 := by
  obtain ⟨-, rfl⟩ := mem_of_page? h
  have hmem : page.id ∈ p.cache.pages := by
    rw [mem_cache, h]
    exact nofun
  rw [cache_modify (fun _ => Page.id_mark _ _ |>.trans) h, Cache.mark, if_pos hmem]

/-! ### Loading -/

theorem cache_push (h : p.page? page.id = none) :
    (p.push page).cache = p.cache.add page.id page := by
  refine Cache.ext_of rfl (fun other => ?_) ?_ fun other => ?_
  · rw [cache_page?, page?_push h, Cache.page?_add, cache_page?]
  · show (p.push page).pages.map Page.id = p.pages.map Page.id ++ [page.id]
    rw [pages_push, List.map_append, List.map_singleton]
  · rw [lookup_holds, Cache.add, lookup_holds]
    rfl

theorem cache_victim (h : p.Distinct) : p.cache.victim? = p.victim?.map Page.id := by
  rw [Cache.victim?, victim?]
  show (p.pages.map Page.id).find? _ = _
  rw [List.find?_map]
  congr 1
  refine List.find?_congr fun page hpage => ?_
  rw [Function.comp, Cache.isLoose, cache_isHeld, cache_page?, h.page?_of_mem hpage, Bool.and_comm]
  rfl

theorem size_cache (h : p.cache.WellFormed) : p.cache.size = p.frames.length := by
  rw [h.size_eq]
  show (p.pages.map Page.id).length = p.frames.length
  rw [List.length_map, pages, List.length_map]

/-- Loading a page is caching it. -/
theorem cache_load (h : p.cache.WellFormed) (hnew : p.page? page.id = none) :
    p.cache.cachePage page.id page = match p.load page with
      | .ok q => (.ok (), q.cache)
      | .error cause => (.error cause, p.cache) := by
  have hdistinct : p.Distinct := h.nodup
  rw [Cache.cachePage, h.makeRoom_eq, size_cache h, cache_victim hdistinct, load]
  show (if p.frames.length < p.capacity then _ else _ : Outcome Cache Unit).andThen _ _ = _
  split_ifs with hroom
  · show (Except.ok (), p.cache.add page.id page) = (Except.ok (), (p.push page).cache)
    rw [cache_push hnew]
  · cases hvictim : p.victim? with
    | none => rfl
    | some victim =>
      have hnew' : (p.discard victim.id).page? page.id = none := by
        rw [page?_discard]
        split_ifs <;> [rfl; exact hnew]
      show (Except.ok (), (p.cache.discard victim.id).add page.id page) =
        (Except.ok (), ((p.discard victim.id).push page).cache)
      rw [cache_push hnew', cache_discard]

end Pool

end Rowstore
