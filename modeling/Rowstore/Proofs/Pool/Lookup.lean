import Mathlib
import Rowstore.Pool

/-!
# Finding pages in a pool

What each operation on a pool does to the page that is found under a number. The pages of a pool
have different numbers, `Pool.Distinct`; then a page that is in the pool is the one that is found.
Loading a page takes out no page but a clean one.
-/

namespace Rowstore

namespace Pool

variable {p : Pool}

/-- The pages of the pool have different numbers. -/
def Distinct (p : Pool) : Prop := (p.pages.map Page.id).Nodup

theorem mem_of_page? {id : PageId} {page : Page} (h : p.page? id = some page) :
    page ∈ p.pages ∧ page.id = id :=
  ⟨List.mem_of_find?_eq_some h, by simpa using List.find?_some h⟩

theorem page?_eq_none_iff {id : PageId} : p.page? id = none ↔ id ∉ p.pages.map Page.id := by
  simp [page?, List.find?_eq_none]

theorem Distinct.page?_of_mem (h : p.Distinct) {page : Page} (hpage : page ∈ p.pages) :
    p.page? page.id = some page := by
  cases hfound : p.page? page.id with
  | none => exact absurd (List.mem_map_of_mem hpage) (page?_eq_none_iff.1 hfound)
  | some found =>
    obtain ⟨hmem, hid⟩ := mem_of_page? hfound
    rw [List.inj_on_of_nodup_map h hmem hpage hid]

@[simp] theorem page?_hold (tx : TxId) (id id' : PageId) :
    (p.hold tx id).page? id' = p.page? id' := rfl

@[simp] theorem page?_release (tx : TxId) (id id' : PageId) :
    (p.release tx id).page? id' = p.page? id' := rfl

@[simp] theorem page?_releaseAll (tx : TxId) (id : PageId) :
    (p.releaseAll tx).page? id = p.page? id := rfl

theorem page?_modify (id id' : PageId) {change : Page → Page}
    (hchange : ∀ page, page.id = id → (change page).id = id) :
    (p.modify id change).page? id' =
      if id' = id then (p.page? id).map change else p.page? id' := by
  have hid : ∀ page : Page, (if page.id = id then change page else page).id = page.id := by
    intro page
    split_ifs with hpage
    · rw [hchange page hpage, hpage]
    · rfl
  simp only [page?, pages_modify, List.find?_map, Function.comp_def, hid]
  split_ifs with h
  · subst h
    refine Option.map_congr fun page hpage => ?_
    rw [if_pos (by simpa using List.find?_some hpage)]
  · refine (Option.map_congr fun page hpage => ?_).trans Option.map_id'
    have hne : page.id ≠ id := by
      have hp : page.id = id' := by simpa using List.find?_some hpage
      rwa [hp]
    rw [if_neg hne]

theorem page?_put (page : Page) (id : PageId) :
    (p.put page).page? id =
      if id = page.id then (p.page? page.id).map fun _ => page else p.page? id :=
  page?_modify page.id id fun _ _ => rfl

theorem page?_discard (id id' : PageId) :
    (p.discard id).page? id' = if id' = id then none else p.page? id' := by
  simp only [page?, pages_discard, List.find?_filter]
  split_ifs with h
  · simp [h]
  · congr 1
    funext page
    by_cases hpage : page.id = id'
    · simp [hpage, h]
    · simp [hpage]

theorem page?_push {page : Page} (hnew : p.page? page.id = none) (id : PageId) :
    (p.push page).page? id = if id = page.id then some page else p.page? id := by
  simp only [page?] at hnew
  simp only [page?, pages_push, List.find?_append, List.find?_singleton, decide_eq_true_eq]
  by_cases h : id = page.id
  · subst h
    simp [hnew]
  · simp [h, Ne.symm h]

/-- A page that leaves for another one is clean. -/
theorem page?_victim (h : p.Distinct) {victim : Page} (hvictim : p.victim? = some victim) :
    p.page? victim.id = some victim ∧ victim.dirtiedBy = none := by
  have hclean := List.find?_some hvictim
  simp only [Bool.and_eq_true, Bool.not_eq_true', Page.isDirty,
    Option.isSome_eq_false_iff, Option.isNone_iff_eq_none] at hclean
  exact ⟨h.page?_of_mem (List.mem_of_find?_eq_some hvictim), hclean.1⟩

theorem page?_discard_of_none {id : PageId} (h : p.page? id = none) (id' : PageId) :
    (p.discard id').page? id = none := by
  rw [page?_discard]
  split_ifs
  · rfl
  · exact h

section Load

variable {p' : Pool} {page : Page}

/-- A page that is loaded is pushed, and a page is given up for it first if there is no room. -/
theorem load_cases (h : p.load page = .ok p') :
    p' = p.push page ∨
      ∃ victim, p.victim? = some victim ∧ p' = (p.discard victim.id).push page := by
  unfold load at h
  split at h
  · cases h
    exact .inl rfl
  · split at h
    · rename_i victim hvictim
      cases h
      exact .inr ⟨victim, hvictim, rfl⟩
    · cases h

/-- A loaded page is found, and no other page is lost but a clean one. -/
theorem page?_load (h : p.Distinct) (hnew : p.page? page.id = none)
    (hload : p.load page = .ok p') :
    p'.page? page.id = some page ∧
      ∀ id, id ≠ page.id → p'.page? id = p.page? id ∨
        p'.page? id = none ∧ ∃ gone, p.page? id = some gone ∧ gone.dirtiedBy = none := by
  rcases load_cases hload with rfl | ⟨victim, hvictim, rfl⟩
  · refine ⟨by rw [page?_push hnew, if_pos rfl], fun id hid => .inl ?_⟩
    rw [page?_push hnew, if_neg hid]
  · -- a pool without room gives a clean page up first
    obtain ⟨hfound, hclean⟩ := page?_victim h hvictim
    have hnew' := page?_discard_of_none hnew victim.id
    refine ⟨by rw [page?_push hnew', if_pos rfl], fun id hid => ?_⟩
    rw [page?_push hnew', if_neg hid, page?_discard]
    split_ifs with hgone
    · exact .inr ⟨rfl, victim, hgone ▸ hfound, hclean⟩
    · exact .inl rfl

/-- A page that is held is not lost for another one. -/
theorem page?_load_of_held {held : Page} {id : PageId} {tx : TxId}
    (hnew : p.page? page.id = none) (hload : p.load page = .ok p')
    (hheld : p.isHeldBy tx id = true) (hid : p.page? id = some held) : p'.page? id = some held := by
  have hne : id ≠ page.id := by
    rintro rfl
    rw [hnew] at hid
    cases hid
  rcases load_cases hload with rfl | ⟨victim, hvictim, rfl⟩
  · rw [page?_push hnew, if_neg hne, hid]
  · have hstays : id ≠ victim.id := by
      rintro rfl
      have hloose := List.find?_some hvictim
      have hany : p.isHeld victim.id = true := by
        simp only [isHeldBy, decide_eq_true_eq] at hheld
        exact List.any_eq_true.2 ⟨_, hheld, by simp⟩
      simp [hany] at hloose
    rw [page?_push (page?_discard_of_none hnew _), if_neg hne, page?_discard, if_neg hstays, hid]

/-- The pages of the pool after a page was loaded are that page and some that were there. -/
theorem mem_of_load {other : Page} (h : p.load page = .ok p') (hother : other ∈ p'.pages) :
    other ∈ p.pages ∨ other = page := by
  rcases load_cases h with rfl | ⟨victim, -, rfl⟩
  · simpa using hother
  · simp only [pages_push, pages_discard, List.mem_append, List.mem_filter,
      List.mem_singleton] at hother
    tauto

/-- A page that was loaded is in the pool. -/
theorem mem_of_load_self (h : p.load page = .ok p') : page ∈ p'.pages := by
  rcases load_cases h with rfl | ⟨victim, -, rfl⟩
  · simp
  · simp

/-- Loading a page does not change who holds what. -/
theorem holds_of_load (h : p.load page = .ok p') : p'.holds = p.holds := by
  rcases load_cases h with rfl | ⟨victim, -, rfl⟩
  · rfl
  · rfl

end Load

namespace Distinct

theorem modify (h : p.Distinct) (id : PageId) {change : Page → Page}
    (hchange : ∀ page, page.id = id → (change page).id = id) : (p.modify id change).Distinct := by
  have hids : (p.modify id change).pages.map Page.id = p.pages.map Page.id := by
    rw [pages_modify, List.map_map]
    refine List.map_congr_left fun page _ => ?_
    simp only [Function.comp]
    split_ifs with hpage
    · rw [hchange page hpage, hpage]
    · rfl
  rwa [Distinct, hids]

theorem put (h : p.Distinct) (page : Page) : (p.put page).Distinct :=
  h.modify page.id fun _ _ => rfl

theorem discard (h : p.Distinct) (id : PageId) : (p.discard id).Distinct := by
  rw [Distinct, pages_discard]
  exact (List.filter_sublist.map _).nodup h

theorem push (h : p.Distinct) {page : Page} (hnew : p.page? page.id = none) :
    (p.push page).Distinct := by
  have hfresh := page?_eq_none_iff.1 hnew
  rw [Distinct, pages_push, List.map_append, List.map_singleton]
  exact List.nodup_append.2 ⟨h, List.nodup_singleton _, by
    rintro id hid _ hpage rfl
    exact hfresh (List.mem_singleton.1 hpage ▸ hid)⟩

theorem load (h : p.Distinct) {page : Page} (hnew : p.page? page.id = none) {p' : Pool}
    (hload : p.load page = .ok p') : p'.Distinct := by
  rcases load_cases hload with rfl | ⟨victim, -, rfl⟩
  · exact h.push hnew
  · exact (h.discard victim.id).push (page?_discard_of_none hnew _)

end Distinct

end Pool

end Rowstore
