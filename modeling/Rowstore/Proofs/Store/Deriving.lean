import Mathlib
import Rowstore.Proofs.Store.Keeping

/-!
# Where pages in memory come from

Every page of a pool was read from a file at some time. After that rows were stored in it and
deleted from it, and it was marked; nothing else is ever done to a page. So what holds of pages as
they are read, and is kept by each of these changes, holds of all pages in memory.

* `Store.Derives` says of two stores that the pages of the one come from the pages of the other, or
  from files. Every operation leads to a store whose pages come from those before it.
* `Page.Recorded` is such a property: each row has the record of the slot it is in.
-/

namespace Rowstore

namespace Page

/-- A change of a page. -/
inductive Changes : Page → Page → Prop
  | insert {p p' row record} (h : insert p row = .ok (record, p')) : Changes p p'
  | delete {p p' row} (h : delete p row = .ok p') : Changes p p'
  | mark (p : Page) (tx : Option TxId) : Changes p (p.mark tx)

/-- A page after some changes. -/
abbrev Becomes : Page → Page → Prop := Relation.ReflTransGen Changes

variable {p p' : Page}

/-- Every row has the record of the slot it is in. -/
def Recorded (p : Page) : Prop :=
  ∀ (i : Nat) (row : Tuple), p.slots[i]? = some (some row) → row.record = some ⟨p.id, i⟩

theorem Sound.recorded (h : p.Sound) : p.Recorded := fun i row hrow => (h.row_ok i row hrow).2.1

theorem Recorded.setSlot (h : p.Recorded) {slot : Nat} {o : Option Tuple}
    (ho : ∀ row, o = some row → row.record = some ⟨p.id, slot⟩) : (p.setSlot slot o).Recorded := by
  intro i row hrow
  simp only [Page.setSlot, List.getElem?_set] at hrow
  split_ifs at hrow with hslot
  · subst hslot
    exact ho row (by simpa using hrow)
  · exact h i row hrow

theorem Recorded.changes (h : p.Recorded) (hchange : p.Changes p') : p'.Recorded := by
  cases hchange with
  | @insert _ _ record hinsert =>
    obtain ⟨-, hpage, -, -, rfl⟩ := insert_eq_ok_iff.1 hinsert
    obtain ⟨page, slot⟩ := record
    cases hpage
    refine h.setSlot ?_
    rintro _ ⟨⟩
    rfl
  | delete hdelete =>
    obtain ⟨slot, -, -, rfl⟩ := delete_eq_ok_iff.1 hdelete
    exact h.setSlot nofun
  | mark => exact h

theorem Recorded.becomes (h : p.Recorded) (hbecomes : p.Becomes p') : p'.Recorded := by
  induction hbecomes with
  | refl => exact h
  | tail _ hlast ih => exact ih.changes hlast

end Page

namespace Store

variable {s t u : Store} {tx : TxId} {id : PageId} {page page' : Page} {row : Tuple} {f : HeapFile}

/-- A page was in the pool, or is read from a file. -/
def Sources (s : Store) (page : Page) : Prop :=
  page ∈ s.pool.pages ∨ ∃ (f : HeapFile) (disk : Disk) (id : PageId), f.readPage disk id = .ok page

/-- The pages of a pool come from those of another one. -/
def Derives (s t : Store) : Prop :=
  ∀ page ∈ t.pool.pages, ∃ old, s.Sources old ∧ old.Becomes page

namespace Derives

theorem of_subset (h : ∀ page ∈ t.pool.pages, page ∈ s.pool.pages) : s.Derives t :=
  fun page hpage => ⟨page, .inl (h page hpage), .refl⟩

theorem refl (s : Store) : s.Derives s := of_subset fun _ => id

theorem of_pages (h : t.pool.pages = s.pool.pages) : s.Derives t :=
  of_subset fun _ hpage => h ▸ hpage

theorem trans (h : s.Derives t) (h' : t.Derives u) : s.Derives u := by
  intro page hpage
  obtain ⟨mid, hmid | hread, hbecomes⟩ := h' page hpage
  · obtain ⟨old, hold, hbecomes'⟩ := h mid hmid
    exact ⟨old, hold, hbecomes'.trans hbecomes⟩
  · exact ⟨mid, .inr hread, hbecomes⟩

/-- A property of pages that are read, which changes keep, holds of all pages if it did before. -/
theorem forall_pages (h : s.Derives t) {P : Page → Prop}
    (hread : ∀ (f : HeapFile) (disk : Disk) (id : PageId) (page : Page),
      f.readPage disk id = .ok page → P page)
    (hchange : ∀ p p', P p → p.Becomes p' → P p') (hs : ∀ page ∈ s.pool.pages, P page) :
    ∀ page ∈ t.pool.pages, P page := by
  intro page hpage
  obtain ⟨old, hold | ⟨f, disk, id, hold⟩, hbecomes⟩ := h page hpage
  · exact hchange old page (hs old hold) hbecomes
  · exact hchange old page (hread f disk id old hold) hbecomes

end Derives

/-! ### Steps of operations -/

theorem derives_acquire (h : s.acquire tx id = .ok (page, t)) : s.Derives t := by
  rcases acquire_cases h with ⟨-, rfl⟩ | ⟨f, pool, -, -, hread, hload, rfl⟩
  · exact .of_pages rfl
  · intro other hother
    rcases Pool.mem_of_load hload hother with hold | rfl
    · exact ⟨other, .inl hold, .refl⟩
    · exact ⟨other, .inr ⟨f, s.disk, id, hread⟩, .refl⟩

/-- Putting a changed page back changes that page. -/
theorem derives_put (hpage : page ∈ s.pool.pages) (h : page.Changes page') :
    s.Derives (s.put page') := by
  intro other hother
  rcases mem_of_mem_put hother with rfl | hold
  · exact ⟨page, .inl hpage, .single h⟩
  · exact ⟨other, .inl hold, .refl⟩

theorem derives_markDirty (s : Store) (tx : TxId) (id : PageId) : s.Derives (s.markDirty tx id) := by
  intro other hother
  obtain ⟨old, hold, rfl | rfl⟩ := mem_of_mem_markDirty hother
  · exact ⟨other, .inl hold, .refl⟩
  · exact ⟨old, .inl hold, .single (.mark old (some tx))⟩

theorem derives_discard (s : Store) (id : PageId) : s.Derives (s.discard id) :=
  .of_subset fun _ => mem_of_mem_discard

/-- All operations lead to pages that come from those before. -/
theorem stable_derives (s : Store) {kind : Tuple → Prop} : Stable kind s.Derives where
  acquire h hacquire := h.trans (derives_acquire hacquire)
  insert h hpage _ hinsert := h.trans (derives_put hpage (.insert hinsert))
  delete h hpage hdelete := h.trans (derives_put hpage (.delete hdelete))
  mark {_ page} tx h hpage := h.trans (derives_put hpage (.mark page tx))
  markDirty tx id h := h.trans (derives_markDirty _ tx id)
  discard id h := h.trans (derives_discard _ id)
  holds _ h := h.trans (.of_pages rfl)
  disk h _ := h.trans (.of_pages rfl)

end Store

end Rowstore
