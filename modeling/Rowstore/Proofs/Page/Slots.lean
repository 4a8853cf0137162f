import Mathlib
import Rowstore.Proofs.Codec.PageImage

/-!
# Slots

What storing and deleting a row do to a sound page: one cell changes, and the page stays sound. A
row goes into the first free slot, `Page.freeSlot?`.
-/

namespace Rowstore

namespace Page

/-- The first free slot of some cells. -/
def freeSlot? (cells : List (Option Row)) : Option Nat := cells.findIdx? Option.isNone

theorem freeSlot?_eq_some {cells : List (Option Row)} {slot : Nat}
    (h : freeSlot? cells = some slot) : cells[slot]? = some none := by
  obtain ⟨hlt, hnone, -⟩ := List.findIdx?_eq_some_iff_getElem.1 h
  rw [List.getElem?_eq_getElem hlt, Option.isNone_iff_eq_none.1 hnone]

theorem freeSlot?_blank_of_pos {schema : Schema} {size : Nat}
    (h : 0 < slotCount size schema.size) : freeSlot? (blank schema size) = some 0 := by
  obtain ⟨n, hn⟩ := Nat.exists_eq_succ_of_ne_zero h.ne'
  simp [freeSlot?, blank, hn, List.replicate_succ, List.findIdx?_cons]

theorem cells_setSlot (p : Page) (slot : Nat) (o : Option Tuple) :
    (p.setSlot slot o).cells = p.cells.set slot (o.map Tuple.row) := by
  simp [cells, setSlot, List.map_set]

/-- A row that may be stored goes into the first free slot, if that slot has a number. -/
theorem insert_eq_ok_iff {p p' : Page} {row : Tuple} {record : RecordId} :
    p.insert row = .ok (record, p') ↔ row.Storable p.schema ∧ record.page = p.id ∧
      p.firstFree? = some record.slot ∧ record.slot ≤ maxSlot ∧
      p' = p.setSlot record.slot (some { row with record := some record }) := by
  unfold insert
  rw [bind_eq_ok_iff]
  constructor
  · rintro ⟨_, hcheck, h⟩
    split at h
    · cases h
    · rename_i slot hslot
      split at h
      · cases h
      rename_i hmax
      cases h
      exact ⟨Tuple.checkStorable_eq_ok_iff.1 hcheck, rfl, hslot, not_lt.1 hmax, rfl⟩
  · rintro ⟨hstorable, hpage, hslot, hmax, rfl⟩
    obtain ⟨page, slot⟩ := record
    cases hpage
    refine ⟨_, Tuple.checkStorable_eq_ok_iff.2 hstorable, ?_⟩
    simp only [hslot, if_neg (not_lt.2 hmax)]
    rfl

/-- A row is deleted from the page and the slot that its record tells, if that slot is used. -/
theorem delete_eq_ok_iff {p p' : Page} {row : Tuple} :
    p.delete row = .ok p' ↔ ∃ slot, row.record = some ⟨p.id, slot⟩ ∧ p.isUsed slot = true ∧
      p' = p.setSlot slot none := by
  unfold delete
  constructor
  · intro h
    split at h
    · cases h
    · rename_i record hrecord
      split_ifs at h with hpage hused
      cases h
      obtain ⟨page, slot⟩ := record
      cases not_not.1 hpage
      exact ⟨slot, hrecord, hused, rfl⟩
  · rintro ⟨slot, hrecord, hused, rfl⟩
    rw [hrecord]
    simp [hused]
    rfl

/-- A row of the page is refused only because its slot is free or not there. -/
theorem delete_eq_error_iff {p : Page} {row : Tuple} {slot : Nat} {cause : DbError}
    (hrecord : row.record = some ⟨p.id, slot⟩) :
    p.delete row = .error cause ↔ p.isUsed slot = false ∧ cause = .slotNotOccupied p.id slot := by
  unfold delete
  simp only [hrecord, ne_eq, not_true_eq_false, if_false]
  cases p.isUsed slot with
  | true => exact ⟨nofun, fun h => nomatch h.1⟩
  | false => exact ⟨fun h => ⟨rfl, (Except.error.inj h).symm⟩, fun h => h.2 ▸ rfl⟩

/-- Storing a row keeps the page's number. -/
theorem id_of_insert {p p' : Page} {row : Tuple} {record : RecordId}
    (h : p.insert row = .ok (record, p')) : p'.id = p.id := by
  obtain ⟨-, -, -, -, rfl⟩ := insert_eq_ok_iff.1 h
  rfl

/-- Deleting a row keeps the page's number. -/
theorem id_of_delete {p p' : Page} {row : Tuple} (h : p.delete row = .ok p') : p'.id = p.id := by
  obtain ⟨slot, -, -, rfl⟩ := delete_eq_ok_iff.1 h
  rfl

namespace Sound

variable {p : Page}

theorem firstFree?_eq (h : p.Sound) : p.firstFree? = freeSlot? p.cells := by
  have hcells : p.cells.map Option.isSome = p.occupancy := by
    rw [h.occupancy_eq, cells, List.map_map]
    congr 1
    funext o
    simp
  rw [firstFree?, ← hcells, List.findIdx?_map, freeSlot?]
  congr 1
  funext o
  cases o <;> rfl

theorem freeCount_eq_zero_iff (h : p.Sound) : p.freeCount = 0 ↔ freeSlot? p.cells = none := by
  rw [← h.firstFree?_eq, freeCount, List.count_eq_zero, firstFree?, List.findIdx?_eq_none_iff]
  exact ⟨fun hnot b hb => by cases b <;> simp_all, fun hall hfalse => by simpa using hall _ hfalse⟩

theorem isUsed_iff (h : p.Sound) {slot : Nat} :
    p.isUsed slot = true ↔ ∃ row, p.cells[slot]? = some (some row) := by
  rw [isUsed, h.occupancy_eq, List.getD_eq_getElem?_getD, List.getElem?_map, cells,
    List.getElem?_map]
  rcases p.slots[slot]? with _ | _ | row <;> simp

/-- A page stays sound when a slot is freed or filled with a row that fits. -/
theorem setSlot (h : p.Sound) {slot : Nat} {o : Option Tuple}
    (ho : ∀ row, o = some row →
      row.Fits p.schema ∧ row.record = some ⟨p.id, slot⟩ ∧ slot ≤ maxSlot) :
    (p.setSlot slot o).Sound where
  length_slots := by simpa [Page.setSlot] using h.length_slots
  length_bitmap := by simpa [Page.setSlot] using h.length_bitmap
  occupancy_eq := by
    have hocc := h.occupancy_eq
    simp only [occupancy] at hocc
    simp only [occupancy, Page.setSlot, List.length_set, List.map_set, ← hocc, List.take_set]
  row_ok := by
    intro i row hrow
    -- the slot that changed has a row that fits, and the others are as before
    simp only [Page.setSlot, List.getElem?_set] at hrow
    split at hrow
    · rename_i hslot
      subst hslot
      split at hrow
      · exact ho row (by simpa using hrow)
      · cases hrow
    · exact h.row_ok i row hrow

/-- Storing a row fills the first free slot. -/
theorem insert_eq_ok (h : p.Sound) {row : Tuple} (hcomplete : row.Complete) {record : RecordId}
    {p' : Page} (hinsert : p.insert row = .ok (record, p')) :
    p'.Sound ∧ p'.id = p.id ∧ p'.schema = p.schema ∧ p'.size = p.size ∧ record.page = p.id ∧
      freeSlot? p.cells = some record.slot ∧
      p'.cells = p.cells.set record.slot (some (row.rowAt record)) := by
  obtain ⟨hstorable, hpage, hslot, hmax, rfl⟩ := insert_eq_ok_iff.1 hinsert
  have hfits := Tuple.fits_of_checkStorable hcomplete (Tuple.checkStorable_eq_ok_iff.2 hstorable)
  rw [h.firstFree?_eq] at hslot
  refine ⟨h.setSlot ?_, rfl, rfl, rfl, hpage, hslot, cells_setSlot _ _ _⟩
  rintro _ ⟨⟩
  obtain ⟨page, slot⟩ := record
  cases hpage
  exact ⟨hfits, rfl, hmax⟩

/-- Deleting a row frees a slot that is used. -/
theorem delete_eq_ok (h : p.Sound) {row : Tuple} {p' : Page} (hdelete : p.delete row = .ok p') :
    p'.Sound ∧ p'.id = p.id ∧ p'.schema = p.schema ∧ p'.size = p.size ∧
      ∃ record old, row.record = some record ∧ record.page = p.id ∧
        p.cells[record.slot]? = some (some old) ∧ p'.cells = p.cells.set record.slot none := by
  obtain ⟨slot, hrecord, hused, rfl⟩ := delete_eq_ok_iff.1 hdelete
  obtain ⟨old, hold⟩ := h.isUsed_iff.1 hused
  exact ⟨h.setSlot nofun, rfl, rfl, rfl, _, old, hrecord, rfl, hold, cells_setSlot _ _ _⟩

end Sound

end Page

end Rowstore
