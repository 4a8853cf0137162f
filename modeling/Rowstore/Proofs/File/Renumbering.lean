import Mathlib
import Rowstore.Proofs.File.Pages

/-!
# Tables under other numbers

A file that is registered anew may get another table number. Its pages hold the same rows then, in
the same slots, and only the table in their records is another, `Row.inTable`.
-/

namespace Rowstore

/-- The row, as one of another table. -/
def Row.inTable (row : Row) (table : TableId) : Row :=
  { row with record := row.record.map fun record => ⟨⟨table, record.page.number⟩, record.slot⟩ }

namespace Page

variable {schema : Schema} {image : List UInt8} {id : PageId} {slot : Nat}

/-- A slot of a page decodes alike in another page, but for the record. -/
theorem decodeSlot_of_eq_ok {used : Bool} {cell : List UInt8} {o : Option Tuple}
    (h : decodeSlot id schema slot used cell = .ok o) (id' : PageId) :
    decodeSlot id' schema slot used cell =
      .ok (o.map fun row => { row with record := some ⟨id', slot⟩ }) := by
  unfold decodeSlot at h ⊢
  split at h
  · rename_i hused
    cases h
    rw [if_pos hused]
    rfl
  · rename_i hused
    rw [if_neg hused]
    split at h
    · cases h
    · split at h
      · cases h
      · rename_i hslot
        cases h
        rw [if_neg hslot]
        rfl

/-- An image decodes alike under another table number. -/
theorem decode_inTable {p : Page} (h : decode id schema image = .ok p) (table : TableId) :
    ∃ q, decode ⟨table, id.number⟩ schema image = .ok q ∧
      q.cells = p.cells.map (Option.map fun row => row.inTable table) := by
  obtain ⟨hsound, -⟩ := sound_of_decode h
  obtain ⟨slots, hlen, hslots, rfl⟩ := decode_eq_ok_iff.1 h
  let rename (i : Nat) (o : Option Tuple) : Option Tuple :=
    o.map fun row => { row with record := some ⟨⟨table, id.number⟩, i⟩ }
  refine ⟨ofImage schema image ⟨table, id.number⟩ (slots.mapIdx rename),
    decode_eq_ok_iff.2 ⟨slots.mapIdx rename, by simp [hlen], fun i hi hbit => ?_, rfl⟩, ?_⟩
  · have hi' : i < slots.length := by simpa using hi
    rw [List.getElem_mapIdx]
    exact decodeSlot_of_eq_ok (hslots i hi' hbit) _
  · refine List.ext_getElem (by simp [cells, ofImage]) fun i hi hi' => ?_
    have hlt : i < slots.length := by simpa [cells, ofImage] using hi
    simp only [cells, ofImage, List.getElem_map, List.getElem_mapIdx, rename]
    cases hrow : slots[i] with
    | none => rfl
    | some row =>
      have hrecord := (hsound.row_ok i row (List.getElem?_eq_some_iff.2 ⟨hlt, hrow⟩)).2.1
      simp only [Option.map_some, Row.inTable, Tuple.row, hrecord]
      rfl

end Page

namespace HeapFile

variable {f : HeapFile} {disk : Disk} {number : Nat}

/-- A page is read alike under another table number. -/
theorem readPage_inTable {page : Page} (h : f.readPage disk ⟨f.table, number⟩ = .ok page)
    (table : TableId) :
    ∃ page', { f with table }.readPage disk ⟨table, number⟩ = .ok page' ∧
      page'.cells = page.cells.map (Option.map fun row => row.inTable table) := by
  obtain ⟨⟨-, hsize, hplace⟩, hhas, hdecode⟩ := readPage_eq_ok_iff.1 h
  obtain ⟨page', hdecode', hcells⟩ := Page.decode_inTable hdecode table
  exact ⟨page', readPage_eq_ok_iff.2 ⟨⟨rfl, hsize, hplace⟩, hhas, hdecode'⟩, hcells⟩

end HeapFile

end Rowstore
