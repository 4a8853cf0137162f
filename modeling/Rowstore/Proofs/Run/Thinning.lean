import Mathlib
import Rowstore.Proofs.Run.Copying
import Rowstore.Proofs.Run.Removal

/-!
# Rows taken out of a table

Rows of a table that pass a test are deleted, on so many of its pages, and nothing else happens:
`Store.Thins`. If none of them is left the pages are cleared of them, `Store.Cleared`: the rows that
are there are those that did not pass the test, in the same order and with the same records, and as
many were deleted as passed it, `Store.Cleared.count_eq`.

A scan is not disturbed when the row that it gave last is deleted. The rows that it gave before and
that stay, and those it has ready, are the rows that the table has now on the pages up to the one it
is on: `Scan.Gathers.delete`.
-/

namespace Rowstore

/-! ### Rows of records -/

section RowsOf

variable {rows : RecordId → Option Row} {table : TableId} {pages slots : Nat} {record : RecordId}
  {row : Row}

/-- Rows that carry their records are there once each. -/
theorem nodup_rowsOf (hrows : ∀ record row, rows record = some row → row.record = some record) :
    (rowsOf rows table pages slots).Nodup := by
  rw [rowsOf_eq_filterMap]
  refine (nodup_recordsOf table pages slots).filterMap fun a b row ha hb => ?_
  exact Option.some.inj ((hrows a row ha).symm.trans (hrows b row hb))

/-- A row that is deleted is missing from the list. -/
theorem rowsOf_update_none
    (hrows : ∀ record row, rows record = some row → row.record = some record)
    (hrow : rows record = some row) : rowsOf (Function.update rows record none) table pages slots =
      (rowsOf rows table pages slots).erase row := by
  rw [(nodup_rowsOf hrows).erase_eq_filter, rowsOf_eq_filterMap, rowsOf_eq_filterMap,
    List.filter_filterMap]
  refine List.filterMap_congr fun other _ => ?_
  by_cases hother : other = record
  · simp [hother, hrow, Option.filter_some]
  · rw [Function.update_of_ne hother]
    cases hfound : rows other with
    | none => rfl
    | some found =>
      have hne : found ≠ row := by
        rintro rfl
        exact hother (Option.some.inj ((hrows _ _ hfound).symm.trans (hrows _ _ hrow)))
      simp [hne, Option.filter_some]

/-- What stays of the rows of records is listed in the same order. -/
theorem rowsOf_filter (q : Row → Bool) :
    rowsOf (fun record => (rows record).filter q) table pages slots =
      (rowsOf rows table pages slots).filter q := by
  rw [rowsOf_eq_filterMap, rowsOf_eq_filterMap, List.filter_filterMap]

end RowsOf

namespace Store

variable {s t u : Store} {f : HeapFile} {pages n m : Nat} {q : Row → Bool} {tx : TxId}
  {record : RecordId} {row : Row}

theorem Backed.record_of_shownAt (h : s.Backed) (record : RecordId) (row : Row)
    (hrow : s.shownAt record = some row) : row.record = some record := (h.row_of_shownAt hrow).1

/-- So many rows of a table that pass a test were deleted, all of them on pages below a number, and
everything else is as it was. -/
structure Thins (s t : Store) (f : HeapFile) (pages : Nat) (q : Row → Bool) (n : Nat) : Prop where
  backed : t.Backed
  catalog_eq : t.catalog = s.catalog
  disk_eq : t.disk = s.disk
  shownAt_eq : ∀ record, t.shownAt record = s.shownAt record ∨
    t.shownAt record = none ∧ record.page.table = f.table ∧ record.page.number < pages ∧
      (s.shownAt record).any q
  length_eq : (rowsOf s.shownAt f.table pages f.slots).length =
    n + (rowsOf t.shownAt f.table pages f.slots).length

/-- No row was deleted. -/
theorem Thins.of_stays (h : s.Stays t) : s.Thins t f pages q 0 where
  backed := h.1.backed
  catalog_eq := h.1.catalog_eq
  disk_eq := h.2
  shownAt_eq := fun _ => .inl (by rw [Scan.shownAt_of_stays h])
  length_eq := by rw [Scan.shownAt_of_stays h, Nat.zero_add]

theorem Thins.trans (h : s.Thins t f pages q n) (h' : t.Thins u f pages q m) :
    s.Thins u f pages q (n + m) where
  backed := h'.backed
  catalog_eq := h'.catalog_eq.trans h.catalog_eq
  disk_eq := h'.disk_eq.trans h.disk_eq
  shownAt_eq := by
    intro record
    rcases h.shownAt_eq record with hsame | ⟨hgone, htable, hlt, hpass⟩
    · rw [← hsame]
      exact h'.shownAt_eq record
    · refine .inr ⟨?_, htable, hlt, hpass⟩
      rcases h'.shownAt_eq record with hsame | ⟨hgone', -⟩
      · rw [hsame, hgone]
      · exact hgone'
  length_eq := by rw [h.length_eq, h'.length_eq, Nat.add_assoc]

/-- A row of the table is deleted by its record. -/
theorem Backed.thins_of_delete (h : s.Backed) {tuple : Tuple}
    (hrow : row ∈ rowsOf s.shownAt f.table pages f.slots) (hplace : tuple.record = row.record)
    (hpass : q row) (hdelete : s.deleteRow tx tuple = (.ok (), t)) : ∃ record,
      s.shownAt record = some row ∧ s.Deleted t tx record ∧ s.Thins t f pages q 1 := by
  have houtcome : s.DeleteOutcome tx tuple (.ok (), t) := hdelete ▸ h.deleteRow
  obtain ⟨record, cells, old, hrecord, hshown, hold, hdisk, -, hshows⟩ := houtcome
  obtain ⟨number, slot, hnumber, -, hfound⟩ := mem_rowsOf.1 hrow
  obtain rfl : (⟨⟨f.table, number⟩, slot⟩ : RecordId) = record :=
    Option.some.inj ((h.record_of_shownAt _ _ hfound).symm.trans (hplace.symm.trans hrecord))
  have hdeleted := deleted_of_view hshown hold hshows.view_eq
  refine ⟨_, hfound, hdeleted, hshows.backed, hshows.catalog_eq, hdisk, fun other => ?_, ?_⟩
  · rw [hdeleted.shownAt_eq]
    by_cases hother : other = ⟨⟨f.table, number⟩, slot⟩
    · subst hother
      exact .inr ⟨Function.update_self .., rfl, hnumber, by rw [hfound]; exact hpass⟩
    · exact .inl (Function.update_of_ne hother ..)
  · have hpos := List.length_pos_of_mem hrow
    rw [hdeleted.shownAt_eq, rowsOf_update_none h.record_of_shownAt hfound,
      List.length_erase_of_mem hrow]
    omega

/-! ### All rows that pass -/

/-- The rows of a table that pass a test were deleted on all pages below a number, and everything
else is as it was. -/
structure Cleared (s t : Store) (f : HeapFile) (pages : Nat) (q : Row → Bool) : Prop where
  backed : t.Backed
  catalog_eq : t.catalog = s.catalog
  disk_eq : t.disk = s.disk
  shownAt_eq : ∀ record, t.shownAt record =
    if record.page.table = f.table ∧ record.page.number < pages ∧ (s.shownAt record).any q then none
    else s.shownAt record

/-- If no row that passes the test is left on the pages, all of them were deleted. -/
theorem Thins.cleared (h : s.Thins t f pages q n) (hs : s.Backed)
    (hf : s.catalog.file f.table = .ok f)
    (hnone : ∀ row ∈ rowsOf t.shownAt f.table pages f.slots, ¬ q row) :
    s.Cleared t f pages q := by
  refine ⟨h.backed, h.catalog_eq, h.disk_eq, fun record => ?_⟩
  rcases h.shownAt_eq record with hsame | ⟨hgone, hpasses⟩
  · rw [hsame]
    split_ifs with hpasses
    · -- the row would be left, and it passes
      obtain ⟨htable, hnumber, hpass⟩ := hpasses
      obtain ⟨row, hrow, hpass⟩ := (Option.any_eq_true _ _).1 hpass
      obtain ⟨-, g, hg, hslot, -⟩ := hs.row_of_shownAt hrow
      rw [htable, hf] at hg
      cases hg
      refine absurd hpass (hnone row (mem_rowsOf.2 ⟨_, _, hnumber, hslot, ?_⟩))
      rw [← htable, hsame, hrow]
    · rfl
  · rw [hgone, if_pos hpasses]

namespace Cleared

/-- The rows that stay on the pages are those that do not pass. -/
theorem rowsOf_eq (h : s.Cleared t f pages q) : rowsOf t.shownAt f.table pages f.slots =
    (rowsOf s.shownAt f.table pages f.slots).filter (fun row => !q row) := by
  rw [← rowsOf_filter]
  refine rowsOf_congr fun record htable hnumber => ?_
  rw [h.shownAt_eq]
  cases hrow : s.shownAt record with
  | none => simp
  | some row => cases hpass : q row <;> simp [htable, hnumber, hpass, Option.filter_some]

/-- As many rows were deleted as passed the test. -/
theorem count_eq (h : s.Cleared t f pages q) (hthins : s.Thins t f pages q n) :
    n = (rowsOf s.shownAt f.table pages f.slots).countP q := by
  have hlength := hthins.length_eq
  rw [h.rowsOf_eq, List.length_eq_countP_add_countP q, ← List.countP_eq_length_filter] at hlength
  simp only [Bool.not_eq_true, Bool.decide_eq_false] at hlength
  omega

/-- Nothing changes when this is done again. -/
theorem again (h : s.Cleared t f pages q) (h' : t.Cleared u f pages q) :
    u.shownAt = t.shownAt := by
  funext record
  rw [h'.shownAt_eq]
  split_ifs with hpasses
  · obtain ⟨htable, hnumber, hpass⟩ := hpasses
    rw [h.shownAt_eq] at hpass
    split_ifs at hpass with hgone
    · cases hpass
    · exact absurd ⟨htable, hnumber, hpass⟩ hgone
  · rfl

theorem pageCount_eq (h : s.Cleared t f pages q) (table : TableId) :
    t.pageCount table = s.pageCount table := by
  rw [pageCount, h.catalog_eq, h.disk_eq, pageCount]

/-- The rows of other tables are as they were. -/
theorem tableRows_of_ne (h : s.Cleared t f pages q) (hs : s.Backed) {table : TableId}
    (hne : table ≠ f.table) : t.tableRows table = s.tableRows table := by
  cases hg : s.catalog.file table with
  | error cause => rw [tableRows_of_error hg, tableRows_of_error (h.catalog_eq ▸ hg)]
  | ok g =>
    rw [h.backed.tableRows_eq_counted (h.catalog_eq ▸ hg), hs.tableRows_eq_counted hg,
      wholePages_congr h.catalog_eq h.disk_eq]
    refine rowsOf_congr fun record htable _ => ?_
    rw [h.shownAt_eq, if_neg]
    exact fun hpasses => hne (htable.symm.trans hpasses.1)

section Counted

variable (h : s.Cleared t f (s.wholePages f.table % HeapFile.pageNumbers) q) (hs : s.Backed)
  (hf : s.catalog.file f.table = .ok f)

include h hs hf

/-- The rows of the table are those that did not pass. -/
theorem tableRows_eq :
    t.tableRows f.table = (s.tableRows f.table).filter (fun row => !q row) := by
  rw [h.backed.tableRows_eq_counted (h.catalog_eq ▸ hf), hs.tableRows_eq_counted hf,
    wholePages_congr h.catalog_eq h.disk_eq, h.rowsOf_eq]

/-- No row of the table passes any more. -/
theorem countP_tableRows : (t.tableRows f.table).countP q = 0 := by
  rw [h.tableRows_eq hs hf, List.countP_eq_zero]
  intro row hrow hpass
  have hfails := (List.mem_filter.1 hrow).2
  rw [hpass] at hfails
  cases hfails

/-- No row of the table that passes is left, if all its pages are counted. -/
theorem shownAt_of_countable (hcount : f.Countable s.disk) (htable : record.page.table = f.table) :
    t.shownAt record = (s.shownAt record).filter (fun row => !q row) := by
  rw [h.shownAt_eq]
  cases hrow : s.shownAt record with
  | none => simp
  | some row =>
    have hnumber := (mem_recordsOf.1 (hs.mem_recordsOf hf htable hrow)).2.1
    rw [Nat.mod_eq_of_lt (wholePages_eq hf ▸ hcount)]
    cases hpass : q row <;> simp [htable, hnumber, hpass, Option.filter_some]

end Counted

end Cleared

end Store

namespace Scan

variable {s t : Store} {f : HeapFile} {scan : Scan} {kept : List Row} {row : Row}
  {record : RecordId} {tx : TxId}

/-- A scan finds all rows while none is copied. -/
theorem found_nil (s : Store) : s.found [] = s.shownAt :=
  funext fun _ => Store.found_of_notMem List.not_mem_nil

/-- The row that the scan gave last is deleted. -/
theorem Gathers.delete (h : scan.Gathers s f [] (kept ++ [row])) (hs : s.Backed)
    (hrow : s.shownAt record = some row) (hdeleted : s.Deleted t tx record) :
    scan.Gathers t f [] kept where
  file_eq := h.file_eq
  page_lt := h.page_lt
  rows_eq := by
    obtain ⟨rest, hrest, hall⟩ := h.rows_eq
    rw [found_nil] at hall ⊢
    refine ⟨rest, hrest, ?_⟩
    have hnodup := @nodup_rowsOf s.shownAt f.table (min scan.pageCount (scan.page + 1)) f.slots
      hs.record_of_shownAt
    rw [← hall, List.append_assoc, List.singleton_append] at hnodup
    have hkept : row ∉ kept := fun hmem =>
      (List.nodup_append.1 hnodup).2.2 _ hmem _ List.mem_cons_self rfl
    rw [hdeleted.shownAt_eq, rowsOf_update_none hs.record_of_shownAt hrow, ← hall,
      List.append_assoc, List.erase_append_right _ hkept, List.singleton_append,
      List.erase_cons_head]
  here := h.here
  behind := h.behind

end Scan

end Rowstore
