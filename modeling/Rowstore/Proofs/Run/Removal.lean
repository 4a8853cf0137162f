import Mathlib
import Rowstore.Proofs.Run.Record

/-!
# Removal

What a deletion comes to, in any state of a run and whatever the files hold. Either the row in the
slot that is addressed is gone, and nothing else; or the deletion is refused for one of a few
causes, `Store.Refuses`, and nothing at all has changed. The causes are looked for in order, on both
sides of the loading of a page, which may make room for it: `Store.delete_addressed_or_nothing`. The
page of a row that was deleted is in memory, marked for the transaction and held by it.
-/

namespace Rowstore

namespace Store

variable {s t : Store} {tx : TxId} {row : Tuple} {record : RecordId} {cause : DbError}

/-- Why a row is not deleted. Each cause but the first wants those before it not to hold. -/
inductive Refuses (s : Store) (tx : TxId) (row : Tuple) : DbError → Prop
  | unplaced (place : row.record = none) : Refuses s tx row .missingRecordId
  | unregistered {record : RecordId} (place : row.record = some record)
      (table : ∀ f, s.catalog.file record.page.table ≠ .ok f) :
      Refuses s tx row (.tableNotFound record.page.table)
  /-- The pages of a table cannot be counted, because they have no bytes. -/
  | uncounted {record : RecordId} {f : HeapFile} (place : row.record = some record)
      (table : s.catalog.file record.page.table = .ok f) (size : f.pageSize = 0) :
      Refuses s tx row .badPageSize
  | foreign {record : RecordId} {count : Nat} (place : row.record = some record)
      (pages : s.pageCount record.page.table = .ok count) (number : count ≤ record.page.number) :
      Refuses s tx row (.foreignTuple record)
  | unavailable {record : RecordId} {count : Nat} {cause : DbError}
      (place : row.record = some record) (pages : s.pageCount record.page.table = .ok count)
      (number : record.page.number < count) (page : s.acquire tx record.page = .error cause) :
      Refuses s tx row cause
  | free {record : RecordId} {count : Nat} {given : Page × Store}
      (place : row.record = some record) (pages : s.pageCount record.page.table = .ok count)
      (number : record.page.number < count) (page : s.acquire tx record.page = .ok given)
      (slot : s.shownAt record = none) :
      Refuses s tx row (.slotNotOccupied record.page record.slot)

theorem pageCount_eq_ok_iff {table : TableId} {count : Nat} :
    s.pageCount table = .ok count ↔
      ∃ f, s.catalog.file table = .ok f ∧ f.pageCount s.disk = .ok count := bind_eq_ok_iff

/-- A slot of a page that is given out is used exactly if a reader gets a row there. -/
theorem Backed.isUsed_iff (h : s.Backed) {page : Page}
    (hacquire : s.acquire tx record.page = .ok (page, t)) :
    page.isUsed record.slot = true ↔ s.shownAt record ≠ none := by
  obtain ⟨hstays, hpage⟩ := h.acquire hacquire
  obtain ⟨f, -, hholds, -⟩ := hstays.1.backed.cached hpage
  have hshown : s.shown record.page = some page.cells := by
    rw [← hstays.shown_eq, shown_of_page? hpage]
  rw [hholds.sound.isUsed_iff, shownAt, rowIn_of_some hshown]
  rcases page.cells[record.slot]? with _ | _ | row <;> simp

/-- A row of a page that is counted and given out is refused if its slot is free. -/
theorem Backed.pageDelete_error_iff (h : s.Backed) {page : Page}
    (hrecord : row.record = some record)
    (hacquire : s.acquire tx record.page = .ok (page, t)) :
    page.delete row = .error cause ↔
      s.shownAt record = none ∧ cause = .slotNotOccupied record.page record.slot := by
  have hid := id_of_acquire hacquire
  have hplace : row.record = some ⟨page.id, record.slot⟩ := by rw [hid, hrecord]
  have hused := h.isUsed_iff hacquire
  rw [Page.delete_eq_error_iff hplace, hid, ← Bool.not_eq_true, hused, not_not]

/-- A row of a table that is registered is deleted from the table's file. -/
theorem deleteRow_error_iff_of_file {f : HeapFile} (hrecord : row.record = some record)
    (hf : s.catalog.file record.page.table = .ok f) :
    (s.deleteRow tx row).1 = .error cause ↔ (s.deleteFromFile tx f row).1 = .error cause := by
  unfold Store.deleteRow
  simp only [hrecord, hf]
  generalize s.deleteFromFile tx f row = o
  obtain ⟨cause' | id, t⟩ := o
  · simp
  · exact ⟨nofun, nofun⟩

/-- No row is deleted from a file whose pages have no bytes. -/
theorem deleteFromFile_of_size {f : HeapFile} (hrecord : row.record = some record)
    (hf : s.catalog.file record.page.table = .ok f) (hsize : f.pageSize = 0) :
    s.deleteFromFile tx f row = (.error .badPageSize, s) := by
  simp [Store.deleteFromFile, hrecord, Catalog.table_of_file hf, HeapFile.pageCount, hsize]

/-- A row is refused if its page is not counted, cannot be given out, or has no row there. -/
theorem Backed.deleteFromFile_error_iff (h : s.Backed) {f : HeapFile} {count : Nat}
    (hrecord : row.record = some record) (hf : s.catalog.file record.page.table = .ok f)
    (hcount : f.pageCount s.disk = .ok count) :
    (s.deleteFromFile tx f row).1 = .error cause ↔
      count ≤ record.page.number ∧ cause = .foreignTuple record ∨
      record.page.number < count ∧ (s.acquire tx record.page = .error cause ∨
        ∃ given, s.acquire tx record.page = .ok given ∧ s.shownAt record = none ∧
          cause = .slotNotOccupied record.page record.slot) := by
  have htable := Catalog.table_of_file hf
  simp only [Store.deleteFromFile, hrecord, htable, ne_eq, not_true_eq_false, if_false, hcount]
  by_cases hnumber : count ≤ record.page.number
  · simp [hnumber, eq_comm]
  have hlt := Nat.lt_of_not_le hnumber
  simp only [ge_iff_le, hnumber, if_false, false_and, false_or, hlt, true_and]
  cases hacquire : s.acquire tx record.page with
  | error cause' => simp
  | ok given =>
    obtain ⟨page, t⟩ := given
    have hdelete : page.delete row = .error cause ↔ s.shownAt record = none ∧
        cause = .slotNotOccupied record.page record.slot := h.pageDelete_error_iff hrecord hacquire
    cases hfreed : page.delete row with
    | error cause' => simp [← hdelete, hfreed]
    | ok freed => simp [← hdelete, hfreed]

/-- A deletion fails exactly for the causes for which it is refused. -/
theorem Backed.delete_error_iff_refuses (h : s.Backed) :
    s.result (.delete tx row) = .error cause ↔ s.Refuses tx row cause := by
  change (s.deleteRow tx row).1 = .error cause ↔ _
  constructor
  · intro hresult
    cases hrecord : row.record with
    | none =>
      rw [Store.deleteRow, hrecord] at hresult
      cases hresult
      exact .unplaced hrecord
    | some record =>
      cases hf : s.catalog.file record.page.table with
      | error cause' =>
        simp only [Store.deleteRow, hrecord, hf] at hresult
        cases hresult
        obtain ⟨hnone, rfl⟩ := Catalog.file_eq_error_iff.1 hf
        exact .unregistered hrecord hnone
      | ok f =>
        rw [deleteRow_error_iff_of_file hrecord hf] at hresult
        by_cases hsize : f.pageSize = 0
        · rw [deleteFromFile_of_size hrecord hf hsize] at hresult
          cases hresult
          exact .uncounted hrecord hf hsize
        have hcount : f.pageCount s.disk = .ok _ := if_neg hsize
        have hpages := pageCount_eq_ok_iff.2 ⟨f, hf, hcount⟩
        rcases (h.deleteFromFile_error_iff hrecord hf hcount).1 hresult with
          ⟨hnumber, rfl⟩ | ⟨hnumber, hacquire | ⟨given, hacquire, hfree, rfl⟩⟩
        · exact .foreign hrecord hpages hnumber
        · exact .unavailable hrecord hpages hnumber hacquire
        · exact .free hrecord hpages hnumber hacquire hfree
  · intro hrefuses
    cases hrefuses with
    | unplaced place => simp only [Store.deleteRow, place]
    | unregistered place table =>
      have hf := Catalog.file_eq_error_iff.2 ⟨table, rfl⟩
      simp only [Store.deleteRow, place, hf]
    | uncounted place table size =>
      rw [deleteRow_error_iff_of_file place table, deleteFromFile_of_size place table size]
    | foreign place pages number =>
      obtain ⟨f, hf, hcount⟩ := pageCount_eq_ok_iff.1 pages
      rw [deleteRow_error_iff_of_file place hf, h.deleteFromFile_error_iff place hf hcount]
      exact .inl ⟨number, rfl⟩
    | unavailable place pages number page =>
      obtain ⟨f, hf, hcount⟩ := pageCount_eq_ok_iff.1 pages
      rw [deleteRow_error_iff_of_file place hf, h.deleteFromFile_error_iff place hf hcount]
      exact .inr ⟨number, .inl page⟩
    | free place pages number page slot =>
      obtain ⟨f, hf, hcount⟩ := pageCount_eq_ok_iff.1 pages
      rw [deleteRow_error_iff_of_file place hf, h.deleteFromFile_error_iff place hf hcount]
      exact .inr ⟨number, .inr ⟨_, page, slot, rfl⟩⟩

/-- A deletion that is refused changes nothing. -/
theorem Backed.sameRows_of_refuses (h : s.Backed) (hrefuses : s.Refuses tx row cause) :
    s.SameRows (s.after (.delete tx row)) ∧ (s.after (.delete tx row)).disk = s.disk := by
  have houtcome : s.DeleteOutcome tx row
      (s.result (.delete tx row), s.after (.delete tx row)) := h.deleteRow
  rw [h.delete_error_iff_refuses.2 hrefuses] at houtcome
  exact ⟨sameRows_of_view houtcome.1.view_eq, houtcome.2⟩

/-- A deletion that succeeds takes one row away. -/
theorem Backed.deleted_of_result (h : s.Backed) (hresult : s.result (.delete tx row) = .ok ()) :
    ∃ record, row.record = some record ∧ s.Deleted (s.after (.delete tx row)) tx record ∧
      (s.after (.delete tx row)).disk = s.disk ∧
      (s.after (.delete tx row)).pool.isHeldBy tx record.page = true := by
  have houtcome : s.DeleteOutcome tx row
      (s.result (.delete tx row), s.after (.delete tx row)) := h.deleteRow
  rw [hresult] at houtcome
  obtain ⟨record, cells, old, hrecord, hshown, hold, hdisk, hheld, hshows⟩ := houtcome
  exact ⟨record, hrecord, deleted_of_view hshown hold hshows.view_eq, hdisk, hheld⟩

/-- **A deletion takes the addressed row away and nothing else**, or it is refused and changes
nothing. -/
theorem delete_addressed_or_nothing (h : s.Occurs) (tx : TxId) (row : Tuple) :
    let deletion := .delete tx row
    let after := s.after deletion
    (∀ cause, s.result deletion = .error cause ↔ s.Refuses tx row cause) ∧
      (∀ cause, s.Refuses tx row cause → s.SameRows after ∧ after.disk = s.disk) ∧
      ((∀ cause, ¬ s.Refuses tx row cause) → s.result deletion = .ok () ∧
        ∃ record, row.record = some record ∧ s.Deleted after tx record ∧ after.disk = s.disk ∧
          (after.pool.page? record.page).isSome ∧
          after.pool.isHeldBy tx record.page = true) := by
  intro deletion after
  have hbacked := h.backed
  refine ⟨fun cause => hbacked.delete_error_iff_refuses,
    fun cause hrefuses => hbacked.sameRows_of_refuses hrefuses, fun hnone => ?_⟩
  cases hresult : s.result deletion with
  | error cause => exact absurd (hbacked.delete_error_iff_refuses.1 hresult) (hnone cause)
  | ok _ =>
    obtain ⟨record, hrecord, hdeleted, hdisk, hheld⟩ := hbacked.deleted_of_result hresult
    have hmark : after.mark record.page = some tx := by
      rw [hdeleted.mark_eq, Function.update_self]
    exact ⟨rfl, record, hrecord, hdeleted, hdisk, isSome_of_mark hmark, hheld⟩

/-- A number is deleted once, and refused after that. -/
theorem number_deleted_once :
    let s := noNumbers.run [insertNumber ⟨1⟩ 7, insertNumber ⟨1⟩ 8]
    let row : Tuple := { number 7 with record := some ⟨⟨only, 0⟩, 0⟩ }
    let after := s.after (.delete ⟨2⟩ row)
    s.Occurs ∧ s.result (.delete ⟨2⟩ row) = .ok () ∧
      s.Deleted after ⟨2⟩ ⟨⟨only, 0⟩, 0⟩ ∧
      after.Refuses ⟨2⟩ row (.slotNotOccupied ⟨only, 0⟩ 0) ∧
      (after.after (.delete ⟨2⟩ row)).shownAt = after.shownAt := by
  intro s row after
  have hcounted : noNumbers.Counted [insertNumber ⟨1⟩ 7, insertNumber ⟨1⟩ 8] := by
    decide +kernel
  have hoccurs : s.Occurs := noNumbers_initial.unread.occurs.run hcounted
  have hcounts : s.Counted [.delete ⟨2⟩ row] := ⟨trivial, trivial⟩
  have hafter := hoccurs.run hcounts
  rw [run_cons, run_nil] at hafter
  have hresult : s.result (.delete ⟨2⟩ row) = .ok () := by decide +kernel
  have hagain : after.result (.delete ⟨2⟩ row) = .error (.slotNotOccupied ⟨only, 0⟩ 0) := by
    decide +kernel
  obtain ⟨hiff, -, hdeletes⟩ := delete_addressed_or_nothing hoccurs ⟨2⟩ row
  have hnone : ∀ cause, ¬ s.Refuses ⟨2⟩ row cause := fun cause hrefuses =>
    nomatch hresult.symm.trans ((hiff cause).2 hrefuses)
  obtain ⟨-, record, hrecord, hdeleted, -⟩ := hdeletes hnone
  cases hrecord
  obtain ⟨hiff, hsame, -⟩ := delete_addressed_or_nothing hafter ⟨2⟩ row
  have hrefuses := (hiff _).1 hagain
  exact ⟨hoccurs, hresult, hdeleted, hrefuses, (hsame _ hrefuses).1.shownAt_eq⟩

/-- A page is blanked on the disk, and a reader notices when a deletion makes room in memory. -/
theorem number_gone_with_another :
    let start := single numbers 5 2 [1, 7, 0, 0, 0, 1, 8, 0, 0, 0, 1, 9, 0, 0, 0]
      (5 * (HeapFile.pageNumbers - 1))
    let s := start.run [.acquire ⟨1⟩ ⟨only, 1⟩, .discard ⟨only, 1⟩, .acquire ⟨2⟩ ⟨only, 2⟩,
      insertNumber ⟨3⟩ 5, .release ⟨2⟩ ⟨only, 2⟩]
    let deletion := deleteNumber ⟨4⟩ 7 ⟨⟨only, 0⟩, 0⟩
    start.Unread ∧ s.result deletion = .ok () ∧
      s.shownAt ⟨⟨only, 2⟩, 0⟩ = some ((number 9).rowAt ⟨⟨only, 2⟩, 0⟩) ∧
      (s.after deletion).shownAt ⟨⟨only, 2⟩, 0⟩ = none := by
  refine ⟨single_unread, ?_⟩
  decide +kernel

end Store

end Rowstore
