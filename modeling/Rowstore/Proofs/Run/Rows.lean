import Mathlib
import Rowstore.Proofs.Run.Record

/-!
# The rows of a table

The rows that a scan of a table gets, as a list: those of the records of the table, in page order
and slot order, `rowsOf`. Adding blank pages adds no rows.
-/

namespace Rowstore

/-- The rows of so many pages of a table, each with so many slots, in order. -/
def rowsOf (rows : RecordId → Option Row) (table : TableId) (pages slots : Nat) : List Row :=
  (List.range pages).flatMap fun n => (List.range slots).filterMap fun i => rows ⟨⟨table, n⟩, i⟩

/-- The records of so many pages of a table, each with so many slots, in order. -/
def recordsOf (table : TableId) (pages slots : Nat) : List RecordId :=
  (List.range pages).flatMap fun n => (List.range slots).map fun i => ⟨⟨table, n⟩, i⟩

section RowsOf

variable {rows : RecordId → Option Row} {table : TableId} {pages slots : Nat}

theorem mem_recordsOf {record : RecordId} : record ∈ recordsOf table pages slots ↔
    record.page.table = table ∧ record.page.number < pages ∧ record.slot < slots := by
  simp only [recordsOf, List.mem_flatMap, List.mem_map, List.mem_range]
  constructor
  · rintro ⟨n, hn, i, hi, rfl⟩
    exact ⟨rfl, hn, hi⟩
  · obtain ⟨⟨owner, n⟩, i⟩ := record
    rintro ⟨rfl, hn, hi⟩
    exact ⟨n, hn, i, hi, rfl⟩

/-- No record is there twice. -/
theorem nodup_recordsOf (table : TableId) (pages slots : Nat) :
    (recordsOf table pages slots).Nodup := by
  rw [recordsOf, List.nodup_flatMap]
  refine ⟨fun _ _ => List.nodup_range.map fun _ _ hij => (RecordId.mk.inj hij).2,
    List.nodup_range.imp fun hne => ?_⟩
  rw [Function.onFun, List.disjoint_left]
  rintro record hmem hmem'
  obtain ⟨i, -, rfl⟩ := List.mem_map.1 hmem
  obtain ⟨j, -, heq⟩ := List.mem_map.1 hmem'
  cases heq
  exact hne rfl

theorem rowsOf_eq_filterMap (rows : RecordId → Option Row) (table : TableId) (pages slots : Nat) :
    rowsOf rows table pages slots = (recordsOf table pages slots).filterMap rows := by
  rw [rowsOf, recordsOf, List.filterMap_flatMap]
  exact List.flatMap_congr fun _ _ => (List.filterMap_map ..).symm

theorem rowsOf_succ (rows : RecordId → Option Row) (table : TableId) (pages slots : Nat) :
    rowsOf rows table (pages + 1) slots =
      rowsOf rows table pages slots ++
        (List.range slots).filterMap fun i => rows ⟨⟨table, pages⟩, i⟩ := by
  rw [rowsOf, rowsOf, List.range_succ, List.flatMap_append, List.flatMap_singleton]

/-- The rows of pages depend on the records of these pages. -/
theorem rowsOf_congr {rows' : RecordId → Option Row}
    (h : ∀ record, record.page.table = table → record.page.number < pages →
      rows' record = rows record) :
    rowsOf rows' table pages slots = rowsOf rows table pages slots :=
  List.flatMap_congr fun _ hn => List.filterMap_congr fun _ _ => h _ rfl (List.mem_range.1 hn)

theorem mem_rowsOf {row : Row} : row ∈ rowsOf rows table pages slots ↔
    ∃ n i, n < pages ∧ i < slots ∧ rows ⟨⟨table, n⟩, i⟩ = some row := by
  simp only [rowsOf, List.mem_flatMap, List.mem_range, List.mem_filterMap]
  exact ⟨fun ⟨n, hn, i, hi, hrow⟩ => ⟨n, i, hn, hi, hrow⟩,
    fun ⟨n, i, hn, hi, hrow⟩ => ⟨n, hn, i, hi, hrow⟩⟩

/-- Pages without rows add nothing. -/
theorem rowsOf_of_le {more : Nat} (hle : pages ≤ more)
    (hnone : ∀ n i, pages ≤ n → rows ⟨⟨table, n⟩, i⟩ = none) :
    rowsOf rows table more slots = rowsOf rows table pages slots := by
  obtain ⟨extra, rfl⟩ := Nat.exists_eq_add_of_le hle
  rw [rowsOf, List.range_add, List.flatMap_append, rowsOf]
  refine List.append_right_eq_self.2 (List.flatMap_eq_nil_iff.2 fun n hn => ?_)
  obtain ⟨k, -, rfl⟩ := List.mem_map.1 hn
  exact List.filterMap_eq_nil_iff.2 fun i _ => hnone (pages + k) i (Nat.le_add_right _ _)

end RowsOf

/-- The cells of a page, read slot by slot. -/
theorem reduceOption_eq (cells : List (Option Row)) :
    cells.reduceOption = (List.range cells.length).filterMap fun i => cells[i]?.join := by
  have hcells : (List.range cells.length).map (fun i => cells[i]?.join) = cells := by
    refine List.ext_getElem (by simp) fun i _ hi => ?_
    simp [List.getElem?_eq_getElem hi]
  conv_lhs => rw [← hcells]
  rw [List.reduceOption, List.filterMap_map]
  rfl

/-- The count of slots of a page. -/
def HeapFile.slots (f : HeapFile) : Nat := slotCount f.pageSize f.schema.size

namespace Store

variable {s t : Store} {a : Action} {table : TableId} {record : RecordId} {f : HeapFile}

/-- The files that have got more pages can still be counted. -/
def GrowthCounts (s t : Store) : Prop :=
  ∀ table f, s.catalog.file table = .ok f → s.wholePages table < t.wholePages table →
    f.Countable t.disk

/-- A table that is not registered has no rows. -/
theorem tableRows_of_error {cause : DbError} (h : s.catalog.file table = .error cause) :
    s.tableRows table = [] := by
  have hcount : s.pageCount table = .error cause := by rw [pageCount, h]; rfl
  rw [tableRows, hcount]

namespace Backed

/-- A row that is shown carries its record, which is one of a page that is stored, and has a value
for each column of its table. -/
theorem row_of_shownAt (h : s.Backed) {row : Row} (hrow : s.shownAt record = some row) :
    row.record = some record ∧ ∃ f, s.catalog.file record.page.table = .ok f ∧
      record.slot < f.slots ∧ (s.stored record.page).isSome ∧ row.types = f.schema.types ∧
      row.values.length = f.schema.arity := by
  obtain ⟨cells, hshown, hcell⟩ := Option.bind_eq_some_iff.1 (Option.join_eq_some_iff.1 hrow)
  obtain ⟨f, page, hf, hholds, hid, rfl⟩ := h.exists_page hshown
  have hstored := h.shown_isSome_iff.1 (Option.isSome_iff_exists.2 ⟨_, hshown⟩)
  have hlt := (List.getElem?_eq_some_iff.1 hcell).1
  rw [h.length_shown _ hf hshown] at hlt
  rw [Page.cells, List.getElem?_map] at hcell
  obtain ⟨o, ho, hrow⟩ := Option.map_eq_some_iff.1 hcell
  obtain ⟨tuple, rfl, rfl⟩ := Option.map_eq_some_iff.1 hrow
  obtain ⟨⟨hshape, vs, hvalues, hfits⟩, hrecord, -⟩ := hholds.sound.row_ok record.slot tuple ho
  rw [hholds.schema_eq] at hshape hfits
  refine ⟨hrecord.trans ?_, f, hf, hlt, hstored, hshape, ?_⟩
  · rw [hid]
  · show tuple.values.length = _
    rw [hvalues, List.length_map, hfits.length_eq]
    exact List.length_map _

/-- The rows of a page are those of its records. -/
theorem pageRows_eq (h : s.Backed) (hf : s.catalog.file table = .ok f) (n : Nat) :
    s.pageRows ⟨table, n⟩ = (List.range f.slots).filterMap fun i => s.shownAt ⟨⟨table, n⟩, i⟩ := by
  unfold pageRows
  cases hshown : s.shown ⟨table, n⟩ with
  | none =>
    have hnone : ∀ i, s.shownAt ⟨⟨table, n⟩, i⟩ = none := fun i => rowIn_of_none hshown
    simp [hnone]
  | some cells =>
    have hlength : cells.length = f.slots := h.length_shown _ hf hshown
    rw [Option.getD_some, reduceOption_eq, hlength]
    exact List.filterMap_congr fun i _ => (rowIn_slot hshown i).symm

/-- The rows of a table are those of its records in the pages that are counted. -/
theorem tableRows_eq_counted (h : s.Backed) (hf : s.catalog.file table = .ok f) :
    s.tableRows table =
      rowsOf s.shownAt table (s.wholePages table % HeapFile.pageNumbers) f.slots := by
  have hpageCount : s.pageCount table = f.pageCount s.disk := by rw [pageCount, hf]; rfl
  rw [tableRows, hpageCount, HeapFile.pageCount, wholePages_eq hf]
  split_ifs with hzero
  · have hslots : f.slots = 0 := by
      rw [HeapFile.slots, slotCount, hzero, Nat.zero_mul, Nat.zero_div]
    simp [rowsOf, hslots]
  · simp only [rowsFrom, rowsOf, List.range_eq_range', h.pageRows_eq hf, HeapFile.wholePages]

/-- The rows of a table are those of its records, if all pages are counted. -/
theorem tableRows_eq (h : s.Backed) (hf : s.catalog.file table = .ok f)
    (hcount : f.Countable s.disk) :
    s.tableRows table = rowsOf s.shownAt table (s.wholePages table) f.slots := by
  rw [h.tableRows_eq_counted hf, Nat.mod_eq_of_lt (wholePages_eq hf ▸ hcount)]

end Backed

namespace Sound

/-- A row that is shown carries its record, which is one of a page that is stored. -/
theorem record_of_shownAt (h : s.Sound) {row : Row} (hrow : s.shownAt record = some row) :
    row.record = some record ∧ ∃ f, s.catalog.file record.page.table = .ok f ∧
      record.slot < f.slots ∧ (s.stored record.page).isSome := by
  obtain ⟨hrecord, f, hf, hslot, hstored, -⟩ := h.backed.row_of_shownAt hrow
  exact ⟨hrecord, f, hf, hslot, hstored⟩

theorem tableRows_eq_counted (h : s.Sound) (hf : s.catalog.file table = .ok f) :
    s.tableRows table =
      rowsOf s.shownAt table (s.wholePages table % HeapFile.pageNumbers) f.slots :=
  h.backed.tableRows_eq_counted hf

theorem tableRows_eq (h : s.Sound) (hf : s.catalog.file table = .ok f)
    (hcount : f.Countable s.disk) :
    s.tableRows table = rowsOf s.shownAt table (s.wholePages table) f.slots :=
  h.backed.tableRows_eq hf hcount

/-- A row that a reader gets is one of its table's, if all pages are counted. -/
theorem mem_tableRows (h : s.Sound) (hf : s.catalog.file record.page.table = .ok f)
    (hcount : f.Countable s.disk) {row : Row} (hrow : s.shownAt record = some row) :
    row ∈ s.tableRows record.page.table := by
  obtain ⟨-, g, hg, hslot, hstored⟩ := h.record_of_shownAt hrow
  cases hf.symm.trans hg
  have hpos := pageSize_pos_of_slots (Nat.zero_lt_of_lt hslot)
  rw [h.tableRows_eq hf hcount, mem_rowsOf]
  exact ⟨record.page.number, record.slot, (h.stored_isSome_iff_lt hf hpos _).1 hstored, hslot, hrow⟩

/-- A row of a table is what a reader gets in its record. -/
theorem shownAt_of_mem (h : s.Sound) {row : Row} (hrow : row ∈ s.tableRows table)
    (hrecord : row.record = some record) : s.shownAt record = some row := by
  cases hf : s.catalog.file table with
  | error cause =>
    rw [tableRows_of_error hf] at hrow
    cases hrow
  | ok f =>
    rw [h.tableRows_eq_counted hf, mem_rowsOf] at hrow
    obtain ⟨n, i, -, -, hshown⟩ := hrow
    cases (h.record_of_shownAt hshown).1.symm.trans hrecord
    exact hshown

/-- Where no page is lost there are as many pages at least. -/
theorem wholePages_le (h : s.Sound) (ht : t.Sound) (hcatalog : t.catalog = s.catalog)
    (hstays : ∀ id, (s.stored id).isSome → (t.stored id).isSome) (table : TableId) :
    s.wholePages table ≤ t.wholePages table := by
  cases hf : s.catalog.file table with
  | error cause =>
    rw [wholePages, hf]
    exact Nat.zero_le _
  | ok f =>
    have hf' : t.catalog.file table = .ok f := hcatalog ▸ hf
    rcases Nat.eq_zero_or_pos f.pageSize with hzero | hpos
    · rw [wholePages_eq hf, HeapFile.wholePages, hzero, Nat.div_zero]
      exact Nat.zero_le _
    · refine Nat.not_lt.1 fun hlt => ?_
      have hstored := hstays _ ((h.stored_isSome_iff_lt hf hpos _).2 hlt)
      exact lt_irrefl _ ((ht.stored_isSome_iff_lt hf' hpos _).1 hstored)

/-- Pages that come into being without rows add none to a table. -/
theorem tableRows_congr (h : s.Sound) (ht : t.Sound) (hcatalog : t.catalog = s.catalog)
    (hstays : ∀ id, (s.stored id).isSome → (t.stored id).isSome) (hcounts : s.GrowthCounts t)
    (hshown : t.shownAt = s.shownAt) (table : TableId) :
    t.tableRows table = s.tableRows table := by
  cases hf : s.catalog.file table with
  | error cause => rw [tableRows_of_error (hcatalog ▸ hf), tableRows_of_error hf]
  | ok f =>
    have hf' : t.catalog.file table = .ok f := hcatalog ▸ hf
    have hle := h.wholePages_le ht hcatalog hstays table
    rcases hle.eq_or_lt with hsame | hlt
    · rw [ht.tableRows_eq_counted hf', h.tableRows_eq_counted hf, hsame, hshown]
    · have hcount : f.Countable t.disk := hcounts table f hf hlt
      have hcount' : f.Countable s.disk := by
        rw [wholePages_eq hf, wholePages_eq hf'] at hle
        exact lt_of_le_of_lt hle hcount
      rw [ht.tableRows_eq hf' hcount, h.tableRows_eq hf hcount', hshown]
      refine rowsOf_of_le hle fun n i hn => ?_
      -- a row beyond the old pages would be in one of them
      by_contra hrow
      obtain ⟨row, hrow⟩ := Option.ne_none_iff_exists'.1 hrow
      obtain ⟨-, f', hf', hslot, hstored⟩ := h.record_of_shownAt hrow
      have hpos := pageSize_pos_of_slots (Nat.zero_lt_of_lt hslot)
      exact absurd ((h.stored_isSome_iff_lt hf' hpos n).1 hstored) (Nat.not_lt.2 hn)

/-- A page that is stored stays stored. -/
theorem stored_after (h : s.Sound) (hcounts : s.Counts a) {id : PageId}
    (hstored : (s.stored id).isSome) : ((s.after a).stored id).isSome := by
  obtain ⟨w, hreaches, hallows⟩ := h.step hcounts
  rw [← view_stored, hreaches.view_eq]
  have hgrown : ∀ table, (w = s.view ∨
      ∃ f, s.catalog.file table = .ok f ∧ s.view.Grown w table f.blank) →
      (w.stored id).isSome := by
    rintro table (rfl | ⟨f, -, hgrown⟩)
    · exact hstored
    · exact hgrown.stored_isSome hstored
  have hflush : ∀ (p : PageId → Prop) [DecidablePred p], ((s.view.flushOn p).stored id).isSome :=
    fun p _ => by
      simp only [View.flushOn]
      split_ifs
      · exact h.shown_isSome_iff.2 hstored
      · exact hstored
  cases a with
  | acquire | release | scan => exact hallows ▸ hstored
  | insert tx table row complete =>
    cases hresult : s.result (.insert tx table row complete) with
    | error cause =>
      rw [hresult] at hallows
      exact hgrown table hallows
    | ok _ =>
      rw [hresult] at hallows
      obtain ⟨f, record, -, -, -, rfl⟩ := hallows
      exact View.stored_insert_isSome hstored
  | delete tx row =>
    cases hresult : s.result (.delete tx row) with
    | error cause =>
      rw [hresult] at hallows
      exact hallows ▸ hstored
    | ok _ =>
      rw [hresult] at hallows
      obtain ⟨record, cells, old, -, -, -, rfl⟩ := hallows
      exact hstored
  | flush | flushAll => exact hallows.2 ▸ hflush _
  | discard => exact hallows.2 ▸ hstored
  | complete tx commit =>
    cases commit with
    | true => exact hallows.2 ▸ hflush _
    | false => exact hallows.2 ▸ hstored
  | append table => exact hgrown table hallows

end Sound

end Store

end Rowstore
