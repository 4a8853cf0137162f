import Mathlib
import Rowstore.Proofs.Run.Record
import Rowstore.Proofs.Store.Failing

/-!
# First fit

What an insertion comes to, in any state of a run and whatever the files hold.

* The search for a page always ends, and takes one round: `Store.Backed.insertWithin_succ`.
* The row takes the first free slot of the first page that has one, and a page is added to the file
  only if all of its pages are full: `Store.Placed`. Every other row stays as it is, and the page
  that takes the row is in memory, marked and held.
* An insertion that fails changes no row. It may have added a page, which is empty then.

Page numbers have 32 bits. So an insertion that finds all pages full needs a number that is left:
`Store.insert_first_fit`. If there is none, the page that is added takes the place of the first one.
-/

namespace Rowstore

namespace Store

variable {s t : Store} {tx : TxId} {table : TableId} {f : HeapFile} {row : Tuple}
  {record : RecordId}

/-! ### Counts of pages -/

/-- Pages are counted by their numbers, which start over after the last one. -/
theorem pageCount_eq (hf : s.catalog.file table = .ok f) (hpos : 0 < f.pageSize) :
    s.pageCount table = .ok (s.wholePages table % HeapFile.pageNumbers) := by
  rw [wholePages_eq hf, Store.pageCount, hf]
  exact if_neg hpos.ne'

/-- The file of a table has one page more, and every other file has as many as before. The count of
pages says so too, if that is not the end of the page numbers. -/
structure OnePageMore (s t : Store) (table : TableId) : Prop where
  wholePages_eq : t.wholePages = Function.update s.wholePages table (s.wholePages table + 1)
  pageCount_iff : t.pageCount table = .ok (s.wholePages table + 1) ↔
    s.wholePages table + 1 < HeapFile.pageNumbers

theorem Backed.onePageMore (h : s.Backed) (hcatalog : t.catalog = s.catalog)
    (hf : s.catalog.file table = .ok f) (hpos : 0 < f.pageSize)
    (hgrows : f.Grows s.disk t.disk 1) : s.OnePageMore t table := by
  have hwhole := h.wholePages_of_grows hcatalog hf hgrows
  refine ⟨hwhole, ?_⟩
  rw [pageCount_eq (hcatalog ▸ hf) hpos, hwhole, Function.update_self, Except.ok.injEq]
  exact ⟨fun hcount => hcount ▸ Nat.mod_lt _ (by decide), Nat.mod_eq_of_lt⟩

/-! ### Where a row goes -/

/-- The first free slot of the first page that has one. -/
structure FirstFree (s : Store) (record : RecordId) : Prop where
  counted : record.page.number < s.wholePages record.page.table
  full : ∀ n < record.page.number, s.Full ⟨record.page.table, n⟩
  free : s.freeRecord record.page = some record

/-- A row takes the first free slot of the pages that are there, or slot 0 of a page that is added
because all of them are full. -/
inductive Placed (s t : Store) (table : TableId) : RecordId → Prop
  | old {record : RecordId} (owner : record.page.table = table) (first : s.FirstFree record)
      (pages : t.wholePages = s.wholePages) : Placed s t table record
  | new (full : ∀ n < s.wholePages table, s.Full ⟨table, n⟩) (pages : s.OnePageMore t table) :
      Placed s t table ⟨⟨table, s.wholePages table⟩, 0⟩

/-- Where a row lands and which page it takes say where it goes. -/
theorem Backed.placed (h : s.Backed) (hcatalog : t.catalog = s.catalog)
    (hf : s.catalog.file table = .ok f) (hpos : 0 < f.pageSize) (hlands : s.Lands table record)
    (htakes : s.Takes t f record) : s.Placed t table record := by
  obtain ⟨⟨owner, number⟩, slot⟩ := record
  obtain ⟨howner, hfull, hplace⟩ := hlands
  simp only at howner hfull hplace
  subst howner
  have hwhole := wholePages_eq hf
  rcases htakes with ⟨hlt, hdisk⟩ | ⟨hend, hgrows⟩
  · rcases hplace with ⟨cells, hshown, hslot⟩ | ⟨-, hnumber, -⟩
    · have hfree : s.freeRecord ⟨owner, number⟩ = some ⟨⟨owner, number⟩, slot⟩ := by
        rw [freeRecord, hshown, Option.bind_some, hslot, Option.map_some]
      exact .old rfl ⟨hwhole ▸ hlt, hfull, hfree⟩ (wholePages_congr hcatalog hdisk)
    · exact absurd hlt (by rw [hnumber, hwhole]; exact lt_irrefl _)
  · rcases hplace with ⟨cells, hshown, hslot⟩ | ⟨-, rfl, rfl⟩
    · have hsome := (List.getElem?_eq_some_iff.1 (Page.freeSlot?_eq_some hslot)).1
      have hlt := h.lt_of_shown hshown hsome.pos
      exact absurd hlt (by rw [hwhole, ← hend]; exact lt_irrefl _)
    · exact .new hfull (h.onePageMore hcatalog hf hpos hgrows)

/-! ### The search ends -/

/-- One round finds a page with a free slot, adds one, or fails. -/
theorem Backed.insertWithin_succ (h : s.Backed) (hrow : row.Complete)
    (hf : s.catalog.file f.table = .ok f) (hslots : 0 < slotCount f.pageSize f.schema.size)
    (hroom : s.Crowded f → s.HasRoom f) (rounds : Nat) :
    s.insertWithin tx row f (rounds + 1) = s.insertWithin tx row f 1 ∧
      FailsOnly DbError.isProper (s.insertWithin tx row f 1).1 := by
  unfold Store.insertWithin
  split
  · rename_i cause hcause
    exact ⟨rfl, .error (DbError.isProper_of_isPaging (f.pageCount_fails s.disk cause hcause))⟩
  rename_i count hcount
  have hfit : s.FitOutcome tx row f.table 0 count (s.insertFirstFit tx row f.table 0 count) :=
    h.insertFirstFit hrow 0 count
  have hfails := s.insertFirstFit_fails tx row f.table 0 count
  generalize s.insertFirstFit tx row f.table 0 count = o at hfit hfails ⊢
  obtain ⟨cause | _ | id, t⟩ := o
  · exact ⟨rfl, .error (hfails cause rfl)⟩
  · obtain ⟨-, -, hnew⟩ := hfit.newPage hrow hf hroom hcount
    have hfails := t.insertIntoNewPage_fails tx row f
    simp only [Outcome.andThen_ok]
    generalize t.insertIntoNewPage tx row f = o at hnew hfails ⊢
    obtain ⟨cause | _ | id, u⟩ := o
    · exact ⟨rfl, .error (hfails cause rfl)⟩
    · exact absurd hnew.1 hslots.ne'
    · exact ⟨rfl, .ok id⟩
  · exact ⟨rfl, .ok id⟩

/-- An insertion fails for a cause, and not for want of rounds. -/
theorem Backed.insertRow_fails (h : s.Backed) (hrow : row.Complete)
    (hf : s.catalog.file table = .ok f) (hslots : 0 < slotCount f.pageSize f.schema.size)
    (hroom : s.Crowded f → s.HasRoom f) :
    FailsOnly DbError.isProper (s.insertRow tx table row).1 := by
  obtain rfl := Catalog.table_of_file hf
  unfold Store.insertRow
  simp only [hf]
  refine Outcome.andThen_fails ?_ fun id t => .ok ()
  unfold Store.insertIntoFile
  split
  · rename_i cause hcheck
    exact .error (DbError.isProper_of_isRefusal (row.checkStorable_fails _ cause hcheck))
  · obtain ⟨heq, hfails⟩ := h.insertWithin_succ hrow hf hslots hroom s.pool.frames.length
    rw [heq]
    exact hfails

/-! ### What becomes of the rows -/

/-- What an insertion leaves that fails. -/
theorem Backed.sameRows_of_spares (h : s.Backed) (hf : s.catalog.file table = .ok f)
    (hslots : 0 < slotCount f.pageSize f.schema.size) (hspares : s.Spares t f) :
    s.SameRows t ∧ (t.wholePages = s.wholePages ∨ s.OnePageMore t table ∧
      t.stored ⟨table, s.wholePages table⟩ = some f.blank ∧
      t.shown ⟨table, s.wholePages table⟩ = some f.blank) := by
  obtain ⟨⟨w, hshows, hgrown⟩, hone⟩ := hspares
  refine ⟨sameRows_of_grown hshows.view_eq hgrown, ?_⟩
  rcases hone hslots with hstays | ⟨hcountable, hadded, hgrows⟩
  · exact .inl (wholePages_congr hstays.1.catalog_eq hstays.2)
  · have hpos := pageSize_pos_of_slots hslots
    have hnext : f.nextPage s.disk = ⟨table, s.wholePages table⟩ := by
      rw [wholePages_eq hf, ← (hcountable.nextPage hpos).1, ← Catalog.table_of_file hf]
      rfl
    rw [hnext] at hadded
    refine .inr ⟨h.onePageMore hadded.catalog_eq hf hpos hgrows, ?_, ?_⟩
    · rw [← view_stored, hadded.view_eq, View.stored_grow, Function.update_self]
    · rw [← view_shown, hadded.view_eq, View.shown_grow, Function.update_self]

/-- **A row goes into the first free slot**, with a page added if there is none, or no row is
changed. -/
theorem insert_first_fit (h : s.Occurs) (hf : s.catalog.file table = .ok f)
    (hslots : 0 < slotCount f.pageSize f.schema.size) (hrow : row.Complete)
    (hcount : s.Crowded f → f.Countable s.disk) (tx : TxId) :
    let insertion := .insert tx table row hrow
    let after := s.after insertion
    s.result insertion ≠ .error .unfinished ∧
      (∀ rounds, s.insertWithin tx row f (rounds + 1) = s.insertWithin tx row f 1) ∧
      (s.result insertion = .ok () → ∃ record, s.Placed after table record ∧
        s.Inserted after tx record (row.rowAt record) ∧
        (after.pool.page? record.page).isSome ∧ after.pool.isHeldBy tx record.page = true) ∧
      ∀ cause, s.result insertion = .error cause → s.SameRows after ∧
        (after.wholePages = s.wholePages ∨ s.OnePageMore after table ∧
          after.stored ⟨table, s.wholePages table⟩ = some f.blank ∧
          after.shown ⟨table, s.wholePages table⟩ = some f.blank) := by
  intro insertion after
  have hbacked := h.backed
  have hroom : s.Crowded f → s.HasRoom f := fun hcrowded => .inl (hcount hcrowded)
  have hf' : s.catalog.file f.table = .ok f := Catalog.table_of_file hf ▸ hf
  have hfails : FailsOnly DbError.isProper (s.result insertion) :=
    hbacked.insertRow_fails hrow hf hslots hroom
  refine ⟨fun hresult => Bool.noConfusion (hfails _ hresult),
    fun rounds => (hbacked.insertWithin_succ hrow hf' hslots hroom rounds).1, ?_⟩
  have houtcome : s.InsertOutcome tx table row (s.result insertion, after) :=
    hbacked.insertRow hrow fun g hg => by
      cases hf.symm.trans hg
      exact hroom
  cases hresult : s.result insertion with
  | ok _ =>
    rw [hresult] at houtcome
    obtain ⟨g, record, hg, -, hlands, htakes, hheld, hshows⟩ := houtcome
    cases hf.symm.trans hg
    have hplaced : s.Placed after table record :=
      hbacked.placed hshows.catalog_eq hf (pageSize_pos_of_slots hslots) hlands htakes
    have hinserted : s.Inserted after tx record (row.rowAt record) :=
      hbacked.inserted hslots hlands hshows.view_eq
    have hmark : after.mark record.page = some tx := by
      rw [hinserted.mark_eq, Function.update_self]
    exact ⟨fun _ => ⟨record, hplaced, hinserted, isSome_of_mark hmark, hheld⟩, nofun⟩
  | error cause =>
    rw [hresult] at houtcome
    refine ⟨nofun, fun _ _ => ?_⟩
    rcases houtcome with hstays | ⟨g, hg, hspares⟩
    · exact ⟨sameRows_of_view hstays.1.view_eq,
        .inl (wholePages_congr hstays.1.catalog_eq hstays.2)⟩
    · cases hf.symm.trans hg
      exact hbacked.sameRows_of_spares hf hslots hspares

/-- A number goes to the page that is free, and the next one to a page that is added. -/
theorem numbers_first_fit :
    let s := (single numbers 5 2 [1, 7, 0, 0, 0] 5).run [insertNumber ⟨1⟩ 8]
    let after := s.after (insertNumber ⟨2⟩ 9)
    s.Occurs ∧ s.shownAt ⟨⟨only, 1⟩, 0⟩ = some ((number 8).rowAt ⟨⟨only, 1⟩, 0⟩) ∧
      s.result (insertNumber ⟨2⟩ 9) = .ok () ∧ s.OnePageMore after only ∧
      s.Inserted after ⟨2⟩ ⟨⟨only, 2⟩, 0⟩ ((number 9).rowAt ⟨⟨only, 2⟩, 0⟩) := by
  intro s after
  have hcounted : (single numbers 5 2 [1, 7, 0, 0, 0] 5).Counted [insertNumber ⟨1⟩ 8] := by
    decide +kernel
  have hoccurs : s.Occurs := single_unread.occurs.run hcounted
  have hf : s.catalog.file only = .ok ⟨only, "rows", numbers, 5⟩ := by decide +kernel
  have hcount : HeapFile.Countable ⟨only, "rows", numbers, 5⟩ s.disk := by decide +kernel
  have hrow : (number 9).Complete := rfl
  have hresult : s.result (insertNumber ⟨2⟩ 9) = .ok () := by decide +kernel
  have hwhole : s.wholePages only = 2 := by decide +kernel
  have hfull : ∀ n < 2, s.Full ⟨only, n⟩ := by decide +kernel
  refine ⟨hoccurs, by decide +kernel, hresult, ?_⟩
  obtain ⟨-, -, hplaced, -⟩ :=
    insert_first_fit hoccurs hf (by decide) hrow (fun _ => hcount) ⟨2⟩
  obtain ⟨record, hplaced, hinserted, -⟩ := hplaced hresult
  cases hplaced with
  | old howner hfirst hpages =>
    obtain ⟨⟨owner, n⟩, slot⟩ := record
    obtain rfl : owner = only := howner
    have hlt : n < 2 := hwhole ▸ hfirst.counted
    exact nomatch (hfull n hlt).freeRecord_eq.symm.trans hfirst.free
  | new hfull hpages =>
    rw [hwhole] at hinserted
    exact ⟨hpages, hinserted⟩

/-- There is a free slot, and the row takes the place of another one. -/
theorem number_replaced_by_insert :
    let after := sevenAndZeros.after (insertNumber ⟨1⟩ 9)
    sevenAndZeros.Occurs ∧ sevenAndZeros.result (insertNumber ⟨1⟩ 9) = .ok () ∧
      sevenAndZeros.FirstFree ⟨⟨only, 1⟩, 0⟩ ∧
      sevenAndZeros.shownAt ⟨⟨only, 0⟩, 0⟩ = some ((number 7).rowAt ⟨⟨only, 0⟩, 0⟩) ∧
      after.shownAt ⟨⟨only, 0⟩, 0⟩ = some ((number 9).rowAt ⟨⟨only, 0⟩, 0⟩) ∧
      after.shownAt ⟨⟨only, 1⟩, 0⟩ = none := by
  have hfree : sevenAndZeros.FirstFree ⟨⟨only, 1⟩, 0⟩ :=
    ⟨by decide +kernel, by decide +kernel, by decide +kernel⟩
  refine ⟨sevenAndZeros_initial.unread.occurs, by decide +kernel, hfree, ?_⟩
  decide +kernel

end Store

end Rowstore
