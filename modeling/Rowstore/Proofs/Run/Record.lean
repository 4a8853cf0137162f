import Mathlib
import Rowstore.Proofs.Run.Action

/-!
# Records

A run, seen record by record: `Store.storedAt` and `Store.shownAt` are the rows that the disk holds
and that a reader gets in a slot. Blank pages hold no rows, so only four things can happen: a row is
inserted, a row is deleted, pages are written, pages are given up, `Store.Moves`.

`Store.landing` is the record that the next row of a table gets.
-/

namespace Rowstore

/-- The row in a slot, if there is one. -/
def rowIn (pages : PageId → Option (List (Option Row))) (record : RecordId) : Option Row :=
  ((pages record.page).bind fun cells => cells[record.slot]?).join

section RowIn

variable {pages : PageId → Option (List (Option Row))} {cells : List (Option Row)}
  {record : RecordId}

theorem rowIn_of_some (h : pages record.page = some cells) :
    rowIn pages record = cells[record.slot]?.join := by rw [rowIn, h]; rfl

theorem rowIn_slot {id : PageId} (h : pages id = some cells) (slot : Nat) :
    rowIn pages ⟨id, slot⟩ = cells[slot]?.join := rowIn_of_some h

theorem rowIn_of_none (h : pages record.page = none) : rowIn pages record = none := by
  rw [rowIn, h]; rfl

theorem rowIn_slot_of_none {id : PageId} (h : pages id = none) (slot : Nat) :
    rowIn pages ⟨id, slot⟩ = none := rowIn_of_none h

/-- One slot of a page is changed. -/
theorem rowIn_update {o : Option Row} (hslot : record.slot < cells.length)
    (hcells : ∀ slot, cells[slot]?.join = rowIn pages ⟨record.page, slot⟩) :
    rowIn (Function.update pages record.page (some (cells.set record.slot o))) =
      Function.update (rowIn pages) record o := by
  funext other
  by_cases hpage : other.page = record.page
  · rw [rowIn_of_some (by rw [hpage, Function.update_self]), List.getElem?_set]
    by_cases hrecord : record.slot = other.slot
    · have hsame : other = record := by
        cases other
        cases record
        simp_all
      rw [hsame, Function.update_self, if_pos rfl, if_pos hslot]
      rfl
    · have hne : other ≠ record := fun h => hrecord (by rw [h])
      rw [Function.update_of_ne hne, if_neg hrecord, hcells, ← hpage]
  · have hne : other ≠ record := fun h => hpage (by rw [h])
    rw [Function.update_of_ne hne, rowIn, Function.update_of_ne hpage, rowIn]

end RowIn

/-- A page that was added holds no rows. -/
theorem HeapFile.blank_join (f : HeapFile) (slot : Nat) : f.blank[slot]?.join = none := by
  rw [HeapFile.blank, Page.blank, List.getElem?_replicate]
  split <;> rfl

namespace Store

variable {s t : Store} {a : Action} {table : TableId} {record : RecordId} {f : HeapFile}

/-- The row that the disk holds in a slot. -/
def storedAt (s : Store) : RecordId → Option Row := rowIn s.stored

/-- The row that a reader gets in a slot. -/
def shownAt (s : Store) : RecordId → Option Row := rowIn s.shown

/-- A row of a page that is not marked is on the disk as it is shown. -/
theorem Backed.storedAt_of_clean (h : s.Backed) (hmark : s.mark record.page = none) :
    s.storedAt record = s.shownAt record := by
  have hsame : s.shown record.page = s.stored record.page := h.clean record.page hmark
  rw [storedAt, shownAt, rowIn, rowIn, hsame]

/-! ### Landing -/

/-- The first free slot of a page, as a record. -/
def freeRecord (s : Store) (id : PageId) : Option RecordId :=
  ((s.shown id).bind Page.freeSlot?).map fun slot => ⟨id, slot⟩

/-- The record that the next row of a table gets: the first free slot of the first page that has
one, or slot 0 of a new page. -/
def landing (s : Store) (table : TableId) : RecordId :=
  ((List.range (s.wholePages table)).findSome? fun n => s.freeRecord ⟨table, n⟩).getD
    ⟨⟨table, s.wholePages table⟩, 0⟩

theorem Full.freeRecord_eq {id : PageId} (h : s.Full id) : s.freeRecord id = none := by
  obtain ⟨cells, hshown, hfull⟩ := h
  rw [freeRecord, hshown, Option.bind_some, hfull, Option.map_none]

/-- The pages of a table are numbered without gaps. -/
theorem Sound.stored_isSome_iff_lt (h : s.Sound) (hf : s.catalog.file table = .ok f)
    (hpos : 0 < f.pageSize) (n : Nat) :
    (s.stored ⟨table, n⟩).isSome ↔ n < s.wholePages table := by
  rw [h.stored_isSome_iff ⟨table, n⟩ hf, HeapFile.has_iff_lt hpos, wholePages_eq hf]

/-- A file whose pages have slots has pages of some size. -/
theorem pageSize_pos_of_slots (h : 0 < slotCount f.pageSize f.schema.size) : 0 < f.pageSize := by
  by_contra hzero
  rw [Nat.eq_zero_of_not_pos hzero, slotCount, Nat.zero_mul, Nat.zero_div] at h
  exact lt_irrefl _ h

/-- A page that is shown is one of the whole pages of its table. -/
theorem Backed.lt_of_shown (h : s.Backed) {n : Nat} {cells : List (Option Row)}
    (hshown : s.shown ⟨table, n⟩ = some cells) (hpos : 0 < cells.length) :
    n < s.wholePages table := by
  obtain ⟨f, page, hf, hholds, hid, rfl⟩ := h.exists_page hshown
  have hslots := h.length_shown ⟨table, n⟩ hf hshown
  have hhas := hholds.has
  rw [hid] at hhas
  rw [wholePages_eq hf, ← HeapFile.has_iff_lt (pageSize_pos_of_slots (hslots ▸ hpos))]
  exact hhas

/-- A row lands where the table has its first free slot. -/
theorem Backed.landing_eq (h : s.Backed) (hlands : s.Lands table record) :
    s.landing table = record := by
  obtain ⟨⟨owner, number⟩, slot⟩ := record
  obtain ⟨htable, hfull, hplace⟩ := hlands
  simp only at htable hfull hplace
  subst htable
  rcases hplace with ⟨cells, hshown, hslot⟩ | ⟨-, rfl, rfl⟩
  · -- a page that is there: the pages before it are full
    have hpositive : 0 < cells.length :=
      (List.getElem?_eq_some_iff.1 (Page.freeSlot?_eq_some hslot)).1.pos
    obtain ⟨rest, hrest⟩ := Nat.exists_eq_add_of_lt (h.lt_of_shown hshown hpositive)
    have hfound : (List.range (s.wholePages owner)).findSome? (fun n => s.freeRecord ⟨owner, n⟩) =
        some ⟨⟨owner, number⟩, slot⟩ := by
      rw [List.findSome?_eq_some_iff]
      refine ⟨List.range number, number, (List.range rest).map (number + 1 + ·), ?_, ?_, ?_⟩
      · rw [hrest, Nat.add_assoc, Nat.add_comm rest, ← Nat.add_assoc, List.range_add,
          List.range_succ, List.append_assoc]
        rfl
      · rw [freeRecord, hshown, Option.bind_some, hslot, Option.map_some]
      · exact fun n hn => (hfull n (List.mem_range.1 hn)).freeRecord_eq
    rw [landing, hfound, Option.getD_some]
  · -- a new page: every page that is there is full
    have hnone : (List.range (s.wholePages owner)).findSome? (fun n => s.freeRecord ⟨owner, n⟩) =
        none := by
      rw [List.findSome?_eq_none_iff]
      exact fun n hn => (hfull n (List.mem_range.1 hn)).freeRecord_eq
    rw [landing, hnone, Option.getD_none]

/-! ### Moves -/

/-- The rows are the same, and so are the marks. -/
structure SameRows (s t : Store) : Prop where
  storedAt_eq : t.storedAt = s.storedAt
  shownAt_eq : t.shownAt = s.shownAt
  mark_eq : t.mark = s.mark

/-- A row was inserted in a record that was free; on the disk too, if its page is new. -/
structure Inserted (s t : Store) (tx : TxId) (record : RecordId) (row : Row) : Prop where
  free : s.shownAt record = none
  storedAt_eq : t.storedAt =
    if s.stored record.page = none then Function.update s.storedAt record (some row)
    else s.storedAt
  shownAt_eq : t.shownAt = Function.update s.shownAt record (some row)
  mark_eq : t.mark = Function.update s.mark record.page (some tx)

/-- A row is inserted where none is. -/
theorem Inserted.ne {record other : RecordId} {row row' : Row}
    (h : s.Inserted t tx record row) (hshown : s.shownAt other = some row') : other ≠ record := by
  rintro rfl
  rw [h.free] at hshown
  cases hshown

/-- A row was deleted in memory. -/
structure Deleted (s t : Store) (tx : TxId) (record : RecordId) : Prop where
  used : (s.shownAt record).isSome
  storedAt_eq : t.storedAt = s.storedAt
  shownAt_eq : t.shownAt = Function.update s.shownAt record none
  mark_eq : t.mark = Function.update s.mark record.page (some tx)

/-- Some of the pages were written. -/
structure Written (s t : Store) (p : PageId → Bool) : Prop where
  storedAt_eq : ∀ r, t.storedAt r = if p r.page then s.shownAt r else s.storedAt r
  shownAt_eq : t.shownAt = s.shownAt
  mark_eq : ∀ id, t.mark id = if p id then none else s.mark id

/-- Some of the pages were given up. -/
structure GivenUp (s t : Store) (p : PageId → Bool) : Prop where
  storedAt_eq : t.storedAt = s.storedAt
  shownAt_eq : ∀ r, t.shownAt r = if p r.page then s.storedAt r else s.shownAt r
  mark_eq : ∀ id, t.mark id = if p id then none else s.mark id

/-- The pages that an operation writes or gives up, if it does one of these. -/
def settledBy (s : Store) : Action → PageId → Bool
  | .flush id => fun other => other = id
  | .flushAll => fun _ => true
  | .discard id => fun other => other = id
  | .complete tx _ => fun id => s.mark id = some tx
  | _ => fun _ => false

/-- What an operation does to the rows, with what result. -/
inductive Moves (s t : Store) : Action → Except DbError Unit → Prop
  /-- Nothing is inserted or deleted. -/
  | same {a : Action} {r : Except DbError Unit} (idle : a.mutator.isSome → r ≠ .ok ())
      (rows : s.SameRows t) : Moves s t a r
  | insert {tx : TxId} {table : TableId} {row : Tuple} {complete : row.Complete}
      (rows : s.Inserted t tx (s.landing table) (row.rowAt (s.landing table))) :
      Moves s t (.insert tx table row complete) (.ok ())
  | delete {tx : TxId} {row : Tuple} {record : RecordId} (place : row.record = some record)
      (rows : s.Deleted t tx record) : Moves s t (.delete tx row) (.ok ())
  | write {a : Action} (idle : a.mutator = none) (keeps : ¬ a.GivesUp)
      (rows : s.Written t (s.settledBy a)) : Moves s t a (.ok ())
  | giveUp {a : Action} (idle : a.mutator = none) (gives : a.GivesUp)
      (rows : s.GivenUp t (s.settledBy a)) : Moves s t a (.ok ())

section

variable {w : View}

theorem sameRows_of_view (h : t.view = s.view) : s.SameRows t := by
  have hstored : t.stored = s.stored := congrArg View.stored h
  have hshown : t.shown = s.shown := congrArg View.shown h
  refine ⟨?_, ?_, congrArg View.mark h⟩
  · rw [storedAt, hstored, storedAt]
  · rw [shownAt, hshown, shownAt]

theorem sameRows_of_grown (hview : t.view = w) (hgrown : s.view.Grown w table f.blank) :
    s.SameRows t := by
  subst hview
  refine ⟨funext fun r => ?_, funext fun r => ?_, hgrown.mark_eq⟩
  all_goals
    -- a page that was added has no rows, and there were none in its place
    rcases hgrown.pages r.page with ⟨hstored, hshown⟩ | ⟨-, hstored, hshown, hstored', hshown'⟩
    all_goals simp only [view_stored, view_shown] at *
  · rw [storedAt, storedAt, rowIn, rowIn, hstored]
  · rw [storedAt, storedAt, rowIn_of_none hstored, rowIn_of_some hstored', f.blank_join]
  · rw [shownAt, shownAt, rowIn, rowIn, hshown]
  · rw [shownAt, shownAt, rowIn_of_none hshown, rowIn_of_some hshown', f.blank_join]

theorem written_of_view {p : PageId → Bool} (h : t.view = s.view.flushOn fun id => p id) :
    s.Written t p := by
  have hstored : t.stored = fun id => if p id then s.shown id else s.stored id :=
    congrArg View.stored h
  have hshown : t.shown = s.shown := congrArg View.shown h
  refine ⟨fun r => ?_, ?_, congrFun (congrArg View.mark h)⟩
  · rw [storedAt, hstored, rowIn]
    split_ifs <;> rfl
  · rw [shownAt, hshown, shownAt]

theorem givenUp_of_view {p : PageId → Bool} (h : t.view = s.view.dropOn fun id => p id) :
    s.GivenUp t p := by
  have hstored : t.stored = s.stored := congrArg View.stored h
  have hshown : t.shown = fun id => if p id then s.stored id else s.shown id :=
    congrArg View.shown h
  refine ⟨?_, fun r => ?_, congrFun (congrArg View.mark h)⟩
  · rw [storedAt, hstored, storedAt]
  · rw [shownAt, hshown, rowIn]
    split_ifs <;> rfl

end

/-- A row that lands is inserted. -/
theorem Backed.inserted (h : s.Backed) {tx : TxId} {row : Row}
    (hslots : 0 < slotCount f.pageSize f.schema.size)
    (hlands : s.Lands table record) (hview : t.view = s.view.insert tx f.blank record row) :
    s.Inserted t tx record row := by
  obtain ⟨htable, -, hplace⟩ := hlands
  have hmark : t.mark = (s.view.insert tx f.blank record row).mark := congrArg View.mark hview
  have hstored : t.stored = (s.view.insert tx f.blank record row).stored :=
    congrArg View.stored hview
  have hshown : t.shown = (s.view.insert tx f.blank record row).shown :=
    congrArg View.shown hview
  rcases hplace with ⟨cells, hcells, hslot⟩ | ⟨hnone, -, hzero⟩
  · -- a page that is there takes the row in memory
    have hsome : s.stored record.page ≠ none := by
      rw [← Option.isSome_iff_ne_none, ← h.shown_isSome_iff, hcells]
      rfl
    have hfree := Page.freeSlot?_eq_some hslot
    rw [View.insert_old hsome, setCell_eq hcells] at hstored hshown hmark
    refine ⟨?_, ?_, ?_, hmark⟩
    · rw [shownAt, rowIn_of_some hcells, hfree]
      rfl
    · rw [if_neg hsome, storedAt, hstored]
      rfl
    · rw [shownAt, hshown]
      exact rowIn_update (List.getElem?_eq_some_iff.1 hfree).1 fun slot =>
        (rowIn_slot hcells slot).symm
  · -- a new page takes the row in memory and on the disk
    have hnone' : s.shown record.page = none := h.shown_eq_none_iff.2 hnone
    have hlt : record.slot < f.blank.length := by
      rw [hzero, HeapFile.blank, Page.blank, List.length_replicate]
      exact hslots
    have hupdate : ∀ pages : PageId → Option (List (Option Row)), pages record.page = none →
        rowIn (Function.update pages record.page (some (f.blank.set record.slot (some row)))) =
          Function.update (rowIn pages) record (some row) := fun pages hpages =>
      rowIn_update hlt fun slot => (f.blank_join slot).trans (rowIn_slot_of_none hpages slot).symm
    rw [View.insert_new hnone] at hstored hshown hmark
    refine ⟨?_, ?_, ?_, hmark⟩
    · rw [shownAt, rowIn_of_none hnone']
    · rw [if_pos hnone, storedAt, hstored]
      exact hupdate s.stored hnone
    · rw [shownAt, hshown]
      exact hupdate s.shown hnone'

/-- A row that is deleted is gone. -/
theorem deleted_of_view {tx : TxId} {cells : List (Option Row)} {old : Row}
    (hcells : s.shown record.page = some cells) (hold : cells[record.slot]? = some (some old))
    (hview : t.view = s.view.delete tx record) : s.Deleted t tx record := by
  have hstored : t.stored = s.stored := congrArg View.stored hview
  have hshown : t.shown = (s.view.delete tx record).shown := congrArg View.shown hview
  rw [View.delete, setCell_eq hcells] at hshown
  refine ⟨?_, ?_, ?_, congrArg View.mark hview⟩
  · rw [shownAt, rowIn_of_some hcells, hold]
    rfl
  · rw [storedAt, hstored, storedAt]
  · rw [shownAt, hshown]
    exact rowIn_update (List.getElem?_eq_some_iff.1 hold).1 fun slot =>
      (rowIn_slot hcells slot).symm

/-- A transaction that ends is told so. -/
theorem Backed.complete_ok (h : s.Backed) (tx : TxId) (commit : Bool) :
    s.result (.complete tx commit) = .ok () := by
  obtain ⟨w, -, hallows⟩ := h.step (a := .complete tx commit) trivial
  cases commit <;> exact hallows.1

/-- A commit writes the pages with the mark of the transaction. -/
theorem Backed.written_of_commit (h : s.Backed) (tx : TxId) :
    s.Written (s.after (.complete tx true)) fun id => s.mark id = some tx := by
  obtain ⟨w, hshows, hallows⟩ := h.step (a := .complete tx true) trivial
  refine written_of_view (hshows.view_eq.trans (hallows.2.trans ?_))
  exact s.view.flushOn_congr fun other => by simp

/-- An abort gives up the pages with the mark of the transaction. -/
theorem Backed.givenUp_of_abort (h : s.Backed) (tx : TxId) :
    s.GivenUp (s.after (.complete tx false)) fun id => s.mark id = some tx := by
  obtain ⟨w, hshows, hallows⟩ := h.step (a := .complete tx false) trivial
  refine givenUp_of_view (hshows.view_eq.trans (hallows.2.trans ?_))
  exact s.view.dropOn_congr fun other => by simp

/-- A step moves rows as it may. -/
theorem Backed.moves (h : s.Backed) (hcounts : s.Counts a) :
    s.Moves (s.after a) a (s.result a) := by
  obtain ⟨w, hshows, hallows⟩ := h.step hcounts
  have hview := hshows.view_eq
  cases a with
  | acquire | release | scan => exact .same nofun (sameRows_of_view (hview.trans hallows))
  | insert tx table row complete =>
    cases hresult : s.result (.insert tx table row complete) with
    | error cause =>
      rw [hresult] at hallows
      rcases hallows with rfl | ⟨f, -, hgrown⟩
      · exact .same (fun _ => nofun) (sameRows_of_view hview)
      · exact .same (fun _ => nofun) (sameRows_of_grown hview hgrown)
    | ok _ =>
      rw [hresult] at hallows
      obtain ⟨f, record, hf, hslots, hlands, rfl⟩ := hallows
      have hrecord := h.landing_eq hlands
      subst hrecord
      exact .insert (h.inserted hslots hlands hview)
  | delete tx row =>
    cases hresult : s.result (.delete tx row) with
    | error cause =>
      rw [hresult] at hallows
      exact .same (fun _ => nofun) (sameRows_of_view (hview.trans hallows))
    | ok _ =>
      rw [hresult] at hallows
      obtain ⟨record, cells, old, hrecord, hcells, hold, rfl⟩ := hallows
      exact .delete hrecord (deleted_of_view hcells hold hview)
  | flush id =>
    rw [hallows.1]
    refine .write rfl nofun (written_of_view (hview.trans (hallows.2.trans ?_)))
    exact s.view.flushOn_congr fun other => by simp [settledBy]
  | flushAll =>
    rw [hallows.1]
    refine .write rfl nofun (written_of_view (hview.trans (hallows.2.trans ?_)))
    exact s.view.flushOn_congr fun other => by simp [settledBy]
  | discard id =>
    rw [hallows.1]
    refine .giveUp rfl trivial (givenUp_of_view (hview.trans (hallows.2.trans ?_)))
    exact s.view.dropOn_congr fun other => by simp [settledBy]
  | complete tx commit =>
    rw [h.complete_ok]
    cases commit with
    | true => exact .write rfl nofun (h.written_of_commit tx)
    | false => exact .giveUp rfl rfl (h.givenUp_of_abort tx)
  | append table =>
    have happend : w = s.view ∨
        ∃ f, s.catalog.file table = .ok f ∧ s.view.Grown w table f.blank := hallows
    rcases happend with rfl | ⟨f, -, hgrown⟩
    · exact .same nofun (sameRows_of_view hview)
    · exact .same nofun (sameRows_of_grown hview hgrown)

namespace Sound

theorem storedAt_of_clean (h : s.Sound) (hmark : s.mark record.page = none) :
    s.storedAt record = s.shownAt record := h.backed.storedAt_of_clean hmark

theorem complete_ok (h : s.Sound) (tx : TxId) (commit : Bool) :
    s.result (.complete tx commit) = .ok () := h.backed.complete_ok tx commit

theorem written_of_commit (h : s.Sound) (tx : TxId) :
    s.Written (s.after (.complete tx true)) fun id => s.mark id = some tx :=
  h.backed.written_of_commit tx

theorem givenUp_of_abort (h : s.Sound) (tx : TxId) :
    s.GivenUp (s.after (.complete tx false)) fun id => s.mark id = some tx :=
  h.backed.givenUp_of_abort tx

theorem moves (h : s.Sound) (hcounts : s.Counts a) : s.Moves (s.after a) a (s.result a) :=
  h.backed.moves hcounts

end Sound

end Store

end Rowstore
