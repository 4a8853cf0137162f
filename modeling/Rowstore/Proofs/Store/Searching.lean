import Mathlib
import Rowstore.Proofs.File.Places
import Rowstore.Proofs.Store.Failing
import Rowstore.Proofs.Store.Keeping

/-!
# The rounds of an insertion

An insertion that finds every page full adds one and stores the row there. A page with the number of
the new one may be in the pool already, from the time when the file was longer or before its pages
were counted, and be full as well; then the insertion begins again.

* The pages of the pool under numbers that the file has not come to, `Store.ahead`, are as many as
  there can be such rounds: a page that is loaded is not one of them, and each round that stores the
  row nowhere takes one away, `Store.ahead_lt_of_insertIntoNewPage`.
* So the rounds are never used up, as long as the pages of the file can be counted:
  `Store.not_countable_of_insertRow`. Nothing is asked of the store but that its pages have slots.
* Whatever an insertion comes to, it adds pages to the file of its table and writes pages of the
  pool there. What these steps lead along it leads along, `Store.Spans.insertRow`; so the other
  files are as before, `Store.edits_insertRow`.
-/

namespace Rowstore

namespace HeapFile

variable {f : HeapFile} {disk disk' disk'' : Disk} {id : PageId}

/-- Pages of a file are added and written, one after another. -/
def Edits (f : HeapFile) : Disk → Disk → Prop :=
  Relation.ReflTransGen fun disk disk' => (∃ id, f.appendPage disk = .ok (id, disk')) ∨
    ∃ page written, f.writePage disk page = .ok (written, disk')

namespace Edits

theorem refl (f : HeapFile) (disk : Disk) : f.Edits disk disk := Relation.ReflTransGen.refl

theorem trans (h : f.Edits disk disk') (h' : f.Edits disk' disk'') : f.Edits disk disk'' :=
  Relation.ReflTransGen.trans h h'

theorem append (h : f.appendPage disk = .ok (id, disk')) : f.Edits disk disk' :=
  .single (.inl ⟨id, h⟩)

theorem write {page written : Page} (h : f.writePage disk page = .ok (written, disk')) :
    f.Edits disk disk' := .single (.inr ⟨page, written, h⟩)

/-- The file has no fewer pages after that. -/
theorem wholePages_le (h : f.Edits disk disk') : f.wholePages disk ≤ f.wholePages disk' := by
  induction h with
  | refl => exact le_rfl
  | tail _ hlast ih =>
    rcases hlast with ⟨id, happend⟩ | ⟨page, written, hwrite⟩
    · exact ih.trans (wholePages_le_of_extends (extends_of_appendPage happend))
    · exact ih.trans (wholePages_le_of_extends (extends_of_writePage hwrite))

/-- The other files are as they were. -/
theorem file_eq (h : f.Edits disk disk') {name : String} (hname : name ≠ f.name) :
    disk'.file name = disk.file name := by
  induction h with
  | refl => rfl
  | tail _ hlast ih =>
    rw [← ih]
    rcases hlast with ⟨id, happend⟩ | ⟨page, written, hwrite⟩
    · obtain ⟨-, -, -, -, rfl⟩ := appendPage_eq_ok_iff.1 happend
      exact Disk.file_store_ne _ _ hname
    · obtain ⟨-, bytes, -, -, -, -, rfl⟩ := writePage_eq_ok_iff.1 hwrite
      exact Disk.file_store_ne _ _ hname

end Edits

end HeapFile

namespace Store

variable {s t u : Store} {tx : TxId} {id : PageId} {row : Tuple} {f : HeapFile}

/-! ### Files that grow -/

theorem disk_insertIntoPage (s : Store) (tx : TxId) (row : Tuple) (id : PageId) :
    (s.insertIntoPage tx row id).2.disk = s.disk := by
  rcases s.insertIntoPage_cases tx row id with ⟨cause, -, heq⟩ | ⟨page, t, hacquire, hcases⟩
  · rw [heq]
  · have hdisk := (Acquires.of_acquire hacquire).disk_eq
    rcases hcases with ⟨-, heq⟩ | ⟨cause, -, -, heq⟩ | ⟨record, filled, -, -, heq⟩
    all_goals
      rw [heq]
      exact hdisk

theorem disk_insertFirstFit (s : Store) (tx : TxId) (row : Tuple) (table : TableId)
    (first pages : Nat) : (s.insertFirstFit tx row table first pages).2.disk = s.disk := by
  induction pages generalizing s first with
  | zero => rfl
  | succ pages ih =>
    have hpage := s.disk_insertIntoPage tx row ⟨table, first⟩
    unfold insertFirstFit
    generalize s.insertIntoPage tx row ⟨table, first⟩ = o at hpage ⊢
    obtain ⟨cause | _ | page, t⟩ := o
    · exact hpage
    · exact (ih t (first + 1)).trans hpage
    · exact hpage

/-- A relation between disks that adding pages to a file leads along, and writing pages of the pool
there, one after another. -/
structure Spans (f : HeapFile) (I : Store → Prop) (R : Disk → Disk → Prop) : Prop where
  refl (disk : Disk) : R disk disk
  trans {disk disk' disk'' : Disk} (h : R disk disk') (h' : R disk' disk'') : R disk disk''
  append {disk disk' : Disk} {id : PageId} (happend : f.appendPage disk = .ok (id, disk')) :
    R disk disk'
  write {s : Store} {page written : Page} {disk : Disk} (h : I s) (hpage : page ∈ s.pool.pages)
    (hwrite : f.writePage s.disk page = .ok (written, disk)) : R s.disk disk

namespace Spans

variable {I : Store → Prop} {R : Disk → Disk → Prop} {Q : Tuple → Prop}

theorem insertIntoNewPage (hspans : Spans f I R) (hstable : Stable Q I) (h : I s) (hrow : Q row)
    (tx : TxId) : R s.disk (s.insertIntoNewPage tx row f).2.disk := by
  unfold Store.insertIntoNewPage
  cases happend : f.appendPage s.disk with
  | error cause => exact hspans.refl _
  | ok added =>
    obtain ⟨new, disk⟩ := added
    obtain ⟨hkept, hmem⟩ := hstable.insertIntoPage
      (hstable.disk h (HeapFile.extends_of_appendPage happend)) hrow tx new
    have hpage := ({ s with disk } : Store).disk_insertIntoPage tx row new
    dsimp only
    generalize ({ s with disk } : Store).insertIntoPage tx row new = o at hkept hmem hpage ⊢
    obtain ⟨result, t⟩ := o
    obtain rfl : t.disk = disk := hpage
    rcases result with cause | _ | page
    · exact hspans.append happend
    · exact hspans.append happend
    · rw [Outcome.andThen_ok]
      dsimp only
      cases hwrite : f.writePage t.disk page with
      | error cause => exact hspans.append happend
      | ok written =>
        exact hspans.trans (hspans.append happend) (hspans.write hkept (hmem page rfl) hwrite)

theorem insertWithin (hspans : Spans f I R) (hstable : Stable Q I) (h : I s) (hrow : Q row)
    (tx : TxId) (rounds : Nat) : R s.disk (s.insertWithin tx row f rounds).2.disk := by
  induction rounds generalizing s with
  | zero => exact hspans.refl _
  | succ rounds ih =>
    unfold Store.insertWithin
    cases f.pageCount s.disk with
    | error cause => exact hspans.refl _
    | ok count =>
      have hkept := hstable.insertFirstFit h hrow tx f.table 0 count
      have hfit := s.disk_insertFirstFit tx row f.table 0 count
      dsimp only
      generalize s.insertFirstFit tx row f.table 0 count = o at hkept hfit ⊢
      obtain ⟨result, t⟩ := o
      rw [← show t.disk = s.disk from hfit]
      rcases result with cause | _ | stored
      · exact hspans.refl _
      · have hnew := hspans.insertIntoNewPage hstable hkept hrow tx
        have hkept' := hstable.insertIntoNewPage hkept hrow tx f
        rw [Outcome.andThen_ok]
        dsimp only
        generalize t.insertIntoNewPage tx row f = o at hnew hkept' ⊢
        obtain ⟨cause | _ | stored, u⟩ := o
        · exact hnew
        · exact hspans.trans hnew (ih hkept')
        · exact hnew
      · exact hspans.refl _

theorem insertRow (hspans : Spans f I R) (hstable : Stable Q I) (h : I s) (hrow : Q row)
    (hf : s.catalog.file f.table = .ok f) (tx : TxId) :
    R s.disk (s.insertRow tx f.table row).2.disk := by
  unfold Store.insertRow insertIntoFile
  rw [hf]
  dsimp only
  cases row.checkStorable f.schema with
  | error cause => exact hspans.refl _
  | ok u =>
    have hwithin := hspans.insertWithin hstable h hrow tx (s.pool.frames.length + 1)
    dsimp only
    generalize s.insertWithin tx row f (s.pool.frames.length + 1) = o at hwithin ⊢
    obtain ⟨cause | id, t⟩ := o
    · exact hwithin
    · exact hwithin

end Spans

/-- An insertion adds and writes pages of the file of its table, whatever it comes to. -/
theorem edits_insertRow (hf : s.catalog.file f.table = .ok f) (tx : TxId) (row : Tuple) :
    f.Edits s.disk (s.insertRow tx f.table row).2.disk := by
  have hspans : Spans f (fun t => t.catalog = s.catalog) f.Edits :=
    ⟨.refl f, .trans, .append, fun _ _ => .write⟩
  exact hspans.insertRow (stable_catalog s.catalog) rfl trivial hf tx

/-! ### Rounds -/

/-- The pages of the pool under numbers that the file has not come to. -/
def ahead (s : Store) (f : HeapFile) : List Page :=
  s.pool.pages.filter fun page => page.id.table = f.table ∧ ¬ f.Has s.disk page.id.number

/-- Pages were given out and let go, or added to the file, and none was changed. -/
structure Passes (s t : Store) (f : HeapFile) : Prop where
  catalog_eq : t.catalog = s.catalog
  wholePages_le : f.wholePages s.disk ≤ f.wholePages t.disk
  ahead_le : (t.ahead f).length ≤ (s.ahead f).length

theorem Passes.refl (s : Store) (f : HeapFile) : s.Passes s f := ⟨rfl, le_rfl, le_rfl⟩

theorem Passes.trans (h : s.Passes t f) (h' : t.Passes u f) : s.Passes u f :=
  ⟨h'.catalog_eq.trans h.catalog_eq, h.wholePages_le.trans h'.wholePages_le,
    h'.ahead_le.trans h.ahead_le⟩

/-- A page that is loaded is one that its file has. -/
theorem passes_of_acquire (hf : s.catalog.file f.table = .ok f) {page : Page}
    (h : s.acquire tx id = .ok (page, t)) : s.Passes t f := by
  rcases acquire_cases h with ⟨-, rfl⟩ | ⟨g, pool, -, hg, hread, hload, rfl⟩
  · exact ⟨rfl, le_rfl, le_rfl⟩
  · refine ⟨rfl, le_rfl, ?_⟩
    obtain ⟨hholds, rfl, -⟩ := HeapFile.holds_of_readPage hread
    have hthere : ¬ (page.id.table = f.table ∧ ¬ f.Has s.disk page.id.number) := by
      rintro ⟨htable, hnot⟩
      rw [htable, hf] at hg
      cases hg
      exact hnot hholds.has
    rcases Pool.load_cases hload with rfl | ⟨victim, -, rfl⟩
    · simp [ahead, hthere]
    · rw [ahead, ahead, Pool.pages_hold, Pool.pages_push, Pool.pages_discard, List.filter_append,
        List.filter_cons_of_neg (by simpa using hthere), List.filter_nil, List.append_nil]
      exact (List.filter_sublist.filter _).length_le

/-- A page that does not take the row is let go. -/
theorem passes_of_insertIntoPage (hf : s.catalog.file f.table = .ok f)
    (h : s.insertIntoPage tx row id = (.ok none, t)) :
    s.Passes t f ∧ ∃ page u, s.acquire tx id = .ok (page, u) ∧ page.freeCount = 0 := by
  rcases s.insertIntoPage_cases tx row id with ⟨cause, -, heq⟩ | ⟨page, u, hacquire, hcases⟩
  · cases h.symm.trans heq
  rcases hcases with ⟨hfull, heq⟩ | ⟨cause, -, -, heq⟩ | ⟨record, filled, -, -, heq⟩
  · cases h.symm.trans heq
    have hpasses := passes_of_acquire hf hacquire
    exact ⟨⟨hpasses.catalog_eq, hpasses.wholePages_le, hpasses.ahead_le⟩, page, u, hacquire,
      hfull⟩
  · cases h.symm.trans heq
  · cases h.symm.trans heq

theorem passes_of_insertFirstFit (hf : s.catalog.file f.table = .ok f) {table : TableId}
    {first pages : Nat} (h : s.insertFirstFit tx row table first pages = (.ok none, t)) :
    s.Passes t f := by
  induction pages generalizing s first with
  | zero =>
    cases h
    exact .refl _ f
  | succ pages ih =>
    unfold insertFirstFit at h
    obtain ⟨stored, u, hpage, h⟩ := Outcome.andThen_eq_ok_iff.1 h
    cases stored with
    | some page => cases h
    | none =>
      have hpasses := (passes_of_insertIntoPage hf hpage).1
      exact hpasses.trans (ih (hpasses.catalog_eq ▸ hf) h)

/-- A page was added that did not take the row. -/
theorem append_of_insertIntoNewPage (h : s.insertIntoNewPage tx row f = (.ok none, t)) :
    ∃ new disk, f.appendPage s.disk = .ok (new, disk) ∧
      ({ s with disk } : Store).insertIntoPage tx row new = (.ok none, t) := by
  unfold insertIntoNewPage at h
  cases happend : f.appendPage s.disk with
  | error cause =>
    rw [happend] at h
    cases h
  | ok added =>
    obtain ⟨new, disk⟩ := added
    rw [happend] at h
    obtain ⟨stored, u, hpage, h⟩ := Outcome.andThen_eq_ok_iff.1 h
    cases stored with
    | none =>
      cases h
      exact ⟨new, disk, rfl, hpage⟩
    | some page =>
      dsimp only at h
      split at h <;> cases h

/-- The pages that the longer file has not come to are among those from before. -/
theorem ahead_append {disk : Disk} (h : f.appendPage s.disk = .ok (id, disk)) :
    ({ s with disk } : Store).ahead f =
      (s.ahead f).filter fun page => page.id.number ≠ id.number := by
  have hwrites := HeapFile.writes_of_appendPage h
  rw [ahead, ahead, List.filter_filter]
  refine List.filter_congr fun other _ => ?_
  simp only [hwrites.has_iff, not_or, ne_eq, Bool.decide_and]
  ac_rfl

theorem passes_of_append {disk : Disk} (h : f.appendPage s.disk = .ok (id, disk)) :
    s.Passes { s with disk } f where
  catalog_eq := rfl
  wholePages_le := HeapFile.wholePages_le_of_extends (HeapFile.extends_of_appendPage h)
  ahead_le := by
    rw [ahead_append h]
    exact List.length_filter_le _ _

/-- A page that was added and is full was in the pool: one that is read has every slot free. -/
theorem page?_of_acquire_append (hf : s.catalog.file id.table = .ok f) {disk : Disk} {page : Page}
    (hslots : 0 < slotCount f.pageSize f.schema.size)
    (happend : f.appendPage s.disk = .ok (id, disk))
    (hacquire : ({ s with disk } : Store).acquire tx id = .ok (page, t))
    (hfull : page.freeCount = 0) : s.pool.page? id = some page := by
  rcases acquire_cases hacquire with ⟨hpage, -⟩ | ⟨g, pool, -, hg, hread, -, -⟩
  · exact hpage
  · cases hf.symm.trans hg
    obtain ⟨blank, hblank, hcells⟩ :=
      HeapFile.cells?_eq_some_iff.1 (HeapFile.writes_of_appendPage happend).cells?_eq
    cases hread.symm.trans hblank
    have hsound := (HeapFile.holds_of_readPage hread).1.sound
    rw [hsound.freeCount_eq_zero_iff, hcells, Page.freeSlot?_blank_of_pos hslots] at hfull
    cases hfull

/-- A new page takes no row if it has no slots, or if a page with its number was in the pool. -/
theorem passes_of_insertIntoNewPage (hf : s.catalog.file f.table = .ok f)
    (hslots : 0 < slotCount f.pageSize f.schema.size)
    (h : s.insertIntoNewPage tx row f = (.ok none, t)) :
    s.Passes t f ∧ (f.Countable s.disk → (t.ahead f).length < (s.ahead f).length) := by
  obtain ⟨new, disk, happend, hpage⟩ := append_of_insertIntoNewPage h
  obtain ⟨hpasses, page, v, hacquire, hfull⟩ :=
    passes_of_insertIntoPage (s := { s with disk }) hf hpage
  refine ⟨(passes_of_append happend).trans hpasses,
    fun hcount => hpasses.ahead_le.trans_lt ?_⟩
  obtain ⟨hpos, -, hid, -⟩ := HeapFile.appendPage_eq_ok_iff.1 happend
  have hcached : s.pool.page? new = some page :=
    page?_of_acquire_append (hid ▸ hf) hslots happend hacquire hfull
  -- the page was in the pool and ahead of the file, and the file has come to it
  obtain ⟨hmem, rfl⟩ := Pool.mem_of_page? hcached
  rw [ahead_append happend, List.length_filter_lt_length_iff_exists]
  refine ⟨page, ?_, by simp⟩
  rw [ahead, List.mem_filter]
  refine ⟨hmem, ?_⟩
  rw [hid, decide_eq_true_eq]
  exact ⟨rfl, (hcount.nextPage hpos).2⟩

/-- Rounds that are used up store the row nowhere, and each has taken a page away from those that
the file had not come to. -/
theorem passes_of_insertWithin (hf : s.catalog.file f.table = .ok f)
    (hslots : 0 < slotCount f.pageSize f.schema.size) {rounds : Nat}
    (h : s.insertWithin tx row f rounds = (.error .unfinished, t)) :
    s.Passes t f ∧
      (f.Countable t.disk → (t.ahead f).length + rounds ≤ (s.ahead f).length) := by
  induction rounds generalizing s with
  | zero =>
    cases h
    exact ⟨.refl _ f, fun _ => le_rfl⟩
  | succ rounds ih =>
    unfold insertWithin at h
    cases hcount : f.pageCount s.disk with
    | error cause =>
      rw [hcount] at h
      cases h
      exact absurd hcount ((f.pageCount_fails _).ne_error _ rfl)
    | ok count =>
      rw [hcount] at h
      dsimp only at h
      have hfit := (s.insertFirstFit_fails tx row f.table 0 count).ne_error .unfinished rfl
      cases hsearch : s.insertFirstFit tx row f.table 0 count with | mk result u
      rw [hsearch] at h hfit
      obtain cause | _ | stored := result
      · cases h
        exact absurd rfl hfit
      · have hpasses := passes_of_insertFirstFit hf hsearch
        have hf' : u.catalog.file f.table = .ok f := hpasses.catalog_eq ▸ hf
        rw [Outcome.andThen_ok] at h
        dsimp only at h
        have hnew := (u.insertIntoNewPage_fails tx row f).ne_error .unfinished rfl
        cases hadd : u.insertIntoNewPage tx row f with | mk result v
        rw [hadd] at h hnew
        obtain cause | _ | stored := result
        · cases h
          exact absurd rfl hnew
        · obtain ⟨hpasses', hlt⟩ := passes_of_insertIntoNewPage hf' hslots hadd
          obtain ⟨hrest, hrounds⟩ := ih (hpasses'.catalog_eq ▸ hf') h
          refine ⟨(hpasses.trans hpasses').trans hrest, fun hcount => ?_⟩
          have hbefore := hlt ((hpasses'.trans hrest).wholePages_le.trans_lt hcount)
          have hahead := hpasses.ahead_le
          have hleft := hrounds hcount
          omega
        · cases h
      · cases h

/-- An insertion does not run out of rounds as long as the pages of the file can be counted. -/
theorem not_countable_of_insertRow (hf : s.catalog.file f.table = .ok f)
    (hslots : 0 < slotCount f.pageSize f.schema.size)
    (h : s.insertRow tx f.table row = (.error .unfinished, t)) : ¬ f.Countable t.disk := by
  unfold insertRow insertIntoFile at h
  rw [hf] at h
  dsimp only at h
  cases hcheck : row.checkStorable f.schema with
  | error cause =>
    rw [hcheck] at h
    cases h
    exact absurd hcheck ((row.checkStorable_fails f.schema).ne_error _ rfl)
  | ok u =>
    rw [hcheck] at h
    dsimp only at h
    cases hwithin : s.insertWithin tx row f (s.pool.frames.length + 1) with | mk result v
    rw [hwithin] at h
    obtain cause | id := result
    · cases h
      intro hcount
      have hrounds := (passes_of_insertWithin hf hslots hwithin).2 hcount
      have hpages : (s.ahead f).length ≤ s.pool.frames.length :=
        (List.length_filter_le _ _).trans_eq (List.length_map _)
      omega
    · cases h

end Store

end Rowstore
