import Mathlib
import Rowstore.Proofs.Store.Altering

/-!
# Storing and deleting rows

What inserting and deleting a row do to the view of a store.

* A row that is inserted lands in the lowest free slot of the lowest page that has one, or in slot 0
  of a new page if all pages are full, `Store.Lands`. Then it is shown there, and stored as well if
  the page is new: `View.insert`.
* A row that is deleted is no longer shown in its slot: `View.delete`.
* An operation that fails changes no page. An insertion may have added pages before it failed, with
  every slot free: `View.Grown`. It has added one at most if the pages have slots: `Store.Adds`.

A file whose pages are counted, `HeapFile.Countable`, grows by a new page, and this is needed only
if the pages that are there are full, `Store.Crowded`. Pages without slots are the exception that
needs no count: an insertion adds one after another, and all of them are alike.
-/

namespace Rowstore

/-! ### Views -/

namespace View

variable {u v w : View} {table : TableId} {blank : List (Option Row)}

/-- The cells of a page with one of them replaced. -/
def setCell (v : View) (record : RecordId) (row : Option Row) : List (Option Row) :=
  ((v.shown record.page).getD []).set record.slot row

/-- A row is stored, in a new page with the given cells if the page is not there. -/
def insert (v : View) (tx : TxId) (blank : List (Option Row)) (record : RecordId) (row : Row) :
    View :=
  if v.stored record.page = none then
    v.save record.page (some (blank.set record.slot (some row))) (some tx)
  else v.change record.page (some (v.setCell record (some row))) (some tx)

theorem insert_new {tx : TxId} {record : RecordId} {row : Row}
    (h : v.stored record.page = none) : v.insert tx blank record row =
      v.save record.page (some (blank.set record.slot (some row))) (some tx) := if_pos h

theorem insert_old {tx : TxId} {record : RecordId} {row : Row}
    (h : v.stored record.page ≠ none) : v.insert tx blank record row =
      v.change record.page (some (v.setCell record (some row))) (some tx) := if_neg h

/-- A page that is stored is stored after an insertion. -/
theorem stored_insert_isSome {tx : TxId} {record : RecordId} {row : Row} {id : PageId}
    (h : (v.stored id).isSome) : ((v.insert tx blank record row).stored id).isSome := by
  by_cases hnew : v.stored record.page = none
  · rw [insert_new hnew, stored_save]
    by_cases hid : id = record.page
    · rw [hid, Function.update_self]
      rfl
    · rwa [Function.update_of_ne hid]
  · rwa [insert_old hnew, stored_change]

/-- A row is deleted. -/
def delete (v : View) (tx : TxId) (record : RecordId) : View :=
  v.change record.page (some (v.setCell record none)) (some tx)

/-- Blank pages were added to a table. -/
structure Grown (v w : View) (table : TableId) (blank : List (Option Row)) : Prop where
  mark_eq : w.mark = v.mark
  pages : ∀ id, w.stored id = v.stored id ∧ w.shown id = v.shown id ∨
    id.table = table ∧ v.stored id = none ∧ v.shown id = none ∧
      w.stored id = some blank ∧ w.shown id = some blank

theorem Grown.refl (v : View) (table : TableId) (blank : List (Option Row)) :
    v.Grown v table blank := ⟨rfl, fun _ => .inl ⟨rfl, rfl⟩⟩

theorem Grown.trans (h : u.Grown v table blank) (h' : v.Grown w table blank) :
    u.Grown w table blank := by
  refine ⟨h'.mark_eq.trans h.mark_eq, fun id => ?_⟩
  rcases h.pages id with ⟨hs, hv⟩ | ⟨ht, hs, hv, hs', hv'⟩ <;>
    rcases h'.pages id with ⟨hs₂, hv₂⟩ | ⟨ht₂, hs₂, hv₂, hs₂', hv₂'⟩
  · exact .inl ⟨hs₂.trans hs, hv₂.trans hv⟩
  · exact .inr ⟨ht₂, hs ▸ hs₂, hv ▸ hv₂, hs₂', hv₂'⟩
  · exact .inr ⟨ht, hs, hv, hs₂.trans hs', hv₂.trans hv'⟩
  · exact absurd (hs'.symm.trans hs₂) nofun

theorem Grown.stored_isSome (h : v.Grown w table blank) {id : PageId}
    (hstored : (v.stored id).isSome) : (w.stored id).isSome := by
  rcases h.pages id with ⟨hsame, -⟩ | ⟨-, -, -, hblank, -⟩
  · rwa [hsame]
  · rw [hblank]
    rfl

end View

/-- The cells of a page that was added to the file. -/
def HeapFile.blank (f : HeapFile) : List (Option Row) := Page.blank f.schema f.pageSize

namespace Store

variable {s t : Store} {tx : TxId} {row : Tuple} {table : TableId} {id : PageId} {f : HeapFile}

theorem setCell_eq {record : RecordId} {cells : List (Option Row)}
    (h : s.shown record.page = some cells) (o : Option Row) :
    s.view.setCell record o = cells.set record.slot o := by
  rw [View.setCell, view_shown, h, Option.getD_some]

/-! ### Growing a file -/

/-- A page that is added to the file does not hide another one. -/
def HasRoom (s : Store) (f : HeapFile) : Prop :=
  f.Countable s.disk ∨ slotCount f.pageSize f.schema.size = 0

instance (s : Store) (f : HeapFile) : Decidable (s.HasRoom f) :=
  inferInstanceAs (Decidable (_ ∨ _))

/-- The pages of the file are full, so that a row needs a page to be added. -/
def Crowded (s : Store) (f : HeapFile) : Prop :=
  ∀ n < (f.nextPage s.disk).number, s.Full ⟨f.table, n⟩

instance (s : Store) (f : HeapFile) : Decidable (s.Crowded f) :=
  inferInstanceAs (Decidable (∀ n < _, _))

/-- The place of a page that is added has no page yet, or one without slots. -/
theorem Backed.nextPage_blank (h : s.Backed) (hf : s.catalog.file f.table = .ok f)
    (hpos : 0 < f.pageSize) (hroom : s.HasRoom f) :
    s.stored (f.nextPage s.disk) = none ∨ s.stored (f.nextPage s.disk) = some f.blank ∧
      s.shown (f.nextPage s.disk) = some f.blank ∧ ¬ f.Countable s.disk := by
  have hf' : s.catalog.file (f.nextPage s.disk).table = .ok f := hf
  cases hstored : s.stored (f.nextPage s.disk) with
  | none => exact .inl rfl
  | some cells =>
    have hsome : (s.stored (f.nextPage s.disk)).isSome := by rw [hstored]; rfl
    have hcount : ¬ f.Countable s.disk := fun hcount =>
      (hcount.nextPage hpos).2 (has_of_stored hf' hsome)
    -- a page that is there already has no slots, and is the same as a blank one
    have hslots := hroom.resolve_left hcount
    have hblank : f.blank = [] := by rw [HeapFile.blank, Page.blank, hslots, List.replicate_zero]
    obtain ⟨shown, hshown⟩ := Option.isSome_iff_exists.1 (h.shown_isSome_iff.2 hsome)
    have hnil := h.length_shown _ hf' hshown
    rw [hslots, List.length_eq_zero_iff] at hnil
    rw [stored_eq _ hf', HeapFile.cells?_eq_some_iff] at hstored
    obtain ⟨page, hread, rfl⟩ := hstored
    have hholds := (HeapFile.holds_of_readPage hread).1
    have hcells : page.cells = [] := by
      rw [← List.length_eq_zero_iff, Page.length_cells, hholds.sound.length_slots,
        hholds.size_eq, hholds.schema_eq, hslots]
    exact .inr ⟨by rw [hcells, hblank], by rw [hshown, hnil, hblank], hcount⟩

/-- A page is added to a file. -/
theorem Backed.append (h : s.Backed) (hf : s.catalog.file f.table = .ok f) {disk : Disk}
    (happend : f.appendPage s.disk = .ok (id, disk)) (hroom : s.HasRoom f) :
    s.Shows { s with disk } (s.view.grow id (some f.blank)) ∧
      s.view.Grown (s.view.grow id (some f.blank)) f.table f.blank ∧
      (f.Countable s.disk → s.stored id = none) := by
  have hwrites := HeapFile.writes_of_appendPage happend
  obtain ⟨hpos, -, rfl, -⟩ := HeapFile.appendPage_eq_ok_iff.1 happend
  have hf' : s.catalog.file (f.nextPage s.disk).table = .ok f := hf
  have hblank := h.nextPage_blank hf hpos hroom
  have hshown : s.stored (f.nextPage s.disk) = none → s.shown (f.nextPage s.disk) = none :=
    h.shown_eq_none_iff.2
  -- a page that is in memory under that number has the same cells
  have hcached : ∀ page, s.pool.page? (f.nextPage s.disk) = some page → page.cells = f.blank := by
    intro page hpage
    rcases hblank with hnone | ⟨-, hsame, -⟩
    · exact absurd ((shown_of_page? hpage).symm.trans (hshown hnone)) nofun
    · exact Option.some.inj ((shown_of_page? hpage).symm.trans hsame)
  obtain ⟨hbacked, hstored⟩ := h.write (t := { s with disk }) rfl hf' hwrites h.pages
    (fun page hpage => by
      obtain ⟨g, hg, hholds, -⟩ := h.cached hpage
      rw [(Pool.mem_of_page? hpage).2] at hg
      cases hf'.symm.trans hg
      exact ⟨hholds, fun _ => hcached page hpage⟩)
    fun _ _ => rfl
  refine ⟨⟨rfl, hbacked, h.readable_of_writes rfl hf' hwrites,
    View.ext ?_ (funext fun other => ?_) ?_⟩,
    ⟨View.mark_grow .., fun other => ?_⟩, fun hcount => ?_⟩
  · rw [View.stored_grow]
    exact hstored
  · rw [View.shown_grow]
    by_cases hid : other = f.nextPage s.disk
    · subst hid
      rw [Function.update_self]
      cases hpage : s.pool.page? (f.nextPage s.disk) with
      | none =>
        refine (shown_of_none (s := { s with disk }) hpage).trans ?_
        rw [hstored, Function.update_self, HeapFile.blank]
      | some page =>
        refine (shown_of_page? (s := { s with disk }) hpage).trans ?_
        rw [hcached page hpage]
    · simp only [view_shown, Function.update_of_ne hid, shown, hstored]
  · rw [View.mark_grow]
    rfl
  · rw [View.stored_grow, View.shown_grow]
    by_cases hid : other = f.nextPage s.disk
    · subst hid
      simp only [Function.update_self, view_stored, view_shown]
      rcases hblank with hnone | ⟨hsame, hsame', -⟩
      · exact .inr ⟨rfl, hnone, hshown hnone, trivial, trivial⟩
      · exact .inl ⟨hsame.symm, hsame'.symm⟩
    · simp only [Function.update_of_ne hid, true_and, true_or]
  · exact hblank.resolve_right fun hsame => hsame.2.2 hcount

/-- A page with every slot free was added to a file, and is one page more. -/
structure Adds (s t : Store) (f : HeapFile) : Prop where
  countable : f.Countable s.disk
  shows : s.Shows t (s.view.grow (f.nextPage s.disk) (some f.blank))
  grows : f.Grows s.disk t.disk 1

theorem Stays.adds (h : s.Stays t) (h' : t.Adds u f) : s.Adds u f := by
  obtain ⟨hcountable, hshows, hgrows⟩ := h'
  rw [h.1.view_eq] at hshows
  rw [h.2] at hcountable hshows hgrows
  exact ⟨hcountable, h.1.trans hshows, hgrows⟩

/-- What an operation leaves that fails: blank pages that were added, and one at most if the pages
have slots. -/
def Spares (s t : Store) (f : HeapFile) : Prop :=
  (∃ w, s.Shows t w ∧ s.view.Grown w f.table f.blank) ∧
    (0 < slotCount f.pageSize f.schema.size → s.Stays t ∨ s.Adds t f)

theorem Stays.spares (h : s.Stays t) (f : HeapFile) : s.Spares t f :=
  ⟨⟨_, h.1, .refl _ _ _⟩, fun _ => .inl h⟩

theorem Spares.after (h' : t.Spares u f) (h : s.Stays t) : s.Spares u f := by
  obtain ⟨⟨w, hshows, hgrown⟩, hone⟩ := h'
  rw [h.1.view_eq] at hgrown
  exact ⟨⟨w, h.1.trans hshows, hgrown⟩, fun hslots => (hone hslots).imp h.trans h.adds⟩

/-! ### Insertion -/

/-- The file of one table gets longer, and those of the others do not. -/
theorem Backed.wholePages_of_grows (h : s.Backed) (hcatalog : t.catalog = s.catalog)
    (hf : s.catalog.file table = .ok f) {pages : Nat} (hgrows : f.Grows s.disk t.disk pages) :
    t.wholePages = Function.update s.wholePages table (s.wholePages table + pages) := by
  have hfile : ∀ other, t.catalog.file other = s.catalog.file other := by
    rw [hcatalog]
    exact fun _ => rfl
  funext other
  by_cases hother : other = table
  · subst hother
    rw [Function.update_self, wholePages_eq (hfile other ▸ hf), wholePages_eq hf,
      hgrows.wholePages_eq]
  · rw [Function.update_of_ne hother, wholePages, wholePages, hfile]
    cases hg : s.catalog.file other with
    | error cause => rfl
    | ok g =>
      have hname : g.name ≠ f.name := fun hname => hother (h.files _ _ _ _ hg hf hname)
      have hsize := hgrows.size_eq g.name hname
      simp only [Except.toOption, Option.map_some, HeapFile.wholePages, hsize]

/-- Where a row lands: in the first free slot of the first page that has one, or in slot 0 of the
page after all those that are there. -/
def Lands (s : Store) (table : TableId) (record : RecordId) : Prop :=
  record.page.table = table ∧ (∀ n, n < record.page.number → s.Full ⟨table, n⟩) ∧
    ((∃ cells, s.shown record.page = some cells ∧ Page.freeSlot? cells = some record.slot) ∨
      s.stored record.page = none ∧ record.page.number = s.wholePages table ∧ record.slot = 0)

/-- The row in a page that was filled and is marked. -/
theorem Fills.markDirty (h : s.Backed) (tx : TxId) {page : Page} (hfills : s.Fills t row page)
    (blank : List (Option Row)) :
    ∃ record cells, record.page = page.id ∧ s.shown record.page = some cells ∧
      Page.freeSlot? cells = some record.slot ∧
      s.Shows (t.markDirty tx page.id) (s.view.insert tx blank record (row.rowAt record)) := by
  obtain ⟨halters, cells, slot, hshown, hslot, hcells⟩ := hfills
  refine ⟨⟨page.id, slot⟩, cells, rfl, hshown, hslot, ?_⟩
  have hstored : s.stored page.id ≠ none := by
    rw [← Option.isSome_iff_ne_none, ← h.shown_isSome_iff, hshown]
    rfl
  have hview : s.Shows (t.markDirty tx page.id)
      (s.view.change page.id (some page.cells) (some tx)) := halters.markDirty
  rw [hcells] at hview
  have hold : s.view.stored (⟨page.id, slot⟩ : RecordId).page ≠ none := hstored
  rw [View.insert_old hold, setCell_eq hshown]
  exact hview

/-- What storing a row in a new page comes to. -/
def NewPageOutcome (s : Store) (tx : TxId) (row : Tuple) (f : HeapFile) :
    Outcome Store (Option PageId) → Prop
  | (.error _, t) => s.Spares t f
  | (.ok none, t) => slotCount f.pageSize f.schema.size = 0 ∧
      ∃ w, s.Shows t w ∧ s.view.Grown w f.table f.blank
  | (.ok (some id), t) => id = f.nextPage s.disk ∧ f.Countable s.disk ∧ 0 < f.pageSize ∧
      0 < slotCount f.pageSize f.schema.size ∧ s.stored id = none ∧
      t.pool.isHeldBy tx id = true ∧ f.Grows s.disk t.disk 1 ∧
      s.Shows (t.markDirty tx id) (s.view.insert tx f.blank ⟨id, 0⟩ (row.rowAt ⟨id, 0⟩))

/-- A new page takes the row in slot 0, unless it has no slots. -/
theorem Backed.insertIntoNewPage (h : s.Backed) (hrow : row.Complete)
    (hf : s.catalog.file f.table = .ok f) (hroom : s.HasRoom f) :
    s.NewPageOutcome tx row f (s.insertIntoNewPage tx row f) := by
  unfold Store.insertIntoNewPage
  split
  · exact h.stays_self.spares f
  rename_i new disk happend
  obtain ⟨hshows, hgrown, hnew⟩ := h.append hf happend hroom
  have hpage : ({ s with disk } : Store).PageOutcome tx row new
      (({ s with disk } : Store).insertIntoPage tx row new) :=
    hshows.backed.insertIntoPage hrow
  have hshown : ({ s with disk } : Store).shown new = some f.blank := by
    rw [← view_shown, hshows.view_eq, View.shown_grow, Function.update_self]
  obtain ⟨hpos, -, hid, -⟩ := HeapFile.appendPage_eq_ok_iff.1 happend
  generalize ({ s with disk } : Store).insertIntoPage tx row new = o at hpage ⊢
  obtain ⟨cause | _ | page, t⟩ := o
  · have hstays : ({ s with disk } : Store).Stays t := hpage
    have hall : s.Shows t (s.view.grow new (some f.blank)) :=
      hshows.trans (hstays.1.of_eq hshows.view_eq)
    refine ⟨⟨_, hall, hgrown⟩, fun hslots => .inr ?_⟩
    have hcount := hroom.resolve_right hslots.ne'
    exact ⟨hcount, hid ▸ hall, hstays.2 ▸ hcount.grows happend⟩
  · obtain ⟨⟨hstays, -⟩, cells, hcells, hfull⟩ := hpage
    cases hshown.symm.trans hcells
    refine ⟨?_, _, hshows.trans hstays, hshows.view_eq ▸ hgrown⟩
    by_contra hne
    rw [HeapFile.blank, Page.freeSlot?_blank_of_pos (Nat.pos_of_ne_zero hne)] at hfull
    cases hfull
  · obtain ⟨rfl, ⟨halters, cells, slot, hcells, hslot, hpage⟩, hheld⟩ := hpage
    cases hshown.symm.trans hcells
    have hpositive : 0 < slotCount f.pageSize f.schema.size := by
      by_contra hzero
      rw [HeapFile.blank, Page.blank, Nat.eq_zero_of_not_pos hzero] at hslot
      cases hslot
    rw [HeapFile.blank, Page.freeSlot?_blank_of_pos hpositive] at hslot
    cases hslot
    have hcount := hroom.resolve_right hpositive.ne'
    have hf' : s.catalog.file page.id.table = .ok f := hid ▸ hf
    obtain ⟨disk', hwrite, hwrites, hhas, hpersist⟩ := halters.persist tx hf'
    have hgrows : f.Grows s.disk disk' 1 := (hcount.grows happend).trans (hwrites.grows hhas)
    simp only [Outcome.andThen_ok, hwrite]
    refine ⟨hid, hcount, hpos, hpositive, hnew hcount, hheld, hgrows,
      hshows.trans (hpersist.of_eq ?_)⟩
    have hfresh : s.view.stored (⟨page.id, 0⟩ : RecordId).page = none := hnew hcount
    rw [hshows.view_eq, hpage, View.insert_new hfresh, View.grow, View.save, View.save, View.save]
    simp only [Function.update_idem]

/-- A row takes a page that the file has and does not write it, or one that is added. -/
def Takes (s t : Store) (f : HeapFile) (record : RecordId) : Prop :=
  record.page.number < f.wholePages s.disk ∧ t.disk = s.disk ∨
    record.page.number = f.wholePages s.disk ∧ f.Grows s.disk t.disk 1

/-- What storing a row in a file comes to. The page that took the row is still to be marked. -/
def FileOutcome (s : Store) (tx : TxId) (row : Tuple) (f : HeapFile) :
    Outcome Store PageId → Prop
  | (.error _, t) => s.Spares t f
  | (.ok id, t) => 0 < slotCount f.pageSize f.schema.size ∧ t.pool.isHeldBy tx id = true ∧
      ∃ record, record.page = id ∧ s.Lands f.table record ∧ s.Takes t f record ∧
        s.Shows (t.markDirty tx id) (s.view.insert tx f.blank record (row.rowAt record))

/-- When all pages that are counted were found full, a new one is tried. -/
theorem FitOutcome.newPage {count : Nat}
    (hfit : s.FitOutcome tx row f.table 0 count (.ok none, t)) (hrow : row.Complete)
    (hf : s.catalog.file f.table = .ok f) (hroom : s.Crowded f → s.HasRoom f)
    (hcount : f.pageCount s.disk = .ok count) :
    s.Stays t ∧ s.Crowded f ∧ t.NewPageOutcome tx row f (t.insertIntoNewPage tx row f) := by
  obtain ⟨hstays, hfull⟩ := hfit
  have hcrowded : s.Crowded f := fun n hn => by
    rw [HeapFile.number_nextPage hcount] at hn
    exact hfull n (Nat.zero_le n) (by omega)
  have hroom' : t.HasRoom f := (hroom hcrowded).imp_left fun hcountable => hstays.2 ▸ hcountable
  exact ⟨hstays, hcrowded,
    hstays.1.backed.insertIntoNewPage hrow (hstays.1.catalog_eq ▸ hf) hroom'⟩

/-- A row that was stored first fit is in a page that the file had. -/
theorem FitOutcome.stored {count : Nat}
    (hfit : s.FitOutcome tx row f.table 0 count (.ok (some id), t)) (h : s.Backed)
    (hf : s.catalog.file f.table = .ok f) (hcount : f.pageCount s.disk = .ok count) :
    s.FileOutcome tx row f (.ok id, t) := by
  obtain ⟨htable, hbefore, hlt, hheld, page, rfl, hfills⟩ := hfit
  obtain ⟨record, cells, hpage, hcells, hslot, hshows⟩ := hfills.markDirty h tx f.blank
  have hlength := h.length_shown (f := f) _ (by rw [hpage, htable, hf]) hcells
  have hwhole : (f.nextPage s.disk).number ≤ f.wholePages s.disk := Nat.mod_le _ _
  rw [HeapFile.number_nextPage hcount] at hwhole
  refine ⟨?_, hheld, record, hpage,
    ⟨hpage ▸ htable, fun n hn => ?_, .inl ⟨cells, hcells, hslot⟩⟩,
    .inl ⟨by rw [hpage]; omega, hfills.1.disk_eq⟩, hshows⟩
  · rw [← hlength]
    exact (List.getElem?_eq_some_iff.1 (Page.freeSlot?_eq_some hslot)).1.pos
  · exact hbefore n (Nat.zero_le n) (hpage ▸ hn)

/-- A row that a new page took is behind all pages that the file had, since these were full. -/
theorem NewPageOutcome.stored (hnew : t.NewPageOutcome tx row f (.ok (some id), u))
    (hstays : s.Stays t) (hf : s.catalog.file f.table = .ok f) (hcrowded : s.Crowded f) :
    s.FileOutcome tx row f (.ok id, u) := by
  obtain ⟨rfl, hcountable, hpos, hslots, hstored, hheld, hgrows, hshows⟩ := hnew
  have hnext : f.nextPage t.disk = f.nextPage s.disk := by rw [hstays.2]
  rw [hstays.stored_eq, hnext] at hstored
  rw [hstays.1.view_eq, hnext] at hshows
  rw [hstays.2] at hcountable hgrows
  rw [hnext] at hheld ⊢
  have hend : (f.nextPage s.disk).number = f.wholePages s.disk :=
    (hcountable.nextPage hpos).1
  have hlands : s.Lands f.table ⟨f.nextPage s.disk, 0⟩ :=
    ⟨rfl, fun n hn => hcrowded n hn, .inr ⟨hstored, by rw [wholePages_eq hf, hend], rfl⟩⟩
  exact ⟨hslots, hheld, ⟨f.nextPage s.disk, 0⟩, rfl, hlands, .inr ⟨hend, hgrows⟩,
    hstays.1.trans hshows⟩

/-- A new page without slots took no row, and neither did those that were added after it. -/
theorem NewPageOutcome.spares (hnew : t.NewPageOutcome tx row f (.ok none, u))
    (hstays : s.Stays t) {o : Outcome Store PageId} (hrest : u.FileOutcome tx row f o) :
    s.FileOutcome tx row f o := by
  obtain ⟨hzero, w, hshows, hgrown⟩ := hnew
  obtain ⟨cause | id, x⟩ := o
  · obtain ⟨⟨w', hshows', hgrown'⟩, -⟩ := hrest
    rw [hstays.1.view_eq] at hgrown
    rw [hshows.view_eq] at hgrown'
    exact ⟨⟨w', (hstays.1.trans hshows).trans hshows', hgrown.trans hgrown'⟩,
      fun hslots => absurd hslots (by omega)⟩
  · exact absurd hrest.1 (by omega)

/-- Rounds of an insertion: only a table without slots takes more than one. -/
theorem Backed.insertWithin (h : s.Backed) (hrow : row.Complete)
    (hf : s.catalog.file f.table = .ok f) (hroom : s.Crowded f → s.HasRoom f) (rounds : Nat) :
    s.FileOutcome tx row f (s.insertWithin tx row f rounds) := by
  induction rounds generalizing s with
  | zero => exact h.stays_self.spares f
  | succ rounds ih =>
    unfold Store.insertWithin
    split
    · exact h.stays_self.spares f
    rename_i count hcount
    -- the pages that are counted are tried first, and then a new one
    have hfit : s.FitOutcome tx row f.table 0 count (s.insertFirstFit tx row f.table 0 count) :=
      h.insertFirstFit hrow 0 count
    generalize s.insertFirstFit tx row f.table 0 count = o at hfit ⊢
    obtain ⟨cause | _ | id, t⟩ := o
    · have hstays : s.Stays t := hfit
      exact hstays.spares f
    · obtain ⟨hstays, hcrowded, hnew⟩ := hfit.newPage hrow hf hroom hcount
      simp only [Outcome.andThen_ok]
      generalize t.insertIntoNewPage tx row f = o at hnew ⊢
      obtain ⟨cause | _ | id, u⟩ := o
      · have hspares : t.Spares u f := hnew
        exact hspares.after hstays
      · have ⟨hzero, w, hshows, _⟩ := hnew
        have hf' : u.catalog.file f.table = .ok f :=
          hshows.catalog_eq ▸ hstays.1.catalog_eq ▸ hf
        simp only [Outcome.andThen_ok]
        exact hnew.spares hstays (ih hshows.backed hf' fun _ => .inr hzero)
      · exact hnew.stored hstays hf hcrowded
    · exact hfit.stored h hf hcount

/-- What inserting a row into a table comes to. -/
def InsertOutcome (s : Store) (tx : TxId) (table : TableId) (row : Tuple) :
    Outcome Store Unit → Prop
  | (.error _, t) => s.Stays t ∨ ∃ f, s.catalog.file table = .ok f ∧ s.Spares t f
  | (.ok (), t) => ∃ f record, s.catalog.file table = .ok f ∧
      0 < slotCount f.pageSize f.schema.size ∧ s.Lands table record ∧ s.Takes t f record ∧
      t.pool.isHeldBy tx record.page = true ∧
      s.Shows t (s.view.insert tx f.blank record (row.rowAt record))

/-- The row lands in the table, or no page that is there changes. -/
theorem Backed.insertRow (h : s.Backed) (hrow : row.Complete)
    (hroom : ∀ f, s.catalog.file table = .ok f → s.Crowded f → s.HasRoom f) :
    s.InsertOutcome tx table row (s.insertRow tx table row) := by
  unfold Store.insertRow
  split
  · exact .inl h.stays_self
  rename_i f hf
  obtain rfl := Catalog.table_of_file hf
  unfold Store.insertIntoFile
  split
  · exact .inl h.stays_self
  have hwithin : s.FileOutcome tx row f
      (s.insertWithin tx row f (s.pool.frames.length + 1)) :=
    h.insertWithin hrow hf (hroom f hf) _
  generalize s.insertWithin tx row f (s.pool.frames.length + 1) = o at hwithin ⊢
  obtain ⟨cause | id, t⟩ := o
  · exact .inr ⟨f, hf, hwithin⟩
  · obtain ⟨hslots, hheld, record, rfl, hlands, htakes, hshows⟩ := hwithin
    exact ⟨f, record, hf, hslots, hlands, htakes, hheld, hshows⟩

/-- There is room for the row if the pages of the file have numbers. -/
theorem Backed.insertOutcome (h : s.Backed) (hf : s.catalog.file table = .ok f)
    (hrow : row.Complete) (hcount : f.Countable s.disk) {o : Outcome Store Unit}
    (hinsert : s.insertRow tx table row = o) : s.InsertOutcome tx table row o := by
  rw [← hinsert]
  refine h.insertRow hrow fun g hg _ => ?_
  cases hf.symm.trans hg
  exact .inl hcount

/-! ### Deletion -/

/-- What deleting a row comes to. -/
def DeleteOutcome (s : Store) (tx : TxId) (row : Tuple) : Outcome Store Unit → Prop
  | (.error _, t) => s.Stays t
  | (.ok (), t) => ∃ record cells old, row.record = some record ∧
      s.shown record.page = some cells ∧ cells[record.slot]? = some (some old) ∧
      t.disk = s.disk ∧ t.pool.isHeldBy tx record.page = true ∧
      s.Shows t (s.view.delete tx record)

/-- The slot of the row is free from then on, or nothing changes. -/
theorem Backed.deleteRow (h : s.Backed) : s.DeleteOutcome tx row (s.deleteRow tx row) := by
  unfold Store.deleteRow
  split
  · exact h.stays_self
  rename_i record hrecord
  split
  · exact h.stays_self
  rename_i f hf
  rcases s.deleteFromFile_cases tx f row with
    ⟨cause, heq⟩ | ⟨record', count, page, r, hrecord', -, -, -, hacquire, hcases⟩
  · rw [heq]
    exact h.stays_self
  cases hrecord.symm.trans hrecord'
  obtain ⟨hstays, hpage⟩ := h.acquire hacquire
  have hid := (Pool.mem_of_page? hpage).2
  obtain ⟨g, hg, hholds, -⟩ := hstays.1.backed.cached hpage
  rcases hcases with ⟨cause, -, heq⟩ | ⟨freed, hdelete, heq⟩
  · rw [heq]
    exact hstays.trans (hstays.1.backed.release tx record.page)
  · rw [heq]
    obtain ⟨hsound, hfreed, hschema, hsize, record', old, hrecord', -, hold, hcells⟩ :=
      hholds.sound.delete_eq_ok hdelete
    cases hrecord.symm.trans hrecord'
    have hshown : s.shown record.page = some page.cells := by
      rw [← hstays.shown_eq, shown_of_page? hpage]
    have halters : s.Alters (r.put freed) freed := by
      refine ⟨r, page, g, hstays, by rw [hfreed, hid, hpage], rfl, ?_, ?_⟩
      · rw [hfreed, ← hstays.1.catalog_eq, hg]
      · exact ⟨hsound, hschema.trans hholds.schema_eq, hsize.trans hholds.size_eq,
          hfreed ▸ hholds.addresses, hfreed ▸ hstays.2 ▸ hholds.has⟩
    have hmark : s.Shows ((r.put freed).markDirty tx freed.id)
        (s.view.change freed.id (some freed.cells) (some tx)) := halters.markDirty
    rw [hfreed, hid, hcells] at hmark
    have hheld : r.pool.isHeldBy tx record.page = true := isHeldBy_of_acquire hacquire
    refine ⟨record, page.cells, old, hrecord, hshown, hold, hstays.2, hheld, ?_⟩
    rw [View.delete, setCell_eq hshown]
    exact hmark

end Store

end Rowstore
