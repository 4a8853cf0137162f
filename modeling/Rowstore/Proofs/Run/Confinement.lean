import Mathlib
import Rowstore.Proofs.File.Touches
import Rowstore.Proofs.Page.RoundTrip
import Rowstore.Proofs.Store.Completion
import Rowstore.Proofs.Store.Searching

/-!
# Confinement

What the operations of a store, and whoever writes pages without it, do to the bytes of its files.

* `Store.Traces` says that only pages of registered tables were written, and pages added only where
  an operation may add them. By `Store.Writable.traces_after` it is so of every operation, since the
  pages in memory are in the bounds of their files.
* `Desk` is a store with pages in hand: read from its files or copied from its memory, changed, and
  written to the files. `Desk.Steady` is the invariant, and `Desk.Steady.run` keeps it along a run.
* `Desk.run_confined` is what follows of the files, step by step. Only pages that are added make
  them longer, by whole pages. A file whose page numbers are used up no longer grows, and is counted
  as if it was empty: `Store.append_starts_over`.
-/

namespace Rowstore

/-- The tables whose files an operation may add pages to. -/
def Action.Grows : Action → TableId → Prop
  | .insert _ table _ _, other => other = table
  | .append table, other => other = table
  | _, _ => False

namespace Store

variable {s t : Store} {tx : TxId} {id : PageId} {page : Page} {row : Tuple} {f : HeapFile}
  {c : Catalog} {grows : TableId → Prop} {disk disk' disk'' : Disk}

/-! ### Operations -/

/-- Files of registered tables were touched, and pages added only to those of some tables. -/
def Traces (c : Catalog) (grows : TableId → Prop) (disk disk' : Disk) : Prop :=
  ∃ touches, Touch.Leads touches disk disk' ∧
    ∀ x ∈ touches, c.file x.file.table = .ok x.file ∧ ∀ f, x.AddsTo f → grows f.table

namespace Traces

theorem refl (c : Catalog) (grows : TableId → Prop) (disk : Disk) : Traces c grows disk disk :=
  ⟨[], rfl, nofun⟩

theorem of_eq (h : disk' = disk) : Traces c grows disk disk' := h ▸ .refl c grows disk

theorem trans (h : Traces c grows disk disk') (h' : Traces c grows disk' disk'') :
    Traces c grows disk disk'' := by
  obtain ⟨touches, hleads, htouches⟩ := h
  obtain ⟨touches', hleads', htouches'⟩ := h'
  refine ⟨touches ++ touches', hleads.append hleads', fun x hx => ?_⟩
  rcases List.mem_append.1 hx with hx | hx
  · exact htouches x hx
  · exact htouches' x hx

theorem add (hf : c.file f.table = .ok f) (hgrows : grows f.table)
    (h : f.appendPage disk = .ok (id, disk')) : Traces c grows disk disk' := by
  refine ⟨[.add f id.number], .single (HeapFile.adds_of_appendPage h).2, fun x hx => ?_⟩
  obtain rfl := List.mem_singleton.1 hx
  refine ⟨hf, ?_⟩
  rintro g rfl
  exact hgrows

theorem write {written : Page} (hf : c.file f.table = .ok f) (hholds : f.Holds disk page)
    (h : f.writePage disk page = .ok (written, disk')) : Traces c grows disk disk' := by
  refine ⟨[.write f page.id.number], .single (HeapFile.rewrites_of_writePage hholds h),
    fun x hx => ?_⟩
  obtain rfl := List.mem_singleton.1 hx
  exact ⟨hf, fun g => False.elim⟩

/-- No file has become shorter. -/
theorem disk_extends (h : Traces c grows disk disk') : disk'.Extends disk := by
  obtain ⟨touches, hleads, -⟩ := h
  exact hleads.disk_extends

end Traces

namespace Writable

/-- A page of a registered table that is in memory stands in the file that it is written to. -/
theorem holds_of_writePage (h : s.Writable) (hf : s.catalog.file f.table = .ok f)
    (hpage : page ∈ s.pool.pages) {written : Page}
    (hwrite : f.writePage s.disk page = .ok (written, disk)) : f.Holds s.disk page := by
  have htable := (HeapFile.writePage_eq_ok_iff.1 hwrite).1
  apply h.holds page hpage f
  rw [htable, hf]

/-- An insertion adds pages to the file of its table, and writes them. -/
theorem traces_insertRow (h : s.Writable) (hrow : row.Complete) (tx : TxId) (table : TableId) :
    Traces s.catalog (· = table) s.disk (s.insertRow tx table row).2.disk := by
  cases hf : s.catalog.file table with
  | error cause =>
    unfold insertRow
    rw [hf]
    exact .refl _ _ _
  | ok f =>
    obtain rfl : f.table = table := Catalog.table_of_file hf
    have hspans : Spans f (fun t => t.catalog = s.catalog ∧ t.Writable)
        (Traces s.catalog (· = f.table)) := by
      refine ⟨.refl _ _, .trans, .add hf rfl, fun hkept hpage hwrite => ?_⟩
      exact .write hf (hkept.2.holds_of_writePage (hkept.1 ▸ hf) hpage hwrite) hwrite
    have hstable := (stable_catalog s.catalog).of_any.and stable_writable
    exact hspans.insertRow hstable ⟨rfl, h⟩ hrow hf tx

/-- Pages that are written one after another are in their files. -/
theorem traces_clears (h : s.Writable) (hclears : s.Clears t) :
    Traces s.catalog grows s.disk t.disk := by
  induction hclears with
  | refl => exact .refl _ _ _
  | @tail u v hfirst hlast ih =>
    have hwritable : u.Writable := stable_writable.clears h hfirst
    have hcatalog : u.catalog = s.catalog := (stable_catalog s.catalog).clears rfl hfirst
    obtain ⟨id, rfl | hflush⟩ := hlast
    · exact ih
    · rcases flushPage_cases hflush with
        ⟨rfl, -⟩ | ⟨rfl, -⟩ | ⟨f, page, disk, hf, hpage, -, hwrite, rfl⟩
      · exact ih
      · exact ih
      · rw [← Catalog.table_of_file hf] at hf
        have hholds := hwritable.holds_of_writePage hf (Pool.mem_of_page? hpage).1 hwrite
        rw [hcatalog] at hf
        exact ih.trans (.write hf hholds hwrite)

end Writable

/-- A deletion changes no file. -/
theorem disk_deleteRow (s : Store) (tx : TxId) (row : Tuple) :
    (s.deleteRow tx row).2.disk = s.disk := by
  unfold deleteRow
  cases row.record with
  | none => rfl
  | some record =>
    dsimp only
    cases s.catalog.file record.page.table with
    | error cause => rfl
    | ok f =>
      dsimp only
      rcases s.deleteFromFile_cases tx f row with
        ⟨cause, heq⟩ | ⟨record, count, page, t, -, -, -, -, hacquire, hcases⟩
      · rw [heq]
        rfl
      · have hdisk : t.disk = s.disk := (Acquires.of_acquire hacquire).disk_eq
        rcases hcases with ⟨cause, -, heq⟩ | ⟨left, -, heq⟩
        · rw [heq]
          exact hdisk
        · rw [heq]
          exact hdisk

/-- What an operation does to the files. -/
theorem Writable.traces_after (h : s.Writable) (a : Action) :
    Traces s.catalog a.Grows s.disk (s.after a).disk := by
  show Traces s.catalog a.Grows s.disk (s.perform a).2.disk
  cases a with
  | acquire tx id =>
    show Traces _ _ _ (Outcome.ofExcept s _).2.disk
    cases hacquire : s.acquire tx id with
    | error cause => exact .refl _ _ _
    | ok given => exact .of_eq (Acquires.of_acquire hacquire).disk_eq
  | release tx id => exact .refl _ _ _
  | insert tx table row complete => exact h.traces_insertRow complete tx table
  | delete tx row => exact .of_eq (s.disk_deleteRow tx row)
  | flush id =>
    show Traces _ _ _ (Outcome.ofExcept s _).2.disk
    cases hflush : s.flushPage id with
    | error cause => exact .refl _ _ _
    | ok t => exact h.traces_clears (.of_flushPage hflush)
  | flushAll => exact h.traces_clears (s.clears_flushPages _)
  | discard id => exact .refl _ _ _
  | complete tx commit =>
    have hreleased : Writable { s with pool := s.pool.releaseAll tx } := stable_writable.holds _ h
    exact hreleased.traces_clears (s.clears_complete tx commit)
  | append table =>
    show Traces _ _ _ (s.appendPage table).2.disk
    unfold appendPage
    cases hf : s.catalog.file table with
    | error cause => exact .refl _ _ _
    | ok f =>
      obtain rfl : f.table = table := Catalog.table_of_file hf
      simp only [Bind.bind, Except.bind]
      cases happend : f.appendPage s.disk with
      | error cause => exact .refl _ _ _
      | ok added => exact .add hf rfl happend
  | scan scan move => exact .of_eq (s.acquires_moveScan scan move).disk_eq

end Store

/-! ### Pages in hand -/

/-- A store, and pages that are read, changed and written without it. -/
structure Desk where
  store : Store
  hand : List Page

namespace Desk

/-- A move at a desk. -/
inductive Move
  /-- An operation on the store. -/
  | act (a : Action)
  /-- A page is read from its file. -/
  | read (id : PageId)
  /-- A page in memory is copied. -/
  | copy (id : PageId)
  /-- A page in hand is changed. -/
  | edit (place : Nat) (change : Page.Edit)
  | mark (place : Nat) (tx : Option TxId)
  /-- A page in hand is written to the file of a table. -/
  | write (table : TableId) (place : Nat)

/-- The tables whose files a move may add pages to. -/
def Move.Grows : Move → TableId → Prop
  | act a => a.Grows
  | _ => fun _ => False

/-- Read a page from the file of its table. -/
def read (d : Desk) (id : PageId) : Except DbError Page := do
  let file ← d.store.catalog.file id.table
  file.readPage d.store.disk id

/-- Do a move. -/
def perform (d : Desk) : Move → Outcome Desk Unit
  | .act a => let (result, store) := d.store.perform a; (result, { d with store })
  | .read id =>
    match d.read id with
    | .error cause => (.error cause, d)
    | .ok page => (.ok (), { d with hand := d.hand ++ [page] })
  | .copy id => (.ok (), { d with hand := d.hand ++ (d.store.pool.page? id).toList })
  | .edit place change => (.ok (), { d with hand := d.hand.modify place (·.edit change) })
  | .mark place tx => (.ok (), { d with hand := d.hand.modify place (·.mark tx) })
  | .write table place =>
    match d.store.catalog.file table, d.hand[place]? with
    | .error cause, _ => (.error cause, d)
    | .ok _, none => (.ok (), d)
    | .ok file, some page =>
      let (result, page, disk) := file.writeSteps d.store.disk page
      (result, { store := { d.store with disk }, hand := d.hand.set place page })

/-- The desk after a move. -/
def after (d : Desk) (m : Move) : Desk := (d.perform m).2

/-- The desk after moves one after another. -/
def run (d : Desk) (moves : List Move) : Desk := moves.foldl after d

/-- The pages in memory and in hand may stand in the files of their tables. -/
structure Steady (d : Desk) : Prop where
  writable : d.store.Writable
  hand : ∀ page ∈ d.hand, ∀ f, d.store.catalog.file page.id.table = .ok f →
    f.Holds d.store.disk page

variable {d : Desk} {f : HeapFile} {page : Page} {place : Nat} {table : TableId}

/-- A page that is written from the hand, step by step. -/
theorem perform_write (hf : d.store.catalog.file table = .ok f)
    (hpage : d.hand[place]? = some page) :
    d.perform (.write table place) = match f.writePage d.store.disk page with
      | .ok (written, disk) =>
        (.ok (), { store := { d.store with disk }, hand := d.hand.set place written })
      | .error cause => (.error cause, d) := by
  have hsame : d.hand.set place page = d.hand := by
    obtain ⟨hlt, rfl⟩ := List.getElem?_eq_some_iff.1 hpage
    exact List.set_getElem_self hlt
  rw [perform, hf, hpage]
  simp only [HeapFile.writeSteps_eq]
  cases f.writePage d.store.disk page with
  | ok done => rfl
  | error cause =>
    simp only [hsame]

/-- A page that is added, step by step. -/
theorem perform_append (hf : d.store.catalog.file f.table = .ok f) :
    d.perform (.act (.append f.table)) = match f.appendPage d.store.disk with
      | .ok (_, disk) => (.ok (), { d with store := { d.store with disk } })
      | .error cause => (.error cause, d) := by
  show ((d.store.appendPage f.table).1, { d with store := (d.store.appendPage f.table).2 }) = _
  unfold Store.appendPage
  rw [hf]
  simp only [Bind.bind, Except.bind]
  cases f.appendPage d.store.disk <;> rfl

theorem after_of_append {cause : DbError}
    (h : (d.perform (.act (.append table))).1 = .error cause) :
    d.after (.act (.append table)) = d := by
  cases hf : d.store.catalog.file table with
  | error cause =>
    show { d with store := (d.store.appendPage table).2 } = d
    rw [Store.appendPage, hf]
    rfl
  | ok f =>
    obtain rfl := Catalog.table_of_file hf
    rw [perform_append hf] at h
    rw [after, perform_append hf]
    cases happend : f.appendPage d.store.disk with
    | error cause => rfl
    | ok added =>
      rw [happend] at h
      cases h

/-- All that writing a page from the hand can come to. -/
theorem perform_write_cases (d : Desk) (table : TableId) (place : Nat) :
    (∃ cause, d.perform (.write table place) = (.error cause, d)) ∨
      d.perform (.write table place) = (.ok (), d) ∨
      ∃ f page written disk, d.store.catalog.file table = .ok f ∧ d.hand[place]? = some page ∧
        f.writePage d.store.disk page = .ok (written, disk) ∧
        d.perform (.write table place) =
          (.ok (), { store := { d.store with disk }, hand := d.hand.set place written }) := by
  cases hf : d.store.catalog.file table with
  | error cause => exact .inl ⟨cause, by rw [perform, hf]⟩
  | ok f =>
    cases hpage : d.hand[place]? with
    | none => exact .inr (.inl (by rw [perform, hf, hpage]))
    | some page =>
      rw [perform_write hf hpage]
      cases hwrite : f.writePage d.store.disk page with
      | error cause => exact .inl ⟨cause, rfl⟩
      | ok done => exact .inr (.inr ⟨f, page, done.1, done.2, rfl, rfl, hwrite, rfl⟩)

theorem after_of_write {cause : DbError} (h : (d.perform (.write table place)).1 = .error cause) :
    d.after (.write table place) = d := by
  rcases d.perform_write_cases table place with
    ⟨cause, heq⟩ | heq | ⟨f, page, written, disk, -, -, -, heq⟩
  · rw [after, heq]
  · rw [after, heq]
  · rw [heq] at h
    cases h

/-- A page that is read is in the file that it is read from. -/
theorem holds_of_read {id : PageId} (hread : d.read id = .ok page)
    (hf : d.store.catalog.file page.id.table = .ok f) : f.Holds d.store.disk page := by
  obtain ⟨g, hg, hpage⟩ := bind_eq_ok_iff.1 hread
  obtain ⟨hholds, rfl, -⟩ := HeapFile.holds_of_readPage hpage
  cases hf.symm.trans hg
  exact hholds

namespace Steady

/-- The pages in hand are still in order when the files have become longer. -/
theorem with_store (h : d.Steady) {s : Store} (hwritable : s.Writable)
    (hcatalog : s.catalog = d.store.catalog) (hextends : s.disk.Extends d.store.disk) :
    Steady { d with store := s } where
  writable := hwritable
  hand := by
    intro page hpage f hf
    rw [show ({ d with store := s } : Desk).store.catalog = d.store.catalog from hcatalog] at hf
    exact (h.hand page hpage f hf).extends hextends

/-- A page in hand is changed, and may still stand in its file. -/
theorem modify (h : d.Steady) (place : Nat) {change : Page → Page}
    (hid : ∀ page, (change page).id = page.id)
    (hholds : ∀ (f : HeapFile) page, f.Holds d.store.disk page →
      f.Holds d.store.disk (change page)) :
    Steady { d with hand := d.hand.modify place change } where
  writable := h.writable
  hand := by
    intro page hpage f hf
    obtain ⟨i, hi, rfl⟩ := List.mem_iff_getElem.1 hpage
    have hlt : i < d.hand.length := by simpa using hi
    simp only [List.getElem_modify] at hf ⊢
    split_ifs at hf ⊢ with hplace
    · rw [hid] at hf
      exact hholds f _ (h.hand _ (List.getElem_mem hlt) f hf)
    · exact h.hand _ (List.getElem_mem hlt) f hf

/-- A page is taken in hand. -/
theorem take (h : d.Steady) {pages : List Page} (hpages : ∀ page ∈ pages, ∀ f,
    d.store.catalog.file page.id.table = .ok f → f.Holds d.store.disk page) :
    Steady { d with hand := d.hand ++ pages } where
  writable := h.writable
  hand := by
    intro page hpage
    rcases List.mem_append.1 hpage with hold | hnew
    · exact h.hand page hold
    · exact hpages page hnew

/-- A page in hand that is written is in its file. -/
theorem holds_of_writePage (h : d.Steady) (hf : d.store.catalog.file table = .ok f)
    (hpage : d.hand[place]? = some page) {written : Page} {disk : Disk}
    (hwrite : f.writePage d.store.disk page = .ok (written, disk)) :
    f.Holds d.store.disk page := by
  have htable := (HeapFile.writePage_eq_ok_iff.1 hwrite).1
  apply h.hand page (List.mem_of_getElem? hpage) f
  rw [htable, Catalog.table_of_file hf, hf]

/-- A page is written from the hand. -/
theorem written (h : d.Steady) (hpage : d.hand[place]? = some page) {written : Page} {disk : Disk}
    (hwrite : f.writePage d.store.disk page = .ok (written, disk))
    (hextends : disk.Extends d.store.disk) :
    Steady { store := { d.store with disk }, hand := d.hand.set place written } := by
  have hlonger : Steady { d with store := { d.store with disk } } :=
    h.with_store (Store.stable_writable.disk h.writable hextends) rfl hextends
  have hset : d.hand.set place written = d.hand.modify place (·.mark none) := by
    obtain ⟨hlt, rfl⟩ := List.getElem?_eq_some_iff.1 hpage
    rw [HeapFile.mark_of_writePage hwrite, List.modify_eq_set_get _ hlt]
    rfl
  rw [hset]
  exact hlonger.modify place (fun _ => rfl) fun f page hholds => hholds.mark none

/-- What a move does to the files, and what it keeps. -/
theorem step (h : d.Steady) (m : Move) :
    (d.after m).store.catalog = d.store.catalog ∧
      Store.Traces d.store.catalog m.Grows d.store.disk (d.after m).store.disk ∧
      (d.after m).Steady := by
  cases m with
  | act a =>
    have hcatalog := d.store.catalog_after a
    have htraces := h.writable.traces_after a
    exact ⟨hcatalog, htraces,
      h.with_store (Store.stable_writable.after h.writable a) hcatalog htraces.disk_extends⟩
  | read id =>
    unfold after perform
    dsimp only
    cases hread : d.read id with
    | error cause => exact ⟨rfl, .refl _ _ _, h⟩
    | ok page =>
      refine ⟨rfl, .refl _ _ _, h.take fun other hother f hf => ?_⟩
      obtain rfl := List.mem_singleton.1 hother
      exact holds_of_read hread hf
  | copy id =>
    refine ⟨rfl, .refl _ _ _, h.take fun page hpage f hf => ?_⟩
    rw [Option.mem_toList] at hpage
    exact h.writable.holds page (Pool.mem_of_page? hpage).1 f hf
  | edit place change =>
    refine ⟨rfl, .refl _ _ _, h.modify place (fun page => page.id_edit change) ?_⟩
    intro f page hholds
    obtain ⟨hsound, hid, hschema, hsize⟩ :=
      Page.SoundAs.edit ⟨hholds.sound, rfl, rfl, rfl⟩ change
    exact hholds.of_layout hsound hid hschema hsize
  | mark place tx =>
    exact ⟨rfl, .refl _ _ _, h.modify place (fun _ => rfl) fun f page hholds => hholds.mark tx⟩
  | write table place =>
    rcases d.perform_write_cases table place with
      ⟨cause, heq⟩ | heq | ⟨f, page, written, disk, hf, hpage, hwrite, heq⟩
    · rw [after, heq]
      exact ⟨rfl, .refl _ _ _, h⟩
    · rw [after, heq]
      exact ⟨rfl, .refl _ _ _, h⟩
    · have hholds := h.holds_of_writePage hf hpage hwrite
      have htraces : Store.Traces d.store.catalog (Move.write table place).Grows
          d.store.disk disk := by
        refine .write (f := f) ?_ hholds hwrite
        rw [Catalog.table_of_file hf, hf]
      rw [after, heq]
      exact ⟨rfl, htraces, h.written hpage hwrite htraces.disk_extends⟩

theorem run (h : d.Steady) (moves : List Move) :
    (d.run moves).store.catalog = d.store.catalog ∧ (d.run moves).Steady := by
  induction moves generalizing d with
  | nil => exact ⟨rfl, h⟩
  | cons m moves ih =>
    obtain ⟨hcatalog, -, hsteady⟩ := h.step m
    obtain ⟨hcatalog', hsteady'⟩ := ih hsteady
    exact ⟨hcatalog'.trans hcatalog, hsteady'⟩

end Steady

/-- What a move does to the bytes of the files. -/
structure Confined (d : Desk) (m : Move) : Prop where
  /-- Pages of registered tables are written, and added where the move may add pages. What has
  changed is in the places of these pages. -/
  touches : ∃ touches, Touch.Leads touches d.store.disk (d.after m).store.disk ∧
    (∀ x ∈ touches, d.store.catalog.file x.file.table = .ok x.file ∧
      ∀ f, x.AddsTo f → m.Grows f.table) ∧
    ∀ (name : String) (offset : Nat),
      ((d.after m).store.disk.contents name)[offset]? ≠ (d.store.disk.contents name)[offset]? →
        ∃ x ∈ touches, x.file.Covers x.page name offset
  /-- A file that the move may not add pages to is as long as it was. -/
  size_eq : ∀ name, (∀ f, d.store.catalog.file f.table = .ok f → m.Grows f.table → f.name ≠ name) →
    ((d.after m).store.disk.file name).size = (d.store.disk.file name).size
  /-- The count of pages gets smaller only where it comes to the end of the page numbers. -/
  pageCount_lt_iff : ∀ f count count', d.store.catalog.file f.table = .ok f →
    f.pageCount d.store.disk = .ok count → f.pageCount (d.after m).store.disk = .ok count' →
      (count' < count ↔ 0 < count ∧ f.Countable d.store.disk ∧
        f.wholePages (d.after m).store.disk = HeapFile.pageNumbers)
  /-- A page is added exactly if its place can be reached. -/
  append : ∀ f, d.store.catalog.file f.table = .ok f → m = .act (.append f.table) →
    ((d.perform m).1 = .ok () ↔ 0 < f.pageSize ∧ f.Addresses (f.nextPage d.store.disk)) ∧
      ((d.perform m).1 = .ok () →
        f.Adds (f.nextPage d.store.disk).number d.store.disk (d.after m).store.disk)
  /-- A page in hand that is written is clean after that. -/
  write : ∀ table place f page, d.store.catalog.file table = .ok f → d.hand[place]? = some page →
    m = .write table place → (d.perform m).1 = .ok () →
      f.Rewrites page.id.number d.store.disk (d.after m).store.disk ∧
        (d.after m).hand[place]? = some (page.mark none)
  /-- If a page cannot be added or written, all is as it was. -/
  refused : ∀ table place cause, m = .act (.append table) ∨ m = .write table place →
    (d.perform m).1 = .error cause → d.after m = d

namespace Steady

/-- The count of pages is that of the whole pages, up to the page numbers. -/
theorem pageCount_lt_iff (h : d.Steady) (m : Move) {count count' : Nat}
    (hf : d.store.catalog.file f.table = .ok f) (hcount : f.pageCount d.store.disk = .ok count)
    (hcount' : f.pageCount (d.after m).store.disk = .ok count') :
    count' < count ↔ 0 < count ∧ f.Countable d.store.disk ∧
      f.wholePages (d.after m).store.disk = HeapFile.pageNumbers := by
  obtain ⟨-, ⟨touches, hleads, htouches⟩, -⟩ := h.step m
  -- no other table is over the file, so whatever is touched there is touched for this one
  have hown : ∀ x ∈ touches, x.file.name = f.name → x.file = f := by
    intro x hx hname
    have hfile := (htouches x hx).1
    rw [h.writable.files _ _ _ _ hfile hf hname, hf] at hfile
    exact (Except.ok.inj hfile).symm
  obtain ⟨hlow, hhigh⟩ := hleads.wholePages_le hown
  have hnumber := HeapFile.number_nextPage hcount
  have hnumber' := HeapFile.number_nextPage hcount'
  simp only [HeapFile.nextPage, HeapFile.Countable, HeapFile.pageNumbers] at *
  omega

theorem confined (h : d.Steady) (m : Move) : d.Confined m where
  touches := by
    obtain ⟨-, ⟨touches, hleads, htouches⟩, -⟩ := h.step m
    exact ⟨touches, hleads, htouches, fun name offset => hleads.covers⟩
  size_eq name hname := by
    obtain ⟨-, ⟨touches, hleads, htouches⟩, -⟩ := h.step m
    refine hleads.size_eq fun f hf x hx hadds => ?_
    obtain ⟨hfile, hgrows⟩ := htouches x hx
    cases x with
    | add g number =>
      obtain rfl : g = f := hadds
      exact hname g hfile (hgrows g rfl) hf
    | write g number => exact hadds
  pageCount_lt_iff f count count' := h.pageCount_lt_iff m
  append := by
    rintro f hf rfl
    rw [after, perform_append hf]
    cases happend : f.appendPage d.store.disk with
    | error cause =>
      refine ⟨⟨nofun, fun hreach => ?_⟩, nofun⟩
      rw [HeapFile.appendPage_eq_ok_iff.2 ⟨hreach.1, hreach.2, rfl, rfl⟩] at happend
      cases happend
    | ok added =>
      obtain ⟨id, disk⟩ := added
      obtain ⟨hpos, haddr, hid, -⟩ := HeapFile.appendPage_eq_ok_iff.1 happend
      refine ⟨⟨fun _ => ⟨hpos, haddr⟩, fun _ => rfl⟩, fun _ => ?_⟩
      rw [← hid]
      exact (HeapFile.adds_of_appendPage happend).2
  write := by
    rintro table place f page hf hpage rfl
    rw [after, perform_write hf hpage]
    cases hwrite : f.writePage d.store.disk page with
    | error cause => nofun
    | ok done =>
      obtain ⟨written, disk⟩ := done
      have hholds := h.holds_of_writePage hf hpage hwrite
      obtain ⟨hlt, -⟩ := List.getElem?_eq_some_iff.1 hpage
      refine fun _ => ⟨HeapFile.rewrites_of_writePage hholds hwrite, ?_⟩
      rw [HeapFile.mark_of_writePage hwrite]
      exact List.getElem?_set_self hlt
  refused := by
    rintro table place cause (rfl | rfl) herror
    · exact after_of_append herror
    · exact after_of_write herror

end Steady

/-- **Writes are confined** to the places of the pages that are written or added, and a page that
cannot be written is as it was. -/
theorem run_confined {config : Config} {s : Store} (h : s.Arises config) (moves : List Move)
    (m : Move) :
    ((Desk.mk s []).run moves).Confined m ∧
      ∀ (f : HeapFile) (disk : Disk) (page : Page) (cause : DbError),
        (f.writeSteps disk page).1 = .error cause → (f.writeSteps disk page).2 = (page, disk) :=
  have hsteady : Steady ⟨s, []⟩ := ⟨h.writable, fun _ hpage => nomatch hpage⟩
  ⟨(hsteady.run moves).2.confined m, fun _ _ _ _ => HeapFile.writeSteps_of_error⟩

end Desk

namespace Store

/-- A table of numbers over a file, with one number on each page. -/
def numbersOver (file : FileData) : Store :=
  withNumbers { Database.new ⟨5, 1⟩ with disk := ⟨[("f", file)]⟩ } "t" "f"

theorem numbersOver_arises (file : FileData) : (numbersOver file).Arises ⟨5, 1⟩ :=
  .withNumbers (.new _) (show 1 < 0x100000000 by decide) (by cbv) (by simp [withNumbers, Database.new])

end Store

/-- A number is deleted from a page in hand, and the page is written. The next page is added over
the two bytes that are behind it. -/
theorem Desk.run_sevenAndMore :
    let s := Store.numbersOver ⟨[.written [1, 7, 0, 0, 0, 9, 9]]⟩
    let seven : Tuple := { Store.number 7 with record := some ⟨⟨Store.only, 0⟩, 0⟩ }
    let moves : List Move := [.read ⟨Store.only, 0⟩, .edit 0 (.delete seven), .mark 0 (some ⟨1⟩)]
    let d := (Desk.mk s []).run moves
    let e := d.after (.write Store.only 0)
    s.Arises ⟨5, 1⟩ ∧ d.Confined (.write Store.only 0) ∧
      e.store.disk.contents "f" = [0, 0, 0, 0, 0, 9, 9] ∧
      e.hand.map Page.dirtiedBy = [none] ∧
      (e.after (.act (.append Store.only))).store.disk.contents "f" = List.replicate 10 0 := by
  intro s seven moves d e
  have h : s.Arises ⟨5, 1⟩ := Store.numbersOver_arises _
  refine ⟨h, (run_confined h moves _).1, ?_, ?_, ?_⟩
  all_goals decide +kernel

/-- A page is added under the last page number. The one that is added after it takes the place of
the first page. -/
theorem Store.append_starts_over :
    let s := numbersOver ⟨[.written [1, 7, 0, 0, 0], .gap (5 * (HeapFile.pageNumbers - 2))]⟩
    let t := s.after (.append only)
    let u := t.after (.append only)
    s.Arises ⟨5, 1⟩ ∧ s.result (.append only) = .ok () ∧ t.result (.append only) = .ok () ∧
      s.pageCount only = .ok 4294967295 ∧ t.pageCount only = .ok 0 ∧
      (t.disk.file "f").size = 5 * 4294967296 ∧ (u.disk.file "f").size = 5 * 4294967296 ∧
      (t.disk.file "f").read 0 5 = [1, 7, 0, 0, 0] ∧
      (u.disk.file "f").read 0 5 = [0, 0, 0, 0, 0] := by
  refine ⟨numbersOver_arises _, ?_, ?_, ?_, ?_, ?_, ?_, ?_, ?_⟩
  all_goals decide +kernel

end Rowstore
