import Mathlib
import Rowstore.Mutation
import Rowstore.Scan
import Rowstore.Proofs.File.Pages
import Rowstore.Proofs.Pool.Lookup

/-!
# Moves of a store

What it comes to that a page is acquired, `Store.acquire_cases`, or written,
`Store.flushPage_cases`, that a row is stored in a page, `Store.insertIntoPage_cases`, or deleted
from a file, `Store.deleteFromFile_cases`. Some operations only acquire pages, or only write them:

* When all pages are written, and at the end of a transaction, pages are written or given up one
  after another, `Store.Clears`.
* A scan acquires pages for its transaction, one after another, `Store.Acquires`. This is so whether
  it comes to another row, to the end, or fails.

So what holds from one store to the next, whenever a page is acquired or written, holds of these
operations as a whole.
-/

namespace Rowstore

namespace Store

variable {s t u : Store} {tx : TxId} {id : PageId} {page : Page}

/-- A page that is acquired was in the pool, or it is read from its file and loaded. -/
theorem acquire_cases (h : s.acquire tx id = .ok (page, t)) :
    (s.pool.page? id = some page ∧ t = { s with pool := s.pool.hold tx id }) ∨
      ∃ f pool, s.pool.page? id = none ∧ s.catalog.file id.table = .ok f ∧
        f.readPage s.disk id = .ok page ∧ s.pool.load page = .ok pool ∧
        t = { s with pool := pool.hold tx id } := by
  unfold acquire at h
  split at h
  · rename_i hpage
    cases h
    exact .inl ⟨hpage, rfl⟩
  · rename_i hmiss
    obtain ⟨f, hf, h⟩ := bind_eq_ok_iff.1 h
    obtain ⟨read, hread, h⟩ := bind_eq_ok_iff.1 h
    obtain ⟨pool, hload, h⟩ := bind_eq_ok_iff.1 h
    cases h
    exact .inr ⟨f, pool, hmiss, hf, hread, hload, rfl⟩

theorem id_of_acquire (h : s.acquire tx id = .ok (page, t)) : page.id = id := by
  rcases acquire_cases h with ⟨hpage, -⟩ | ⟨f, pool, -, -, hread, -, -⟩
  · exact (Pool.mem_of_page? hpage).2
  · exact (HeapFile.holds_of_readPage hread).2.1

/-- Only the pool changes when a page is acquired. -/
theorem eq_of_acquire (h : s.acquire tx id = .ok (page, t)) : t = { s with pool := t.pool } := by
  rcases acquire_cases h with ⟨-, rfl⟩ | ⟨f, pool, -, -, -, -, rfl⟩
  · rfl
  · rfl

/-- A page that was acquired is held. -/
theorem isHeldBy_of_acquire (h : s.acquire tx id = .ok (page, t)) :
    t.pool.isHeldBy tx id = true := by
  rcases acquire_cases h with ⟨-, rfl⟩ | ⟨f, pool, -, -, -, -, rfl⟩
  · exact Pool.isHeldBy_hold_self _ tx id
  · exact Pool.isHeldBy_hold_self _ tx id

/-- A page that is not there or not changed is left. One whose table is not registered is given up,
and any other one is written and clean then. -/
theorem flushPage_cases (h : s.flushPage id = .ok t) :
    (t = s ∧ ∀ page, s.pool.page? id = some page → ¬ page.isDirty) ∨
      (t = s.discard id ∧ ∀ f, s.catalog.file id.table ≠ .ok f) ∨
      ∃ f page disk, s.catalog.file id.table = .ok f ∧ s.pool.page? id = some page ∧
        page.isDirty ∧ f.writePage s.disk page = .ok (page.mark none, disk) ∧
        t = { s with disk, pool := s.pool.put (page.mark none) } := by
  unfold flushPage at h
  cases hpage : s.pool.page? id with
  | none =>
    rw [hpage] at h
    cases h
    exact .inl ⟨rfl, nofun⟩
  | some page =>
    rw [hpage] at h
    cases hf : s.catalog.file id.table with
    | error cause =>
      rw [hf] at h
      cases h
      exact .inr (.inl ⟨rfl, nofun⟩)
    | ok f =>
      simp only [hf] at h
      split_ifs at h with hdirty
      · obtain ⟨⟨written, disk⟩, hwrite, h⟩ := bind_eq_ok_iff.1 h
        cases h
        obtain rfl := HeapFile.mark_of_writePage hwrite
        exact .inr (.inr ⟨f, page, disk, rfl, rfl, hdirty, hwrite, rfl⟩)
      · cases h
        refine .inl ⟨rfl, ?_⟩
        rintro _ ⟨⟩
        exact hdirty

/-! ### Storing and deleting rows -/

/-- A row is stored in a page that can be acquired, unless the page is full or refuses the row. It
is let go then. -/
theorem insertIntoPage_cases (s : Store) (tx : TxId) (row : Tuple) (id : PageId) :
    (∃ cause, s.acquire tx id = .error cause ∧ s.insertIntoPage tx row id = (.error cause, s)) ∨
      ∃ page t, s.acquire tx id = .ok (page, t) ∧
        ((page.freeCount = 0 ∧ s.insertIntoPage tx row id = (.ok none, t.release tx id)) ∨
          (∃ cause, page.freeCount ≠ 0 ∧ page.insert row = .error cause ∧
            s.insertIntoPage tx row id = (.error cause, t.release tx id)) ∨
          ∃ record filled, page.freeCount ≠ 0 ∧ page.insert row = .ok (record, filled) ∧
            s.insertIntoPage tx row id = (.ok (some filled), t.put filled)) := by
  unfold insertIntoPage
  cases hacquire : s.acquire tx id with
  | error cause => exact .inl ⟨cause, rfl, rfl⟩
  | ok given =>
    obtain ⟨page, t⟩ := given
    refine .inr ⟨page, t, rfl, ?_⟩
    dsimp only
    split_ifs with hfull
    · exact .inl ⟨hfull, rfl⟩
    · cases hinsert : page.insert row with
      | error cause => exact .inr (.inl ⟨cause, hfull, rfl, rfl⟩)
      | ok stored => exact .inr (.inr ⟨stored.1, stored.2, hfull, rfl, rfl⟩)

/-- A row is deleted from a page that can be acquired, unless the page refuses. It is let go then.
Nothing happens if the row is not one of a page of the file. -/
theorem deleteFromFile_cases (s : Store) (tx : TxId) (f : HeapFile) (row : Tuple) :
    (∃ cause, s.deleteFromFile tx f row = (.error cause, s)) ∨
      ∃ record count page t, row.record = some record ∧ record.page.table = f.table ∧
        f.pageCount s.disk = .ok count ∧ record.page.number < count ∧
        s.acquire tx record.page = .ok (page, t) ∧
        ((∃ cause, page.delete row = .error cause ∧
            s.deleteFromFile tx f row = (.error cause, t.release tx record.page)) ∨
          ∃ left, page.delete row = .ok left ∧
            s.deleteFromFile tx f row = (.ok record.page, t.put left)) := by
  unfold deleteFromFile
  cases row.record with
  | none => exact .inl ⟨_, rfl⟩
  | some record =>
    dsimp only
    split_ifs with htable
    · exact .inl ⟨_, rfl⟩
    · cases hcount : f.pageCount s.disk with
      | error cause => exact .inl ⟨cause, rfl⟩
      | ok count =>
        dsimp only
        split_ifs with hnumber
        · exact .inl ⟨_, rfl⟩
        · cases hacquire : s.acquire tx record.page with
          | error cause => exact .inl ⟨cause, rfl⟩
          | ok given =>
            obtain ⟨page, t⟩ := given
            refine .inr ⟨record, count, page, t, rfl, not_not.1 htable, rfl,
              Nat.lt_of_not_le hnumber, hacquire, ?_⟩
            dsimp only
            cases hdelete : page.delete row with
            | error cause => exact .inl ⟨cause, rfl, rfl⟩
            | ok left => exact .inr ⟨left, rfl, rfl⟩

/-! ### Writing pages one after another -/

/-- Pages are written or given up, one after another. -/
def Clears : Store → Store → Prop :=
  Relation.ReflTransGen fun s t => ∃ id, t = s.discard id ∨ s.flushPage id = .ok t

theorem Clears.refl (s : Store) : s.Clears s := Relation.ReflTransGen.refl

theorem Clears.trans (h : s.Clears t) (h' : t.Clears u) : s.Clears u :=
  Relation.ReflTransGen.trans h h'

theorem Clears.of_discard (s : Store) (id : PageId) : s.Clears (s.discard id) :=
  .single ⟨id, .inl rfl⟩

theorem Clears.of_flushPage (h : s.flushPage id = .ok t) : s.Clears t := .single ⟨id, .inr h⟩

theorem clears_flushPages (s : Store) (ids : List PageId) : s.Clears (s.flushPages ids).2 := by
  induction ids generalizing s with
  | nil => exact .refl s
  | cons id ids ih =>
    unfold flushPages
    cases hflush : s.flushPage id with
    | error cause => exact .refl s
    | ok t => exact (Clears.of_flushPage hflush).trans (ih t)

theorem clears_settle (commit : Bool) (o : Outcome Store Unit) (id : PageId) :
    o.2.Clears (settle commit o id).2 := by
  obtain ⟨first, s⟩ := o
  cases commit with
  | false => exact .of_discard s id
  | true =>
    unfold settle
    dsimp only
    cases hflush : s.flushPage id with
    | error cause => exact .refl s
    | ok t => exact .of_flushPage hflush

/-- At the end of a transaction its holds end, and then its pages are written or given up. -/
theorem clears_complete (s : Store) (tx : TxId) (commit : Bool) :
    Clears { s with pool := s.pool.releaseAll tx } (s.complete tx commit).2 := by
  have hsettle : ∀ (ids : List PageId) (o : Outcome Store Unit),
      o.2.Clears (ids.foldl (settle commit) o).2 := by
    intro ids
    induction ids with
    | nil => exact fun o => .refl o.2
    | cons id ids ih => exact fun o => (clears_settle commit o id).trans (ih _)
  exact hsettle _ (.ok (), _)

/-! ### Acquiring one page after another -/

/-- Pages are acquired for a transaction, one after another. -/
def Acquires (tx : TxId) : Store → Store → Prop :=
  Relation.ReflTransGen fun s t => ∃ id page, s.acquire tx id = .ok (page, t)

theorem Acquires.refl (tx : TxId) (s : Store) : Acquires tx s s := Relation.ReflTransGen.refl

theorem Acquires.trans (h : Acquires tx s t) (h' : Acquires tx t u) : Acquires tx s u :=
  Relation.ReflTransGen.trans h h'

theorem Acquires.of_acquire (h : s.acquire tx id = .ok (page, t)) :
    Acquires tx s t := .single ⟨id, page, h⟩

/-- Only the pool changes when pages are acquired. -/
theorem Acquires.eq (h : Acquires tx s t) : t = { s with pool := t.pool } := by
  induction h with
  | refl => rfl
  | tail _ hlast ih =>
    obtain ⟨id, page, hacquire⟩ := hlast
    rw [eq_of_acquire hacquire, ih]

theorem Acquires.catalog_eq (h : Acquires tx s t) : t.catalog = s.catalog := by rw [h.eq]

theorem Acquires.disk_eq (h : Acquires tx s t) : t.disk = s.disk := by rw [h.eq]

end Store

namespace Scan

theorem acquires_load (scan : Scan) (s : Store) (number : Nat) :
    s.Acquires scan.tx (scan.load s number).2 := by
  unfold load
  cases hacquire : s.acquire scan.tx ⟨scan.file.table, number⟩ with
  | error cause => exact .refl _ s
  | ok given =>
    obtain ⟨page, t⟩ := given
    exact .of_acquire hacquire

theorem acquires_start (scan : Scan) (s : Store) : s.Acquires scan.tx (scan.start s).2.2 := by
  unfold start
  cases scan.file.pageCount s.disk with
  | error cause => exact .refl _ s
  | ok pageCount =>
    dsimp only
    split_ifs
    · exact .refl _ s
    · have hload := acquires_load { scan with page := 0, pageCount } s 0
      generalize load { scan with page := 0, pageCount } s 0 = o at hload ⊢
      obtain ⟨cause | rows, t⟩ := o
      · exact hload
      · exact hload

theorem acquires_seek (scan : Scan) (s : Store) (pages : Nat) :
    s.Acquires scan.tx (scan.seek s pages).2.2 := by
  induction pages generalizing scan s with
  | zero => exact .refl _ s
  | succ pages ih =>
    have hload := acquires_load { scan with page := scan.page + 1 } s (scan.page + 1)
    unfold seek
    dsimp only
    generalize load { scan with page := scan.page + 1 } s (scan.page + 1) = o at hload ⊢
    obtain ⟨cause | rows, t⟩ := o
    · exact hload
    · simp only [Outcome.andThen_ok]
      split_ifs
      · exact hload.trans (ih { scan with page := scan.page + 1, rest := some rows } t)
      · exact hload

theorem acquires_hasNext (scan : Scan) (s : Store) : s.Acquires scan.tx (scan.hasNext s).2.2 := by
  unfold hasNext
  split
  · exact .refl _ s
  · exact .refl _ s
  · exact scan.acquires_seek s _

theorem acquires_next (scan : Scan) (s : Store) : s.Acquires scan.tx (scan.next s).2.2 := by
  have hlook := scan.acquires_hasNext s
  unfold next
  generalize scan.hasNext s = o at hlook ⊢
  obtain ⟨cause | more, scan', t⟩ := o
  · exact hlook
  · simp only [Outcome.andThen_ok]
    split
    · exact hlook
    · exact hlook

end Scan

end Rowstore
